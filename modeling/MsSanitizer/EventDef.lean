import MsSanitizer.RecordDefs
import MsSanitizer.VectorTime

/-!
The events that the parser makes of records and that the race sanitizer replays.

The model of `event_def.h` and of the enumerations of `arch_def.h` it uses. A `SanEvent` of the
source has a type and a union; here the union is an inductive type with one constructor for
each event type, and the type of an event is read off it. Of the payloads that none of the
modelled functions reads, only the event type is kept.
-/

namespace MsSanitizer.EventDef

open RecordDefs

/-- `PipeType`, without the bound `SIZE`. -/
inductive PipeType
  | s | v | m | mte1 | mte2 | mte3 | all | mte4 | mte5 | v2 | fix | sCal
  deriving DecidableEq, Repr

/-- `PipeType::SIZE`. -/
def pipeSize : ℕ := 12

def PipeType.idx : PipeType → ℕ
  | s => 0 | v => 1 | m => 2 | mte1 => 3 | mte2 => 4 | mte3 => 5
  | all => 6 | mte4 => 7 | mte5 => 8 | v2 => 9 | fix => 10 | sCal => 11

lemma PipeType.idx_lt (p : PipeType) : p.idx < pipeSize := by cases p <;> decide

lemma PipeType.idx_injective : Function.Injective PipeType.idx := by
  intro p q h
  cases p <;> cases q <;> first | rfl | cases h

inductive MemType
  | l1 | l0a | l0b | l0c | ub | bt | gm | priv | fb | unknown
  deriving DecidableEq, Repr

inductive KernelType
  | aicpu | aivec | aicube | mix
  deriving DecidableEq, Repr

inductive SyncType
  | setFlag | waitFlag | pipeBarrier | fftsSync | waitFlagDev | ibSet | ibWait | syncAll
  | mstxSetCross | mstxWaitCross | getBuf | rlsBuf | waitIntraBlock | hsetFlag | hwaitFlag | dsb
  deriving DecidableEq, Repr

inductive SanitizerControlType
  | kernelFinish | finish
  deriving DecidableEq, Repr

inductive MaskMode
  | norm | count
  deriving DecidableEq, Repr

inductive InstrClass
  | unknown | cubeMatmul
  deriving DecidableEq, Repr

inductive BufMode
  | blockMode | nonBlockMode
  deriving DecidableEq, Repr

/-- `MemOpInfo`; of the mask only its first word is read. -/
structure MemOpInfo where
  memType : MemType := .l1
  opType : AccessType := .read
  mask0 : ℕ := 0
  maskMode : MaskMode := .norm
  dataBits : ℕ := 0
  addr : ℕ := 0
  blockNum : ℕ := 0
  blockSize : ℕ := 0
  blockStride : ℕ := 0
  repeatTimes : ℕ := 0
  repeatStride : ℕ := 0
  isScalarAtomic : Bool := false
  dstCoreId : ℕ := 0
  dstBlockType : BlockType := .aivec
  instrClass : InstrClass := .unknown
  matrixM : ℕ := 0
  matrixN : ℕ := 0
  deriving DecidableEq, Repr

structure SyncOpInfo where
  opType : SyncType
  srcPipe : PipeType
  dstPipe : PipeType
  eventId : ℕ := 0
  memType : MemType := .unknown
  isRetrogress : Bool := false
  isGenerated : Bool := false
  deriving DecidableEq, Repr

structure HSyncOpInfo where
  opType : SyncType
  srcPipe : PipeType
  dstPipe : PipeType
  eventId : ℕ := 0
  memType : MemType := .unknown
  v : ℕ := 0
  isReplaced : Bool := false
  deriving DecidableEq, Repr

structure FftsSyncInfo where
  opType : SyncType
  dstPipe : PipeType
  flagId : ℕ := 0
  mode : ℕ := 0
  vecSubBlockDim : ℕ := 0
  deriving DecidableEq, Repr

structure BufSyncInfo where
  opType : SyncType
  pipe : PipeType
  bufId : ℕ := 0
  rlsCount : ℕ := 0
  mode : BufMode := .blockMode
  deriving DecidableEq, Repr

structure SoftSyncInfo where
  opType : SyncType
  eventID : ℤ := 0
  waitCoreID : ℤ := 0
  usedCores : ℤ := 0
  isAIVOnly : Bool := false
  deriving DecidableEq, Repr

structure MstxCrossInfo where
  opType : SyncType
  pipe : PipeType
  addr : ℕ := 0
  flagId : ℕ := 0
  isMore : Bool := false
  isMerge : Bool := false
  deriving DecidableEq, Repr

inductive CompareOp
  | eq | ne | gt | ge | lt | le
  deriving DecidableEq, Repr

structure MstxSignalSet where
  addr : ℕ := 0
  value : ℤ := 0
  deriving DecidableEq, Repr

structure MstxSignalWait where
  addr : ℕ := 0
  cmpValue : ℤ := 0
  cmpOp : CompareOp := .eq
  deriving DecidableEq, Repr

/-- `MstxCrossCoreBarrier`; the list of core ids is carried along and never read. -/
structure MstxCrossCoreBarrier where
  usedCoreNum : ℕ := 0
  isAIVOnly : Bool := false
  deriving DecidableEq, Repr

/-- `MstxCrossNpuBarrier`, likewise. -/
structure MstxCrossNpuBarrier where
  usedDeviceNum : ℕ := 0
  usedCoreNum : ℕ := 0
  isAIVOnly : Bool := false
  deriving DecidableEq, Repr

/-- `ShadowMemoryRecord`: one access of a dynamic event. -/
structure ShadowMemoryRecord where
  addr : ℕ := 0
  size : ℕ := 0
  pc : ℕ := 0
  accessType : AccessType := .read
  lineNo : ℕ := 0
  mainScalarPc : ℕ := 0
  deriving DecidableEq, Repr

def simtEntry : ℕ := 80000

/-- `DynamicOpInfo`; a buffer that is not there is `none`. -/
structure DynamicOpInfo where
  count : ℕ := 0
  minAddr : ℕ := 0
  maxAddr : ℕ := 0
  dynamicType : ℕ := invalidRecordType
  memType : MemType := .l1
  buffer : Option (List ShadowMemoryRecord) := none
  deriving DecidableEq, Repr

structure LocInfo where
  fileNo : ℕ := 0
  lineNo : ℕ := 0
  pc : ℕ := 0
  deviceIdx : ℕ := 0
  kernelIdx : ℕ := 0
  deviceId : ℕ := 0
  coreId : ℕ := 0
  blockType : BlockType := .aivec
  deriving DecidableEq, Repr

/-- `EventType` with the member of the union that goes with it. A time event carries the
snapshot that the source keeps in a pool and points to. -/
inductive EventInfo
  | sanitizerControl (info : SanitizerControlType)
  | mem (info : MemOpInfo)
  | sync (info : SyncOpInfo)
  | time (info : Option VectorTime)
  | crossCoreSync (info : FftsSyncInfo)
  | crossCoreSoftSync (info : SoftSyncInfo)
  | mstxCrossSync (info : MstxCrossInfo)
  | register
  | hSync (info : HSyncOpInfo)
  | bufSync (info : BufSyncInfo)
  | mstxSignalSet (info : MstxSignalSet)
  | mstxSignalWait (info : MstxSignalWait)
  | mstxCrossCoreBarrier (info : MstxCrossCoreBarrier)
  | mstxCrossNpuBarrier (info : MstxCrossNpuBarrier)
  | dynamicMem (info : DynamicOpInfo)
  deriving DecidableEq, Repr

structure SanEvent where
  serialNo : ℕ := 0
  pipe : PipeType := .s
  info : EventInfo
  loc : LocInfo := {}
  isAtomicMode : Bool := false
  recordType : ℕ := invalidRecordType
  closedRingStartSerialNo : ℕ := 0
  deriving DecidableEq, Repr

/-- `HasSubBlocks`: the 910B and the 950 series. -/
def hasSubBlocks (d : DeviceType) : Bool := (1 < d.code && d.code < 6) || isAscend95 d

def needExpandBlockDim (kernelType : KernelType) (deviceType : DeviceType) : Bool :=
  decide (kernelType = .mix) && hasSubBlocks deviceType

/-- `C220_VEC_SUB_BLOCKDIM` and `C220_MIX_SUB_BLOCKDIM`. -/
def c220VecSubBlockDim : ℕ := 2
def c220MixSubBlockDim : ℕ := c220VecSubBlockDim + 1

/-- `GetEventExpandBlockIndexByLoc`: two vector blocks and a cube block for each core. -/
def getEventExpandBlockIndexByLoc (loc : LocInfo) : ℕ :=
  if loc.blockType = .aivec then
    loc.coreId / c220VecSubBlockDim * c220MixSubBlockDim + loc.coreId % c220VecSubBlockDim
  else loc.coreId * c220MixSubBlockDim + c220VecSubBlockDim

/-- `GetEventBlockIndex`, the same for the replay and for a check of several blocks. -/
def getEventBlockIndexOf (loc : LocInfo) (kernelType : KernelType) (deviceType : DeviceType) : ℕ :=
  if needExpandBlockDim kernelType deviceType then getEventExpandBlockIndexByLoc loc
  else loc.coreId

/-- `GetEventBlockIndexByLoc` for `SINGLE_BLOCK_CHECK`. -/
def getEventBlockIndex (loc : LocInfo) (kernelType : KernelType) (deviceType : DeviceType) : ℕ :=
  if needExpandBlockDim kernelType deviceType then getEventExpandBlockIndexByLoc loc else 0

end MsSanitizer.EventDef
