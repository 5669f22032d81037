import MsSanitizer.EventDef

/-!
The parser that turns the records of a kernel into events.

The model of `RecordParse::Parse` with its thread-local state, and of the handlers that
`g_parseFuncs` gives to the synchronisation records. A memory instruction enters as the list of
what its handler appends: the decoding of the operands of an instruction into its accesses reads
nothing but the payload and the location of the record. The two families of instructions that
may append a unit flag (`ParseMatrixMulOpRecord` and its kind, on the cube pipe, and
`ParseRecordMovFp` and its kind, on the fix pipe) have constructors of their own.

The hash sets of the graph of pipes list their pipes in the order of insertion. The loop of
`ProcessHsetWaitSync` that appends to the vector it runs over is taken to run over the events
that were there when it started.
-/

namespace MsSanitizer.RecordParse

open RecordDefs EventDef

/-! ## Records -/

structure Location where
  fileNo : ℕ := 0
  lineNo : ℕ := 0
  pc : ℕ := 0
  blockId : ℕ := 0
  deriving DecidableEq, Repr

inductive MemDsbType
  | all | ddr | ub | seq
  deriving DecidableEq, Repr

inductive AtomicMode
  | none | f32 | f16 | s16 | s32 | s8 | bf16 | sum | max | min
  deriving DecidableEq, Repr

structure SyncRecord where
  src : PipeType
  dst : PipeType
  eventID : ℕ := 0
  isGenerated : Bool := false
  deriving DecidableEq, Repr

structure BufRecord where
  pipe : PipeType
  bufId : ℕ := 0
  mode : BufMode := .blockMode
  deriving DecidableEq, Repr

structure HardSyncRecord where
  src : PipeType
  dst : PipeType
  eventID : ℕ := 0
  memory : MemType := .l1
  v : ℕ := 0
  deriving DecidableEq, Repr

structure SoftSyncRecord where
  waitCoreID : ℕ := 0
  usedCores : ℤ := 0
  eventID : ℤ := 0
  isAIVOnly : Bool := false
  deriving DecidableEq, Repr

structure FftsSyncRecord where
  dst : PipeType
  mode : ℕ := 0
  flagID : ℕ := 0
  vecSubBlockDim : ℕ := 0
  deriving DecidableEq, Repr

structure IntraBlockSyncRecord where
  pipe : PipeType
  syncID : ℕ := 0
  vecSubBlockDim : ℕ := 0
  deriving DecidableEq, Repr

structure MstxCrossRecord where
  addr : ℕ := 0
  flagId : ℕ := 0
  pipe : PipeType := .s
  isMore : Bool := false
  isMerge : Bool := false
  deriving DecidableEq, Repr

/-- The record types that share the handler of a flag: the plain one, the one with an immediate
id, and the two of the vector core. -/
inductive FlagForm
  | plain | imm | vec | vecImm
  deriving DecidableEq, Repr

/-- The record types between the synchronisation records and those the host makes up. -/
def isCtrlType (t : ℕ) : Bool :=
  (decide (20000 ≤ t) && decide (t ≤ 20044) && !(decide (20018 ≤ t) && decide (t ≤ 20020))) ||
    (decide (100000 ≤ t) && decide (t ≤ 100002))

/-- The record type of an instruction. -/
structure InstrType where
  code : ℕ
  notCtrl : isCtrlType code = false
  deriving DecidableEq, Repr

def InstrType.vector : InstrType := ⟨100, rfl⟩

/-- An event that a handler appends, before the location of the record is written to it. -/
abbrev Body := PipeType × EventInfo

/-- The payload of a `KernelRecord` with the handler that reads it. -/
inductive Payload
  | instr (type : InstrType) (bodies : List Body)
  | matmul (type : InstrType) (accesses : List MemOpInfo) (enUnitFlag : Bool)
  | movFp (type : InstrType) (accesses : List MemOpInfo) (enUnitFlag : Bool)
  | setFlag (form : FlagForm) (record : SyncRecord)
  | waitFlag (form : FlagForm) (record : SyncRecord)
  | hsetFlag (imm : Bool) (record : HardSyncRecord)
  | hwaitFlag (imm : Bool) (record : HardSyncRecord)
  | pipeBarrier (pipe : PipeType)
  | dsb (pipe : PipeType) (memDomain : MemDsbType)
  | getBuf (form : FlagForm) (record : BufRecord)
  | rlsBuf (form : FlagForm) (record : BufRecord)
  | fftsSync (vec : Bool) (record : FftsSyncRecord)
  | waitFlagDev (flagID : ℕ)
  | waitFlagDevPipe (form : FlagForm) (flagID : ℕ) (pipe : PipeType)
  | setIntraBlock (form : FlagForm) (record : IntraBlockSyncRecord)
  | waitIntraBlock (form : FlagForm) (record : IntraBlockSyncRecord)
  | ibSet (record : SoftSyncRecord)
  | ibWait (record : SoftSyncRecord)
  | syncAll
  | mstxCross (error isWait : Bool) (record : MstxCrossRecord)
  | mstxOther (bodies : List Body)
  | setAtomic (mode : AtomicMode)
  | dynamicOp (event : Option (PipeType × ℕ × DynamicOpInfo))
  | blockFinish
  | kernelFinish
  | finish
  deriving DecidableEq, Repr

/-- The code of a record type whose four forms have these codes. -/
def FlagForm.code : FlagForm → ℕ → ℕ → ℕ → ℕ → ℕ
  | plain, a, _, _, _ => a
  | imm, _, b, _, _ => b
  | vec, _, _, c, _ => c
  | vecImm, _, _, _, d => d

/-- `RecordType`, by its codes. -/
def Payload.recordType : Payload → ℕ
  | instr t _ => t.code
  | matmul t _ _ => t.code
  | movFp t _ _ => t.code
  | setFlag f _ => f.code 20000 20025 20029 20030
  | waitFlag f _ => f.code 20001 20026 20031 20032
  | hsetFlag imm _ => if imm then 20027 else 20002
  | hwaitFlag imm _ => if imm then 20028 else 20003
  | pipeBarrier _ => 20004
  | fftsSync vec _ => if vec then 20033 else 20005
  | waitFlagDev _ => 20006
  | setAtomic _ => 20007
  | ibSet _ => 20008
  | ibWait _ => 20009
  | syncAll => 20010
  | waitFlagDevPipe f _ _ => f.code 20011 20012 20034 20035
  | setIntraBlock f _ => f.code 20013 20015 20036 20037
  | waitIntraBlock f _ => f.code 20014 20016 20038 20039
  | mstxCross _ _ _ => 20017
  | mstxOther _ => 20017
  | getBuf f _ => f.code 20021 20022 20040 20041
  | rlsBuf f _ => f.code 20023 20024 20042 20043
  | dsb _ _ => 20044
  | dynamicOp _ => 79999
  | blockFinish => 100000
  | kernelFinish => 100001
  | finish => 100002

structure KernelRecord where
  blockType : BlockType := .aivec
  serialNo : ℕ := 0
  location : Location := {}
  payload : Payload
  deriving DecidableEq, Repr

/-- `BLOCK_FINISH` and `KERNEL_FINISH`, which reset the parser. -/
def KernelRecord.isFinish (r : KernelRecord) : Bool :=
  match r.payload with
  | .blockFinish | .kernelFinish => true
  | _ => false

def KernelRecord.recordType (r : KernelRecord) : ℕ := r.payload.recordType

/-! ## The state of the parser -/

structure HsetRecordKey where
  srcPipe : PipeType
  dstPipe : PipeType
  eventId : ℕ
  memType : MemType
  deriving DecidableEq, Repr

/-- The value of a memory type in the enumeration. -/
def memTypeIdx : MemType → ℕ
  | .l1 => 0 | .l0a => 1 | .l0b => 2 | .l0c => 3 | .ub => 4 | .bt => 5 | .gm => 6 | .priv => 7
  | .fb => 8 | .unknown => 9

/-- `HsetRecordKey::operator <`. -/
def HsetRecordKey.lt (a b : HsetRecordKey) : Bool :=
  if a.srcPipe ≠ b.srcPipe then decide (a.srcPipe.idx < b.srcPipe.idx)
  else if a.dstPipe ≠ b.dstPipe then decide (a.dstPipe.idx < b.dstPipe.idx)
  else if a.eventId ≠ b.eventId then decide (a.eventId < b.eventId)
  else decide (memTypeIdx a.memType < memTypeIdx b.memType)

structure HsetRecordState where
  cacheMode0 : Bool := false
  cacheMode1 : Bool := false
  isTransSet : Bool := false
  deriving DecidableEq, Repr

/-- The ordered map `hsetSyncMap_`. -/
abbrev HsetMap := List (HsetRecordKey × HsetRecordState)

/-- `map::find`. -/
def hsetFind (m : HsetMap) (k : HsetRecordKey) : Option HsetRecordState :=
  (m.find? fun kv => kv.1 == k).map (·.2)

/-- Assignment through `map::operator[]`. -/
def hsetPut : HsetMap → HsetRecordKey → HsetRecordState → HsetMap
  | [], k, s => [(k, s)]
  | kv :: m, k, s =>
    if kv.1 = k then (k, s) :: m
    else if HsetRecordKey.lt k kv.1 then (k, s) :: kv :: m
    else kv :: hsetPut m k s

/-- `map::erase`. -/
def hsetErase (m : HsetMap) (k : HsetRecordKey) : HsetMap := m.filter fun kv => !(kv.1 == k)

/-- `RingStartPoints`: for each pipe the largest start of a ring, `0` for none. -/
abbrev RingStartPoints := PipeType → ℕ

/-- The thread-local state of the parser. -/
structure ParseState where
  dstSrcGraph : PipeType → List PipeType := fun _ => []
  edgeStartPoints : PipeType → PipeType → ℕ → Option RingStartPoints := fun _ _ _ => none
  inheritedStartPoints : PipeType → RingStartPoints := fun _ _ => 0
  closedRingStartSerialNo : PipeType → ℕ := fun _ => 0
  hsetSyncMap : HsetMap := []
  getRlsBufMap : ℕ × ℕ → ℕ := fun _ => 0
  mapAtomicMode : ℕ → Bool := fun _ => false

def ParseState.resetSyncInPipeInfo (st : ParseState) : ParseState :=
  { st with
    dstSrcGraph := fun _ => []
    edgeStartPoints := fun _ _ _ => none
    inheritedStartPoints := fun _ _ => 0
    closedRingStartSerialNo := fun _ => 0 }

def ParseState.resetAll (st : ParseState) : ParseState :=
  { st.resetSyncInPipeInfo with hsetSyncMap := [], getRlsBufMap := fun _ => 0 }

/-- What the parser reads of `RuntimeContext` and `KernelManager`, and the `capacity()` that the
list of events has while it is empty. -/
structure Context where
  deviceId : ℕ := 0
  kernelCount : ℕ := 0
  kernelIdx : ℕ := 0
  room : ℕ := 0
  deriving DecidableEq, Repr

/-! ## Events of a record -/

/-- A new event with `SetLocationInfo`. -/
def newEvent (ctx : Context) (st : ParseState) (r : KernelRecord) (body : Body) : SanEvent :=
  { serialNo := r.serialNo
    pipe := body.1
    info := body.2
    loc :=
      { fileNo := r.location.fileNo
        lineNo := r.location.lineNo
        pc := r.location.pc
        kernelIdx := ctx.kernelCount - 1
        deviceId := ctx.deviceId
        coreId := r.location.blockId
        blockType := r.blockType }
    isAtomicMode := st.mapAtomicMode r.location.blockId }

/-- `CreateCrossPipeSyncEvent`. -/
def crossPipeSync (opType : SyncType) (pipeSrc pipeDst : PipeType) : Body :=
  (if opType = .setFlag then pipeSrc else pipeDst,
    .sync { opType, srcPipe := pipeSrc, dstPipe := pipeDst, eventId := 11, isGenerated := true })

/-- `CreateInnerPipeSyncEvent`. -/
def innerPipeSync (pipe : PipeType) : Body :=
  (pipe, .sync { opType := .pipeBarrier, srcPipe := .s, dstPipe := .s, isGenerated := true })

/-- A barrier on a pipe and a pair of flags that makes the scalar pipe wait for it. -/
def barrierAndFlags (pipe : PipeType) : List Body :=
  [innerPipeSync pipe, crossPipeSync .setFlag pipe .s, crossPipeSync .waitFlag pipe .s]

/-- `CreatePipeAllSyncEvent`. -/
def pipeAllSync : List Body :=
  [PipeType.v, .m, .mte1, .mte2, .mte3, .all, .mte4, .mte5, .v2, .fix, .sCal].flatMap
    barrierAndFlags

/-- `CreatePipeDdrSyncEvent`. -/
def pipeDdrSync : List Body := [PipeType.mte2, .mte3].flatMap barrierAndFlags

/-- `CreateUnitFlagSyncEvent`. -/
def unitFlagSync (isWriteMode : Bool) : List Body :=
  let srcPipe : PipeType := if isWriteMode then .m else .fix
  let dstPipe : PipeType := if isWriteMode then .fix else .m
  [crossPipeSync .setFlag srcPipe dstPipe, crossPipeSync .waitFlag srcPipe dstPipe]

/-- The number of event ids that the hardware knows, `EventID::VALID_EVENT_ID_SIZE`. -/
def validEventIdSize : ℕ := 8

/-- `ParseRecordSetFlag` and `ParseRecordWaitFlag`. -/
def flagSync (opType : SyncType) (record : SyncRecord) : Body :=
  (if opType = .setFlag then record.src else record.dst,
    .sync
      { opType
        srcPipe := record.src
        dstPipe := record.dst
        eventId := record.eventID % validEventIdSize
        isGenerated := record.isGenerated })

def isValidHardSyncRecord (blockType : BlockType) (record : HardSyncRecord) : Bool :=
  decide (blockType ≠ .aivec) &&
    decide (record.src ∈ [PipeType.mte1, .m, .fix]) &&
    decide (record.dst ∈ [PipeType.mte1, .m, .fix]) &&
    !decide (record.memory ∈ [MemType.gm, .ub, .unknown]) &&
    decide (record.v ≤ 1) && decide (record.eventID ≤ 3)

/-- `ParseRecordHsetFlag` and `ParseRecordHwaitFlag`. -/
def hardSync (opType : SyncType) (blockType : BlockType) (record : HardSyncRecord) : List Body :=
  if isValidHardSyncRecord blockType record then
    [(if opType = .hsetFlag then record.src else record.dst,
      .hSync
        { opType
          srcPipe := record.src
          dstPipe := record.dst
          eventId := record.eventID
          memType := record.memory
          v := record.v })]
  else []

def dsbToMemType : MemDsbType → MemType
  | .ddr => .gm
  | .ub => .ub
  | .all | .seq => .unknown

/-- `ParseRecordDsb`. -/
def dsbSync (blockType : BlockType) (pipe : PipeType) (memDomain : MemDsbType) : List Body :=
  if memDomain = .all ∨ (memDomain = .ub ∧ blockType = .aivec) then pipeAllSync
  else if memDomain = .ddr ∧ blockType = .aivec then pipeDdrSync
  else
    [(pipe, .sync
      { opType := .dsb, srcPipe := .s, dstPipe := .s, memType := dsbToMemType memDomain,
        isGenerated := true })]

/-- `ParseRecordSyncAllStub`. -/
def syncAllStub : List Body :=
  let info : FftsSyncInfo :=
    { opType := .fftsSync, dstPipe := .s, flagId := 31, mode := 0, vecSubBlockDim := 2 }
  [(.s, .crossCoreSync info), (.s, .crossCoreSync { info with opType := .waitFlagDev })]

/-- `ParseRecordIBSetStub` and `ParseRecordIBWaitStub`. -/
def softSync (opType : SyncType) (record : SoftSyncRecord) : Body :=
  (.s, .crossCoreSoftSync
    { opType, eventID := record.eventID, waitCoreID := record.waitCoreID,
      isAIVOnly := record.isAIVOnly })

/-- `FormatConverter::GetAtomicFlag`: `none` where the mode leaves the flag alone. -/
def getAtomicFlag : AtomicMode → Option Bool
  | .sum | .min | .max => none
  | .f32 | .f16 | .s16 | .s32 | .s8 | .bf16 => some true
  | .none => some false

/-- What the handler of a record appends, for the handlers that read nothing of the state but
the atomic mode. -/
def Payload.bodies (blockType : BlockType) : Payload → List Body
  | instr _ bodies => bodies
  | matmul _ accesses enUnitFlag =>
    accesses.map (fun op => (PipeType.m, EventInfo.mem op)) ++
      if enUnitFlag then unitFlagSync true else []
  | movFp _ accesses enUnitFlag =>
    accesses.map (fun op => (PipeType.fix, EventInfo.mem op)) ++
      if enUnitFlag then unitFlagSync false else []
  | setFlag _ record => [flagSync .setFlag record]
  | waitFlag _ record => [flagSync .waitFlag record]
  | hsetFlag _ record => hardSync .hsetFlag blockType record
  | hwaitFlag _ record => hardSync .hwaitFlag blockType record
  | pipeBarrier pipe => if pipe = .all then pipeAllSync else [innerPipeSync pipe]
  | dsb pipe memDomain => dsbSync blockType pipe memDomain
  | fftsSync _ record =>
    [(record.dst, .crossCoreSync
        { opType := .fftsSync, dstPipe := record.dst, flagId := record.flagID,
          mode := record.mode, vecSubBlockDim := record.vecSubBlockDim }),
      innerPipeSync record.dst]
  | waitFlagDev flagID =>
    [(.s, .crossCoreSync { opType := .waitFlagDev, dstPipe := .s, flagId := flagID })]
  | waitFlagDevPipe _ flagID pipe =>
    [(pipe, .crossCoreSync { opType := .waitFlagDev, dstPipe := pipe, flagId := flagID })]
  | setIntraBlock _ record =>
    [(record.pipe, .crossCoreSync
      { opType := .fftsSync, dstPipe := record.pipe, flagId := record.syncID % 2 ^ 8, mode := 4,
        vecSubBlockDim := record.vecSubBlockDim })]
  | waitIntraBlock _ record =>
    [(record.pipe, .crossCoreSync
      { opType := .waitIntraBlock, dstPipe := record.pipe, flagId := record.syncID % 2 ^ 8 })]
  | ibSet record => [softSync .ibSet record]
  | ibWait record => [softSync .ibWait record]
  | syncAll => syncAllStub
  | mstxCross error isWait record =>
    if error then []
    else
      [(record.pipe, .mstxCrossSync
        { opType := if isWait then .mstxWaitCross else .mstxSetCross, pipe := record.pipe,
          addr := record.addr, flagId := record.flagId, isMore := record.isMore,
          isMerge := record.isMerge })]
  | mstxOther bodies => bodies
  | _ => []

/-- The handler that `g_parseFuncs` has for a record: the events it appends and the state it
leaves. There is none for `BLOCK_FINISH`. -/
def parseFunc (ctx : Context) (r : KernelRecord) (st : ParseState) :
    List SanEvent × ParseState :=
  match r.payload with
  | .getBuf _ record =>
    let rlsCount :=
      if record.mode = .blockMode then st.getRlsBufMap (r.location.blockId, record.bufId) else 0
    ([newEvent ctx st r (record.pipe, .bufSync
      { opType := .getBuf, pipe := record.pipe, bufId := record.bufId, rlsCount,
        mode := record.mode })], st)
  | .rlsBuf _ record =>
    let key := (r.location.blockId, record.bufId)
    ([newEvent ctx st r (record.pipe, .bufSync
      { opType := .rlsBuf, pipe := record.pipe, bufId := record.bufId, mode := record.mode })],
      { st with
        getRlsBufMap := Function.update st.getRlsBufMap key (st.getRlsBufMap key + 1) })
  | .setAtomic mode =>
    match getAtomicFlag mode with
    | some enabled =>
      ([], { st with mapAtomicMode := Function.update st.mapAtomicMode r.location.blockId enabled })
    | none => ([], st)
  | .dynamicOp none => ([], st)
  | .dynamicOp (some (pipe, coreId, info)) =>
    -- `ParseRecordDynamic` fills in the location by itself and leaves out the atomic mode
    ([{ serialNo := r.serialNo
        pipe
        info := .dynamicMem info
        loc :=
          { kernelIdx := ctx.kernelCount - 1, deviceId := ctx.deviceId, coreId,
            blockType := r.blockType } }], st)
  | .kernelFinish =>
    ([{ serialNo := r.serialNo
        info := .sanitizerControl .kernelFinish
        loc :=
          { deviceId := ctx.deviceId, kernelIdx := (ctx.kernelIdx + 2 ^ 32 - 1) % 2 ^ 32 } }], st)
  | .finish =>
    ([{ serialNo := r.serialNo
        info := .sanitizerControl .finish
        loc := { deviceId := ctx.deviceId } }], st)
  | payload => ((payload.bodies r.blockType).map (newEvent ctx st r), st)

/-! ## The lowering of `HSET_FLAG` and `HWAIT_FLAG` -/

/-- `HsetWaitCreateSyncEvent`, whose event takes its place from the last one of the list. -/
def hsetWaitCreateSyncEvent (opType : SyncType) (pipeSrc pipeDst : PipeType) (event : SanEvent)
    (eventId : ℕ) : SanEvent :=
  { serialNo := event.serialNo
    loc := event.loc
    pipe := if opType = .setFlag then pipeSrc else pipeDst
    info := .sync
      { opType
        srcPipe := pipeSrc
        dstPipe := pipeDst
        eventId := 120 + eventId
        isRetrogress := true
        isGenerated := true } }

/-- The key of a `HSET_FLAG` or a `HWAIT_FLAG`. -/
def hsetKey (h : HSyncOpInfo) : HsetRecordKey :=
  { srcPipe := h.srcPipe, dstPipe := h.dstPipe, eventId := h.eventId, memType := h.memType }

/-- The event with `isReplaced` set. -/
def replaced (e : SanEvent) (h : HSyncOpInfo) : SanEvent :=
  { e with info := .hSync { h with isReplaced := true } }

/-- The mode of a `HSET_FLAG` is remembered. -/
def HsetRecordState.cache (states : HsetRecordState) (v : ℕ) : HsetRecordState :=
  if v = 0 then { states with cacheMode0 := true }
  else if v = 1 then { states with cacheMode1 := true }
  else states

/-- One round of the first loop of `ProcessHsetWaitSync`: the event with what the round writes,
the flag that is appended, and the map. `last` is the last event of the vector. -/
def hsetWaitEvent (last : SanEvent) (m : HsetMap) (e : SanEvent) :
    SanEvent × Option SanEvent × HsetMap :=
  match e.info with
  | .hSync h =>
    let states := (hsetFind m (hsetKey h)).getD {}
    if h.opType = .hsetFlag ∧ h.isReplaced = false then
      -- a set that was turned into a flag stays as it is, and so does this event
      if states.isTransSet then (e, none, hsetPut m (hsetKey h) states)
      else (replaced e h, none, hsetPut m (hsetKey h) (states.cache h.v))
    else if h.opType = .hwaitFlag ∧ h.isReplaced = false then
      (replaced e h,
        if states.isTransSet then
          some (hsetWaitCreateSyncEvent .waitFlag h.srcPipe h.dstPipe last h.eventId)
        else none,
        hsetErase m (hsetKey h))
    else (e, none, m)
  | _ => (e, none, m)

/-- The capacity of a `std::vector` with room for `room` elements after `n` calls of `push_back`,
which doubles it where it is full (`_M_check_len`). -/
def capacity (room : ℕ) : ℕ → ℕ
  | 0 => room
  | n + 1 => if n < capacity room n then capacity room n else n + max n 1

/-- One more element makes a list of `n` elements move to a new storage. -/
def isFull (room n : ℕ) : Bool := decide (capacity room n ≤ n)

/-- The storage of the list of events during the first loop of `ProcessHsetWaitSync`. -/
structure Storage where
  room : ℕ
  size : ℕ
  moved : Bool := false

/-- `push_back` of the flag, if there is one. -/
def Storage.push (v : Storage) : Option SanEvent → Storage
  | none => v
  | some _ => { v with size := v.size + 1, moved := v.moved || isFull v.room v.size }

/-- The first loop of `ProcessHsetWaitSync`: the events it has passed, the flags it has appended,
and the map. -/
def hsetWaitLoop (v : Storage) (last : SanEvent) (m : HsetMap) :
    List SanEvent → List SanEvent × List SanEvent × HsetMap
  | [] => ([], [], m)
  | e :: rest =>
    let x := hsetWaitEvent last m e
    let v := v.push x.2.1
    let y := hsetWaitLoop v (x.2.1.getD last) x.2.2 rest
    -- `isReplaced` is written behind the `push_back`, through a reference into the storage that
    -- the loop began with: once the list has moved, no write reaches its events, and the rest of
    -- the loop goes over the events as they are left there
    ((if v.moved then e else x.1) :: y.1, x.2.1.toList ++ y.2.1, y.2.2)

/-- A memory event on the pipe and the memory that a `HSET_FLAG` waits for. -/
def matchesHset (key : HsetRecordKey) (e : SanEvent) : Bool :=
  match e.info with
  | .mem op => decide (e.pipe = key.srcPipe) && decide (op.memType = key.memType)
  | _ => false

/-- The first pending mode 0 entry that a memory event matches, in the order of the map. -/
def pendingHset (m : HsetMap) (events : List SanEvent) :
    Option (HsetRecordKey × HsetRecordState) :=
  m.find? fun kv =>
    !kv.2.isTransSet && kv.2.cacheMode0 && events.any (matchesHset kv.1)

/-- An event to read where a list is empty; it is never read. -/
def blankEvent : SanEvent := { info := .register }

/-- The second loop of `ProcessHsetWaitSync`, over the map. -/
def hsetMatchLoop (events : List SanEvent) (m : HsetMap) : List SanEvent × HsetMap :=
  match pendingHset m events with
  | some kv =>
    (events ++ [hsetWaitCreateSyncEvent .setFlag kv.1.srcPipe kv.1.dstPipe
        (events.getLastD blankEvent) kv.1.eventId],
      hsetPut m kv.1 { kv.2 with isTransSet := true })
  | none => (events, m)

/-- `ProcessHsetWaitSync` on a list whose first storage had room for `room` events. -/
def processHsetWaitSync (room : ℕ) (events : List SanEvent) (m : HsetMap) :
    List SanEvent × HsetMap :=
  let x := hsetWaitLoop { room, size := events.length } (events.getLastD blankEvent) m events
  hsetMatchLoop (x.1 ++ x.2.1) x.2.2

/-! ## Rings and inferred barriers -/

/-- `DfsSrcGraph`. A nested call visits a pipe that was not visited before, so a depth of one
for each pipe is enough. -/
def dfsSrcGraph (graph : PipeType → List PipeType) : ℕ → PipeType → List PipeType →
    List PipeType
  | 0, _, visited => visited
  | fuel + 1, targetPipe, visited =>
    (graph targetPipe).foldl
      (fun visited neighbor =>
        if neighbor ∈ visited then visited else dfsSrcGraph graph fuel neighbor visited)
      (visited ++ [targetPipe])

/-- The pipes that `DfsSrcGraph` finds from a pipe. -/
def reachable (graph : PipeType → List PipeType) (targetPipe : PipeType) : List PipeType :=
  dfsSrcGraph graph pipeSize targetPipe []

/-- `unordered_set::insert`. -/
def insertPipe (p : PipeType) (l : List PipeType) : List PipeType := if p ∈ l then l else l ++ [p]

/-- A memory access on a pipe: it is no longer a source in the graph. -/
def ParseState.pruneSrc (st : ParseState) (pipe : PipeType) : ParseState :=
  { st with dstSrcGraph := fun d => (st.dstSrcGraph d).filter fun p => !(p == pipe) }

def mergeStarts (a b : RingStartPoints) : RingStartPoints := fun p => max (a p) (b p)

/-- The branch of `UpdateSyncInPipe` for a `SET_FLAG`. -/
def ParseState.setRing (st : ParseState) (serialNo : ℕ) (src dst : PipeType) (eventId : ℕ) :
    ParseState :=
  let old := (st.edgeStartPoints src dst eventId).getD fun _ => 0
  let merged := mergeStarts old (st.inheritedStartPoints src)
  let edgeStarts := Function.update merged src (max (merged src) serialNo)
  { st with
    edgeStartPoints := fun a b e =>
      if a = src ∧ b = dst ∧ e = eventId then some edgeStarts else st.edgeStartPoints a b e }

/-- The branch of `UpdateSyncInPipe` for a `WAIT_FLAG`, without the inferred barriers. -/
def ParseState.waitRing (st : ParseState) (src dst : PipeType) (eventId : ℕ) : ParseState :=
  let graph := Function.update st.dstSrcGraph dst (insertPipe src (st.dstSrcGraph dst))
  match st.edgeStartPoints src dst eventId with
  | some edgeStarts =>
    { st with
      dstSrcGraph := graph
      inheritedStartPoints := Function.update st.inheritedStartPoints dst
        (mergeStarts (st.inheritedStartPoints dst) edgeStarts)
      closedRingStartSerialNo := Function.update st.closedRingStartSerialNo dst
        (max (st.closedRingStartSerialNo dst) (edgeStarts dst)) }
  | none => { st with dstSrcGraph := graph }

/-- `UpdateSyncInPipe`: the barriers it appends and the state it leaves. -/
def updateSyncInPipe (ctx : Context) (r : KernelRecord) (events : List SanEvent)
    (st : ParseState) : List SanEvent × ParseState :=
  if r.isFinish then ([], st.resetSyncInPipeInfo)
  else
    match events.getLast? with
    | none => ([], st)
    | some event =>
      match event.info with
      | .mem _ => ([], st.pruneSrc event.pipe)
      | .sync info =>
        let eventId := info.eventId % validEventIdSize
        match info.opType with
        | .setFlag => ([], st.setRing event.serialNo info.srcPipe info.dstPipe eventId)
        | .waitFlag =>
          let st := st.waitRing info.srcPipe info.dstPipe eventId
          if info.dstPipe = .s then
            ((reachable st.dstSrcGraph info.srcPipe).map
              (fun visitPipe => newEvent ctx st r (innerPipeSync visitPipe)), st)
          else ([], st)
        | _ => ([], st)
      | _ => ([], st)

/-! ## `Parse` -/

def replacePipeScalar (event : SanEvent) : SanEvent :=
  match event.info with
  | .sync info =>
    if info.opType = .setFlag ∧ info.srcPipe = .s then
      { event with pipe := .sCal, info := .sync { info with srcPipe := .sCal } }
    else if info.opType = .waitFlag ∧ info.srcPipe = .s then
      { event with info := .sync { info with srcPipe := .sCal } }
    else event
  | .crossCoreSync info =>
    if info.opType = .fftsSync ∧ info.dstPipe = .s then
      { event with pipe := .sCal, info := .crossCoreSync { info with dstPipe := .sCal } }
    else event
  | .crossCoreSoftSync info =>
    if info.opType = .ibSet ∧ event.pipe = .s then { event with pipe := .sCal } else event
  | .mstxCrossSync info =>
    if info.opType = .mstxSetCross ∧ info.pipe = .s then
      { event with pipe := .sCal, info := .mstxCrossSync { info with pipe := .sCal } }
    else event
  | .bufSync info =>
    if info.opType = .rlsBuf ∧ info.pipe = .s then
      { event with pipe := .sCal, info := .bufSync { info with pipe := .sCal } }
    else event
  | _ => event

/-- The label of the loop over all events in `Parse`. -/
def setRecordType (t : ℕ) (event : SanEvent) : SanEvent := { event with recordType := t }

def stampRing (st : ParseState) (event : SanEvent) : SanEvent :=
  { event with closedRingStartSerialNo := st.closedRingStartSerialNo event.pipe }

/-- `Parse` up to `ReplaceSetSyncPipeScalar`, on a vector that may hold earlier events. -/
def raise (ctx : Context) (r : KernelRecord) (events : List SanEvent) (st : ParseState) :
    List SanEvent × ParseState :=
  let parsed := parseFunc ctx r (if r.isFinish then st.resetAll else st)
  if parsed.1 = [] then (events, parsed.2)
  else
    let lowered := processHsetWaitSync ctx.room
      ((events ++ parsed.1).map (setRecordType r.recordType)) parsed.2.hsetSyncMap
    let updated := updateSyncInPipe ctx r lowered.1 { parsed.2 with hsetSyncMap := lowered.2 }
    let all := lowered.1 ++ updated.1
    (all.take events.length ++ (all.drop events.length).map (stampRing updated.2), updated.2)

/-- `Parse`. A record without events leaves the vector as it is. -/
def parse (ctx : Context) (r : KernelRecord) (events : List SanEvent) (st : ParseState) :
    List SanEvent × ParseState :=
  let raised := raise ctx r events st
  if (parseFunc ctx r (if r.isFinish then st.resetAll else st)).1 = [] then raised
  else (raised.1.map replacePipeScalar, raised.2)

end MsSanitizer.RecordParse
