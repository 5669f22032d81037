import MsSanitizer.RaceAlgBase

/-!
# The race check between devices

The model of `cross_npu_race_alg_impl.cpp`: all kernels of all devices are replayed at once, with
the blocks of every kernel spread as in a mix kernel of the largest block dimension. Between two
kernels of a device stands a barrier, one event for each pipe of each block.

What the device and kernel managers know is a parameter (`NpuEnv`): for each device, in order, its
id, its type and its kernels, and which ranges of addresses meet its shared memory.
-/

namespace MsSanitizer

open RecordDefs EventDef VectorTime CrossCoreSync PipeLine

/-- A kernel in the list of a device. -/
structure KernelSummary where
  kernelType : KernelType
  blockDim : ℕ
  deriving DecidableEq, Repr

/-- A device of the list. -/
structure NpuDevice where
  deviceId : ℕ
  deviceType : DeviceType
  kernels : List KernelSummary

/-- `DeviceManager` and `KernelManager`. -/
structure NpuEnv where
  devices : List NpuDevice
  /-- `HasIntersection` of the shared memory of a device with a range of addresses. -/
  shared : ℕ → ℕ → ℕ → Bool

namespace NpuEnv

variable (env : NpuEnv)

/-- `DeviceManager::Get`. -/
def device (deviceId : ℕ) : Option NpuDevice := env.devices.find? fun d => d.deviceId == deviceId

/-- The kernels that `Init` walks over. -/
def allKernels : List KernelSummary := env.devices.flatMap NpuDevice.kernels

/-- `maxBlockDim` in `Init`. -/
def maxBlockDim : ℕ := (env.allKernels.map KernelSummary.blockDim).foldl max 1

def totalBlockNum : ℕ := env.maxBlockDim * c220MixSubBlockDim

/-- The container that `Init` makes for a kernel. -/
def container (deviceIdx kernelIdx : ℕ) : Container :=
  match env.devices[deviceIdx]? with
  | none => {}
  | some d =>
    match d.kernels[kernelIdx]? with
    | none => {}
    | some k => .init (PipelineReplayer.totalBlockNum k.kernelType d.deviceType k.blockDim)
        k.kernelType

end NpuEnv

abbrev KernelBarrierWorker := ℕ × PipeType

/-- `CrossNpuRaceAlgImpl`, without its queues. -/
structure CrossNpuRaceAlg where
  vc : ℕ → VectorTime := fun _ => {}
  syncDB : ℕ → SyncEventDataBase := fun _ => .empty
  container : ℕ → ℕ → Container
  mstxSetCrossMap : ℕ → ℕ → MstxSetCrossMap := fun _ _ _ => none
  crossCoreBarrier : ℕ → ℕ → BarrierDatabase ℕ := fun _ _ _ => {}
  crossNpuBarrier : BarrierDatabase (ℕ × ℕ) := fun _ => {}
  kernelBarrier : ℕ → ℕ → BarrierEvent KernelBarrierWorker := fun _ _ => {}
  signalDatabase : SignalDatabase := .empty
  checked : List (SanEvent × VectorTime) := []

/-- A change at one place of an array of two dimensions. -/
def update2 {α : Type*} (f : ℕ → ℕ → α) (i j : ℕ) (x : α) : ℕ → ℕ → α :=
  Function.update f i (Function.update (f i) j x)

namespace CrossNpuRaceAlg

/-- `Init`, without the queues. -/
def init (env : NpuEnv) : CrossNpuRaceAlg := { container := env.container }

/-- The end of the range of a memory event, in the arithmetic of the source: the differences have
32 bits and wrap. -/
def memRange (info : MemOpInfo) : ℕ :=
  let pred (n : ℕ) := (n + 2 ^ 32 - 1) % 2 ^ 32
  (pred info.repeatTimes * info.repeatStride * info.blockSize +
    pred info.blockNum * info.blockStride * info.blockSize + info.blockSize) % 2 ^ 32

variable (env : NpuEnv) (a : CrossNpuRaceAlg)

def setClock (curPipe : ℕ) (vt : VectorTime) : CrossNpuRaceAlg :=
  { a with vc := Function.update a.vc curPipe vt }

/-- The memory events that are checked: those on global memory that other devices see. -/
def checks (event : SanEvent) (info : MemOpInfo) : Bool :=
  info.memType == .gm && env.shared event.loc.deviceId info.addr
    ((info.addr + memRange info) % 2 ^ 64)

def processMemEvent (curPipe : ℕ) (event : SanEvent) (info : MemOpInfo) : CrossNpuRaceAlg :=
  if checks env event info then
    let vt := updateLogicTime (a.vc curPipe) curPipe
    { a.setClock curPipe vt with checked := a.checked ++ [(event, vt)] }
  else a

/-- The kernel of an event and the type of its device, if the managers know them. -/
def kernelOf (event : SanEvent) : Option (KernelType × DeviceType) := do
  let d ← env.device event.loc.deviceId
  let k ← d.kernels[event.loc.kernelIdx]?
  pure (k.kernelType, d.deviceType)

/-- `ProcessSanitizerControlEvent` for the end of a kernel. -/
def processKernelFinish (curPipe : ℕ) (event : SanEvent) : ReturnType × CrossNpuRaceAlg :=
  let d := event.loc.deviceIdx
  let k := event.loc.kernelIdx
  let (ret, vt, b) := RaceAlg.pollBarrier (a.kernelBarrier d k) (env.totalBlockNum * pipeSize)
    (getEventExpandBlockIndexByLoc event.loc, event.pipe) curPipe (a.vc curPipe)
  (ret, { a.setClock curPipe vt with kernelBarrier := update2 a.kernelBarrier d k b })

/-- The switch of `ProcessEvent`, for the queues `c`. -/
def dispatch (c : EventContainer) (event : SanEvent) : ReturnType × CrossNpuRaceAlg :=
  let curPipe := c.getQueIndex
  let d := event.loc.deviceIdx
  let k := event.loc.kernelIdx
  match event.info with
  | .sanitizerControl .kernelFinish => a.processKernelFinish env curPipe event
  | .sync info =>
    let blockIdx := getEventExpandBlockIndexByLoc event.loc
    let dstPipe := c.flattenPipeIdx event.pipe.idx blockIdx d
    let db := d * env.totalBlockNum + blockIdx
    let (ret, vt, s) := RaceAlg.syncFlag (a.syncDB db) dstPipe (a.vc dstPipe) info
    (ret, { a.setClock dstPipe vt with syncDB := Function.update a.syncDB db s })
  | .mem info => (.processOk, a.processMemEvent env curPipe event info)
  | .time info => (.processOk, a.setClock curPipe (RaceAlg.timeEvent curPipe (a.vc curPipe) info))
  | .crossCoreSync info =>
    match kernelOf env event with
    | none => (.processOk, a)
    | some (kernelType, deviceType) =>
      let blockIdx := getEventBlockIndexOf event.loc kernelType deviceType
      let (ret, vt, s) := RaceAlg.blockSync (a.container d k) blockIdx curPipe (a.vc curPipe)
        event info
      (ret, { a.setClock curPipe vt with container := update2 a.container d k s })
  | .crossCoreSoftSync info =>
    match kernelOf env event with
    | none => (.processOk, a)
    | some (kernelType, deviceType) =>
      let blockIdx := getEventBlockIndexOf event.loc kernelType deviceType
      let (ret, vc, s) := RaceAlg.blockSoftSync (a.container d k) blockIdx curPipe a.vc info
      (ret, { a with vc := vc, container := update2 a.container d k s })
  | .mstxCrossSync info =>
    let (ret, vt, s, m) := RaceAlg.mstxCrossSync (a.container d k) (a.mstxSetCrossMap d k) curPipe
      (a.vc curPipe) info
    (ret, { a.setClock curPipe vt with
      container := update2 a.container d k s
      mstxSetCrossMap := update2 a.mstxSetCrossMap d k m })
  | .mstxSignalSet info =>
    (.processOk, { a with signalDatabase := a.signalDatabase.set info (a.vc curPipe) })
  | .mstxSignalWait info =>
    let (ret, vt) := RaceAlg.signalWait a.signalDatabase curPipe (a.vc curPipe) info
    (ret, a.setClock curPipe vt)
  | .mstxCrossCoreBarrier info =>
    let conf := PipelineReplayer.coreBarrierConf info
    let (ret, vt, b) := RaceAlg.pollBarrier (a.crossCoreBarrier d k conf) conf.usedCoreNum
      event.loc.coreId curPipe (a.vc curPipe)
    (ret, { a.setClock curPipe vt with
      crossCoreBarrier := update2 a.crossCoreBarrier d k
        (Function.update (a.crossCoreBarrier d k) conf b) })
  | .mstxCrossNpuBarrier info =>
    let conf : CrossNpuBarrierConf :=
      { isAIVOnly := info.isAIVOnly, usedDeviceNum := info.usedDeviceNum,
        usedCoreNum := info.usedCoreNum }
    -- the product of two 32-bit numbers wraps
    let barrierCount := conf.usedDeviceNum * conf.usedCoreNum % 2 ^ 32
    let (ret, vt, b) := RaceAlg.pollBarrier (a.crossNpuBarrier conf) barrierCount
      (event.loc.deviceId, event.loc.coreId) curPipe (a.vc curPipe)
    (ret, { a.setClock curPipe vt with
      crossNpuBarrier := Function.update a.crossNpuBarrier conf b })
  | _ => (.processOk, a)

def processEvent : EventFunc CrossNpuRaceAlg := fun c a event =>
  let curPipe := c.getQueIndex
  if c.pipeIndex ≠ event.pipe.idx then
    let vt := updateLogicTime (a.vc curPipe) curPipe
    let blockIdx := getEventExpandBlockIndexByLoc event.loc
    let deviceIdx := event.loc.deviceIdx
    let time := CrossCoreRaceAlg.timeEventOf event vt
    { ret := .processOk, state := a.setClock curPipe vt,
      pushes := [{ event := time, pipe := event.pipe, blockIdx, deviceIdx },
        { event, pipe := event.pipe, blockIdx, deviceIdx }] }
  else
    let (ret, a) := a.dispatch env c event
    { ret, state := a }

/-- The pipes of a block in the order of `CreateKernelBarrier`: the scalar pipe is the last. -/
def barrierPipes : List PipeType :=
  [.v, .m, .mte1, .mte2, .mte3, .all, .mte4, .mte5, .v2, .fix, .sCal, .s]

/-- The place that `CreateKernelBarrier` gives to the events of a block. -/
def barrierLoc (event : SanEvent) (blockIdx : ℕ) : LocInfo :=
  if blockIdx % c220MixSubBlockDim = 2 then
    { event.loc with blockType := .aicube, coreId := blockIdx / c220MixSubBlockDim }
  else
    { event.loc with
      blockType := .aivec
      coreId := blockIdx / c220MixSubBlockDim * c220VecSubBlockDim +
        blockIdx % c220MixSubBlockDim }

def createKernelBarrier (event : SanEvent) : List Push :=
  (List.range env.totalBlockNum).flatMap fun blockIdx =>
    barrierPipes.map fun pipe =>
      let e := { event with loc := barrierLoc event blockIdx, pipe := pipe }
      { event := e, pipe := .s, blockIdx := blockIdx, deviceIdx := event.loc.deviceIdx }

/-- The pushes of `Do`; the last event of all only starts the replay. -/
def doPushes (event : SanEvent) : List Push :=
  match event.info with
  | .sanitizerControl .kernelFinish => createKernelBarrier env event
  | .sanitizerControl .finish => []
  | _ =>
    let blockIdx := getEventExpandBlockIndexByLoc event.loc
    [{ event, pipe := .s, blockIdx := blockIdx, deviceIdx := event.loc.deviceIdx }]

/-- What `Do` counts in advance. -/
def cache (a : CrossNpuRaceAlg) (event : SanEvent) : CrossNpuRaceAlg :=
  match event.info with
  | .sanitizerControl _ => a
  | _ =>
    let d := event.loc.deviceIdx
    let k := event.loc.kernelIdx
    { a with
      mstxSetCrossMap := update2 a.mstxSetCrossMap d k
        (cacheMstxCrossSet (a.mstxSetCrossMap d k) event) }

end CrossNpuRaceAlg

/-- The replay of the events of all kernels, after `n` rounds of the loop of `Run`. -/
def npuReplay (env : NpuEnv) (events : List SanEvent) (n : ℕ) : PipeLine CrossNpuRaceAlg :=
  run (CrossNpuRaceAlg.processEvent env)
    (start env.totalBlockNum env.devices.length
      (events.flatMap (CrossNpuRaceAlg.doPushes env))
      (events.foldl CrossNpuRaceAlg.cache (.init env))) n

end MsSanitizer
