import MsSanitizer.SyncDatabases
import MsSanitizer.PipeLineStop

/-!
# The replay for checkers without clocks

The model of `pipeline_replayer.h` and `.cpp`. Events are collected in the scalar queues of their
blocks; the replay sends synchronisation events to the queues of their pipes and hands memory
events, which stay in the scalar queue, to a callback. All clocks are empty: only whether a wait
succeeds matters.

A call on the container of the synchronisation between cores that would leave its arrays has no
effect here, and a wait that would do so fails.
-/

namespace MsSanitizer

open RecordDefs EventDef VectorTime CrossCoreSync PipeLine

/-- `PipelineReplayer`, without its queues; `delivered` are the memory events that the callback
has got so far. -/
structure PipelineReplayer where
  kernelType : KernelType
  deviceType : DeviceType
  syncDB : ℕ → SyncEventDataBase := fun _ => .empty
  container : Container
  crossCoreBarrier : BarrierDatabase ℕ := fun _ => {}
  mstxSetCrossMap : MstxSetCrossMap := fun _ => none
  getRlsBufMap : ℕ × ℕ → List VectorTime := fun _ => []
  getBufCount : ℕ × ℕ → ℕ := fun _ => 0
  delivered : List SanEvent := []

namespace PipelineReplayer

/-- `totalBlockNum` in `Init`. -/
def totalBlockNum (kernelType : KernelType) (deviceType : DeviceType) (blockDim : ℕ) : ℕ :=
  if needExpandBlockDim kernelType deviceType then blockDim * c220MixSubBlockDim else blockDim

/-- `Init`, without the queues. -/
def init (kernelType : KernelType) (deviceType : DeviceType) (blockDim : ℕ) : PipelineReplayer where
  kernelType := kernelType
  deviceType := deviceType
  container := .init (totalBlockNum kernelType deviceType blockDim) kernelType

variable (r : PipelineReplayer)

/-- `GetEventBlockIndex` for the kernel of the replay. -/
def blockIndex (event : SanEvent) : ℕ :=
  getEventBlockIndexOf event.loc r.kernelType r.deviceType

def waited {α : Type} : Option α → ReturnType
  | some _ => .processOk
  | none => .processStalled

def processMemEvent (event : SanEvent) : ReturnType × PipelineReplayer :=
  (.processOk, { r with delivered := r.delivered ++ [event] })

def processSyncEvent (event : SanEvent) (info : SyncOpInfo) : ReturnType × PipelineReplayer :=
  let blockIdx := r.blockIndex event
  let db := r.syncDB blockIdx
  if info.opType = .setFlag then
    (.processOk,
      { r with syncDB := Function.update r.syncDB blockIdx (db.set (.ofInfo info) {}) })
  else if info.opType = .waitFlag then
    let (vt, db) := db.get (.ofInfo info)
    (waited vt, { r with syncDB := Function.update r.syncDB blockIdx db })
  else (.processOk, r)

/-- The sub-core count that `ProcessBlockSyncEvent` hands to the container. -/
def reportVecSubBlockDim (c : Container) (info : FftsSyncInfo) : Container :=
  if 1 ≤ info.vecSubBlockDim ∧ info.vecSubBlockDim ≤ c220VecSubBlockDim then
    c.setVecSubBlockDim info.vecSubBlockDim
  else c

/-- `ProcessBlockSyncEvent` on the container. -/
def blockSync (c : Container) (blockIdx : ℕ) (event : SanEvent) (info : FftsSyncInfo) :
    ReturnType × Container :=
  let c := reportVecSubBlockDim c info
  if info.opType = .fftsSync then
    (.processOk, (c.setBlockSyncInfo info.flagId info.mode blockIdx {} info.vecSubBlockDim
      event.loc event.serialNo).getD c)
  else if info.opType = .waitFlagDev then
    let (vt, c) := (c.getBlockSyncInfo info.flagId blockIdx {}).getD (none, c)
    (waited vt, c)
  else if info.opType = .waitIntraBlock then
    let (vt, c) := (c.getIntraBlockSyncInfo info.flagId blockIdx {}).getD (none, c)
    (waited vt, c)
  else (.processStalled, c)

def processBlockSyncEvent (event : SanEvent) (info : FftsSyncInfo) :
    ReturnType × PipelineReplayer :=
  let (ret, c) := blockSync r.container (r.blockIndex event) event info
  (ret, { r with container := c })

/-- `ProcessBlockSoftSyncEvent` on the container. -/
def blockSoftSync (c : Container) (blockIdx curPipe : ℕ) (info : SoftSyncInfo) :
    ReturnType × Container :=
  if info.opType = .syncAll then
    let (ok, _, c) := c.syncAll blockIdx info.usedCores curPipe {}
    (if ok then .processOk else .processStalled, c)
  else if info.opType = .ibSet then
    (.processOk, c.setBlockSoftSyncInfo info.eventID blockIdx {})
  else if info.opType = .ibWait then
    let (vt, c) := c.getBlockSoftSyncInfo info.eventID info.waitCoreID {}
    (waited vt, c)
  else (.processStalled, c)

def processBlockSoftSyncEvent (curPipe : ℕ) (event : SanEvent) (info : SoftSyncInfo) :
    ReturnType × PipelineReplayer :=
  let (ret, c) := blockSoftSync r.container (r.blockIndex event) curPipe info
  (ret, { r with container := c })

def processMstxCrossSyncEvent (info : MstxCrossInfo) : ReturnType × PipelineReplayer :=
  if info.opType = .mstxSetCross then
    (.processOk, { r with container := r.container.setMstxCrossInfo info {} })
  else if info.opType = .mstxWaitCross then
    if r.mstxSetCrossMap.skips info then (.processOk, r)
    else
      match r.container.getMstxCrossInfo info {} with
      | (some _, c) =>
        (.processOk, { r with container := c, mstxSetCrossMap := r.mstxSetCrossMap.matched info })
      | (none, c) => (.processStalled, { r with container := c })
  else (.processStalled, r)

/-- The configuration of a barrier between the cores of one device. -/
def coreBarrierConf (info : MstxCrossCoreBarrier) : CrossNpuBarrierConf where
  isAIVOnly := info.isAIVOnly
  usedDeviceNum := 1
  usedCoreNum := info.usedCoreNum

def processMstxCrossCoreBarrier (event : SanEvent) (info : MstxCrossCoreBarrier) :
    ReturnType × PipelineReplayer :=
  let conf := coreBarrierConf info
  let (vt, b) := (r.crossCoreBarrier conf).wait conf.usedCoreNum event.loc.coreId {}
  (waited vt, { r with crossCoreBarrier := Function.update r.crossCoreBarrier conf b })

/-- `ProcessMstxCrossNpuBarrier`: it decays to a barrier between cores. -/
def processMstxCrossNpuBarrier (event : SanEvent) (info : MstxCrossNpuBarrier) :
    ReturnType × PipelineReplayer :=
  r.processMstxCrossCoreBarrier event
    { usedCoreNum := info.usedCoreNum, isAIVOnly := info.isAIVOnly }

def processGetRlsBufSyncEvent (event : SanEvent) (info : BufSyncInfo) :
    ReturnType × PipelineReplayer :=
  let key := (r.blockIndex event, info.bufId)
  let released := (r.getRlsBufMap key).length
  let consumed := r.getBufCount key
  if info.opType = .getBuf ∧ info.mode = .blockMode then
    if (info.rlsCount ≠ 0 ∧ released < info.rlsCount) ∨ released + 1 < consumed + 1 then
      (.processStalled, r)
    else (.processOk, { r with getBufCount := Function.update r.getBufCount key (consumed + 1) })
  else if info.opType = .rlsBuf then
    (.processOk,
      { r with getRlsBufMap := Function.update r.getRlsBufMap key (r.getRlsBufMap key ++ [{}]) })
  else (.processOk, r)

/-- A memory event, which is not sent to the queue of its pipe. -/
def isMemEvent (event : SanEvent) : Bool :=
  match event.info with
  | .mem _ | .dynamicMem _ => true
  | _ => false

/-- The switch of `ProcessEvent`. -/
def dispatch (curPipe : ℕ) (event : SanEvent) : ReturnType × PipelineReplayer :=
  match event.info with
  | .sync info => r.processSyncEvent event info
  | .crossCoreSync info => r.processBlockSyncEvent event info
  | .crossCoreSoftSync info => r.processBlockSoftSyncEvent curPipe event info
  | .mstxCrossSync info => r.processMstxCrossSyncEvent info
  | .mstxCrossCoreBarrier info => r.processMstxCrossCoreBarrier event info
  | .mstxCrossNpuBarrier info => r.processMstxCrossNpuBarrier event info
  | .bufSync info => r.processGetRlsBufSyncEvent event info
  | .mem _ | .dynamicMem _ => r.processMemEvent event
  | _ => (.processOk, r)

def processEvent : EventFunc PipelineReplayer := fun c r event =>
  if isMemEvent event = false ∧ c.pipeIndex ≠ event.pipe.idx then
    { ret := .processOk, state := r,
      pushes := [{ event, pipe := event.pipe, blockIdx := r.blockIndex event }] }
  else
    let (ret, r) := r.dispatch c.getQueIndex event
    { ret, state := r }

/-- `Do` on the events before the end of the kernel. -/
def collect (r : PipelineReplayer) (events : List SanEvent) : PipelineReplayer :=
  { r with mstxSetCrossMap := events.foldl cacheMstxCrossSet r.mstxSetCrossMap }

/-- The pushes of `Do`. -/
def pushes (events : List SanEvent) : List Push :=
  events.map fun event => { event, pipe := .s, blockIdx := r.blockIndex event }

end PipelineReplayer

/-- The replay of the events of a kernel, after `n` rounds of the loop of `Run`. -/
def replay (kernelType : KernelType) (deviceType : DeviceType) (blockDim : ℕ)
    (events : List SanEvent) (n : ℕ) : PipeLine PipelineReplayer :=
  let r := PipelineReplayer.init kernelType deviceType blockDim
  run PipelineReplayer.processEvent
    (start (PipelineReplayer.totalBlockNum kernelType deviceType blockDim) 1 (r.pushes events)
      (r.collect events)) n

end MsSanitizer
