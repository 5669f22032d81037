import MsSanitizer.PipelineReplayer

/-!
# The race check between cores

The model of `race_alg_base.cpp` and `cross_core_race_alg_impl.cpp`: the replay with a clock for
each pipe of each block. The handlers of synchronisation events are functions of what they work
on, the clock `vt` of the current pipe and a store, since the check between devices runs the same
statements on stores of its own.
-/

namespace MsSanitizer

open RecordDefs EventDef VectorTime CrossCoreSync PipeLine

namespace RaceAlg

/-- The rest of a handler that waits: the clock where the wait succeeds, else the clock as it
was. -/
def waited {α : Type} (vt : VectorTime) (r : Option VectorTime × α) :
    ReturnType × VectorTime × α :=
  match r with
  | (some t, a) => (.processOk, t, a)
  | (none, a) => (.processStalled, vt, a)

/-- `ProcessBlockSyncEvent` after the block index is known. -/
def blockSync (c : Container) (blockIdx curPipe : ℕ) (vt : VectorTime) (event : SanEvent)
    (info : FftsSyncInfo) : ReturnType × VectorTime × Container :=
  if info.opType = .fftsSync then
    let vt := updateLogicTime vt curPipe
    (.processOk, vt, (c.setBlockSyncInfo info.flagId info.mode blockIdx vt info.vecSubBlockDim
      event.loc event.serialNo).getD c)
  else if info.opType = .waitFlagDev then
    waited vt ((c.getBlockSyncInfo info.flagId blockIdx vt).getD (none, c))
  else if info.opType = .waitIntraBlock then
    waited vt ((c.getIntraBlockSyncInfo info.flagId blockIdx vt).getD (none, c))
  else (.processStalled, vt, c)

/-- The part of `ProcessBlockSoftSyncEvent` for `IB_SET` and `IB_WAIT`. -/
def ibSync (c : Container) (blockIdx curPipe : ℕ) (vt : VectorTime) (info : SoftSyncInfo) :
    ReturnType × VectorTime × Container :=
  if info.opType = .ibSet then
    let vt := updateLogicTime vt curPipe
    (.processOk, vt, c.setBlockSoftSyncInfo info.eventID blockIdx vt)
  else if info.opType = .ibWait then
    waited vt (c.getBlockSoftSyncInfo info.eventID info.waitCoreID vt)
  else (.processStalled, vt, c)

/-- `ProcessBlockSoftSyncEvent` on the clocks of all pipes. -/
def blockSoftSync (c : Container) (blockIdx curPipe : ℕ) (vc : ℕ → VectorTime)
    (info : SoftSyncInfo) : ReturnType × (ℕ → VectorTime) × Container :=
  if info.opType = .syncAll then
    let (ok, vt, c) := c.syncAll blockIdx info.usedCores curPipe (vc curPipe)
    let vc := Function.update vc curPipe vt
    if ok then (.processOk, c.updateSyncAllVectorTime vc, c) else (.processStalled, vc, c)
  else
    let (ret, vt, c) := ibSync c blockIdx curPipe (vc curPipe) info
    (ret, Function.update vc curPipe vt, c)

/-- `ProcessMstxCrossSyncEvent`. -/
def mstxCrossSync (c : Container) (m : MstxSetCrossMap) (curPipe : ℕ) (vt : VectorTime)
    (info : MstxCrossInfo) : ReturnType × VectorTime × Container × MstxSetCrossMap :=
  if info.opType = .mstxSetCross then
    let vt := updateLogicTime vt curPipe
    (.processOk, vt, c.setMstxCrossInfo info vt, m)
  else if info.opType = .mstxWaitCross then
    if m.skips info then (.processOk, vt, c, m)
    else
      match c.getMstxCrossInfo info vt with
      | (some t, c) => (.processOk, t, c, m.matched info)
      | (none, c) => (.processStalled, vt, c, m)
  else (.processStalled, vt, c, m)

/-- A set or a wait of a flag between two pipes of a block. -/
def syncFlag (db : SyncEventDataBase) (curPipe : ℕ) (vt : VectorTime) (info : SyncOpInfo) :
    ReturnType × VectorTime × SyncEventDataBase :=
  if info.opType = .setFlag then
    let vt := updateLogicTime vt curPipe
    (.processOk, vt, db.set (.ofInfo info) vt)
  else if info.opType = .waitFlag then
    match db.get (.ofInfo info) with
    | (some t, db) => (.processOk, updateLogicTime (updateVectorTime t vt) curPipe, db)
    | (none, db) => (.processStalled, vt, db)
  else (.processOk, vt, db)

def pollBarrier {Worker : Type} [DecidableEq Worker] (b : BarrierEvent Worker) (rank : ℕ)
    (worker : Worker) (curPipe : ℕ) (vt : VectorTime) :
    ReturnType × VectorTime × BarrierEvent Worker :=
  match b.wait rank worker vt with
  | (some t, b) => (.processOk, updateLogicTime (updateVectorTime t vt) curPipe, b)
  | (none, b) => (.processStalled, vt, b)

/-- `ProcessMstxSignalWaitEvent`. -/
def signalWait (db : SignalDatabase) (curPipe : ℕ) (vt : VectorTime) (info : MstxSignalWait) :
    ReturnType × VectorTime :=
  match db.wait info with
  | some t => (.processOk, updateLogicTime (updateVectorTime t vt) curPipe)
  | none => (.processStalled, vt)

/-- `ProcessTimeEvent`. -/
def timeEvent (curPipe : ℕ) (vt : VectorTime) (info : Option VectorTime) : VectorTime :=
  match info with
  | some t => updateLogicTime (updateVectorTime t vt) curPipe
  | none => updateLogicTime vt curPipe

/-- `ProcessGetRlsBufSyncEvent` on the releases of a buffer. -/
def getRlsBuf (released : List VectorTime) (vt : VectorTime) (info : BufSyncInfo) :
    ReturnType × VectorTime × List VectorTime :=
  if info.opType = .getBuf ∧ info.mode = .blockMode then
    if info.rlsCount = 0 then (.processOk, vt, released)
    else if released.length < info.rlsCount then (.processStalled, vt, released)
    else if released.length = info.rlsCount then
      (.processOk, released.foldl (fun vt t => updateVectorTime t vt) vt, released)
    else (.processOk, vt, released)
  else if info.opType = .rlsBuf then (.processOk, vt, released ++ [vt])
  else (.processOk, vt, released)

end RaceAlg

/-- `CrossCoreRaceAlgImpl`, without its queues; `checked` are the memory events that were given
to the checker, with their clocks. -/
structure CrossCoreRaceAlg where
  kernelType : KernelType
  deviceType : DeviceType
  vc : ℕ → VectorTime := fun _ => {}
  syncDB : ℕ → SyncEventDataBase := fun _ => .empty
  container : Container
  crossCoreBarrier : BarrierDatabase ℕ := fun _ => {}
  mstxSetCrossMap : MstxSetCrossMap := fun _ => none
  getRlsBufMap : ℕ × ℕ → List VectorTime := fun _ => []
  signalDatabase : SignalDatabase := .empty
  checked : List (SanEvent × VectorTime) := []

namespace CrossCoreRaceAlg

def init (kernelType : KernelType) (deviceType : DeviceType) (blockDim : ℕ) :
    CrossCoreRaceAlg where
  kernelType := kernelType
  deviceType := deviceType
  container := .init (PipelineReplayer.totalBlockNum kernelType deviceType blockDim) kernelType

def needCrossCoreMemCheck (deviceType : DeviceType) (memType : MemType) : Bool :=
  memType == .gm || (isAscend95 deviceType && memType == .ub)

/-- The filter of `Do`. -/
def collects (deviceType : DeviceType) (event : SanEvent) : Bool :=
  match event.info with
  | .mem info => needCrossCoreMemCheck deviceType info.memType
  | .dynamicMem info => needCrossCoreMemCheck deviceType info.memType
  | _ => true

variable (a : CrossCoreRaceAlg)

/-- `GetEventBlockIndex` for `CROSS_BLOCK_CHECK`. -/
def blockIndex (event : SanEvent) : ℕ :=
  getEventBlockIndexOf event.loc a.kernelType a.deviceType

def setClock (curPipe : ℕ) (vt : VectorTime) : CrossCoreRaceAlg :=
  { a with vc := Function.update a.vc curPipe vt }

/-- `ProcessMemEvent` and `ProcessDynamicMemEvent`. -/
def processMemEvent (curPipe : ℕ) (event : SanEvent) : CrossCoreRaceAlg :=
  let vt := updateLogicTime (a.vc curPipe) curPipe
  { a.setClock curPipe vt with checked := a.checked ++ [(event, vt)] }

def processMstxCrossCoreBarrier (curPipe : ℕ) (event : SanEvent) (info : MstxCrossCoreBarrier) :
    ReturnType × CrossCoreRaceAlg :=
  let conf := PipelineReplayer.coreBarrierConf info
  let (ret, vt, b) := RaceAlg.pollBarrier (a.crossCoreBarrier conf) conf.usedCoreNum
    event.loc.coreId curPipe (a.vc curPipe)
  (ret, { a.setClock curPipe vt with
    crossCoreBarrier := Function.update a.crossCoreBarrier conf b })

/-- The switch of `ProcessEvent`. -/
def dispatch (curPipe : ℕ) (event : SanEvent) : ReturnType × CrossCoreRaceAlg :=
  let blockIdx := a.blockIndex event
  match event.info with
  | .sync info =>
    let dstPipe := blockIdx * pipeSize + event.pipe.idx
    let (ret, vt, db) := RaceAlg.syncFlag (a.syncDB blockIdx) dstPipe (a.vc dstPipe) info
    (ret, { a.setClock dstPipe vt with syncDB := Function.update a.syncDB blockIdx db })
  | .mem _ | .dynamicMem _ => (.processOk, a.processMemEvent curPipe event)
  | .time info => (.processOk, a.setClock curPipe (RaceAlg.timeEvent curPipe (a.vc curPipe) info))
  | .crossCoreSync info =>
    let (ret, vt, c) := RaceAlg.blockSync a.container blockIdx curPipe (a.vc curPipe) event info
    (ret, { a.setClock curPipe vt with container := c })
  | .crossCoreSoftSync info =>
    let (ret, vc, c) := RaceAlg.blockSoftSync a.container blockIdx curPipe a.vc info
    (ret, { a with vc := vc, container := c })
  | .mstxCrossSync info =>
    let (ret, vt, c, m) := RaceAlg.mstxCrossSync a.container a.mstxSetCrossMap curPipe
      (a.vc curPipe) info
    (ret, { a.setClock curPipe vt with container := c, mstxSetCrossMap := m })
  | .mstxSignalSet info =>
    let vt := updateLogicTime (a.vc curPipe) curPipe
    (.processOk,
      { a.setClock curPipe vt with signalDatabase := a.signalDatabase.accumulate info vt })
  | .mstxSignalWait info =>
    let (ret, vt) := RaceAlg.signalWait a.signalDatabase curPipe (a.vc curPipe) info
    (ret, a.setClock curPipe vt)
  | .mstxCrossCoreBarrier info => a.processMstxCrossCoreBarrier curPipe event info
  | .mstxCrossNpuBarrier info =>
    a.processMstxCrossCoreBarrier curPipe event
      { usedCoreNum := info.usedCoreNum, isAIVOnly := info.isAIVOnly }
  | .bufSync info =>
    let key := (blockIdx, info.bufId)
    let (ret, vt, rls) := RaceAlg.getRlsBuf (a.getRlsBufMap key) (a.vc curPipe) info
    (ret, { a.setClock curPipe vt with getRlsBufMap := Function.update a.getRlsBufMap key rls })
  | _ => (.processOk, a)

/-- The time event that goes to the queue of a pipe before an event that is issued to it. -/
def timeEventOf (event : SanEvent) (vt : VectorTime) : SanEvent where
  serialNo := event.serialNo
  pipe := event.pipe
  info := .time (some vt)
  loc := { coreId := event.loc.coreId, blockType := event.loc.blockType }

def processEvent : EventFunc CrossCoreRaceAlg := fun c a event =>
  let curPipe := c.getQueIndex
  if c.pipeIndex ≠ event.pipe.idx then
    let vt := updateLogicTime (a.vc curPipe) curPipe
    let blockIdx := a.blockIndex event
    { ret := .processOk, state := a.setClock curPipe vt,
      pushes := [{ event := timeEventOf event vt, pipe := event.pipe, blockIdx },
        { event, pipe := event.pipe, blockIdx }] }
  else
    let (ret, a) := a.dispatch curPipe event
    { ret, state := a }

end CrossCoreRaceAlg

end MsSanitizer
