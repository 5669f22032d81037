import MsSanitizer.PipeLineSteps
import MsSanitizer.RaceAlgBase

/-!
# The race check inside a block

The model of `race_alg_impl.cpp`: all events of a block start in the queue of the scalar pipe. An
event of another pipe is issued from there; a time event with the clock of the scalar pipe goes
ahead of it. The events of a pipe are executed on its own queue, where memory events get the clock
that the checker compares.

`PipeLine::Run` polls the queues in a fixed order. Here any order is allowed: a run is a list of
successful polls, each with the pipe, the event and the clock of the pipe afterwards. A poll of a
queue that is empty or whose front event stalls changes nothing.
-/

namespace MsSanitizer

open RecordDefs EventDef VectorTime CrossCoreSync PipeLine

/-- `RaceAlgImpl`, without its queues; `checked` are the memory events that were given to the
checker, with their clocks. -/
structure RaceAlgImpl where
  kernelType : KernelType
  deviceType : DeviceType
  vc : ℕ → VectorTime := fun _ => {}
  syncDB : SyncEventDataBase := .empty
  container : Container
  mstxSetCrossMap : MstxSetCrossMap := fun _ => none
  getRlsBufMap : ℕ × ℕ → List VectorTime := fun _ => []
  checked : List (SanEvent × VectorTime) := []

namespace RaceAlgImpl

/-- `totalBlockNum` in the constructor. -/
def totalBlockNum (kernelType : KernelType) (deviceType : DeviceType) (blockDim : ℕ) : ℕ :=
  if needExpandBlockDim kernelType deviceType then blockDim * c220MixSubBlockDim else 1

def init (kernelType : KernelType) (deviceType : DeviceType) (blockDim : ℕ) : RaceAlgImpl where
  kernelType := kernelType
  deviceType := deviceType
  container := .init (totalBlockNum kernelType deviceType blockDim) kernelType

variable (a : RaceAlgImpl)

/-- `GetEventBlockIndex` for `SINGLE_BLOCK_CHECK`. -/
def blockIndex (event : SanEvent) : ℕ := getEventBlockIndex event.loc a.kernelType a.deviceType

def setClock (curPipe : ℕ) (vt : VectorTime) : RaceAlgImpl :=
  { a with vc := Function.update a.vc curPipe vt }

/-- `ProcessMemEvent` and `ProcessDynamicMemEvent`. -/
def processMemEvent (curPipe : ℕ) (event : SanEvent) : RaceAlgImpl :=
  let vt := updateLogicTime (a.vc curPipe) curPipe
  { a.setClock curPipe vt with checked := a.checked ++ [(event, vt)] }

def processSyncEvent (curPipe : ℕ) (info : SyncOpInfo) : ReturnType × RaceAlgImpl :=
  let (ret, vt, db) := RaceAlg.syncFlag a.syncDB curPipe (a.vc curPipe) info
  (ret, { a.setClock curPipe vt with syncDB := db })

/-- The switch of `ProcessEvent`. -/
def dispatch (curPipe : ℕ) (event : SanEvent) : ReturnType × RaceAlgImpl :=
  let blockIdx := a.blockIndex event
  match event.info with
  | .sync info => a.processSyncEvent curPipe info
  | .mem _ | .dynamicMem _ => (.processOk, a.processMemEvent curPipe event)
  | .time info => (.processOk, a.setClock curPipe (RaceAlg.timeEvent curPipe (a.vc curPipe) info))
  | .crossCoreSync info =>
    let (ret, vt, c) := RaceAlg.blockSync a.container blockIdx curPipe (a.vc curPipe) event info
    (ret, { a.setClock curPipe vt with container := c })
  | .mstxCrossSync info =>
    let (ret, vt, c, m) := RaceAlg.mstxCrossSync a.container a.mstxSetCrossMap curPipe
      (a.vc curPipe) info
    (ret, { a.setClock curPipe vt with container := c, mstxSetCrossMap := m })
  | .bufSync info =>
    let key := (blockIdx, info.bufId)
    let (ret, vt, rls) := RaceAlg.getRlsBuf (a.getRlsBufMap key) (a.vc curPipe) info
    (ret, { a.setClock curPipe vt with getRlsBufMap := Function.update a.getRlsBufMap key rls })
  | _ => (.processOk, a)

/-- The time event that is pushed ahead of an event that is issued. -/
def timeEventOf (event : SanEvent) (vt : VectorTime) : SanEvent where
  pipe := event.pipe
  info := .time (some vt)

def processEvent : EventFunc RaceAlgImpl := fun c a event =>
  let curPipe := c.getQueIndex
  if c.pipeIndex ≠ event.pipe.idx then
    let vt := updateLogicTime (a.vc curPipe) curPipe
    let blockIdx := a.blockIndex event
    { ret := .processOk, state := a.setClock curPipe vt,
      pushes := [{ event := timeEventOf event vt, pipe := event.pipe, blockIdx },
        { event, pipe := event.pipe, blockIdx }] }
  else
    let (ret, a) := a.dispatch curPipe event
    { ret, state := a }

/-- The pushes of `Do`: every event starts in the scalar queue of its block. -/
def pushes (events : List SanEvent) : List Push :=
  events.map fun event => { event, pipe := .s, blockIdx := a.blockIndex event }

/-- `Do` on the events before the end of the kernel, on the store of MSTX flags. -/
def collect (events : List SanEvent) : RaceAlgImpl :=
  { a with mstxSetCrossMap := events.foldl cacheMstxCrossSet a.mstxSetCrossMap }

end RaceAlgImpl

/-! ## Polls in any order -/

/-- The queues and the handler of a replay. -/
structure BlockReplay where
  events : EventContainer
  alg : RaceAlgImpl

/-- A successful poll: the pipe, the event that left its queue, and the clock of the pipe then. -/
structure Exec where
  pipe : PipeType
  event : SanEvent
  clock : VectorTime
  deriving DecidableEq

/-- The event is a memory event, and it was executed, not issued. -/
def Exec.isMem (x : Exec) : Bool :=
  decide (x.event.pipe = x.pipe) && PipelineReplayer.isMemEvent x.event

namespace BlockReplay

/-- The replay at the end of a kernel, before `Run`. -/
def start (kernelType : KernelType) (deviceType : DeviceType) (blockDim : ℕ)
    (events : List SanEvent) : BlockReplay :=
  let a := RaceAlgImpl.init kernelType deviceType blockDim
  { events := (a.pushes events).foldl .push
      (.init (RaceAlgImpl.totalBlockNum kernelType deviceType blockDim) 1)
    alg := a.collect events }

/-- The container at the queue of a pipe of block `b`. -/
def position (c : EventContainer) (b : ℕ) (p : PipeType) : EventContainer :=
  { c with pipeIndex := p.idx, blockIndex := b, deviceIndex := 0 }

/-- The index of the queue and of the clock of a pipe of block `b`. -/
def queIdx (b : ℕ) (p : PipeType) : ℕ := b * pipeSize + p.idx

/-- The queue of a pipe of block `b`. -/
def que (s : BlockReplay) (b : ℕ) (p : PipeType) : List SanEvent := s.events.ques (queIdx b p)

/-- The front event of a queue is offered to the handler; `none` where the queue is empty or the
event stalls. -/
def poll (b : ℕ) (p : PipeType) (s : BlockReplay) : Option (Exec × BlockReplay) :=
  let c := position s.events b p
  match s.que b p with
  | [] => none
  | event :: _ =>
    let r := RaceAlgImpl.processEvent c s.alg event
    match r.ret with
    | .processStalled => none
    | .processOk =>
      some (⟨p, event, r.state.vc (queIdx b p)⟩, ⟨afterOffer c r, r.state⟩)

/-- The runs of block `b`, with what was executed. -/
inductive Polls (b : ℕ) (s₀ : BlockReplay) : List Exec → BlockReplay → Prop
  | nil : Polls b s₀ [] s₀
  | concat {tr s p x s'} (h : Polls b s₀ tr s) (hpoll : poll b p s = some (x, s')) :
      Polls b s₀ (tr ++ [x]) s'

/-- Every queue of the block is empty, or its front event stalls. -/
def Stuck (b : ℕ) (s : BlockReplay) : Prop := ∀ p, poll b p s = none

end BlockReplay

/-! ## Events of a block -/

/-- Memory events and flags between pipes, of one block. As the parser makes them, a flag is set on
its source pipe and waited for on its destination pipe. -/
def IsBlockEvent (kernelType : KernelType) (deviceType : DeviceType) (b : ℕ) (e : SanEvent) :
    Prop :=
  getEventBlockIndex e.loc kernelType deviceType = b ∧
    (PipelineReplayer.isMemEvent e = true ∨ ∃ info, e.info = .sync info ∧
      (info.opType = .setFlag ∧ e.pipe = info.srcPipe ∨
        info.opType = .waitFlag ∧ e.pipe = info.dstPipe))

/-- Memory events and synchronisation inside a block. Flags are at their pipes; what else there is,
such as the barrier of a pipe, is executed without effect. -/
def InBlock (kernelType : KernelType) (deviceType : DeviceType) (b : ℕ) (e : SanEvent) : Prop :=
  getEventBlockIndex e.loc kernelType deviceType = b ∧
    (PipelineReplayer.isMemEvent e = true ∨ ∃ info, e.info = .sync info ∧
      (info.opType = .setFlag → e.pipe = info.srcPipe) ∧
      (info.opType = .waitFlag → e.pipe = info.dstPipe))

lemma IsBlockEvent.inBlock {kernelType : KernelType} {deviceType : DeviceType} {b : ℕ}
    {e : SanEvent} (h : IsBlockEvent kernelType deviceType b e) :
    InBlock kernelType deviceType b e := by
  obtain ⟨hb, hm | ⟨info, hi, ⟨hop, hp⟩ | ⟨hop, hp⟩⟩⟩ := h
  · exact ⟨hb, .inl hm⟩
  · refine ⟨hb, .inr ⟨info, hi, fun _ => hp, fun hc => ?_⟩⟩
    rw [hop] at hc
    cases hc
  · refine ⟨hb, .inr ⟨info, hi, fun hc => ?_, fun _ => hp⟩⟩
    rw [hop] at hc
    cases hc

end MsSanitizer
