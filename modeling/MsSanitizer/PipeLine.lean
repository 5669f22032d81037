import MsSanitizer.EventDef

/-!
# The pipeline replay

The model of `event_container.cpp` and `pipe_line.cpp`. An `EventContainer` has one queue for
each pipe of each block of each device and a position among them; `PipeLine::Run` is a state
machine that walks the queues round robin, offers the front event of the current queue to a
handler and moves on when the handler stalls. Counters of the events popped in a round tell
whether a block and a device made progress.

The queues are a function of the flattened index. The two pop counters have 32 bits and wrap;
indexes are below the number of queues, which the checks on the block dimension keep far from
that bound. A handler has a state of its own, sees the container and may push events to it: it
is a function that returns the pushes it makes.
-/

namespace MsSanitizer

namespace PipeLine

open RecordDefs EventDef

structure EventContainer where
  ques : ℕ → List SanEvent := fun _ => []
  deviceNum : ℕ := 0
  maxBlockNum : ℕ := 0
  blockPopCount : ℕ := 0
  devicePopCount : ℕ := 0
  isBlockStuck : Bool := false
  isDeviceStuck : Bool := false
  stuckDeviceNum : ℕ := 0
  pipeIndex : ℕ := 0
  blockIndex : ℕ := 0
  deviceIndex : ℕ := 0

/-- The arguments of one call of `Push`. -/
structure Push where
  event : SanEvent
  pipe : PipeType
  blockIdx : ℕ
  deviceIdx : ℕ := 0

namespace EventContainer

def init (blockNum deviceNum : ℕ) : EventContainer :=
  { deviceNum := deviceNum, maxBlockNum := blockNum }

/-- The size of `ques_`. -/
def queNum (c : EventContainer) : ℕ := c.deviceNum * c.maxBlockNum * pipeSize

def flattenPipeIdx (c : EventContainer) (pipeIdx blockIdx deviceIdx : ℕ) : ℕ :=
  deviceIdx * c.maxBlockNum * pipeSize + blockIdx * pipeSize + pipeIdx

/-- The events that `Push` appends: a block copy becomes its read and its write. -/
def parts (e : SanEvent) : List SanEvent :=
  match e.info with
  | .mem info =>
    if info.opType = .memcpyBlocks then
      [{ e with info := .mem { info with opType := .read } },
        { e with info := .mem { info with opType := .write } }]
    else [e]
  | _ => [e]

/-- `Push`: an event for a block or a device that does not exist is dropped. -/
def push (c : EventContainer) (p : Push) : EventContainer :=
  if c.maxBlockNum ≤ p.blockIdx ∨ c.deviceNum ≤ p.deviceIdx then c
  else
    let i := c.flattenPipeIdx p.pipe.idx p.blockIdx p.deviceIdx
    { c with ques := Function.update c.ques i (c.ques i ++ parts p.event) }

def getQueIndex (c : EventContainer) : ℕ :=
  c.flattenPipeIdx c.pipeIndex c.blockIndex c.deviceIndex

def pop (c : EventContainer) : EventContainer :=
  { c with
    blockPopCount := (c.blockPopCount + 1) % 2 ^ 32
    devicePopCount := (c.devicePopCount + 1) % 2 ^ 32
    ques := Function.update c.ques c.getQueIndex (c.ques c.getQueIndex).tail }

def isCurQueEmpty (c : EventContainer) : Bool := (c.ques c.getQueIndex).isEmpty

/-- The `n` queues from index `start` on are empty. -/
def emptyFrom (c : EventContainer) (start n : ℕ) : Bool :=
  (List.range n).all fun i => (c.ques (start + i)).isEmpty

def isCurBlockEmpty (c : EventContainer) : Bool :=
  c.emptyFrom (c.flattenPipeIdx 0 c.blockIndex c.deviceIndex) pipeSize

/-- The loop of `IsCurDeviceEmpty`, for any device. -/
def isDeviceEmpty (c : EventContainer) (deviceIdx : ℕ) : Bool :=
  c.emptyFrom (c.flattenPipeIdx 0 0 deviceIdx) (c.maxBlockNum * pipeSize)

def isCurDeviceEmpty (c : EventContainer) : Bool := c.isDeviceEmpty c.deviceIndex

def isNeedSwitchNextBlock (c : EventContainer) : Bool := c.isBlockStuck || c.isCurBlockEmpty

def isNeedSwitchNextDevice (c : EventContainer) : Bool := c.isDeviceStuck || c.isCurDeviceEmpty

def isEmpty (c : EventContainer) : Bool := c.emptyFrom 0 c.queNum

def checkCurDeviceStuck (c : EventContainer) : EventContainer :=
  if c.isDeviceStuck then { c with stuckDeviceNum := c.stuckDeviceNum + 1 }
  else { c with stuckDeviceNum := 0 }

def isAllDeviceStuck (c : EventContainer) : Bool := c.stuckDeviceNum == c.deviceNum

def switchToNextDevice (c : EventContainer) : EventContainer :=
  { c with
    deviceIndex := (c.deviceIndex + 1) % c.deviceNum
    blockIndex := 0
    pipeIndex := 0
    blockPopCount := 0
    devicePopCount := 0
    isBlockStuck := false
    isDeviceStuck := false }

def switchToNextBlock (c : EventContainer) : EventContainer :=
  if (c.blockIndex + 1) % c.maxBlockNum = 0 then
    { c with
      blockIndex := 0
      pipeIndex := 0
      blockPopCount := 0
      isBlockStuck := false
      isDeviceStuck := c.devicePopCount == 0
      stuckDeviceNum := if c.devicePopCount = 0 then c.stuckDeviceNum else 0
      devicePopCount := 0 }
  else
    { c with
      blockIndex := (c.blockIndex + 1) % c.maxBlockNum
      pipeIndex := 0
      blockPopCount := 0
      isBlockStuck := false }

def switchToNextPipe (c : EventContainer) : EventContainer :=
  if (c.pipeIndex + 1) % pipeSize = PipeType.s.idx then
    { c with
      pipeIndex := PipeType.s.idx
      isBlockStuck := c.blockPopCount == 0
      blockPopCount := 0 }
  else { c with pipeIndex := (c.pipeIndex + 1) % pipeSize }

end EventContainer

inductive ReturnType
  | processOk | processStalled
  deriving DecidableEq, Repr

inductive PipeState
  | checkAllDevice | checkCurDevice | checkCurBlock | checkCurPipe | processEvent | exit
  | exception
  deriving DecidableEq, Repr

/-- What a call of the handler does: its answer, its state after the call and its pushes. -/
structure Reply (σ : Type*) where
  ret : ReturnType
  state : σ
  pushes : List Push := []

abbrev EventFunc (σ : Type*) := EventContainer → σ → SanEvent → Reply σ

end PipeLine

open PipeLine in
/-- `PipeLine`, with the state of the handler it was given. -/
structure PipeLine (σ : Type*) where
  events : EventContainer
  handler : σ
  pipeState : PipeState := .checkAllDevice

namespace PipeLine

variable {σ : Type*}

def checkAllDevice (p : PipeLine σ) : PipeLine σ :=
  { p with pipeState := if p.events.isEmpty then .exit else .checkCurDevice }

def checkCurDevice (p : PipeLine σ) : PipeLine σ :=
  if p.events.isNeedSwitchNextDevice then
    if p.events.checkCurDeviceStuck.isAllDeviceStuck then
      { p with events := p.events.checkCurDeviceStuck, pipeState := .exception }
    else
      { p with
        events := p.events.checkCurDeviceStuck.switchToNextDevice
        pipeState := .checkAllDevice }
  else { p with pipeState := .checkCurBlock }

def checkCurBlock (p : PipeLine σ) : PipeLine σ :=
  if p.events.isNeedSwitchNextBlock then
    { p with events := p.events.switchToNextBlock, pipeState := .checkCurDevice }
  else { p with pipeState := .checkCurPipe }

def checkCurPipe (p : PipeLine σ) : PipeLine σ :=
  if p.events.isCurQueEmpty then
    { p with events := p.events.switchToNextPipe, pipeState := .checkCurBlock }
  else { p with pipeState := .processEvent }

/-- The answer of the handler to the front event of the current queue, if there is one. -/
def reply (func : EventFunc σ) (p : PipeLine σ) : Option (Reply σ) :=
  (p.events.ques p.events.getQueIndex).head?.map (func p.events p.handler)

/-- `Process`; the queue is never empty here, since `CheckCurPipe` has just looked. -/
def process (func : EventFunc σ) (p : PipeLine σ) : PipeLine σ :=
  match reply func p with
  | none => p
  | some r =>
    match r.ret with
    | .processOk =>
      { events := (r.pushes.foldl .push p.events).pop, handler := r.state,
        pipeState := .checkCurPipe }
    | .processStalled =>
      { events := (r.pushes.foldl .push p.events).switchToNextPipe, handler := r.state,
        pipeState := .checkCurBlock }

/-- One round of the loop of `Run`, for a registered handler. -/
def step (func : EventFunc σ) (p : PipeLine σ) : PipeLine σ :=
  match p.pipeState with
  | .checkAllDevice => p.checkAllDevice
  | .checkCurDevice => p.checkCurDevice
  | .checkCurBlock => p.checkCurBlock
  | .checkCurPipe => p.checkCurPipe
  | .processEvent => p.process func
  | .exit => p
  | .exception => p

/-- The condition on which the loop of `Run` ends. -/
def Stopped (p : PipeLine σ) : Prop := p.pipeState = .exit ∨ p.pipeState = .exception

instance (p : PipeLine σ) : Decidable p.Stopped := inferInstanceAs (Decidable (_ ∨ _))

/-- The pipeline that `Run` starts with: a container filled by pushes. -/
def start (blockNum deviceNum : ℕ) (pushes : List Push) (handler : σ) : PipeLine σ :=
  { events := pushes.foldl .push (.init blockNum deviceNum), handler := handler }

/-- `Run` after `n` rounds of its loop. -/
def run (func : EventFunc σ) (p : PipeLine σ) (n : ℕ) : PipeLine σ := (step func)^[n] p

end PipeLine

end MsSanitizer
