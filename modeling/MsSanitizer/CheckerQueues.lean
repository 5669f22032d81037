import MsSanitizer.ParsePipeline
import MsSanitizer.RecordDefs

/-!
# The checker

`checker.cpp`. What comes out of the parse pipeline goes into one queue for each tool, and one
thread for each tool works through its queue. Two kinds of calls put work into the queues: the
committer of the pipeline calls `DispatchParsed`, and the thread of a client calls `Do` for a single
record. At the end of a kernel the caller waits until every tool has emptied its queue; the flags
for this are `finishProduce_` and, for each tool, `done_`.

A step is what a thread does under a lock or between two sections under one. While `finishProduce_`
is set the thread of a tool takes an entry out of its queue without the lock; the operations of a
queue are assumed to be atomic all the same. Beside the fields of the source each tool keeps the
history of what its thread has handled.
-/

namespace MsSanitizer.CheckerQueues

open MsSanitizer.ParsePipeline MsSanitizer.RecordDefs

inductive ToolType
  | memcheck | racecheck | synccheck | registercheck
  deriving DecidableEq, Repr

namespace ToolType

/-- The loops over `TOOL_NUM`. -/
def all : List ToolType := [memcheck, racecheck, synccheck, registercheck]

lemma mem_all (t : ToolType) : t ∈ all := by cases t <;> decide

end ToolType

/-- The switches of `Config` that the checker reads. -/
structure Config where
  defaultCheck : Bool := true
  raceCheck : Bool := false
  syncCheck : Bool := false
  registerCheck : Bool := false
  deriving DecidableEq, Repr

def Config.creates (config : Config) : ToolType → Bool
  | .memcheck => config.defaultCheck
  | .racecheck => config.raceCheck
  | .synccheck => config.syncCheck
  | .registercheck => config.registerCheck

/-- `IsNeedFilterDbi` by the tool. -/
def isNeedFilterDbi (config : Config) (isKernelWithDBI : Bool) (deviceType : DeviceType)
    (tool : ToolType) : Bool :=
  if !isKernelWithDBI then false
  else if isAscend95 deviceType then false
  else (tool == .racecheck && config.raceCheck) || (tool == .synccheck && config.syncCheck)

variable {W Record Event Info ε : Type*}

/-- `ParseTask`: the records of a block, or the promise of a completion by its number. -/
inductive ParseTask (Record : Type*)
  | records (records : List Record)
  | completion (promise : ℕ)

/-- `ParseOut`, with the events of each record. -/
inductive ParseOut (Record Event : Type*)
  | records (records : List Record) (events : List (List Event))
  | completion (promise : ℕ)

/-- `WorkArgs` by its event type. -/
inductive WorkArgs (Record Event Info : Type*)
  /-- The device info, the kernel summary or the name of the kernel. -/
  | updated (info : Info)
  | sanitizerRecordArrived (record : Record) (event : List Event)
  | kernelBlockArrived (records : List Record) (events : List (List Event))
  | memcheckCompletion (promise : ℕ)

/-- What `done_` is about. -/
def WorkArgs.isWork : WorkArgs Record Event Info → Bool
  | .sanitizerRecordArrived _ _ | .kernelBlockArrived _ _ => true
  | .updated _ | .memcheckCompletion _ => false

def WorkArgs.parsed : WorkArgs Record Event Info → Option (ParseOut Record Event)
  | .kernelBlockArrived rs events => some (.records rs events)
  | .memcheckCompletion promise => some (.completion promise)
  | .updated _ | .sanitizerRecordArrived _ _ => none

/-- What `DispatchParsed` makes of an output. -/
def ParseOut.workArgs : ParseOut Record Event → WorkArgs Record Event Info
  | .records rs events => .kernelBlockArrived rs events
  | .completion promise => .memcheckCompletion promise

@[simp] lemma parsed_workArgs (out : ParseOut Record Event) :
    (out.workArgs : WorkArgs Record Event Info).parsed = some out := by
  cases out <;> rfl

/-! ### The queues and their threads -/

/-- The thread of a tool: before its queue, with an entry that it handles, after work when it reads
`finishProduce_` next, or in `WaitAfterConsumed`. -/
inductive Consumer (A : Type*)
  | ready
  | handling (args : A)
  | consumed
  | marking

structure Tool (A : Type*) where
  workerArgs : List A := []
  done : Bool := true
  thread : Consumer A := .ready
  /-- What the thread has handled. -/
  handled : List A := []

def Consumer.hand {A : Type*} : Consumer A → List A
  | handling args => [args]
  | _ => []

/-- Everything that was put into the queue of a tool. -/
def Tool.delivered {A : Type*} (tool : Tool A) : List A :=
  tool.handled ++ tool.thread.hand ++ tool.workerArgs

/-- What the threads of the tools and the callers share. -/
structure Board (A : Type*) where
  finishProduce : Bool := false
  tools : ToolType → Tool A := fun _ => {}

namespace Board

def setTool {A : Type*} (b : Board A) (t : ToolType) (tool : Tool A) : Board A :=
  { b with tools := Function.update b.tools t tool }

def push (b : Board (WorkArgs Record Event Info)) (t : ToolType)
    (args : WorkArgs Record Event Info) : Board (WorkArgs Record Event Info) :=
  b.setTool t
    { b.tools t with
      done := (b.tools t).done && !args.isWork
      workerArgs := (b.tools t).workerArgs ++ [args] }

end Board

/-- The steps of `ConsumeRecordThread`. -/
inductive Consume (finishProduce : Bool) : Tool (WorkArgs Record Event Info) →
    Tool (WorkArgs Record Event Info) → Prop
  | pop {tool} (args rest) (ht : tool.thread = .ready) (hq : tool.workerArgs = args :: rest) :
      Consume finishProduce tool { tool with workerArgs := rest, thread := .handling args }
  | handle {tool} (args) (ht : tool.thread = .handling args) :
      Consume finishProduce tool
        { tool with
          handled := tool.handled ++ [args]
          thread := if args.isWork then .consumed else .ready }
  | readFinishProduce {tool} (ht : tool.thread = .consumed) :
      Consume finishProduce tool
        { tool with thread := if finishProduce then .marking else .ready }
  | waitAfterConsumed {tool} (ht : tool.thread = .marking) :
      Consume finishProduce tool
        { tool with done := tool.done || tool.workerArgs.isEmpty, thread := .ready }

/-! ### Dispatches -/

/-- Where a call of `DispatchParsed` or of `Do` for a record is. It has still to put its entry into
the queues of `rest`, or has still to wait for the tools of `rest`. -/
inductive Dispatch (A : Type*)
  | idle
  | starting (args : A) (isKernelFinish : Bool) (active : List ToolType)
  | pushing (args : A) (isKernelFinish : Bool) (active rest : List ToolType)
  | waiting (active rest : List ToolType)
  /-- The call returns; it has waited for the tools in `waited`. -/
  | returning (waited : List ToolType)

/-- The steps of a dispatch. -/
inductive Advance : Board (WorkArgs Record Event Info) → Dispatch (WorkArgs Record Event Info) →
    Board (WorkArgs Record Event Info) → Dispatch (WorkArgs Record Event Info) → Prop
  | completion {b} (promise isKernelFinish active) :
      Advance b (.starting (.memcheckCompletion promise) isKernelFinish active)
        (b.push .memcheck (.memcheckCompletion promise)) (.returning [])
  | start {b} (args isKernelFinish active) (hw : args.isWork = true) :
      Advance b (.starting args isKernelFinish active) { b with finishProduce := false }
        (.pushing args isKernelFinish active active)
  | push {b} (args isKernelFinish active t rest) :
      Advance b (.pushing args isKernelFinish active (t :: rest)) (b.push t args)
        (.pushing args isKernelFinish active rest)
  | pushed {b} (args active) : Advance b (.pushing args false active []) b (.returning [])
  | finish {b} (args active) :
      Advance b (.pushing args true active []) { b with finishProduce := true }
        (.waiting active active)
  | pass {b} (active t rest) (hd : (b.tools t).done = true) :
      Advance b (.waiting active (t :: rest)) b (.waiting active rest)
  | passed {b} (active) : Advance b (.waiting active []) b (.returning active)

/-! ### The checker -/

structure Checker (W Record Event Info ε : Type*) where
  pipeline : Pipeline W (ParseTask Record) (ParseOut Record Event) ε := {}
  board : Board (WorkArgs Record Event Info) := {}
  isKernelWithDBI : Bool := false
  deviceType : DeviceType := ⟨0⟩
  /-- `DispatchParsed`, called by the committer. -/
  dispatch : Dispatch (WorkArgs Record Event Info) := .idle
  /-- `Do` for a record, behind `doMutex_`. -/
  direct : Dispatch (WorkArgs Record Event Info) := .idle

/-- What the checker reads of records. -/
structure Kinds (Record : Type*) where
  isMemoryRecord : Record → Bool
  /-- A kernel record of the type `KERNEL_FINISH`. -/
  isKernelFinish : Record → Bool

variable (config : Config) (kinds : Kinds Record)

namespace Checker

variable (s : Checker W Record Event Info ε)

def active : List ToolType :=
  ToolType.all.filter fun t =>
    config.creates t && !isNeedFilterDbi config s.isKernelWithDBI s.deviceType t

def activeFor (record : Record) : List ToolType :=
  ToolType.all.filter fun t =>
    config.creates t && (kinds.isMemoryRecord record ||
      !isNeedFilterDbi config s.isKernelWithDBI s.deviceType t)

/-- `CaptureMemcheckCompletion`. The number of a promise is that of its task. -/
def capture : Checker W Record Event Info ε :=
  { s with pipeline := s.pipeline.submit (.completion s.pipeline.history.length) }

end Checker

/-- `isKernelFinish` of `DispatchParsed`. -/
def ParseOut.isKernelFinish : ParseOut Record Event → Bool
  | .records rs _ => rs.getLast?.any kinds.isKernelFinish
  | .completion _ => false

section

variable [DecidableEq W] (parse : List Record → Except ε (List (List Event)) → Prop)

/-- `ParseRecords`, where `parse` is its loop on a thread of the pool. A promise is passed on. -/
inductive Parses : ParseTask Record → Except ε (ParseOut Record Event) → Prop
  | records (rs r) (h : parse rs r) : Parses (.records rs) (r.map (ParseOut.records rs))
  | completion (promise) : Parses (.completion promise) (.ok (.completion promise))

/-- The steps of the threads of a checker. -/
inductive Internal : Checker W Record Event Info ε → Checker W Record Event Info ε → Prop
  /-- A worker of the pipeline, or the committer outside of `DispatchParsed`. -/
  | pipeline {s} (pipeline) (h : ParsePipeline.Internal (Parses parse) s.pipeline pipeline)
      (hc : s.pipeline.committer = .committing ↔ pipeline.committer = .committing) :
      Internal s { s with pipeline := pipeline }
  | commit {s} (ticket out) (hc : s.pipeline.committer = .getting ticket)
      (hr : s.pipeline.results ticket = some (.ok out)) :
      Internal s
        { s with
          pipeline := s.pipeline.commit out
          dispatch := .starting out.workArgs (out.isKernelFinish kinds) (s.active config) }
  | commitReturn {s} (waited) (hc : s.pipeline.committer = .committing)
      (hd : s.dispatch = .returning waited) :
      Internal s
        { s with pipeline := { s.pipeline with committer := .counting }, dispatch := .idle }
  | advance {s} (board dispatch) (h : Advance s.board s.dispatch board dispatch) :
      Internal s { s with board := board, dispatch := dispatch }
  | advanceDirect {s} (board direct) (h : Advance s.board s.direct board direct) :
      Internal s { s with board := board, direct := direct }
  | directReturn {s} (waited) (hd : s.direct = .returning waited) :
      Internal s { s with direct := .idle }
  | consume {s} (t tool) (h : Consume s.board.finishProduce (s.board.tools t) tool) :
      Internal s { s with board := s.board.setTool t tool }

/-- The steps of a checker, with the calls of its clients. A pipeline that is shut down accepts
nothing. -/
inductive Step (cap : ℕ) : Checker W Record Event Info ε → Checker W Record Event Info ε → Prop
  | internal {s s'} (h : Internal config kinds parse s s') : Step cap s s'
  /-- `Do` for the records of a block, which are not empty. -/
  | submit {s} (rs) (hne : rs ≠ []) (hs : s.pipeline.stop = false)
      (hroom : s.pipeline.ordered.length < cap) :
      Step cap s { s with pipeline := s.pipeline.submit (.records rs) }
  | capture {s} (hm : config.creates .memcheck = true) (hs : s.pipeline.stop = false)
      (hroom : s.pipeline.ordered.length < cap) : Step cap s s.capture
  /-- `Do` for a record: `Drain` has returned. -/
  | doRecord {s} (record events) (hd : s.direct = .idle) (hp : s.pipeline.drains = true)
      (he : s.pipeline.firstError = none) :
      Step cap s
        { s with
          direct := .starting (.sanitizerRecordArrived record events)
            (kinds.isKernelFinish record) (s.activeFor config kinds record) }
  /-- `SetDeviceInfo` and `SetKernelInfo` behind their `Drain`. -/
  | setDeviceInfo {s} (type) (hp : s.pipeline.drains = true) :
      Step cap s { s with deviceType := type }
  | setKernelInfo {s} (isKernelWithDBI) (hp : s.pipeline.drains = true) :
      Step cap s { s with isKernelWithDBI := isKernelWithDBI }
  | update {s} (t info) (hc : config.creates t = true) (hp : s.pipeline.drains = true) :
      Step cap s { s with board := s.board.push t (.updated info) }

abbrev Steps (cap : ℕ) (s s' : Checker W Record Event Info ε) : Prop :=
  Relation.ReflTransGen (Step config kinds parse cap) s s'

end

end MsSanitizer.CheckerQueues
