import MsSanitizer.RecordStream

/-!
# Records before the parser

The model of `record_pre_process.cpp`: the records between a pair of stubs are dropped, the
repeated waits of an MSTX communication are merged, and while it is open whether a wait is
repeated the records are buffered and later parsed together, into one list of events.
-/

namespace MsSanitizer.RecordParse

open RecordDefs EventDef

/-- `SanitizerRecord`: of a host memory record nothing is read here. -/
inductive SanitizerRecord
  | memory
  | kernel (record : KernelRecord)
  deriving DecidableEq, Repr

structure MstxCrossWaitRecordInfo where
  record : MstxCrossRecord := {}
  coreID : ℕ := 0
  deriving DecidableEq, Repr

structure MstxCrossWaitMergeInfo where
  firstPreRecord : MstxCrossWaitRecordInfo := {}
  secondPreRecord : MstxCrossWaitRecordInfo := {}
  throughFirstWait : Bool := false
  throughSecondWait : Bool := false
  endTag : Bool := false
  deriving DecidableEq, Repr

structure RecordPreProcess where
  recordBuffer : List KernelRecord := []
  waitMergeInfo : MstxCrossWaitMergeInfo := {}
  mstxMergeTag : Bool := false
  isFirstSyncAllStub : Bool := false
  deriving DecidableEq, Repr

def ignoreSoftSyncRecord (r : KernelRecord) : Bool :=
  match r.payload with
  | .ibSet _ | .ibWait _ | .syncAll => true
  | _ => false

def ignoreMstxCrossSetRecord (r : KernelRecord) : Bool :=
  match r.payload with
  | .mstxCross _ false record => record.isMerge
  | _ => false

def ignoreRecord (r : KernelRecord) : Bool :=
  ignoreSoftSyncRecord r || ignoreMstxCrossSetRecord r

def isRealSyncType (t : ℕ) : Bool :=
  decide (t ∈ [20000, 20001, 20002, 20003, 20004, 20044, 20005, 20006, 20007])

/-- `IsMstxWaitRecord`, with the record that it speaks of. -/
def mstxWaitRecord (r : KernelRecord) : Option MstxCrossRecord :=
  match r.payload with
  | .mstxCross _ true record => if record.isMore then some record else none
  | _ => none

/-- A `SYNC_ALL_STUB`. -/
def isSyncAllStub (r : KernelRecord) : Bool := decide (r.payload = .syncAll)

namespace RecordPreProcess

/-- `UpdateMergeInfo` and the flag of pairs of `SYNC_ALL_STUB`. -/
def updateMergeInfo (p : RecordPreProcess) (r : KernelRecord) : RecordPreProcess :=
  { p with
    isFirstSyncAllStub :=
      if isSyncAllStub r then !p.isFirstSyncAllStub else p.isFirstSyncAllStub
    mstxMergeTag := if ignoreRecord r then !p.mstxMergeTag else p.mstxMergeTag }

/-- `Process` drops the record. -/
def drops (p : RecordPreProcess) (r : KernelRecord) : Bool :=
  p.mstxMergeTag && !isRealSyncType r.recordType &&
    !(isSyncAllStub r && p.isFirstSyncAllStub) && !r.isFinish

/-- The branch of `ProcessMstxCrossWaitRecord` for a wait. -/
def mergeWait (p : RecordPreProcess) (r : KernelRecord) (record : MstxCrossRecord) :
    RecordPreProcess :=
  let info := p.waitMergeInfo
  let cur : MstxCrossWaitRecordInfo := { record, coreID := r.location.blockId }
  let equal := (info.throughFirstWait && decide (info.firstPreRecord = cur)) ||
    (info.throughSecondWait && decide (info.secondPreRecord = cur))
  let endTag := !equal && info.throughFirstWait && info.throughSecondWait
  { p with
    recordBuffer := if equal then p.recordBuffer else p.recordBuffer ++ [r]
    waitMergeInfo :=
      if info.throughSecondWait then
        { info with firstPreRecord := info.secondPreRecord, secondPreRecord := cur, endTag }
      else if info.throughFirstWait then
        { info with secondPreRecord := cur, throughSecondWait := true, endTag }
      else { info with firstPreRecord := cur, throughFirstWait := true, endTag } }

def processMstxCrossWaitRecord (p : RecordPreProcess) (r : KernelRecord) : RecordPreProcess :=
  match mstxWaitRecord r with
  | some record => p.mergeWait r record
  | none =>
    { p with
      recordBuffer := p.recordBuffer ++ [r]
      waitMergeInfo :=
        if r.isFinish then
          { p.waitMergeInfo with
            throughFirstWait := false, throughSecondWait := false, endTag := true }
        else { p.waitMergeInfo with endTag := !p.waitMergeInfo.throughFirstWait } }

/-- `Process` on its own state: the records that are parsed now, and the state after the call. -/
def next (p : RecordPreProcess) (r : KernelRecord) : List KernelRecord × RecordPreProcess :=
  let p := p.updateMergeInfo r
  if p.drops r then ([], p)
  else
    let p :=
      if r.isFinish then { p with mstxMergeTag := false, isFirstSyncAllStub := false } else p
    let p := p.processMstxCrossWaitRecord r
    if p.waitMergeInfo.endTag then (p.recordBuffer, { p with recordBuffer := [] }) else ([], p)

lemma drops_of_isFinish (p : RecordPreProcess) {r : KernelRecord} (hr : r.isFinish = true) :
    p.drops r = false := by
  unfold drops
  rw [hr, Bool.not_true, Bool.and_false]

lemma next_of_drops {p : RecordPreProcess} {r : KernelRecord}
    (hdrop : (p.updateMergeInfo r).drops r = true) : p.next r = ([], p.updateMergeInfo r) := by
  unfold next
  exact if_pos hdrop

/-- A record that is not dropped goes through the window of waits; the records that are kept were
kept before. -/
lemma next_of_not_drops {p : RecordPreProcess} {r : KernelRecord}
    (hdrop : ¬ (p.updateMergeInfo r).drops r = true) :
    ∃ q : RecordPreProcess, q.recordBuffer = p.recordBuffer ∧
      p.next r = if (q.processMstxCrossWaitRecord r).waitMergeInfo.endTag = true then
        ((q.processMstxCrossWaitRecord r).recordBuffer,
          { q.processMstxCrossWaitRecord r with recordBuffer := [] })
      else ([], q.processMstxCrossWaitRecord r) := by
  refine ⟨if r.isFinish then
    { p.updateMergeInfo r with mstxMergeTag := false, isFirstSyncAllStub := false }
    else p.updateMergeInfo r, ?_, ?_⟩
  · split_ifs <;> rfl
  · rw [next]
    dsimp only
    rw [if_neg hdrop]

end RecordPreProcess

/-- Records that are parsed into one list of events. -/
def parseBatch (ctx : Context) (events : List SanEvent) (st : ParseState)
    (rs : List KernelRecord) : List SanEvent × ParseState :=
  rs.foldl (fun x r => parse ctx r x.1 x.2) (events, st)

/-- The thread-local state of a worker. -/
structure Worker where
  pre : RecordPreProcess := {}
  parser : ParseState := {}

/-- The records that a call of `Process` parses. -/
def Worker.flushed (w : Worker) : SanitizerRecord → List KernelRecord
  | .memory => []
  | .kernel r => (w.pre.next r).1

def Worker.process (ctx : Context) (w : Worker) (record : SanitizerRecord) :
    List SanEvent × Worker :=
  match record with
  | .memory => ([], w)
  | .kernel r =>
    let x := parseBatch ctx [] w.parser (w.flushed record)
    (x.1, { pre := (w.pre.next r).2, parser := x.2 })

/-- The worker after some records, each with a list of its own. -/
def Worker.after (ctx : Context) (w : Worker) (records : List SanitizerRecord) : Worker :=
  records.foldl (fun w record => (w.process ctx record).2) w

end MsSanitizer.RecordParse
