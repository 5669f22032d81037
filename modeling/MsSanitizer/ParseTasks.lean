import MsSanitizer.BatchParse

/-!
# Tasks and the threads that parse them

`Checker::ParseRecords`. The records of a block form a task, and any thread of the pool may parse
it; a thread keeps the state of its parser from one task to the next. The record at the end of a
task resets this state, but not all of it: the atomic modes stay, and a `KERNEL_FINISH` that is
parsed together with records before it brings back a set that waits to be replaced in their list.
-/

namespace MsSanitizer.RecordParse

open RecordDefs EventDef

/-- `ParseTask`, with what the parser reads of its context. -/
structure ParseTask where
  ctx : Context := {}
  records : List SanitizerRecord

namespace Worker

/-- One round of the loop of `ParseRecords`, with the list of events in the context: `clear` keeps
its storage. -/
def round (x : Context × Worker) (record : SanitizerRecord) :
    List SanEvent × Context × Worker :=
  let y := x.2.process x.1 record
  (y.1, { x.1 with room := capacity x.1.room y.1.length }, y.2)

def rounds (x : Context × Worker) (records : List SanitizerRecord) : Context × Worker :=
  records.foldl (fun x record => (round x record).2) x

/-- The loop of `ParseRecords`: for each record its events, up to its offset. `collects` is
`ShouldCollectInitcheckEvent`, or accepts all events if there is nothing to filter. -/
def parseEach (collects : SanEvent → Bool) (x : Context × Worker) :
    List SanitizerRecord → List (List SanEvent) × Worker
  | [] => ([], x.2)
  | record :: records =>
    let y := round x record
    let z := parseEach collects y.2 records
    (y.1.filter collects :: z.1, z.2)

end Worker

/-- The context at the start of a task, with the list that is reserved. -/
def ParseTask.start (task : ParseTask) : Context := { task.ctx with room := 4 }

def Worker.parseRecords (collects : SanEvent → Bool) (w : Worker) (task : ParseTask) :
    List (List SanEvent) × Worker :=
  parseEach collects (task.start, w) task.records

/-- What `ParseRecords` returns for each task, if the task with number `i` is given to the thread
`assign i`. A thread gets its tasks in the order in which they were submitted. -/
def runTasks (collects : SanEvent → Bool) (assign : ℕ → ℕ) :
    (ℕ → Worker) → ℕ → List ParseTask → List (List (List SanEvent))
  | _, _, [] => []
  | workers, i, task :: tasks =>
    let x := (workers (assign i)).parseRecords collects task
    x.1 :: runTasks collects assign (Function.update workers (assign i) x.2) (i + 1) tasks

/-! ## What a task leaves behind -/

def applyAtomic (modes : ℕ → Bool) (r : KernelRecord) : ℕ → Bool :=
  match r.payload with
  | .setAtomic mode =>
    match getAtomicFlag mode with
    | some enabled => Function.update modes r.location.blockId enabled
    | none => modes
  | _ => modes

def kernelRecords (records : List SanitizerRecord) : List KernelRecord :=
  records.filterMap fun record =>
    match record with
    | .kernel r => some r
    | .memory => none

/-- The event is a `HSET_FLAG` that waits to be replaced: its set was a flag already, or the mark
was lost when the list moved. -/
def waitsToBeReplaced (e : SanEvent) : Bool :=
  match e.info with
  | .hSync h => decide (h.opType = .hsetFlag) && !h.isReplaced
  | _ => false

/-- The task ends with `BLOCK_FINISH` or `KERNEL_FINISH`. -/
def ParseTask.Ends (task : ParseTask) : Prop :=
  ∃ before r, task.records = before ++ [.kernel r] ∧ r.isFinish = true

def UsedBy (tasks : List ParseTask) (block : ℕ) : Prop :=
  ∃ task ∈ tasks, ∃ r, SanitizerRecord.kernel r ∈ task.records ∧ r.location.blockId = block

/-- A task leaves nothing to later ones: of the blocks that they use it turns off the atomic mode
where it turned it on, and if it ends with `KERNEL_FINISH` no `HSET_FLAG` waits to be replaced in
the list that this record is parsed into. -/
structure ParseTask.LeavesNothing (task : ParseTask) (later : List ParseTask) : Prop where
  atomic : ∀ block, UsedBy later block →
    (kernelRecords task.records).foldl applyAtomic (fun _ => false) block = false
  hset : later ≠ [] → ∀ before r, task.records = before ++ [.kernel r] →
    r.payload = .kernelFinish → ∀ x, Worker.rounds (task.start, {}) before = x →
      ∀ e ∈ (parseBatch x.1 [] x.2.parser x.2.pre.recordBuffer).1, waitsToBeReplaced e = false

/-! ## Atomic modes -/

lemma applyAtomic_of_isFinish {r : KernelRecord} (hr : r.isFinish = true) (modes : ℕ → Bool) :
    applyAtomic modes r = modes := by
  unfold KernelRecord.isFinish at hr
  unfold applyAtomic
  cases hp : r.payload <;> simp [hp] at hr ⊢

/-- The mode of a block after a record depends on that before it. -/
lemma applyAtomic_congr {modes modes' : ℕ → Bool} (r : KernelRecord) {block : ℕ}
    (h : modes block = modes' block) : applyAtomic modes r block = applyAtomic modes' r block := by
  unfold applyAtomic
  cases r.payload with
  | setAtomic mode =>
    dsimp only
    cases getAtomicFlag mode with
    | none => exact h
    | some enabled =>
      dsimp only
      rw [Function.update_apply, Function.update_apply, h]
  | _ => exact h

lemma parseFunc_atomic (ctx : Context) (r : KernelRecord) (st : ParseState) :
    (parseFunc ctx r st).2.mapAtomicMode = applyAtomic st.mapAtomicMode r := by
  unfold parseFunc applyAtomic
  cases hp : r.payload with
  | setAtomic mode => cases mode <;> rfl
  | dynamicOp event => cases event <;> rfl
  | _ => rfl

lemma updateSyncInPipe_atomic (ctx : Context) (r : KernelRecord) (events : List SanEvent)
    (st : ParseState) : (updateSyncInPipe ctx r events st).2.mapAtomicMode = st.mapAtomicMode := by
  obtain ⟨_, _, _, _, h⟩ := updateSyncInPipe_frame ctx r events st
  rw [h]

lemma start_atomic (st : ParseState) (r : KernelRecord) :
    (st.start r).mapAtomicMode = st.mapAtomicMode := by
  unfold ParseState.start
  split_ifs <;> rfl

lemma parse_atomic (ctx : Context) (r : KernelRecord) (E : List SanEvent) (st : ParseState) :
    (parse ctx r E st).2.mapAtomicMode = applyAtomic st.mapAtomicMode r := by
  cases hm : r.makes with
  | true =>
    rw [parse_of_makes hm st E rfl rfl]
    dsimp only
    rw [updateSyncInPipe_atomic]
    exact (parseFunc_atomic ctx r _).trans (by rw [start_atomic])
  | false => rw [parse_of_not_makes ctx hm, parseFunc_atomic, start_atomic]

lemma parseBatch_atomic (ctx : Context) (E : List SanEvent) (st : ParseState)
    (rs : List KernelRecord) :
    (parseBatch ctx E st rs).2.mapAtomicMode = rs.foldl applyAtomic st.mapAtomicMode := by
  induction rs generalizing E st with
  | nil => rfl
  | cons r rs ih => rw [parseBatch_cons, ih, parse_atomic, List.foldl_cons]

/-! ## Other atomic modes -/

def ParseState.withModes (st : ParseState) (modes : ℕ → Bool) : ParseState :=
  { st with mapAtomicMode := modes }

section Modes

variable {ctx : Context} {st : ParseState} {r : KernelRecord} {modes : ℕ → Bool}

lemma parseFunc_modes (ctx : Context)
    (h : modes r.location.blockId = st.mapAtomicMode r.location.blockId) :
    parseFunc ctx r (st.withModes modes) =
      ((parseFunc ctx r st).1, (parseFunc ctx r st).2.withModes (applyAtomic modes r)) := by
  have hnew : newEvent ctx (st.withModes modes) r = newEvent ctx st r := by
    funext body
    unfold newEvent ParseState.withModes
    dsimp only
    rw [h]
  unfold parseFunc applyAtomic
  rw [hnew]
  cases hp : r.payload with
  | setAtomic mode => cases mode <;> rfl
  | dynamicOp event => cases event <;> rfl
  | _ => rfl

lemma updateSyncInPipe_modes (ctx : Context) (st : ParseState) (events : List SanEvent)
    (h : modes r.location.blockId = st.mapAtomicMode r.location.blockId) :
    updateSyncInPipe ctx r events (st.withModes modes) =
      ((updateSyncInPipe ctx r events st).1, (updateSyncInPipe ctx r events st).2.withModes modes)
      := by
  have hwait (a b : PipeType) (n : ℕ) :
      (st.withModes modes).waitRing a b n = (st.waitRing a b n).withModes modes := by
    unfold ParseState.waitRing ParseState.withModes
    dsimp only
    cases st.edgeStartPoints a b n <;> rfl
  have hnew (a b : PipeType) (n : ℕ) : newEvent ctx ((st.waitRing a b n).withModes modes) r =
      newEvent ctx (st.waitRing a b n) r := by
    funext body
    have hmode : (st.waitRing a b n).mapAtomicMode = st.mapAtomicMode := by
      unfold ParseState.waitRing
      dsimp only
      cases st.edgeStartPoints a b n <;> rfl
    unfold newEvent ParseState.withModes
    dsimp only
    rw [h, hmode]
  unfold updateSyncInPipe
  split_ifs
  · rfl
  · cases events.getLast? with
    | none => rfl
    | some event =>
      cases hinfo : event.info with
      | sync info =>
        dsimp only
        rw [hinfo]
        dsimp only
        cases info.opType with
        | waitFlag =>
          dsimp only
          rw [hwait, hnew]
          split_ifs <;> rfl
        | _ => rfl
      | mem op =>
        dsimp only
        rw [hinfo]
        rfl
      | _ =>
        dsimp only
        rw [hinfo]

lemma start_modes (st : ParseState) (r : KernelRecord) (modes : ℕ → Bool) :
    (st.withModes modes).start r = (st.start r).withModes modes := by
  unfold ParseState.start
  split_ifs <;> rfl

lemma parse_modes (ctx : Context) (E : List SanEvent)
    (h : modes r.location.blockId = st.mapAtomicMode r.location.blockId) :
    parse ctx r E (st.withModes modes) =
      ((parse ctx r E st).1, (parse ctx r E st).2.withModes (applyAtomic modes r)) := by
  have hfunc : parseFunc ctx r ((st.withModes modes).start r) =
      ((parseFunc ctx r (st.start r)).1,
        (parseFunc ctx r (st.start r)).2.withModes (applyAtomic modes r)) := by
    rw [start_modes, parseFunc_modes ctx (by rw [h, start_atomic])]
  have hmode : applyAtomic modes r r.location.blockId =
      (parseFunc ctx r (st.start r)).2.mapAtomicMode r.location.blockId := by
    rw [parseFunc_atomic, start_atomic]
    exact applyAtomic_congr r h
  cases hm : r.makes with
  | false => rw [parse_of_not_makes ctx hm, parse_of_not_makes ctx hm, hfunc]
  | true =>
    generalize hlow : processHsetWaitSync ctx.room
      ((E ++ (parseFunc ctx r (st.start r)).1).map (setRecordType r.recordType))
      (st.start r).hsetSyncMap = low
    have hup := updateSyncInPipe_modes ctx
      { (parseFunc ctx r (st.start r)).2 with hsetSyncMap := low.2 } low.1 hmode
    have hlow' : low = processHsetWaitSync ctx.room
        ((E ++ (parseFunc ctx r ((st.withModes modes).start r)).1).map (setRecordType r.recordType))
        ((st.withModes modes).start r).hsetSyncMap := by
      rw [hfunc, start_modes]
      exact hlow.symm
    have hup' : ((updateSyncInPipe ctx r low.1
          { (parseFunc ctx r (st.start r)).2 with hsetSyncMap := low.2 }).1,
        (updateSyncInPipe ctx r low.1
          { (parseFunc ctx r (st.start r)).2 with hsetSyncMap := low.2 }).2.withModes
            (applyAtomic modes r)) =
        updateSyncInPipe ctx r low.1
          { (parseFunc ctx r ((st.withModes modes).start r)).2 with hsetSyncMap := low.2 } := by
      rw [hfunc]
      exact hup.symm
    rw [parse_of_makes hm (st.withModes modes) E hlow' hup', parse_of_makes hm st E hlow.symm rfl]
    rfl

/-- A batch reads the modes of the blocks of its records. -/
lemma parseBatch_modes {B : ℕ → Prop} (ctx : Context) (E : List SanEvent)
    (rs : List KernelRecord) (hB : ∀ r ∈ rs, B r.location.blockId)
    (h : ∀ block, B block → modes block = st.mapAtomicMode block) :
    parseBatch ctx E (st.withModes modes) rs =
      ((parseBatch ctx E st rs).1,
        (parseBatch ctx E st rs).2.withModes (rs.foldl applyAtomic modes)) := by
  induction rs generalizing E st modes with
  | nil => rfl
  | cons r rs ih =>
    rw [parseBatch_cons, parseBatch_cons, parse_modes ctx E (h _ (hB r List.mem_cons_self))]
    refine ih _ (fun x hx => hB x (List.mem_cons_of_mem _ hx)) fun block hblock => ?_
    rw [parse_atomic]
    exact applyAtomic_congr r (h block hblock)

lemma foldl_applyAtomic_congr {modes' : ℕ → Bool} (rs : List KernelRecord) {block : ℕ}
    (h : modes block = modes' block) :
    rs.foldl applyAtomic modes block = rs.foldl applyAtomic modes' block := by
  induction rs generalizing modes modes' with
  | nil => exact h
  | cons r rs ih => exact ih (applyAtomic_congr r h)

end Modes

namespace RecordPreProcess

variable {p q : RecordPreProcess} {r : KernelRecord}

lemma applyAtomic_of_wait {record : MstxCrossRecord} (h : mstxWaitRecord r = some record)
    (modes : ℕ → Bool) : applyAtomic modes r = modes := by
  unfold mstxWaitRecord at h
  unfold applyAtomic
  cases hp : r.payload <;> simp [hp] at h ⊢

lemma applyAtomic_of_drops (h : p.drops r = true) (modes : ℕ → Bool) :
    applyAtomic modes r = modes := by
  unfold drops at h
  simp only [Bool.and_eq_true, Bool.not_eq_true'] at h
  unfold applyAtomic
  cases hp : r.payload with
  | setAtomic mode =>
    have hreal : isRealSyncType r.recordType = true := by
      unfold KernelRecord.recordType
      rw [hp]
      rfl
    rw [h.1.1.2] at hreal
    cases hreal
  | _ => rfl

lemma next_atomic (p : RecordPreProcess) (r : KernelRecord) (modes : ℕ → Bool) :
    (p.next r).2.recordBuffer.foldl applyAtomic ((p.next r).1.foldl applyAtomic modes) =
      applyAtomic (p.recordBuffer.foldl applyAtomic modes) r := by
  have hproc (q : RecordPreProcess) :
      (q.processMstxCrossWaitRecord r).recordBuffer.foldl applyAtomic modes =
        applyAtomic (q.recordBuffer.foldl applyAtomic modes) r := by
    unfold processMstxCrossWaitRecord
    split
    · rename_i record hwait
      unfold mergeWait
      dsimp only
      split_ifs
      · rw [applyAtomic_of_wait hwait]
      · rw [List.foldl_append]
        rfl
    · rw [List.foldl_append]
      rfl
  by_cases hdrop : (p.updateMergeInfo r).drops r = true
  · rw [next_of_drops hdrop, applyAtomic_of_drops hdrop]
    rfl
  · obtain ⟨q, hbuf, hnext⟩ := next_of_not_drops hdrop
    rw [hnext, ← hbuf, ← hproc q]
    split_ifs <;> rfl

/-! ## Threads between tasks -/

/-- Two states that no further record tells apart: of a wait that was not met yet nothing is
read. -/
structure Same (p q : RecordPreProcess) : Prop where
  buffer : p.recordBuffer = q.recordBuffer
  mergeTag : p.mstxMergeTag = q.mstxMergeTag
  firstStub : p.isFirstSyncAllStub = q.isFirstSyncAllStub
  throughFirst : p.waitMergeInfo.throughFirstWait = q.waitMergeInfo.throughFirstWait
  throughSecond : p.waitMergeInfo.throughSecondWait = q.waitMergeInfo.throughSecondWait
  first : p.waitMergeInfo.throughFirstWait = true →
    p.waitMergeInfo.firstPreRecord = q.waitMergeInfo.firstPreRecord
  second : p.waitMergeInfo.throughSecondWait = true →
    p.waitMergeInfo.secondPreRecord = q.waitMergeInfo.secondPreRecord

lemma Same.updateMergeInfo (h : Same p q) (r : KernelRecord) :
    Same (p.updateMergeInfo r) (q.updateMergeInfo r) := by
  unfold RecordPreProcess.updateMergeInfo
  exact ⟨h.buffer, by rw [h.mergeTag], by rw [h.firstStub], h.throughFirst, h.throughSecond,
    h.first, h.second⟩

lemma Same.drops (h : Same p q) (r : KernelRecord) : p.drops r = q.drops r := by
  unfold RecordPreProcess.drops
  rw [h.mergeTag, h.firstStub]

lemma Same.processMstxCrossWaitRecord (h : Same p q) (r : KernelRecord) :
    Same (p.processMstxCrossWaitRecord r) (q.processMstxCrossWaitRecord r) ∧
      (p.processMstxCrossWaitRecord r).waitMergeInfo.endTag =
        (q.processMstxCrossWaitRecord r).waitMergeInfo.endTag := by
  obtain ⟨pb, ⟨p1, p2, pt1, pt2, pe⟩, pm, pf⟩ := p
  obtain ⟨qb, ⟨q1, q2, qt1, qt2, qe⟩, qm, qf⟩ := q
  obtain ⟨rfl, rfl, rfl, rfl, rfl, h1, h2⟩ := h
  dsimp only at h1 h2
  unfold RecordPreProcess.processMstxCrossWaitRecord
  cases mstxWaitRecord r with
  | some record =>
    unfold mergeWait
    dsimp only
    cases pt1 <;> cases pt2 <;> simp_all [Same.mk]
  | none =>
    dsimp only
    split_ifs
    · exact ⟨⟨rfl, rfl, rfl, rfl, rfl, fun h => (by cases h), fun h => (by cases h)⟩, rfl⟩
    · exact ⟨⟨rfl, rfl, rfl, rfl, rfl, h1, h2⟩, rfl⟩

/-- `Process` tells two such states not apart and leaves two such states. -/
lemma Same.next (h : Same p q) (r : KernelRecord) :
    (p.next r).1 = (q.next r).1 ∧ Same (p.next r).2 (q.next r).2 := by
  have hu := h.updateMergeInfo r
  unfold RecordPreProcess.next
  dsimp only
  rw [hu.drops r]
  by_cases hdrop : (q.updateMergeInfo r).drops r = true
  · rw [if_pos hdrop, if_pos hdrop]
    exact ⟨rfl, hu⟩
  · rw [if_neg hdrop, if_neg hdrop]
    have hreset : Same
        (if r.isFinish = true then
          { p.updateMergeInfo r with mstxMergeTag := false, isFirstSyncAllStub := false }
          else p.updateMergeInfo r)
        (if r.isFinish = true then
          { q.updateMergeInfo r with mstxMergeTag := false, isFirstSyncAllStub := false }
          else q.updateMergeInfo r) := by
      split_ifs
      · exact ⟨hu.buffer, rfl, rfl, hu.throughFirst, hu.throughSecond, hu.first, hu.second⟩
      · exact hu
    generalize (if r.isFinish = true then
      { p.updateMergeInfo r with mstxMergeTag := false, isFirstSyncAllStub := false }
      else p.updateMergeInfo r) = p' at hreset
    generalize (if r.isFinish = true then
      { q.updateMergeInfo r with mstxMergeTag := false, isFirstSyncAllStub := false }
      else q.updateMergeInfo r) = q' at hreset
    obtain ⟨hsame, hend⟩ := hreset.processMstxCrossWaitRecord r
    rw [hend]
    split_ifs
    · exact ⟨hsame.buffer, rfl, hsame.mergeTag, hsame.firstStub, hsame.throughFirst,
        hsame.throughSecond, hsame.first, hsame.second⟩
    · exact ⟨rfl, hsame⟩

/-- A finish is parsed with all records before it, and leaves the state that a thread begins
with. -/
lemma next_finish (p : RecordPreProcess) (hr : r.isFinish = true) :
    (p.next r).1 = p.recordBuffer ++ [r] ∧ Same (p.next r).2 {} := by
  unfold next
  dsimp only
  rw [drops_of_isFinish _ hr, if_neg (by simp), if_pos hr]
  unfold processMstxCrossWaitRecord
  rw [mstxWaitRecord_of_isFinish hr]
  dsimp only
  rw [if_pos hr]
  exact ⟨rfl, rfl, rfl, rfl, rfl, rfl, fun h => (by cases h), fun h => (by cases h)⟩

end RecordPreProcess

/-! ## Sets that come back -/

section Replace

variable {ctx : Context} {st : ParseState} {r : KernelRecord} {e : SanEvent} {E : List SanEvent}

/-- No set comes back from an event that does not wait to be replaced. -/
lemma hsetWaitEvent_nil (last : SanEvent) (h : waitsToBeReplaced e = false) :
    (hsetWaitEvent last [] e).2 = (none, []) := by
  unfold hsetWaitEvent
  cases hinfo : e.info with
  | hSync info =>
    unfold waitsToBeReplaced at h
    rw [hinfo] at h
    dsimp only at h ⊢
    rw [if_neg (by rintro ⟨hop, hrep⟩; simp [hop, hrep] at h)]
    split_ifs with _ htrans
    · cases htrans
    · rfl
    · rfl
  | _ => rfl

lemma processHsetWaitSync_nil_map {room : ℕ} (h : ∀ e ∈ E, waitsToBeReplaced e = false) :
    (processHsetWaitSync room E []).2 = [] := by
  have hloop (v : Storage) (last : SanEvent) : (hsetWaitLoop v last [] E).2 = ([], []) := by
    induction E generalizing v last with
    | nil => rfl
    | cons e E ih =>
      have he := hsetWaitEvent_nil last (h e List.mem_cons_self)
      rw [hsetWaitLoop]
      dsimp only
      rw [he, ih fun x hx => h x (List.mem_cons_of_mem _ hx)]
      rfl
  unfold processHsetWaitSync
  dsimp only
  rw [hloop]
  rfl

/-- A finish resets the parser but for the atomic modes, if no set behind it waits to be
replaced. -/
lemma parse_finish (hr : r.isFinish = true)
    (hE : r.payload = .kernelFinish → ∀ e ∈ E, waitsToBeReplaced e = false) :
    (parse ctx r E st).2 = st.resetAll := by
  have hstart : st.start r = st.resetAll := if_pos hr
  cases hp : r.payload with
  | blockFinish =>
    have hm : r.makes = false := by
      unfold KernelRecord.makes
      rw [hp]
      rfl
    rw [parse_of_not_makes ctx hm, hstart]
    unfold parseFunc
    rw [hp]
  | kernelFinish =>
    have hm : r.makes = true := by
      unfold KernelRecord.makes
      rw [hp]
    have hmap : (processHsetWaitSync ctx.room ((E ++ (parseFunc ctx r (st.start r)).1).map
        (setRecordType r.recordType)) (st.start r).hsetSyncMap).2 = [] := by
      rw [hstart]
      apply processHsetWaitSync_nil_map
      intro e he
      obtain ⟨x, hx, rfl⟩ := List.mem_map.1 he
      rcases List.mem_append.1 hx with hx | hx
      · exact hE hp x hx
      · unfold parseFunc at hx
        rw [hp] at hx
        rw [List.mem_singleton.1 hx]
        rfl
    rw [parse_of_makes hm st E rfl rfl]
    dsimp only
    rw [hmap, hstart]
    unfold updateSyncInPipe
    rw [if_pos hr]
    unfold parseFunc
    rw [hp]
    rfl
  | _ =>
    unfold KernelRecord.isFinish at hr
    rw [hp] at hr
    cases hr

lemma parseBatch_concat (ctx : Context) (E : List SanEvent) (st : ParseState)
    (rs : List KernelRecord) (r : KernelRecord) :
    parseBatch ctx E st (rs ++ [r]) =
      parse ctx r (parseBatch ctx E st rs).1 (parseBatch ctx E st rs).2 := by
  unfold parseBatch
  rw [List.foldl_append]
  rfl

end Replace

/-! ## Tasks -/

namespace Worker

variable {collects : SanEvent → Bool} {ctx : Context} {w w' : Worker} {B : ℕ → Prop}

/-- Two threads that no further record of these blocks tells apart. -/
structure Same (B : ℕ → Prop) (w w' : Worker) : Prop where
  pre : w.pre.Same w'.pre
  buffered : ∀ r ∈ w.pre.recordBuffer, B r.location.blockId
  parser : ∃ modes, w'.parser = w.parser.withModes modes
  modes : ∀ block, B block → w'.parser.mapAtomicMode block = w.parser.mapAtomicMode block

lemma same_rfl : Same B {} {} where
  pre := ⟨rfl, rfl, rfl, rfl, rfl, fun _ => rfl, fun _ => rfl⟩
  buffered := fun _ h => (by cases h)
  parser := ⟨_, rfl⟩
  modes := fun _ _ => rfl

lemma Same.trans {w'' : Worker} (h : Same B w w') (h' : Same B w' w'') : Same B w w'' where
  pre :=
    { buffer := h.pre.buffer.trans h'.pre.buffer
      mergeTag := h.pre.mergeTag.trans h'.pre.mergeTag
      firstStub := h.pre.firstStub.trans h'.pre.firstStub
      throughFirst := h.pre.throughFirst.trans h'.pre.throughFirst
      throughSecond := h.pre.throughSecond.trans h'.pre.throughSecond
      first := fun hf => (h.pre.first hf).trans (h'.pre.first (h.pre.throughFirst ▸ hf))
      second := fun hs => (h.pre.second hs).trans (h'.pre.second (h.pre.throughSecond ▸ hs)) }
  buffered := h.buffered
  parser := by
    obtain ⟨modes, hw'⟩ := h.parser
    obtain ⟨modes', hw''⟩ := h'.parser
    exact ⟨modes', by rw [hw'', hw']; rfl⟩
  modes := fun block hblock => (h'.modes block hblock).trans (h.modes block hblock)

/-- Fewer blocks can follow on a thread that holds no record back. -/
lemma Same.mono {B' : ℕ → Prop} (h : Same B w w') (hB : ∀ block, B' block → B block)
    (hbuf : w.pre.recordBuffer = []) : Same B' w w' where
  pre := h.pre
  buffered := by
    rw [hbuf]
    exact fun _ h => (by cases h)
  parser := h.parser
  modes := fun block hblock => h.modes block (hB block hblock)

/-- The records that are parsed at a call, and those that are kept, are old ones or the new
one. -/
lemma mem_next {r x : KernelRecord} (p : RecordPreProcess)
    (hx : x ∈ (p.next r).1 ∨ x ∈ (p.next r).2.recordBuffer) : x ∈ p.recordBuffer ∨ x = r := by
  rcases p.next_cases r with ⟨hnil, -, hbuf | hbuf⟩ | ⟨hnil, hfl | hfl⟩
  all_goals simp_all

lemma Same.process (ctx : Context) (h : Same B w w') {record : SanitizerRecord}
    (hB : ∀ r, record = .kernel r → B r.location.blockId) :
    (w.process ctx record).1 = (w'.process ctx record).1 ∧
      Same B (w.process ctx record).2 (w'.process ctx record).2 := by
  cases record with
  | memory => exact ⟨rfl, h⟩
  | kernel r =>
    obtain ⟨hflush, hpre⟩ := h.pre.next r
    obtain ⟨modes, hparser⟩ := h.parser
    have hblock {x : KernelRecord} (hx : x ∈ w.pre.recordBuffer ∨ x = r) :
        B x.location.blockId := by
      rcases hx with hx | rfl
      · exact h.buffered x hx
      · exact hB x rfl
    have hmodes : ∀ block, B block → modes block = w.parser.mapAtomicMode block := by
      intro block hblock
      rw [← h.modes block hblock, hparser]
      rfl
    have hbatch := parseBatch_modes ctx [] (w.flushed (.kernel r))
      (fun x hx => hblock (mem_next w.pre (.inl hx))) hmodes
    have hbatch' : parseBatch ctx [] w'.parser (w'.flushed (.kernel r)) =
        parseBatch ctx [] (w.parser.withModes modes) (w.flushed (.kernel r)) := by
      unfold flushed
      dsimp only
      rw [hparser, hflush]
    rw [hbatch] at hbatch'
    unfold Worker.process
    dsimp only
    rw [hbatch']
    refine ⟨rfl, hpre, fun x hx => hblock (mem_next w.pre (.inr hx)), ⟨_, rfl⟩, ?_⟩
    intro block hB
    change (w.flushed (.kernel r)).foldl applyAtomic modes block = _
    rw [parseBatch_atomic]
    exact foldl_applyAtomic_congr _ (hmodes block hB)

lemma Same.round {x x' : Context × Worker} (hctx : x.1 = x'.1) (h : Same B x.2 x'.2)
    (record : SanitizerRecord) (hB : ∀ r, record = .kernel r → B r.location.blockId) :
    (Worker.round x record).1 = (Worker.round x' record).1 ∧
      (Worker.round x record).2.1 = (Worker.round x' record).2.1 ∧
      Same B (Worker.round x record).2.2 (Worker.round x' record).2.2 := by
  obtain ⟨hout, hsame⟩ := h.process x.1 hB
  unfold Worker.round
  dsimp only
  rw [← hctx, hout]
  exact ⟨rfl, rfl, hsame⟩

lemma Same.parseEach (collects : SanEvent → Bool) {x x' : Context × Worker} (hctx : x.1 = x'.1)
    (h : Same B x.2 x'.2) (records : List SanitizerRecord)
    (hB : ∀ r, SanitizerRecord.kernel r ∈ records → B r.location.blockId) :
    (Worker.parseEach collects x records).1 = (Worker.parseEach collects x' records).1 ∧
      Same B (Worker.parseEach collects x records).2 (Worker.parseEach collects x' records).2 := by
  induction records generalizing x x' with
  | nil => exact ⟨rfl, h⟩
  | cons record records ih =>
    obtain ⟨hout, hctx, hsame⟩ := h.round hctx record fun r hr => hB r (by simp [hr])
    obtain ⟨houts, hend⟩ := ih hctx hsame fun r hr => hB r (List.mem_cons_of_mem _ hr)
    unfold Worker.parseEach
    dsimp only
    rw [hout, houts]
    exact ⟨rfl, hend⟩

lemma parseEach_snd (collects : SanEvent → Bool) (x : Context × Worker)
    (records : List SanitizerRecord) : (parseEach collects x records).2 = (rounds x records).2 := by
  induction records generalizing x with
  | nil => rfl
  | cons record records ih => exact ih _

lemma rounds_concat (x : Context × Worker) (records : List SanitizerRecord)
    (record : SanitizerRecord) :
    rounds x (records ++ [record]) = (round (rounds x records) record).2 := by
  unfold rounds
  rw [List.foldl_append]
  rfl

/-- The modes after the records that are parsed and those that are still buffered. -/
lemma rounds_atomic (x : Context × Worker) (records : List SanitizerRecord) :
    (rounds x records).2.pre.recordBuffer.foldl applyAtomic
        (rounds x records).2.parser.mapAtomicMode =
      (kernelRecords records).foldl applyAtomic
        (x.2.pre.recordBuffer.foldl applyAtomic x.2.parser.mapAtomicMode) := by
  induction records generalizing x with
  | nil => rfl
  | cons record records ih =>
    have hcons : rounds x (record :: records) = rounds (round x record).2 records := rfl
    rw [hcons, ih]
    cases record with
    | memory => rfl
    | kernel r =>
      have hnext := RecordPreProcess.next_atomic x.2.pre r x.2.parser.mapAtomicMode
      unfold round process flushed
      dsimp only
      rw [parseBatch_atomic, hnext]
      rfl

/-- A thread that parsed a task that leaves nothing behind is as at its start. -/
lemma same_after_task {task : ParseTask} {later : List ParseTask} (hlater : later ≠ [])
    (hends : task.Ends) (h : task.LeavesNothing later) :
    Same (UsedBy later) (rounds (task.start, {}) task.records).2 {} := by
  obtain ⟨before, r, hrecords, hr⟩ := hends
  have hatomic := rounds_atomic (task.start, {}) before
  have hset := h.hset hlater before r hrecords
  have hmodes := h.atomic
  rw [hrecords] at hmodes ⊢
  rw [rounds_concat]
  generalize hx : rounds (task.start, {}) before = x at hatomic hset ⊢
  obtain ⟨hflush, hpre⟩ := x.2.pre.next_finish hr
  have hparser : (x.2.process x.1 (.kernel r)).2.parser =
      ({} : ParseState).withModes ((kernelRecords before).foldl applyAtomic fun _ => false) := by
    have hlast := parseBatch_atomic x.1 [] x.2.parser x.2.pre.recordBuffer
    rw [hatomic] at hlast
    unfold process flushed
    dsimp only
    rw [hflush, parseBatch_concat, parse_finish hr fun hk => hset hk x rfl]
    unfold ParseState.resetAll ParseState.resetSyncInPipeInfo
    rw [hlast]
    rfl
  refine ⟨hpre, ?_, ?_, ?_⟩
  · rw [show (round x (.kernel r)).2.2.pre.recordBuffer = [] from hpre.buffer]
    exact fun _ h => (by cases h)
  · exact ⟨fun _ => false, by
      change {} = (x.2.process x.1 (.kernel r)).2.parser.withModes _
      rw [hparser]
      rfl⟩
  · intro block hblock
    change false = (x.2.process x.1 (.kernel r)).2.parser.mapAtomicMode block
    rw [hparser]
    have := hmodes block hblock
    unfold kernelRecords at this ⊢
    rw [List.filterMap_append, List.foldl_append] at this
    exact (congrFun (applyAtomic_of_isFinish hr _) block).symm.trans this |>.symm

end Worker

def LeaveNothing : List ParseTask → Prop
  | [] => True
  | task :: later => task.LeavesNothing later ∧ LeaveNothing later

/-- What the threads return as long as all are as at their start: what a new thread does. -/
lemma runTasks_of_same {collects : SanEvent → Bool} {tasks : List ParseTask}
    (hends : ∀ task ∈ tasks, task.Ends) (h : LeaveNothing tasks)
    (assign : ℕ → ℕ) {workers : ℕ → Worker} (hw : ∀ k, (workers k).Same (UsedBy tasks) {})
    (i : ℕ) : runTasks collects assign workers i tasks =
      tasks.map fun task => (Worker.parseRecords collects {} task).1 := by
  induction tasks generalizing workers i with
  | nil => rfl
  | cons task later ih =>
    have hctx : (task.start, workers (assign i)).1 = ((task.start, {}) : Context × Worker).1 := rfl
    obtain ⟨hout, hsame⟩ := Worker.Same.parseEach collects hctx (hw (assign i)) task.records
      fun r hr => ⟨task, List.mem_cons_self, r, hr, rfl⟩
    rw [List.map_cons]
    unfold runTasks Worker.parseRecords
    dsimp only
    rw [hout]
    refine congrArg _ ?_
    cases later with
    | nil => rfl
    | cons next later =>
      refine ih (fun x hx => hends x (List.mem_cons_of_mem _ hx)) h.2 (fun k => ?_) _
      have hused : ∀ block, UsedBy (next :: later) block →
          UsedBy (task :: next :: later) block := by
        rintro block ⟨x, hx, r, hr, hblock⟩
        exact ⟨x, List.mem_cons_of_mem _ hx, r, hr, hblock⟩
      by_cases hk : k = assign i
      · subst hk
        have hend := Worker.same_after_task (by simp) (hends task List.mem_cons_self) h.1
        rw [Worker.parseEach_snd, Worker.parseEach_snd] at hsame
        rw [Function.update_self, Worker.parseEach_snd]
        exact (hsame.mono hused (hsame.pre.buffer.trans hend.pre.buffer)).trans hend
      · rw [Function.update_of_ne hk]
        exact (hw k).mono hused (hw k).pre.buffer

/-- **Tasks that leave nothing behind are parsed alike by all threads**, whichever thread gets
which of them. -/
theorem runTasks_eq {collects : SanEvent → Bool} {tasks : List ParseTask}
    (hends : ∀ task ∈ tasks, task.Ends) (h : LeaveNothing tasks) (assign₁ assign₂ : ℕ → ℕ) :
    runTasks collects assign₁ (fun _ => {}) 0 tasks =
      runTasks collects assign₂ (fun _ => {}) 0 tasks := by
  have hsame : ∀ k : ℕ, ((fun _ => {}) k : Worker).Same (UsedBy tasks) {} :=
    fun _ => Worker.same_rfl
  rw [runTasks_of_same hends h assign₁ hsame, runTasks_of_same hends h assign₂ hsame]

def flagTask : ParseTask where
  records := [.kernel { payload := .setFlag .plain { src := .mte2, dst := .v } },
    .kernel { payload := .blockFinish }]

/-- A task of block 0 with these changes of the atomic mode. -/
def atomicTask (modes : List AtomicMode) : ParseTask where
  records := modes.map (fun mode => .kernel { payload := .setAtomic mode }) ++
    [.kernel { payload := .blockFinish }]

/-- A task that turns the atomic mode on and off again, and a later one of the same block. -/
theorem runTasks_atomic_off :
    runTasks (fun _ => true) (fun _ => 0) (fun _ => {}) 0 [atomicTask [.f32, .none], flagTask] =
      runTasks (fun _ => true) id (fun _ => {}) 0 [atomicTask [.f32, .none], flagTask] := by
  have hnot (records : List SanitizerRecord) (before : List SanitizerRecord) (r : KernelRecord)
      (hrec : records ++ [SanitizerRecord.kernel { payload := .blockFinish }] =
        before ++ [.kernel r]) : r.payload ≠ .kernelFinish := by
    have := (List.append_inj' hrec rfl).2
    cases this
    simp
  have hleave : LeaveNothing [atomicTask [.f32, .none], flagTask] := by
    refine ⟨⟨fun block _ => ?_, fun _ before r hrec hk => absurd hk (hnot _ before r hrec)⟩,
      ⟨fun block _ => rfl, fun hc => absurd rfl hc⟩, trivial⟩
    simp [atomicTask, kernelRecords, applyAtomic, getAtomicFlag]
  refine runTasks_eq (fun task ht => ?_) hleave _ _
  simp only [List.mem_cons, List.not_mem_nil, or_false] at ht
  rcases ht with rfl | rfl
  · exact ⟨_, _, rfl, rfl⟩
  · exact ⟨[_], _, rfl, rfl⟩

/-- A task that leaves the atomic mode of its block on: a later task of the block comes out
differently from the same thread and from another one. -/
theorem atomic_mode_stays :
    runTasks (fun _ => true) (fun _ => 0) (fun _ => {}) 0 [atomicTask [.f32], flagTask] ≠
      runTasks (fun _ => true) id (fun _ => {}) 0 [atomicTask [.f32], flagTask] := by
  intro h
  have := congrArg (List.map fun task => task.flatten.map SanEvent.isAtomicMode) h
  revert this
  decide +kernel

end MsSanitizer.RecordParse
