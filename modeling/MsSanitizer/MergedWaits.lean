import MsSanitizer.ParseTasks

/-!
# Waits that are merged

`Process` holds records back while it is open whether the next waits repeat the two last ones. In
the end nothing is lost by this: the records of a block that are parsed are those that the merge
tag leaves, in their order, but for the waits that repeat one of the two waits before them.
-/

namespace MsSanitizer.RecordParse

open RecordDefs EventDef

/-- An `isMore` wait with its core, as the preprocessing compares it. -/
def waitInfo (r : KernelRecord) : Option MstxCrossWaitRecordInfo :=
  (mstxWaitRecord r).map fun record => { record, coreID := r.location.blockId }

/-- The two last `isMore` waits among some records, the last one first. -/
def lastWaits (before : List KernelRecord) : List MstxCrossWaitRecordInfo :=
  (before.filterMap waitInfo).reverse.take 2

/-- The record is an `isMore` wait that equals one of the two last ones. -/
def repeatsWait (before : List KernelRecord) (r : KernelRecord) : Bool :=
  match waitInfo r with
  | some cur => decide (cur ∈ lastWaits before)
  | none => false

/-- The records without the waits that are repeated. -/
def unrepeated (before : List KernelRecord) : List KernelRecord → List KernelRecord
  | [] => []
  | r :: rs =>
    if repeatsWait before r then unrepeated (before ++ [r]) rs
    else r :: unrepeated (before ++ [r]) rs

/-- The records that the merge tag leaves, from the tags of `p` on. -/
def unmerged (p : RecordPreProcess) : List KernelRecord → List KernelRecord
  | [] => []
  | r :: rs =>
    if (p.updateMergeInfo r).drops r then unmerged (p.updateMergeInfo r) rs
    else r :: unmerged (p.updateMergeInfo r) rs

/-- The records of a block: the last one is a finish, and no other. -/
def IsBlock (rs : List KernelRecord) : Prop :=
  ∃ body fin, rs = body ++ [fin] ∧ fin.isFinish = true ∧ ∀ r ∈ body, r.isFinish = false

namespace RecordPreProcess

/-- `Process` on some records: what is parsed, and the state afterwards. -/
def run (p : RecordPreProcess) : List KernelRecord → List KernelRecord × RecordPreProcess
  | [] => ([], p)
  | r :: rs => ((p.next r).1 ++ ((p.next r).2.run rs).1, ((p.next r).2.run rs).2)

def Remembers (info : MstxCrossWaitMergeInfo) : List MstxCrossWaitRecordInfo → Prop
  | [] => info.throughFirstWait = false ∧ info.throughSecondWait = false
  | [a] => info.throughFirstWait = true ∧ info.throughSecondWait = false ∧ info.firstPreRecord = a
  | b :: a :: _ => info.throughFirstWait = true ∧ info.throughSecondWait = true ∧
      info.firstPreRecord = a ∧ info.secondPreRecord = b

variable {p q : RecordPreProcess} {r : KernelRecord} {before : List KernelRecord}

lemma run_append (p : RecordPreProcess) (rs rs' : List KernelRecord) :
    p.run (rs ++ rs') =
      ((p.run rs).1 ++ ((p.run rs).2.run rs').1, ((p.run rs).2.run rs').2) := by
  induction rs generalizing p with
  | nil => rfl
  | cons r rs ih => simp only [List.cons_append, run, ih, List.append_assoc]

lemma lastWaits_concat (before : List KernelRecord) (r : KernelRecord) :
    lastWaits (before ++ [r]) = ((waitInfo r).toList ++ lastWaits before).take 2 := by
  unfold lastWaits
  rw [List.filterMap_append, List.filterMap_cons, List.filterMap_nil]
  cases waitInfo r with
  | none => simp [List.take_take]
  | some cur => simp [List.take_take]

lemma unmerged_congr (htag : p.mstxMergeTag = q.mstxMergeTag)
    (hstub : p.isFirstSyncAllStub = q.isFirstSyncAllStub) (rs : List KernelRecord) :
    unmerged p rs = unmerged q rs := by
  induction rs generalizing p q with
  | nil => rfl
  | cons r rs ih =>
    have hdrops : (p.updateMergeInfo r).drops r = (q.updateMergeInfo r).drops r := by
      unfold drops updateMergeInfo
      rw [htag, hstub]
    have hrest : unmerged (p.updateMergeInfo r) rs = unmerged (q.updateMergeInfo r) rs := by
      refine ih ?_ ?_ <;> unfold updateMergeInfo
      · rw [htag]
      · rw [hstub]
    rw [unmerged, unmerged, hdrops, hrest]

/-- A wait is kept exactly when it does not repeat one of the two last ones, and is stored. -/
lemma mergeWait_spec {l : List MstxCrossWaitRecordInfo} (h : Remembers p.waitMergeInfo l)
    (hl : l.length ≤ 2) (r : KernelRecord) (record : MstxCrossRecord) :
    let cur : MstxCrossWaitRecordInfo := { record, coreID := r.location.blockId }
    (p.mergeWait r record).recordBuffer =
        p.recordBuffer ++ (if cur ∈ l then [] else [r]) ∧
      Remembers (p.mergeWait r record).waitMergeInfo ((cur :: l).take 2) := by
  intro cur
  unfold mergeWait
  rcases l with _ | ⟨b, _ | ⟨a, _ | ⟨x, l⟩⟩⟩
  · obtain ⟨h₁, h₂⟩ := h
    simp [h₁, h₂, Remembers, cur]
  · obtain ⟨h₁, h₂, rfl⟩ := h
    by_cases hc : cur = p.waitMergeInfo.firstPreRecord
    · have hc' : p.waitMergeInfo.firstPreRecord = cur := hc.symm
      simp only [cur] at hc'
      simp [h₁, h₂, Remembers, cur, hc']
    · have hc' : p.waitMergeInfo.firstPreRecord ≠ cur := Ne.symm hc
      simp only [cur] at hc hc'
      simp [h₁, h₂, Remembers, cur, hc, hc']
  · obtain ⟨h₁, h₂, rfl, rfl⟩ := h
    have hiff : (p.waitMergeInfo.firstPreRecord = cur ∨ p.waitMergeInfo.secondPreRecord = cur) ↔
        (cur = p.waitMergeInfo.secondPreRecord ∨ cur = p.waitMergeInfo.firstPreRecord) := by
      rw [or_comm, eq_comm, eq_comm (a := p.waitMergeInfo.firstPreRecord)]
    by_cases hc : cur = p.waitMergeInfo.secondPreRecord ∨ cur = p.waitMergeInfo.firstPreRecord
    · have hc' := hiff.mpr hc
      simp only [cur] at hc hc'
      simp [h₁, h₂, Remembers, cur, hc, hc']
    · have hc' := not_or.mp fun h => hc (hiff.mp h)
      simp only [cur] at hc hc'
      simp [h₁, h₂, Remembers, cur, hc, hc']
  · exact absurd hl (by simp)

lemma length_lastWaits (before : List KernelRecord) : (lastWaits before).length ≤ 2 :=
  List.length_take_le _ _

/-- A record that is no finish is kept exactly when it does not repeat a wait. -/
lemma processMstxCrossWaitRecord_spec (hr : r.isFinish = false)
    (h : Remembers p.waitMergeInfo (lastWaits before)) :
    (p.processMstxCrossWaitRecord r).recordBuffer =
        p.recordBuffer ++ (if repeatsWait before r then [] else [r]) ∧
      Remembers (p.processMstxCrossWaitRecord r).waitMergeInfo (lastWaits (before ++ [r])) := by
  rw [lastWaits_concat]
  unfold processMstxCrossWaitRecord repeatsWait waitInfo
  cases mstxWaitRecord r with
  | none =>
    refine ⟨rfl, ?_⟩
    dsimp only
    rw [hr, if_neg (by simp), Option.map_none, Option.toList_none, List.nil_append,
      List.take_of_length_le (length_lastWaits before)]
    exact h
  | some record =>
    obtain ⟨hbuffer, hinfo⟩ := mergeWait_spec h (length_lastWaits before) r record
    refine ⟨?_, hinfo⟩
    dsimp only [Option.map_some]
    rw [hbuffer]
    simp only [decide_eq_true_eq]

lemma processMstxCrossWaitRecord_tags (p : RecordPreProcess) (r : KernelRecord) :
    (p.processMstxCrossWaitRecord r).mstxMergeTag = p.mstxMergeTag ∧
      (p.processMstxCrossWaitRecord r).isFirstSyncAllStub = p.isFirstSyncAllStub := by
  unfold processMstxCrossWaitRecord
  cases mstxWaitRecord r <;> exact ⟨rfl, rfl⟩

lemma next_body (hr : r.isFinish = false) (hdrop : (p.updateMergeInfo r).drops r = false)
    (h : Remembers p.waitMergeInfo (lastWaits before)) :
    (p.next r).1 ++ (p.next r).2.recordBuffer =
        p.recordBuffer ++ (if repeatsWait before r then [] else [r]) ∧
      Remembers (p.next r).2.waitMergeInfo (lastWaits (before ++ [r])) ∧
      (p.next r).2.mstxMergeTag = (p.updateMergeInfo r).mstxMergeTag ∧
      (p.next r).2.isFirstSyncAllStub = (p.updateMergeInfo r).isFirstSyncAllStub := by
  have hupdate : Remembers (p.updateMergeInfo r).waitMergeInfo (lastWaits before) := h
  obtain ⟨hbuffer, hinfo⟩ := processMstxCrossWaitRecord_spec hr hupdate
  obtain ⟨htag, hstub⟩ := processMstxCrossWaitRecord_tags (p.updateMergeInfo r) r
  unfold next
  dsimp only
  simp only [hdrop, hr, Bool.false_eq_true, if_false]
  by_cases hend : ((p.updateMergeInfo r).processMstxCrossWaitRecord r).waitMergeInfo.endTag = true
  · rw [if_pos hend]
    exact ⟨(List.append_nil _).trans hbuffer, hinfo, htag, hstub⟩
  · rw [if_neg hend]
    exact ⟨hbuffer, hinfo, htag, hstub⟩

lemma run_block (h : Remembers p.waitMergeInfo (lastWaits before)) {body : List KernelRecord}
    {fin : KernelRecord} (hbody : ∀ r ∈ body, r.isFinish = false) (hfin : fin.isFinish = true) :
    (p.run (body ++ [fin])).1 =
        p.recordBuffer ++ unrepeated before (unmerged p (body ++ [fin])) ∧
      Same (p.run (body ++ [fin])).2 {} := by
  induction body generalizing p before with
  | nil =>
    obtain ⟨hparsed, hsame⟩ := next_finish p hfin
    have hdrop := (p.updateMergeInfo fin).drops_of_isFinish hfin
    have hrepeat : repeatsWait before fin = false := by
      unfold repeatsWait waitInfo
      rw [mstxWaitRecord_of_isFinish hfin]
      rfl
    refine ⟨?_, hsame⟩
    rw [List.nil_append, run, unmerged, hdrop, if_neg (by simp), unrepeated, hrepeat,
      if_neg (by simp), unmerged, unrepeated, hparsed]
    exact List.append_nil _
  | cons r body ih =>
    have hr := hbody r List.mem_cons_self
    have hrest : ∀ r ∈ body, r.isFinish = false := fun r hr => hbody r (List.mem_cons_of_mem _ hr)
    rw [List.cons_append, run, unmerged]
    by_cases hdrop : (p.updateMergeInfo r).drops r = true
    · rw [if_pos hdrop, next_of_drops hdrop]
      exact ih (p := p.updateMergeInfo r) h hrest
    · rw [Bool.not_eq_true] at hdrop
      obtain ⟨hbuffer, hinfo, htag, hstub⟩ := next_body hr hdrop h
      obtain ⟨hparsed, hsame⟩ := ih hinfo hrest
      refine ⟨?_, hsame⟩
      rw [hdrop, if_neg (by simp), unrepeated, hparsed, ← List.append_assoc, hbuffer,
        unmerged_congr htag hstub]
      split_ifs
      · rw [List.append_nil]
      · rw [List.append_assoc, List.singleton_append]

/-- Block after block, from a state that no record tells apart from the first one. -/
lemma run_blocks (hp : Same p {}) {blocks : List (List KernelRecord)}
    (h : ∀ rs ∈ blocks, IsBlock rs) :
    (p.run blocks.flatten).1 = (blocks.map fun rs => unrepeated [] (unmerged {} rs)).flatten ∧
      Same (p.run blocks.flatten).2 {} := by
  induction blocks generalizing p with
  | nil => exact ⟨rfl, hp⟩
  | cons rs blocks ih =>
    obtain ⟨body, fin, rfl, hfin, hbody⟩ := h _ List.mem_cons_self
    have hwaits : Remembers p.waitMergeInfo (lastWaits []) := ⟨hp.throughFirst, hp.throughSecond⟩
    obtain ⟨hparsed, hsame⟩ := run_block hwaits hbody hfin
    obtain ⟨hrest, hend⟩ := ih hsame fun rs hrs => h rs (List.mem_cons_of_mem _ hrs)
    rw [List.flatten_cons, run_append]
    refine ⟨?_, hend⟩
    rw [hparsed, hrest, hp.buffer, unmerged_congr hp.mergeTag hp.firstStub]
    rfl

end RecordPreProcess

/-- **The records of a block that are parsed.** When a thread preprocesses one block after the
other, the records it parses are those that the merge tag leaves, without the `isMore` waits that
equal one of the two `isMore` waits before them in their block; and its buffer is empty then. -/
theorem preprocessed_records (blocks : List (List KernelRecord)) (h : ∀ rs ∈ blocks, IsBlock rs) :
    (({} : RecordPreProcess).run blocks.flatten).1 =
        (blocks.map fun rs => unrepeated [] (unmerged {} rs)).flatten ∧
      (({} : RecordPreProcess).run blocks.flatten).2.recordBuffer = [] := by
  have hsame : RecordPreProcess.Same {} {} :=
    ⟨rfl, rfl, rfl, rfl, rfl, fun _ => rfl, fun _ => rfl⟩
  obtain ⟨hparsed, hend⟩ := RecordPreProcess.run_blocks hsame h
  exact ⟨hparsed, hend.buffer⟩

/-- A wait that is repeated before the end of its block. -/
theorem preprocessed_records_wait :
    (({} : RecordPreProcess).run [[{ payload := .mstxCross false true { isMore := true } },
      { payload := .mstxCross false true { isMore := true } },
      { payload := .blockFinish }]].flatten).1 =
        [{ payload := .mstxCross false true { isMore := true } }, { payload := .blockFinish }] := by
  rw [(preprocessed_records _ ?_).1]
  · decide
  · intro rs hrs
    rw [List.mem_singleton] at hrs
    subst hrs
    exact ⟨[{ payload := .mstxCross false true { isMore := true } },
      { payload := .mstxCross false true { isMore := true } }], { payload := .blockFinish }, rfl,
      rfl, by decide⟩

end MsSanitizer.RecordParse
