import MsSanitizer.ScanlinePairs
import Mathlib.Order.Interval.Finset.Nat

/-!
# The fast scans

`ScanSinglePipeWindow` keeps the open events by pipe and serial number and looks at a window
around the current one; `ScanSingleBlockFast` keeps them in buckets with the place of each
event, and removes an event by moving the last one of its bucket to its place. Both invariants
have the shape of the generic one: the sets hold the events that are open, the pairs are those
of a start with the open events the scan looks at.

The place of an event is only known once it has started. For an event whose interval wraps the
end comes first, and the scan removes an event that is not in the bucket. Between the wrapped
end and the start there is an address that no event covers (`exists_gap`), and there the bucket
would have to hold fewer events than none: the scan has run outside it.
-/

namespace MsSanitizer.MemEventChecker

open RecordDefs EventDef Words

variable {events : List MemEvent} {check : CheckTypeFunc} {data : List SortMetaData}
  {m : SortMetaData}

/-! ## Ordered sets -/

lemma pairLt_iff {a b : ℕ × ℕ} : pairLt a b = true ↔ a.1 < b.1 ∨ a.1 = b.1 ∧ a.2 < b.2 := by
  simp [pairLt]

def Ascending (l : List (ℕ × ℕ)) : Prop := l.Pairwise fun a b => pairLt a b = true

lemma mem_setInsert {x y : ℕ × ℕ} {l : List (ℕ × ℕ)} : y ∈ setInsert x l ↔ y = x ∨ y ∈ l := by
  induction l with
  | nil => simp [setInsert]
  | cons z l ih =>
    unfold setInsert
    split_ifs with h1 h2
    · simp
    · subst h2
      simp
    · simp only [List.mem_cons, ih]
      tauto

lemma Ascending.setInsert {l : List (ℕ × ℕ)} (h : Ascending l) (x : ℕ × ℕ) :
    Ascending (setInsert x l) := by
  unfold Ascending at h ⊢
  induction l with
  | nil => exact List.pairwise_singleton _ _
  | cons z l ih =>
    rw [List.pairwise_cons] at h
    unfold MemEventChecker.setInsert
    split_ifs with h1 h2
    · refine List.pairwise_cons.mpr ⟨fun y hy => ?_, List.pairwise_cons.mpr h⟩
      rcases List.mem_cons.mp hy with rfl | hy
      · exact h1
      · have h2 := h.1 y hy
        rw [pairLt_iff] at h1 h2 ⊢
        omega
    · exact List.pairwise_cons.mpr h
    · refine List.pairwise_cons.mpr ⟨fun y hy => ?_, ih h.2⟩
      rcases mem_setInsert.mp hy with rfl | hy
      · have h2 : ¬ (y.1 = z.1 ∧ y.2 = z.2) := fun h => h2 (Prod.ext h.1 h.2)
        rw [pairLt_iff] at h1 ⊢
        omega
      · exact h.1 y hy

/-- In an ascending list the window is found by its bounds. -/
lemma mem_window {l : List (ℕ × ℕ)} (h : Ascending l) {lo hi : ℕ} {x : ℕ × ℕ} :
    x ∈ window lo hi l ↔ x ∈ l ∧ lo ≤ x.1 ∧ x.1 ≤ hi := by
  have htake : ∀ {l : List (ℕ × ℕ)}, Ascending l →
      (x ∈ l.takeWhile (fun x => decide (x.1 ≤ hi)) ↔ x ∈ l ∧ x.1 ≤ hi) := by
    intro l h
    induction l with
    | nil => simp
    | cons y l ih =>
      have h := List.pairwise_cons.mp h
      rw [List.takeWhile_cons]
      split_ifs with hy
      · rw [List.mem_cons, List.mem_cons, ih h.2]
        have hy := of_decide_eq_true hy
        constructor
        · rintro (rfl | h1)
          · exact ⟨.inl rfl, hy⟩
          · exact ⟨.inr h1.1, h1.2⟩
        · rintro ⟨rfl | h1, h2⟩
          · exact .inl rfl
          · exact .inr ⟨h1, h2⟩
      · simp only [decide_eq_true_eq] at hy
        simp only [List.not_mem_nil, false_iff, List.mem_cons]
        rintro ⟨rfl | h1, h2⟩
        · exact hy h2
        · have h3 := h.1 x h1
          rw [pairLt_iff] at h3
          omega
  have hdrop : ∀ {l : List (ℕ × ℕ)}, Ascending l →
      Ascending (l.dropWhile fun x => pairLt x (lo, 0)) ∧
        (x ∈ (l.dropWhile fun x => pairLt x (lo, 0)) ↔ x ∈ l ∧ lo ≤ x.1) := by
    intro l h
    induction l with
    | nil => exact ⟨h, by simp⟩
    | cons y l ih =>
      have h' := List.pairwise_cons.mp h
      rw [List.dropWhile_cons]
      split_ifs with hy
      · refine ⟨(ih h'.2).1, ?_⟩
        rw [(ih h'.2).2, List.mem_cons]
        rw [pairLt_iff] at hy
        constructor
        · exact fun h1 => ⟨.inr h1.1, h1.2⟩
        · rintro ⟨rfl | h1, h2⟩
          · omega
          · exact ⟨h1, h2⟩
      · refine ⟨h, ?_⟩
        rw [pairLt_iff] at hy
        refine ⟨fun h1 => ⟨h1, ?_⟩, fun h1 => h1.1⟩
        rcases List.mem_cons.mp h1 with rfl | h1
        · omega
        · have h3 := h'.1 x h1
          rw [pairLt_iff] at h3
          omega
  obtain ⟨h1, h2⟩ := hdrop h
  rw [window, htake h1, h2, and_assoc]

/-! ## The window scan -/

lemma putSet_apply (f : MemType → PipeType → List (ℕ × ℕ)) (t : MemType) (p : PipeType)
    (l : List (ℕ × ℕ)) (t' : MemType) (p' : PipeType) :
    putSet f t p l t' p' = if t' = t ∧ p' = p then l else f t' p' := by
  unfold putSet
  rw [Function.update_apply]
  split_ifs with h1 h2 h2
  · rw [h2.2, Function.update_self]
  · rw [Function.update_of_ne fun h => h2 ⟨h1, h⟩, h1]
  · exact absurd h2.1 h1
  · rfl

/-- The pair stands for event `x.2`, which is open after `data`, of this memory type and pipe. -/
def InSet (events : List MemEvent) (data : List SortMetaData) (t : MemType) (p : PipeType)
    (x : ℕ × ℕ) : Prop :=
  OpenAfter data x.2 ∧ effMemType (eventAt events x.2) = t ∧ (eventAt events x.2).pipe = p ∧
    (eventAt events x.2).pipeSerialNo = x.1

def Windowed (events : List MemEvent) (check : CheckTypeFunc) (c h : ℕ) : Prop :=
  SameMem events h c ∧ (eventAt events h).pipe = (eventAt events c).pipe ∧
    (eventAt events c).pipeSerialNo ≤ (eventAt events h).pipeSerialNo + maxSerialNumberDiff ∧
    (eventAt events h).pipeSerialNo
      ≤ add64 (eventAt events c).pipeSerialNo maxSerialNumberDiff ∧
    (IsWrite events h ∨ IsWrite events c) ∧ (check c h).race = true

/-- What the window scan knows after the end points `data`. -/
structure PipeHistory.Holds (events : List MemEvent) (check : CheckTypeFunc)
    (data : List SortMetaData) (s : PipeHistory × RaceMemEventsIdx) : Prop where
  writes : ∀ t p x, x ∈ s.1.writes t p ↔ InSet events data t p x ∧ IsWrite events x.2
  reads : ∀ t p x, x ∈ s.1.reads t p ↔ InSet events data t p x ∧ ¬ IsWrite events x.2
  ascending : ∀ t p, Ascending (s.1.writes t p) ∧ Ascending (s.1.reads t p)
  met : ∀ c h, (c, h) ∈ idxPairs s.2 ↔ MetBy (Windowed events check) data c h

/-- A table in which only the set of the current event changes. -/
lemma mem_putSet {f : MemType → PipeType → List (ℕ × ℕ)} {l : List (ℕ × ℕ)} (Q : ℕ → Prop)
    (hl : ∀ x, x ∈ l ↔ InSet events (data ++ [m]) (effMemType (eventAt events m.eventIdx))
      (eventAt events m.eventIdx).pipe x ∧ Q x.2)
    (hf : ∀ t p x, x ∈ f t p ↔ InSet events data t p x ∧ Q x.2) (t : MemType) (p : PipeType)
    (x : ℕ × ℕ) :
    x ∈ putSet f (effMemType (eventAt events m.eventIdx)) (eventAt events m.eventIdx).pipe l t p ↔
      InSet events (data ++ [m]) t p x ∧ Q x.2 := by
  rw [putSet_apply]
  split_ifs with h
  · rw [hl, h.1, h.2]
  · rw [hf]
    refine and_congr_left fun _ => ?_
    unfold InSet
    rw [openAfter_concat]
    by_cases hx : m.eventIdx = x.2
    · rw [← hx]
      constructor
      · rintro ⟨-, rfl, rfl, -⟩
        exact absurd ⟨rfl, rfl⟩ h
      · rintro ⟨-, rfl, rfl, -⟩
        exact absurd ⟨rfl, rfl⟩ h
    · simp [hx]

lemma ascending_putSet {f : MemType → PipeType → List (ℕ × ℕ)} (hf : ∀ t p, Ascending (f t p))
    {l : List (ℕ × ℕ)} (hl : Ascending l) (t t' : MemType) (p p' : PipeType) :
    Ascending (putSet f t p l t' p') := by
  rw [putSet_apply]
  split_ifs
  · exact hl
  · exact hf t' p'

lemma mem_setInsert_start {l : List (ℕ × ℕ)} (Q : ℕ → Prop) (hm : m.isStart = true)
    (hQ : Q m.eventIdx) (hl : ∀ x, x ∈ l ↔ InSet events data
      (effMemType (eventAt events m.eventIdx)) (eventAt events m.eventIdx).pipe x ∧ Q x.2)
    (x : ℕ × ℕ) :
    x ∈ setInsert ((eventAt events m.eventIdx).pipeSerialNo, m.eventIdx) l ↔
      InSet events (data ++ [m]) (effMemType (eventAt events m.eventIdx))
        (eventAt events m.eventIdx).pipe x ∧ Q x.2 := by
  obtain ⟨no, i⟩ := x
  rw [mem_setInsert, hl]
  unfold InSet
  simp only [openAfter_concat, Prod.mk.injEq]
  by_cases hi : m.eventIdx = i
  · subst hi
    simp only [hm, hQ, and_true, true_and, ne_eq, not_true, false_and, or_false]
    constructor
    · rintro (h1 | ⟨-, h1⟩)
      · exact h1.symm
      · exact h1
    · exact fun h1 => .inl h1.symm
  · have hi' : ¬ i = m.eventIdx := fun h => hi h.symm
    simp [hi, hi']

/-- The sets that a start leaves alone do not hold its event. -/
lemma inSet_start (Q : ℕ → Prop) (hQ : ¬ Q m.eventIdx) {t : MemType} {p : PipeType}
    {x : ℕ × ℕ} :
    InSet events data t p x ∧ Q x.2 ↔ InSet events (data ++ [m]) t p x ∧ Q x.2 := by
  unfold InSet
  rw [openAfter_concat]
  by_cases hx : m.eventIdx = x.2
  · rw [← hx]
    simp [hQ]
  · simp [hx]

lemma mem_erase_end {l : List (ℕ × ℕ)} (Q : ℕ → Prop) (hm : m.isStart = false)
    (hasc : Ascending l) (hl : ∀ x, x ∈ l ↔ InSet events data
      (effMemType (eventAt events m.eventIdx)) (eventAt events m.eventIdx).pipe x ∧ Q x.2)
    (x : ℕ × ℕ) :
    x ∈ l.erase ((eventAt events m.eventIdx).pipeSerialNo, m.eventIdx) ↔
      InSet events (data ++ [m]) (effMemType (eventAt events m.eventIdx))
        (eventAt events m.eventIdx).pipe x ∧ Q x.2 := by
  have hnd : l.Nodup := hasc.imp fun {a b} h heq => by
    rw [heq, pairLt_iff] at h
    omega
  obtain ⟨no, i⟩ := x
  rw [hnd.mem_erase_iff, hl]
  unfold InSet
  simp only [openAfter_concat, hm, ne_eq, Prod.mk.injEq]
  by_cases hi : m.eventIdx = i
  · subst hi
    constructor
    · rintro ⟨h1, ⟨-, -, -, h2⟩, -⟩
      exact absurd ⟨h2.symm, rfl⟩ h1
    · rintro ⟨⟨h1, -⟩, -⟩
      simp at h1
  · have hi' : ¬ i = m.eventIdx := fun h => hi h.symm
    simp [hi, hi']

lemma pipeHolds_nil : PipeHistory.Holds events check [] ({}, []) := by
  refine ⟨fun t p x => ?_, fun t p x => ?_, fun t p => ⟨List.Pairwise.nil, List.Pairwise.nil⟩,
    fun c h => ?_⟩
  · simp [InSet, openAfter_nil]
  · simp [InSet, openAfter_nil]
  · simp [metBy_nil, idxPairs]

/-- The window of the current event in one of its sets. -/
lemma mem_map_window {l : List (ℕ × ℕ)} (Q : ℕ → Prop) (hl : Ascending l)
    (hmem : ∀ x, x ∈ l ↔ InSet events data (effMemType (eventAt events m.eventIdx))
      (eventAt events m.eventIdx).pipe x ∧ Q x.2) (h : ℕ) :
    h ∈ (window (if maxSerialNumberDiff < (eventAt events m.eventIdx).pipeSerialNo then
        (eventAt events m.eventIdx).pipeSerialNo - maxSerialNumberDiff else 0)
      (add64 (eventAt events m.eventIdx).pipeSerialNo maxSerialNumberDiff) l).map Prod.snd ↔
      OpenAfter data h ∧ SameMem events h m.eventIdx ∧
        (eventAt events h).pipe = (eventAt events m.eventIdx).pipe ∧
        (eventAt events m.eventIdx).pipeSerialNo
          ≤ (eventAt events h).pipeSerialNo + maxSerialNumberDiff ∧
        (eventAt events h).pipeSerialNo
          ≤ add64 (eventAt events m.eventIdx).pipeSerialNo maxSerialNumberDiff ∧ Q h := by
  rw [List.mem_map]
  constructor
  · rintro ⟨⟨no, i⟩, hx, rfl⟩
    rw [mem_window hl, hmem] at hx
    obtain ⟨⟨⟨h1, h2, h3, h4⟩, h5⟩, h6, h7⟩ := hx
    refine ⟨h1, h2, h3, ?_, h4 ▸ h7, h5⟩
    simp only at h4 h6 ⊢
    split_ifs at h6 <;> omega
  · rintro ⟨h1, h2, h3, h4, h5, h6⟩
    refine ⟨((eventAt events h).pipeSerialNo, h), ?_, rfl⟩
    rw [mem_window hl, hmem]
    refine ⟨⟨⟨h1, h2, h3, rfl⟩, h6⟩, ?_, h5⟩
    simp only
    split_ifs <;> omega

/-- **One end point keeps the invariant of the window scan.** -/
lemma PipeHistory.Holds.step {s : PipeHistory × RaceMemEventsIdx}
    (hs : Holds events check data s) :
    Holds events check (data ++ [m]) (scanSinglePipeStep events check s m) := by
  obtain ⟨hist, out⟩ := s
  have hwr := hs.writes
  have hrd := hs.reads
  have hasc := hs.ascending
  simp only at hwr hrd hasc
  unfold scanSinglePipeStep
  cases hm : m.isStart with
  | true =>
    by_cases hw : effOpType (eventAt events m.eventIdx) = .write
    · have hwm : IsWrite events m.eventIdx := hw
      simp only [if_true, if_pos hw]
      refine ⟨mem_putSet _ (mem_setInsert_start _ hm hwm (hwr _ _)) hwr, fun t p x => ?_,
        fun t p => ⟨ascending_putSet (fun t p => (hasc t p).1) ((hasc _ _).1.setInsert _) _ _ _ _,
          (hasc t p).2⟩, ?_⟩
      · rw [hrd]
        exact inSet_start (fun i => ¬ IsWrite events i) fun h => h hwm
      · refine metBy_start hs.met hm fun c h => ?_
        rw [mem_idxPairs_check, List.map_append, List.mem_append,
          mem_map_window (IsWrite events) (hasc _ _).1 (hwr _ _),
          mem_map_window (fun i => ¬ IsWrite events i) (hasc _ _).2 (hrd _ _)]
        constructor
        · rintro ⟨h1, ⟨h2, h3, h4, h5, h6, -⟩ | ⟨h2, h3, h4, h5, h6, -⟩, h7⟩
          · exact ⟨h1, h2, h3, h4, h5, h6, .inr hwm, h7⟩
          · exact ⟨h1, h2, h3, h4, h5, h6, .inr hwm, h7⟩
        · rintro ⟨h1, h2, h3, h4, h5, h6, -, h7⟩
          by_cases hwh : IsWrite events h
          · exact ⟨h1, .inl ⟨h2, h3, h4, h5, h6, hwh⟩, h7⟩
          · exact ⟨h1, .inr ⟨h2, h3, h4, h5, h6, hwh⟩, h7⟩
    · have hwm : ¬ IsWrite events m.eventIdx := hw
      simp only [if_true, if_neg hw]
      refine ⟨fun t p x => ?_, mem_putSet (fun i => ¬ IsWrite events i)
          (mem_setInsert_start (fun i => ¬ IsWrite events i) hm hwm (hrd _ _)) hrd,
        fun t p => ⟨(hasc t p).1,
          ascending_putSet (fun t p => (hasc t p).2) ((hasc _ _).2.setInsert _) _ _ _ _⟩, ?_⟩
      · rw [hwr]
        exact inSet_start (IsWrite events) hwm
      · refine metBy_start hs.met hm fun c h => ?_
        rw [mem_idxPairs_check, mem_map_window (IsWrite events) (hasc _ _).1 (hwr _ _)]
        constructor
        · rintro ⟨h1, ⟨h2, h3, h4, h5, h6, hwh⟩, h7⟩
          exact ⟨h1, h2, h3, h4, h5, h6, .inl hwh, h7⟩
        · rintro ⟨h1, h2, h3, h4, h5, h6, hwh, h7⟩
          exact ⟨h1, ⟨h2, h3, h4, h5, h6, hwh.resolve_right hwm⟩, h7⟩
  | false =>
    simp only [Bool.false_eq_true, if_false]
    refine ⟨mem_putSet _ (mem_erase_end _ hm (hasc _ _).1 (hwr _ _)) hwr,
      mem_putSet (fun i => ¬ IsWrite events i)
        (mem_erase_end (fun i => ¬ IsWrite events i) hm (hasc _ _).2 (hrd _ _)) hrd,
      fun t p => ⟨ascending_putSet (fun t p => (hasc t p).1) (List.Pairwise.sublist
          List.erase_sublist (hasc _ _).1) _ _ _ _,
        ascending_putSet (fun t p => (hasc t p).2) (List.Pairwise.sublist List.erase_sublist
          (hasc _ _).2) _ _ _ _⟩, fun c h => ?_⟩
    rw [hs.met, metBy_end hm]

lemma pipeHolds_scan (data : List SortMetaData) :
    PipeHistory.Holds events check data
      (data.foldl (scanSinglePipeStep events check) ({}, [])) := by
  induction data using List.reverseRecOn with
  | nil => exact pipeHolds_nil
  | append_singleton data m ih =>
    rw [List.foldl_append]
    exact ih.step

/-- What `IsSinglePipeRaceEvent` asks of the pipes and serial numbers. -/
lemma race_singlePipe {c h : ℕ} (hr : (isSinglePipeRaceEvent events c h).race = true) :
    (eventAt events c).pipe = (eventAt events h).pipe ∧
      serialDiff (eventAt events c) (eventAt events h) ≤ maxSerialNumberDiff := by
  unfold isSinglePipeRaceEvent at hr
  simp only at hr
  split_ifs at hr with h1 h2 h3 h4 h5
  exact ⟨not_not.mp h2, Nat.le_of_not_lt h5⟩

def SamePairs (a b : RaceMemEventsIdx) : Prop := ∀ p, p ∈ idxPairs a ↔ p ∈ idxPairs b

/-- A pair of overlapping events of one pipe that race with each other. -/
def SinglePipePair (events : List MemEvent) (c h : ℕ) : Prop :=
  Scanned events c ∧ Scanned events h ∧ StartsBefore events h c ∧
    startAddr (eventAt events c) < endAddr (eventAt events h) ∧
    Compared events (isSinglePipeRaceEvent events) c h

/-- The window misses a pair that races only when its upper end wraps. -/
lemma windowed_iff {c h : ℕ} :
    Windowed events (isSinglePipeRaceEvent events) c h ↔
      Compared events (isSinglePipeRaceEvent events) c h ∧
        (eventAt events c).pipeSerialNo + maxSerialNumberDiff < 2 ^ 64 := by
  constructor
  · rintro ⟨h1, -, h3, h4, h5, h6⟩
    refine ⟨⟨h1, h5, h6⟩, ?_⟩
    by_contra hwrap
    unfold add64 at h4
    have h16 : maxSerialNumberDiff = 16 := rfl
    omega
  · rintro ⟨⟨h1, h5, h6⟩, hlt⟩
    obtain ⟨hp, hd⟩ := race_singlePipe h6
    unfold serialDiff at hd
    refine ⟨h1, hp.symm, ?_, ?_, h5, h6⟩
    · split_ifs at hd <;> omega
    · rw [add64_eq hlt]
      split_ifs at hd <;> omega

/-- **The window drops no pair** unless its upper end wraps for an event of the pair. -/
lemma scanSinglePipeWindow_same_iff (hlen : events.length ≤ 2 ^ 32)
    (hno : ∀ i, Scanned events i → ¬ Wraps (eventAt events i)) :
    SamePairs
      (scanSinglePipeWindow events (isSinglePipeRaceEvent events) (buildScanlineMetaData events))
      (scanGeneric events (isSinglePipeRaceEvent events) (buildScanlineMetaData events)) ↔
      ∀ c h, SinglePipePair events c h →
        (eventAt events c).pipeSerialNo + maxSerialNumberDiff < 2 ^ 64 := by
  have hmem : ∀ c h, (c, h) ∈ idxPairs (scanSinglePipeWindow events (isSinglePipeRaceEvent events)
      (buildScanlineMetaData events)) ↔
      (c, h) ∈ idxPairs (scanGeneric events (isSinglePipeRaceEvent events)
        (buildScanlineMetaData events)) ∧
      (eventAt events c).pipeSerialNo + maxSerialNumberDiff < 2 ^ 64 := by
    intro c h
    rw [scanSinglePipeWindow, (pipeHolds_scan _).met, scanGeneric,
      (holds_scan (build_starts hlen)).met, MetBy, MetBy, windowed_iff, and_assoc]
  constructor
  · rintro hsame c h ⟨h1, h2, h3, h4, h5, h6, h7⟩
    have hgen := (mem_scanGeneric_iff hlen (isSinglePipeRaceEvent events)).mpr
      ⟨h1, h2, h3, .inr h4, h5, h6, h7⟩
    exact ((hmem c h).mp ((hsame (c, h)).mpr hgen)).2
  · rintro hserial ⟨c, h⟩
    rw [hmem]
    refine ⟨fun hm => hm.1, fun hm => ⟨hm, ?_⟩⟩
    obtain ⟨h1, h2, h3, h4, h5⟩ := (mem_scanGeneric_iff hlen _).mp hm
    exact hserial c h ⟨h1, h2, h3, h4.resolve_left (hno h h2), h5⟩

/-! ## The bucket scan -/

/-- Moving the last element to the place of the one that goes keeps the others, and the places
that `pos` knows. -/
lemma swapPop {l : List ℕ} {pos : ℕ → ℕ} (hpos : ∀ i h, l[i]? = some h → pos h = i) {cur : ℕ}
    (hcur : cur ∈ l) :
    ∃ moved, l.getLast? = some moved ∧ pos cur < l.length ∧
      (∀ h, h ∈ (l.set (pos cur) moved).dropLast ↔ h ∈ l ∧ h ≠ cur) ∧
      ∀ i h, (l.set (pos cur) moved).dropLast[i]? = some h →
        Function.update pos moved (pos cur) h = i := by
  obtain ⟨k, hk⟩ := List.mem_iff_getElem?.mp hcur
  have hk' := hpos k cur hk
  have hklt : k < l.length := by
    rw [List.getElem?_eq_some_iff] at hk
    exact hk.1
  have hlast : l.getLast? = l[l.length - 1]? := List.getLast?_eq_getElem?
  obtain ⟨moved, hmoved⟩ : ∃ moved, l[l.length - 1]? = some moved :=
    ⟨_, List.getElem?_eq_getElem (by omega)⟩
  have hposm := hpos _ moved hmoved
  have hget : ∀ i, (l.set (pos cur) moved).dropLast[i]?
      = if i < l.length - 1 then if i = k then some moved else l[i]? else none := by
    intro i
    rw [hk', List.getElem?_dropLast, List.length_set, List.getElem?_set]
    split_ifs <;> first | rfl | omega
  refine ⟨moved, hlast.trans hmoved, by omega, fun h => ?_, fun i h hi => ?_⟩
  · rw [List.mem_iff_getElem?, List.mem_iff_getElem?]
    constructor
    · rintro ⟨i, hi⟩
      rw [hget] at hi
      split_ifs at hi with h1 h2
      · obtain rfl : moved = h := by simpa using hi
        exact ⟨⟨_, hmoved⟩, fun heq => by rw [heq] at hposm; omega⟩
      · exact ⟨⟨i, hi⟩, fun heq => h2 (by rw [← hpos i h hi, heq, hk'])⟩
    · rintro ⟨⟨i, hi⟩, hne⟩
      have hilt : i < l.length := by
        rw [List.getElem?_eq_some_iff] at hi
        exact hi.1
      have hik : i ≠ k := fun heq => hne (by
        rw [heq, hk] at hi
        exact (Option.some.inj hi).symm)
      by_cases hl : i = l.length - 1
      · refine ⟨k, ?_⟩
        rw [hget, if_pos (by omega), if_pos rfl, ← hi, hl, hmoved]
      · refine ⟨i, ?_⟩
        rw [hget, if_pos (by omega), if_neg hik, hi]
  · rw [hget] at hi
    split_ifs at hi with h1 h2
    · obtain rfl : moved = h := by simpa using hi
      rw [Function.update_self, hk', h2]
    · have hih := hpos i h hi
      have hne : h ≠ moved := fun heq => by rw [heq] at hih; omega
      rw [Function.update_of_ne hne, hih]

def InBucket (events : List MemEvent) (w : Bool) (t : MemType) (p : PipeType) (i : ℕ) : Prop :=
  decide (effOpType (eventAt events i) = .write) = w ∧ effMemType (eventAt events i) = t ∧
    (eventAt events i).pipe = p

instance (events : List MemEvent) (w : Bool) (t : MemType) (p : PipeType) (i : ℕ) :
    Decidable (InBucket events w t p i) :=
  inferInstanceAs (Decidable (_ ∧ _ ∧ _))

lemma put_bucket (b : Buckets) (w : Bool) (t : MemType) (p : PipeType) (l : List ℕ) (w' : Bool)
    (t' : MemType) (p' : PipeType) :
    (b.put w t p l).bucket w' t' p'
      = if w' = w ∧ t' = t ∧ p' = p then l else b.bucket w' t' p' := by
  unfold Buckets.put
  simp only [Function.update_apply]
  by_cases hw : w' = w
  · by_cases ht : t' = t
    · by_cases hp : p' = p
      · simp [hw, ht, hp]
      · simp [hw, ht, hp]
    · simp [hw, ht]
  · simp [hw]

variable {cfg : Platform}

def BucketPair (cfg : Platform) (events : List MemEvent) (c h : ℕ) : Prop :=
  SameMem events h c ∧ (eventAt events h).pipe ≠ (eventAt events c).pipe ∧
    (IsWrite events h ∨ IsWrite events c) ∧ (innerCoreHit cfg events c h).isSome = true

/-- What the bucket scan knows after the end points `data`. -/
structure Buckets.Holds (cfg : Platform) (events : List MemEvent) (data : List SortMetaData)
    (b : Buckets) : Prop where
  mem : ∀ w t p h, h ∈ b.bucket w t p ↔ OpenAfter data h ∧ InBucket events w t p h
  pos : ∀ w t p i h, (b.bucket w t p)[i]? = some h → b.posInBucket h = i
  met : ∀ c h, (c, h) ∈ idxPairs b.out ↔ MetBy (BucketPair cfg events) data c h

lemma bucketsHold_nil : Buckets.Holds cfg events [] {} := by
  refine ⟨fun w t p h => ?_, fun w t p i h hi => ?_, fun c h => ?_⟩
  · simp [openAfter_nil]
  · simp at hi
  · simp [metBy_nil, idxPairs]

lemma mem_allPipes (p : PipeType) : p ∈ allPipes := by cases p <;> decide

/-- The inlined comparison is `IsInnerCoreRaceEvent` of events of different pipes. -/
lemma innerCoreHit_iff {c h : ℕ} :
    (eventAt events h).pipe ≠ (eventAt events c).pipe ∧
      (innerCoreHit cfg events c h).isSome = true ↔
      (isInnerCoreRaceEvent cfg events c h).race = true := by
  unfold innerCoreHit isInnerCoreRaceEvent
  simp only
  by_cases hp : (eventAt events c).pipe = (eventAt events h).pipe
  · simp [hp]
  · have hp' : (eventAt events h).pipe ≠ (eventAt events c).pipe := fun h => hp h.symm
    rw [if_neg hp]
    generalize isInnerCoreRaceCandidate _ _ _ _ _ _ = cand
    cases cand with
    | false => simp
    | true =>
      cases hr : (isMemSpaceOverlap (eventAt events c) (eventAt events h)).race <;> simp [hr, hp']

lemma innerCoreHit_idx {c h : ℕ} {r : EventIdxInfo × EventIdxInfo}
    (hr : innerCoreHit cfg events c h = some r) : r.1.eventIdx = c ∧ r.2.eventIdx = h := by
  unfold innerCoreHit at hr
  simp only at hr
  split_ifs at hr
  obtain rfl := Option.some.inj hr
  exact ⟨rfl, rfl⟩

lemma mem_hits {b : Buckets} (hb : Buckets.Holds cfg events data b) {cur c h : ℕ} :
    (c, h) ∈ idxPairs ((if decide (effOpType (eventAt events cur) = .write) then [true, false]
        else [true]).flatMap fun w => allPipes.flatMap fun q =>
      if q = (eventAt events cur).pipe then []
      else (b.bucket w (effMemType (eventAt events cur)) q).filterMap
        (innerCoreHit cfg events cur)) ↔
      c = cur ∧ OpenAfter data h ∧ BucketPair cfg events cur h := by
  have hw : ∀ w, w ∈ (if decide (effOpType (eventAt events cur) = .write) then [true, false]
      else [true]) ↔ w = true ∨ IsWrite events cur := by
    intro w
    by_cases h1 : effOpType (eventAt events cur) = .write
    · cases w <;> simp [h1, IsWrite]
    · cases w <;> simp [h1, IsWrite]
  simp only [idxPairs, List.mem_map, List.mem_flatMap]
  constructor
  · rintro ⟨r, ⟨w, hmemw, q, -, hr⟩, heq⟩
    split_ifs at hr with hq
    · simp at hr
    · rw [List.mem_filterMap] at hr
      obtain ⟨i, hi, hhit⟩ := hr
      obtain ⟨h1, h2⟩ := innerCoreHit_idx hhit
      rw [h1, h2, Prod.mk.injEq] at heq
      obtain ⟨rfl, rfl⟩ := heq
      obtain ⟨hopen, hb1, hb2, hb3⟩ := (hb.mem _ _ _ _).mp hi
      refine ⟨rfl, hopen, hb2, fun h => hq (hb3.symm.trans h), ?_, by rw [hhit]; rfl⟩
      rcases (hw w).mp hmemw with rfl | hwc
      · exact .inl (of_decide_eq_true hb1)
      · exact .inr hwc
  · rintro ⟨rfl, hopen, h2, h3, h4, h5⟩
    obtain ⟨r, hr⟩ := Option.isSome_iff_exists.mp h5
    obtain ⟨h6, h7⟩ := innerCoreHit_idx hr
    refine ⟨r, ⟨decide (effOpType (eventAt events h) = .write), ?_, (eventAt events h).pipe,
      mem_allPipes _, ?_⟩, by rw [h6, h7]⟩
    · rw [hw]
      rcases h4 with h4 | h4
      · exact .inl (decide_eq_true h4)
      · exact .inr h4
    · rw [if_neg h3, List.mem_filterMap]
      exact ⟨h, (hb.mem _ _ _ _).mpr ⟨hopen, rfl, h2, rfl⟩, hr⟩

/-- Appending an element at its place keeps the places that `pos` knows. -/
lemma pushBack {l : List ℕ} {pos : ℕ → ℕ} (hpos : ∀ i h, l[i]? = some h → pos h = i) {cur : ℕ}
    (hcur : cur ∉ l) (i h : ℕ) (hi : (l ++ [cur])[i]? = some h) :
    Function.update pos cur l.length h = i := by
  rw [List.getElem?_append] at hi
  split_ifs at hi with hlt
  · have hne : h ≠ cur := fun heq => hcur (heq ▸ List.mem_of_getElem? hi)
    rw [Function.update_of_ne hne]
    exact hpos i h hi
  · rw [List.getElem?_singleton] at hi
    split_ifs at hi with h0
    obtain rfl := Option.some.inj hi
    rw [Function.update_self]
    omega

/-- A list with places has every element once, so that it is shorter than a bound of its elements
that it misses one of. -/
lemma length_lt_of_places {l : List ℕ} {pos : ℕ → ℕ}
    (hpos : ∀ i h, l[i]? = some h → pos h = i) {n cur : ℕ} (hbound : ∀ h ∈ l, h < n)
    (hcur : cur ∉ l) (hlt : cur < n) : l.length < n := by
  have hnodup : (cur :: l).Nodup := by
    refine List.nodup_cons.mpr ⟨hcur, List.nodup_iff_injective_getElem.mpr fun i j hij => ?_⟩
    have h1 := hpos i _ (List.getElem?_eq_getElem i.2)
    have h2 := hpos j _ (List.getElem?_eq_getElem j.2)
    simp only at hij
    rw [hij] at h1
    exact Fin.ext (h1.symm.trans h2)
  have hsub : (cur :: l) ⊆ List.range n := by
    intro i hi
    rw [List.mem_range]
    rcases List.mem_cons.mp hi with rfl | hi
    · exact hlt
    · exact hbound i hi
  have hlen := (hnodup.subperm hsub).length_le
  rw [List.length_cons, List.length_range] at hlen
  omega

lemma InBucket.unique {w w' : Bool} {t t' : MemType} {p p' : PipeType} {i : ℕ}
    (h : InBucket events w t p i) (h' : InBucket events w' t' p' i) :
    w' = w ∧ t' = t ∧ p' = p := by
  obtain ⟨rfl, rfl, rfl⟩ := h
  obtain ⟨h1, h2, h3⟩ := h'
  exact ⟨h1.symm, h2.symm, h3.symm⟩

/-- The buckets after an end point whose event is in the bucket that has changed. -/
lemma Buckets.Holds.put {b b' : Buckets} (hb : Holds cfg events data b) {w : Bool} {t : MemType}
    {p : PipeType} {l : List ℕ} (hself : InBucket events w t p m.eventIdx)
    (hbucket : b'.bucket = (b.put w t p l).bucket)
    (hmem : ∀ h, h ∈ l ↔ OpenAfter (data ++ [m]) h ∧ InBucket events w t p h)
    (hpos : ∀ i h, l[i]? = some h → b'.posInBucket h = i)
    (hsame : ∀ h, ¬ InBucket events w t p h → b'.posInBucket h = b.posInBucket h)
    (hmet : ∀ c h, (c, h) ∈ idxPairs b'.out ↔ MetBy (BucketPair cfg events) (data ++ [m]) c h) :
    Holds cfg events (data ++ [m]) b' := by
  refine ⟨fun w' t' p' h => ?_, fun w' t' p' i h hi => ?_, hmet⟩
  · rw [hbucket, put_bucket]
    split_ifs with hc
    · obtain ⟨rfl, rfl, rfl⟩ := hc
      exact hmem h
    · rw [hb.mem, openAfter_concat]
      refine and_congr_left fun h2 => ?_
      have hne : m.eventIdx ≠ h := by
        rintro rfl
        exact hc (hself.unique h2)
      simp [hne]
  · rw [hbucket, put_bucket] at hi
    split_ifs at hi with hc
    · exact hpos i h hi
    · have hin := ((hb.mem _ _ _ _).mp (List.mem_of_getElem? hi)).2
      rw [hsame h fun hown => hc (hown.unique hin)]
      exact hb.pos w' t' p' i h hi

/-- **One end point keeps the invariant of the bucket scan**: a start of an event that is not
open, and an end of one that is. -/
lemma Buckets.Holds.step {b : Buckets} (hb : Holds cfg events data b)
    (hlen : events.length ≤ 2 ^ 32)
    (hbound : ∀ h, OpenAfter data h → h < events.length) (hcur : m.eventIdx < events.length)
    (hstart : m.isStart = true → ¬ OpenAfter data m.eventIdx)
    (hend : m.isStart = false → OpenAfter data m.eventIdx) :
    ∃ b', scanSingleBlockStep cfg events b m = some b' ∧ Holds cfg events (data ++ [m]) b' := by
  have hown := hb.mem (decide (effOpType (eventAt events m.eventIdx) = .write))
    (effMemType (eventAt events m.eventIdx)) (eventAt events m.eventIdx).pipe
  have hpos := hb.pos (decide (effOpType (eventAt events m.eventIdx) = .write))
    (effMemType (eventAt events m.eventIdx)) (eventAt events m.eventIdx).pipe
  have hself : InBucket events (decide (effOpType (eventAt events m.eventIdx) = .write))
    (effMemType (eventAt events m.eventIdx)) (eventAt events m.eventIdx).pipe m.eventIdx :=
    ⟨rfl, rfl, rfl⟩
  unfold scanSingleBlockStep
  cases hm : m.isStart with
  | true =>
    have hfresh := mt (fun h => ((hown m.eventIdx).mp h).1) (hstart hm)
    -- the place fits into 32 bits
    have hsmall := length_lt_of_places hpos (fun h hh => hbound h ((hown h).mp hh).1) hfresh hcur
    simp only [if_true]
    rw [Nat.mod_eq_of_lt (hsmall.trans_le hlen)]
    refine ⟨_, rfl, hb.put hself rfl (fun h => ?_) (pushBack hpos hfresh) (fun h hh => ?_)
      (metBy_start hb.met hm fun c h => mem_hits hb)⟩
    · rw [List.mem_append, List.mem_singleton, hown, openAfter_start hm]
      constructor
      · rintro (⟨h1, h2⟩ | rfl)
        · exact ⟨.inr h1, h2⟩
        · exact ⟨.inl rfl, hself⟩
      · rintro ⟨rfl | h1, h2⟩
        · exact .inr rfl
        · exact .inl ⟨h1, h2⟩
    · have hne : h ≠ m.eventIdx := fun heq => hh (heq ▸ hself)
      exact Function.update_of_ne hne _ _
  | false =>
    obtain ⟨moved, hlast, hlt, hmem, hplaces⟩ := swapPop hpos ((hown _).mpr ⟨hend hm, hself⟩)
    have hmoved := ((hown moved).mp (List.mem_of_getLast? hlast)).2
    simp only [Bool.false_eq_true, if_false, hlast, if_pos hlt]
    refine ⟨_, rfl, hb.put hself rfl (fun h => ?_) hplaces (fun h hh => ?_) fun c h => ?_⟩
    · rw [hmem, hown, openAfter_end hm]
      tauto
    · have hne : h ≠ moved := fun heq => hh (heq ▸ hmoved)
      exact Function.update_of_ne hne _ _
    · show (c, h) ∈ idxPairs b.out ↔ _
      rw [hb.met, metBy_end hm]

lemma openAfter_exists {h : ℕ} (ho : OpenAfter data h) :
    ∃ x ∈ data, x.eventIdx = h ∧ x.isStart = true := by
  unfold OpenAfter at ho
  obtain ⟨x, hx, hs⟩ := Option.map_eq_some_iff.mp ho
  have hx := List.mem_filter.mp (List.mem_of_getLast? hx)
  exact ⟨x, hx.1, of_decide_eq_true hx.2, hs⟩

/-- **The bucket scan comes to its end** when no interval wraps, and the invariant holds. -/
lemma bucketsHold_scan (cfg : Platform) (hlen : events.length ≤ 2 ^ 32)
    (hno : ∀ i, Scanned events i → ¬ Wraps (eventAt events i)) :
    ∃ b, (buildScanlineMetaData events).foldlM (scanSingleBlockStep cfg events) {} = some b ∧
      Buckets.Holds cfg events (buildScanlineMetaData events) b := by
  have hprefix : ∀ before after, buildScanlineMetaData events = before ++ after →
      ∃ b, before.foldlM (scanSingleBlockStep cfg events) {} = some b ∧
        Buckets.Holds cfg events before b := by
    intro before
    induction before using List.reverseRecOn with
    | nil => exact fun after _ => ⟨{}, rfl, bucketsHold_nil⟩
    | append_singleton before m ih =>
      intro after hdata
      rw [List.append_assoc, List.singleton_append] at hdata
      obtain ⟨b, hb, hhold⟩ := ih (m :: after) hdata
      have hin : ∀ x, x ∈ before ∨ x = m → x ∈ buildScanlineMetaData events := by
        rintro x (hx | rfl)
        · rw [hdata]
          exact List.mem_append_left _ hx
        · rw [hdata]
          simp
      have hbound : ∀ h, OpenAfter before h → h < events.length := by
        intro h ho
        obtain ⟨x, hx, rfl, -⟩ := openAfter_exists ho
        exact ((mem_build_iff hlen).mp (hin x (.inl hx))).1.1
      obtain ⟨hscan, hm⟩ := (mem_build_iff hlen).mp (hin m (.inr rfl))
      have hstart : m.isStart = true → ¬ OpenAfter before m.eventIdx := by
        intro hms ho
        obtain ⟨x, hx, heq, hxs⟩ := openAfter_exists ho
        have hpair := build_starts hlen
        rw [hdata, List.pairwise_append] at hpair
        exact hpair.2.2 x hx m (by simp) hxs hms heq
      have hend : m.isStart = false → OpenAfter before m.eventIdx := by
        intro hms
        rw [hms] at hm
        have hlt : compareEvent (endPoint events m.eventIdx true) m = true := by
          have hne : startAddr (eventAt events m.eventIdx) ≠ endAddr (eventAt events m.eventIdx) :=
            fun heq => hscan.2 ((getMemMaxLength_eq_zero_iff _).mpr heq)
          have hle := hno _ hscan
          unfold Wraps at hle
          rw [hm, compareEvent_iff]
          simp only [endPoint, Bool.false_eq_true, if_false, if_true]
          omega
        rw [openAfter_iff hlen hdata]
        refine ⟨hscan, hlt, .inr ?_⟩
        rw [← hm]
        exact compareEvent_irrefl m
      obtain ⟨b', hb', hhold'⟩ := hhold.step hlen hbound hscan.1 hstart hend
      refine ⟨b', ?_, hhold'⟩
      rw [List.foldlM_append, hb]
      simp [hb']
  exact hprefix _ [] (List.append_nil _).symm

/-- The bucket scan reports what the generic scan reports. -/
lemma scanSingleBlockFast_same (cfg : Platform) (hlen : events.length ≤ 2 ^ 32)
    (hno : ∀ i, Scanned events i → ¬ Wraps (eventAt events i)) :
    ∃ out, scanSingleBlockFast cfg events (buildScanlineMetaData events) = some out ∧
      SamePairs out (scanGeneric events (isInnerCoreRaceEvent cfg events)
        (buildScanlineMetaData events)) := by
  obtain ⟨b, hb, hhold⟩ := bucketsHold_scan cfg hlen hno
  refine ⟨b.out, by rw [scanSingleBlockFast, hb]; rfl, ?_⟩
  rintro ⟨c, h⟩
  rw [hhold.met, scanGeneric, (holds_scan (build_starts hlen)).met]
  refine and_congr_right fun _ => ?_
  unfold BucketPair Compared
  rw [← innerCoreHit_iff]
  tauto

/-! ## Wrapped intervals -/

/-- The number of end points of one kind whose event belongs to a bucket. -/
def countIn (events : List MemEvent) (w : Bool) (t : MemType) (p : PipeType) (isStart : Bool)
    (data : List SortMetaData) : ℕ :=
  data.countP fun m => decide (m.isStart = isStart ∧ InBucket events w t p m.eventIdx)

lemma countIn_concat (w : Bool) (t : MemType) (p : PipeType) (isStart : Bool) :
    countIn events w t p isStart (data ++ [m]) = countIn events w t p isStart data +
      if m.isStart = isStart ∧ InBucket events w t p m.eventIdx then 1 else 0 := by
  simp [countIn, List.countP_append, List.countP_singleton]

/-- A step changes the bucket of its event only, by one event. -/
lemma step_bucket {b b' : Buckets} (hstep : scanSingleBlockStep cfg events b m = some b')
    (w : Bool) (t : MemType) (p : PipeType) :
    (b'.bucket w t p).length +
        (if m.isStart = false ∧ InBucket events w t p m.eventIdx then 1 else 0)
      = (b.bucket w t p).length +
        if m.isStart = true ∧ InBucket events w t p m.eventIdx then 1 else 0 := by
  have hclass : InBucket events w t p m.eventIdx ↔
      w = decide (effOpType (eventAt events m.eventIdx) = .write) ∧
        t = effMemType (eventAt events m.eventIdx) ∧ p = (eventAt events m.eventIdx).pipe := by
    unfold InBucket
    constructor
    · exact fun h => ⟨h.1.symm, h.2.1.symm, h.2.2.symm⟩
    · exact fun h => ⟨h.1.symm, h.2.1.symm, h.2.2.symm⟩
  unfold scanSingleBlockStep at hstep
  cases hm : m.isStart with
  | true =>
    simp only [hm, if_true] at hstep
    have hput := (congrArg (fun x : Buckets => x.bucket w t p) (Option.some.inj hstep)).symm.trans
      (put_bucket _ _ _ _ _ _ _ _)
    rw [hput]
    by_cases hc : InBucket events w t p m.eventIdx
    · rw [if_pos (hclass.mp hc)]
      obtain ⟨rfl, rfl, rfl⟩ := hclass.mp hc
      simp [hc]
    · rw [if_neg (mt hclass.mpr hc)]
      simp [hc]
  | false =>
    simp only [hm, Bool.false_eq_true, if_false] at hstep
    split at hstep
    · cases hstep
    · split_ifs at hstep with hlt
      have hput := (congrArg (fun x : Buckets => x.bucket w t p)
        (Option.some.inj hstep)).symm.trans (put_bucket _ _ _ _ _ _ _ _)
      rw [hput]
      by_cases hc : InBucket events w t p m.eventIdx
      · rw [if_pos (hclass.mp hc)]
        obtain ⟨rfl, rfl, rfl⟩ := hclass.mp hc
        simp only [List.length_dropLast, List.length_set, hc, and_self, if_true,
          Bool.false_eq_true, false_and, if_false]
        omega
      · rw [if_neg (mt hclass.mpr hc)]
        simp [hc]

/-- As long as the bucket scan stays inside its buckets, a bucket holds as many events as have
started more than have ended. -/
lemma bucket_length {b : Buckets}
    (hb : data.foldlM (scanSingleBlockStep cfg events) {} = some b) (w : Bool) (t : MemType)
    (p : PipeType) :
    (b.bucket w t p).length + countIn events w t p false data = countIn events w t p true data := by
  induction data using List.reverseRecOn generalizing b with
  | nil =>
    obtain rfl := Option.some.inj hb
    rfl
  | append_singleton data m ih =>
    rw [List.foldlM_append] at hb
    obtain ⟨b', hb', hstep⟩ := Option.bind_eq_some_iff.mp hb
    have ih := ih hb'
    have hstep := step_bucket (by simpa using hstep) w t p
    rw [countIn_concat, countIn_concat]
    omega

/-- The number of events of a bucket with an end point of one kind up to address `x`. -/
lemma countIn_upTo (hlen : events.length ≤ 2 ^ 32) (w : Bool) (t : MemType) (p : PipeType)
    (isStart : Bool) (x : ℕ) :
    countIn events w t p isStart ((buildScanlineMetaData events).filter fun m => m.addr ≤ x)
      = ((Finset.range events.length).filter fun i => getMemMaxLength (eventAt events i) ≠ 0 ∧
          InBucket events w t p i ∧ (endPoint events i isStart).addr ≤ x).card := by
  have hnd : (((buildScanlineMetaData events).filter fun m => m.addr ≤ x).filter fun m =>
      decide (m.isStart = isStart ∧ InBucket events w t p m.eventIdx)).Nodup := by
    refine List.Nodup.filter _ (List.Nodup.filter _ ?_)
    refine (build_pairwise hlen).imp ?_
    rintro a b hab rfl
    exact compareEvent_irrefl a hab
  rw [countIn, List.countP_eq_length_filter, ← List.toFinset_card_of_nodup hnd]
  refine Finset.card_bij (fun m _ => m.eventIdx) ?_ ?_ ?_
  · intro m hm
    simp only [List.mem_toFinset, List.mem_filter, decide_eq_true_eq] at hm
    obtain ⟨⟨h1, h2⟩, h3, h4⟩ := hm
    obtain ⟨h5, h6⟩ := (mem_build_iff hlen).mp h1
    rw [Finset.mem_filter, Finset.mem_range]
    rw [h3] at h6
    rw [h6] at h2
    exact ⟨h5.1, h5.2, h4, h2⟩
  · intro a ha b hb hab
    simp only [List.mem_toFinset, List.mem_filter, decide_eq_true_eq] at ha hb
    have h1 := ((mem_build_iff hlen).mp ha.1.1).2
    have h2 := ((mem_build_iff hlen).mp hb.1.1).2
    rw [h1, h2, ha.2.1, hb.2.1, hab]
  · intro i hi
    rw [Finset.mem_filter, Finset.mem_range] at hi
    refine ⟨endPoint events i isStart, ?_, rfl⟩
    simp only [List.mem_toFinset, List.mem_filter, decide_eq_true_eq]
    exact ⟨⟨(mem_build_iff hlen).mpr ⟨⟨hi.1, hi.2.1⟩, rfl⟩, hi.2.2.2⟩, rfl, hi.2.2.1⟩

/-- The length of a memory operation fits into 32 bits. -/
lemma getMemMaxLength_lt {e : MemEvent} (hd : e.isDynamic = false) :
    getMemMaxLength e < 2 ^ 32 := by
  simp only [getMemMaxLength, hd, Bool.false_eq_true, if_false]
  split_ifs
  · exact Nat.two_pow_pos _
  · exact Nat.two_pow_pos _
  · exact Nat.mod_lt _ (Nat.two_pow_pos _)

/-- An interval that does not wrap is shorter than `2 ^ 32`, and what a wrapped one leaves out is
longer than all but that. -/
lemma interval_length {e : MemEvent} (hd : e.isDynamic = false) :
    (¬ Wraps e → endAddr e - startAddr e < 2 ^ 32) ∧
      (Wraps e → 2 ^ 64 - 2 ^ 32 < startAddr e - endAddr e) := by
  have hlt := getMemMaxLength_lt hd
  unfold Wraps startAddr endAddr add64
  simp only [hd, Bool.false_eq_true, if_false]
  generalize getMemMaxLength e = len at hlt ⊢
  omega

/-- **The gap of a wrapped interval**: some address between its end and its start lies in no
interval that does not wrap, since all of them together are too short. -/
lemma exists_gap (hlen : events.length ≤ 2 ^ 32) (hdyn : ∀ i, (eventAt events i).isDynamic = false)
    {w : ℕ} (hw : w < events.length) (hwrap : Wraps (eventAt events w)) :
    ∃ x, endAddr (eventAt events w) ≤ x ∧ x < startAddr (eventAt events w) ∧
      ∀ i < events.length, ¬ Wraps (eventAt events i) →
        ¬ (startAddr (eventAt events i) ≤ x ∧ x < endAddr (eventAt events i)) := by
  by_contra hnone
  push Not at hnone
  have hsub : Finset.Ico (endAddr (eventAt events w)) (startAddr (eventAt events w)) ⊆
      ((Finset.range events.length).erase w).biUnion fun i =>
        if Wraps (eventAt events i) then ∅
        else Finset.Ico (startAddr (eventAt events i)) (endAddr (eventAt events i)) := by
    intro x hx
    rw [Finset.mem_Ico] at hx
    obtain ⟨i, hi, hno, hin⟩ := hnone x hx.1 hx.2
    rw [Finset.mem_biUnion]
    refine ⟨i, Finset.mem_erase.mpr ⟨?_, Finset.mem_range.mpr hi⟩, ?_⟩
    · rintro rfl
      exact hno hwrap
    · rw [if_neg hno, Finset.mem_Ico]
      exact hin
  have hcard := (Finset.card_le_card hsub).trans
    (Finset.card_biUnion_le_card_mul _ _ (2 ^ 32 - 1) fun i _ => ?_)
  · rw [Nat.card_Ico, Finset.card_erase_of_mem (Finset.mem_range.mpr hw), Finset.card_range]
      at hcard
    have hgap := (interval_length (hdyn w)).2 hwrap
    have hmul : (events.length - 1) * (2 ^ 32 - 1) ≤ (2 ^ 32 - 1) * (2 ^ 32 - 1) :=
      Nat.mul_le_mul_right _ (by omega)
    have hval : (2 ^ 32 - 1) * (2 ^ 32 - 1) < 2 ^ 64 - 2 ^ 32 := by decide
    omega
  · split_ifs with hi
    · simp
    · have := (interval_length (hdyn i)).1 hi
      rw [Nat.card_Ico]
      omega

/-- **A wrapped interval runs the bucket scan out of its bucket.** -/
lemma scanSingleBlockFast_none (hlen : events.length ≤ 2 ^ 32)
    (hdyn : ∀ i, (eventAt events i).isDynamic = false) {i : ℕ} (hi : Scanned events i)
    (hwrap : Wraps (eventAt events i)) :
    scanSingleBlockFast cfg events (buildScanlineMetaData events) = none := by
  obtain ⟨x, hx1, hx2, hgap⟩ := exists_gap hlen hdyn hi.1 hwrap
  -- the end points up to the gap come first
  have hsplit : buildScanlineMetaData events
      = (buildScanlineMetaData events).filter (fun m => m.addr ≤ x) ++
        (buildScanlineMetaData events).filter fun m => ¬ m.addr ≤ x := by
    have hsorted : (buildScanlineMetaData events).Pairwise fun a b => a.addr ≤ b.addr := by
      refine (build_pairwise hlen).imp fun {a b} hab => ?_
      rcases compareEvent_iff.mp hab with h | h
      · exact h.le
      · exact h.1.le
    generalize buildScanlineMetaData events = data at hsorted
    induction data with
    | nil => rfl
    | cons m data ih =>
      rw [List.pairwise_cons] at hsorted
      by_cases hm : m.addr ≤ x
      · simp only [List.filter_cons, hm, decide_true, if_true, not_true, decide_false,
          Bool.false_eq_true, if_false, List.cons_append]
        rw [← ih hsorted.2]
      · have hnil : data.filter (fun m => m.addr ≤ x) = [] := by
          rw [List.filter_eq_nil_iff]
          intro y hy
          have := hsorted.1 y hy
          simp only [decide_eq_true_eq]
          omega
        have hall : data.filter (fun m => ¬ m.addr ≤ x) = data := by
          rw [List.filter_eq_self]
          intro y hy
          have := hsorted.1 y hy
          simp only [decide_eq_true_eq]
          omega
        simp only [List.filter_cons, hm, decide_false, Bool.false_eq_true, if_false,
          not_false_eq_true, decide_true, if_true, hnil, hall, List.nil_append]
  rw [scanSingleBlockFast, Option.map_eq_none_iff]
  by_contra hsome
  obtain ⟨b, hb⟩ := Option.ne_none_iff_exists'.mp hsome
  rw [hsplit, List.foldlM_append] at hb
  obtain ⟨b', hb', -⟩ := Option.bind_eq_some_iff.mp hb
  have hcount := bucket_length hb' (decide (effOpType (eventAt events i) = .write))
    (effMemType (eventAt events i)) (eventAt events i).pipe
  rw [countIn_upTo hlen, countIn_upTo hlen] at hcount
  -- every start up to the gap has its end there too, and the wrapped event has only its end
  refine absurd (Finset.card_lt_card ?_) (show ¬ _ < _ from Nat.not_lt.mpr (Nat.le.intro
    ((Nat.add_comm _ _).trans hcount)))
  refine Finset.ssubset_iff_of_subset ?_ |>.mpr ?_
  · intro j hj
    rw [Finset.mem_filter, Finset.mem_range] at hj ⊢
    obtain ⟨h1, h2, h3, h4⟩ := hj
    refine ⟨h1, h2, h3, ?_⟩
    simp only [endPoint, if_true, Bool.false_eq_true, if_false] at h4 ⊢
    by_cases hwj : Wraps (eventAt events j)
    · unfold Wraps at hwj
      omega
    · have := hgap j h1 hwj
      omega
  · refine ⟨i, ?_, ?_⟩
    · rw [Finset.mem_filter, Finset.mem_range]
      exact ⟨hi.1, hi.2, ⟨rfl, rfl, rfl⟩, hx1⟩
    · rw [Finset.mem_filter]
      rintro ⟨-, -, -, h4⟩
      simp only [endPoint, if_true] at h4
      omega

/-- **The fast scans report what the generic scan reports**, on lists without dynamic events, if
and only if no computed interval wraps and the window of no racing pair of a pipe wraps. -/
theorem fast_scans_agree_iff (cfg : Platform) (events : List MemEvent)
    (hlen : events.length ≤ 2 ^ 32) (hdyn : ∀ e ∈ events, e.isDynamic = false) :
    (SamePairs
        (scanSinglePipeWindow events (isSinglePipeRaceEvent events) (buildScanlineMetaData events))
        (scanGeneric events (isSinglePipeRaceEvent events) (buildScanlineMetaData events)) ∧
      ∃ out, scanSingleBlockFast cfg events (buildScanlineMetaData events) = some out ∧
        SamePairs out (scanGeneric events (isInnerCoreRaceEvent cfg events)
          (buildScanlineMetaData events))) ↔
      (∀ i, Scanned events i → ¬ Wraps (eventAt events i)) ∧
        ∀ c h, SinglePipePair events c h →
          (eventAt events c).pipeSerialNo + maxSerialNumberDiff < 2 ^ 64 := by
  have hdyn : ∀ i, (eventAt events i).isDynamic = false := by
    intro i
    by_cases hi : i < events.length
    · have heq : eventAt events i = events.get ⟨i, hi⟩ := by simp [eventAt, hi]
      rw [heq]
      exact hdyn _ (List.get_mem _ _)
    · have hnone : events[i]? = none := List.getElem?_eq_none_iff.mpr (by omega)
      simp [eventAt, hnone]
  constructor
  · rintro ⟨hpipe, out, hout, -⟩
    have hno : ∀ i, Scanned events i → ¬ Wraps (eventAt events i) := by
      intro i hi hwrap
      rw [scanSingleBlockFast_none hlen hdyn hi hwrap] at hout
      cases hout
    exact ⟨hno, (scanSinglePipeWindow_same_iff hlen hno).mp hpipe⟩
  · rintro ⟨hno, hserial⟩
    exact ⟨(scanSinglePipeWindow_same_iff hlen hno).mpr hserial,
      scanSingleBlockFast_same cfg hlen hno⟩

theorem fast_scans_agree_iff_at :
    ∃ out, scanSingleBlockFast ⟨.aivec, .invalid⟩ [writeOf 0 32, writeOf 16 32]
        (buildScanlineMetaData [writeOf 0 32, writeOf 16 32]) = some out ∧
      SamePairs out (scanGeneric [writeOf 0 32, writeOf 16 32]
        (isInnerCoreRaceEvent ⟨.aivec, .invalid⟩ [writeOf 0 32, writeOf 16 32])
        (buildScanlineMetaData [writeOf 0 32, writeOf 16 32])) := by
  have hno : ∀ i < 2, ¬ Wraps (eventAt [writeOf 0 32, writeOf 16 32] i) ∧
      (eventAt [writeOf 0 32, writeOf 16 32] i).pipeSerialNo = 0 := by decide
  refine ((fast_scans_agree_iff ⟨.aivec, .invalid⟩ [writeOf 0 32, writeOf 16 32] (by decide)
    ?_).mpr ⟨fun i hi => (hno i hi.1).1, fun c h hp => ?_⟩).2
  · intro e he
    simp only [List.mem_cons, List.not_mem_nil, or_false] at he
    rcases he with rfl | rfl <;> rfl
  · rw [(hno c hp.1.1).2]
    decide

/-- One write whose end wraps past the last address: the generic scan reports nothing, and the
bucket scan takes the last element of an empty bucket. -/
theorem bucket_scan_fails :
    scanSingleBlockFast ⟨.aivec, .invalid⟩ [writeOf (2 ^ 64 - 32) 64]
        (buildScanlineMetaData [writeOf (2 ^ 64 - 32) 64]) = none ∧
      ¬ ∃ out, scanSingleBlockFast ⟨.aivec, .invalid⟩ [writeOf (2 ^ 64 - 32) 64]
          (buildScanlineMetaData [writeOf (2 ^ 64 - 32) 64]) = some out ∧
        SamePairs out (scanGeneric [writeOf (2 ^ 64 - 32) 64]
          (isInnerCoreRaceEvent ⟨.aivec, .invalid⟩ [writeOf (2 ^ 64 - 32) 64])
          (buildScanlineMetaData [writeOf (2 ^ 64 - 32) 64])) := by
  have hnone : scanSingleBlockFast ⟨.aivec, .invalid⟩ [writeOf (2 ^ 64 - 32) 64]
      (buildScanlineMetaData [writeOf (2 ^ 64 - 32) 64]) = none := by
    refine scanSingleBlockFast_none (by decide) (fun i => ?_) (i := 0) ⟨by decide, by decide⟩
      (by decide)
    rcases i with - | i <;> rfl
  refine ⟨hnone, ?_⟩
  rintro ⟨out, hout, -⟩
  rw [hnone] at hout
  cases hout

end MsSanitizer.MemEventChecker
