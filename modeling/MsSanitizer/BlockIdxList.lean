import MsSanitizer.ConsecutiveRuns
import MsSanitizer.Words

/-!
# The text of a list of blocks

A report names the blocks of its errors. They are sorted, and runs of consecutive blocks are
written as ranges. The loop keeps the place and the block where the run it is in began, and
writes a run when a block does not continue it; the last one is written behind the loop.
-/

namespace MsSanitizer.BlockIdxList

open Words ConsecutiveRuns

/-- What is written for the run from `start`, which began at place `startIdx` and ends before
`idx`. -/
def writeRun (idx startIdx start : ℕ) : String :=
  if idx = startIdx + 1 then toString start
  else toString start ++ "-" ++ toString (sub64 (sub64 (add64 start idx) startIdx) 1)

structure ScanState where
  os : String
  startIdx : ℕ
  start : ℕ
  deriving DecidableEq, Repr

def scanStep (list : List ℕ) (s : ScanState) (idx : ℕ) : ScanState :=
  if idx - s.startIdx = sub64 (list.getD idx 0) s.start then s
  else
    { os := s.os ++ writeRun idx s.startIdx s.start ++ ","
      startIdx := idx
      start := list.getD idx 0 }

/-- The places from `1` up to `idx`. -/
def scan (list : List ℕ) (idx : ℕ) : ScanState :=
  (List.range' 1 (idx - 1)).foldl (scanStep list) ⟨"", 0, list.getD 0 0⟩

/-- `operator<<` for a `BlockIdxList`: what it writes. -/
def text (blockIdxList : List ℕ) : String :=
  let list := blockIdxList.mergeSort
  if list.length = 0 then ""
  else if list.length = 1 then toString (list.getD 0 0)
  else
    let s := scan list list.length
    s.os ++ writeRun list.length s.startIdx s.start

/-! ## Runs and their text -/

def showRun (r : Run) : String :=
  if r.first = r.last then toString r.first else toString r.first ++ "-" ++ toString r.last

def showRuns (runs : List Run) : String := ",".intercalate (runs.map showRun)

lemma intercalate_concat (xs : List String) (x y : String) :
    ",".intercalate (xs ++ [x] ++ [y]) = ",".intercalate (xs ++ [x]) ++ "," ++ y := by
  induction xs with
  | nil => rfl
  | cons z xs ih =>
    rw [List.append_assoc, List.cons_append, String.intercalate_cons_of_ne_nil (by simp),
      ← List.append_assoc, ih, List.cons_append, String.intercalate_cons_of_ne_nil (by simp)]
    simp only [String.append_assoc]

/-- What the loop has before place `idx`: the text of the runs before the one it is in, each with
its comma, and the numbers since `startIdx` without a gap. -/
structure Scanned (list : List ℕ) (idx : ℕ) (s : ScanState) (runs : List Run) : Prop where
  os : ∀ y, ",".intercalate (runs.map showRun ++ [y]) = s.os ++ y
  maximal : Maximal runs
  gap : ∀ r ∈ runs, r.last + 1 < s.start
  lt : s.startIdx < idx
  expand : expand runs = list.take s.startIdx
  getElem : ∀ k (hk : k < list.length), s.startIdx ≤ k → k < idx →
    list[k] = s.start + (k - s.startIdx)

variable {list : List ℕ}

def ScanState.run (s : ScanState) (idx : ℕ) : Run :=
  ⟨s.start, s.start + (idx - 1 - s.startIdx), Nat.le_add_right _ _⟩

lemma Scanned.last_lt {idx : ℕ} {s : ScanState} {runs : List Run} (h : Scanned list idx s runs)
    (hidx : idx ≤ list.length) (hbound : ∀ x ∈ list, x < 2 ^ 64) : (s.run idx).last < 2 ^ 64 := by
  have hlt := h.lt
  have hlast := h.getElem (idx - 1) (by omega) (by omega) (by omega)
  have hmem := hbound _ (List.getElem_mem (show idx - 1 < list.length by omega))
  rw [hlast] at hmem
  exact hmem

lemma Scanned.writeRun_eq {idx : ℕ} {s : ScanState} {runs : List Run} (h : Scanned list idx s runs)
    (hidx : idx ≤ list.length) (hbound : ∀ x ∈ list, x < 2 ^ 64) (hlen : list.length ≤ 2 ^ 64) :
    writeRun idx s.startIdx s.start = showRun (s.run idx) := by
  have hlt := h.lt
  have hlast := h.last_lt hidx hbound
  simp only [ScanState.run] at hlast
  have hend : sub64 (sub64 (add64 s.start idx) s.startIdx) 1 = (s.run idx).last := by
    simp only [sub64, add64, ScanState.run]
    omega
  rw [writeRun, hend, showRun]
  by_cases hone : idx = s.startIdx + 1
  · rw [if_pos hone, if_pos]
    · rfl
    · simp only [ScanState.run]
      omega
  · rw [if_neg hone, if_neg]
    · rfl
    · simp only [ScanState.run]
      omega

/-- The runs with the one the loop is in are those of the list up to `idx`. -/
lemma Scanned.close {idx : ℕ} {s : ScanState} {runs : List Run} (h : Scanned list idx s runs)
    (hidx : idx ≤ list.length) :
    Maximal (runs ++ [s.run idx]) ∧
      ConsecutiveRuns.expand (runs ++ [s.run idx]) = list.take idx := by
  have hlt := h.lt
  refine ⟨maximal_concat h.maximal h.gap, ?_⟩
  have helems := elems_eq_of_getElem list (i := s.startIdx) (j := idx - 1) (a := s.start)
    (by omega) (by omega) fun k hk h1 h2 => h.getElem k hk h1 (by omega)
  rw [show idx - 1 + 1 = idx by omega] at helems
  rw [expand_concat, h.expand, ScanState.run, helems]
  conv_rhs => rw [← List.take_append_drop s.startIdx (list.take idx)]
  rw [List.take_take, min_eq_left hlt.le]

lemma Scanned.step {idx : ℕ} {s : ScanState} {runs : List Run} (h : Scanned list idx s runs)
    (hidx : idx < list.length) (hsorted : list.Pairwise (· < ·)) (hbound : ∀ x ∈ list, x < 2 ^ 64)
    (hlen : list.length ≤ 2 ^ 64) :
    ∃ runs', Scanned list (idx + 1) (scanStep list s idx) runs' := by
  have hlt := h.lt
  have hget : list.getD idx 0 = list[idx] := by
    rw [List.getD_eq_getElem?_getD, List.getElem?_eq_getElem hidx, Option.getD_some]
  have hx := hbound _ (List.getElem_mem hidx)
  have hlast := h.getElem (idx - 1) (by omega) (by omega) (by omega)
  have hprev : list[idx - 1] < list[idx] :=
    List.pairwise_iff_getElem.mp hsorted _ _ _ _ (by omega)
  have hsub : sub64 (list.getD idx 0) s.start = list[idx] - s.start := by
    rw [hget, sub64]
    omega
  rw [scanStep, hsub]
  by_cases hnext : idx - s.startIdx = list[idx] - s.start
  · -- the block continues the run
    rw [if_pos hnext]
    refine ⟨runs, { h with lt := by omega, getElem := fun k hk h1 h2 => ?_ }⟩
    rcases Nat.lt_or_ge k idx with hk' | hk'
    · exact h.getElem k hk h1 hk'
    · obtain rfl : k = idx := by omega
      omega
  · rw [if_neg hnext]
    obtain ⟨hmax, hexpand⟩ := h.close hidx.le
    refine ⟨runs ++ [s.run idx], ?_, hmax, fun r hr => ?_, Nat.lt_succ_self idx, hexpand,
      fun k hk h1 h2 => ?_⟩
    · intro y
      rw [List.map_append, List.map_singleton, intercalate_concat, h.os,
        h.writeRun_eq hidx.le hbound hlen, String.append_assoc]
    · have hstart : s.start + (idx - 1 - s.startIdx) + 1 < list.getD idx 0 := by
        rw [hget]
        omega
      rcases List.mem_append.mp hr with hr | hr
      · have := h.gap r hr
        simp only
        omega
      · rw [List.mem_singleton.mp hr]
        exact hstart
    · simp only at h1
      obtain rfl : k = idx := by omega
      simp only [hget, Nat.sub_self, Nat.add_zero]

lemma scanned_scan (hsorted : list.Pairwise (· < ·)) (hbound : ∀ x ∈ list, x < 2 ^ 64)
    (hlen : list.length ≤ 2 ^ 64) (idx : ℕ) (hidx : idx < list.length) :
    ∃ runs, Scanned list (idx + 1) (scan list (idx + 1)) runs := by
  induction idx with
  | zero =>
    refine ⟨[], fun y => ?_, List.Pairwise.nil, by simp, Nat.one_pos, rfl, fun k hk h1 h2 => ?_⟩
    · rw [scan, List.map_nil, List.nil_append, String.intercalate_singleton]
      exact (String.empty_append).symm
    · obtain rfl : k = 0 := by omega
      simp [scan, hk]
  | succ idx ih =>
    obtain ⟨runs, h⟩ := ih (by omega)
    obtain ⟨runs', h'⟩ := h.step hidx hsorted hbound hlen
    refine ⟨runs', ?_⟩
    rw [scan, show idx + 1 + 1 - 1 = idx + 1 by omega, List.range'_concat, List.foldl_append,
      List.foldl_cons, List.foldl_nil, show 1 + 1 * idx = idx + 1 by omega]
    exact h'

/-- A list that is not empty is written run by run, the last run without a comma. -/
lemma text_eq {blockIdxList : List ℕ} (h : 0 < list.length)
    (hlist : list = blockIdxList.mergeSort) :
    text blockIdxList = (scan list list.length).os ++
      writeRun list.length (scan list list.length).startIdx (scan list list.length).start := by
  unfold text
  simp only [← hlist]
  rw [if_neg h.ne']
  by_cases hone : list.length = 1
  · rw [if_pos hone, hone]
    exact (String.empty_append).symm
  · rw [if_neg hone]

/-- **The text of a list of blocks.** It is the text of runs, numbers or ranges with commas
between them, whose expansion is the given blocks in ascending order, and the runs are maximal. -/
theorem text_runs (blockIdxList : List ℕ) (hnodup : blockIdxList.Nodup)
    (hbound : ∀ x ∈ blockIdxList, x < 2 ^ 64) :
    ∃ runs : List Run, text blockIdxList = showRuns runs ∧ Maximal runs ∧
      (expand runs).Pairwise (· < ·) ∧ (expand runs).Perm blockIdxList := by
  obtain ⟨list, hlist⟩ : ∃ list, list = blockIdxList.mergeSort := ⟨_, rfl⟩
  have hperm : list.Perm blockIdxList := hlist ▸ List.mergeSort_perm _ _
  have hsorted : list.Pairwise (· < ·) := by
    have hle : list.Pairwise (· ≤ ·) := by
      rw [hlist]
      refine (List.pairwise_mergeSort ?_ ?_ blockIdxList).imp fun h => of_decide_eq_true h
      · intro a b c hab hbc
        exact decide_eq_true ((of_decide_eq_true hab).trans (of_decide_eq_true hbc))
      · intro a b
        rw [Bool.or_eq_true, decide_eq_true_eq, decide_eq_true_eq]
        exact le_total a b
    exact (hle.and (hperm.nodup_iff.mpr hnodup)).imp fun h => lt_of_le_of_ne h.1 h.2
  have hbound' : ∀ x ∈ list, x < 2 ^ 64 := fun x hx => hbound x (hperm.mem_iff.mp hx)
  have hlen : list.length ≤ 2 ^ 64 := by
    rw [← List.toFinset_card_of_nodup (hperm.nodup_iff.mpr hnodup), ← Finset.card_range (2 ^ 64)]
    refine Finset.card_le_card fun x hx => ?_
    exact Finset.mem_range.mpr (hbound' x (List.mem_toFinset.mp hx))
  rcases Nat.eq_zero_or_pos list.length with hzero | hpos
  · refine ⟨[], ?_, List.Pairwise.nil, List.Pairwise.nil, ?_⟩
    · rw [text, ← hlist, if_pos hzero]
      rfl
    · rw [List.length_eq_zero_iff.mp hzero] at hperm
      exact hperm
  · obtain ⟨runs, h⟩ := scanned_scan hsorted hbound' hlen (list.length - 1) (by omega)
    rw [Nat.sub_add_cancel hpos] at h
    obtain ⟨hmax, hexpand⟩ := h.close le_rfl
    rw [List.take_length] at hexpand
    refine ⟨_, ?_, hmax, hexpand.symm ▸ hsorted, hexpand.symm ▸ hperm⟩
    rw [text_eq hpos hlist, showRuns, List.map_append, List.map_singleton, h.os,
      h.writeRun_eq le_rfl hbound' hlen]

theorem text_runs_gap : ∃ runs : List Run, text [5, 3, 1, 4] = showRuns runs ∧ Maximal runs ∧
    (expand runs).Pairwise (· < ·) ∧ (expand runs).Perm [5, 3, 1, 4] :=
  text_runs [5, 3, 1, 4] (by decide) (by decide)

end MsSanitizer.BlockIdxList
