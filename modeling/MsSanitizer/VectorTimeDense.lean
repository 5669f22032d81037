import MsSanitizer.VectorTime
import Mathlib.Data.List.GetD
import Mathlib.Tactic.Linarith

/-!
# Sparse clocks refine dense ones

Both representations of a `VectorTime` are sorted lists of entries with default `1`
(`Wf`), and every operation is one of `SortedEntries`: `Get` is `look`, `Set` is `raise`,
`MergeMax` is `merge`, whichever of its three routes it takes. From this a clock refines the
dense vector that the same operations build (`sparse_refines_dense`).
-/

namespace MsSanitizer.VectorTime

open SortedEntries

/-- The shape of a clock: sorted, no component below `1`, and within the limits of the
representation in use. -/
structure Wf (t : VectorTime) : Prop where
  sorted : Sorted t.entries
  pos : ∀ e ∈ t.entries, 1 ≤ e.2
  inline : t.heap = false →
    t.heapEntries = [] ∧ t.inl.length ≤ inlineCap ∧ ∀ e ∈ t.inl, e.1 ≤ uint16Max
  onHeap : t.heap = true → t.inl = []

/-! ## The searches -/

/-- A position that splits a list at `k` is the lower bound. -/
lemma lowerBound_eq {l r : List (ℕ × ℕ)} {k : ℕ} (hl : ∀ e ∈ l, e.1 < k)
    (hr : ∀ e ∈ r, k ≤ e.1) : lowerBound (l ++ r) k = l.length := by
  induction l with
  | nil =>
    cases r with
    | nil => rfl
    | cons e r => rw [List.nil_append, lowerBound_cons, if_pos (hr e (by simp))]; rfl
  | cons e l ih =>
    rw [List.cons_append, lowerBound_cons, if_neg (by have := hl e (by simp); omega),
      ih fun x hx => hl x (by simp [hx]), List.length_cons]

/-- A sorted list splits at `k` into smaller keys, perhaps `k` itself, and larger keys. -/
lemma exists_split {l : List (ℕ × ℕ)} (hs : Sorted l) (k : ℕ) :
    ∃ a m b, l = a ++ m ++ b ∧ (∀ e ∈ a, e.1 < k) ∧ (∀ e ∈ b, k < e.1) ∧
      (m = [] ∨ ∃ v, m = [(k, v)]) := by
  induction l with
  | nil => exact ⟨[], [], [], rfl, by simp, by simp, .inl rfl⟩
  | cons e l ih =>
    rw [sorted_cons] at hs
    rcases lt_trichotomy e.1 k with h | h | h
    · obtain ⟨a, m, b, rfl, ha, hb, hm⟩ := ih hs.2
      refine ⟨e :: a, m, b, rfl, fun x hx => ?_, hb, hm⟩
      rcases List.mem_cons.mp hx with rfl | hx
      · exact h
      · exact ha x hx
    · exact ⟨[], [e], l, rfl, by simp, fun x hx => h ▸ hs.1 x hx, .inr ⟨e.2, by rw [← h]⟩⟩
    · refine ⟨[], [], e :: l, rfl, by simp, fun x hx => ?_, .inl rfl⟩
      rcases List.mem_cons.mp hx with rfl | hx
      · exact h
      · exact h.trans (hs.1 x hx)

/-- The binary search of a sorted list: in bounds that enclose the position of `k` it finds
the entry of `k`, or else the position that separates smaller from larger keys. -/
lemma search_spec {a m b : List (ℕ × ℕ)} {k : ℕ} (ha : ∀ e ∈ a, e.1 < k)
    (hb : ∀ e ∈ b, k < e.1) (hm : m = [] ∨ ∃ v, m = [(k, v)]) {lo hi : ℤ} (hlo0 : 0 ≤ lo)
    (hlo : lo ≤ a.length) (hhi : (a.length : ℤ) + m.length ≤ hi + 1)
    (hlen : hi < (a ++ m ++ b).length) :
    search (a ++ m ++ b) k lo hi = if m = [] then .insertAt a.length else .found a.length := by
  -- the key at a position tells on which side of the split the position lies
  have hkey : ∀ n : ℕ, n < (a ++ m ++ b).length →
      (n < a.length ∧ ((a ++ m ++ b).getD n (0, 0)).1 < k) ∨
      (n = a.length ∧ m ≠ [] ∧ ((a ++ m ++ b).getD n (0, 0)).1 = k) ∨
      (a.length + m.length ≤ n ∧ k < ((a ++ m ++ b).getD n (0, 0)).1) := by
    intro n hn
    rcases lt_or_ge n a.length with h | h
    · left
      refine ⟨h, ?_⟩
      rw [List.append_assoc, List.getD_append _ _ _ _ h, List.getD_eq_getElem _ _ h]
      exact ha _ (List.getElem_mem h)
    rcases lt_or_ge n (a.length + m.length) with h' | h'
    · right; left
      rcases hm with rfl | ⟨v, rfl⟩
      · simp at h'; omega
      · have hn' : n = a.length := by simp at h'; omega
        subst hn'
        simp
    · right; right
      refine ⟨h', ?_⟩
      have hn' : n - (a ++ m).length < b.length := by simp at hn ⊢; omega
      rw [List.getD_append_right _ _ _ _ (by simpa using h'), List.getD_eq_getElem _ _ hn']
      exact hb _ (List.getElem_mem hn')
  have hmlen : m.length ≤ 1 := by rcases hm with rfl | ⟨v, rfl⟩ <;> simp
  induction h : (hi + 1 - lo).toNat using Nat.strong_induction_on generalizing lo hi with
  | _ n ih =>
    rw [search]
    by_cases hle : lo ≤ hi
    · rw [if_pos hle]
      have hmid : ((lo + hi) / 2).toNat < (a ++ m ++ b).length := by omega
      rcases hkey _ hmid with ⟨h1, h2⟩ | ⟨h1, h2, h3⟩ | ⟨h1, h2⟩
      · rw [if_neg (by omega), if_pos h2]
        exact ih _ (by omega) (by omega) (by omega) hhi hlen rfl
      · rw [if_pos h3, if_neg h2, h1]
      · rw [if_neg (by omega), if_neg (by omega)]
        exact ih _ (by omega) hlo0 hlo (by omega) (by omega) rfl
    · -- the bounds have met: there is nothing between the smaller and the larger keys
      have hm0 : m = [] := by
        rw [← List.length_eq_zero_iff]
        omega
      rw [if_neg hle, if_pos hm0]
      congr
      rw [hm0, List.length_nil] at hhi
      omega

/-- What a sorted list reads and what a raise makes of it, at the split. -/
lemma look_split {a m b : List (ℕ × ℕ)} {k : ℕ} (ha : ∀ e ∈ a, e.1 < k) (hb : ∀ e ∈ b, k < e.1) :
    look 1 (a ++ m ++ b) k = if m = [] then 1 else look 1 (m ++ b) k := by
  rw [List.append_assoc, look_append k fun e he => (ha e he).ne]
  split_ifs with h
  · rw [h, List.nil_append]
    exact look_of_ne fun e he => (hb e he).ne'
  · rfl

lemma raise_split_nil {a b : List (ℕ × ℕ)} {k v : ℕ} (ha : ∀ e ∈ a, e.1 < k)
    (hb : ∀ e ∈ b, k < e.1) : raise (a ++ b) k v = a ++ (k, v) :: b := by
  induction a with
  | nil =>
    cases b with
    | nil => rfl
    | cons e b =>
      have he := hb e (by simp)
      rw [List.nil_append, raise_cons, if_neg (by omega), if_neg (by omega), List.nil_append]
  | cons e a ih =>
    rw [List.cons_append, raise_cons, if_pos (ha e (by simp)),
      ih fun x hx => ha x (by simp [hx]), List.cons_append]

lemma raise_split_cons {a b : List (ℕ × ℕ)} {k v w : ℕ} (ha : ∀ e ∈ a, e.1 < k) :
    raise (a ++ (k, w) :: b) k v = a ++ (k, max w v) :: b := by
  induction a with
  | nil => rw [List.nil_append, raise_cons, if_neg (by omega), if_pos rfl, List.nil_append]
  | cons e a ih =>
    rw [List.cons_append, raise_cons, if_pos (ha e (by simp)),
      ih fun x hx => ha x (by simp [hx]), List.cons_append]

lemma insertIdx_length (a b : List (ℕ × ℕ)) (x : ℕ × ℕ) :
    (a ++ b).insertIdx a.length x = a ++ x :: b := by
  induction a with
  | nil => rfl
  | cons y a ih => rw [List.cons_append, List.length_cons, List.insertIdx_succ_cons, ih,
      List.cons_append]

/-! ## Get and Set -/

/-- **`Get` reads the entries**, by binary search or by lower bound. -/
lemma Wf.get_eq {t : VectorTime} (h : Wf t) (i : ℕ) : t.get i = look 1 t.entries i := by
  obtain ⟨a, m, b, hl, ha, hb, hm⟩ := exists_split h.sorted i
  unfold VectorTime.get
  cases hh : t.heap with
  | true =>
    have hent : t.heapEntries = a ++ m ++ b := by rw [← hl, entries, hh]; rfl
    rw [if_pos rfl, hl, look_split ha hb, hent, List.append_assoc, lowerBound_eq ha]
    · rcases hm with rfl | ⟨v, rfl⟩
      · cases b with
        | nil => simp
        | cons e b =>
          have he := hb e (by simp)
          simp [show ¬ e.1 = i by omega]
      · simp [look_cons]
    · intro e he
      rcases List.mem_append.mp he with he | he
      · rcases hm with rfl | ⟨v, rfl⟩
        · cases he
        · simp only [List.mem_singleton] at he
          rw [he]
      · exact (hb e he).le
  | false =>
    obtain ⟨-, -, hidx⟩ := h.inline hh
    have hent : t.inl = a ++ m ++ b := by rw [← hl, entries, hh]; rfl
    rw [if_neg (by simp), hl, look_split ha hb]
    by_cases hi : uint16Max < i
    · -- no inline entry can have this index
      rw [if_pos hi]
      rcases hm with rfl | ⟨v, rfl⟩
      · rfl
      · have := hidx (i, v) (by rw [hent]; simp)
        omega
    · rw [if_neg hi, hent, search_spec ha hb hm le_rfl (by positivity) (by
        simp only [List.length_append]; push_cast; omega) (by omega)]
      rcases hm with rfl | ⟨v, rfl⟩
      · simp
      · simp [look_cons]

lemma Wf.one_le_get {t : VectorTime} (h : Wf t) (i : ℕ) : 1 ≤ t.get i := by
  rw [h.get_eq]
  exact le_look h.pos i

lemma Wf.raise_pos {t : VectorTime} (h : Wf t) {i v : ℕ} (hv : 1 ≤ v) {e : ℕ × ℕ}
    (he : e ∈ raise t.entries i v) : 1 ≤ e.2 := by
  have hlook := look_of_mem (d := 1) (h.sorted.raise i v) he
  rw [look_raise h.sorted i hv] at hlook
  rw [← hlook]
  split_ifs
  · exact le_max_of_le_right hv
  · exact le_look h.pos _

lemma setHeap_eq (t : VectorTime) (i v : ℕ) :
    setHeap t i v = { t with heapEntries := raise t.heapEntries i v } := by
  unfold setHeap raise
  cases hx : t.heapEntries[lowerBound t.heapEntries i]? with
  | none => rfl
  | some e =>
    by_cases he : e.1 = i
    · simp only [if_pos he]
      by_cases hv : e.2 < v
      · rw [if_pos hv, max_eq_right hv.le, he]
      · obtain ⟨hlt, hget⟩ := List.getElem?_eq_some_iff.mp hx
        have hsame : (i, e.2) = t.heapEntries[lowerBound t.heapEntries i] := by
          rw [hget, ← he]
        rw [if_neg hv, max_eq_left (not_lt.mp hv), hsame, List.set_getElem_self]
    · simp only [if_neg he]

lemma Wf.migrateToHeap {t : VectorTime} (h : Wf t) :
    Wf t.migrateToHeap ∧ t.migrateToHeap.heap = true ∧ t.migrateToHeap.entries = t.entries := by
  unfold VectorTime.migrateToHeap
  cases hh : t.heap with
  | true => exact ⟨h, hh, rfl⟩
  | false =>
    obtain ⟨hnil, -, -⟩ := h.inline hh
    have hent : t.entries = t.inl := by rw [entries, hh]; rfl
    have hs := h.sorted
    have hp := h.pos
    rw [hent] at hs hp
    rw [if_neg (by simp), hnil, hent]
    exact ⟨⟨hs, hp, by simp, by simp⟩, rfl, rfl⟩

lemma Wf.setHeap {t : VectorTime} (h : Wf t) (hh : t.heap = true) {i v : ℕ} (hv : 1 ≤ v) :
    Wf (t.setHeap i v) ∧ (t.setHeap i v).entries = raise t.entries i v := by
  have hent : t.entries = t.heapEntries := by rw [entries, hh]; rfl
  rw [setHeap_eq]
  have heq : ({ t with heapEntries := raise t.heapEntries i v } : VectorTime).entries
      = raise t.entries i v := by rw [hent]; simp [entries, hh]
  refine ⟨⟨?_, ?_, ?_, h.onHeap⟩, heq⟩
  · rw [heq]
    exact h.sorted.raise i v
  · rw [heq]
    exact fun e he => h.raise_pos hv he
  · simp [hh]

lemma Wf.setInline {t : VectorTime} (h : Wf t) (hh : t.heap = false) {i v : ℕ} (hv : 1 ≤ v)
    (hi : i ≤ uint16Max) :
    Wf (t.setInline i v) ∧ (t.setInline i v).entries = raise t.entries i v := by
  obtain ⟨hnil, hcap, hidx⟩ := h.inline hh
  have hent : t.entries = t.inl := by rw [entries, hh]; rfl
  obtain ⟨a, m, b, hl, ha, hb, hm⟩ := exists_split h.sorted i
  have hil : t.inl = a ++ m ++ b := hent ▸ hl
  have hmod : i % 2 ^ 16 = i := Nat.mod_eq_of_lt (by unfold uint16Max at hi; omega)
  -- any inline list with the raised entries will do
  have key : ∀ l, l = raise t.entries i v → l.length ≤ inlineCap →
      Wf { t with inl := l } ∧ ({ t with inl := l } : VectorTime).entries
        = raise t.entries i v := by
    intro l hlr hlen
    have heq : ({ t with inl := l } : VectorTime).entries = raise t.entries i v := by
      rw [← hlr]; simp [entries, hh]
    refine ⟨⟨?_, ?_, fun _ => ⟨hnil, hlen, fun e he => ?_⟩, by simp [hh]⟩, heq⟩
    · rw [heq]
      exact h.sorted.raise i v
    · rw [heq]
      exact fun e he => h.raise_pos hv he
    · rcases mem_raise (hlr ▸ he) with he | he
      · rw [he]; exact hi
      · exact hidx e (hent ▸ he)
  unfold VectorTime.setInline
  rw [hil, search_spec ha hb hm le_rfl (by positivity) (by
    simp only [List.length_append]; push_cast; omega) (by omega)]
  rcases hm with rfl | ⟨w, rfl⟩
  · rw [if_pos rfl]
    simp only [List.append_nil] at hil hl ⊢
    have hraise : raise t.entries i v = a ++ (i, v) :: b := by rw [hl, raise_split_nil ha hb]
    by_cases hlen : (a ++ b).length < inlineCap
    · rw [if_pos hlen, hmod]
      refine key _ ?_ ?_
      · rw [hraise, insertIdx_length]
      · rw [List.length_insertIdx]
        split_ifs <;> omega
    · obtain ⟨hw, hheap, hent'⟩ := h.migrateToHeap
      rw [if_neg hlen, ← hent']
      exact hw.setHeap hheap hv
  · have hraise : raise t.entries i v = a ++ (i, max w v) :: b := by
      rw [hl, List.append_assoc, List.singleton_append, raise_split_cons ha]
    have hget : (a ++ [(i, w)] ++ b).getD a.length (0, 0) = (i, w) := by simp
    rw [if_neg (by simp)]
    simp only [hget]
    by_cases hw : w < v
    · rw [if_pos hw]
      refine key _ ?_ ?_
      · rw [hraise, max_eq_right hw.le]
        simp
      · rw [List.length_set, ← hil]
        exact hcap
    · rw [if_neg hw]
      have hsame : raise t.entries i v = t.entries := by
        rw [hraise, max_eq_left (not_lt.mp hw), hl]
        simp
      exact ⟨h, hsame.symm⟩

/-- **`Set` raises the entries**, in whichever representation they end up. -/
lemma Wf.set {t : VectorTime} (h : Wf t) {i v : ℕ} (hv : 1 < v) :
    Wf (t.set i v) ∧ (t.set i v).entries = raise t.entries i v := by
  unfold VectorTime.set
  rw [if_neg (by omega)]
  cases hh : t.heap with
  | true =>
    rw [if_pos rfl]
    exact h.setHeap hh hv.le
  | false =>
    rw [if_neg (by simp)]
    by_cases hi : uint16Max < i
    · obtain ⟨hw, hheap, hent⟩ := h.migrateToHeap
      rw [if_pos hi, ← hent]
      exact hw.setHeap hheap hv.le
    · rw [if_neg hi]
      exact h.setInline hh hv.le (not_lt.mp hi)

lemma Wf.set_wf {t : VectorTime} (h : Wf t) (i v : ℕ) : Wf (t.set i v) := by
  by_cases hv : 1 < v
  · exact (h.set hv).1
  · rw [VectorTime.set, if_pos (not_lt.mp hv)]
    exact h

lemma Wf.get_set {t : VectorTime} (h : Wf t) (i v k : ℕ) :
    (t.set i v).get k = if k = i then max (t.get i) v else t.get k := by
  by_cases hv : 1 < v
  · obtain ⟨hw, hent⟩ := h.set hv
    rw [hw.get_eq, hent, look_raise h.sorted i hv.le, h.get_eq, h.get_eq]
  · have hone := h.one_le_get i
    rw [VectorTime.set, if_pos (not_lt.mp hv)]
    split_ifs with hk
    · rw [hk, max_eq_left (by omega)]
    · rfl

/-! ## Merging -/

lemma resultCount_eq (a b : List (ℕ × ℕ)) : resultCount a b = (merge a b).length := by
  induction a, b using merge.induct with
  | case1 b => cases b <;> simp [resultCount]
  | case2 x a => simp [resultCount]
  | case3 x a y b h ih =>
    rw [merge_cons, if_pos h, resultCount, if_pos h.le, if_neg (not_le.mpr h), ih,
      List.length_cons]
  | case4 x a y b h1 h2 ih =>
    rw [merge_cons, if_neg h1, if_pos h2, resultCount, if_neg (not_le.mpr h2), if_pos h2.le, ih,
      List.length_cons]
  | case5 x a y b h1 h2 ih =>
    rw [merge_cons, if_neg h1, if_neg h2, resultCount, if_pos (not_lt.mp h2),
      if_pos (not_lt.mp h1), ih, List.length_cons]

/-- The last entry of a non-empty prefix of a sorted list is above the others. -/
lemma take_succ_last {l : List (ℕ × ℕ)} (hs : Sorted l) {n : ℕ} (hn : n < l.length) :
    l.take (n + 1) = l.take n ++ [l.getD n (0, 0)] ∧
      ∀ e ∈ l.take n, e.1 < (l.getD n (0, 0)).1 := by
  have htake : l.take (n + 1) = l.take n ++ [l.getD n (0, 0)] := by
    rw [List.getD_eq_getElem _ _ hn, List.take_append_getElem hn]
  have hsub : Sorted (l.take (n + 1)) := hs.sublist (List.take_sublist _ _)
  rw [htake, sorted_append] at hsub
  exact ⟨htake, fun e he => hsub.2.2 e he _ (by simp)⟩

/-- A write at the position before the finished part extends that part. -/
lemma drop_set_pred {l : List (ℕ × ℕ)} {k : ℕ} (hk : 0 < k) (hkl : k ≤ l.length) (e : ℕ × ℕ) :
    (l.set (k - 1) e).drop (k - 1) = e :: l.drop k := by
  have hlt : k - 1 < (l.set (k - 1) e).length := by
    rw [List.length_set]
    omega
  rw [List.drop_eq_getElem_cons hlt, List.getElem_set_self, List.drop_set_of_lt (by omega)]
  congr 2
  omega

/-- **The merge in place.** While the first `i` entries are still those of `A`, the loop
turns the first `k` positions into the merge of the two prefixes: no entry is overwritten
before it is read, since a merge is never shorter than its left list. -/
lemma mergeBack_spec {A B : List (ℕ × ℕ)} (hA : Sorted A) (hB : Sorted B) {arr : List (ℕ × ℕ)}
    {i j k : ℕ} (hi : i ≤ A.length) (hj : j ≤ B.length) (harr : arr.take i = A.take i)
    (hk : k = (merge (A.take i) (B.take j)).length) (hkl : k ≤ arr.length) :
    mergeBack B arr i j k = merge (A.take i) (B.take j) ++ arr.drop k := by
  induction hn : i + j using Nat.strong_induction_on generalizing arr i j k with
  | _ n ih =>
    -- one step: position `k - 1` gets the last entry of the merge
    have step : ∀ {i' j' : ℕ} {e : ℕ × ℕ}, i' ≤ i → j' ≤ j → i' + j' < n →
        merge (A.take i) (B.take j) = merge (A.take i') (B.take j') ++ [e] →
        mergeBack B (arr.set (k - 1) e) i' j' (k - 1)
          = merge (A.take i) (B.take j) ++ arr.drop k := by
      intro i' j' e hi' hj' hlt hmerge
      have hk1 : k = (merge (A.take i') (B.take j')).length + 1 := by rw [hk, hmerge]; simp
      have hlow := length_le_merge (A.take i') (B.take j')
      rw [List.length_take] at hlow
      have harr' : (arr.set (k - 1) e).take i' = A.take i' := by
        have htt := congrArg (List.take i') harr
        rw [List.take_take, List.take_take, min_eq_left hi'] at htt
        rw [List.take_set_of_le (by omega), htt]
      rw [ih _ hlt (hi'.trans hi) (hj'.trans hj) harr' (by omega)
        (by rw [List.length_set]; omega) rfl, drop_set_pred (by omega) hkl, hmerge]
      simp
    cases i with
    | zero =>
      cases j with
      | zero =>
        rw [mergeBack]
        simp only [List.take_zero, merge_nil_left, List.length_nil] at hk ⊢
        rw [hk, List.drop_zero, List.nil_append]
      | succ j =>
        obtain ⟨htB, -⟩ := take_succ_last hB (by omega : j < B.length)
        rw [mergeBack]
        exact step le_rfl (by omega) (by omega) (by simpa using htB)
    | succ i =>
      obtain ⟨htA, hltA⟩ := take_succ_last hA (by omega : i < A.length)
      have hread : arr.getD i (0, 0) = A.getD i (0, 0) := by
        have h1 := congrArg (fun l => l.getD i (0, 0)) harr
        simpa [List.getD_eq_getElem?_getD] using h1
      cases j with
      | zero =>
        rw [mergeBack, hread]
        exact step (by omega) le_rfl (by omega) (by simpa using htA)
      | succ j =>
        obtain ⟨htB, hltB⟩ := take_succ_last hB (by omega : j < B.length)
        rw [mergeBack, hread]
        rcases lt_trichotomy (B.getD j (0, 0)).1 (A.getD i (0, 0)).1 with h | h | h
        · rw [if_pos h]
          refine step (by omega) le_rfl (by omega) ?_
          rw [htA, merge_append_left hltA]
          rw [htB]
          intro e he
          rcases List.mem_append.mp he with he | he
          · exact (hltB e he).trans h
          · rw [List.mem_singleton.mp he]
            exact h
        · rw [if_neg h.not_lt, if_neg h.symm.not_lt]
          refine step (by omega) (by omega) (by omega) ?_
          rw [htA, htB, merge_append_both h.symm hltA fun e he => h ▸ hltB e he]
        · rw [if_neg h.not_gt, if_pos h]
          refine step le_rfl (by omega) (by omega) ?_
          rw [htB, merge_append_right _ hltB]
          rw [htA]
          intro e he
          rcases List.mem_append.mp he with he | he
          · exact (hltA e he).trans h
          · rw [List.mem_singleton.mp he]
            exact h

/-- Merging whole lists in place, in a vector grown to the length of the result. -/
lemma mergeBack_grown {A B : List (ℕ × ℕ)} (hA : Sorted A) (hB : Sorted B) :
    mergeBack B (A ++ List.replicate ((merge A B).length - A.length) (0, 0)) A.length B.length
      (merge A B).length = merge A B := by
  have hlen := length_le_merge A B
  have hgrown : (A ++ List.replicate ((merge A B).length - A.length) ((0, 0) : ℕ × ℕ)).length
      = (merge A B).length := by
    rw [List.length_append, List.length_replicate]
    omega
  have htake : (A ++ List.replicate ((merge A B).length - A.length) ((0, 0) : ℕ × ℕ)).take
      A.length = A.take A.length := by simp
  rw [mergeBack_spec hA hB le_rfl le_rfl htake (by simp) hgrown.ge, List.take_length,
    List.take_length, List.drop_of_length_le hgrown.le, List.append_nil]

/-- A clock with the merged entries in either representation has the right shape. -/
lemma wf_of_merge {out inp t : VectorTime} (ho : Wf out) (hi : Wf inp)
    (ht : t.entries = merge out.entries inp.entries)
    (hin : t.heap = false →
      t.heapEntries = [] ∧ t.inl.length ≤ inlineCap ∧ ∀ e ∈ t.inl, e.1 ≤ uint16Max)
    (hheap : t.heap = true → t.inl = []) : Wf t := by
  have hs : Sorted t.entries := by
    rw [ht]
    exact ho.sorted.merge hi.sorted
  refine ⟨hs, fun e he => ?_, hin, hheap⟩
  have hlook := look_of_mem (d := 1) hs he
  rw [← hlook, ht, look_merge ho.sorted hi.sorted ho.pos hi.pos]
  exact le_max_of_le_left (le_look ho.pos _)

lemma Wf.mergeHeap {out inp : VectorTime} (ho : Wf out) (hh : out.heap = true) (hi : Wf inp) :
    Wf (out.mergeHeap inp) ∧ (out.mergeHeap inp).entries = merge out.entries inp.entries := by
  have hent : out.entries = out.heapEntries := by rw [entries, hh]; rfl
  have hso := ho.sorted
  rw [hent] at hso
  have hback : out.mergeHeap inp = { out with heapEntries := merge out.entries inp.entries } := by
    simp only [VectorTime.mergeHeap, resultCount_eq, hent, mergeBack_grown hso hi.sorted]
  have hent' : (out.mergeHeap inp).entries = merge out.entries inp.entries := by
    rw [hback]
    simp [entries, hh]
  refine ⟨wf_of_merge ho hi hent' (fun h => ?_) fun _ => ?_, hent'⟩
  · rw [hback] at h
    rw [hh] at h
    cases h
  · rw [hback]
    exact ho.onHeap hh

/-- **`MergeMax` merges the entries**, on each of its three routes. -/
lemma Wf.mergeMax {out inp : VectorTime} (ho : Wf out) (hi : Wf inp) :
    Wf (out.mergeMax inp) ∧ (out.mergeMax inp).entries = merge out.entries inp.entries := by
  unfold VectorTime.mergeMax
  by_cases he : inp.empty = true
  · have hnil : inp.entries = [] := by
      simp only [VectorTime.empty, Bool.and_eq_true, List.isEmpty_iff] at he
      unfold entries
      rw [he.1, he.2, ite_self]
    rw [if_pos he, hnil, merge_nil_right]
    exact ⟨ho, rfl⟩
  rw [if_neg he]
  unfold mergeInline
  by_cases hc : (out.heap || inp.heap || decide (inlineCap < out.inl.length + inp.inl.length))
      = true
  · obtain ⟨hw, hheap, hent⟩ := ho.migrateToHeap
    rw [if_pos hc, ← hent]
    exact hw.mergeHeap hheap hi
  · rw [if_neg hc]
    simp only [Bool.or_eq_true, decide_eq_true_eq, not_or, Bool.not_eq_true, not_lt] at hc
    obtain ⟨⟨hho, hhi⟩, hcap⟩ := hc
    have hent : ({ out with inl := merge out.inl inp.inl } : VectorTime).entries
        = merge out.entries inp.entries := by simp [entries, hho, hhi]
    obtain ⟨hnil, -, hidx⟩ := ho.inline hho
    obtain ⟨-, -, hidx'⟩ := hi.inline hhi
    refine ⟨wf_of_merge ho hi hent (fun _ => ⟨hnil, ?_, fun e he => ?_⟩) (by simp [hho]), hent⟩
    · exact (length_merge_le _ _).trans hcap
    · obtain ⟨x, hx, hk⟩ := exists_mem_of_mem_merge he
      rw [← hk]
      rcases hx with hx | hx
      · exact hidx x hx
      · exact hidx' x hx

lemma Wf.get_mergeMax {out inp : VectorTime} (ho : Wf out) (hi : Wf inp) (k : ℕ) :
    (out.mergeMax inp).get k = max (out.get k) (inp.get k) := by
  obtain ⟨hw, hent⟩ := ho.mergeMax hi
  rw [hw.get_eq, hent, look_merge ho.sorted hi.sorted ho.pos hi.pos, ho.get_eq, hi.get_eq]

/-- Merging the components of a sorted list one by one through `Set`. -/
lemma foldl_set_spec {l : List (ℕ × ℕ)} (hs : Sorted l) (hp : ∀ e ∈ l, 1 ≤ e.2)
    {out : VectorTime} (ho : Wf out) :
    Wf (l.foldl (fun t e => t.set e.1 e.2) out) ∧
      ∀ k, (l.foldl (fun t e => t.set e.1 e.2) out).get k = max (out.get k) (look 1 l k) := by
  induction l generalizing out with
  | nil => exact ⟨ho, fun k => (max_eq_left (ho.one_le_get k)).symm⟩
  | cons e l ih =>
    rw [sorted_cons] at hs
    obtain ⟨hw, hget⟩ := ih hs.2 (fun x hx => hp x (by simp [hx])) (ho.set_wf e.1 e.2)
    refine ⟨hw, fun k => ?_⟩
    rw [List.foldl_cons, hget, ho.get_set, look_cons]
    by_cases hk : k = e.1
    · have hnone : look 1 l k = 1 := look_of_ne fun x hx => (hk ▸ hs.1 x hx).ne'
      rw [if_pos hk, if_pos hk.symm, hnone, ← hk]
      have := hp e (by simp)
      omega
    · rw [if_neg hk, if_neg fun h => hk h.symm]

lemma Wf.mergeBySet {inp out : VectorTime} (hi : Wf inp) (ho : Wf out) :
    Wf (inp.mergeBySet out) ∧ ∀ k, (inp.mergeBySet out).get k = max (out.get k) (inp.get k) := by
  obtain ⟨hw, hget⟩ := foldl_set_spec hi.sorted hi.pos ho
  refine ⟨hw, fun k => ?_⟩
  rw [hi.get_eq]
  exact hget k

lemma Wf.updateVectorTime {inp out : VectorTime} (hi : Wf inp) (ho : Wf out) :
    Wf (updateVectorTime inp out) ∧
      ∀ k, (updateVectorTime inp out).get k = max (out.get k) (inp.get k) := by
  unfold VectorTime.updateVectorTime
  split_ifs
  · exact ⟨(ho.mergeMax hi).1, ho.get_mergeMax hi⟩
  · exact hi.mergeBySet ho

/-! ## The order of clocks -/

/-- A clock is at most another one if every component is. -/
instance : Preorder VectorTime := Preorder.lift VectorTime.get

lemma Wf.le_updateVectorTime_left {inp out : VectorTime} (hi : Wf inp) (ho : Wf out) :
    inp ≤ VectorTime.updateVectorTime inp out := by
  intro i
  rw [(hi.updateVectorTime ho).2 i]
  exact le_max_right _ _

lemma Wf.le_updateVectorTime_right {inp out : VectorTime} (hi : Wf inp) (ho : Wf out) :
    out ≤ VectorTime.updateVectorTime inp out := by
  intro i
  rw [(hi.updateVectorTime ho).2 i]
  exact le_max_left _ _

lemma Wf.updateLogicTime {t : VectorTime} (h : Wf t) (pipe : ℕ) :
    Wf (VectorTime.updateLogicTime t pipe) := h.set_wf _ _

/-- A tick never lowers a component, not even when the counter wraps. -/
lemma Wf.le_updateLogicTime {t : VectorTime} (h : Wf t) (pipe : ℕ) :
    t ≤ VectorTime.updateLogicTime t pipe := by
  intro i
  rw [VectorTime.updateLogicTime, h.get_set]
  split_ifs with hi
  · rw [hi]
    exact le_max_left _ _
  · exact le_rfl

/-! ## From a dense vector -/

lemma kept_ge {full : List ℕ} {n : ℕ} {e : ℕ × ℕ} (he : e ∈ kept full n) : n ≤ e.1 := by
  induction full generalizing n with
  | nil => cases he
  | cons v full ih =>
    rw [kept] at he
    split_ifs at he with hv
    · rcases List.mem_cons.mp he with rfl | he
      · exact le_rfl
      · exact (ih he).trans' (by omega)
    · exact (ih he).trans' (by omega)

lemma kept_sorted (full : List ℕ) (n : ℕ) : Sorted (kept full n) := by
  induction full generalizing n with
  | nil => exact sorted_nil
  | cons v full ih =>
    rw [kept]
    split_ifs
    · rw [sorted_cons]
      exact ⟨fun e he => kept_ge he, ih _⟩
    · exact ih _

lemma kept_pos {full : List ℕ} (hp : ∀ v ∈ full, 1 ≤ v) {n : ℕ} {e : ℕ × ℕ}
    (he : e ∈ kept full n) : 1 ≤ e.2 := by
  induction full generalizing n with
  | nil => cases he
  | cons v full ih =>
    rw [kept] at he
    split_ifs at he
    · rcases List.mem_cons.mp he with rfl | he
      · exact hp v (by simp)
      · exact ih (fun w hw => hp w (by simp [hw])) he
    · exact ih (fun w hw => hp w (by simp [hw])) he

lemma look_kept (full : List ℕ) (n k : ℕ) : look 1 (kept full n) (n + k) = full.getD k 1 := by
  induction full generalizing n k with
  | nil => simp [kept]
  | cons v full ih =>
    cases k with
    | zero =>
      have hnone : look 1 (kept full (n + 1)) n = 1 :=
        look_of_ne fun e he => by have := kept_ge he; omega
      rw [kept]
      by_cases hv : v = 1
      · simpa [hv] using hnone
      · simp [hv, look_cons]
    | succ k =>
      have hih := ih (n + 1) k
      rw [show n + 1 + k = n + (k + 1) by omega] at hih
      rw [List.getD_cons_succ, ← hih, kept]
      split_ifs with hv
      · rw [look_cons, if_neg (by omega)]
      · rfl

lemma fromFull_spec {full : List ℕ} (hp : ∀ v ∈ full, 1 ≤ v) {t : VectorTime}
    (ht : fromFull full = some t) : Wf t ∧ ∀ k, t.get k = full.getD k 1 := by
  have hread : ∀ t : VectorTime, Wf t → t.entries = kept full 0 →
      Wf t ∧ ∀ k, t.get k = full.getD k 1 := by
    intro t hw hent
    refine ⟨hw, fun k => ?_⟩
    have h := look_kept full 0 k
    rw [Nat.zero_add] at h
    rw [hw.get_eq, hent, h]
  have hs := kept_sorted full 0
  have hpos := fun e (he : e ∈ kept full 0) => kept_pos hp he
  unfold fromFull at ht
  split_ifs at ht with h1 h2
  · -- the inline indexes fit in 16 bits
    have hmap : (kept full 0).map (fun e => (e.1 % 2 ^ 16, e.2)) = kept full 0 := by
      refine (List.map_congr_left fun e he => ?_).trans (List.map_id _)
      have hidx := h2.2 e he
      unfold uint16Max at hidx
      rw [Nat.mod_eq_of_lt (by omega)]
      rfl
    cases ht
    rw [hmap]
    exact hread _ ⟨hs, hpos, fun _ => ⟨rfl, h2⟩, by simp⟩ rfl
  · cases ht
    exact hread _ ⟨hs, hpos, by simp, fun _ => rfl⟩ rfl

/-! ## The refinement -/

/-- Two clocks are equal for `operator==` when they read the same everywhere. -/
lemma Wf.eq_iff {t u : VectorTime} (ht : Wf t) (hu : Wf u) :
    t.eq u = true ↔ ∀ i, t.get i = u.get i := by
  have hall : ∀ {t u : VectorTime}, t.equalTo u = true ↔ ∀ e ∈ t.entries, u.get e.1 = e.2 := by
    intro t u
    simp [equalTo]
  rw [VectorTime.eq, Bool.and_eq_true, hall, hall]
  constructor
  · rintro ⟨h1, h2⟩ i
    by_cases hi : ∃ e ∈ t.entries, e.1 = i
    · obtain ⟨e, he, rfl⟩ := hi
      rw [h1 e he, ht.get_eq, look_of_mem ht.sorted he]
    by_cases hi' : ∃ e ∈ u.entries, e.1 = i
    · obtain ⟨e, he, rfl⟩ := hi'
      rw [h2 e he, hu.get_eq, look_of_mem hu.sorted he]
    · push Not at hi hi'
      rw [ht.get_eq, hu.get_eq, look_of_ne hi, look_of_ne hi']
  · intro h
    refine ⟨fun e he => ?_, fun e he => ?_⟩
    · rw [← h, ht.get_eq, look_of_mem ht.sorted he]
    · rw [h, hu.get_eq, look_of_mem hu.sorted he]

/-- A clock beside the dense vector that the same operations build. A dense `Set` keeps the
larger value; a tick that would leave 32 bits wraps to `0` and so changes nothing. -/
inductive Built : VectorTime → (ℕ → ℕ) → Prop
  | default : Built {} fun _ => 1
  | set {t d} (h : Built t d) (i v : ℕ) :
      Built (t.set i v) (Function.update d i (max (d i) v))
  | updateLogicTime {t d} (h : Built t d) (pipe : ℕ) :
      Built (t.updateLogicTime pipe)
        (Function.update d pipe (max (d pipe) ((d pipe + 1) % 2 ^ 32)))
  | updateVectorTime {t u d e} (h : Built t d) (h' : Built u e) :
      Built (updateVectorTime t u) fun i => max (e i) (d i)
  | mergeMax {t u d e} (h : Built t d) (h' : Built u e) :
      Built (t.mergeMax u) fun i => max (d i) (e i)
  | fromFull {t} (full : List ℕ) (hp : ∀ v ∈ full, 1 ≤ v) (ht : VectorTime.fromFull full = some t) :
      Built t fun i => full.getD i 1

lemma wf_default : Wf {} := ⟨sorted_nil, by simp [entries], by simp, by simp⟩

/-- Every clock that is built has its shape and reads its dense vector. -/
lemma Built.spec {t : VectorTime} {d : ℕ → ℕ} (h : Built t d) : Wf t ∧ ∀ i, t.get i = d i := by
  have hset : ∀ {t : VectorTime} {d : ℕ → ℕ}, Wf t → (∀ i, t.get i = d i) → ∀ i v k,
      (t.set i v).get k = Function.update d i (max (d i) v) k := by
    intro t d hw hget i v k
    rw [hw.get_set, Function.update_apply, hget, hget]
  induction h with
  | default => exact ⟨wf_default, fun i => wf_default.get_eq i⟩
  | set _ i v ih => exact ⟨ih.1.set_wf i v, hset ih.1 ih.2 i v⟩
  | @updateLogicTime t d _ pipe ih =>
    refine ⟨ih.1.set_wf pipe _, ?_⟩
    unfold VectorTime.updateLogicTime
    rw [ih.2]
    exact hset ih.1 ih.2 pipe _
  | updateVectorTime _ _ ih ih' =>
    obtain ⟨hw, hget⟩ := ih.1.updateVectorTime ih'.1
    exact ⟨hw, fun i => by rw [hget, ih.2, ih'.2]⟩
  | mergeMax _ _ ih ih' =>
    exact ⟨(ih.1.mergeMax ih'.1).1, fun i => by rw [ih.1.get_mergeMax ih'.1, ih.2, ih'.2]⟩
  | fromFull full hp ht => exact fromFull_spec hp ht

/-- **The sparse clock refines the dense one.** However two clocks were built, each reads its
dense vector, `MergeMax` is the pointwise maximum and agrees with merging through `Set`, and
the clocks compare equal exactly when they read the same at every index. -/
theorem sparse_refines_dense {t u : VectorTime} {d e : ℕ → ℕ} (ht : Built t d) (hu : Built u e) :
    (∀ i, t.get i = d i) ∧
      (∀ i, (t.mergeMax u).get i = max (d i) (e i)) ∧
      (∀ i, (t.mergeMax u).get i = (u.mergeBySet t).get i) ∧
      (t.mergeMax u).eq (u.mergeBySet t) = true ∧
      (t.eq u = true ↔ ∀ i, t.get i = u.get i) := by
  obtain ⟨htw, htd⟩ := ht.spec
  obtain ⟨huw, hud⟩ := hu.spec
  obtain ⟨hsw, hsd⟩ := huw.mergeBySet htw
  have hagree : ∀ i, (t.mergeMax u).get i = (u.mergeBySet t).get i := by
    intro i
    rw [htw.get_mergeMax huw, hsd]
  refine ⟨htd, fun i => ?_, hagree, ?_, htw.eq_iff huw⟩
  · rw [htw.get_mergeMax huw, htd, hud]
  · exact ((htw.mergeMax huw).1.eq_iff hsw).mpr hagree

/-- A clock with an index above 65535 merged with an inline one. -/
theorem sparse_refines_dense_at :
    (((VectorTime.set {} 70000 5).mergeMax (VectorTime.set {} 3 2)).get 3) = 2 := by
  have hd := Built.default
  exact ((sparse_refines_dense (hd.set 70000 5) (hd.set 3 2)).2.1 3).trans (by simp)

end MsSanitizer.VectorTime
