import Mathlib.Data.List.Induction
import Mathlib.Order.Lattice
import Mathlib.Logic.Function.Basic
import Mathlib.Tactic.SplitIfs

/-!
# Stable sorting by counting

One pass of a counting sort, as it is written over arrays: count the items of each key, turn
the counts into start positions by prefix sums, and put the items one after another at the
position of their key, which then moves on. `pass_stable` says what it does: the result is
sorted by the key, and the items of one key keep their order. `StableSort.trans` combines two
passes to one by a compound key, the step of a radix sort that starts with the lowest digit.
-/

namespace MsSanitizer.CountingSort

variable {α : Type*}

/-- `ys` is `xs` sorted by `key`, with items of equal key in the order they had. -/
structure StableSort (key : α → ℕ) (xs ys : List α) : Prop where
  sorted : ys.Pairwise fun a b => key a ≤ key b
  same : ∀ k, ys.filter (fun x => key x = k) = xs.filter fun x => key x = k

section Stable

variable {key : α → ℕ} {xs ys zs : List α}

lemma StableSort.mem_iff (h : StableSort key xs ys) {x : α} : x ∈ ys ↔ x ∈ xs := by
  have hsame := h.same (key x)
  constructor
  · intro hx
    have hx : x ∈ ys.filter fun y => key y = key x := List.mem_filter.mpr ⟨hx, by simp⟩
    rw [hsame] at hx
    exact (List.mem_filter.mp hx).1
  · intro hx
    have hx : x ∈ xs.filter fun y => key y = key x := List.mem_filter.mpr ⟨hx, by simp⟩
    rw [← hsame] at hx
    exact (List.mem_filter.mp hx).1

/-- A list that is sorted by a key and whose classes are related is related in all pairs, by
the key first. -/
lemma pairwise_lex {R : α → α → Prop} (hkey : ys.Pairwise fun a b => key a ≤ key b)
    (hclass : ∀ k, (ys.filter fun x => key x = k).Pairwise R) :
    ys.Pairwise fun a b => key a < key b ∨ key a = key b ∧ R a b := by
  induction ys with
  | nil => exact List.Pairwise.nil
  | cons y ys ih =>
    rw [List.pairwise_cons] at hkey ⊢
    refine ⟨fun z hz => ?_, ih hkey.2 fun k => ?_⟩
    · rcases (hkey.1 z hz).lt_or_eq with hlt | heq
      · exact .inl hlt
      · refine .inr ⟨heq, ?_⟩
        have hy := hclass (key y)
        rw [List.filter_cons_of_pos (by simp), List.pairwise_cons] at hy
        exact hy.1 z (List.mem_filter.mpr ⟨hz, by simp [heq]⟩)
    · have hk := hclass k
      rw [List.filter_cons] at hk
      split_ifs at hk
      · exact (List.pairwise_cons.mp hk).2
      · exact hk

/-- Sorting by a key refines an order the list had before. -/
lemma StableSort.pairwise {R : α → α → Prop} (h : StableSort key xs ys) (hR : xs.Pairwise R) :
    ys.Pairwise fun a b => key a < key b ∨ key a = key b ∧ R a b := by
  refine pairwise_lex h.sorted fun k => ?_
  rw [h.same k]
  exact hR.filter _

/-- **Two passes.** A pass by a higher digit after a sort by the lower ones sorts by both. -/
lemma StableSort.trans {lo hi : α → ℕ} {B : ℕ} (hB : ∀ x, lo x < B) (h : StableSort lo xs ys)
    (h' : StableSort hi ys zs) : StableSort (fun x => hi x * B + lo x) xs zs := by
  have hkey : ∀ {x : α} {k : ℕ}, hi x * B + lo x = k ↔ hi x = k / B ∧ lo x = k % B := by
    intro x k
    have hx := hB x
    constructor
    · rintro rfl
      rw [Nat.mul_comm, Nat.mul_add_div (by omega), Nat.mul_add_mod, Nat.div_eq_of_lt hx,
        Nat.mod_eq_of_lt hx]
      exact ⟨rfl, rfl⟩
    · rintro ⟨h1, h2⟩
      rw [h1, h2, Nat.mul_comm]
      exact Nat.div_add_mod k B
  constructor
  · refine (h'.pairwise h.sorted).imp ?_
    rintro a b (hlt | ⟨heq, hle⟩)
    · have ha := hB a
      have hmul : (hi a + 1) * B ≤ hi b * B := Nat.mul_le_mul_right B hlt
      rw [Nat.add_mul, Nat.one_mul] at hmul
      omega
    · rw [heq]
      omega
  · intro k
    have hsplit : ∀ l : List α, l.filter (fun x => hi x * B + lo x = k)
        = (l.filter fun x => hi x = k / B).filter fun x => lo x = k % B := by
      intro l
      rw [List.filter_filter]
      refine List.filter_congr fun x _ => ?_
      rw [decide_eq_decide.mpr hkey, Bool.decide_and, Bool.and_comm]
    have hcomm : ∀ l : List α, ((l.filter fun x => hi x = k / B).filter fun x => lo x = k % B)
        = (l.filter fun x => lo x = k % B).filter fun x => hi x = k / B := by
      intro l
      rw [List.filter_filter, List.filter_filter]
      exact List.filter_congr fun x _ => Bool.and_comm _ _
    rw [hsplit, h'.same, hcomm, h.same, ← hcomm, ← hsplit]

/-- Sorting by a key that is the same everywhere changes nothing. -/
lemma StableSort.refl_zero (xs : List α) : StableSort (fun _ => 0) xs xs :=
  ⟨List.pairwise_of_forall fun _ _ => le_rfl, fun _ => rfl⟩

lemma StableSort.congr {key' : α → ℕ} (h : StableSort key xs ys) (hk : ∀ x, key' x = key x) :
    StableSort key' xs ys := by
  have heq : key' = key := funext hk
  rwa [heq]

end Stable

/-! ## The pass -/

def countKeys (key : α → ℕ) (data : List α) : ℕ → ℕ :=
  data.foldl (fun count x => Function.update count (key x + 1) (count (key x + 1) + 1))
    fun _ => 0

/-- Sums of the counts from the left, for the first `n` places after place `0`. -/
def prefixSums (n : ℕ) (count : ℕ → ℕ) : ℕ → ℕ :=
  (List.range n).foldl (fun count i => Function.update count (i + 1) (count (i + 1) + count i))
    count

/-- Puts each item at the position of its key and moves that position on. -/
def scatter (key : α → ℕ) (data : List α) (count : ℕ → ℕ) (tmp : List α) : List α :=
  (data.foldl (fun (s : List α × (ℕ → ℕ)) x =>
    (s.1.set (s.2 (key x)) x, Function.update s.2 (key x) (s.2 (key x) + 1))) (tmp, count)).1

/-- One pass, for keys below `n`. -/
def pass (key : α → ℕ) (n : ℕ) (data tmp : List α) : List α :=
  scatter key data (prefixSums n (countKeys key data)) tmp

section Pass

variable {key : α → ℕ} {data tmp : List α} {n : ℕ}

lemma countKeys_concat (data : List α) (x : α) :
    countKeys key (data ++ [x]) = Function.update (countKeys key data) (key x + 1)
      (countKeys key data (key x + 1) + 1) := by
  simp [countKeys]

lemma countKeys_spec (key : α → ℕ) (data : List α) :
    countKeys key data 0 = 0 ∧
      ∀ k, countKeys key data (k + 1) = data.countP fun x => key x = k := by
  induction data using List.reverseRecOn with
  | nil => exact ⟨rfl, fun k => rfl⟩
  | append_singleton data x ih =>
    rw [countKeys_concat]
    refine ⟨?_, fun k => ?_⟩
    · rw [Function.update_of_ne (by omega)]
      exact ih.1
    · rw [List.countP_append, List.countP_singleton, Function.update_apply, ← ih.2 k]
      by_cases hk : key x = k
      · simp [hk]
      · rw [if_neg (by omega)]
        simp [hk]

/-- The number of items with a key below `k`: where the items of key `k` begin. -/
def offset (key : α → ℕ) (data : List α) (k : ℕ) : ℕ := data.countP fun x => key x < k

lemma offset_succ (key : α → ℕ) (data : List α) (k : ℕ) :
    offset key data (k + 1) = offset key data k + data.countP fun x => key x = k := by
  unfold offset
  induction data with
  | nil => rfl
  | cons x data ih =>
    rw [List.countP_cons, List.countP_cons, List.countP_cons, ih]
    rcases lt_trichotomy (key x) k with h | h | h
    · simp [h, h.ne, show key x < k + 1 by omega]
      omega
    · simp [h]
      omega
    · simp [show ¬ key x < k by omega, h.ne', show ¬ key x < k + 1 by omega]

lemma offset_mono (key : α → ℕ) (data : List α) {j k : ℕ} (h : j ≤ k) :
    offset key data j ≤ offset key data k := by
  refine List.countP_mono_left fun x _ hx => ?_
  simp only [decide_eq_true_eq] at hx ⊢
  omega

lemma offset_of_bound (hn : ∀ x ∈ data, key x < n) : offset key data n = data.length := by
  rw [offset, List.countP_eq_length]
  intro x hx
  simpa using hn x hx

lemma prefixSums_succ (n : ℕ) (count : ℕ → ℕ) :
    prefixSums (n + 1) count = Function.update (prefixSums n count) (n + 1)
      (prefixSums n count (n + 1) + prefixSums n count n) := by
  simp [prefixSums, List.range_succ]

lemma prefixSums_spec (key : α → ℕ) (data : List α) (n : ℕ) :
    (∀ k ≤ n, prefixSums n (countKeys key data) k = offset key data k) ∧
      ∀ k > n, prefixSums n (countKeys key data) k = countKeys key data k := by
  obtain ⟨hzero, hcount⟩ := countKeys_spec key data
  induction n with
  | zero =>
    refine ⟨fun k hk => ?_, fun k _ => rfl⟩
    obtain rfl : k = 0 := by omega
    simp [prefixSums, hzero, offset]
  | succ n ih =>
    rw [prefixSums_succ]
    refine ⟨fun k hk => ?_, fun k hk => ?_⟩
    · rw [Function.update_apply]
      split_ifs with hkn
      · rw [hkn, ih.1 n le_rfl, ih.2 (n + 1) (by omega), hcount, offset_succ]
        omega
      · exact ih.1 k (by omega)
    · rw [Function.update_of_ne (by omega)]
      exact ih.2 k (by omega)

/-- The state of `scatter` after the items of `done`: each key has as many items placed from its
offset on as `done` has of it. -/
structure Placing (key : α → ℕ) (data done : List α) (s : List α × (ℕ → ℕ)) : Prop where
  length : s.1.length = data.length
  position : ∀ x ∈ data, s.2 (key x) = offset key data (key x) + done.countP (key · = key x)
  placed : ∀ k, ∀ j < done.countP (key · = k),
    s.1[offset key data k + j]? = (done.filter (key · = k))[j]?

lemma Placing.step {done : List α} {x : α} {s : List α × (ℕ → ℕ)} {rest : List α}
    (h : Placing key data done s) (hdata : data = done ++ x :: rest) :
    Placing key data (done ++ [x])
      (s.1.set (s.2 (key x)) x, Function.update s.2 (key x) (s.2 (key x) + 1)) := by
  have hx : x ∈ data := by simp [hdata]
  have hpos := h.position x hx
  -- the class of `x` is not complete yet
  have hroom : done.countP (key · = key x) < data.countP (key · = key x) := by
    rw [hdata, List.countP_append, List.countP_cons]
    simp
  have hlt : s.2 (key x) < data.length := by
    have h1 := offset_succ key data (key x)
    have h2 : offset key data (key x + 1) ≤ data.length := List.countP_le_length
    omega
  refine ⟨by simpa using h.length, fun y hy => ?_, fun k j hj => ?_⟩
  · simp only [Function.update_apply, List.countP_append, List.countP_singleton]
    by_cases hxy : key y = key x
    · rw [if_pos hxy, hxy, hpos]
      simp
      omega
    · have hyx : ¬ key x = key y := fun h => hxy h.symm
      rw [if_neg hxy, h.position y hy]
      simp [hyx]
  · simp only [List.getElem?_set, h.length, List.filter_append]
    rw [List.countP_append, List.countP_singleton] at hj
    by_cases hk : key x = k
    · subst hk
      simp only [decide_true, if_true] at hj
      by_cases hlast : j = done.countP (key · = key x)
      · rw [if_pos (by omega), if_pos (by omega)]
        have hlen : (done.filter (key · = key x)).length = j := by
          rw [hlast, List.countP_eq_length_filter]
        rw [List.getElem?_append_right (by omega), hlen, Nat.sub_self]
        simp
      · have hj' : j < done.countP (key · = key x) := by omega
        rw [if_neg (by omega), h.placed _ j hj', List.getElem?_append_left]
        rw [← List.countP_eq_length_filter]
        exact hj'
    · simp only [hk, decide_false, Bool.false_eq_true, if_false, Nat.add_zero] at hj
      have hother : ¬ s.2 (key x) = offset key data k + j := by
        have hle : done.countP (key · = k) ≤ data.countP (key · = k) := by
          rw [hdata, List.countP_append]
          omega
        have h1 := offset_succ key data (key x)
        have h2 := offset_succ key data k
        rcases Nat.lt_or_gt_of_ne hk with hlt | hgt
        · have := offset_mono key data (show key x + 1 ≤ k by omega)
          omega
        · have := offset_mono key data (show k + 1 ≤ key x by omega)
          omega
      rw [if_neg hother, h.placed k j hj]
      simp [hk]

lemma placing_foldl {done rest : List α} {s : List α × (ℕ → ℕ)} (h : Placing key data done s)
    (hdata : data = done ++ rest) :
    Placing key data data (rest.foldl (fun (s : List α × (ℕ → ℕ)) x =>
      (s.1.set (s.2 (key x)) x, Function.update s.2 (key x) (s.2 (key x) + 1))) s) := by
  induction rest generalizing done s with
  | nil =>
    rw [List.append_nil] at hdata
    rw [hdata] at h ⊢
    exact h
  | cons x rest ih => exact ih (h.step hdata) (by simp [hdata])

lemma pass_eq (hn : ∀ x ∈ data, key x < n) (htmp : tmp.length = data.length) :
    pass key n data tmp = (List.range n).flatMap fun k => data.filter (key · = k) := by
  have hstart : Placing key data [] (tmp, prefixSums n (countKeys key data)) := by
    refine ⟨htmp, fun x hx => ?_, fun k j hj => by simp at hj⟩
    rw [List.countP_nil, Nat.add_zero]
    exact (prefixSums_spec key data n).1 _ (hn x hx).le
  have hend := placing_foldl hstart rfl
  have hlen : (pass key n data tmp).length = data.length := hend.length
  have hplaced : ∀ k, ∀ j < data.countP (key · = k),
      (pass key n data tmp)[offset key data k + j]? = (data.filter (key · = k))[j]? := hend.placed
  -- the first classes fill the list up to the offset of the next one
  have htake : ∀ m, (pass key n data tmp).take (offset key data m)
      = (List.range m).flatMap fun k => data.filter (key · = k) := by
    intro m
    induction m with
    | zero => simp [offset]
    | succ m ih =>
      rw [List.range_succ, List.flatMap_append, ← ih, offset_succ, List.take_add]
      congr 1
      refine List.ext_getElem? fun j => ?_
      rw [List.flatMap_singleton, List.getElem?_take]
      split_ifs with hj
      · rw [List.getElem?_drop]
        exact hplaced m j hj
      · rw [eq_comm, List.getElem?_eq_none_iff, ← List.countP_eq_length_filter]
        omega
  rw [← htake n, offset_of_bound hn, ← hlen, List.take_length]

lemma pass_length (key : α → ℕ) (n : ℕ) (data tmp : List α) :
    (pass key n data tmp).length = tmp.length := by
  have h : ∀ (l : List α) (s : List α × (ℕ → ℕ)),
      (l.foldl (fun (s : List α × (ℕ → ℕ)) x =>
        (s.1.set (s.2 (key x)) x, Function.update s.2 (key x) (s.2 (key x) + 1))) s).1.length
        = s.1.length := by
    intro l
    induction l with
    | nil => exact fun s => rfl
    | cons x l ih =>
      intro s
      rw [List.foldl_cons, ih]
      exact List.length_set
  exact h data _

/-- **A pass is a stable sort.** -/
lemma pass_stable (hn : ∀ x ∈ data, key x < n) (htmp : tmp.length = data.length) :
    StableSort key data (pass key n data tmp) := by
  rw [pass_eq hn htmp]
  constructor
  · rw [List.pairwise_flatMap]
    refine ⟨fun k _ => ?_, ?_⟩
    · refine List.Pairwise.imp_of_mem ?_ (List.pairwise_of_forall fun _ _ => trivial)
      intro a b ha hb _
      rw [List.mem_filter] at ha hb
      have ha := of_decide_eq_true ha.2
      have hb := of_decide_eq_true hb.2
      omega
    · refine List.pairwise_lt_range.imp fun {j k} hjk a ha b hb => ?_
      rw [List.mem_filter] at ha hb
      have ha := of_decide_eq_true ha.2
      have hb := of_decide_eq_true hb.2
      omega
  · intro k
    rw [List.filter_flatMap]
    by_cases hk : k < n
    · have hother : ∀ j, j ≠ k →
          (data.filter fun x => key x = j).filter (fun x => key x = k) = [] := by
        intro j hj
        rw [List.filter_eq_nil_iff]
        intro x hx
        rw [List.mem_filter] at hx
        have hx := of_decide_eq_true hx.2
        simp only [decide_eq_true_eq]
        omega
      have hzero : ∀ l : List ℕ, k ∉ l →
          l.flatMap (fun j => (data.filter fun x => key x = j).filter fun x => key x = k) = [] := by
        intro l hl
        rw [List.flatMap_eq_nil_iff]
        intro j hj
        exact hother j fun h => hl (h ▸ hj)
      have hsplit : List.range n = List.range k ++ k :: List.range' (k + 1) (n - k - 1) := by
        have h := List.range'_append_1 (s := 0) (m := k) (n := n - k - 1 + 1)
        rw [Nat.zero_add, List.range'_succ, show k + (n - k - 1 + 1) = n by omega] at h
        rw [List.range_eq_range', List.range_eq_range', h]
      rw [hsplit, List.flatMap_append, List.flatMap_cons, hzero _ (by simp),
        hzero _ (by simp [List.mem_range']; omega), List.nil_append, List.append_nil,
        List.filter_filter]
      exact List.filter_congr fun x _ => Bool.and_self _
    · have hnone : data.filter (fun x => key x = k) = [] := by
        rw [List.filter_eq_nil_iff]
        intro x hx
        have := hn x hx
        simp only [decide_eq_true_eq]
        omega
      rw [hnone, List.flatMap_eq_nil_iff]
      intro j hj
      rw [List.filter_filter]
      rw [List.filter_eq_nil_iff] at hnone ⊢
      intro x hx h
      rw [Bool.and_eq_true] at h
      exact hnone x hx h.1

end Pass

end MsSanitizer.CountingSort
