import Mathlib.Order.MinMax
import Mathlib.Data.List.Basic
import Mathlib.Tactic.Linarith

/-!
# Sorted lists of entries

A finite map with a default value, kept as a list of pairs in increasing order of their keys:
a key that no entry names has the default. Two such lists are merged by walking both at once
and keeping the larger value at a common key; the map of the merge is the pointwise maximum.

The merge can also be done in place and from the back, as long as the lists are sorted: the
largest key of the result is the larger of the two last keys (`merge_append_left` and its two
companions).
-/

namespace MsSanitizer.SortedEntries

variable {κ ν : Type*} [LinearOrder κ] {d : ν}

/-- The value of key `k`, `d` when no entry names it. -/
def look (d : ν) : List (κ × ν) → κ → ν
  | [], _ => d
  | e :: l, k => if e.1 = k then e.2 else look d l k

/-- The entries are in strictly increasing order of their keys. -/
def Sorted (l : List (κ × ν)) : Prop := l.Pairwise fun x y => x.1 < y.1

@[simp] lemma look_nil (k : κ) : look d ([] : List (κ × ν)) k = d := rfl

lemma look_cons (e : κ × ν) (l : List (κ × ν)) (k : κ) :
    look d (e :: l) k = if e.1 = k then e.2 else look d l k := rfl

@[simp] lemma sorted_nil : Sorted ([] : List (κ × ν)) := List.Pairwise.nil

lemma sorted_cons {e : κ × ν} {l : List (κ × ν)} :
    Sorted (e :: l) ↔ (∀ x ∈ l, e.1 < x.1) ∧ Sorted l := List.pairwise_cons

lemma sorted_append {l r : List (κ × ν)} :
    Sorted (l ++ r) ↔ Sorted l ∧ Sorted r ∧ ∀ x ∈ l, ∀ y ∈ r, x.1 < y.1 := List.pairwise_append

lemma look_of_ne {l : List (κ × ν)} {k : κ} (h : ∀ e ∈ l, e.1 ≠ k) : look d l k = d := by
  induction l with
  | nil => rfl
  | cons e l ih =>
    rw [look_cons, if_neg (h e (by simp))]
    exact ih fun x hx => h x (by simp [hx])

/-- In a sorted list every entry is what its key reads. -/
lemma look_of_mem {l : List (κ × ν)} (hs : Sorted l) {e : κ × ν} (he : e ∈ l) :
    look d l e.1 = e.2 := by
  induction l with
  | nil => cases he
  | cons x l ih =>
    rw [sorted_cons] at hs
    rcases List.mem_cons.mp he with rfl | he
    · rw [look_cons, if_pos rfl]
    · rw [look_cons, if_neg (hs.1 e he).ne]
      exact ih hs.2 he

lemma look_append {l r : List (κ × ν)} (k : κ) (h : ∀ e ∈ l, e.1 ≠ k) :
    look d (l ++ r) k = look d r k := by
  induction l with
  | nil => rfl
  | cons e l ih =>
    rw [List.cons_append, look_cons, if_neg (h e (by simp))]
    exact ih fun x hx => h x (by simp [hx])

/-- The position of the first entry whose key is not below `k`. -/
def lowerBound (l : List (κ × ν)) (k : κ) : ℕ := l.findIdx fun e => decide (k ≤ e.1)

@[simp] lemma lowerBound_nil (k : κ) : lowerBound ([] : List (κ × ν)) k = 0 := rfl

lemma lowerBound_cons (e : κ × ν) (l : List (κ × ν)) (k : κ) :
    lowerBound (e :: l) k = if k ≤ e.1 then 0 else lowerBound l k + 1 := by
  unfold lowerBound
  rw [List.findIdx_cons]
  by_cases h : k ≤ e.1 <;> simp [h]

section Values

variable [LinearOrder ν]

/-- A list of values at least `d` reads values at least `d`. -/
lemma le_look {l : List (κ × ν)} (h : ∀ e ∈ l, d ≤ e.2) (k : κ) : d ≤ look d l k := by
  induction l with
  | nil => exact le_rfl
  | cons e l ih =>
    rw [look_cons]
    split_ifs with hk
    · exact h e (by simp)
    · exact ih fun x hx => h x (by simp [hx])

/-! ## Raising one value -/

/-- The value of `k` becomes the larger of its value and `v`: an existing entry is raised, a
new one is inserted at its place. -/
def raise (l : List (κ × ν)) (k : κ) (v : ν) : List (κ × ν) :=
  match l[lowerBound l k]? with
  | some e => if e.1 = k then l.set (lowerBound l k) (k, max e.2 v)
    else l.insertIdx (lowerBound l k) (k, v)
  | none => l.insertIdx (lowerBound l k) (k, v)

lemma raise_cons (e : κ × ν) (l : List (κ × ν)) (k : κ) (v : ν) :
    raise (e :: l) k v = if e.1 < k then e :: raise l k v
      else if e.1 = k then (k, max e.2 v) :: l else (k, v) :: e :: l := by
  unfold raise
  rw [lowerBound_cons]
  by_cases hlt : e.1 < k
  · rw [if_neg (not_le.mpr hlt), if_pos hlt, List.getElem?_cons_succ]
    cases hx : l[lowerBound l k]? with
    | none => rfl
    | some x =>
      simp only [List.set_cons_succ, List.insertIdx_succ_cons]
      split_ifs <;> rfl
  · rw [if_pos (not_lt.mp hlt), if_neg hlt]
    simp only [List.getElem?_cons_zero, List.set_cons_zero, List.insertIdx_zero]

lemma raise_nil (k : κ) (v : ν) : raise [] k v = [(k, v)] := rfl

/-- The keys after a raise are the old ones and the raised one. -/
lemma mem_raise {l : List (κ × ν)} {k : κ} {v : ν} {e : κ × ν} (he : e ∈ raise l k v) :
    e.1 = k ∨ e ∈ l := by
  induction l with
  | nil => rw [raise_nil] at he; simp at he; simp [he]
  | cons x l ih =>
    rw [raise_cons] at he
    split_ifs at he with h1 h2
    · rcases List.mem_cons.mp he with rfl | he
      · simp
      · rcases ih he with h | h
        · exact .inl h
        · exact .inr (by simp [h])
    · rcases List.mem_cons.mp he with rfl | he
      · simp
      · exact .inr (by simp [he])
    · rcases List.mem_cons.mp he with rfl | he
      · simp
      · exact .inr he

lemma Sorted.raise {l : List (κ × ν)} (hs : Sorted l) (k : κ) (v : ν) : Sorted (raise l k v) := by
  induction l with
  | nil => rw [raise_nil, sorted_cons]; simp
  | cons e l ih =>
    rw [sorted_cons] at hs
    rw [raise_cons]
    split_ifs with h1 h2
    · rw [sorted_cons]
      refine ⟨fun x hx => ?_, ih hs.2⟩
      rcases mem_raise hx with h | h
      · rwa [h]
      · exact hs.1 x h
    · rw [sorted_cons]
      exact ⟨fun x hx => h2 ▸ hs.1 x hx, hs.2⟩
    · have hk : k < e.1 := lt_of_le_of_ne (not_lt.mp h1) fun h => h2 h.symm
      rw [sorted_cons, sorted_cons]
      refine ⟨fun x hx => ?_, hs⟩
      rcases List.mem_cons.mp hx with rfl | hx
      · exact hk
      · exact hk.trans (hs.1 x hx)

/-- **Raising is pointwise.** -/
lemma look_raise {l : List (κ × ν)} (hs : Sorted l) (k : κ) {v : ν} (hv : d ≤ v) (k' : κ) :
    look d (raise l k v) k' = if k' = k then max (look d l k) v else look d l k' := by
  induction l with
  | nil =>
    rw [raise_nil, look_cons]
    by_cases h : k' = k
    · rw [if_pos h, if_pos h.symm, look_nil, max_eq_right hv]
    · rw [if_neg h, if_neg fun h' => h h'.symm]
  | cons e l ih =>
    rw [sorted_cons] at hs
    rw [raise_cons]
    rcases lt_trichotomy e.1 k with h | h | h
    · rw [if_pos h, look_cons, look_cons, look_cons, if_neg h.ne, ih hs.2]
      by_cases hk : e.1 = k'
      · rw [if_pos hk, if_pos hk, if_neg (hk ▸ h.ne)]
      · rw [if_neg hk, if_neg hk]
    · rw [if_neg h.not_lt, if_pos h, look_cons, look_cons, look_cons, if_pos h]
      by_cases hk : k' = k
      · rw [if_pos hk, if_pos hk.symm]
      · rw [if_neg hk, if_neg fun h' => hk h'.symm, if_neg fun h' => hk (h'.symm.trans h)]
    · rw [if_neg h.not_gt, if_neg h.ne', look_cons]
      by_cases hk : k' = k
      · -- the keys of the list are all above `k`
        have hnone : look d (e :: l) k = d := look_of_ne fun x hx => by
          rcases List.mem_cons.mp hx with rfl | hx
          · exact h.ne'
          · exact (h.trans (hs.1 x hx)).ne'
        rw [if_pos hk, if_pos hk.symm, hnone, max_eq_right hv]
      · rw [if_neg hk, if_neg fun h' => hk h'.symm]

/-! ## Merging -/

/-- Walk both lists at once, keeping the larger value at a common key. -/
def merge : List (κ × ν) → List (κ × ν) → List (κ × ν)
  | [], b => b
  | x :: a, [] => x :: a
  | x :: a, y :: b =>
    if x.1 < y.1 then x :: merge a (y :: b)
    else if y.1 < x.1 then y :: merge (x :: a) b
    else (x.1, max x.2 y.2) :: merge a b
termination_by a b => a.length + b.length

@[simp] lemma merge_nil_left (b : List (κ × ν)) : merge [] b = b := by rw [merge]

@[simp] lemma merge_nil_right (a : List (κ × ν)) : merge a [] = a := by
  cases a with
  | nil => rw [merge]
  | cons x a => rw [merge]

lemma merge_cons (x : κ × ν) (a : List (κ × ν)) (y : κ × ν) (b : List (κ × ν)) :
    merge (x :: a) (y :: b) = if x.1 < y.1 then x :: merge a (y :: b)
      else if y.1 < x.1 then y :: merge (x :: a) b
      else (x.1, max x.2 y.2) :: merge a b := by
  rw [merge]

lemma exists_mem_of_mem_merge {a b : List (κ × ν)} {e : κ × ν} (he : e ∈ merge a b) :
    ∃ x, (x ∈ a ∨ x ∈ b) ∧ x.1 = e.1 := by
  induction a, b using merge.induct with
  | case1 b => exact ⟨e, .inr (by simpa using he), rfl⟩
  | case2 x a => exact ⟨e, .inl (by simpa using he), rfl⟩
  | case3 x a y b h ih =>
    rw [merge_cons, if_pos h] at he
    rcases List.mem_cons.mp he with rfl | he
    · exact ⟨e, .inl (by simp), rfl⟩
    · obtain ⟨z, hz, hk⟩ := ih he
      exact ⟨z, hz.imp (fun h => by simp [h]) id, hk⟩
  | case4 x a y b h1 h2 ih =>
    rw [merge_cons, if_neg h1, if_pos h2] at he
    rcases List.mem_cons.mp he with rfl | he
    · exact ⟨e, .inr (by simp), rfl⟩
    · obtain ⟨z, hz, hk⟩ := ih he
      exact ⟨z, hz.imp id (fun h => by simp [h]), hk⟩
  | case5 x a y b h1 h2 ih =>
    rw [merge_cons, if_neg h1, if_neg h2] at he
    rcases List.mem_cons.mp he with rfl | he
    · exact ⟨x, .inl (by simp), rfl⟩
    · obtain ⟨z, hz, hk⟩ := ih he
      exact ⟨z, hz.imp (fun h => by simp [h]) (fun h => by simp [h]), hk⟩

lemma Sorted.merge {a b : List (κ × ν)} (ha : Sorted a) (hb : Sorted b) :
    Sorted (merge a b) := by
  induction a, b using merge.induct with
  | case1 b => simpa using hb
  | case2 x a => simpa using ha
  | case3 x a y b h ih =>
    rw [merge_cons, if_pos h, sorted_cons]
    rw [sorted_cons] at ha
    refine ⟨fun e he => ?_, ih ha.2 hb⟩
    obtain ⟨z, hz, hk⟩ := exists_mem_of_mem_merge he
    rw [sorted_cons] at hb
    rcases hz with hz | hz
    · exact hk ▸ ha.1 z hz
    · rcases List.mem_cons.mp hz with rfl | hz
      · exact hk ▸ h
      · exact hk ▸ h.trans (hb.1 z hz)
  | case4 x a y b h1 h2 ih =>
    rw [merge_cons, if_neg h1, if_pos h2, sorted_cons]
    rw [sorted_cons] at hb
    refine ⟨fun e he => ?_, ih ha hb.2⟩
    obtain ⟨z, hz, hk⟩ := exists_mem_of_mem_merge he
    rw [sorted_cons] at ha
    rcases hz with hz | hz
    · rcases List.mem_cons.mp hz with rfl | hz
      · exact hk ▸ h2
      · exact hk ▸ h2.trans (ha.1 z hz)
    · exact hk ▸ hb.1 z hz
  | case5 x a y b h1 h2 ih =>
    have hxy : x.1 = y.1 := le_antisymm (not_lt.mp h2) (not_lt.mp h1)
    rw [merge_cons, if_neg h1, if_neg h2, sorted_cons]
    rw [sorted_cons] at ha hb
    refine ⟨fun e he => ?_, ih ha.2 hb.2⟩
    obtain ⟨z, hz, hk⟩ := exists_mem_of_mem_merge he
    rcases hz with hz | hz
    · exact hk ▸ ha.1 z hz
    · exact hk ▸ hxy ▸ hb.1 z hz

/-- **The merge is the pointwise maximum.** -/
lemma look_merge {a b : List (κ × ν)} (ha : Sorted a) (hb : Sorted b)
    (hda : ∀ e ∈ a, d ≤ e.2) (hdb : ∀ e ∈ b, d ≤ e.2) (k : κ) :
    look d (merge a b) k = max (look d a k) (look d b k) := by
  induction a, b using merge.induct with
  | case1 b => rw [merge_nil_left, look_nil, max_eq_right (le_look hdb k)]
  | case2 x a => rw [merge_nil_right, look_nil, max_eq_left (le_look hda k)]
  | case3 x a y b h ih =>
    rw [sorted_cons] at ha
    have ih := ih ha.2 hb (fun e he => hda e (by simp [he])) hdb
    rw [merge_cons, if_pos h, look_cons, look_cons x a k]
    by_cases hk : x.1 = k
    · have hnone : look d (y :: b) k = d := look_of_ne fun e he => by
        rcases List.mem_cons.mp he with rfl | he
        · exact (hk ▸ h).ne'
        · exact ((hk ▸ h).trans ((sorted_cons.mp hb).1 e he)).ne'
      rw [if_pos hk, if_pos hk, hnone, max_eq_left (hda x (by simp))]
    · rw [if_neg hk, if_neg hk, ih]
  | case4 x a y b h1 h2 ih =>
    rw [sorted_cons] at hb
    have ih := ih ha hb.2 hda (fun e he => hdb e (by simp [he]))
    rw [merge_cons, if_neg h1, if_pos h2, look_cons, look_cons y b k]
    by_cases hk : y.1 = k
    · have hnone : look d (x :: a) k = d := look_of_ne fun e he => by
        rcases List.mem_cons.mp he with rfl | he
        · exact (hk ▸ h2).ne'
        · exact ((hk ▸ h2).trans ((sorted_cons.mp ha).1 e he)).ne'
      rw [if_pos hk, if_pos hk, hnone, max_eq_right (hdb y (by simp))]
    · rw [if_neg hk, if_neg hk, ih]
  | case5 x a y b h1 h2 ih =>
    have hxy : x.1 = y.1 := le_antisymm (not_lt.mp h2) (not_lt.mp h1)
    rw [sorted_cons] at ha hb
    have ih := ih ha.2 hb.2 (fun e he => hda e (by simp [he])) (fun e he => hdb e (by simp [he]))
    rw [merge_cons, if_neg h1, if_neg h2, look_cons, look_cons x a k, look_cons y b k, ← hxy]
    by_cases hk : x.1 = k
    · simp only [if_pos hk]
    · rw [if_neg hk, if_neg hk, if_neg hk, ih]

/-! ## Merging from the back -/

/-- A last entry of the left list above all the others stays last. -/
lemma merge_append_left {a b : List (κ × ν)} {x : κ × ν} (ha : ∀ e ∈ a, e.1 < x.1)
    (hb : ∀ e ∈ b, e.1 < x.1) : merge (a ++ [x]) b = merge a b ++ [x] := by
  induction a, b using merge.induct with
  | case1 b =>
    induction b with
    | nil => simp
    | cons y b ih =>
      have hy : y.1 < x.1 := hb y (by simp)
      have ih := ih fun e he => hb e (by simp [he])
      rw [List.nil_append, merge_nil_left] at ih
      rw [List.nil_append, merge_cons, if_neg hy.not_gt, if_pos hy, ih, merge_nil_left,
        List.cons_append]
  | case2 y a => simp
  | case3 y a z b h ih =>
    rw [List.cons_append, merge_cons, if_pos h, ih (fun e he => ha e (by simp [he])) hb, merge_cons,
      if_pos h, List.cons_append]
  | case4 y a z b h1 h2 ih =>
    have ih := ih ha fun e he => hb e (by simp [he])
    rw [List.cons_append] at ih
    rw [List.cons_append, merge_cons, if_neg h1, if_pos h2, ih, merge_cons, if_neg h1, if_pos h2,
      List.cons_append]
  | case5 y a z b h1 h2 ih =>
    rw [List.cons_append, merge_cons, if_neg h1, if_neg h2,
      ih (fun e he => ha e (by simp [he])) (fun e he => hb e (by simp [he])), merge_cons,
      if_neg h1, if_neg h2, List.cons_append]

/-- A last entry of the right list above all the others stays last. -/
lemma merge_append_right {a b : List (κ × ν)} {y : κ × ν} (ha : ∀ e ∈ a, e.1 < y.1)
    (hb : ∀ e ∈ b, e.1 < y.1) : merge a (b ++ [y]) = merge a b ++ [y] := by
  induction a, b using merge.induct with
  | case1 b => simp
  | case2 x a =>
    generalize hl : x :: a = l at ha
    clear hl
    induction l with
    | nil => simp
    | cons x a ih =>
      have hx : x.1 < y.1 := ha x (by simp)
      have ih := ih fun e he => ha e (by simp [he])
      rw [List.nil_append, merge_nil_right] at ih
      rw [List.nil_append, merge_cons, if_pos hx, ih, merge_nil_right, List.cons_append]
  | case3 x a z b h ih =>
    have ih := ih (fun e he => ha e (by simp [he])) hb
    rw [List.cons_append] at ih
    rw [List.cons_append, merge_cons, if_pos h, ih, merge_cons, if_pos h, List.cons_append]
  | case4 x a z b h1 h2 ih =>
    rw [List.cons_append, merge_cons, if_neg h1, if_pos h2, ih ha fun e he => hb e (by simp [he]),
      merge_cons, if_neg h1, if_pos h2, List.cons_append]
  | case5 x a z b h1 h2 ih =>
    rw [List.cons_append, merge_cons, if_neg h1, if_neg h2,
      ih (fun e he => ha e (by simp [he])) (fun e he => hb e (by simp [he])), merge_cons,
      if_neg h1, if_neg h2, List.cons_append]

/-- Two last entries of one key above all the others are joined at the end. -/
lemma merge_append_both {a b : List (κ × ν)} {x y : κ × ν} (hxy : x.1 = y.1)
    (ha : ∀ e ∈ a, e.1 < x.1) (hb : ∀ e ∈ b, e.1 < x.1) :
    merge (a ++ [x]) (b ++ [y]) = merge a b ++ [(x.1, max x.2 y.2)] := by
  induction a, b using merge.induct with
  | case1 b =>
    induction b with
    | nil => rw [List.nil_append, List.nil_append, merge_cons, if_neg (by simp [hxy]),
        if_neg (by simp [hxy])]; simp
    | cons z b ih =>
      have hz : z.1 < x.1 := hb z (by simp)
      have ih := ih fun e he => hb e (by simp [he])
      rw [List.nil_append, merge_nil_left] at ih
      rw [List.nil_append, List.cons_append, merge_cons, if_neg hz.not_gt, if_pos hz, ih,
        merge_nil_left, List.cons_append]
  | case2 z a =>
    generalize hl : z :: a = l at ha
    clear hl
    induction l with
    | nil => rw [List.nil_append, List.nil_append, merge_cons, if_neg (by simp [hxy]),
        if_neg (by simp [hxy])]; simp
    | cons z a ih =>
      have hz : z.1 < y.1 := hxy ▸ ha z (by simp)
      have ih := ih fun e he => ha e (by simp [he])
      rw [List.nil_append, merge_nil_right] at ih
      rw [List.nil_append, List.cons_append, merge_cons, if_pos hz, ih, merge_nil_right,
        List.cons_append]
  | case3 w a z b h ih =>
    have ih := ih (fun e he => ha e (by simp [he])) hb
    rw [List.cons_append] at ih
    rw [List.cons_append, List.cons_append, merge_cons, if_pos h, ih, merge_cons, if_pos h,
      List.cons_append]
  | case4 w a z b h1 h2 ih =>
    have ih := ih ha fun e he => hb e (by simp [he])
    rw [List.cons_append] at ih
    rw [List.cons_append, List.cons_append, merge_cons, if_neg h1, if_pos h2, ih, merge_cons,
      if_neg h1, if_pos h2, List.cons_append]
  | case5 w a z b h1 h2 ih =>
    rw [List.cons_append, List.cons_append, merge_cons, if_neg h1, if_neg h2,
      ih (fun e he => ha e (by simp [he])) (fun e he => hb e (by simp [he])), merge_cons,
      if_neg h1, if_neg h2, List.cons_append]

lemma length_le_merge (a b : List (κ × ν)) : a.length ≤ (merge a b).length := by
  induction a, b using merge.induct with
  | case1 b => simp
  | case2 x a => simp
  | case3 x a y b h ih =>
    rw [merge_cons, if_pos h]
    simpa using ih
  | case4 x a y b h1 h2 ih =>
    rw [merge_cons, if_neg h1, if_pos h2]
    simp only [List.length_cons] at ih ⊢
    omega
  | case5 x a y b h1 h2 ih =>
    rw [merge_cons, if_neg h1, if_neg h2]
    simpa using ih

lemma length_merge_le (a b : List (κ × ν)) : (merge a b).length ≤ a.length + b.length := by
  induction a, b using merge.induct with
  | case1 b => simp
  | case2 x a => simp
  | case3 x a y b h ih =>
    rw [merge_cons, if_pos h]
    simp only [List.length_cons] at ih ⊢
    omega
  | case4 x a y b h1 h2 ih =>
    rw [merge_cons, if_neg h1, if_pos h2]
    simp only [List.length_cons] at ih ⊢
    omega
  | case5 x a y b h1 h2 ih =>
    rw [merge_cons, if_neg h1, if_neg h2]
    simp only [List.length_cons] at ih ⊢
    omega

end Values

end MsSanitizer.SortedEntries
