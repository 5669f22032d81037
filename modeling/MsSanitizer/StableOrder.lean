import Mathlib.Tactic

/-!
# Stable sorts

Of a list and an order in which elements may tie, there is one list that is sorted and keeps tied
elements in the order they had. Merge sort gives it, so what is to be shown of another sort is that
it sorts and that it leaves each class of tied elements as it was.
-/

namespace MsSanitizer.StableOrder

variable {α : Type*} {le : α → α → Bool} {xs ys zs : List α}

/-- `ys` is `xs` sorted, with tied elements in the order they had. -/
structure SortedStably (le : α → α → Bool) (xs ys : List α) : Prop where
  sorted : ys.Pairwise fun a b => le a b = true
  same : ∀ c, ys.filter (fun x => le x c && le c x) = xs.filter fun x => le x c && le c x

section Total

variable (total : ∀ a b, (le a b || le b a) = true)
include total

lemma le_self (a : α) : le a a = true := by
  simpa using total a a

lemma SortedStably.perm (h : SortedStably le xs ys) : ys.Perm xs := by
  classical
  rw [List.perm_iff_count]
  intro a
  have hcount : ∀ l : List α, (l.filter fun x => le x a && le a x).count a = l.count a :=
    fun _ => List.count_filter (by rw [le_self total, Bool.and_self])
  rw [← hcount, h.same a, hcount]

/-- **A stable sort is unique.** -/
lemma SortedStably.unique (h : SortedStably le xs ys) (h' : SortedStably le xs zs) : ys = zs := by
  have hsame : ∀ c, ys.filter (fun x => le x c && le c x) =
      zs.filter fun x => le x c && le c x := fun c => (h.same c).trans (h'.same c).symm
  have hperm : ys.Perm zs := (h.perm total).trans (h'.perm total).symm
  obtain ⟨hy, -⟩ := h
  obtain ⟨hz, -⟩ := h'
  induction ys generalizing zs with
  | nil => exact hperm.nil_eq
  | cons y ys ih =>
    cases zs with
    | nil => exact absurd hperm.symm.nil_eq (List.cons_ne_nil _ _).symm
    | cons z zs =>
      rw [List.pairwise_cons] at hy hz
      -- both heads are least, so they tie, and the first of a class is the same
      have hyz : le y z = true := by
        rcases List.mem_cons.mp (hperm.mem_iff.mpr List.mem_cons_self) with heq | hmem
        · rw [heq]
          exact le_self total y
        · exact hy.1 z hmem
      have hzy : le z y = true := by
        rcases List.mem_cons.mp (hperm.mem_iff.mp List.mem_cons_self) with heq | hmem
        · rw [heq]
          exact le_self total z
        · exact hz.1 y hmem
      have hheads := hsame y
      rw [List.filter_cons_of_pos (by rw [le_self total, Bool.and_self]),
        List.filter_cons_of_pos (by rw [hzy, hyz, Bool.and_self])] at hheads
      obtain ⟨rfl, -⟩ := List.cons_eq_cons.mp hheads
      congr 1
      refine ih (fun c => ?_) hperm.cons_inv hy.2 hz.2
      have hc := hsame c
      rw [List.filter_cons, List.filter_cons] at hc
      split_ifs at hc
      · exact (List.cons_eq_cons.mp hc).2
      · exact hc

variable (trans : ∀ a b c, le a b = true → le b c = true → le a c = true)
include trans

lemma sortedStably_mergeSort (xs : List α) : SortedStably le xs (xs.mergeSort le) := by
  refine ⟨List.pairwise_mergeSort trans total xs, fun c => ?_⟩
  have hclass : (xs.filter fun x => le x c && le c x).Pairwise fun a b => le a b = true := by
    refine List.pairwise_of_forall_mem_list fun a ha b hb => ?_
    have ha := (List.mem_filter.mp ha).2
    have hb := (List.mem_filter.mp hb).2
    rw [Bool.and_eq_true] at ha hb
    exact trans a c b ha.1 hb.2
  have hsub := (List.sublist_mergeSort trans total hclass List.filter_sublist).filter
    fun x => le x c && le c x
  rw [List.filter_filter] at hsub
  simp only [Bool.and_self] at hsub
  refine (hsub.eq_of_length ?_).symm
  exact ((List.mergeSort_perm xs le).filter _).length_eq.symm

lemma eq_mergeSort_iff : ys = xs.mergeSort le ↔ SortedStably le xs ys := by
  constructor
  · rintro rfl
    exact sortedStably_mergeSort total trans xs
  · intro h
    exact h.unique total (sortedStably_mergeSort total trans xs)

end Total

/-- Elements of one class are related if they are in the list of their class. -/
lemma pairwise_of_classes {κ : Type*} [DecidableEq κ] {key : α → κ} {R : α → α → Prop}
    (h : ∀ k, (xs.filter fun x => key x = k).Pairwise R) :
    xs.Pairwise fun a b => key a = key b → R a b := by
  induction xs with
  | nil => exact List.Pairwise.nil
  | cons x xs ih =>
    refine List.pairwise_cons.mpr ⟨fun y hy hkey => ?_, ih fun k => ?_⟩
    · have hx := h (key x)
      rw [List.filter_cons_of_pos (by simp), List.pairwise_cons] at hx
      exact hx.1 y (List.mem_filter.mpr ⟨hy, by simp [hkey]⟩)
    · have hk := h k
      rw [List.filter_cons] at hk
      split_ifs at hk
      · exact (List.pairwise_cons.mp hk).2
      · exact hk

end MsSanitizer.StableOrder
