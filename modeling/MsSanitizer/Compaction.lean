import Mathlib.Data.List.Chain
import Mathlib.Tactic

/-!
# Joining neighbours

A list is scanned from the left, and an element that can be joined to the one kept last is
joined to it. There are two ways to do this: pushing the elements one by one onto a list that
grows, and compacting the list in place with an index for the element kept last. They give the
same list, and joining its neighbours again changes nothing.
-/

namespace MsSanitizer.Compaction

variable {α : Type*} (joins : α → α → Bool) (join : α → α → α)

/-- Push an element onto a list, or join it to the last one. -/
def push (l : List α) (x : α) : List α :=
  match l.getLast? with
  | some a => if joins a x then l.dropLast ++ [join a x] else l ++ [x]
  | none => [x]

/-- One pass of the loop in place: the list, the index of the element kept last, and the index
of the element that is read. -/
def step (d : α) (s : List α × ℕ) (i : ℕ) : List α × ℕ :=
  let a := s.1.getD s.2 d
  let x := s.1.getD i d
  if joins a x then (s.1.set s.2 (join a x), s.2) else (s.1.set (s.2 + 1) x, s.2 + 1)

/-- The whole loop, with what follows the last element kept cut off. -/
def compact (d : α) (l : List α) : List α :=
  if l.isEmpty then l
  else
    let s := (List.range' 1 (l.length - 1)).foldl (step joins join d) (l, 0)
    s.1.take (s.2 + 1)

variable {joins join}

@[simp] lemma push_nil (x : α) : push joins join [] x = [x] := rfl

lemma push_concat_of_joins {a x : α} (l : List α) (h : joins a x = true) :
    push joins join (l ++ [a]) x = l ++ [join a x] := by
  simp [push, h]

lemma push_concat_of_not {a x : α} (l : List α) (h : joins a x = false) :
    push joins join (l ++ [a]) x = l ++ [a] ++ [x] := by
  simp [push, h]

/-! ## In place -/

/-- What the loop keeps before it reads index `i`: the elements kept are those that pushing
the first `i` elements gives, and the elements from `i` on have not been touched. -/
structure Scanned (joins : α → α → Bool) (join : α → α → α) (l : List α) (s : List α × ℕ)
    (i : ℕ) : Prop where
  lt : s.2 < i
  length : s.1.length = l.length
  kept : s.1.take (s.2 + 1) = (l.take i).foldl (push joins join) []
  rest : s.1.drop i = l.drop i

lemma take_set_self (l : List α) {n : ℕ} (h : n < l.length) (x : α) :
    (l.set n x).take (n + 1) = l.take n ++ [x] := by
  rw [List.take_set, List.take_succ_eq_append_getElem h, List.set_append_right _ _ (by simp)]
  simp [Nat.min_eq_left h.le]

lemma Scanned.step {l : List α} {s : List α × ℕ} {i : ℕ} (d : α)
    (h : Scanned joins join l s i) (hi : i < l.length) :
    Scanned joins join l (step joins join d s i) (i + 1) := by
  obtain ⟨hlt, hlen, hkept, hrest⟩ := h
  have hs : s.2 < s.1.length := by omega
  have hx : s.1.getD i d = l[i] := by
    have h0 := congrArg (fun t => t[0]?) hrest
    simp only [List.getElem?_drop, add_zero] at h0
    rw [List.getD_eq_getElem?_getD, h0, List.getElem?_eq_getElem hi]
    rfl
  have ha : s.1.take (s.2 + 1) = s.1.take s.2 ++ [s.1.getD s.2 d] := by
    rw [List.take_succ_eq_append_getElem hs, List.getD_eq_getElem?_getD,
      List.getElem?_eq_getElem hs]
    rfl
  have hnext : (l.take (i + 1)).foldl (push joins join) [] =
      push joins join (s.1.take s.2 ++ [s.1.getD s.2 d]) l[i] := by
    rw [List.take_succ_eq_append_getElem hi, List.foldl_append, ← hkept, ha]
    rfl
  have hdrop : ∀ n, n ≤ i → ∀ y, (s.1.set n y).drop (i + 1) = l.drop (i + 1) := by
    intro n hn y
    have h1 := congrArg (List.drop 1) hrest
    rw [List.drop_drop, List.drop_drop] at h1
    rw [List.drop_set_of_lt (by omega), h1]
  unfold Compaction.step
  simp only [hx]
  by_cases hj : joins (s.1.getD s.2 d) l[i] = true
  · rw [if_pos hj]
    refine ⟨by simp only; omega, by simpa using hlen, ?_, hdrop _ (by omega) _⟩
    rw [hnext, push_concat_of_joins _ hj]
    exact take_set_self _ hs _
  · rw [if_neg hj]
    refine ⟨by simp only; omega, by simpa using hlen, ?_, hdrop _ (by omega) _⟩
    rw [hnext, push_concat_of_not _ (by simpa using hj), ← ha]
    exact take_set_self _ (by omega) _

lemma scanned_foldl {l : List α} (d : α) (n : ℕ) (hn : n < l.length) :
    Scanned joins join l ((List.range' 1 n).foldl (step joins join d) (l, 0)) (n + 1) := by
  induction n with
  | zero =>
    refine ⟨by simp, rfl, ?_, rfl⟩
    obtain ⟨x, t, rfl⟩ := List.exists_cons_of_length_pos hn
    rfl
  | succ n ih =>
    rw [List.range'_concat, List.foldl_append, List.foldl_cons, List.foldl_nil, one_mul,
      Nat.add_comm 1 n]
    exact (ih (by omega)).step d hn

/-- **Compacting in place is pushing one by one.** -/
theorem compact_eq_foldl (d : α) (l : List α) :
    compact joins join d l = l.foldl (push joins join) [] := by
  unfold compact
  by_cases hl : l = []
  · subst hl
    rfl
  · have hlen : 0 < l.length := List.length_pos_of_ne_nil hl
    have h := @scanned_foldl _ joins join l d (l.length - 1) (by omega)
    rw [if_neg (by simpa using hl), h.kept, Nat.sub_add_cancel hlen, List.take_length]

/-! ## Once more -/

/-- No element can be joined to the one before it. -/
def Apart (joins : α → α → Bool) (l : List α) : Prop :=
  l.IsChain fun a x => joins a x = false

/-- Pushing keeps neighbours apart, if an element that has grown is joined as before. -/
lemma Apart.push (hj : ∀ a b c, joins a (join b c) = joins a b) {l : List α}
    (h : Apart joins l) (x : α) : Apart joins (push joins join l x) := by
  rcases List.eq_nil_or_concat' l with rfl | ⟨init, a, rfl⟩
  · exact List.IsChain.singleton _
  · by_cases hax : joins a x = true
    · rw [push_concat_of_joins _ hax]
      unfold Apart at h ⊢
      rw [List.isChain_append] at h ⊢
      refine ⟨h.1, List.IsChain.singleton _, fun p hp y hy => ?_⟩
      have := h.2.2 p hp a (by simp)
      simp only [List.head?_cons, Option.mem_def, Option.some.injEq] at hy
      rw [← hy, hj, this]
    · rw [push_concat_of_not _ (by simpa using hax)]
      unfold Apart at h ⊢
      rw [List.isChain_append]
      refine ⟨h, List.IsChain.singleton _, fun p hp y hy => ?_⟩
      simp only [List.getLast?_append, List.getLast?_singleton, Option.some_or, Option.mem_def,
        Option.some.injEq, List.head?_cons] at hp hy
      rw [← hp, ← hy]
      simpa using hax

lemma apart_foldl (hj : ∀ a b c, joins a (join b c) = joins a b) (l : List α) {acc : List α}
    (h : Apart joins acc) : Apart joins (l.foldl (Compaction.push joins join) acc) := by
  induction l generalizing acc with
  | nil => exact h
  | cons x l ih => exact ih (h.push hj x)

/-- Elements that cannot be joined are kept as they are. -/
lemma foldl_push_of_apart {l : List α} {acc : List α} (h : Apart joins (acc ++ l)) :
    l.foldl (push joins join) acc = acc ++ l := by
  induction l generalizing acc with
  | nil => simp
  | cons x l ih =>
    have hx : push joins join acc x = acc ++ [x] := by
      rcases List.eq_nil_or_concat' acc with rfl | ⟨init, a, rfl⟩
      · rfl
      · refine push_concat_of_not _ ?_
        unfold Apart at h
        rw [List.isChain_append] at h
        exact h.2.2 a (by simp) x (by simp)
    rw [List.foldl_cons, hx, ih (by simpa using h)]
    simp

/-- **Joining the neighbours of a list without gaps to close changes nothing.** -/
theorem foldl_push_idempotent (hj : ∀ a b c, joins a (join b c) = joins a b) (l : List α) :
    (l.foldl (push joins join) []).foldl (push joins join) [] = l.foldl (push joins join) [] :=
  foldl_push_of_apart (apart_foldl hj l List.IsChain.nil)

end MsSanitizer.Compaction
