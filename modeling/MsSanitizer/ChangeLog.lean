import Mathlib.Data.List.Destutter
import Mathlib.Tactic

/-!
Logs of a value that changes.

A value may be noted in a log at any time, and it has to be noted before another one takes its
place, unless it is blank. Then the log and the value at the end go through the same changes as the
value has: repetitions and blanks aside, nothing is lost.
-/

namespace MsSanitizer.ChangeLog

variable {κ : Type*} [DecidableEq κ] {l : List κ} {x : κ}

/-! ### Lists without repetitions in a row -/

lemma destutter'_concat (l : List κ) (a x : κ) :
    (l ++ [x]).destutter' (· ≠ ·) a =
      if (a :: l).getLast? = some x then l.destutter' (· ≠ ·) a
      else l.destutter' (· ≠ ·) a ++ [x] := by
  induction l generalizing a with
  | nil => by_cases h : a = x <;> simp [h]
  | cons b l ih =>
    rw [List.cons_append, List.destutter'_cons, List.destutter'_cons, ih, ih]
    by_cases h : a = b
    · simp [h]
    · simp only [ne_eq, h, not_false_eq_true, if_true, List.getLast?_cons_cons]
      split_ifs <;> rfl

lemma destutter_concat (l : List κ) (x : κ) :
    (l ++ [x]).destutter (· ≠ ·) =
      if l.getLast? = some x then l.destutter (· ≠ ·) else l.destutter (· ≠ ·) ++ [x] := by
  cases l with
  | nil => rfl
  | cons a l => exact destutter'_concat l a x

lemma getLast?_destutter (l : List κ) : (l.destutter (· ≠ ·)).getLast? = l.getLast? := by
  induction l using List.reverseRecOn with
  | nil => rfl
  | append_singleton l x ih =>
    rw [destutter_concat]
    split_ifs with h
    · rw [ih, h, List.getLast?_concat]
    · simp

lemma mem_destutter : x ∈ l.destutter (· ≠ ·) ↔ x ∈ l := by
  refine ⟨fun h => (List.destutter_sublist _ l).subset h, fun h => ?_⟩
  induction l using List.reverseRecOn with
  | nil => cases h
  | append_singleton l y ih =>
    rw [destutter_concat]
    split_ifs with hlast
    · rcases List.mem_append.mp h with h | h
      · exact ih h
      · rw [List.mem_singleton.mp h]
        exact List.mem_of_getLast? (by rw [getLast?_destutter, hlast])
    · rcases List.mem_append.mp h with h | h
      · exact List.mem_append_left _ (ih h)
      · exact List.mem_append_right _ h

lemma head?_destutter (l : List κ) : (l.destutter (· ≠ ·)).head? = l.head? := by
  induction l using List.reverseRecOn with
  | nil => rfl
  | append_singleton l x ih =>
    rw [destutter_concat]
    cases l with
    | nil => rfl
    | cons a l =>
      split_ifs
      · exact ih
      · rw [List.head?_append, ih]
        rfl

/-! ### The changes of a value -/

/-- The values of a list without the blanks and without repetitions in a row. -/
def changes (blank : κ) (l : List κ) : List κ := (l.filter (· ≠ blank)).destutter (· ≠ ·)

def push (blank : κ) (acc : List κ) (x : κ) : List κ :=
  if x = blank ∨ acc.getLast? = some x then acc else acc ++ [x]

variable {blank : κ}

lemma changes_concat (l : List κ) (x : κ) :
    changes blank (l ++ [x]) = push blank (changes blank l) x := by
  rw [changes, changes, push, List.filter_append, getLast?_destutter]
  by_cases hx : x = blank
  · simp [hx]
  · have hfilter : [x].filter (· ≠ blank) = [x] := by simp [hx]
    rw [hfilter, destutter_concat]
    simp only [hx, false_or]

@[simp] lemma push_blank (acc : List κ) : push blank acc blank = acc := by simp [push]

@[simp] lemma push_push (acc : List κ) (x : κ) :
    push blank (push blank acc x) x = push blank acc x := by
  unfold push
  by_cases h : x = blank ∨ acc.getLast? = some x
  · rw [if_pos h, if_pos h]
  · rw [if_neg h, if_pos (.inr (by simp))]

lemma mem_changes : x ∈ changes blank l ↔ x ≠ blank ∧ x ∈ l := by
  rw [changes, mem_destutter]
  simp [and_comm]

lemma head?_changes (blank : κ) (l : List κ) :
    (changes blank l).head? = (l.filter (· ≠ blank)).head? := head?_destutter _

/-! ### A log -/

/-- A value with what has been noted of it. -/
structure Log (κ : Type*) where
  entries : List κ
  current : κ

def Log.told (blank : κ) (s : Log κ) : List κ := changes blank (s.entries ++ [s.current])

variable {s : Log κ}

lemma Log.told_note : Log.told blank ⟨s.entries ++ [s.current], s.current⟩ = s.told blank := by
  rw [Log.told, Log.told, changes_concat, changes_concat, push_push]

lemma Log.told_overwrite (x : κ) :
    Log.told blank ⟨s.entries ++ [s.current], x⟩ = push blank (s.told blank) x := by
  rw [Log.told, Log.told, changes_concat]

lemma Log.told_set (h : s.current = blank ∨ x = s.current) :
    Log.told blank ⟨s.entries, x⟩ = push blank (s.told blank) x := by
  rw [Log.told, Log.told, changes_concat, changes_concat]
  rcases h with h | h
  · rw [h, push_blank]
  · rw [h, push_push]

end MsSanitizer.ChangeLog
