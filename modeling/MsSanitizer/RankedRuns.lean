import Mathlib.Tactic

/-!
# Runs that come to rest

A relation whose steps take from a weight has no long chains. What keeps a run from resting is left
at some point, when the run comes to rest.
-/

namespace MsSanitizer.RankedRuns

open Relation

variable {α : Type*} {r : α → α → Prop} {a b : α}

/-- A chain is no longer than the weight of its first element. -/
lemma length_le_of_isChain (weight : α → ℕ) (hr : ∀ x y, r x y → weight y < weight x)
    {l : List α} (h : List.IsChain r (a :: l)) : l.length ≤ weight a := by
  induction l generalizing a with
  | nil => exact Nat.zero_le _
  | cons x l ih =>
    obtain ⟨hstep, htail⟩ := List.isChain_cons_cons.mp h
    have hlt := hr a x hstep
    have hle := ih htail
    rw [List.length_cons]
    omega

variable {wait goal : α → Prop}

/-- A run either waits at its end or has got to its goal. -/
lemma waits_or_reaches
    (hstep : ∀ x y, ReflTransGen r a x → wait x → r x y → wait y ∨ goal y)
    (ha : wait a) (hab : ReflTransGen r a b) :
    wait b ∨ ∃ m, ReflTransGen r a m ∧ ReflTransGen r m b ∧ goal m := by
  induction hab with
  | refl => exact .inl ha
  | @tail x y hax hxy ih =>
    rcases ih with hwait | ⟨m, ham, hmx, hm⟩
    · rcases hstep x y hax hwait hxy with hwait | hgoal
      · exact .inl hwait
      · exact .inr ⟨y, hax.tail hxy, .refl, hgoal⟩
    · exact .inr ⟨m, ham, hmx.tail hxy, hm⟩

/-- A run that comes to rest has got to its goal, if something moves as long as it waits. -/
lemma reaches_of_rest (wait goal : α → Prop)
    (hstep : ∀ x y, ReflTransGen r a x → wait x → r x y → wait y ∨ goal y)
    (hmove : ∀ x, ReflTransGen r a x → wait x → ∃ y, r x y)
    (ha : wait a) (hab : ReflTransGen r a b) (hrest : ∀ c, ¬ r b c) :
    ∃ m, ReflTransGen r a m ∧ ReflTransGen r m b ∧ goal m := by
  rcases waits_or_reaches hstep ha hab with hwait | hm
  · obtain ⟨y, hy⟩ := hmove b hab hwait
    exact absurd hy (hrest y)
  · exact hm

end MsSanitizer.RankedRuns
