import Mathlib.Order.Lattice
import Mathlib.Tactic.ByContra

/-!
# Moving a frontier

A frontier is moved forward over covered points until it has passed an end or does not move. When
it only stops at a point that is not covered, it passes the end exactly if everything before the
end is covered.
-/

namespace MsSanitizer.Frontier

variable {α : Type*} [LinearOrder α] {next : α → α} {Covered : α → Prop}

/-- `next` passes covered points only, and moves wherever it stands on one. -/
structure Advances (next : α → α) (Covered : α → Prop) : Prop where
  le : ∀ c, c ≤ next c
  covers : ∀ c x, c ≤ x → x < next c → Covered x
  stuck : ∀ c, next c = c → ¬ Covered c

/-- The frontier comes to rest at `r` when it starts at `c`: behind the end `e`, or where it does
not move. -/
inductive Rests (next : α → α) (e : α) : α → α → Prop
  | passed {c : α} (h : e ≤ c) : Rests next e c c
  | stuck {c : α} (h : next c = c) : Rests next e c c
  | move {c r : α} (hlt : c < e) (h : Rests next e (next c) r) : Rests next e c r

/-- **Coverage by a frontier.** -/
lemma Rests.le_iff {e c r : α} (hrests : Rests next e c r) (h : Advances next Covered) :
    e ≤ r ↔ ∀ x, c ≤ x → x < e → Covered x := by
  induction hrests with
  | passed hpassed =>
    exact iff_of_true hpassed fun x hcx hxe => absurd (hpassed.trans hcx) (not_le.mpr hxe)
  | @stuck c hstuck =>
    refine ⟨fun hle x hcx hxe => absurd (hle.trans hcx) (not_le.mpr hxe), fun hall => ?_⟩
    by_contra hlt
    exact h.stuck c hstuck (hall c le_rfl (not_le.mp hlt))
  | @move c r hlt _ ih =>
    rw [ih]
    constructor
    · intro hall x hcx hxe
      rcases lt_or_ge x (next c) with hx | hx
      · exact h.covers c x hcx hx
      · exact hall x hx hxe
    · intro hall x hcx hxe
      exact hall x ((h.le c).trans hcx) hxe

end MsSanitizer.Frontier
