import Mathlib.Tactic

/-!
Arrays that are written range by range, and loops that walk over a range in pieces.

After a run of writes a cell holds the value of the last write that covers it. A store
refines that description when one write does what it should to every cell; the run lemma
then carries it over any number of writes.
-/

namespace MsSanitizer.RangeWrites

/-- A write of one value to the cells `[addr, addr + size)`. -/
structure Write (β : Type*) where
  addr : ℕ
  size : ℕ
  val : β
  deriving DecidableEq, Repr

variable {β σ : Type*}

def Write.Covers (w : Write β) (a : ℕ) : Prop := w.addr ≤ a ∧ a < w.addr + w.size

instance (w : Write β) (a : ℕ) : Decidable (w.Covers a) :=
  inferInstanceAs (Decidable (_ ∧ _))

/-- The value of the last write that covers the cell, or the initial value. -/
def last (init : β) (ws : List (Write β)) (a : ℕ) : β :=
  ((ws.reverse.find? fun w => decide (w.Covers a)).map Write.val).getD init

@[simp] lemma last_nil (init : β) (a : ℕ) : last init [] a = init := rfl

lemma last_concat (init : β) (ws : List (Write β)) (w : Write β) (a : ℕ) :
    last init (ws ++ [w]) a = if w.Covers a then w.val else last init ws a := by
  unfold last
  rw [List.reverse_append, List.reverse_singleton, List.singleton_append, List.find?_cons]
  by_cases h : w.Covers a
  · simp [h]
  · simp [h]

/-- **A run of writes.** When every admitted write keeps the invariant and acts on the
cells of a domain as it should, a run of them leaves the last value everywhere. -/
theorem foldl_last {get : σ → ℕ → β} {set : σ → Write β → σ} {Inv : σ → Prop}
    {Ok : Write β → Prop} {Dom : ℕ → Prop}
    (hstep : ∀ s w, Inv s → Ok w → Inv (set s w) ∧
      ∀ a, Dom a → get (set s w) a = if w.Covers a then w.val else get s a)
    {s : σ} {init : β} (hinv : Inv s) (hinit : ∀ a, Dom a → get s a = init)
    (ws : List (Write β)) (hok : ∀ w ∈ ws, Ok w) :
    Inv (ws.foldl set s) ∧ ∀ a, Dom a → get (ws.foldl set s) a = last init ws a := by
  induction ws using List.reverseRecOn with
  | nil => exact ⟨hinv, hinit⟩
  | append_singleton ws w ih =>
    obtain ⟨hi, hg⟩ := ih fun v hv => hok v (by simp [hv])
    obtain ⟨hi', hg'⟩ := hstep _ w hi (hok w (by simp))
    rw [List.foldl_append, List.foldl_cons, List.foldl_nil]
    refine ⟨hi', fun a ha => ?_⟩
    rw [hg' a ha, last_concat, hg a ha]

/-! ### Walking over a range -/

/-- The loop from `it` to `e` that asks for the length of the next piece and works on it;
the first argument bounds the number of iterations. -/
def walk (len : σ → ℕ → ℕ) (body : σ → ℕ → ℕ → σ) (e : ℕ) : ℕ → ℕ → σ → σ
  | 0, _, s => s
  | n + 1, it, s =>
    if it < e then walk len body e n (it + len s it) (body s it (len s it)) else s

/-- **The invariant rule of the walk.** Pieces that are never empty and never pass the end
take the invariant from the start of the range to its end. -/
theorem walk_inv {len : σ → ℕ → ℕ} {body : σ → ℕ → ℕ → σ} {e : ℕ} (Inv : ℕ → σ → Prop)
    (Post : σ → Prop) (hpost : ∀ s, Inv e s → Post s)
    (hstep : ∀ it s, it < e → Inv it s →
      1 ≤ len s it ∧ it + len s it ≤ e ∧ Inv (it + len s it) (body s it (len s it)))
    {n it : ℕ} {s : σ} (hle : it ≤ e) (hn : e ≤ it + n) (hinv : Inv it s) :
    Post (walk len body e n it s) := by
  apply hpost
  induction n generalizing it s with
  | zero =>
    have : it = e := le_antisymm hle hn
    exact this ▸ hinv
  | succ n ih =>
    unfold walk
    split_ifs with h
    · obtain ⟨h1, h2, h3⟩ := hstep it s h hinv
      exact ih h2 (by omega) h3
    · have : it = e := le_antisymm hle (not_lt.mp h)
      exact this ▸ hinv

/-- **Two walks in lockstep.** Pieces of the same length keep two walks at the same place. -/
theorem walk_rel {σ' : Type*} {len : σ → ℕ → ℕ} {body : σ → ℕ → ℕ → σ} {len' : σ' → ℕ → ℕ}
    {body' : σ' → ℕ → ℕ → σ'} {e : ℕ} (R : ℕ → σ → σ' → Prop)
    (hstep : ∀ it s s', it < e → R it s s' →
      len s it = len' s' it ∧ R (it + len s it) (body s it (len s it)) (body' s' it (len s it)))
    {n it : ℕ} {s : σ} {s' : σ'} (h : R it s s') :
    ∃ it', R it' (walk len body e n it s) (walk len' body' e n it s') := by
  induction n generalizing it s s' with
  | zero => exact ⟨it, h⟩
  | succ n ih =>
    unfold walk
    split_ifs with hlt
    · obtain ⟨hlen, hnext⟩ := hstep it s s' hlt h
      rw [← hlen]
      exact ih hnext
    · exact ⟨it, h⟩

end MsSanitizer.RangeWrites
