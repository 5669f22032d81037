import Mathlib.Tactic

/-!
# Maximal runs

An ascending list of numbers falls into runs of consecutive ones. The runs are maximal when
between one and the next a number is missing.
-/

namespace MsSanitizer.ConsecutiveRuns

/-- The numbers from `first` to `last`. -/
structure Run where
  first : ℕ
  last : ℕ
  le : first ≤ last
  deriving DecidableEq, Repr

def Run.elems (r : Run) : List ℕ := List.range' r.first (r.last + 1 - r.first)

def expand (runs : List Run) : List ℕ := runs.flatMap Run.elems

/-- No run could be made longer by the one after it. -/
def Maximal (runs : List Run) : Prop := runs.Pairwise fun r r' => r.last + 1 < r'.first

lemma expand_concat (runs : List Run) (r : Run) :
    expand (runs ++ [r]) = expand runs ++ r.elems := by
  rw [expand, List.flatMap_append, List.flatMap_singleton]
  rfl

lemma maximal_concat {runs : List Run} {r : Run} (h : Maximal runs)
    (hr : ∀ r' ∈ runs, r'.last + 1 < r.first) : Maximal (runs ++ [r]) := by
  refine List.pairwise_append.mpr ⟨h, List.pairwise_singleton _ _, fun r' hr' s hs => ?_⟩
  rw [List.mem_singleton.mp hs]
  exact hr r' hr'

lemma elems_eq_of_getElem (xs : List ℕ) {i j a : ℕ} (hij : i ≤ j) (hj : j < xs.length)
    (h : ∀ k (hk : k < xs.length), i ≤ k → k ≤ j → xs[k] = a + (k - i)) :
    (Run.mk a (a + (j - i)) (Nat.le_add_right _ _)).elems = (xs.take (j + 1)).drop i := by
  refine List.ext_getElem (by simp [Run.elems]; omega) fun n h1 h2 => ?_
  simp only [Run.elems, List.length_range'] at h1
  rw [List.getElem_drop, List.getElem_take, h (i + n) (by omega) (by omega) (by omega)]
  simp [Run.elems]

end MsSanitizer.ConsecutiveRuns
