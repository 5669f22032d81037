import Mathlib.Tactic

/-!
Unsigned machine arithmetic on natural numbers.

A machine word is a natural number below a power of two. The operations wrap as the
machine's do; the lemmas say when they do not, which is what a range proof needs.
-/

namespace MsSanitizer.Words

def add64 (a b : ℕ) : ℕ := (a + b) % 2 ^ 64
def sub64 (a b : ℕ) : ℕ := (a + (2 ^ 64 - b)) % 2 ^ 64
def mul64 (a b : ℕ) : ℕ := (a * b) % 2 ^ 64
def not64 (a : ℕ) : ℕ := 2 ^ 64 - 1 - a

lemma add64_eq {a b : ℕ} (h : a + b < 2 ^ 64) : add64 a b = a + b :=
  Nat.mod_eq_of_lt h

lemma sub64_eq {a b : ℕ} (h : b ≤ a) (ha : a < 2 ^ 64) : sub64 a b = a - b := by
  have hs : a + (2 ^ 64 - b) = (a - b) + 2 ^ 64 := by omega
  rw [sub64, hs, Nat.add_mod_right, Nat.mod_eq_of_lt (by omega)]

lemma mul64_eq {a b : ℕ} (h : a * b < 2 ^ 64) : mul64 a b = a * b :=
  Nat.mod_eq_of_lt h

lemma add64_zero {a : ℕ} (h : a < 2 ^ 64) : add64 a 0 = a := add64_eq (by omega)

end MsSanitizer.Words
