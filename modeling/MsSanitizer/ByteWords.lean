import Mathlib.Data.Nat.Bitwise
import Mathlib.Tactic

/-!
Machine words as little-endian strings of bytes.

Bitwise operations act on a word byte by byte. So do complement, and subtraction of one
from every byte as long as no byte is zero; at the lowest zero byte the subtraction borrows
and leaves the top bit of that byte set. That is why the usual one-line test for a zero
byte is exact, for words of any length.
-/

namespace MsSanitizer.ByteWords

/-- The number a string of bytes stands for, lowest byte first. -/
def val : List UInt8 → ℕ
  | [] => 0
  | b :: bs => b.toNat + 256 * val bs

/-- The word of `n` equal bytes. -/
def rep (n : ℕ) (b : UInt8) : ℕ := val (List.replicate n b)

@[simp] lemma val_nil : val [] = 0 := rfl
@[simp] lemma val_cons (b : UInt8) (bs : List UInt8) : val (b :: bs) = b.toNat + 256 * val bs := rfl

lemma rep_succ (n : ℕ) (b : UInt8) : rep (n + 1) b = b.toNat + 256 * rep n b := by
  simp [rep, List.replicate_succ]

lemma val_lt (bs : List UInt8) : val bs < 256 ^ bs.length := by
  induction bs with
  | nil => simp
  | cons b bs ih =>
    have hb := b.toNat_lt
    simp only [val_cons, List.length_cons, pow_succ]
    omega

lemma val_inj {xs ys : List UInt8} (hlen : xs.length = ys.length) (h : val xs = val ys) :
    xs = ys := by
  induction xs generalizing ys with
  | nil => simpa using hlen.symm
  | cons x xs ih =>
    rcases ys with _ | ⟨y, ys⟩
    · simp at hlen
    have hx := x.toNat_lt
    have hy := y.toNat_lt
    simp only [val_cons] at h
    have hxy : x = y := UInt8.toNat_inj.mp (by omega)
    rw [hxy, ih (by simpa using hlen) (by omega)]

/-- A word equals a word of equal bytes when all its bytes do. -/
lemma val_eq_rep_iff {bs : List UInt8} {n : ℕ} (hlen : bs.length = n) (b : UInt8) :
    val bs = rep n b ↔ ∀ c ∈ bs, c = b := by
  constructor
  · intro h
    have := val_inj (by simpa using hlen) h
    intro c hc
    rw [this] at hc
    exact List.eq_of_mem_replicate hc
  · intro h
    rw [rep, ← hlen, ← List.eq_replicate_of_mem h]

/-! ### Operations byte by byte -/

lemma land_byte {r s : ℕ} (hr : r < 256) (hs : s < 256) (x y : ℕ) :
    (r + 256 * x) &&& (s + 256 * y) = (r &&& s) + 256 * (x &&& y) := by
  have hlt : r &&& s < 2 ^ 8 := Nat.and_lt_two_pow r (by simpa using hs)
  have hmod : ((r + 256 * x) &&& (s + 256 * y)) % 2 ^ 8 = r &&& s := by
    rw [Nat.and_mod_two_pow]
    congr 1 <;> omega
  have hdiv : ((r + 256 * x) &&& (s + 256 * y)) / 2 ^ 8 = x &&& y := by
    rw [Nat.and_div_two_pow]
    congr 1 <;> omega
  omega

lemma xor_byte {r s : ℕ} (hr : r < 256) (hs : s < 256) (x y : ℕ) :
    (r + 256 * x) ^^^ (s + 256 * y) = (r ^^^ s) + 256 * (x ^^^ y) := by
  have hlt : r ^^^ s < 2 ^ 8 := Nat.xor_lt_two_pow (by simpa using hr) (by simpa using hs)
  have hmod : ((r + 256 * x) ^^^ (s + 256 * y)) % 2 ^ 8 = r ^^^ s := by
    rw [Nat.xor_mod_two_pow]
    congr 1 <;> omega
  have hdiv : ((r + 256 * x) ^^^ (s + 256 * y)) / 2 ^ 8 = x ^^^ y := by
    rw [Nat.xor_div_two_pow]
    congr 1 <;> omega
  omega

/-- Comparing every byte with `s` under the mask `m`. -/
lemma val_diff (bs : List UInt8) (s m : UInt8) :
    (val bs ^^^ rep bs.length s) &&& rep bs.length m = val (bs.map fun b => (b ^^^ s) &&& m) := by
  induction bs with
  | nil => simp [rep]
  | cons b bs ih =>
    have hx : b.toNat ^^^ s.toNat < 256 := by
      rw [← UInt8.toNat_xor]; exact UInt8.toNat_lt _
    rw [List.length_cons, rep_succ, rep_succ, val_cons, xor_byte b.toNat_lt s.toNat_lt,
      land_byte hx m.toNat_lt, ih, List.map_cons, val_cons, UInt8.toNat_and, UInt8.toNat_xor]

/-! ### The test for a zero byte -/

/-- `(w - 0x01…01) & ~w & 0x80…80` on words of `n` bytes. -/
def zeroTest (n w : ℕ) : ℕ :=
  (w + (256 ^ n - rep n 1)) % 256 ^ n &&& (256 ^ n - 1 - w) &&& rep n 128

lemma rep_lt (n : ℕ) (b : UInt8) : rep n b < 256 ^ n := by
  have h := val_lt (List.replicate n b)
  rwa [List.length_replicate] at h

set_option maxRecDepth 4096 in
/-- A nonzero byte does not borrow, and the test leaves nothing of it. -/
lemma byte_pos {b : ℕ} (h0 : b ≠ 0) (hb : b < 256) : (b - 1) &&& (255 - b) &&& 128 = 0 := by
  have hall : ∀ c < 256, c ≠ 0 → (c - 1) &&& (255 - c) &&& 128 = 0 := by decide
  exact hall b hb h0

/-- One byte of the test: what the test says of the rest, or a set top bit. -/
lemma zeroTest_cons (b : UInt8) {n w : ℕ} (hw : w < 256 ^ n) :
    (b.toNat ≠ 0 → zeroTest (n + 1) (b.toNat + 256 * w) = 256 * zeroTest n w) ∧
      (b.toNat = 0 → zeroTest (n + 1) (b.toNat + 256 * w) ≠ 0) := by
  have hb := b.toNat_lt
  have ho := rep_lt n 1
  have hcomp : 256 ^ (n + 1) - 1 - (b.toNat + 256 * w)
      = (255 - b.toNat) + 256 * (256 ^ n - 1 - w) := by
    rw [pow_succ]; omega
  have h1 : (1 : UInt8).toNat = 1 := rfl
  have h128 : (128 : UInt8).toNat = 128 := rfl
  unfold zeroTest
  rw [hcomp, rep_succ, rep_succ, h1, h128, pow_succ]
  constructor
  · intro h0
    have hsub : b.toNat + 256 * w + (256 ^ n * 256 - (1 + 256 * rep n 1))
        = (b.toNat - 1) + 256 * (w + (256 ^ n - rep n 1)) := by omega
    have hmod : ((b.toNat - 1) + 256 * (w + (256 ^ n - rep n 1))) % (256 ^ n * 256)
        = (b.toNat - 1) + 256 * ((w + (256 ^ n - rep n 1)) % 256 ^ n) := by
      rw [mul_comm (256 ^ n) 256, Nat.mod_mul]
      congr 1
      · omega
      · congr 2; omega
    rw [hsub, hmod, land_byte (by omega) (by omega), land_byte
      (lt_of_le_of_lt Nat.and_le_left (by omega)) (by omega), byte_pos h0 hb]
    omega
  · intro h0 hz
    -- the lowest byte of the difference is 255
    obtain ⟨k, hk⟩ : ∃ k, (b.toNat + 256 * w + (256 ^ n * 256 - (1 + 256 * rep n 1)))
        % (256 ^ n * 256) = 255 + 256 * k := by
      refine ⟨(b.toNat + 256 * w + (256 * 256 ^ n - (1 + 256 * rep n 1))) / 256 % 256 ^ n, ?_⟩
      rw [mul_comm (256 ^ n) 256, Nat.mod_mul]
      congr 1
      omega
    rw [hk, h0, land_byte (by omega) (by omega), land_byte (by decide) (by omega)] at hz
    have : (255 &&& (255 - 0) &&& 128 : ℕ) = 128 := by decide
    omega

/-- **The zero-byte test is exact.** -/
theorem zeroTest_ne_zero_iff (bs : List UInt8) :
    zeroTest bs.length (val bs) ≠ 0 ↔ (0 : UInt8) ∈ bs := by
  induction bs with
  | nil => simp [zeroTest]
  | cons b bs ih =>
    have hstep := zeroTest_cons b (val_lt bs)
    rw [List.length_cons, val_cons, List.mem_cons]
    by_cases h0 : b.toNat = 0
    · have hb : 0 = b := (UInt8.toNat_inj.mp (by simpa using h0)).symm
      simp only [hb, true_or, iff_true]
      exact hstep.2 h0
    · have hb : ¬ 0 = b := fun h => h0 (by rw [← h]; rfl)
      rw [hstep.1 h0]
      simp only [hb, false_or, ← ih]
      omega

/-- The string of `n` bytes of a number. -/
def bytesOf : ℕ → ℕ → List UInt8
  | 0, _ => []
  | n + 1, v => UInt8.ofNat v :: bytesOf n (v / 256)

@[simp] lemma length_bytesOf (n v : ℕ) : (bytesOf n v).length = n := by
  induction n generalizing v with
  | zero => rfl
  | succ n ih => simp [bytesOf, ih]

lemma val_bytesOf {n v : ℕ} (h : v < 256 ^ n) : val (bytesOf n v) = v := by
  induction n generalizing v with
  | zero =>
    have : v = 0 := by simpa using h
    simp [bytesOf, this]
  | succ n ih =>
    have hdiv : v / 256 < 256 ^ n := by
      rw [pow_succ] at h
      omega
    simp only [bytesOf, val_cons, ih hdiv, UInt8.toNat_ofNat']
    omega

lemma bytesOf_val (bs : List UInt8) : bytesOf bs.length (val bs) = bs :=
  val_inj (by simp) (val_bytesOf (val_lt bs))

end MsSanitizer.ByteWords
