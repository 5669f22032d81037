import Mathlib.Data.Finset.Card
import Mathlib.Order.Interval.Finset.Nat
import MsSanitizer.Bounds

/-!
What `Check` counts.

The bytes of an access are `addr + k` for `k < size`, over the unbounded integers: an
access that runs past the last address has bytes that no range holds. A byte is good when
some range with the right permission holds it.
-/

namespace MsSanitizer.BoundsCheck

open MsSanitizer.RecordDefs MsSanitizer.Segs MsSanitizer.Words MsSanitizer.Bounds

/-- Byte `y` lies in a range whose permission admits the access. -/
def Good (accessType : AccessType) (ranges : List Range) (y : ℕ) : Prop :=
  ∃ r ∈ ranges, hasPermission r.permission accessType = true ∧ r.addrL ≤ y ∧ y < r.addrR

instance (accessType : AccessType) (ranges : List Range) (y : ℕ) :
    Decidable (Good accessType ranges y) :=
  inferInstanceAs (Decidable (∃ r ∈ ranges, _))

def goodBytes (addr size : ℕ) (accessType : AccessType) (ranges : List Range) : Finset ℕ :=
  (Finset.range size).filter fun k => Good accessType ranges (addr + k)

def badBytes (addr size : ℕ) (accessType : AccessType) (ranges : List Range) : Finset ℕ :=
  (Finset.range size).filter fun k => ¬ Good accessType ranges (addr + k)

variable {addr size : ℕ} {accessType : AccessType}

@[simp] lemma mem_goodBytes {ranges : List Range} {k : ℕ} :
    k ∈ goodBytes addr size accessType ranges ↔ k < size ∧ Good accessType ranges (addr + k) := by
  simp [goodBytes]

@[simp] lemma mem_badBytes {ranges : List Range} {k : ℕ} :
    k ∈ badBytes addr size accessType ranges ↔ k < size ∧ ¬ Good accessType ranges (addr + k) := by
  simp [badBytes]

@[simp] lemma good_nil (y : ℕ) : ¬ Good accessType [] y := by simp [Good]

lemma good_cons {r : Range} {ranges : List Range} {y : ℕ} :
    Good accessType (r :: ranges) y ↔
      (hasPermission r.permission accessType = true ∧ r.addrL ≤ y ∧ y < r.addrR) ∨
        Good accessType ranges y := by
  simp [Good]

lemma good_append {l m : List Range} {y : ℕ} :
    Good accessType (l ++ m) y ↔ Good accessType l y ∨ Good accessType m y := by
  simp only [Good, List.mem_append, or_and_right, exists_or]

lemma card_good_add_bad (addr size : ℕ) (accessType : AccessType) (ranges : List Range) :
    (goodBytes addr size accessType ranges).card + (badBytes addr size accessType ranges).card
      = size := by
  unfold goodBytes badBytes
  rw [Finset.card_filter_add_card_filter_not, Finset.card_range]

/-! ### One range -/

lemma overlapSize_eq {r : Range} (hr : r.addrR < 2 ^ 64) (hs : size < 2 ^ 64) :
    overlapSize r addr size = min size (r.addrR - addr) - (r.addrL - addr) := by
  unfold overlapSize
  by_cases h1 : r.addrR ≤ addr ∨ r.addrR ≤ r.addrL
  · rw [if_pos h1]; omega
  rw [if_neg h1]
  by_cases h2 : addr < r.addrL
  · rw [if_pos h2, sub64_eq h2.le (by omega), sub64_eq (by omega : r.addrL ≤ r.addrR) hr]
    by_cases h3 : r.addrL - addr < size
    · rw [if_pos h3, sub64_eq h3.le hs]; omega
    · rw [if_neg h3]; omega
  · rw [if_neg h2, sub64_eq (by omega) hr]; omega

lemma overlapSize_card {r : Range} (hr : r.addrR < 2 ^ 64) (hs : size < 2 ^ 64) :
    overlapSize r addr size =
      ((Finset.range size).filter fun k => r.addrL ≤ addr + k ∧ addr + k < r.addrR).card := by
  have hico : (Finset.range size).filter (fun k => r.addrL ≤ addr + k ∧ addr + k < r.addrR)
      = Finset.Ico (r.addrL - addr) (min size (r.addrR - addr)) := by
    ext k
    simp only [Finset.mem_filter, Finset.mem_range, Finset.mem_Ico]
    omega
  rw [hico, Nat.card_Ico, overlapSize_eq hr hs]

/-! ### The loop -/

lemma goodBytes_nil : goodBytes addr size accessType [] = ∅ := by
  ext k; simp

lemma goodBytes_cons_of_not {r : Range} (ranges : List Range)
    (h : hasPermission r.permission accessType = false) :
    goodBytes addr size accessType (r :: ranges) = goodBytes addr size accessType ranges := by
  ext k; simp [good_cons, h]

/-- The ranges of a laid out list share no byte, so their overlaps add up. -/
lemma card_goodBytes_cons {r : Range} {ranges : List Range} (hl : Laid (r :: ranges))
    (hr : r.addrR < 2 ^ 64) (hs : size < 2 ^ 64)
    (h : hasPermission r.permission accessType = true) :
    (goodBytes addr size accessType (r :: ranges)).card =
      overlapSize r addr size + (goodBytes addr size accessType ranges).card := by
  have hord := (laid_cons.mp hl).2.1
  simp only [hi_eq, lo_eq] at hord
  rw [overlapSize_card hr hs, ← Finset.card_union_of_disjoint]
  · congr 1
    ext k
    simp only [mem_goodBytes, good_cons, h, true_and, Finset.mem_union, Finset.mem_filter,
      Finset.mem_range]
    tauto
  · rw [Finset.disjoint_left]
    intro k hk hk'
    obtain ⟨-, t, ht, -, h1, h2⟩ := mem_goodBytes.mp hk'
    have := hord t ht
    have := (Finset.mem_filter.mp hk).2
    omega

/-- Past the last byte of the access there is nothing to count. -/
lemma goodBytes_eq_empty {ranges : List Range} (h : ∀ r ∈ ranges, addr + size ≤ r.addrL) :
    goodBytes addr size accessType ranges = ∅ := by
  ext k
  simp only [mem_goodBytes, Finset.notMem_empty, iff_false]
  rintro ⟨hk, r, hr, -, h1, -⟩
  have := h r hr
  omega

/-- Every subtraction of the loop takes no more than is left. -/
def NoUnderflow (addr size : ℕ) (accessType : AccessType) : ℕ → List Range → Prop
  | _, [] => True
  | badBytes, it :: rest =>
    if addr ≤ it.addrL ∧ size ≤ sub64 it.addrL addr then True
    else if hasPermission it.permission accessType then
      overlapSize it addr size ≤ badBytes ∧
        NoUnderflow addr size accessType (sub64 badBytes (overlapSize it addr size)) rest
    else NoUnderflow addr size accessType badBytes rest

lemma countBad_spec {ranges : List Range} (hl : Laid ranges) (hr : ∀ r ∈ ranges, r.addrR < 2 ^ 64)
    (hs : size < 2 ^ 64) {bad : ℕ} (hb : bad < 2 ^ 64)
    (hle : (goodBytes addr size accessType ranges).card ≤ bad) :
    countBad addr size accessType bad ranges =
        bad - (goodBytes addr size accessType ranges).card ∧
      NoUnderflow addr size accessType bad ranges := by
  induction ranges generalizing bad with
  | nil => simp [countBad, goodBytes_nil, NoUnderflow]
  | cons it rest ih =>
    obtain ⟨hi, hir, hrest⟩ := laid_cons.mp hl
    simp only [lo_eq, hi_eq] at hi hir
    have hit : it.addrR < 2 ^ 64 := hr it (by simp)
    have hr' : ∀ r ∈ rest, r.addrR < 2 ^ 64 := fun r h => hr r (by simp [h])
    rw [countBad, NoUnderflow]
    by_cases h1 : addr ≤ it.addrL ∧ size ≤ sub64 it.addrL addr
    · -- the early exit
      have hsub := sub64_eq h1.1 (by omega)
      have hempty : goodBytes addr size accessType (it :: rest) = ∅ := by
        refine goodBytes_eq_empty fun r hr => ?_
        rcases List.mem_cons.mp hr with rfl | hr
        · omega
        · have := hir r hr; omega
      simp [if_pos h1, hempty]
    rw [if_neg h1, if_neg h1]
    rcases hp : hasPermission it.permission accessType with _ | _
    · rw [goodBytes_cons_of_not rest hp] at hle ⊢
      simpa using ih hrest hr' hb hle
    · rw [card_goodBytes_cons hl hit hs hp] at hle ⊢
      have hsub : sub64 bad (overlapSize it addr size) = bad - overlapSize it addr size :=
        sub64_eq (by omega) hb
      have hle' : (goodBytes addr size accessType rest).card ≤ bad - overlapSize it addr size := by
        omega
      obtain ⟨hc, hn⟩ := ih hrest hr' (by omega) hle'
      simp only [if_true, hsub]
      exact ⟨by rw [hc]; omega, by omega, hn⟩

/-- The search for the first range skips only ranges that hold no byte of the access. -/
lemma goodBytes_append_left {before after : List Range} (h : ∀ r ∈ before, r.addrR ≤ addr) :
    goodBytes addr size accessType (before ++ after) = goodBytes addr size accessType after := by
  ext k
  have hb : ¬ Good accessType before (addr + k) := by
    rintro ⟨r, hr, -, -, h2⟩
    have := h r hr
    omega
  simp [good_append, hb]

lemma check_eq {ranges : List Range} (hl : Laid ranges) (hr : ∀ r ∈ ranges, r.addrR < 2 ^ 64)
    (hs : size < 2 ^ 64) (hpos : 0 < size) :
    check addr size accessType ranges =
        (if 0 < (badBytes addr size accessType ranges).card then
          badAccess addr (badBytes addr size accessType ranges).card else {}) ∧
      NoUnderflow addr size accessType size (upperBound (fun b => addr < b.addrR) ranges).2 := by
  obtain ⟨before, after, hsp, rfl, hb, -⟩ := hl.split_hi addr
  simp only [hi_eq] at hsp hb
  have hcard := card_good_add_bad addr size accessType (before ++ after)
  have hgood : goodBytes addr size accessType (before ++ after)
      = goodBytes addr size accessType after := goodBytes_append_left hb
  rw [hgood] at hcard
  have hle : (goodBytes addr size accessType after).card ≤ size := by omega
  obtain ⟨hc, hn⟩ := countBad_spec (laid_append.mp hl).2.1 (fun r h => hr r (by simp [h])) hs hs hle
  have hcount : countBad addr size accessType size after
      = (badBytes addr size accessType (before ++ after)).card := by omega
  unfold check
  rw [if_neg (by omega)]
  simp only [hsp, hcount]
  exact ⟨trivial, hn⟩

/-- The single range of `UnionBounds` obeys the same count. -/
lemma unionCheck_eq {range : Range} (hr : range.addrR < 2 ^ 64) (hs : size < 2 ^ 64)
    (hpos : 0 < size) :
    unionCheck addr size accessType range =
      if 0 < (badBytes addr size accessType [range]).card then
        badAccess addr (badBytes addr size accessType [range]).card else {} := by
  have hcard := card_good_add_bad addr size accessType [range]
  have hov : (if hasPermission range.permission accessType then overlapSize range addr size else 0)
      = (goodBytes addr size accessType [range]).card := by
    rcases hp : hasPermission range.permission accessType with _ | _
    · simp [goodBytes_cons_of_not [] hp, goodBytes_nil]
    · rw [if_pos rfl, overlapSize_card hr hs]
      congr 1
      ext k
      simp [good_cons, hp]
  unfold unionCheck
  rw [if_neg (by omega)]
  simp only [hov]
  by_cases hlt : (goodBytes addr size accessType [range]).card < size
  · rw [if_pos hlt, if_pos (by omega), sub64_eq hlt.le hs]
    congr 1
    omega
  · rw [if_neg hlt, if_neg (by omega)]

lemma badBytes_pos_iff (ranges : List Range) :
    0 < (badBytes addr size accessType ranges).card ↔
      ∃ k < size, ¬ Good accessType ranges (addr + k) := by
  rw [Finset.card_pos]
  constructor
  · rintro ⟨k, hk⟩
    exact ⟨k, mem_badBytes.mp hk⟩
  · rintro ⟨k, hk⟩
    exact ⟨k, mem_badBytes.mpr hk⟩

/-- A message that carries a count and is an error when the count is positive. -/
def Reports (msg : ErrorMsg) (addr size : ℕ) (accessType : AccessType) (ranges : List Range) :
    Prop :=
  (msg.isError = true ↔ ∃ k < size, ¬ Good accessType ranges (addr + k)) ∧
    msg.auxData.nBadBytes = (badBytes addr size accessType ranges).card

lemma reports_of_eq {msg : ErrorMsg} {ranges : List Range}
    (h : msg = if 0 < (badBytes addr size accessType ranges).card then
      badAccess addr (badBytes addr size accessType ranges).card else {}) :
    Reports msg addr size accessType ranges := by
  subst h
  rw [Reports, ← badBytes_pos_iff]
  by_cases hb : 0 < (badBytes addr size accessType ranges).card
  · simp [hb, badAccess]
  · have h0 : (badBytes addr size accessType ranges).card = 0 := by omega
    simp [h0]

/-- **`Check` counts the bad bytes exactly**, over sorted disjoint ranges and over a single
range, for accesses anywhere in the 64-bit space. -/
theorem check_reports {ranges : List Range} (hl : Laid ranges)
    (hr : ∀ r ∈ ranges, r.addrR < 2 ^ 64) {range : Range} (hu : range.addrR < 2 ^ 64)
    (addr : ℕ) {size : ℕ} (hs : size < 2 ^ 64) (hpos : 0 < size) (accessType : AccessType) :
    Reports (check addr size accessType ranges) addr size accessType ranges ∧
      NoUnderflow addr size accessType size (upperBound (fun b => addr < b.addrR) ranges).2 ∧
      Reports (unionCheck addr size accessType range) addr size accessType [range] := by
  obtain ⟨hc, hn⟩ := @check_eq addr size accessType ranges hl hr hs hpos
  exact ⟨reports_of_eq hc, hn, reports_of_eq (unionCheck_eq hu hs hpos)⟩

/-- The last sixteen addresses are accessible and an access runs sixteen bytes past them. -/
theorem check_reports_at : Reports
    (check (2 ^ 64 - 17) 32 .read [⟨2 ^ 64 - 17, 2 ^ 64 - 1, 3⟩]) (2 ^ 64 - 17) 32 .read
      [⟨2 ^ 64 - 17, 2 ^ 64 - 1, 3⟩] :=
  (@check_reports [⟨2 ^ 64 - 17, 2 ^ 64 - 1, 3⟩] (laid_singleton.mpr (by decide)) (by decide)
    ⟨0, 0, 0⟩ (by decide) (2 ^ 64 - 17) 32 (by decide) (by decide) .read).1

end MsSanitizer.BoundsCheck
