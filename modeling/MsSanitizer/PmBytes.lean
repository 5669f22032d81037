import MsSanitizer.Pm
import MsSanitizer.RangeWrites

/-!
A primary map is an array of bytes.

Whether a block has an array of its own or only a common value makes no difference to what
is read from it. `Set` writes the bytes of its range, `UnifiedSizeAfter` measures a run of
equal bytes and `RangeHasStatus` looks for a byte of a given status.
-/

namespace MsSanitizer.PmBytes

open MsSanitizer.Words MsSanitizer.ByteWords MsSanitizer.RangeWrites
open MsSanitizer.Pm MsSanitizer.Pm.PM

lemma blockSize_eq : blockSize = 65536 := by decide

lemma and_localMemMask {a : ℕ} (h : a < 2 ^ 36) : a &&& localMemMask = a := by
  have hm : localMemMask = 2 ^ 36 - 1 := by decide
  rw [hm, Nat.and_two_pow_sub_one_eq_mod, Nat.mod_eq_of_lt h]

lemma getBlockIdx_eq {a : ℕ} (h : a < 2 ^ 36) : getBlockIdx a = a / blockSize := by
  rw [getBlockIdx, and_localMemMask h]

lemma getBlockOffset_eq {a : ℕ} (h : a < 2 ^ 36) : getBlockOffset a = a % blockSize := by
  rw [getBlockOffset, and_localMemMask h]

lemma getBlockOffset_lt (a : ℕ) : getBlockOffset a < blockSize := Nat.mod_lt _ (by decide)

/-- Past the last address of the map the index starts again at the first block. -/
lemma getBlockIdx_wrap {a : ℕ} (h : 2 ^ 36 ≤ a) (h' : a < 2 ^ 36 + blockSize) :
    getBlockIdx a = 0 := by
  have hm : localMemMask = 2 ^ 36 - 1 := by decide
  rw [getBlockIdx, hm, Nat.and_two_pow_sub_one_eq_mod, blockSize_eq]
  rw [blockSize_eq] at h'
  omega

/-- What is read from a block does not depend on how the block is kept. -/
lemma getBits_eq (pm : PM) (a : ℕ) :
    pm.getBits a = pm.materialised (getBlockIdx a) (getBlockOffset a) := by
  unfold getBits materialised
  cases pm.smList (getBlockIdx a) with
  | none => rfl
  | some sm => rfl

/-! ### `Set` -/

@[simp] lemma setBlock_smNum (pm : PM) (addr size : ℕ) (bits : UInt8) (i : ℕ) :
    (pm.setBlock addr size bits i).smNum = pm.smNum := by
  unfold setBlock
  simp only
  split_ifs <;> rfl

/-- One block of `Set`, when the range reaches the block. -/
lemma setBlock_spec {pm : PM} {addr size i : ℕ} (bits : UInt8) (hw : addr + size < 2 ^ 64)
    (hl : addr < blockSize * (i + 1)) (hr : blockSize * i ≤ addr + size) {j o : ℕ}
    (ho : o < blockSize) :
    (pm.setBlock addr size bits i).materialised j o =
      if j = i ∧ addr ≤ blockSize * i + o ∧ blockSize * i + o < addr + size then bits
      else pm.materialised j o := by
  simp only [blockSize_eq] at hl hr ho ⊢
  unfold setBlock
  simp only [add64_eq hw, blockSize_eq]
  by_cases hfull : addr ≤ 65536 * i ∧ 65536 * i + 65536 ≤ addr + size
  · -- the whole block
    rw [if_pos hfull]
    by_cases hj : j = i
    · subst hj
      rw [if_pos ⟨rfl, by omega, by omega⟩]
      simp [materialised]
    · rw [if_neg fun h => hj h.1]
      simp [materialised, hj]
  · rw [if_neg hfull]
    by_cases hj : j = i
    · subst hj
      have hle : max addr (65536 * j) ≤ min (addr + size) (65536 * j + 65536) := by omega
      rw [sub64_eq hle (by omega)]
      by_cases heq : max addr (65536 * j) = min (addr + size) (65536 * j + 65536)
      · rw [if_pos heq, if_neg (by omega)]
        simp [materialised]
      · rw [if_neg heq]
        have hcount : min (min (addr + size) (65536 * j + 65536) - max addr (65536 * j))
            (65536 + 65536 * j - max addr (65536 * j))
            = min (addr + size) (65536 * j + 65536) - max addr (65536 * j) := by omega
        simp only [materialised, Function.update_self, Option.getD_some, memsetS, hcount, true_and]
        split_ifs <;> first | rfl | omega
    · simp [materialised, hj]

@[simp] lemma setLoop_smNum (addr size : ℕ) (bits : UInt8) (n i : ℕ) (pm : PM) :
    (setLoop addr size bits n i pm).smNum = pm.smNum := by
  induction n generalizing i pm with
  | zero => rfl
  | succ n ih =>
    unfold setLoop
    split_ifs with h
    · rfl
    · rw [ih, setBlock_smNum]

/-- The loop of `Set` over blocks that the range reaches. -/
lemma setLoop_spec {addr size : ℕ} (bits : UInt8) (hw : addr + size < 2 ^ 64) {n i : ℕ} {pm : PM}
    (hl : addr < blockSize * (i + 1)) (hr : blockSize * (i + n) ≤ addr + size + blockSize)
    (hn : i + n ≤ pm.smNum) {j o : ℕ} (ho : o < blockSize) :
    (setLoop addr size bits n i pm).materialised j o =
      if (i ≤ j ∧ j < i + n) ∧ addr ≤ blockSize * j + o ∧ blockSize * j + o < addr + size then bits
      else pm.materialised j o := by
  induction n generalizing i pm with
  | zero => rw [setLoop, if_neg (by omega)]
  | succ n ih =>
    simp only [blockSize_eq] at hl hr ho ⊢
    rw [setLoop, if_neg (by omega)]
    rw [ih (by simp only [blockSize_eq]; omega) (by simp only [blockSize_eq]; omega)
      (by rw [setBlock_smNum]; omega),
      setBlock_spec bits hw (by simp only [blockSize_eq]; omega)
        (by simp only [blockSize_eq]; omega) ho]
    simp only [blockSize_eq]
    by_cases hj : j = i
    · subst hj
      rw [if_neg (by omega)]
      split_ifs <;> first | rfl | omega
    · split_ifs <;> first | rfl | omega

@[simp] lemma set_smNum (pm : PM) (addr size : ℕ) (bits : UInt8) :
    (pm.set addr size bits).smNum = pm.smNum := by
  simp [PM.set]

/-- **`Set` writes its range and nothing else**, in a map with enough blocks. -/
lemma getBits_set {pm : PM} {addr size a : ℕ} (bits : UInt8)
    (hsm : addr + size ≤ blockSize * pm.smNum) (hlt : addr + size < 2 ^ 36) (ha : a < 2 ^ 36) :
    (pm.set addr size bits).getBits a =
      if addr ≤ a ∧ a < addr + size then bits else pm.getBits a := by
  have hrem : getBlockOffset addr + getBlockOffset size + blockSize - 1 < 2 ^ 36 := by
    have h1 := getBlockOffset_lt addr
    have h2 := getBlockOffset_lt size
    simp only [blockSize_eq] at h1 h2 ⊢
    omega
  rw [getBits_eq, getBits_eq, PM.set]
  rw [getBlockIdx_eq hrem, getBlockOffset_eq (by omega), getBlockOffset_eq (by omega),
    getBlockIdx_eq (by omega : addr < 2 ^ 36), getBlockIdx_eq (by omega : size < 2 ^ 36),
    getBlockIdx_eq ha, getBlockOffset_eq ha]
  simp only [blockSize_eq] at hsm ⊢
  rw [setLoop_spec bits (by omega) (by simp only [blockSize_eq]; omega)
    (by simp only [blockSize_eq]; omega) (by omega) (by simp only [blockSize_eq]; omega)]
  simp only [blockSize_eq]
  have hsplit : 65536 * (a / 65536) + a % 65536 = a := by omega
  rw [hsplit]
  split_ifs <;> first | rfl | omega

/-! ### `UnifiedSizeAfter` -/

lemma mul64_byteOnes (b : UInt8) : mul64 b.toNat byteOnes = rep 8 b := by
  have hb := b.toNat_lt
  have hr : rep 8 b = b.toNat * byteOnes := by
    simp only [rep_succ, byteOnes, show rep 0 b = 0 from rfl]
    omega
  rw [hr, mul64_eq (by simp only [byteOnes]; omega)]

lemma mem_word_iff {p : ℕ → UInt8} {i : ℕ} {P : UInt8 → Prop} :
    (∃ c ∈ [p i, p (i + 1), p (i + 2), p (i + 3), p (i + 4), p (i + 5), p (i + 6), p (i + 7)],
      P c) ↔ ∃ k, i ≤ k ∧ k < i + 8 ∧ P (p k) := by
  have hmap : [p i, p (i + 1), p (i + 2), p (i + 3), p (i + 4), p (i + 5), p (i + 6), p (i + 7)]
      = (List.range 8).map fun d => p (i + d) := rfl
  rw [hmap]
  constructor
  · rintro ⟨c, hc, h⟩
    obtain ⟨d, hd, rfl⟩ := List.mem_map.mp hc
    exact ⟨i + d, by omega, by have := List.mem_range.mp hd; omega, h⟩
  · rintro ⟨k, h1, h2, h⟩
    obtain ⟨d, rfl⟩ := Nat.exists_eq_add_of_le h1
    exact ⟨p (i + d), List.mem_map.mpr ⟨d, List.mem_range.mpr (by omega), rfl⟩, h⟩

/-- A word read from the array equals the head's word when its eight bytes equal the head. -/
lemma readShadowWord_eq_iff (p : ℕ → UInt8) (i : ℕ) (head : UInt8) :
    readShadowWord p i = mul64 head.toNat byteOnes ↔ ∀ k, i ≤ k → k < i + 8 → p k = head := by
  rw [mul64_byteOnes, readShadowWord, val_eq_rep_iff (n := 8) rfl]
  have h := mem_word_iff (p := p) (i := i) (P := fun c => c ≠ head)
  constructor
  · intro hall k h1 h2
    by_contra hne
    obtain ⟨c, hc, hc'⟩ := h.mpr ⟨k, h1, h2, hne⟩
    exact hc' (hall c hc)
  · intro hall c hc
    by_contra hne
    obtain ⟨k, h1, h2, hk⟩ := h.mp ⟨c, hc, hne⟩
    exact hk (hall k h1 h2)

section Run

variable {p : ℕ → UInt8} {head : UInt8} {commonSize : ℕ}

/-- The bytes up to `offset` equal the head, and `offset` is not past the end. -/
def Scanned (p : ℕ → UInt8) (head : UInt8) (commonSize offset : ℕ) : Prop :=
  1 ≤ offset ∧ offset ≤ commonSize ∧ ∀ k < offset, p k = head

lemma Scanned.extend {offset w : ℕ} (h : Scanned p head commonSize offset)
    (hw : offset + w ≤ commonSize) (hb : ∀ k, offset ≤ k → k < offset + w → p k = head) :
    Scanned p head commonSize (offset + w) := by
  obtain ⟨h1, -, h3⟩ := h
  refine ⟨by omega, hw, fun k hk => ?_⟩
  rcases Nat.lt_or_ge k offset with hlt | hge
  · exact h3 k hlt
  · exact hb k hge hk

lemma batchLoop_scanned {n offset : ℕ} (h : Scanned p head commonSize offset) :
    Scanned p head commonSize
      (batchLoop p (mul64 head.toNat byteOnes) commonSize n offset) := by
  induction n generalizing offset with
  | zero => exact h
  | succ n ih =>
    unfold batchLoop
    split_ifs with h1 h2
    · exact h
    · push Not at h2
      obtain ⟨w0, w1, w2, w3⟩ := h2
      rw [readShadowWord_eq_iff] at w0 w1 w2 w3
      refine ih (h.extend h1 fun k hk1 hk2 => ?_)
      -- the word that holds byte `k`
      rcases Nat.lt_or_ge k (offset + 16) with hk | hk
      · rcases Nat.lt_or_ge k (offset + 8) with hk' | hk'
        · exact w0 k hk1 hk'
        · exact w1 k hk' (by omega)
      · rcases Nat.lt_or_ge k (offset + 24) with hk' | hk'
        · exact w2 k hk (by omega)
        · exact w3 k hk' (by omega)
    · exact h

lemma wordLoop_scanned {n offset : ℕ} (h : Scanned p head commonSize offset) :
    Scanned p head commonSize
      (wordLoop p (mul64 head.toNat byteOnes) commonSize n offset) := by
  induction n generalizing offset with
  | zero => exact h
  | succ n ih =>
    unfold wordLoop
    split_ifs with h1 h2
    · exact h
    · rw [not_not, readShadowWord_eq_iff] at h2
      exact ih (h.extend h1 h2)
    · exact h

/-- The last loop stops at the end or at a byte that differs from the head. -/
lemma byteLoop_spec {n offset : ℕ} (h : Scanned p head commonSize offset)
    (hn : commonSize ≤ offset + n) :
    Scanned p head commonSize (byteLoop p head commonSize n offset) ∧
      (byteLoop p head commonSize n offset = commonSize ∨
        p (byteLoop p head commonSize n offset) ≠ head) := by
  induction n generalizing offset with
  | zero =>
    have : offset = commonSize := le_antisymm h.2.1 (by omega)
    exact ⟨h, Or.inl this⟩
  | succ n ih =>
    unfold byteLoop
    split_ifs with h1
    · refine ih (h.extend (w := 1) (by omega) fun k hk1 hk2 => ?_) (by omega)
      have : k = offset := by omega
      rw [this]
      exact h1.2
    · refine ⟨h, ?_⟩
      rcases Nat.lt_or_ge offset commonSize with hlt | hge
      · exact Or.inr fun heq => h1 ⟨hlt, heq⟩
      · exact Or.inl (le_antisymm h.2.1 hge)

/-- **The run of equal bytes is measured exactly.** -/
lemma runLength_spec (p : ℕ → UInt8) {commonSize : ℕ} (hpos : 0 < commonSize) :
    Scanned p (p 0) commonSize (runLength p commonSize) ∧
      (runLength p commonSize = commonSize ∨ p (runLength p commonSize) ≠ p 0) := by
  have h1 : Scanned p (p 0) commonSize 1 := by
    refine ⟨le_rfl, hpos, fun k hk => ?_⟩
    have : k = 0 := by omega
    rw [this]
  exact byteLoop_spec (wordLoop_scanned (batchLoop_scanned h1)) (by omega)

end Run

/-- The bytes that the block of `a` still holds, of `n` bytes from `a` on. -/
def blockBound (a n : ℕ) : ℕ := min n (blockSize - a % blockSize)

/-- `UnifiedSizeAfter` on the bytes it is asked about. -/
lemma unifiedSizeAfter_spec (pm : PM) {baseAddr size addr : ℕ}
    (hlt : addr < baseAddr + size) (hend : baseAddr + size < 2 ^ 36) :
    let m := pm.unifiedSizeAfter baseAddr size addr
    (1 ≤ m ∧ m ≤ blockBound addr (baseAddr + size - addr) ∧
      ∀ k < m, pm.getBits (addr + k) = pm.getBits addr) ∧
      (m = blockBound addr (baseAddr + size - addr) ∨ pm.getBits (addr + m) ≠ pm.getBits addr) := by
  have hB := blockSize_eq
  have hpos : 0 < blockBound addr (baseAddr + size - addr) := by
    have := Nat.mod_lt addr (by decide : 0 < blockSize)
    unfold blockBound
    omega
  -- inside the bound the block index does not change
  have hidx : ∀ k, addr % blockSize + k < blockSize → addr + k < 2 ^ 36 →
      pm.getBits (addr + k) = pm.materialised (addr / blockSize) (addr % blockSize + k) := by
    intro k hk hk2
    rw [getBits_eq, getBlockIdx_eq hk2, getBlockOffset_eq hk2]
    rw [hB] at hk ⊢
    have h1 : (addr + k) / 65536 = addr / 65536 := by omega
    have h2 : (addr + k) % 65536 = addr % 65536 + k := by omega
    rw [h1, h2]
  have hin : ∀ k < blockBound addr (baseAddr + size - addr),
      pm.getBits (addr + k) = pm.materialised (addr / blockSize) (addr % blockSize + k) := by
    intro k hk
    unfold blockBound at hk
    exact hidx k (by omega) (by omega)
  have h0 := hin 0 hpos
  rw [Nat.add_zero, Nat.add_zero] at h0
  have hi : getBlockIdx addr = addr / blockSize := getBlockIdx_eq (by omega)
  have ho : getBlockOffset addr = addr % blockSize := getBlockOffset_eq (by omega)
  have hend : sub64 (add64 baseAddr size) addr = baseAddr + size - addr := by
    rw [add64_eq (by omega), sub64_eq hlt.le (by omega)]
  intro m
  rcases hsm : pm.smList (addr / blockSize) with _ | sm
  · have hm : m = blockBound addr (baseAddr + size - addr) := by
      simp only [m, unifiedSizeAfter, blockBound, hi, ho, hend, hsm]
    refine ⟨⟨by omega, hm.le, fun k hk => ?_⟩, Or.inl hm⟩
    rw [hin k (by omega), h0]
    simp [materialised, hsm]
  · have hmat : pm.materialised (addr / blockSize) = sm := by simp [materialised, hsm]
    have hm : m = runLength (fun i => sm (addr % blockSize + i))
        (blockBound addr (baseAddr + size - addr)) := by
      simp only [m, unifiedSizeAfter, blockBound, hi, ho, hend, hsm]
    obtain ⟨⟨hone, hle, heqs⟩, hmax⟩ := runLength_spec (fun i => sm (addr % blockSize + i)) hpos
    rw [← hm] at hone hle heqs hmax
    rw [hmat] at hin h0
    refine ⟨⟨hone, hle, fun k hk => ?_⟩, ?_⟩
    · rw [hin k (by omega), h0]
      exact heqs k hk
    · rcases Nat.lt_or_ge m (blockBound addr (baseAddr + size - addr)) with hlt' | hge
      · refine Or.inr ?_
        rw [hin m hlt', h0]
        exact hmax.resolve_left hlt'.ne
      · exact Or.inl (le_antisymm hle hge)

/-! ### `RangeHasStatus` -/

lemma code_eq_iff (b : UInt8) (s : MemStatus) :
    b &&& statusMask = s.code ↔ getMemStatus b = s := by
  have h : (b &&& statusMask).toNat < 4 := by
    rw [UInt8.toNat_and]
    exact Nat.and_lt_two_pow b.toNat (n := 2) (by decide)
  unfold getMemStatus
  simp only [← UInt8.toNat_inj]
  cases s <;> split_ifs <;> simp_all [MemStatus.code]
  all_goals omega

/-- A difference byte is zero exactly when the status is the one looked for. -/
lemma diff_eq_zero_iff (b : UInt8) (s : MemStatus) :
    (b ^^^ s.code) &&& statusMask = 0 ↔ getMemStatus b = s := by
  have hs : s.code &&& statusMask = s.code := by cases s <;> rfl
  have hd : (b ^^^ s.code) &&& statusMask = (b &&& statusMask) ^^^ (s.code &&& statusMask) := by
    rw [← UInt8.toNat_inj]
    simp only [UInt8.toNat_and, UInt8.toNat_xor, Nat.and_xor_distrib_right]
  rw [hd, UInt8.xor_eq_zero_iff, hs, code_eq_iff]

lemma hasZeroByte_eq {bs : List UInt8} (h : bs.length = 8) :
    hasZeroByte (val bs) = true ↔ (0 : UInt8) ∈ bs := by
  rw [← zeroTest_ne_zero_iff, h, hasZeroByte, bne_iff_ne]
  have h1 : rep 8 1 = byteOnes := by decide
  have h2 : rep 8 128 = byteHighBits := by decide
  rw [zeroTest, h1, h2, sub64, not64]
  norm_num

lemma hasZeroByte_diff_iff (p : ℕ → UInt8) (i : ℕ) (s : MemStatus) :
    hasZeroByte ((readShadowWord p i ^^^ mul64 s.code.toNat byteOnes) &&& byteStatusMasks) = true ↔
      ∃ k, i ≤ k ∧ k < i + 8 ∧ getMemStatus (p k) = s := by
  have hm : byteStatusMasks = rep 8 statusMask := by decide
  have hd := val_diff [p i, p (i + 1), p (i + 2), p (i + 3), p (i + 4), p (i + 5), p (i + 6),
    p (i + 7)] s.code statusMask
  rw [mul64_byteOnes, hm, readShadowWord]
  rw [List.length_cons, List.length_cons, List.length_cons, List.length_cons, List.length_cons,
    List.length_cons, List.length_cons, List.length_cons, List.length_nil] at hd
  rw [hd, hasZeroByte_eq rfl, List.mem_map]
  simp only [diff_eq_zero_iff]
  exact mem_word_iff

section Status

variable {p : ℕ → UInt8} {s : MemStatus} {blockLen : ℕ}

lemma statusWordLoop_spec {n i : ℕ} (hi : i ≤ blockLen) :
    ((statusWordLoop p s.code blockLen n i).2 = true →
      ∃ k, i ≤ k ∧ k < blockLen ∧ getMemStatus (p k) = s) ∧
    ((statusWordLoop p s.code blockLen n i).2 = false →
      i ≤ (statusWordLoop p s.code blockLen n i).1 ∧
      (statusWordLoop p s.code blockLen n i).1 ≤ blockLen ∧
      ∀ k, i ≤ k → k < (statusWordLoop p s.code blockLen n i).1 → getMemStatus (p k) ≠ s) := by
  induction n generalizing i with
  | zero =>
    refine ⟨by simp [statusWordLoop], fun _ => ⟨le_rfl, hi, fun k h1 h2 => ?_⟩⟩
    exact absurd h2 (not_lt.mpr h1)
  | succ n ih =>
    unfold statusWordLoop
    by_cases h1 : i + 8 ≤ blockLen
    · rw [if_pos h1]
      by_cases h2 : hasZeroByte
          ((readShadowWord p i ^^^ mul64 s.code.toNat byteOnes) &&& byteStatusMasks) = true
      · simp only [if_pos h2]
        obtain ⟨k, hk1, hk2, hk⟩ := (hasZeroByte_diff_iff p i s).mp h2
        exact ⟨fun _ => ⟨k, hk1, by omega, hk⟩, by simp⟩
      · simp only [if_neg h2]
        obtain ⟨ht, hf⟩ := ih h1
        refine ⟨fun h => ?_, fun h => ?_⟩
        · obtain ⟨k, hk1, hk⟩ := ht h
          exact ⟨k, by omega, hk⟩
        · obtain ⟨hle, hend, hno⟩ := hf h
          refine ⟨by omega, hend, fun k hk1 hk2 => ?_⟩
          rcases Nat.lt_or_ge k (i + 8) with hk | hk
          · exact fun heq => h2 ((hasZeroByte_diff_iff p i s).mpr ⟨k, hk1, hk, heq⟩)
          · exact hno k hk hk2
    · simp only [if_neg h1]
      refine ⟨by simp, fun _ => ⟨le_rfl, hi, fun k h1 h2 => ?_⟩⟩
      exact absurd h2 (not_lt.mpr h1)

lemma statusByteLoop_spec {n i : ℕ} (hn : blockLen ≤ i + n) :
    statusByteLoop p s.code blockLen n i = true ↔
      ∃ k, i ≤ k ∧ k < blockLen ∧ getMemStatus (p k) = s := by
  induction n generalizing i with
  | zero =>
    simp only [statusByteLoop, Bool.false_eq_true, false_iff, not_exists]
    intro k hk
    omega
  | succ n ih =>
    unfold statusByteLoop
    by_cases h1 : i < blockLen
    · simp only [if_pos h1, code_eq_iff]
      by_cases h2 : getMemStatus (p i) = s
      · simp only [if_pos h2, true_iff]
        exact ⟨i, le_rfl, h1, h2⟩
      · rw [if_neg h2, ih (by omega)]
        constructor
        · rintro ⟨k, hk1, hk⟩
          exact ⟨k, by omega, hk⟩
        · rintro ⟨k, hk1, hk2, hk⟩
          rcases Nat.eq_or_lt_of_le hk1 with rfl | hlt
          · exact absurd hk h2
          · exact ⟨k, hlt, hk2, hk⟩
    · simp only [if_neg h1, Bool.false_eq_true, false_iff, not_exists]
      intro k hk
      omega

/-- **The scan of a block finds a byte of the status exactly when there is one.** -/
lemma blockHasStatus_iff (p : ℕ → UInt8) (s : MemStatus) (blockLen : ℕ) :
    blockHasStatus p s.code blockLen = true ↔ ∃ k < blockLen, getMemStatus (p k) = s := by
  obtain ⟨ht, hf⟩ := statusWordLoop_spec (p := p) (s := s) (n := blockLen) (Nat.zero_le blockLen)
  unfold blockHasStatus
  rcases hw : statusWordLoop p s.code blockLen blockLen 0 with ⟨i, found⟩
  rw [hw] at ht hf
  cases found
  · obtain ⟨-, hle, hno⟩ := hf rfl
    simp only [Bool.false_eq_true, if_false]
    rw [statusByteLoop_spec (by omega)]
    constructor
    · rintro ⟨k, -, hk⟩
      exact ⟨k, hk⟩
    · rintro ⟨k, hk1, hk⟩
      rcases Nat.lt_or_ge k i with hlt | hge
      · exact absurd hk (hno k (Nat.zero_le k) hlt)
      · exact ⟨k, hge, hk1, hk⟩
  · obtain ⟨k, -, hk⟩ := ht rfl
    simp only [if_true, true_iff]
    exact ⟨k, hk⟩

end Status

lemma blockHit_iff (pm : PM) (s : MemStatus) (bi offset : ℕ) {blockLen : ℕ}
    (hpos : 0 < blockLen) :
    pm.blockHit s.code bi offset blockLen = true ↔
      ∃ k < blockLen, getMemStatus (pm.materialised bi (offset + k)) = s := by
  unfold blockHit
  rcases hsm : pm.smList bi with _ | sm
  · have hmat : ∀ o, pm.materialised bi o = pm.commonBitsList bi := by simp [materialised, hsm]
    simp only [beq_iff_eq, code_eq_iff, hmat]
    exact ⟨fun h => ⟨0, hpos, h⟩, fun ⟨_, _, h⟩ => h⟩
  · have hmat : pm.materialised bi = sm := by simp [materialised, hsm]
    simp only [blockHasStatus_iff, hmat]

/-- The loop finds a byte of the status in the `n` blocks it visits. -/
lemma statusLoop_iff (pm : PM) (s : MemStatus) {n bi offset remaining : ℕ}
    (ho : offset < blockSize) (hpos : 0 < remaining) (hlt : remaining < 2 ^ 64) :
    pm.statusLoop s.code n bi offset remaining = true ↔
      ∃ k < remaining, offset + k < blockSize * n ∧ getMemStatus
        (pm.materialised (bi + (offset + k) / blockSize) ((offset + k) % blockSize)) = s := by
  have hB := blockSize_eq
  induction n generalizing bi offset remaining with
  | zero => simp [PM.statusLoop]
  | succ n ih =>
    have hblk : 0 < min remaining (blockSize - offset) := by omega
    have hhit := blockHit_iff pm s bi offset hblk
    -- a byte of the first block
    have hfirst : ∀ k < min remaining (blockSize - offset),
        bi + (offset + k) / blockSize = bi ∧ (offset + k) % blockSize = offset + k := by
      intro k hk
      rw [hB] at hk ⊢
      omega
    unfold PM.statusLoop
    simp only [sub64_eq (min_le_left remaining (blockSize - offset)) hlt]
    by_cases h1 : ∃ k < min remaining (blockSize - offset),
        getMemStatus (pm.materialised bi (offset + k)) = s
    · rw [if_pos (hhit.mpr h1)]
      obtain ⟨k, hk, hks⟩ := h1
      refine iff_of_true rfl ⟨k, by omega, ?_, ?_⟩
      · rw [hB] at hk ⊢; omega
      · rw [(hfirst k hk).1, (hfirst k hk).2]
        exact hks
    rw [if_neg (fun h => h1 (hhit.mp h))]
    by_cases h2 : remaining - min remaining (blockSize - offset) = 0
    · -- the range ends in this block
      rw [if_pos h2]
      refine iff_of_false (by simp) ?_
      rintro ⟨k, hk, -, hks⟩
      have hk' : k < min remaining (blockSize - offset) := by omega
      rw [(hfirst k hk').1, (hfirst k hk').2] at hks
      exact h1 ⟨k, hk', hks⟩
    · rw [if_neg h2]
      refine (ih (by omega) (by omega) (by omega)).trans ?_
      rw [hB] at ho h1 h2 hfirst ⊢
      constructor
      · rintro ⟨k, hk, hkn, hks⟩
        refine ⟨k + (65536 - offset), by omega, by omega, ?_⟩
        have e1 : bi + (offset + (k + (65536 - offset))) / 65536 = bi + 1 + (0 + k) / 65536 := by
          omega
        have e2 : (offset + (k + (65536 - offset))) % 65536 = (0 + k) % 65536 := by omega
        rw [e1, e2]
        exact hks
      · rintro ⟨k, hk, hkn, hks⟩
        rcases Nat.lt_or_ge k (65536 - offset) with hlt' | hge
        · have hk' : k < min remaining (65536 - offset) := by omega
          rw [(hfirst k hk').1, (hfirst k hk').2] at hks
          exact absurd ⟨k, hk', hks⟩ h1
        · refine ⟨k - (65536 - offset), by omega, by omega, ?_⟩
          have e1 : bi + 1 + (0 + (k - (65536 - offset))) / 65536 = bi + (offset + k) / 65536 := by
            omega
          have e2 : (0 + (k - (65536 - offset))) % 65536 = (offset + k) % 65536 := by omega
          rw [e1, e2]
          exact hks

lemma roundUp_eq {addr size : ℕ} (h : addr + size < 2 ^ 36) :
    sub64 (add64 (add64 addr size) blockSize) 1 = addr + size + blockSize - 1 := by
  have hB := blockSize_eq
  have hadd : add64 addr size = addr + size := add64_eq (by omega)
  rw [hadd, add64_eq (by omega), sub64_eq (by omega) (by omega)]

/-- **`RangeHasStatus` is exact** as long as the end, rounded up, stays in the map. -/
lemma rangeHasStatus_iff (pm : PM) (s : MemStatus) {addr size : ℕ}
    (hend : addr + size + blockSize ≤ 2 ^ 36) :
    pm.rangeHasStatus addr size s.code = true ↔
      ∃ k < size, getMemStatus (pm.getBits (addr + k)) = s := by
  have hB := blockSize_eq
  unfold PM.rangeHasStatus
  by_cases h0 : size = 0
  · simp [h0]
  rw [if_neg h0, roundUp_eq (by omega), getBlockIdx_eq (by omega), getBlockIdx_eq (by omega),
    getBlockOffset_eq (by omega),
    statusLoop_iff pm s (Nat.mod_lt _ (by decide)) (by omega) (by omega)]
  refine exists_congr fun k => and_congr_right fun hk => ?_
  rw [getBits_eq, getBlockIdx_eq (by omega), getBlockOffset_eq (by omega), hB] at *
  have e1 : (addr + k) / 65536 = addr / 65536 + (addr % 65536 + k) / 65536 := by omega
  have e2 : (addr + k) % 65536 = (addr % 65536 + k) % 65536 := by omega
  rw [e1, e2]
  exact ⟨fun h => h.2, fun h => ⟨by omega, h⟩⟩

/-- When the rounded end passes the map's last address, the loop does not run. -/
lemma rangeHasStatus_wrap (pm : PM) (status : UInt8) {addr size : ℕ}
    (hlt : addr + size < 2 ^ 36) (hend : 2 ^ 36 < addr + size + blockSize) :
    pm.rangeHasStatus addr size status = false := by
  have hB := blockSize_eq
  unfold PM.rangeHasStatus
  by_cases h0 : size = 0
  · simp [h0]
  have hwrap : getBlockIdx (addr + size + blockSize - 1) = 0 :=
    getBlockIdx_wrap (by omega) (by omega)
  rw [if_neg h0, roundUp_eq (by omega), hwrap]
  simp only [Nat.zero_sub, PM.statusLoop]

/-! ### Reading only the bytes -/

/-- Give block `i` an array of its own. -/
def materialise (pm : PM) (i : ℕ) : PM :=
  { pm with smList := Function.update pm.smList i (some (pm.materialised i)) }

lemma materialise_getBits (pm : PM) (i a : ℕ) : (materialise pm i).getBits a = pm.getBits a := by
  rw [getBits_eq, getBits_eq]
  by_cases h : getBlockIdx a = i
  · simp [materialise, materialised, h]
  · simp [materialise, materialised, h]

lemma unifiedSizeAfter_congr {pm pm' : PM} {baseAddr size addr : ℕ}
    (h : ∀ a < baseAddr + size, pm'.getBits a = pm.getBits a) (hlt : addr < baseAddr + size)
    (hend : baseAddr + size < 2 ^ 36) :
    pm'.unifiedSizeAfter baseAddr size addr = pm.unifiedSizeAfter baseAddr size addr := by
  obtain ⟨⟨-, hle, hall⟩, hmax⟩ := unifiedSizeAfter_spec pm hlt hend
  obtain ⟨⟨-, hle', hall'⟩, hmax'⟩ := unifiedSizeAfter_spec pm' hlt hend
  have hin : blockBound addr (baseAddr + size - addr) ≤ baseAddr + size - addr := min_le_left _ _
  rcases Nat.lt_trichotomy (pm'.unifiedSizeAfter baseAddr size addr)
    (pm.unifiedSizeAfter baseAddr size addr) with hlt' | heq | hgt
  · -- the shorter run would stop before a byte that the longer one counts
    rcases hmax' with hm | hm
    · omega
    · rw [h _ (by omega), h _ hlt] at hm
      exact absurd (hall _ hlt') hm
  · exact heq
  · rcases hmax with hm | hm
    · omega
    · rw [← h _ (by omega), ← h _ hlt] at hm
      exact absurd (hall' _ hgt) hm

lemma rangeHasStatus_congr {pm pm' : PM} (h : ∀ a, pm'.getBits a = pm.getBits a) (s : MemStatus)
    {addr size : ℕ} (hend : addr + size + blockSize ≤ 2 ^ 36) :
    pm'.rangeHasStatus addr size s.code = pm.rangeHasStatus addr size s.code := by
  rw [Bool.eq_iff_iff, rangeHasStatus_iff pm' s hend, rangeHasStatus_iff pm s hend]
  simp only [h]

/-! ### A map of on-chip memory -/

def setWrite (pm : PM) (w : Write UInt8) : PM := pm.set w.addr w.size w.val

lemma new_smNum {byteNum : ℕ} (h : byteNum < 2 ^ 36) (init : UInt8) :
    byteNum ≤ blockSize * (PM.new byteNum init).smNum := by
  have hB := blockSize_eq
  simp only [PM.new]
  rw [add64_eq (by omega), sub64_eq (by omega) (by omega), hB]
  omega

lemma new_getBits (byteNum : ℕ) (init : UInt8) (a : ℕ) :
    (PM.new byteNum init).getBits a = init := by
  simp [getBits, PM.new]

/-- A run of writes inside a map leaves the last value in every byte. -/
lemma foldl_set_getBits {byteNum : ℕ} (hn : byteNum < 2 ^ 36) (init : UInt8)
    (ws : List (Write UInt8)) (hws : ∀ w ∈ ws, w.addr + w.size ≤ byteNum) {a : ℕ}
    (ha : a < 2 ^ 36) :
    (ws.foldl setWrite (PM.new byteNum init)).getBits a = last init ws a := by
  have hstep : ∀ (pm : PM) (w : Write UInt8), byteNum ≤ blockSize * pm.smNum →
      w.addr + w.size ≤ byteNum → byteNum ≤ blockSize * (setWrite pm w).smNum ∧
        ∀ a, a < 2 ^ 36 →
          (setWrite pm w).getBits a = if w.Covers a then w.val else pm.getBits a := by
    intro pm w hsm hw
    refine ⟨by rwa [setWrite, set_smNum], fun a ha => ?_⟩
    exact getBits_set w.val (hw.trans hsm) (by omega) ha
  exact (foldl_last hstep (new_smNum hn init) (fun a _ => new_getBits byteNum init a) ws hws).2 a ha

/-- **An on-chip map is an array of bytes**, whatever its size: chip memories have 32-bit
sizes. Reads give the last written value, runs are measured exactly within a block, a
status is found exactly when a byte has it, and giving a block an array of its own changes
no answer. -/
theorem onChip_is_bytes (byteNum : UInt32) (init : UInt8) (ws : List (Write UInt8))
    (hws : ∀ w ∈ ws, w.addr + w.size ≤ byteNum.toNat) :
    let pm := ws.foldl setWrite (PM.new byteNum.toNat init)
    (∀ a < byteNum.toNat, pm.getBits a = last init ws a) ∧
    (∀ baseAddr size addr, baseAddr ≤ addr → addr < baseAddr + size →
      baseAddr + size ≤ byteNum.toNat →
      let m := pm.unifiedSizeAfter baseAddr size addr
      (1 ≤ m ∧ m ≤ baseAddr + size - addr ∧
        ∀ k < m, pm.getBits (addr + k) = pm.getBits addr) ∧
      (m = min (baseAddr + size - addr) (blockSize - addr % blockSize) ∨
        pm.getBits (addr + m) ≠ pm.getBits addr)) ∧
    (∀ addr size (s : MemStatus), addr + size ≤ byteNum.toNat →
      (pm.rangeHasStatus addr size s.code = true ↔
        ∃ k < size, getMemStatus (pm.getBits (addr + k)) = s)) ∧
    ∀ i, (∀ a, (materialise pm i).getBits a = pm.getBits a) ∧
      (∀ baseAddr size addr, addr < baseAddr + size → baseAddr + size ≤ byteNum.toNat →
        (materialise pm i).unifiedSizeAfter baseAddr size addr =
          pm.unifiedSizeAfter baseAddr size addr) ∧
      ∀ addr size (s : MemStatus), addr + size ≤ byteNum.toNat →
        (materialise pm i).rangeHasStatus addr size s.code =
          pm.rangeHasStatus addr size s.code := by
  intro pm
  have hlt := byteNum.toNat_lt
  have hB := blockSize_eq
  refine ⟨fun a ha => ?_, fun baseAddr size addr _ h1 h2 => ?_, fun addr size s h => ?_,
    fun i => ⟨fun a => ?_, fun baseAddr size addr h1 h2 => ?_, fun addr size s h => ?_⟩⟩
  · exact foldl_set_getBits (by omega) init ws hws (by omega)
  · obtain ⟨⟨hone, hle, hall⟩, hmax⟩ := unifiedSizeAfter_spec pm h1 (by omega)
    exact ⟨⟨hone, hle.trans (min_le_left _ _), hall⟩, hmax⟩
  · exact rangeHasStatus_iff pm s (by omega)
  · exact materialise_getBits pm i a
  · exact unifiedSizeAfter_congr (fun a _ => materialise_getBits pm i a) h1 (by omega)
  · exact rangeHasStatus_congr (materialise_getBits pm i) s (by omega)

/-- Two writes in the second block of a memory of three blocks. -/
theorem onChip_is_bytes_at :
    ([⟨65536, 4, 2⟩, ⟨65538, 1, 9⟩].foldl setWrite (PM.new 196608 253)).getBits 65537 = 2 := by
  have h := onChip_is_bytes 196608 253 [⟨65536, 4, 2⟩, ⟨65538, 1, 9⟩] (by decide)
  exact h.1 65537 (by decide)

end MsSanitizer.PmBytes
