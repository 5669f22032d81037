import MsSanitizer.MemEventChecker
import MsSanitizer.CrossNpuRaceAlg
import MsSanitizer.Spans

/-!
# The extent of a memory operation

The blocks of an operation lie between its address and the end of the last block of its last
repeat. `GetMemMaxLength` computes this extent for the scanline and `ProcessMemEvent` of the check
between devices computes it once more; both multiply words of 32 bits before they widen the result.
-/

namespace MsSanitizer.OpExtent

open RecordDefs EventDef Words MemEventChecker Spans

/-- The bytes of block `b` of repeat `r`, for all of them. -/
def bytes (op : MemOpInfo) : Set ℕ :=
  {x | ∃ r < op.repeatTimes, ∃ b < op.blockNum,
    op.addr + (r * op.repeatStride + b * op.blockStride) * op.blockSize ≤ x ∧
    x < op.addr + (r * op.repeatStride + b * op.blockStride) * op.blockSize + op.blockSize}

/-- The length of the operation, without the bounds of a machine word. -/
def extent (op : MemOpInfo) : ℕ :=
  (op.repeatTimes - 1) * op.repeatStride * op.blockSize +
    (op.blockNum - 1) * op.blockStride * op.blockSize + op.blockSize

/-- The fields of an operation have their widths, and it has a block that is not empty. -/
structure Shaped (op : MemOpInfo) : Prop where
  addr : op.addr < 2 ^ 64
  blockNum : 0 < op.blockNum ∧ op.blockNum < 2 ^ 32
  blockSize : 0 < op.blockSize ∧ op.blockSize < 2 ^ 32
  repeatTimes : 0 < op.repeatTimes ∧ op.repeatTimes < 2 ^ 32
  blockStride : op.blockStride < 2 ^ 32
  repeatStride : op.repeatStride < 2 ^ 32

/-- The smallest interval that contains a set. -/
structure IsHull (lo hi : ℕ) (S : Set ℕ) : Prop where
  subset : S ⊆ Set.Ico lo hi
  least : ∀ lo' hi', S ⊆ Set.Ico lo' hi' → lo' ≤ lo ∧ hi ≤ hi'

lemma IsHull.unique {lo hi lo' hi' : ℕ} {S : Set ℕ} (h : IsHull lo hi S) (h' : IsHull lo' hi' S) :
    lo = lo' ∧ hi = hi' := by
  obtain ⟨h1, h2⟩ := h.least _ _ h'.subset
  obtain ⟨h3, h4⟩ := h'.least _ _ h.subset
  exact ⟨le_antisymm h3 h1, le_antisymm h2 h4⟩

variable {op : MemOpInfo}

lemma block_end_le {r b : ℕ} (hr : r < op.repeatTimes) (hb : b < op.blockNum) :
    (r * op.repeatStride + b * op.blockStride) * op.blockSize + op.blockSize ≤ extent op := by
  have h1 : r * op.repeatStride * op.blockSize ≤
      (op.repeatTimes - 1) * op.repeatStride * op.blockSize := by
    gcongr
    omega
  have h2 : b * op.blockStride * op.blockSize ≤
      (op.blockNum - 1) * op.blockStride * op.blockSize := by
    gcongr
    omega
  rw [add_mul, extent]
  omega

lemma first_mem (h : Shaped op) : op.addr ∈ bytes op :=
  ⟨0, h.repeatTimes.1, 0, h.blockNum.1, by simp, by simpa using h.blockSize.1⟩

lemma last_mem (h : Shaped op) : op.addr + extent op - 1 ∈ bytes op := by
  have hb := h.blockSize.1
  refine ⟨op.repeatTimes - 1, Nat.pred_lt_self h.repeatTimes.1, op.blockNum - 1,
    Nat.pred_lt_self h.blockNum.1, ?_, ?_⟩
  · rw [add_mul, extent]
    omega
  · rw [add_mul, extent]
    omega

/-- The extent is what the bytes of the operation need. -/
lemma isHull_extent (h : Shaped op) : IsHull op.addr (op.addr + extent op) (bytes op) where
  subset := by
    rintro x ⟨r, hr, b, hb, hlo, hhi⟩
    have := block_end_le hr hb
    exact ⟨by omega, by omega⟩
  least := by
    intro lo' hi' hsub
    have hfirst := hsub (first_mem h)
    have hlast := hsub (last_mem h)
    have hpos : 0 < extent op := by
      have := h.blockSize.1
      rw [extent]
      omega
    simp only [Set.mem_Ico] at hfirst hlast
    exact ⟨hfirst.1, by omega⟩

/-! ## Both computations -/

lemma memRange_eq (h : Shaped op) : CrossNpuRaceAlg.memRange op = extent op % 2 ^ 32 := by
  have hpred : ∀ n, 0 < n ∧ n < 2 ^ 32 → (n + 2 ^ 32 - 1) % 2 ^ 32 = n - 1 := by
    intro n hn
    rw [show n + 2 ^ 32 - 1 = n - 1 + 2 ^ 32 by omega, Nat.add_mod_right,
      Nat.mod_eq_of_lt (by omega)]
  simp only [CrossNpuRaceAlg.memRange, hpred _ h.repeatTimes, hpred _ h.blockNum, extent]

variable {e : MemEvent}

/-- An operation whose mask selects no bit is left out; the others have their extent in 32 bits. -/
lemma getMemMaxLength_eq (hd : e.isDynamic = false) (h : Shaped e.memInfo)
    (hmask : ¬ (e.memInfo.maskMode = .count ∧ e.memInfo.mask0 = 0)) :
    getMemMaxLength e = if e.memInfo.maskMode = .count ∧ e.memInfo.dataBits = 0 then 0
      else extent e.memInfo % 2 ^ 32 := by
  have hne : ¬ (e.memInfo.repeatTimes = 0 ∨ e.memInfo.blockNum = 0 ∨ e.memInfo.blockSize = 0) := by
    have h1 := h.repeatTimes.1
    have h2 := h.blockNum.1
    have h3 := h.blockSize.1
    omega
  have hiff : e.memInfo.maskMode = .count ∧ (e.memInfo.mask0 = 0 ∨ e.memInfo.dataBits = 0) ↔
      e.memInfo.maskMode = .count ∧ e.memInfo.dataBits = 0 := by tauto
  simp only [getMemMaxLength, hd, Bool.false_eq_true, if_false, if_neg hne, extent]
  exact if_congr hiff rfl rfl

/-- The interval of 64-bit addresses is the one of the extent where nothing wraps. -/
lemma add64_eq_extent_iff {len : ℕ} (ha : op.addr < 2 ^ 64) (hlen : len ≤ extent op % 2 ^ 32) :
    add64 op.addr len = op.addr + extent op ↔
      len = extent op ∧ extent op < 2 ^ 32 ∧ op.addr + extent op < 2 ^ 64 := by
  constructor
  · intro heq
    have hle : add64 op.addr len ≤ op.addr + len := Nat.mod_le _ _
    have hlt : add64 op.addr len < 2 ^ 64 := Nat.mod_lt _ (by norm_num)
    have hmod : extent op % 2 ^ 32 ≤ extent op := Nat.mod_le _ _
    have hmod' : extent op % 2 ^ 32 < 2 ^ 32 := Nat.mod_lt _ (by norm_num)
    exact ⟨by omega, by omega, by omega⟩
  · rintro ⟨rfl, -, h64⟩
    exact add64_eq h64

/-! ## What the checks rely on -/

/-- The shared memory of the devices is the union of the regions granted to them. -/
def SharedBy (env : NpuEnv) (regions : ℕ → List (Span ℕ)) : Prop :=
  (∀ d, ∀ s ∈ regions d, s.vmin ≤ s.vmax) ∧
    ∀ d lo hi, env.shared d lo hi = hasIntersection (unions (regions d)) ⟨lo, hi⟩

/-- What the scanline and the check between devices need of the length of an operation. -/
structure Exact (e : MemEvent) : Prop where
  /-- The scanline gets the smallest interval with all bytes. -/
  hull : IsHull (startAddr e) (endAddr e) (bytes e.memInfo)
  /-- No product or sum on the way exceeds 32 bits. -/
  products : (e.memInfo.repeatTimes - 1) * e.memInfo.repeatStride < 2 ^ 32 ∧
    (e.memInfo.repeatTimes - 1) * e.memInfo.repeatStride * e.memInfo.blockSize < 2 ^ 32 ∧
    (e.memInfo.blockNum - 1) * e.memInfo.blockStride < 2 ^ 32 ∧
    (e.memInfo.blockNum - 1) * e.memInfo.blockStride * e.memInfo.blockSize < 2 ^ 32 ∧
    extent e.memInfo < 2 ^ 32
  /-- The check between devices asks for the same interval. -/
  same : startAddr e = e.memInfo.addr ∧
    endAddr e = add64 e.memInfo.addr (CrossNpuRaceAlg.memRange e.memInfo)
  /-- An operation on global memory with a byte in a shared region is checked. -/
  kept : e.memInfo.memType = .gm → ∀ env regions event, SharedBy env regions →
    (bytes e.memInfo ∩ cover (regions event.loc.deviceId)).Nonempty →
      CrossNpuRaceAlg.checks env event e.memInfo = true

def Fits (op : MemOpInfo) : Prop :=
  extent op < 2 ^ 32 ∧ op.addr + extent op < 2 ^ 64 ∧ ¬ (op.maskMode = .count ∧ op.dataBits = 0)

lemma le_mul_blockSize (h : Shaped op) (n : ℕ) : n ≤ n * op.blockSize :=
  Nat.le_mul_of_pos_right n h.blockSize.1

lemma products_of_extent (h : Shaped op) (hx : extent op < 2 ^ 32) :
    (op.repeatTimes - 1) * op.repeatStride < 2 ^ 32 ∧
    (op.repeatTimes - 1) * op.repeatStride * op.blockSize < 2 ^ 32 ∧
    (op.blockNum - 1) * op.blockStride < 2 ^ 32 ∧
    (op.blockNum - 1) * op.blockStride * op.blockSize < 2 ^ 32 ∧ extent op < 2 ^ 32 := by
  have h1 := le_mul_blockSize h ((op.repeatTimes - 1) * op.repeatStride)
  have h2 := le_mul_blockSize h ((op.blockNum - 1) * op.blockStride)
  have hx' := hx
  rw [extent] at hx'
  exact ⟨by omega, by omega, by omega, by omega, hx⟩

lemma checks_of_shared (h : Shaped op) (hgm : op.memType = .gm) (hx : extent op < 2 ^ 32)
    (h64 : op.addr + extent op < 2 ^ 64) {env : NpuEnv} {regions : ℕ → List (Span ℕ)}
    {event : SanEvent} (hs : SharedBy env regions)
    (hmeet : (bytes op ∩ cover (regions event.loc.deviceId)).Nonempty) :
    CrossNpuRaceAlg.checks env event op = true := by
  obtain ⟨x, hx1, hx2⟩ := hmeet
  obtain ⟨hap, hcov⟩ := unions_spec (hs.1 event.loc.deviceId)
  have hrange : (op.addr + CrossNpuRaceAlg.memRange op) % 2 ^ 64 = op.addr + extent op := by
    rw [memRange_eq h, Nat.mod_eq_of_lt hx, Nat.mod_eq_of_lt h64]
  simp only [CrossNpuRaceAlg.checks, hgm, beq_self_eq_true, Bool.true_and, hs.2, hrange]
  exact hasIntersection_of_mem hap ((isHull_extent h).subset hx1) (hcov ▸ hx2)

/-- **The range of an operation.** The interval of an operation is exact, in the scanline and in
the check between devices, iff its extent fits 32 bits, its end is an address and, where the mask
counts elements, these have a width. -/
theorem exact_iff_fits (hd : e.isDynamic = false) (h : Shaped e.memInfo)
    (hmask : ¬ (e.memInfo.maskMode = .count ∧ e.memInfo.mask0 = 0)) :
    Exact e ↔ Fits e.memInfo := by
  have hstart : startAddr e = e.memInfo.addr := by
    simp only [startAddr, hd, Bool.false_eq_true, if_false, Nat.mod_eq_of_lt h.addr]
  have hend : endAddr e = add64 e.memInfo.addr (getMemMaxLength e) := by simp [endAddr, hd]
  have hlen := getMemMaxLength_eq hd h hmask
  have hpos : 0 < extent e.memInfo := by
    have := h.blockSize.1
    rw [extent]
    omega
  constructor
  · intro hex
    have heq := ((isHull_extent h).unique hex.hull).2
    have hle : getMemMaxLength e ≤ extent e.memInfo % 2 ^ 32 := by
      rw [hlen]
      split_ifs
      · exact Nat.zero_le _
      · exact le_rfl
    obtain ⟨hl, hx, h64⟩ := (add64_eq_extent_iff h.addr hle).mp (by rw [← hend, heq])
    refine ⟨hx, h64, fun hcount => ?_⟩
    rw [hlen, if_pos hcount] at hl
    omega
  · rintro ⟨hx, h64, hcount⟩
    rw [if_neg hcount, Nat.mod_eq_of_lt hx] at hlen
    have hend' : endAddr e = e.memInfo.addr + extent e.memInfo := by
      rw [hend, hlen, add64_eq h64]
    refine ⟨?_, products_of_extent h hx, ⟨hstart, ?_⟩, fun hgm env regions event hs hmeet => ?_⟩
    · rw [hstart, hend']
      exact isHull_extent h
    · rw [memRange_eq h, Nat.mod_eq_of_lt hx, add64_eq h64, hend']
    · exact checks_of_shared h hgm hx h64 hs hmeet

/-- Two repeats of one block of 32 bytes, `repeatStride` blocks apart. -/
def twoRepeats (repeatStride : ℕ) : MemEvent where
  memInfo :=
    { memType := .gm
      addr := 0x1000
      blockNum := 1
      blockSize := 32
      blockStride := 1
      repeatTimes := 2
      repeatStride := repeatStride }

theorem exact_iff_fits_near : Exact (twoRepeats 4) :=
  (exact_iff_fits rfl ⟨by decide, by decide, by decide, by decide, by decide, by decide⟩
    (by decide)).mpr ⟨by decide, by decide, by decide⟩

/-- The second block, `2 ^ 32` bytes behind the first, is outside the interval. -/
theorem far_repeat_outside : Shaped (twoRepeats (2 ^ 27)).memInfo ∧
    getMemMaxLength (twoRepeats (2 ^ 27)) = 32 ∧ endAddr (twoRepeats (2 ^ 27)) = 0x1020 ∧
    0x100001000 ∈ bytes (twoRepeats (2 ^ 27)).memInfo ∧ ¬ Exact (twoRepeats (2 ^ 27)) := by
  have hin : 0x100001000 ∈ bytes (twoRepeats (2 ^ 27)).memInfo :=
    ⟨1, by decide, 0, by decide, by decide, by decide⟩
  refine ⟨⟨by decide, by decide, by decide, by decide, by decide, by decide⟩, by decide, by decide,
    hin, fun hex => ?_⟩
  exact absurd (hex.hull.subset hin).2 (by decide)

end MsSanitizer.OpExtent
