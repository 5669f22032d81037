import Mathlib
import MsSanitizer.MemRecords

/-!
# The bytes of a repeated row of blocks

The blocks of an operation lie on a grid of cells of one block size: block `b` of repeat `r` is
the cell `r * repeatStride + b * blockStride`. The records made of it should cover these cells
and no others. A byte is an address of 64 bits.
-/

namespace MsSanitizer.MemRepeats

open RecordDefs EventDef Words MemRecords

def recordsBytes (l : List MemOpRecord) : Set ℕ :=
  {x | ∃ r ∈ l, ∃ k < r.memSize, x = add64 r.dstAddr k}

def opBytes (info : MemOpInfo) : Set ℕ :=
  {x | ∃ r < info.repeatTimes, ∃ b < info.blockNum, ∃ k < info.blockSize,
    x = add64 info.addr ((r * info.repeatStride + b * info.blockStride) * info.blockSize + k)}

/-! ## Cells -/

def cellBytes (addr size : ℕ) (C : Set ℕ) : Set ℕ :=
  {x | ∃ c ∈ C, ∃ k < size, x = add64 addr (c * size + k)}

def opCells (info : MemOpInfo) : Set ℕ :=
  {c | ∃ r < info.repeatTimes, ∃ b < info.blockNum,
    c = r * info.repeatStride + b * info.blockStride}

lemma opBytes_eq (info : MemOpInfo) :
    opBytes info = cellBytes info.addr info.blockSize (opCells info) := by
  ext x
  constructor
  · rintro ⟨r, hr, b, hb, k, hk, rfl⟩
    exact ⟨_, ⟨r, hr, b, hb, rfl⟩, k, hk, rfl⟩
  · rintro ⟨c, ⟨r, hr, b, hb, rfl⟩, k, hk, rfl⟩
    exact ⟨r, hr, b, hb, k, hk, rfl⟩

lemma add64_add64 (a b c : ℕ) : add64 (add64 a b) c = add64 a (b + c) := by
  unfold add64
  omega

/-- A byte at a distance below the size of the address space determines the distance. -/
lemma add64_inj {a b c : ℕ} (hb : b < 2 ^ 64) (hc : c < 2 ^ 64) (h : add64 a b = add64 a c) :
    b = c := by
  unfold add64 at h
  omega

lemma cell_eq {c c' k size : ℕ} (hk : k < size) (h : c * size = c' * size + k) : c = c' := by
  have hs : 0 < size := by omega
  have hle : c' ≤ c := by
    by_contra hlt
    have : (c + 1) * size ≤ c' * size := Nat.mul_le_mul_right _ (by omega)
    rw [add_mul] at this
    omega
  have hge : c ≤ c' := by
    by_contra hlt
    have : (c' + 1) * size ≤ c * size := Nat.mul_le_mul_right _ (by omega)
    rw [add_mul] at this
    omega
  omega

/-- Cells that do not run around the address space are given back by their bytes. -/
lemma mem_of_cellBytes_subset {addr size : ℕ} {C D : Set ℕ} (hs : 0 < size)
    (hsub : cellBytes addr size C ⊆ cellBytes addr size D)
    (hD : ∀ d ∈ D, (d + 1) * size ≤ 2 ^ 64) {c : ℕ} (hc : c ∈ C) (hlt : (c + 1) * size ≤ 2 ^ 64) :
    c ∈ D := by
  obtain ⟨d, hd, k, hk, hx⟩ := hsub ⟨c, hc, 0, hs, rfl⟩
  have hd' := hD d hd
  rw [add_mul] at hlt hd'
  have := add64_inj (by omega) (by omega) hx
  rw [cell_eq hk (by omega : c * size = d * size + k)]
  exact hd

lemma lt_mul_iff {n size j : ℕ} (hs : 0 < size) :
    j < n * size ↔ ∃ c < n, ∃ k < size, j = c * size + k := by
  constructor
  · intro hj
    refine ⟨j / size, (Nat.div_lt_iff_lt_mul hs).mpr hj, j % size, Nat.mod_lt _ hs, ?_⟩
    rw [Nat.mul_comm]
    exact (Nat.div_add_mod j size).symm
  · rintro ⟨c, hc, k, hk, rfl⟩
    have : (c + 1) * size ≤ n * size := Nat.mul_le_mul_right _ (by omega)
    rw [add_mul] at this
    omega

/-- The bytes of records that each start at a cell and fill a number of cells. -/
lemma recordsBytes_cells {addr size : ℕ} (hs : 0 < size) {l : List MemOpRecord} {C : Set ℕ}
    (hl : ∀ r ∈ l, ∃ c n, r.dstAddr = add64 addr (c * size) ∧ r.memSize = n * size ∧
      ∀ i < n, c + i ∈ C)
    (hC : ∀ d ∈ C, ∃ r ∈ l, ∃ c n, r.dstAddr = add64 addr (c * size) ∧ r.memSize = n * size ∧
      ∃ i < n, d = c + i) :
    recordsBytes l = cellBytes addr size C := by
  ext x
  constructor
  · rintro ⟨r, hr, j, hj, rfl⟩
    obtain ⟨c, n, hdst, hsize, hin⟩ := hl r hr
    rw [hsize, lt_mul_iff hs] at hj
    obtain ⟨i, hi, k, hk, rfl⟩ := hj
    refine ⟨c + i, hin i hi, k, hk, ?_⟩
    rw [hdst, add64_add64, add_mul, add_assoc]
  · rintro ⟨d, hd, k, hk, rfl⟩
    obtain ⟨r, hr, c, n, hdst, hsize, i, hi, rfl⟩ := hC d hd
    refine ⟨r, hr, i * size + k, ?_, ?_⟩
    · rw [hsize, lt_mul_iff hs]
      exact ⟨i, hi, k, hk, rfl⟩
    · rw [hdst, add64_add64, add_mul, add_assoc]

@[simp] lemma processAndStoreMemOp_dstAddr (record : MemOpRecord) (dstAddr memSize : ℕ) :
    (processAndStoreMemOp record dstAddr memSize).dstAddr = dstAddr := rfl

@[simp] lemma processAndStoreMemOp_memSize (record : MemOpRecord) (dstAddr memSize : ℕ) :
    (processAndStoreMemOp record dstAddr memSize).memSize = memSize := rfl

/-! ## Repeats of one range -/

/-- The number of cells of a repeat whose blocks touch or coincide. -/
def rowCells (info : MemOpInfo) : ℕ := if info.blockStride = 1 then info.blockNum else 1

def repeatLength (info : MemOpInfo) : ℕ := rowCells info * info.blockSize

lemma opCells_of_row {info : MemOpInfo} (hstride : info.blockStride ≤ 1)
    (hnum : 1 ≤ info.blockNum) :
    opCells info =
      {c | ∃ r < info.repeatTimes, ∃ i < rowCells info, c = r * info.repeatStride + i} := by
  ext c
  unfold rowCells
  rcases Nat.le_one_iff_eq_zero_or_eq_one.mp hstride with h | h
  · constructor
    · rintro ⟨r, hr, b, -, rfl⟩
      exact ⟨r, hr, 0, by simp [h], by simp [h]⟩
    · rintro ⟨r, hr, i, hi, rfl⟩
      rw [h, if_neg (by omega)] at hi
      exact ⟨r, hr, 0, hnum, by simp [h]; omega⟩
  · constructor
    · rintro ⟨r, hr, b, hb, rfl⟩
      exact ⟨r, hr, b, by simpa [h] using hb, by simp [h]⟩
    · rintro ⟨r, hr, i, hi, rfl⟩
      rw [if_pos h] at hi
      exact ⟨r, hr, i, hi, by simp [h]⟩

/-- What the conversion of single ranges is given: counts and size are positive, the count of
repeats is not cut, and the two 32-bit products do not wrap. -/
structure SingleRow (info : MemOpInfo) : Prop where
  stride : info.blockStride ≤ 1
  num : 1 ≤ info.blockNum
  size : 1 ≤ info.blockSize
  times : 1 ≤ info.repeatTimes
  times_le : info.repeatTimes ≤ maxRepeatTimes
  row : info.blockStride = 1 → info.blockSize * info.blockNum < 2 ^ 32
  step : info.repeatStride * info.blockSize < 2 ^ 32

variable {info : MemOpInfo} (record : MemOpRecord)

lemma SingleRow.memSize (h : SingleRow info) (hsize32 : info.blockSize < 2 ^ 32) :
    (if info.blockStride = 1 then info.blockSize * info.blockNum % 2 ^ 32 else info.blockSize) =
      repeatLength info ∧ repeatLength info < 2 ^ 32 := by
  unfold repeatLength rowCells
  by_cases hb : info.blockStride = 1
  · rw [if_pos hb, if_pos hb, Nat.mod_eq_of_lt (h.row hb), Nat.mul_comm]
    exact ⟨rfl, by rw [Nat.mul_comm]; exact h.row hb⟩
  · rw [if_neg hb, if_neg hb, one_mul]
    exact ⟨rfl, hsize32⟩

/-- The length of the record that stands for all repeats. -/
lemma SingleRow.merged (h : SingleRow info) (hlen : repeatLength info < 2 ^ 32) :
    add64 (mul64 (info.repeatStride * info.blockSize) (sub32 info.repeatTimes 1))
        (repeatLength info) =
      ((info.repeatTimes - 1) * info.repeatStride + rowCells info) * info.blockSize := by
  have h1 := h.times
  have h2 := h.times_le
  have hstep := h.step
  unfold maxRepeatTimes at h2
  have hsub : sub32 info.repeatTimes 1 = info.repeatTimes - 1 := by
    unfold sub32
    omega
  have hprod : info.repeatStride * info.blockSize * (info.repeatTimes - 1) ≤ 2 ^ 32 * 2 ^ 15 :=
    Nat.mul_le_mul hstep.le (by omega)
  rw [hsub, mul64_eq (by omega), add64_eq (by omega), repeatLength]
  ring

lemma SingleRow.cases (h : SingleRow info) (hsize32 : info.blockSize < 2 ^ 32) :
    (info.repeatStride = 0 ∧ convertSingleRecordRepeats info record =
      [processAndStoreMemOp record info.addr (repeatLength info)]) ∨
    (info.repeatStride ≠ 0 ∧ info.repeatStride ≤ rowCells info ∧
      convertSingleRecordRepeats info record = [processAndStoreMemOp record info.addr
        (((info.repeatTimes - 1) * info.repeatStride + rowCells info) * info.blockSize)]) ∨
    (rowCells info < info.repeatStride ∧ convertSingleRecordRepeats info record =
      (List.range info.repeatTimes).map fun r => processAndStoreMemOp record
        (add64 info.addr (r * info.repeatStride * info.blockSize)) (repeatLength info)) := by
  obtain ⟨hmem, hlen⟩ := h.memSize hsize32
  unfold convertSingleRecordRepeats
  simp only [hmem, Nat.mod_eq_of_lt h.step]
  by_cases h0 : info.repeatStride = 0
  · exact Or.inl ⟨h0, by rw [if_pos h0]⟩
  · rw [if_neg h0]
    by_cases hle : info.repeatStride * info.blockSize ≤ repeatLength info
    · rw [if_pos hle, h.merged hlen]
      exact Or.inr (Or.inl ⟨h0, Nat.le_of_mul_le_mul_right hle h.size, rfl⟩)
    · rw [if_neg hle, Nat.min_eq_left h.times_le]
      refine Or.inr (Or.inr ⟨?_, ?_⟩)
      · exact lt_of_mul_lt_mul_right (not_le.mp hle) (Nat.zero_le _)
      · refine List.map_congr_left fun r _ => ?_
        rw [Nat.mul_assoc]

lemma single_bytes (h : SingleRow info) (hsize32 : info.blockSize < 2 ^ 32)
    (ha : info.addr < 2 ^ 64) :
    recordsBytes (convertSingleRecordRepeats info record) = opBytes info := by
  have hrt := h.times
  have haddr : info.addr = add64 info.addr (0 * info.blockSize) := by
    rw [zero_mul, add64_zero ha]
  rw [opBytes_eq, opCells_of_row h.stride h.num]
  rcases h.cases record hsize32 with ⟨h0, hconv⟩ | ⟨h0, hle, hconv⟩ | ⟨hlt, hconv⟩
  · rw [hconv]
    refine recordsBytes_cells h.size (fun r hr => ?_) fun d hd => ?_
    · rw [List.mem_singleton.mp hr]
      exact ⟨0, rowCells info, haddr, rfl, fun i hi => ⟨0, hrt, i, hi, by ring⟩⟩
    · obtain ⟨r, -, i, hi, rfl⟩ := hd
      refine ⟨_, List.mem_singleton.mpr rfl, 0, rowCells info, haddr, rfl, i, hi, ?_⟩
      rw [h0]
      ring
  · rw [hconv]
    refine recordsBytes_cells h.size (fun r hr => ?_) fun d hd => ?_
    · rw [List.mem_singleton.mp hr]
      refine ⟨0, _, haddr, rfl, fun i hi => ?_⟩
      -- the last repeat takes what lies behind the start of it
      rcases Nat.lt_or_ge i ((info.repeatTimes - 1) * info.repeatStride) with hi' | hi'
      · have hpos : 0 < info.repeatStride := Nat.pos_of_ne_zero h0
        refine ⟨i / info.repeatStride, ?_, i % info.repeatStride,
          (Nat.mod_lt _ hpos).trans_le hle, ?_⟩
        · have := (Nat.div_lt_iff_lt_mul hpos).mpr hi'
          omega
        · rw [zero_add, Nat.mul_comm]
          exact (Nat.div_add_mod _ _).symm
      · exact ⟨info.repeatTimes - 1, by omega, i - (info.repeatTimes - 1) * info.repeatStride,
          by omega, by omega⟩
    · obtain ⟨r, hr, i, hi, rfl⟩ := hd
      have hmul : r * info.repeatStride ≤ (info.repeatTimes - 1) * info.repeatStride :=
        Nat.mul_le_mul_right _ (by omega)
      exact ⟨_, List.mem_singleton.mpr rfl, 0, _, haddr, rfl, _, by omega, (zero_add _).symm⟩
  · rw [hconv]
    refine recordsBytes_cells h.size (fun r hr => ?_) fun d hd => ?_
    · obtain ⟨idx, hidx, rfl⟩ := List.mem_map.mp hr
      exact ⟨idx * info.repeatStride, rowCells info, rfl, rfl, fun i hi =>
        ⟨idx, List.mem_range.mp hidx, i, hi, rfl⟩⟩
    · obtain ⟨r, hr, i, hi, rfl⟩ := hd
      exact ⟨_, List.mem_map.mpr ⟨r, List.mem_range.mpr hr, rfl⟩, r * info.repeatStride,
        rowCells info, rfl, rfl, i, hi, rfl⟩

lemma rows_disjoint {addr S n r r' : ℕ} (hn : n ≤ S) (hr : r < r') (hend : (r' + 1) * S ≤ 2 ^ 64) :
    Disjoint {x | ∃ k < n, x = add64 (add64 addr (r * S)) k}
      {x | ∃ k < n, x = add64 (add64 addr (r' * S)) k} := by
  rw [Set.disjoint_left]
  rintro x ⟨k, hk, rfl⟩ ⟨k', hk', hx⟩
  have hle : (r + 1) * S ≤ r' * S := Nat.mul_le_mul_right _ hr
  rw [add_mul] at hle hend
  rw [add64_add64, add64_add64] at hx
  have := add64_inj (by omega) (by omega) hx
  omega

lemma recordsBytes_singleton (r : MemOpRecord) :
    recordsBytes [r] = {x | ∃ k < r.memSize, x = add64 r.dstAddr k} := by
  ext x
  simp [recordsBytes]

lemma single_disjoint (h : SingleRow info) (hsize32 : info.blockSize < 2 ^ 32) :
    (convertSingleRecordRepeats info record).Pairwise fun a b =>
      Disjoint (recordsBytes [a]) (recordsBytes [b]) := by
  rcases h.cases record hsize32 with ⟨-, hconv⟩ | ⟨-, -, hconv⟩ | ⟨hlt, hconv⟩
  · rw [hconv]
    exact List.pairwise_singleton _ _
  · rw [hconv]
    exact List.pairwise_singleton _ _
  · rw [hconv, List.pairwise_map]
    refine List.Pairwise.imp_of_mem (fun {r r'} _ hr' hrr => ?_) List.pairwise_lt_range
    rw [recordsBytes_singleton, recordsBytes_singleton]
    simp only [processAndStoreMemOp_dstAddr, processAndStoreMemOp_memSize, Nat.mul_assoc]
    refine rows_disjoint (Nat.mul_le_mul_right _ hlt.le) hrr ?_
    have h2 := h.times_le
    have hr'' := List.mem_range.mp hr'
    unfold maxRepeatTimes at h2
    have : (r' + 1) * (info.repeatStride * info.blockSize) ≤ 2 ^ 15 * 2 ^ 32 :=
      Nat.mul_le_mul (by omega) h.step.le
    omega

/-- **Repeats of one range.** The records of a repeated range cover exactly the bytes of the
operation, and no byte is covered by two records when a repeat starts no earlier than the one
before it ends. -/
theorem single_repeats (hsize32 : info.blockSize < 2 ^ 32) (ha : info.addr < 2 ^ 64)
    (hstride : info.blockStride ≤ 1) (hnum : 1 ≤ info.blockNum) (hsize : 1 ≤ info.blockSize)
    (htimes : 1 ≤ info.repeatTimes) (hmax : info.repeatTimes ≤ 0x7FFF)
    (hrow : info.blockStride = 1 → info.blockSize * info.blockNum < 2 ^ 32)
    (hstep : info.repeatStride * info.blockSize < 2 ^ 32) :
    recordsBytes (convertSingleRecordRepeats info record) = opBytes info ∧
      (repeatLength info ≤ info.repeatStride * info.blockSize →
        (convertSingleRecordRepeats info record).Pairwise fun a b =>
          Disjoint (recordsBytes [a]) (recordsBytes [b])) := by
  have h : SingleRow info := ⟨hstride, hnum, hsize, htimes, hmax, hrow, hstep⟩
  exact ⟨single_bytes record h hsize32 ha, fun _ => single_disjoint record h hsize32⟩

/-- Repeats of two touching blocks with a gap of one. -/
def gapOp : MemOpInfo where
  addr := 64
  blockNum := 2
  blockSize := 32
  blockStride := 1
  repeatTimes := 3
  repeatStride := 3

theorem single_repeats_gap :
    recordsBytes (convertSingleRecordRepeats gapOp {}) = opBytes gapOp :=
  (@single_repeats gapOp {} (by decide) (by decide) (by decide) (by decide) (by decide)
    (by decide) (by decide) (by decide) (by decide)).1

/-! ## Repeats of several ranges -/

/-- What the conversion of several ranges is given: counts are positive, the count of repeats is
not cut, and the products fit the types that they are computed in. -/
structure Rows (info : MemOpInfo) : Prop where
  stride : 2 ≤ info.blockStride
  num : 1 ≤ info.blockNum
  num_lt : info.blockNum < 2 ^ 32
  times : 1 ≤ info.repeatTimes
  times_le : info.repeatTimes ≤ maxRepeatTimes
  extent : ((info.repeatTimes - 1) * info.repeatStride + (info.blockNum - 1) * info.blockStride + 1)
    * info.blockSize ≤ 2 ^ 64
  merged : info.repeatStride = 1 → info.blockStride ≤ info.repeatTimes →
    (info.blockNum - 1 + info.repeatTimes) * info.blockSize < 2 ^ 32
  rows : info.repeatStride = 1 → info.repeatTimes < info.blockStride →
    info.repeatTimes * info.blockSize < 2 ^ 32

def recordCells (info : MemOpInfo) : Set ℕ :=
  if info.repeatStride = 0 then {0}
  else if info.repeatStride = 1 ∧ info.blockStride ≤ info.repeatTimes then
    {c | c < info.blockNum - 1 + info.repeatTimes}
  else if info.repeatStride = 1 ∧ info.repeatTimes < info.blockStride then
    {c | ∃ b < info.blockNum, ∃ i < info.repeatTimes, c = b * info.blockStride + i}
  else if info.repeatStride = info.blockStride then
    {c | ∃ i < max info.blockNum info.repeatTimes, c = i * info.blockStride}
  else opCells info

/-- The length of the record that stands for all blocks. -/
lemma Rows.mergedLength (h : Rows info) (h1 : info.repeatStride = 1)
    (hle : info.blockStride ≤ info.repeatTimes) :
    (sub32 info.blockNum 1 + info.repeatTimes) % 2 ^ 32 * info.blockSize % 2 ^ 32 =
      (info.blockNum - 1 + info.repeatTimes) * info.blockSize := by
  have hfit := h.merged h1 hle
  have hn := h.num
  have hn' := h.num_lt
  have hsub : sub32 info.blockNum 1 = info.blockNum - 1 := by
    unfold sub32
    omega
  rw [hsub]
  rcases Nat.eq_zero_or_pos info.blockSize with hs | hs
  · simp [hs]
  · have hle' : info.blockNum - 1 + info.repeatTimes ≤
        (info.blockNum - 1 + info.repeatTimes) * info.blockSize :=
      Nat.le_mul_of_pos_right _ hs
    rw [Nat.mod_eq_of_lt (a := info.blockNum - 1 + info.repeatTimes) (by omega),
      Nat.mod_eq_of_lt hfit]

lemma muti_bytes (h : Rows info) (hs : 0 < info.blockSize) (ha : info.addr < 2 ^ 64) :
    recordsBytes (convertMutiRecordRepeats info record) =
      cellBytes info.addr info.blockSize (recordCells info) := by
  have haddr : info.addr = add64 info.addr (0 * info.blockSize) := by
    rw [zero_mul, add64_zero ha]
  unfold convertMutiRecordRepeats recordCells
  by_cases h0 : info.repeatStride = 0
  · rw [if_pos h0, if_pos h0]
    refine recordsBytes_cells hs (fun r hr => ?_) fun d hd => ?_
    · obtain ⟨b, -, rfl⟩ := List.mem_map.mp hr
      exact ⟨0, 1, haddr, (one_mul _).symm, fun i hi => by simp; omega⟩
    · rw [Set.mem_singleton_iff.mp hd]
      exact ⟨_, List.mem_map.mpr ⟨0, List.mem_range.mpr h.num, rfl⟩, 0, 1, haddr,
        (one_mul _).symm, 0, one_pos, rfl⟩
  rw [if_neg h0, if_neg h0]
  by_cases h1 : info.repeatStride = 1 ∧ info.blockStride ≤ info.repeatTimes
  · rw [if_pos h1, if_pos h1, h.mergedLength h1.1 h1.2]
    refine recordsBytes_cells hs (fun r hr => ?_) fun d hd => ?_
    · rw [List.mem_singleton.mp hr]
      exact ⟨0, _, haddr, rfl, fun i hi => by simpa using hi⟩
    · exact ⟨_, List.mem_singleton.mpr rfl, 0, _, haddr, rfl, d, hd, (zero_add d).symm⟩
  rw [if_neg h1, if_neg h1]
  by_cases h2 : info.repeatStride = 1 ∧ info.repeatTimes < info.blockStride
  · rw [if_pos h2, if_pos h2, Nat.mod_eq_of_lt (h.rows h2.1 h2.2)]
    refine recordsBytes_cells hs (fun r hr => ?_) fun d hd => ?_
    · obtain ⟨b, hb, rfl⟩ := List.mem_map.mp hr
      refine ⟨b * info.blockStride, info.repeatTimes, ?_, rfl, fun i hi =>
        ⟨b, List.mem_range.mp hb, i, hi, rfl⟩⟩
      rw [processAndStoreMemOp_dstAddr, Nat.mul_right_comm]
    · obtain ⟨b, hb, i, hi, rfl⟩ := hd
      refine ⟨_, List.mem_map.mpr ⟨b, List.mem_range.mpr hb, rfl⟩, b * info.blockStride,
        info.repeatTimes, ?_, rfl, i, hi, rfl⟩
      rw [processAndStoreMemOp_dstAddr, Nat.mul_right_comm]
  rw [if_neg h2, if_neg h2]
  by_cases h3 : info.repeatStride = info.blockStride
  · rw [if_pos h3, if_pos h3]
    refine recordsBytes_cells hs (fun r hr => ?_) fun d hd => ?_
    · obtain ⟨i, hi, rfl⟩ := List.mem_map.mp hr
      refine ⟨i * info.blockStride, 1, ?_, (one_mul _).symm, fun j hj =>
        ⟨i, List.mem_range.mp hi, by omega⟩⟩
      rw [processAndStoreMemOp_dstAddr, Nat.mul_right_comm]
    · obtain ⟨i, hi, rfl⟩ := hd
      refine ⟨_, List.mem_map.mpr ⟨i, List.mem_range.mpr hi, rfl⟩, i * info.blockStride, 1, ?_,
        (one_mul _).symm, 0, one_pos, rfl⟩
      rw [processAndStoreMemOp_dstAddr, Nat.mul_right_comm]
  · rw [if_neg h3, if_neg h3, Nat.min_eq_left h.times_le]
    have hcell : ∀ r b, add64 (add64 info.addr (r * info.blockSize * info.repeatStride))
        (b * info.blockStride * info.blockSize) =
        add64 info.addr ((r * info.repeatStride + b * info.blockStride) * info.blockSize) := by
      intro r b
      rw [add64_add64]
      congr 1
      ring
    refine recordsBytes_cells hs (fun x hx => ?_) fun d hd => ?_
    · obtain ⟨r, hr, hx⟩ := List.mem_flatMap.mp hx
      obtain ⟨b, hb, rfl⟩ := List.mem_map.mp hx
      refine ⟨r * info.repeatStride + b * info.blockStride, 1, hcell r b, (one_mul _).symm,
        fun i hi => ⟨r, List.mem_range.mp hr, b, List.mem_range.mp hb, by omega⟩⟩
    · obtain ⟨r, hr, b, hb, rfl⟩ := hd
      exact ⟨_, List.mem_flatMap.mpr ⟨r, List.mem_range.mpr hr,
        List.mem_map.mpr ⟨b, List.mem_range.mpr hb, rfl⟩⟩, _, 1, hcell r b, (one_mul _).symm, 0,
        one_pos, rfl⟩

/-! ### Which cells are missing -/

def CoversAll (info : MemOpInfo) : Prop :=
  info.blockNum = 1 ∨
    (info.repeatStride ≠ 0 ∧ ¬ (info.repeatStride = 1 ∧ info.blockStride ≤ info.repeatTimes) ∧
      (info.repeatStride = info.blockStride → info.repeatTimes = 1))

lemma Rows.zero_mem (h : Rows info) : 0 ∈ opCells info :=
  ⟨0, h.times, 0, h.num, by ring⟩

lemma Rows.last_mem (h : Rows info) :
    (info.repeatTimes - 1) * info.repeatStride + (info.blockNum - 1) * info.blockStride ∈
      opCells info := by
  have hn := h.num
  have ht := h.times
  exact ⟨info.repeatTimes - 1, by omega, info.blockNum - 1, by omega, rfl⟩

lemma Rows.cell_le (h : Rows info) {c : ℕ} (hc : c ∈ opCells info) :
    (c + 1) * info.blockSize ≤ 2 ^ 64 := by
  obtain ⟨r, hr, b, hb, rfl⟩ := hc
  have h1 : r * info.repeatStride ≤ (info.repeatTimes - 1) * info.repeatStride :=
    Nat.mul_le_mul_right _ (by omega)
  have h2 : b * info.blockStride ≤ (info.blockNum - 1) * info.blockStride :=
    Nat.mul_le_mul_right _ (by omega)
  exact (Nat.mul_le_mul_right _ (by omega)).trans h.extent

lemma Rows.recordCell_le (h : Rows info) {c : ℕ} (hc : c ∈ recordCells info) :
    (c + 1) * info.blockSize ≤ 2 ^ 64 := by
  unfold recordCells at hc
  split_ifs at hc with h0 h1 h2 h3
  · rw [Set.mem_singleton_iff.mp hc]
    exact h.cell_le h.zero_mem
  · have hlt : c < info.blockNum - 1 + info.repeatTimes := hc
    have := Nat.mul_le_mul_right info.blockSize (show c + 1 ≤ _ from hlt)
    have := h.merged h1.1 h1.2
    omega
  · obtain ⟨b, hb, i, hi, rfl⟩ := hc
    exact h.cell_le ⟨i, hi, b, hb, by rw [h2.1]; ring⟩
  · obtain ⟨i, hi, rfl⟩ := hc
    rcases lt_max_iff.mp hi with hi | hi
    · exact h.cell_le ⟨0, h.times, i, hi, by ring⟩
    · exact h.cell_le ⟨i, hi, 0, h.num, by rw [h3]; ring⟩
  · exact h.cell_le hc

/-- With one block in a row the repeats alone are left. -/
lemma opCells_one (hn : info.blockNum = 1) :
    opCells info = {c | ∃ r < info.repeatTimes, c = r * info.repeatStride} := by
  ext c
  constructor
  · rintro ⟨r, hr, b, hb, rfl⟩
    have hb0 : b = 0 := by omega
    exact ⟨r, hr, by rw [hb0]; ring⟩
  · rintro ⟨r, hr, rfl⟩
    exact ⟨r, hr, 0, by omega, by ring⟩

lemma recordCells_one (h : Rows info) (hn : info.blockNum = 1) :
    recordCells info = opCells info := by
  rw [opCells_one hn]
  unfold recordCells
  split_ifs with h0 h1 h2 h3
  · ext c
    constructor
    · intro hc
      exact ⟨0, h.times, by rw [Set.mem_singleton_iff.mp hc]; ring⟩
    · rintro ⟨r, -, rfl⟩
      simp [h0]
  · ext c
    constructor
    · intro hc
      have hlt : c < info.blockNum - 1 + info.repeatTimes := hc
      exact ⟨c, by omega, by rw [h1.1]; ring⟩
    · rintro ⟨r, hr, rfl⟩
      show r * info.repeatStride < info.blockNum - 1 + info.repeatTimes
      rw [h1.1]
      omega
  · ext c
    constructor
    · rintro ⟨b, hb, i, hi, rfl⟩
      have hb0 : b = 0 := by omega
      exact ⟨i, hi, by rw [h2.1, hb0]; ring⟩
    · rintro ⟨r, hr, rfl⟩
      exact ⟨0, by omega, r, hr, by rw [h2.1]; ring⟩
  · ext c
    have ht := h.times
    constructor
    · rintro ⟨i, hi, rfl⟩
      exact ⟨i, by omega, by rw [h3]⟩
    · rintro ⟨r, hr, rfl⟩
      exact ⟨r, by omega, by rw [h3]⟩
  · exact opCells_one hn

lemma recordCells_rows (h1 : info.repeatStride = 1) (hlt : info.repeatTimes < info.blockStride) :
    recordCells info = opCells info := by
  unfold recordCells
  rw [if_neg (by omega), if_neg (by omega), if_pos ⟨h1, hlt⟩]
  ext c
  constructor
  · rintro ⟨b, hb, i, hi, rfl⟩
    exact ⟨i, hi, b, hb, by rw [h1]; ring⟩
  · rintro ⟨r, hr, b, hb, rfl⟩
    exact ⟨b, hb, r, hr, by rw [h1]; ring⟩

lemma recordCells_once (h : Rows info) (heq : info.repeatStride = info.blockStride)
    (ht : info.repeatTimes = 1) : recordCells info = opCells info := by
  have hs := h.stride
  have hn := h.num
  unfold recordCells
  rw [if_neg (by omega), if_neg (by omega), if_neg (by omega), if_pos heq]
  ext c
  constructor
  · rintro ⟨i, hi, rfl⟩
    exact ⟨0, by omega, i, by omega, by ring⟩
  · rintro ⟨r, hr, b, hb, rfl⟩
    have hr0 : r = 0 := by omega
    exact ⟨b, by omega, by rw [hr0]; ring⟩

/-- A branch that leaves cells out misses the last block. -/
lemma coversAll_of_subset (h : Rows info) (hsub : opCells info ⊆ recordCells info) :
    CoversAll info := by
  have hs := h.stride
  have hn := h.num
  have ht := h.times
  by_contra hcov
  unfold CoversAll at hcov
  push Not at hcov
  obtain ⟨hn1, hcov⟩ := hcov
  have hlast := hsub h.last_mem
  have hgap : 2 * (info.blockNum - 1) ≤ (info.blockNum - 1) * info.blockStride := by
    rw [Nat.mul_comm]
    exact Nat.mul_le_mul_left _ hs
  unfold recordCells at hlast
  split_ifs at hlast with h0 h1 h2 h3
  · -- every block but the first is missing
    have := Set.mem_singleton_iff.mp hlast
    omega
  · -- the length counts blocks as if they touched
    have hlt : (info.repeatTimes - 1) * info.repeatStride +
      (info.blockNum - 1) * info.blockStride < info.blockNum - 1 + info.repeatTimes := hlast
    rw [h1.1] at hlt
    omega
  · have := (hcov h0 (fun h => by omega)).1
    omega
  · -- there are as many different blocks as rows and columns together
    obtain ⟨i, hi, heq⟩ := hlast
    have hrt : info.repeatTimes ≠ 1 := (hcov h0 fun h => by omega).2
    rw [h3, ← add_mul] at heq
    have := Nat.eq_of_mul_eq_mul_right (by omega) heq
    omega
  · exact h3 (hcov h0 fun h => by omega).1

lemma recordCells_of_coversAll (h : Rows info) (hcov : CoversAll info) :
    recordCells info = opCells info := by
  rcases hcov with hn1 | ⟨h0, h1, h3⟩
  · exact recordCells_one h hn1
  · by_cases hr1 : info.repeatStride = 1
    · exact recordCells_rows hr1 (by omega)
    · by_cases heq : info.repeatStride = info.blockStride
      · exact recordCells_once h heq (h3 heq)
      · unfold recordCells
        rw [if_neg h0, if_neg h1, if_neg (by omega), if_neg heq]

lemma muti_bytes_empty (hs : info.blockSize = 0) :
    recordsBytes (convertMutiRecordRepeats info record) = opBytes info := by
  have hop : opBytes info = ∅ := by
    rw [Set.eq_empty_iff_forall_notMem]
    rintro x ⟨_, _, _, _, k, hk, -⟩
    omega
  have hsize : ∀ r ∈ convertMutiRecordRepeats info record, r.memSize = 0 := by
    intro r hr
    unfold convertMutiRecordRepeats at hr
    simp only [hs, Nat.mul_zero, Nat.zero_mod] at hr
    split_ifs at hr
    · obtain ⟨_, -, rfl⟩ := List.mem_map.mp hr
      rfl
    · rw [List.mem_singleton.mp hr]
      rfl
    · obtain ⟨_, -, rfl⟩ := List.mem_map.mp hr
      rfl
    · obtain ⟨_, -, rfl⟩ := List.mem_map.mp hr
      rfl
    · obtain ⟨_, -, hr⟩ := List.mem_flatMap.mp hr
      obtain ⟨_, -, rfl⟩ := List.mem_map.mp hr
      rfl
  rw [hop, Set.eq_empty_iff_forall_notMem]
  rintro x ⟨r, hr, k, hk, -⟩
  rw [hsize r hr] at hk
  omega

/-- **Repeats of several ranges.** The records of a repeated row of blocks with gaps cover
exactly the bytes of the operation if and only if the blocks are empty, or there is one block in
a row, or the conversion takes none of the three shortcuts that leave blocks out: the repeats
have a stride, they do not fill the gaps, and where the strides are equal there is one repeat. -/
theorem muti_repeats (ha : info.addr < 2 ^ 64) (hstride : 2 ≤ info.blockStride)
    (hnum : 1 ≤ info.blockNum) (hnum32 : info.blockNum < 2 ^ 32) (htimes : 1 ≤ info.repeatTimes)
    (hmax : info.repeatTimes ≤ 0x7FFF)
    (hextent : ((info.repeatTimes - 1) * info.repeatStride +
      (info.blockNum - 1) * info.blockStride + 1) * info.blockSize ≤ 2 ^ 64)
    (hmerged : info.repeatStride = 1 → info.blockStride ≤ info.repeatTimes →
      (info.blockNum - 1 + info.repeatTimes) * info.blockSize < 2 ^ 32)
    (hrows : info.repeatStride = 1 → info.repeatTimes < info.blockStride →
      info.repeatTimes * info.blockSize < 2 ^ 32) :
    recordsBytes (convertMutiRecordRepeats info record) = opBytes info ↔
      info.blockSize = 0 ∨ info.blockNum = 1 ∨
        (info.repeatStride ≠ 0 ∧
          ¬ (info.repeatStride = 1 ∧ info.blockStride ≤ info.repeatTimes) ∧
          (info.repeatStride = info.blockStride → info.repeatTimes = 1)) := by
  have h : Rows info := ⟨hstride, hnum, hnum32, htimes, hmax, hextent, hmerged, hrows⟩
  rcases Nat.eq_zero_or_pos info.blockSize with hs | hs
  · exact iff_of_true (muti_bytes_empty record hs) (Or.inl hs)
  · rw [or_iff_right hs.ne', muti_bytes record h hs ha, opBytes_eq]
    constructor
    · intro heq
      refine coversAll_of_subset h fun c hc => ?_
      exact mem_of_cellBytes_subset hs heq.ge (fun d hd => h.recordCell_le hd) hc (h.cell_le hc)
    · intro hcov
      rw [recordCells_of_coversAll h hcov]

/-- Two rows of two blocks, with a stride of three blocks between the rows. -/
def stridedOp : MemOpInfo where
  addr := 64
  blockNum := 2
  blockSize := 32
  blockStride := 2
  repeatTimes := 2
  repeatStride := 3

theorem muti_repeats_strided :
    recordsBytes (convertMutiRecordRepeats stridedOp {}) = opBytes stridedOp :=
  (@muti_repeats stridedOp {} (by decide) (by decide) (by decide) (by decide) (by decide)
    (by decide) (by decide) (by decide) (by decide)).mpr (by decide)

/-- Two rows of two blocks with equal strides: three different blocks. -/
def equalStridesOp : MemOpInfo where
  addr := 64
  blockNum := 2
  blockSize := 32
  blockStride := 2
  repeatTimes := 2
  repeatStride := 2

/-- The last of the three blocks, at address 192, is not covered. -/
theorem equal_strides_lose_block :
    2 ≤ equalStridesOp.blockStride ∧ 1 ≤ equalStridesOp.blockNum ∧
      1 ≤ equalStridesOp.repeatTimes ∧ equalStridesOp.repeatTimes ≤ 0x7FFF ∧
      recordsBytes (convertMutiRecordRepeats equalStridesOp {}) ≠ opBytes equalStridesOp := by
  refine ⟨by decide, by decide, by decide, by decide, fun heq => ?_⟩
  have hop : 192 ∈ opBytes equalStridesOp :=
    ⟨1, by decide, 1, by decide, 0, by decide, by decide⟩
  have hconv : convertMutiRecordRepeats equalStridesOp {} =
      [processAndStoreMemOp {} 64 32, processAndStoreMemOp {} 128 32] := by decide
  rw [← heq, hconv] at hop
  obtain ⟨r, hr, k, hk, hx⟩ := hop
  simp only [List.mem_cons, List.not_mem_nil, or_false] at hr
  rcases hr with rfl | rfl
  · simp only [processAndStoreMemOp_dstAddr, processAndStoreMemOp_memSize, add64] at hk hx
    omega
  · simp only [processAndStoreMemOp_dstAddr, processAndStoreMemOp_memSize, add64] at hk hx
    omega

end MsSanitizer.MemRepeats
