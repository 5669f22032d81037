import MsSanitizer.BoundedRuns
import MsSanitizer.RecordDefs

/-!
# The shadow table of the SIMT threads

The table of `shadow_memory_online.h` that holds one status word for every byte the SIMT threads
of a block have touched, and the dump of it. The three indices of a byte are computed from its
address by masks and divisions; the dump walks over the indices and puts the address together
again. Bytes in a row with the same status are dumped as one record. Locks, the heap of the
table and its exhaustion are left out: a sub-table that is not there reads as zeros.
-/

namespace MsSanitizer.OnlineShadow

open BoundedRuns

def onlineGlobalMemMask : ℕ := 0xFFFFFFFFFFFF

def onlineLocalMemMask : ℕ := 0xFFFFFFFF

def onlineOneSmStandForByte : ℕ := 0xFFFF + 1

def l0TblNum : ℕ := (onlineGlobalMemMask + onlineLocalMemMask - 1) / onlineLocalMemMask

def l1TblNum : ℕ := (onlineLocalMemMask + onlineOneSmStandForByte - 1) / onlineOneSmStandForByte

/-- The status words by their three indices; 0 is no status. -/
abbrev Table := ℕ → ℕ → ℕ → ℕ

/-- The index of `LookUpInL0`. -/
def l0Idx (addr : ℕ) : ℕ := (addr &&& onlineGlobalMemMask) / onlineLocalMemMask

/-- The index of `LookUpInL1`. -/
def l1Idx (addr : ℕ) : ℕ := (addr &&& onlineLocalMemMask) / onlineOneSmStandForByte

/-- The index of `LookUpInL2`. -/
def l2Idx (addr : ℕ) : ℕ := (addr &&& (onlineOneSmStandForByte - 1)) / 1

/-- A status word is written where `LookUp` leads. -/
def Table.store (t : Table) (addr status : ℕ) : Table := fun i j k =>
  if i = l0Idx addr ∧ j = l1Idx addr ∧ k = l2Idx addr then status else t i j k

/-- `StatusIsValid`: 1 and 2 ^ 64 - 1 mark a sub-table that is locked or cannot be allocated. -/
def statusIsValid (val : ℕ) : Bool := val != 0 && val != 2 ^ 64 - 1 && val != 1

/-- `CountOneBits`, for a word of 64 bits. -/
def countOneBits (number : ℕ) : ℕ := ((List.range 64).filter fun i => number.testBit i).length

def entryAddr (i j k : ℕ) : ℕ :=
  (i <<< countOneBits onlineLocalMemMask) |||
    (j <<< countOneBits (onlineOneSmStandForByte - 1)) ||| k

/-- The bytes the three loops of the dump come to, in their order. -/
def entries (t : Table) : List (ℕ × ℕ) :=
  (List.range l0TblNum).flatMap fun i =>
    (List.range l1TblNum).flatMap fun j =>
      (List.range onlineOneSmStandForByte).flatMap fun k =>
        if statusIsValid (t i j k) then [(entryAddr i j k, t i j k)] else []

structure SimtEntryRecord where
  addr : ℕ := 0
  status : ℕ := 0
  size : ℕ := 0
  deriving DecidableEq, Repr

structure SimtEntryBlockHead where
  recordCount : ℕ := 0
  recordWriteCount : ℕ := 0
  exceedSize : ℕ := 0
  mainScalarPc : ℕ := 0
  threadXDim : ℕ := 0
  threadYDim : ℕ := 0
  threadZDim : ℕ := 0
  deriving DecidableEq, Repr

/-- `sizeof(SimtEntryBlockHead)`. -/
def headSize : ℕ := 64

/-- `sizeof(SimtEntryRecord)`. -/
def recordSize : ℕ := 24

/-- The area of a block for the dumps, read at byte offsets: `simtEntryUseSize` bytes of it are
in use. Heads and records never overlap, so that they are kept apart here. -/
structure Area where
  heads : ℕ → SimtEntryBlockHead := fun _ => {}
  records : ℕ → SimtEntryRecord := fun _ => {}
  simtEntryUseSize : ℕ := 0
  simtEndCount : ℕ := 0

/-- The variables of the loops of `CopyShadowMemoryToMemInfo`. -/
structure CopyState where
  records : ℕ → SimtEntryRecord
  useSize : ℕ
  recordCount : ℕ := 0
  recordWriteCount : ℕ := 0
  exceedSize : ℕ := 0

/-- Whether a byte is counted to the record before it. -/
def canMerge (pre : SimtEntryRecord) (e : ℕ × ℕ) : Prop :=
  pre.status = e.2 ∧ (pre.addr + pre.size) % 2 ^ 64 = e.1

instance (pre : SimtEntryRecord) (e : ℕ × ℕ) : Decidable (canMerge pre e) :=
  inferInstanceAs (Decidable (_ ∧ _))

/-- The body of the innermost loop; `base` is the offset of `gmEntryRecord` and `limit` the size
of the area. -/
def copyByte (limit base : ℕ) (s : CopyState) (e : ℕ × ℕ) : CopyState :=
  if s.useSize + recordSize ≤ limit then
    let pre := if s.recordWriteCount > 0 then base + (s.recordWriteCount - 1) * recordSize else base
    if canMerge (s.records pre) e then
      { s with
        records := Function.update s.records pre
          { s.records pre with size := ((s.records pre).size + 1) % 2 ^ 16 } }
    else
      { s with
        records := Function.update s.records (base + s.recordWriteCount * recordSize) ⟨e.1, e.2, 1⟩
        recordWriteCount := s.recordWriteCount + 1
        recordCount := s.recordCount + 1
        useSize := s.useSize + recordSize }
  else { s with exceedSize := s.exceedSize + recordSize }

/-- The loops of `CopyShadowMemoryToMemInfo`. -/
def copyLoop (limit : ℕ) (a : Area) (t : Table) : CopyState :=
  (entries t).foldl (copyByte limit (a.simtEntryUseSize + headSize))
    { records := a.records, useSize := a.simtEntryUseSize + headSize }

/-- What the head takes over from the running call. -/
structure CallInfo where
  mainScalarPc : ℕ := 0
  threadXDim : ℕ := 0
  threadYDim : ℕ := 0
  threadZDim : ℕ := 0

/-- `CopyShadowMemoryToMemInfo`: the area and the table after it. -/
def copyShadowMemoryToMemInfo (limit : ℕ) (info : CallInfo) (a : Area) (t : Table)
    (isSimtEnd : Bool) : Area × Table :=
  let s := copyLoop limit a t
  ({ heads := Function.update a.heads a.simtEntryUseSize
        { recordCount := s.recordCount
          recordWriteCount := s.recordWriteCount
          exceedSize := if s.exceedSize > 0 then s.exceedSize + headSize else 0
          mainScalarPc := info.mainScalarPc
          threadXDim := info.threadXDim
          threadYDim := info.threadYDim
          threadZDim := info.threadZDim }
     records := s.records
     simtEntryUseSize := s.useSize
     simtEndCount := if isSimtEnd then a.simtEndCount + 1 else a.simtEndCount },
    if isSimtEnd then fun i j k => if statusIsValid (t i j k) then 0 else t i j k else t)

/-- The records of the block whose head is at an offset. -/
def Area.recordsAt (a : Area) (offset : ℕ) : List SimtEntryRecord :=
  (List.range (a.heads offset).recordWriteCount).map fun i =>
    a.records (offset + headSize + i * recordSize)

/-! ### Addresses and indices -/

lemma l0TblNum_eq : l0TblNum = 65537 := by
  norm_num [l0TblNum, onlineGlobalMemMask, onlineLocalMemMask]

lemma l1TblNum_eq : l1TblNum = 65536 := by
  norm_num [l1TblNum, onlineOneSmStandForByte, onlineLocalMemMask]

lemma entryAddr_eq {i j k : ℕ} (hj : j < 2 ^ 16) (hk : k < 2 ^ 16) :
    entryAddr i j k = i * 2 ^ 32 + j * 2 ^ 16 + k := by
  have h1 : countOneBits onlineLocalMemMask = 32 := by decide
  have h2 : countOneBits (onlineOneSmStandForByte - 1) = 16 := by decide
  have hjk : j * 2 ^ 16 + k < 2 ^ 32 := by omega
  unfold entryAddr
  rw [h1, h2, Nat.shiftLeft_eq, Nat.shiftLeft_eq, Nat.or_assoc, mul_comm j,
    ← Nat.two_pow_add_eq_or_of_lt hk, mul_comm i,
    ← Nat.two_pow_add_eq_or_of_lt (by omega : 2 ^ 16 * j + k < 2 ^ 32)]
  ring

lemma l0Idx_eq {addr : ℕ} (h : addr < 2 ^ 48) : l0Idx addr = addr / onlineLocalMemMask := by
  unfold l0Idx
  rw [show onlineGlobalMemMask = 2 ^ 48 - 1 by rfl, Nat.and_two_pow_sub_one_eq_mod,
    Nat.mod_eq_of_lt h]

lemma l1Idx_eq (addr : ℕ) : l1Idx addr = addr % 2 ^ 32 / 2 ^ 16 := by
  unfold l1Idx
  rw [show onlineLocalMemMask = 2 ^ 32 - 1 by rfl, Nat.and_two_pow_sub_one_eq_mod]
  rfl

lemma l2Idx_eq (addr : ℕ) : l2Idx addr = addr % 2 ^ 16 := by
  unfold l2Idx
  rw [show onlineOneSmStandForByte - 1 = 2 ^ 16 - 1 by rfl, Nat.and_two_pow_sub_one_eq_mod,
    Nat.div_one]

lemma l1Idx_lt (addr : ℕ) : l1Idx addr < 2 ^ 16 := by
  rw [l1Idx_eq]
  omega

lemma l2Idx_lt (addr : ℕ) : l2Idx addr < 2 ^ 16 := by
  rw [l2Idx_eq]
  omega

def dumpAddr (addr : ℕ) : ℕ := entryAddr (l0Idx addr) (l1Idx addr) (l2Idx addr)

lemma dumpAddr_eq {addr : ℕ} (h : addr < 2 ^ 48) :
    dumpAddr addr = addr / onlineLocalMemMask * 2 ^ 32 + addr % 2 ^ 32 := by
  unfold dumpAddr
  rw [entryAddr_eq (l1Idx_lt addr) (l2Idx_lt addr), l0Idx_eq h, l1Idx_eq, l2Idx_eq]
  omega

lemma le_dumpAddr {addr : ℕ} (h : addr < 2 ^ 48) : addr ≤ dumpAddr addr := by
  rw [dumpAddr_eq h, onlineLocalMemMask]
  omega

lemma dumpAddr_lt {addr : ℕ} (h : addr < 2 ^ 48) : dumpAddr addr < 2 ^ 49 := by
  rw [dumpAddr_eq h, onlineLocalMemMask]
  omega

/-- A byte is dumped under its own address if the division by 2 ^ 32 - 1 is as good as one by
2 ^ 32. -/
lemma dumpAddr_self_iff {addr : ℕ} (h : addr < 2 ^ 48) :
    dumpAddr addr = addr ↔ addr / onlineLocalMemMask = addr / 2 ^ 32 := by
  rw [dumpAddr_eq h, onlineLocalMemMask]
  omega

/-- Different bytes have different places in the table. -/
lemma idx_inj {a b : ℕ} (ha : a < 2 ^ 48) (hb : b < 2 ^ 48) (h0 : l0Idx a = l0Idx b)
    (h1 : l1Idx a = l1Idx b) (h2 : l2Idx a = l2Idx b) : a = b := by
  rw [l0Idx_eq ha, l0Idx_eq hb, onlineLocalMemMask] at h0
  rw [l1Idx_eq, l1Idx_eq] at h1
  rw [l2Idx_eq, l2Idx_eq] at h2
  omega

lemma dumpAddr_inj {a b : ℕ} (ha : a < 2 ^ 48) (hb : b < 2 ^ 48)
    (h : dumpAddr a = dumpAddr b) : a = b := by
  rw [dumpAddr_eq ha, dumpAddr_eq hb, onlineLocalMemMask] at h
  omega

/-! ### The bytes the dump comes to -/

lemma mem_entries {t : Table} {e : ℕ × ℕ} :
    e ∈ entries t ↔ ∃ i < l0TblNum, ∃ j < l1TblNum, ∃ k < onlineOneSmStandForByte,
      statusIsValid (t i j k) = true ∧ e = (entryAddr i j k, t i j k) := by
  unfold entries
  simp only [List.mem_flatMap, List.mem_range]
  refine exists_congr fun i => and_congr_right fun _ => exists_congr fun j =>
    and_congr_right fun _ => exists_congr fun k => and_congr_right fun _ => ?_
  split_ifs with h
  · simp [h]
  · simp [h]

/-- The loops come to the bytes in the order of the addresses they are dumped under. -/
lemma sorted_entries (t : Table) : Sorted (entries t) := by
  have h16 : onlineOneSmStandForByte = 2 ^ 16 := rfl
  have hlt : ∀ n : ℕ, (List.range n).Pairwise (· < ·) := fun n => List.pairwise_lt_range
  unfold entries Sorted
  rw [List.pairwise_flatMap]
  refine ⟨fun i _ => ?_, (hlt _).imp_of_mem ?_⟩
  · rw [List.pairwise_flatMap]
    refine ⟨fun j hj => ?_, (hlt _).imp_of_mem ?_⟩
    · rw [List.mem_range, l1TblNum_eq] at hj
      rw [List.pairwise_flatMap]
      refine ⟨fun k _ => by split_ifs <;> simp, (hlt _).imp_of_mem ?_⟩
      intro k k' hk hk' hkk x hx y hy
      rw [List.mem_range, h16] at hk hk'
      split_ifs at hx hy <;> simp only [List.mem_singleton, List.not_mem_nil] at hx hy
      rw [hx, hy, entryAddr_eq hj hk, entryAddr_eq hj hk']
      omega
    · intro j j' hj hj' hjj x hx y hy
      rw [List.mem_range, l1TblNum_eq] at hj hj'
      simp only [List.mem_flatMap, List.mem_range] at hx hy
      obtain ⟨k, hk, hx⟩ := hx
      obtain ⟨k', hk', hy⟩ := hy
      rw [h16] at hk hk'
      split_ifs at hx hy <;> simp only [List.mem_singleton, List.not_mem_nil] at hx hy
      rw [hx, hy, entryAddr_eq hj hk, entryAddr_eq hj' hk']
      omega
  · intro i i' _ _ hii x hx y hy
    simp only [List.mem_flatMap, List.mem_range] at hx hy
    obtain ⟨j, hj, k, hk, hx⟩ := hx
    obtain ⟨j', hj', k', hk', hy⟩ := hy
    rw [l1TblNum_eq] at hj hj'
    rw [h16] at hk hk'
    split_ifs at hx hy <;> simp only [List.mem_singleton, List.not_mem_nil] at hx hy
    rw [hx, hy, entryAddr_eq hj hk, entryAddr_eq hj' hk']
    omega

/-- The table with the bytes stored in it, one after the other. -/
def stored (bytes : List (ℕ × ℕ)) : Table :=
  bytes.foldl (fun t b => t.store b.1 b.2) fun _ _ _ => 0

lemma stored_concat (bytes : List (ℕ × ℕ)) (b : ℕ × ℕ) :
    stored (bytes ++ [b]) = (stored bytes).store b.1 b.2 := by
  unfold stored
  rw [List.foldl_append]
  rfl

/-- Bytes to store: each once, in the modelled range, with a status. -/
structure Storable (bytes : List (ℕ × ℕ)) : Prop where
  nodup : (bytes.map Prod.fst).Nodup
  addr_lt : ∀ b ∈ bytes, b.1 < 2 ^ 48
  valid : ∀ b ∈ bytes, statusIsValid b.2 = true

lemma Storable.concat {bytes : List (ℕ × ℕ)} {b : ℕ × ℕ} (h : Storable (bytes ++ [b])) :
    Storable bytes ∧ ∀ c ∈ bytes, c.1 ≠ b.1 := by
  have hnd := h.nodup
  rw [List.map_append, List.nodup_append] at hnd
  refine ⟨⟨hnd.1, fun c hc => h.addr_lt c (List.mem_append_left _ hc),
    fun c hc => h.valid c (List.mem_append_left _ hc)⟩, fun c hc => ?_⟩
  exact hnd.2.2 c.1 (List.mem_map.2 ⟨c, hc, rfl⟩) b.1 (by simp)

lemma stored_at {bytes : List (ℕ × ℕ)} (h : Storable bytes) {b : ℕ × ℕ} (hb : b ∈ bytes) :
    stored bytes (l0Idx b.1) (l1Idx b.1) (l2Idx b.1) = b.2 := by
  induction bytes using List.reverseRecOn with
  | nil => cases hb
  | append_singleton bytes c ih =>
    obtain ⟨hs, hne⟩ := h.concat
    rw [stored_concat]
    unfold Table.store
    rcases List.mem_append.1 hb with hb' | hb'
    · rw [if_neg]
      · exact ih hs hb'
      · rintro ⟨h0, h1, h2⟩
        refine hne b hb' (idx_inj (h.addr_lt b hb) (h.addr_lt c ?_) h0 h1 h2)
        exact List.mem_append_right _ (List.mem_singleton_self c)
    · rw [List.mem_singleton.1 hb', if_pos ⟨rfl, rfl, rfl⟩]

lemma exists_of_stored {bytes : List (ℕ × ℕ)} {i j k : ℕ} (h : stored bytes i j k ≠ 0) :
    ∃ b ∈ bytes, i = l0Idx b.1 ∧ j = l1Idx b.1 ∧ k = l2Idx b.1 := by
  induction bytes using List.reverseRecOn with
  | nil => exact absurd rfl h
  | append_singleton bytes c ih =>
    rw [stored_concat] at h
    unfold Table.store at h
    split_ifs at h with hc
    · exact ⟨c, List.mem_append_right _ (List.mem_singleton_self c), hc⟩
    · obtain ⟨b, hb, hidx⟩ := ih h
      exact ⟨b, List.mem_append_left _ hb, hidx⟩

/-- **The bytes the dump comes to** are those stored, under the addresses it puts together. -/
lemma entries_perm {bytes : List (ℕ × ℕ)} (h : Storable bytes) :
    (entries (stored bytes)).Perm (bytes.map fun b => (dumpAddr b.1, b.2)) := by
  have hnd : (bytes.map fun b => (dumpAddr b.1, b.2)).Nodup := by
    refine (List.nodup_map_iff_inj_on (List.Nodup.of_map _ h.nodup)).2 fun b hb c hc he => ?_
    have hd := dumpAddr_inj (h.addr_lt b hb) (h.addr_lt c hc) (congrArg Prod.fst he)
    exact Prod.ext hd (Prod.ext_iff.1 he).2
  have hnd' : (entries (stored bytes)).Nodup :=
    (sorted_entries _).imp fun hlt he => by rw [he] at hlt; exact lt_irrefl _ hlt
  rw [List.perm_ext_iff_of_nodup hnd' hnd]
  intro e
  rw [mem_entries, List.mem_map]
  constructor
  · rintro ⟨i, _, j, _, k, _, hv, rfl⟩
    have hne : stored bytes i j k ≠ 0 := by
      intro h0
      rw [h0] at hv
      cases hv
    obtain ⟨b, hb, rfl, rfl, rfl⟩ := exists_of_stored hne
    exact ⟨b, hb, by rw [stored_at h hb]; rfl⟩
  · rintro ⟨b, hb, rfl⟩
    have hlt := h.addr_lt b hb
    refine ⟨l0Idx b.1, ?_, l1Idx b.1, ?_, l2Idx b.1, l2Idx_lt b.1, ?_, ?_⟩
    · rw [l0Idx_eq hlt, l0TblNum_eq, onlineLocalMemMask]
      omega
    · rw [l1TblNum_eq]
      exact l1Idx_lt b.1
    · rw [stored_at h hb]
      exact h.valid b hb
    · rw [stored_at h hb]
      rfl

/-! ### The loop writes runs -/

def SimtEntryRecord.cells (r : SimtEntryRecord) : List (ℕ × ℕ) :=
  (List.range r.size).map fun i => (r.addr + i, r.status)

def ofRun (r : Run ℕ) : SimtEntryRecord := ⟨r.start, r.val, r.len⟩

/-- The records written so far are the runs, the last run first. -/
structure Holds (base : ℕ) (s : CopyState) (rs : List (Run ℕ)) : Prop where
  count : s.recordWriteCount = rs.length
  use : s.useSize = base + rs.length * recordSize
  records : ∀ i r, rs.reverse[i]? = some r → s.records (base + i * recordSize) = ofRun r
  bounds : ∀ r ∈ rs, r.start < 2 ^ 49 ∧ r.len < 2 ^ 16

lemma getElem?_reverse_cons {β : Type*} (b : β) (l : List β) (i : ℕ) (x : β) :
    (b :: l).reverse[i]? = some x ↔
      (i < l.length ∧ l.reverse[i]? = some x) ∨ (i = l.length ∧ x = b) := by
  rw [List.reverse_cons, List.getElem?_append, List.length_reverse]
  split_ifs with h
  · constructor
    · exact fun hx => Or.inl ⟨h, hx⟩
    · rintro (⟨_, hx⟩ | ⟨he, _⟩)
      · exact hx
      · omega
  · constructor
    · intro hx
      right
      have hi : i - l.length = 0 := by
        by_contra hne
        rw [List.getElem?_eq_none (by simp; omega)] at hx
        cases hx
      rw [hi] at hx
      exact ⟨by omega, (Option.some.inj hx).symm⟩
    · rintro (⟨hlt, _⟩ | ⟨rfl, rfl⟩)
      · exact absurd hlt h
      · simp

lemma canMerge_ofRun {r : Run ℕ} {e : ℕ × ℕ} (h : r.start < 2 ^ 49 ∧ r.len < 2 ^ 16) :
    canMerge (ofRun r) e ↔ r.val = e.2 ∧ r.start + r.len = e.1 := by
  unfold canMerge ofRun
  dsimp only
  rw [Nat.mod_eq_of_lt (by omega)]

lemma offset_ne {base i j : ℕ} (h : i ≠ j) : base + i * recordSize ≠ base + j * recordSize := by
  unfold recordSize
  omega

lemma Holds.begin {base : ℕ} {s : CopyState} {rs : List (Run ℕ)} {e : ℕ × ℕ} (limit : ℕ)
    (h : Holds base s rs) (hspace : base + (rs.length + 1) * recordSize ≤ limit)
    (he : e.1 < 2 ^ 49)
    (hno : ¬ canMerge (s.records (if s.recordWriteCount > 0
      then base + (s.recordWriteCount - 1) * recordSize else base)) e) :
    Holds base (copyByte limit base s e) (⟨e.1, e.2, 1⟩ :: rs) := by
  have huse := h.use
  have hcount := h.count
  unfold copyByte
  rw [if_pos (by rw [huse]; unfold recordSize at *; omega), if_neg hno]
  refine ⟨?_, ?_, fun i r hr => ?_, fun r hr => ?_⟩
  · simp [hcount]
  · simp only [huse, List.length_cons, Nat.succ_mul]
    omega
  · dsimp only
    rw [hcount]
    rcases (getElem?_reverse_cons _ _ _ _).1 hr with ⟨hi, hr⟩ | ⟨rfl, rfl⟩
    · rw [Function.update_of_ne (offset_ne (by omega))]
      exact h.records i r hr
    · rw [Function.update_self]
      rfl
  · rcases List.mem_cons.1 hr with rfl | hr
    · exact ⟨he, by norm_num⟩
    · exact h.bounds r hr

/-- A byte with a record before it is pushed onto the runs. -/
lemma Holds.push {base : ℕ} {s : CopyState} {r : Run ℕ} {rs : List (Run ℕ)} {e : ℕ × ℕ}
    (limit : ℕ) (h : Holds base s (r :: rs)) (hspace : base + (rs.length + 2) * recordSize ≤ limit)
    (he : e.1 < 2 ^ 49) :
    Holds base (copyByte limit base s e) (push (2 ^ 16) (r :: rs) e) := by
  have huse := h.use
  have hcount : s.recordWriteCount = rs.length + 1 := h.count
  have hpre : (if s.recordWriteCount > 0 then base + (s.recordWriteCount - 1) * recordSize
      else base) = base + rs.length * recordSize := by
    rw [if_pos (by omega), hcount, Nat.add_sub_cancel]
  have hrec : s.records (base + rs.length * recordSize) = ofRun r :=
    h.records rs.length r ((getElem?_reverse_cons _ _ _ _).2 (Or.inr ⟨rfl, rfl⟩))
  have hmerge := canMerge_ofRun (e := e) (h.bounds r (List.mem_cons_self ..))
  by_cases hext : r.val = e.2 ∧ r.start + r.len = e.1
  · rw [push_extend rs hext]
    unfold copyByte
    rw [if_pos (by rw [huse, List.length_cons]; unfold recordSize at *; omega)]
    simp only [hpre, hrec, hmerge, if_pos hext]
    refine ⟨by rw [hcount]; rfl, huse, fun i x hx => ?_, fun x hx => ?_⟩
    · rcases (getElem?_reverse_cons _ _ _ _).1 hx with ⟨hi, hx⟩ | ⟨rfl, rfl⟩
      · dsimp only
        rw [Function.update_of_ne (offset_ne (by omega))]
        exact h.records i x ((getElem?_reverse_cons _ _ _ _).2 (Or.inl ⟨hi, hx⟩))
      · dsimp only
        rw [Function.update_self]
        rfl
    · rcases List.mem_cons.1 hx with rfl | hx
      · exact ⟨(h.bounds r (List.mem_cons_self ..)).1, Nat.mod_lt _ (by norm_num)⟩
      · exact h.bounds x (List.mem_cons_of_mem _ hx)
  · rw [push_begin rs hext]
    refine h.begin limit (by rw [List.length_cons]; exact hspace) he ?_
    rw [hpre, hrec, hmerge]
    exact hext

/-- Once there is a record, the loop pushes all further bytes onto the runs. -/
lemma Holds.foldl {base : ℕ} (limit : ℕ) (es : List (ℕ × ℕ)) {s : CopyState} {r : Run ℕ}
    {rs : List (Run ℕ)} (h : Holds base s (r :: rs))
    (hspace : base + (rs.length + 1 + es.length) * recordSize ≤ limit)
    (he : ∀ e ∈ es, e.1 < 2 ^ 49) :
    Holds base (es.foldl (copyByte limit base) s)
      (es.foldl (BoundedRuns.push (2 ^ 16)) (r :: rs)) := by
  induction es generalizing s r rs with
  | nil => exact h
  | cons e es ih =>
    have hp := h.push limit (e := e)
      (by unfold recordSize at *; rw [List.length_cons] at hspace; omega)
      (he e (List.mem_cons_self ..))
    rw [List.foldl_cons, List.foldl_cons]
    by_cases hext : r.val = e.2 ∧ r.start + r.len = e.1
    · rw [push_extend rs hext] at hp ⊢
      refine ih hp ?_ fun x hx => he x (List.mem_cons_of_mem _ hx)
      unfold recordSize at *
      rw [List.length_cons] at hspace
      omega
    · rw [push_begin rs hext] at hp ⊢
      refine ih hp ?_ fun x hx => he x (List.mem_cons_of_mem _ hx)
      unfold recordSize at *
      simp only [List.length_cons] at hspace ⊢
      omega

lemma length_foldl_push_le (es : List (ℕ × ℕ)) (rs : List (Run ℕ)) :
    (expand (es.foldl (push (2 ^ 16)) rs)).length ≤ (expand rs).length + es.length := by
  induction es generalizing rs with
  | nil => simp
  | cons e es ih =>
    rw [List.foldl_cons]
    have h1 := ih (push (2 ^ 16) rs e)
    have h2 := length_push_le (N := 2 ^ 16) rs e
    rw [List.length_cons]
    omega

/-- Whatever the area holds, there are never more bytes in the records than in the table. -/
lemma exists_holds (limit : ℕ) {base : ℕ} (es : List (ℕ × ℕ)) {s : CopyState} (h : Holds base s [])
    (hspace : base + es.length * recordSize ≤ limit) (he : ∀ e ∈ es, e.1 < 2 ^ 49) :
    ∃ rs, Holds base (es.foldl (copyByte limit base) s) rs ∧
      (expand rs).length ≤ es.length ∧
      (∀ e ∈ es.head?, ¬ canMerge (s.records base) e → rs = pushAll (2 ^ 16) es) ∧
      (∀ e ∈ es.head?, canMerge (s.records base) e → (expand rs).length < es.length) := by
  induction es generalizing s with
  | nil => exact ⟨[], h, le_rfl, fun e he' => (by cases he'), fun e he' => (by cases he')⟩
  | cons e es ih =>
    have h0 : s.recordWriteCount = 0 := h.count
    have hpre : (if s.recordWriteCount > 0 then base + (s.recordWriteCount - 1) * recordSize
        else base) = base := if_neg (by omega)
    rw [List.length_cons] at hspace
    by_cases hm : canMerge (s.records base) e
    · -- the byte is counted to a record that is not written, and lost
      have hstep : Holds base (copyByte limit base s e) [] := by
        unfold copyByte
        rw [if_pos (by rw [h.use]; simp only [List.length_nil]; unfold recordSize at *; omega)]
        simp only [hpre, if_pos hm]
        exact ⟨h.count, h.use, fun i r hr => by simp at hr, fun r hr => by cases hr⟩
      obtain ⟨rs, hrs, hle, -, -⟩ := ih hstep (by unfold recordSize at *; omega)
        fun x hx => he x (List.mem_cons_of_mem _ hx)
      refine ⟨rs, hrs, by rw [List.length_cons]; omega, fun e' he' hno => ?_, fun e' _ _ => ?_⟩
      · cases he'
        exact absurd hm hno
      · rw [List.length_cons]
        omega
    · have hfirst := h.begin limit
        (by simp only [List.length_nil]; unfold recordSize at *; omega)
        (he e (List.mem_cons_self ..))
        (by rwa [hpre])
      have hall := hfirst.foldl limit es
        (by simp only [List.length_nil]; unfold recordSize at *; omega)
        fun x hx => he x (List.mem_cons_of_mem _ hx)
      refine ⟨_, hall, ?_, fun e' he' _ => ?_, fun e' he' hm' => ?_⟩
      · have := length_foldl_push_le es [⟨e.1, e.2, 1⟩]
        simp only [expand, List.nil_append, length_cells] at this
        rw [List.length_cons]
        omega
      · rfl
      · cases he'
        exact absurd hm' hm

/-! ### The round trip -/

lemma expand_eq_flatMap (rs : List (Run ℕ)) :
    expand rs = (rs.reverse.map ofRun).flatMap SimtEntryRecord.cells := by
  induction rs with
  | nil => rfl
  | cons r rs ih =>
    rw [expand, ih, List.reverse_cons, List.map_append, List.flatMap_append]
    simp [ofRun, SimtEntryRecord.cells, Run.cells]

/-- The area after the loops have left `s`. -/
def Area.close (a : Area) (info : CallInfo) (s : CopyState) (isSimtEnd : Bool) : Area :=
  { heads := Function.update a.heads a.simtEntryUseSize
      { recordCount := s.recordCount
        recordWriteCount := s.recordWriteCount
        exceedSize := if s.exceedSize > 0 then s.exceedSize + headSize else 0
        mainScalarPc := info.mainScalarPc
        threadXDim := info.threadXDim
        threadYDim := info.threadYDim
        threadZDim := info.threadZDim }
    records := s.records
    simtEntryUseSize := s.useSize
    simtEndCount := if isSimtEnd then a.simtEndCount + 1 else a.simtEndCount }

lemma copy_fst (limit : ℕ) (info : CallInfo) (a : Area) (t : Table) (isSimtEnd : Bool) :
    (copyShadowMemoryToMemInfo limit info a t isSimtEnd).1 =
      a.close info (copyLoop limit a t) isSimtEnd :=
  rfl

section
variable (a : Area) (info : CallInfo) (s : CopyState) (isSimtEnd : Bool)

lemma Area.close_useSize : (a.close info s isSimtEnd).simtEntryUseSize = s.useSize :=
  rfl

lemma Area.close_records : (a.close info s isSimtEnd).records = s.records :=
  rfl

lemma Area.close_heads {o : ℕ} (ho : o ≠ a.simtEntryUseSize) :
    (a.close info s isSimtEnd).heads o = a.heads o :=
  Function.update_of_ne ho _ _

lemma Area.close_writeCount :
    ((a.close info s isSimtEnd).heads a.simtEntryUseSize).recordWriteCount =
      s.recordWriteCount := by
  simp only [Area.close, Function.update_self]

lemma Area.close_recordsAt :
    (a.close info s isSimtEnd).recordsAt a.simtEntryUseSize =
      (List.range s.recordWriteCount).map fun i =>
        s.records (a.simtEntryUseSize + headSize + i * recordSize) := by
  rw [Area.recordsAt, Area.close_writeCount, Area.close_records]

end

/-- The records of a dump stand for the runs the loop made. -/
lemma recordsAt_dump {limit : ℕ} {info : CallInfo} {a : Area} {t : Table} {isSimtEnd : Bool}
    {rs : List (Run ℕ)} (h : Holds (a.simtEntryUseSize + headSize) (copyLoop limit a t) rs) :
    ((copyShadowMemoryToMemInfo limit info a t isSimtEnd).1.recordsAt a.simtEntryUseSize).flatMap
      SimtEntryRecord.cells = expand rs := by
  rw [expand_eq_flatMap]
  congr 1
  rw [copy_fst, Area.close_recordsAt, h.count]
  refine List.ext_getElem? fun i => ?_
  by_cases hi : i < rs.length
  · obtain ⟨r, hr⟩ : ∃ r, rs.reverse[i]? = some r :=
      ⟨_, List.getElem?_eq_getElem (by simpa using hi)⟩
    rw [List.getElem?_map, List.getElem?_map, hr, List.getElem?_range hi]
    exact congrArg some (h.records i r hr)
  · rw [List.getElem?_eq_none (by simp; omega), List.getElem?_eq_none (by simp; omega)]

/-- The records of one dump stand for exactly the bytes stored, each once and with its status. -/
def RoundTrip (limit : ℕ) (info : CallInfo) (a : Area) (isSimtEnd : Bool)
    (bytes : List (ℕ × ℕ)) : Prop :=
  (((copyShadowMemoryToMemInfo limit info a (stored bytes) isSimtEnd).1.recordsAt
    a.simtEntryUseSize).flatMap SimtEntryRecord.cells).Perm bytes

/-- No byte is so near to the end of its 4 GiB that the division by 2 ^ 32 - 1 puts it into the
next. -/
def InPlace (bytes : List (ℕ × ℕ)) : Prop :=
  ∀ b ∈ bytes, b.1 / onlineLocalMemMask = b.1 / 2 ^ 32

/-- What the area holds where the first record goes is not a record that the first byte
continues. -/
def FreshStart (a : Area) (bytes : List (ℕ × ℕ)) : Prop :=
  ∀ b ∈ bytes, (∀ c ∈ bytes, b.1 ≤ c.1) →
    ¬ canMerge (a.records (a.simtEntryUseSize + headSize)) b

section
variable (limit : ℕ) (info : CallInfo) (isSimtEnd : Bool) {a : Area} {bytes : List (ℕ × ℕ)}

lemma dump_runs (h : Storable bytes)
    (hspace : a.simtEntryUseSize + headSize + bytes.length * recordSize ≤ limit) :
    ∃ rs : List (Run ℕ),
      (RoundTrip limit info a isSimtEnd bytes ↔ (expand rs).Perm bytes) ∧
      (expand rs).length ≤ bytes.length ∧
      (∀ e ∈ (entries (stored bytes)).head?,
        ¬ canMerge (a.records (a.simtEntryUseSize + headSize)) e →
          rs = pushAll (2 ^ 16) (entries (stored bytes))) ∧
      (∀ e ∈ (entries (stored bytes)).head?,
        canMerge (a.records (a.simtEntryUseSize + headSize)) e →
          (expand rs).length < bytes.length) := by
  have hperm := entries_perm h
  have hlen : (entries (stored bytes)).length = bytes.length := by
    rw [hperm.length_eq, List.length_map]
  have hlt : ∀ e ∈ entries (stored bytes), e.1 < 2 ^ 49 := by
    intro e he
    obtain ⟨b, hb, rfl⟩ := List.mem_map.1 (hperm.mem_iff.1 he)
    exact dumpAddr_lt (h.addr_lt b hb)
  have hinit : Holds (a.simtEntryUseSize + headSize)
      { records := a.records, useSize := a.simtEntryUseSize + headSize } [] :=
    ⟨rfl, by simp, fun i r hr => (by simp at hr), fun r hr => (by cases hr)⟩
  obtain ⟨rs, hrs, hle, hfresh, hstale⟩ := exists_holds limit _ hinit
    (by rw [hlen]; exact hspace) hlt
  refine ⟨rs, ?_, hlen ▸ hle, hfresh, fun e he hm => ?_⟩
  · unfold RoundTrip
    rw [recordsAt_dump hrs]
  · rw [← hlen]
    exact hstale e he hm

/-- If all bytes are in place, the dump comes to the bytes as they were stored. -/
lemma InPlace.entries_perm (h : Storable bytes) (hin : InPlace bytes) :
    (entries (stored bytes)).Perm bytes := by
  refine (OnlineShadow.entries_perm h).trans (List.Perm.of_eq ?_)
  conv_rhs => rw [← List.map_id bytes]
  refine List.map_congr_left fun b hb => ?_
  rw [(dumpAddr_self_iff (h.addr_lt b hb)).2 (hin b hb)]
  rfl

/-- The first byte the dump comes to has the least address. -/
lemma head_le {es : List (ℕ × ℕ)} {e : ℕ × ℕ} (hs : Sorted es) (he : e ∈ es.head?) :
    ∀ c ∈ es, e.1 ≤ c.1 := by
  cases es with
  | nil => cases he
  | cons x es =>
    cases he
    intro c hc
    rcases List.mem_cons.1 hc with rfl | hc
    · exact le_rfl
    · exact (List.rel_of_pairwise_cons hs hc).le

lemma window_of_perm {es es' : List (ℕ × ℕ)} {N : ℕ} (hp : es.Perm es') (hw : Window N es) :
    Window N es' := by
  obtain ⟨x, v, hw⟩ := hw
  exact ⟨x, v, fun j hj => hp.mem_iff.1 (hw j hj)⟩

lemma roundTrip_of (h : Storable bytes)
    (hspace : a.simtEntryUseSize + headSize + bytes.length * recordSize ≤ limit)
    (hin : InPlace bytes) (hshort : ¬ Window (2 ^ 16) bytes) (hfresh : FreshStart a bytes) :
    RoundTrip limit info a isSimtEnd bytes := by
  obtain ⟨rs, hiff, hle, hclean, -⟩ := dump_runs limit info isSimtEnd h hspace
  have hperm := hin.entries_perm h
  have hrs : expand rs = entries (stored bytes) := by
    cases hE : (entries (stored bytes)).head? with
    | none =>
      rw [List.head?_eq_none_iff] at hE
      rw [← hperm.length_eq, hE, List.length_nil, Nat.le_zero, List.length_eq_zero_iff] at hle
      rw [hE, hle]
    | some e =>
      have hmem : e ∈ entries (stored bytes) := List.mem_of_mem_head? hE
      have hmin := head_le (sorted_entries (stored bytes)) hE
      have hno : ¬ Window (2 ^ 16) (entries (stored bytes)) :=
        fun hw => hshort (window_of_perm hperm hw)
      rw [hclean e hE (hfresh e (hperm.mem_iff.1 hmem)
        fun c hc => hmin c (hperm.mem_iff.2 hc))]
      exact ((pushAll_spec (by norm_num) (sorted_entries (stored bytes))).1 hno).cells
  rw [hiff, hrs]
  exact hperm

/-- Numbers that are only raised, and have the same sum, have not been raised. -/
lemma eq_of_sum_eq {β : Type*} {l : List β} {f g : β → ℕ} (hle : ∀ b ∈ l, f b ≤ g b)
    (hsum : (l.map f).sum = (l.map g).sum) : ∀ b ∈ l, f b = g b := by
  induction l with
  | nil => exact fun b hb => by cases hb
  | cons x l ih =>
    have hx := hle x (List.mem_cons_self ..)
    have hl : (l.map f).sum ≤ (l.map g).sum :=
      List.sum_le_sum fun b hb => hle b (List.mem_cons_of_mem _ hb)
    simp only [List.map_cons, List.sum_cons] at hsum
    intro b hb
    rcases List.mem_cons.1 hb with rfl | hb
    · omega
    · exact ih (fun c hc => hle c (List.mem_cons_of_mem _ hc)) (by omega) b hb

/-- If the dump comes to the bytes as they were stored, all bytes are in place: an address is
never dumped too low, so that no two errors make up for each other. -/
lemma inPlace_of_perm (h : Storable bytes) (hp : (entries (stored bytes)).Perm bytes) :
    InPlace bytes := by
  have hsum : (bytes.map Prod.fst).sum = (bytes.map fun b => dumpAddr b.1).sum := by
    have h1 := (hp.map Prod.fst).sum_eq
    have h2 := ((entries_perm h).map Prod.fst).sum_eq
    rw [List.map_map] at h2
    exact h1.symm.trans h2
  intro b hb
  refine (dumpAddr_self_iff (h.addr_lt b hb)).1 (Eq.symm ?_)
  exact eq_of_sum_eq (fun c hc => le_dumpAddr (h.addr_lt c hc)) hsum b hb

/-- A dump that keeps all bytes merged none of them into what the area held before, and no
counter ran over. -/
lemma entries_of_roundTrip (h : Storable bytes)
    (hspace : a.simtEntryUseSize + headSize + bytes.length * recordSize ≤ limit)
    (hrt : RoundTrip limit info a isSimtEnd bytes) :
    (entries (stored bytes)).Perm bytes ∧ ¬ Window (2 ^ 16) (entries (stored bytes)) ∧
      ∀ e ∈ (entries (stored bytes)).head?,
        ¬ canMerge (a.records (a.simtEntryUseSize + headSize)) e := by
  obtain ⟨rs, hiff, -, hclean, hstale⟩ := dump_runs limit info isSimtEnd h hspace
  have hperm := hiff.1 hrt
  have hlen : (entries (stored bytes)).length = bytes.length := by
    rw [(entries_perm h).length_eq, List.length_map]
  have hfresh : ∀ e ∈ (entries (stored bytes)).head?,
      ¬ canMerge (a.records (a.simtEntryUseSize + headSize)) e := by
    intro e he hm
    have := hstale e he hm
    rw [hperm.length_eq] at this
    exact lt_irrefl _ this
  obtain ⟨hkeep, hlose⟩ := pushAll_spec (by norm_num : 1 < 2 ^ 16) (sorted_entries (stored bytes))
  cases hE : (entries (stored bytes)).head? with
  | none =>
    rw [List.head?_eq_none_iff] at hE
    rw [hE, List.length_nil] at hlen
    rw [hE, List.length_eq_zero_iff.1 hlen.symm]
    refine ⟨List.Perm.refl _, ?_, fun e he => by cases he⟩
    rintro ⟨x, v, hw⟩
    exact absurd (hw 0 (by norm_num)) List.not_mem_nil
  | some e =>
    have hrs := hclean e hE (hfresh e hE)
    have hno : ¬ Window (2 ^ 16) (entries (stored bytes)) := by
      intro hw
      have := hlose hw
      rw [← hrs, hperm.length_eq, hlen] at this
      exact lt_irrefl _ this
    refine ⟨?_, hno, hE ▸ hfresh⟩
    rw [← (hkeep hno).cells, ← hrs]
    exact hperm

lemma freshStart_of (h : Storable bytes) (hp : (entries (stored bytes)).Perm bytes)
    (hhead : ∀ e ∈ (entries (stored bytes)).head?,
      ¬ canMerge (a.records (a.simtEntryUseSize + headSize)) e) : FreshStart a bytes := by
  intro b hb hmin
  cases hE : (entries (stored bytes)).head? with
  | none =>
    rw [List.head?_eq_none_iff] at hE
    rw [hE] at hp
    rw [List.nil_perm.1 hp] at hb
    cases hb
  | some e =>
    have hmem : e ∈ bytes := hp.mem_iff.1 (List.mem_of_mem_head? hE)
    have h1 := hmin e hmem
    have h2 := head_le (sorted_entries (stored bytes)) hE b (hp.mem_iff.2 hb)
    have heq : e = b := List.inj_on_of_nodup_map h.nodup hmem hb (le_antisymm h2 h1)
    exact heq ▸ hhead e hE

/-- **The dump of the table is exact** if and only if every byte is in place, no 2 ^ 16 bytes in
a row share a status, and the first byte does not continue what the area held before. -/
theorem dump_exact (a : Area) (bytes : List (ℕ × ℕ)) (h : Storable bytes)
    (hspace : a.simtEntryUseSize + headSize + bytes.length * recordSize ≤ limit) :
    RoundTrip limit info a isSimtEnd bytes ↔
      InPlace bytes ∧ ¬ Window (2 ^ 16) bytes ∧ FreshStart a bytes := by
  constructor
  · intro hrt
    obtain ⟨hp, hno, hhead⟩ := entries_of_roundTrip limit info isSimtEnd h hspace hrt
    refine ⟨inPlace_of_perm h hp, fun hw => hno (window_of_perm hp.symm hw), ?_⟩
    exact freshStart_of h hp hhead
  · rintro ⟨hin, hno, hfresh⟩
    exact roundTrip_of limit info isSimtEnd h hspace hin hno hfresh

end

lemma storable_three : Storable [(0x100, 5), (0x101, 5), (0x200, 7)] :=
  ⟨by decide, by decide, by decide⟩

/-- Two bytes in a row and one apart from them, dumped into an empty area. -/
theorem dump_exact_three :
    RoundTrip 136 {} {} true [(0x100, 5), (0x101, 5), (0x200, 7)] := by
  have hin : InPlace [(0x100, 5), (0x101, 5), (0x200, 7)] := by
    unfold InPlace
    decide
  have hfresh : FreshStart {} [(0x100, 5), (0x101, 5), (0x200, 7)] := by
    unfold FreshStart
    decide
  refine (dump_exact 136 {} true {} _ storable_three (by decide)).2 ⟨hin, ?_, hfresh⟩
  rintro ⟨x, v, hw⟩
  have h0 := hw 0 (by norm_num)
  have h1 := hw 1 (by norm_num)
  have h2 := hw 2 (by norm_num)
  simp only [List.mem_cons, Prod.mk.injEq, List.not_mem_nil, or_false] at h0 h1 h2
  omega

/-- The last byte of the first 4 GiB, alone in the table, is dumped 4 GiB too high. -/
theorem dump_moves_boundary_byte :
    Storable [(0xFFFFFFFF, 5)] ∧ headSize + recordSize ≤ 88 ∧ dumpAddr 0xFFFFFFFF = 0x1FFFFFFFF ∧
      ¬ RoundTrip 88 {} {} true [(0xFFFFFFFF, 5)] := by
  have hs : Storable [(0xFFFFFFFF, 5)] := ⟨by decide, by decide, by decide⟩
  refine ⟨hs, by decide, by rw [dumpAddr_eq (by norm_num)]; norm_num [onlineLocalMemMask], ?_⟩
  intro hrt
  obtain ⟨hp, -, -⟩ := entries_of_roundTrip 88 {} true hs (by decide) hrt
  have hin := inPlace_of_perm hs hp _ (List.mem_singleton_self _)
  norm_num [onlineLocalMemMask] at hin

end MsSanitizer.OnlineShadow
