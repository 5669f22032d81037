import MsSanitizer.ShadowScan

/-!
Who owns a byte of global memory.

The abstract state of a byte says which core has stored to it first since the last clear,
and whether another core has overwritten it since it was last made undefined. The shadow
byte of the code encodes it in eight bits, for cores whose number fits.
-/

namespace MsSanitizer.ShadowOwner

open MsSanitizer.RecordDefs MsSanitizer.Words MsSanitizer.RangeWrites MsSanitizer.Pm
open MsSanitizer.GmBytes MsSanitizer.Shadow MsSanitizer.Shadow.ShadowMemory
open MsSanitizer.ShadowBytes MsSanitizer.ShadowScan

/-! ### Shadow bytes -/

lemma forall_byte {P : UInt8 → Prop} (h : ∀ n < 256, P (UInt8.ofNat n)) (b : UInt8) : P b := by
  have hb := h b.toNat b.toNat_lt
  rwa [UInt8.ofNat_toNat] at hb

@[simp] lemma getMemStatus_setMemStatus (b : UInt8) (s : MemStatus) :
    getMemStatus (setMemStatus b s) = s := by
  revert b
  refine forall_byte ?_
  cases s <;> decide +kernel

@[simp] lemma getCoreId_setMemStatus (b : UInt8) (s : MemStatus) :
    getCoreId (setMemStatus b s) = getCoreId b := by
  revert b
  refine forall_byte ?_
  cases s <;> decide +kernel

/-- A change of the owner reads only the status of a byte. -/
lemma status_bits (b : UInt8) : b &&& statusMask = 0 ∨ b &&& statusMask = 1 ∨
    b &&& statusMask = 2 ∨ b &&& statusMask = 3 := by
  revert b
  refine forall_byte ?_
  decide +kernel

@[simp] lemma getMemStatus_setCoreId (b c : UInt8) :
    getMemStatus (setCoreId b c) = getMemStatus b := by
  unfold setCoreId getMemStatus
  rcases status_bits b with h | h | h | h <;> rw [h] <;> revert c <;> refine forall_byte ?_
  all_goals decide +kernel

/-- An owner is read back when its number has six bits. -/
lemma getCoreId_setCoreId (b c : UInt8) : c.toNat < 64 → getCoreId (setCoreId b c) = c := by
  unfold setCoreId getCoreId
  rcases status_bits b with h | h | h | h <;> rw [h] <;> revert c <;> refine forall_byte ?_
  all_goals decide +kernel

/-! ### The abstract state of a byte -/

/-- The operations on global memory. -/
inductive Op
  | store (record : MemOpRecord)
  | clearBlockId (addr size : ℕ)
  | makeMemUndefined (addr size : ℕ)

/-- The first core that stored to a byte since the last clear, and whether another core has
overwritten it since it was made undefined. -/
structure ByteState where
  owner : Option ℤ := none
  overwritten : Bool := false
  deriving DecidableEq

/-- A store by core `c` is an overwrite when the byte has another owner; a byte that has
been overwritten takes no further part. -/
def ByteState.isOverwrite (s : ByteState) (c : ℤ) : Bool :=
  !s.overwritten && s.owner.any fun o => o != c

def ByteState.store (s : ByteState) (c : ℤ) : ByteState :=
  if s.overwritten then s
  else match s.owner with
    | none => { s with owner := some c }
    | some o => if o = c then s else { s with overwritten := true }

/-- What an operation does to byte `a`. -/
def ByteState.step (a : ℕ) (s : ByteState) : Op → ByteState
  | .store record =>
    if record.dstAddr ≤ a ∧ a < record.dstAddr + record.memSize then s.store record.coreId else s
  | .clearBlockId addr size => if addr ≤ a ∧ a < addr + size then { s with owner := none } else s
  | .makeMemUndefined addr size => if addr ≤ a ∧ a < addr + size then {} else s

def byteState (ops : List Op) (a : ℕ) : ByteState := ops.foldl (ByteState.step a) {}

@[simp] lemma byteState_nil (a : ℕ) : byteState [] a = {} := rfl

lemma byteState_concat (ops : List Op) (op : Op) (a : ℕ) :
    byteState (ops ++ [op]) a = (byteState ops a).step a op := by
  unfold byteState
  rw [List.foldl_append, List.foldl_cons, List.foldl_nil]

/-! ### The code -/

def apply (sm : ShadowMemory) : Op → ShadowMemory
  | .store record => (sm.storeNBytes (.ofRecord record) true true).2
  | .clearBlockId addr size => sm.clearBlockId addr size
  | .makeMemUndefined addr size => sm.makeMemUndefined addr size

def run (ops : List Op) : ShadowMemory := ops.foldl apply ShadowMemory.new

@[simp] lemma run_nil : run [] = ShadowMemory.new := rfl

lemma run_concat (ops : List Op) (op : Op) : run (ops ++ [op]) = apply (run ops) op := by
  unfold run
  rw [List.foldl_append, List.foldl_cons, List.foldl_nil]

/-- Stores of cores `0 … 62` to global memory and clears, on ranges that end by the limit. -/
def Op.Ok : Op → Prop
  | .store record => record.dstSpace = .gm ∧ 0 ≤ record.coreId ∧ record.coreId < 63 ∧
      record.dstAddr + record.memSize ≤ setLimit
  | .clearBlockId addr size => addr + size ≤ setLimit
  | .makeMemUndefined addr size => addr + size ≤ setLimit

def ownerCode : Option ℤ → UInt8
  | none => defaultCoreId
  | some c => UInt8.ofInt c

/-- A shadow byte encodes the abstract state of its byte. -/
structure Encodes (bits : UInt8) (s : ByteState) : Prop where
  status : getMemStatus bits = .error ↔ s.overwritten = true
  owner : getCoreId bits = ownerCode s.owner
  range : ∀ c, s.owner = some c → 0 ≤ c ∧ c < 63

lemma ofInt_toNat {c : ℤ} (h0 : 0 ≤ c) (h1 : c < 63) : (UInt8.ofInt c).toNat = c.toNat := by
  rw [UInt8.ofInt, UInt8.toNat_ofNat']
  omega

lemma ofInt_inj {c d : ℤ} (hc : 0 ≤ c ∧ c < 63) (hd : 0 ≤ d ∧ d < 63)
    (h : UInt8.ofInt c = UInt8.ofInt d) : c = d := by
  have hn := congrArg UInt8.toNat h
  rw [ofInt_toNat hc.1 hc.2, ofInt_toNat hd.1 hd.2] at hn
  omega

lemma ofInt_ne {c : ℤ} (h0 : 0 ≤ c) (h1 : c < 63) {b : UInt8} (hb : 63 ≤ b.toNat) :
    UInt8.ofInt c ≠ b := by
  intro h
  have hn := congrArg UInt8.toNat h
  rw [ofInt_toNat h0 h1] at hn
  omega

lemma encodes_default : Encodes defaultValue {} := by
  refine ⟨by decide, by decide, by simp⟩

lemma Encodes.store {bits : UInt8} {s : ByteState} (h : Encodes bits s) {c : ℤ} (h0 : 0 ≤ c)
    (h1 : c < 63) :
    Encodes (storeBits false (UInt8.ofInt c) true bits) (s.store c) ∧
      storeBad false (UInt8.ofInt c) true bits = s.isOverwrite c := by
  obtain ⟨hst, how, hrg⟩ := h
  have hFF : UInt8.ofInt c ≠ 0xFF := ofInt_ne h0 h1 (by decide)
  have hdef : UInt8.ofInt c ≠ defaultCoreId := ofInt_ne h0 h1 (by decide)
  have hlt : (UInt8.ofInt c).toNat < 64 := by
    rw [ofInt_toNat h0 h1]
    omega
  obtain ⟨owner, overwritten⟩ := s
  simp only at hst how hrg
  cases overwritten
  · have herr : getMemStatus bits ≠ .error := by simpa using hst
    -- the bits after the run is defined
    obtain ⟨b, hb⟩ : ∃ b, b = (if getMemStatus bits = .undefined then setMemStatus bits .defined
        else bits) := ⟨_, rfl⟩
    have hbid : getCoreId b = getCoreId bits := by
      rw [hb]
      split_ifs
      · exact getCoreId_setMemStatus bits .defined
      · rfl
    have hbst : getMemStatus b ≠ .error := by
      rw [hb]
      split_ifs
      · simp
      · exact herr
    have hstore : storeBits false (UInt8.ofInt c) true bits =
        if getCoreId b = defaultCoreId then setCoreId b (UInt8.ofInt c)
        else if getCoreId b ≠ UInt8.ofInt c then setMemStatus b .error else b := by
      simp [storeBits, herr, ← hb, hFF]
    have hbad : storeBad false (UInt8.ofInt c) true bits =
        (decide (getCoreId b ≠ defaultCoreId) && decide (getCoreId b ≠ UInt8.ofInt c)) := by
      simp [storeBad, herr, ← hb, hFF]
    rw [hstore, hbad, hbid, how]
    cases owner with
    | none =>
      simp only [ownerCode, if_true, ByteState.store, ByteState.isOverwrite]
      refine ⟨⟨by simpa using hbst, getCoreId_setCoreId b _ hlt, ?_⟩, by simp⟩
      rintro d hd
      rw [← Option.some.inj hd]
      exact ⟨h0, h1⟩
    | some o =>
      obtain ⟨o0, o1⟩ := hrg o rfl
      have hod : ¬ ownerCode (some o) = defaultCoreId := ofInt_ne o0 o1 (by decide)
      rw [if_neg hod]
      by_cases hoc : o = c
      · subst hoc
        have hsame : ¬ ownerCode (some o) ≠ UInt8.ofInt o := not_not.mpr rfl
        rw [if_neg hsame]
        refine ⟨⟨?_, ?_, ?_⟩, ?_⟩
        · simpa [ByteState.store] using hbst
        · simp [ByteState.store, hbid, how]
        · simpa [ByteState.store] using hrg
        · simp [ByteState.isOverwrite, ownerCode]
      · have hne : ownerCode (some o) ≠ UInt8.ofInt c := fun h =>
          hoc (ofInt_inj ⟨o0, o1⟩ ⟨h0, h1⟩ h)
        rw [if_pos hne]
        refine ⟨⟨?_, ?_, ?_⟩, ?_⟩
        · simp [ByteState.store, hoc]
        · simp [ByteState.store, hoc, hbid, how]
        · simpa [ByteState.store, hoc] using hrg
        · simp [ByteState.isOverwrite, hod, hne, hoc]
  · have herr : getMemStatus bits = .error := by simpa using hst
    simp only [storeBits, herr, if_true, ByteState.store, storeBad, ByteState.isOverwrite]
    exact ⟨⟨by simpa using herr, how, hrg⟩, by simp⟩

lemma Encodes.clear {bits : UInt8} {s : ByteState} (h : Encodes bits s) :
    Encodes (setCoreId bits defaultCoreId) { s with owner := none } := by
  refine ⟨by simpa using h.status, ?_, by simp⟩
  exact getCoreId_setCoreId bits defaultCoreId (by decide)

lemma encodes_undefined : Encodes (makeByte .undefined defaultCoreId) {} := by
  refine ⟨by decide, by decide, by simp⟩

/-- The shadow memory after a history encodes the state of every global byte. -/
structure Tracks (sm : ShadowMemory) (ops : List Op) : Prop where
  wf : Wf sm.gm
  nonAtomic : sm.atomicEnabled = false
  bytes : ∀ a < 2 ^ 48, Encodes (sm.gm.getBits a) (byteState ops a)

/-- The bytes of a changed range encode the next state when the change does. -/
lemma tracks_of_changed {sm : ShadowMemory} {ops : List Op} (h : Tracks sm ops) {op : Op}
    {gm' : GmPM} {addr size : ℕ} {f : UInt8 → UInt8} (hc : Changed sm.gm gm' addr size f)
    (hin : ∀ a < 2 ^ 48, addr ≤ a → a < addr + size →
      Encodes (f (sm.gm.getBits a)) ((byteState ops a).step a op))
    (hout : ∀ a, ¬ (addr ≤ a ∧ a < addr + size) →
      (byteState ops a).step a op = byteState ops a) :
    Tracks { sm with gm := gm' } (ops ++ [op]) := by
  refine ⟨hc.1, h.nonAtomic, fun a ha => ?_⟩
  rw [byteState_concat, hc.2 a ha]
  by_cases hcov : addr ≤ a ∧ a < addr + size
  · rw [if_pos hcov]
    exact hin a ha hcov.1 hcov.2
  · rw [if_neg hcov, hout a hcov]
    exact h.bytes a ha

/-- How many bytes of the range of `record` its store overwrites after the history. -/
def overwriteCount (ops : List Op) (record : MemOpRecord) : ℕ :=
  Nat.count (fun k => (byteState ops (record.dstAddr + k)).isOverwrite record.coreId = true)
    record.memSize

/-- The message of a store that overwrites `n` bytes: none for no byte. -/
def overwriteMsgs (record : MemOpRecord) (n : ℕ) : List ErrorMsg :=
  if 0 < n then [makeBadBytesMsg .outOfBounds .gm record.dstAddr n record.isSimt
    record.mainScalarPc false] else []

/-- A store in a tracked memory: what it reports and the memory it leaves. -/
lemma Tracks.store {sm : ShadowMemory} {ops : List Op} (h : Tracks sm ops) {record : MemOpRecord}
    (hok : (Op.store record).Ok) :
    (sm.storeNBytes (.ofRecord record) true true).1 =
        overwriteMsgs record (overwriteCount ops record) ∧
      Tracks (sm.storeNBytes (.ofRecord record) true true).2 (ops ++ [.store record]) := by
  obtain ⟨hgm, h0, h1, hend⟩ := hok
  have hS := setLimit_eq
  have hM := globalMemMask_eq
  obtain ⟨gm', heq, hc⟩ := storeNBytesInRange_spec h.wf false (UInt8.ofInt record.coreId) true hend
  have hcore :
      (MemOpRecordForShadow.ofRecord record).coreId.toUInt8 = UInt8.ofInt record.coreId := by
    simp [MemOpRecordForShadow.ofRecord]
  have hcount : countBytes sm.gm record.dstAddr record.memSize
      (storeBad false (UInt8.ofInt record.coreId) true) = overwriteCount ops record := by
    unfold countBytes overwriteCount
    refine count_congr fun k hk => ?_
    rw [((h.bytes (record.dstAddr + k) (by omega)).store h0 h1).2]
  rw [hcount] at heq
  have hst := storeNBytes_gm sm (.ofRecord record) true true hgm
    (validateRange_gm_of_le sm (by omega : record.dstAddr + record.memSize ≤ globalMemMask))
    (by rw [h.nonAtomic, hcore]; exact heq)
  rw [hst]
  refine ⟨by simp [MemOpRecordForShadow.ofRecord, overwriteMsgs], ?_⟩
  refine tracks_of_changed h hc (fun a ha h2 h3 => ?_) fun a hout => ?_
  · rw [ByteState.step, if_pos ⟨h2, h3⟩]
    exact ((h.bytes a ha).store h0 h1).1
  · rw [ByteState.step, if_neg hout]

lemma Tracks.apply {sm : ShadowMemory} {ops : List Op} (h : Tracks sm ops) {op : Op} (hok : op.Ok) :
    Tracks (apply sm op) (ops ++ [op]) := by
  have hS := setLimit_eq
  have hM := globalMemMask_eq
  cases op with
  | store record => exact (h.store hok).2
  | clearBlockId addr size =>
    have hend : addr + size ≤ setLimit := hok
    simp only [ShadowOwner.apply, ShadowMemory.clearBlockId,
      validateRange_gm_of_le sm (by omega : addr + size ≤ globalMemMask)]
    rw [add64_eq (by omega)]
    refine tracks_of_changed h (clearLoop_spec h.wf hend) (fun a ha h2 h3 => ?_) fun a hout => ?_
    · rw [ByteState.step, if_pos ⟨h2, h3⟩]
      exact (h.bytes a ha).clear
    · rw [ByteState.step, if_neg hout]
  | makeMemUndefined addr size =>
    have hend : addr + size ≤ setLimit := hok
    simp only [ShadowOwner.apply, ShadowMemory.makeMemUndefined,
      validateRange_gm_of_le sm (by omega : addr + size ≤ globalMemMask)]
    refine tracks_of_changed h (changed_set h.wf _ hend) (fun a ha h2 h3 => ?_) fun a hout => ?_
    · rw [ByteState.step, if_pos ⟨h2, h3⟩]
      exact encodes_undefined
    · rw [ByteState.step, if_neg hout]

/-- **Every history is tracked.** -/
lemma tracks_run {ops : List Op} (hok : ∀ op ∈ ops, op.Ok) : Tracks (run ops) ops := by
  induction ops using List.reverseRecOn with
  | nil =>
    refine ⟨wf_new _, rfl, fun a ha => ?_⟩
    rw [run_nil, show ShadowMemory.new.gm = GmPM.new defaultValue from rfl, gm_new_getBits _ ha]
    exact encodes_default
  | append_singleton ops op ih =>
    rw [run_concat]
    exact (ih fun o ho => hok o (by simp [ho])).apply (hok op (by simp))

/-- A byte that only core `c` has stored to is never overwritten. -/
lemma byteState_single {ops : List Op} {c : ℤ} {a : ℕ}
    (h : ∀ record, Op.store record ∈ ops → record.dstAddr ≤ a →
      a < record.dstAddr + record.memSize → record.coreId = c) :
    (byteState ops a).overwritten = false ∧ ∀ o, (byteState ops a).owner = some o → o = c := by
  induction ops using List.reverseRecOn with
  | nil => simp
  | append_singleton ops op ih =>
    obtain ⟨hov, how⟩ := ih fun record hr => h record (by simp [hr])
    rw [byteState_concat]
    cases op with
    | store record =>
      simp only [ByteState.step]
      split_ifs with hcov
      · have hc : record.coreId = c := h record (by simp) hcov.1 hcov.2
        unfold ByteState.store
        rw [hov, hc]
        cases hown : (byteState ops a).owner with
        | none => simp
        | some o =>
          have hoc : o = c := how o hown
          simp [hoc, hov, hown]
      · exact ⟨hov, how⟩
    | clearBlockId addr size =>
      simp only [ByteState.step]
      split_ifs with hcov
      · exact ⟨hov, by simp⟩
      · exact ⟨hov, how⟩
    | makeMemUndefined addr size =>
      simp only [ByteState.step]
      split_ifs with hcov
      · simp
      · exact ⟨hov, how⟩

/-- **Stores report overwrites by another core**, byte by byte and in every history of
stores and clears: exactly the bytes that another core owns since their last clear and that
have not been overwritten since they were made undefined. A core that stores again to bytes
only it has stored to reports nothing. -/
theorem store_reports_overwrites {ops : List Op} (hops : ∀ op ∈ ops, op.Ok) {record : MemOpRecord}
    (hok : (Op.store record).Ok) :
    ((run ops).storeNBytes (.ofRecord record) true true).1 =
        overwriteMsgs record (overwriteCount ops record) ∧
      ((∀ other, Op.store other ∈ ops → (∃ a, (other.dstAddr ≤ a ∧
          a < other.dstAddr + other.memSize) ∧ record.dstAddr ≤ a ∧
          a < record.dstAddr + record.memSize) → other.coreId = record.coreId) →
        ((run ops).storeNBytes (.ofRecord record) true true).1 = []) := by
  obtain ⟨hmsg, -⟩ := (tracks_run hops).store hok
  refine ⟨hmsg, fun hown => ?_⟩
  -- no byte of the range can be an overwrite
  have hzero : overwriteCount ops record = 0 := by
    refine Nat.count_iff_forall_not.mpr fun k hk => ?_
    have hone : ∀ other, Op.store other ∈ ops → other.dstAddr ≤ record.dstAddr + k →
        record.dstAddr + k < other.dstAddr + other.memSize → other.coreId = record.coreId :=
      fun other ho h1 h2 => hown other ho ⟨_, ⟨h1, h2⟩, by omega, by omega⟩
    obtain ⟨hov, how⟩ := byteState_single hone
    unfold ByteState.isOverwrite
    rw [hov]
    cases hs : (byteState ops (record.dstAddr + k)).owner with
    | none => simp
    | some o => simp [how o hs]
  rw [hmsg, hzero]
  rfl

/-- A store of one byte by core `c` at global address zero. -/
def storeAtZero (c : ℤ) : MemOpRecord :=
  { type := .store, coreId := c, dstAddr := 0, dstSpace := .gm, memSize := 1 }

lemma storeAtZero_ok (c : ℤ) (h0 : 0 ≤ c) (h1 : c < 63) : (Op.store (storeAtZero c)).Ok := by
  have hlim : (0 : ℕ) + 1 ≤ setLimit := by decide
  exact ⟨rfl, h0, h1, hlim⟩

theorem store_reports_overwrites_at :
    ((run [.store (storeAtZero 1)]).storeNBytes (.ofRecord (storeAtZero 2)) true true).1
      = [makeBadBytesMsg .outOfBounds .gm 0 1 false 0 false] := by
  have hops : ∀ op ∈ [Op.store (storeAtZero 1)], op.Ok := by
    simpa using storeAtZero_ok 1 (by decide) (by decide)
  have hok := storeAtZero_ok 2 (by decide) (by decide)
  exact (store_reports_overwrites hops hok).1.trans (by decide)

/-- After cores `1` and `2`, core `3` stores to the same byte: its owner is another core, and
nothing is reported. -/
theorem third_core_not_reported :
    ((run [.store (storeAtZero 1), .store (storeAtZero 2)]).storeNBytes (.ofRecord (storeAtZero 3))
      true true).1 = [] ∧
    (byteState [.store (storeAtZero 1), .store (storeAtZero 2)] 0).owner = some 1 := by
  have hops : ∀ op ∈ [Op.store (storeAtZero 1), Op.store (storeAtZero 2)], op.Ok := by
    intro op hop
    simp only [List.mem_cons, List.not_mem_nil, or_false] at hop
    rcases hop with rfl | rfl
    · exact storeAtZero_ok 1 (by decide) (by decide)
    · exact storeAtZero_ok 2 (by decide) (by decide)
  refine ⟨?_, by decide⟩
  rw [((tracks_run hops).store (storeAtZero_ok 3 (by decide) (by decide))).1]
  decide

end MsSanitizer.ShadowOwner
