import MsSanitizer.ChipBytes
import MsSanitizer.DeviceMemory
import MsSanitizer.ShadowOwner

/-!
# The shadow memory against the memory it stands for

Every shadow byte of a space that is followed encodes what has become of its byte. One lemma for
each operation: a load counts the undefined bytes, a store counts the bytes it overwrites, and what
they leave encodes what the memory has become.
-/

namespace MsSanitizer.DeviceMemory

open MsSanitizer.RecordDefs MsSanitizer.Words MsSanitizer.Pm MsSanitizer.GmBytes
open MsSanitizer.Shadow MsSanitizer.Shadow.ShadowMemory MsSanitizer.ShadowBytes
open MsSanitizer.ShadowOwner MsSanitizer.ChipBytes MsSanitizer.AsanAction MsSanitizer.AsanAccess

/-! ### One byte -/

def Content.status : Content → MemStatus
  | .undefined => .undefined
  | .written => .defined
  | .overwritten => .error

structure EncodesByte (bits : UInt8) (b : Byte) : Prop where
  status : getMemStatus bits = b.content.status
  owner : getCoreId bits = ownerCode b.owner
  range : ∀ c, b.owner = some c → 0 ≤ c ∧ c < 63

variable {bits : UInt8} {b : Byte}

lemma encodesByte_default : EncodesByte defaultValue {} := ⟨by decide, by decide, by simp⟩

lemma encodesByte_undefined : EncodesByte (makeByte .undefined defaultCoreId) {} :=
  ⟨by decide, by decide, by simp⟩

lemma status_inj {c c' : Content} : c.status = c'.status ↔ c = c' := by
  cases c <;> cases c' <;> decide

lemma EncodesByte.undefined_iff (h : EncodesByte bits b) :
    getMemStatus bits = .undefined ↔ b.content = .undefined := by
  rw [h.status]
  exact @status_inj _ .undefined

lemma EncodesByte.error_iff (h : EncodesByte bits b) :
    getMemStatus bits = .error ↔ b.content = .overwritten := by
  rw [h.status]
  exact @status_inj _ .overwritten

lemma EncodesByte.define (h : EncodesByte bits b) : EncodesByte (defineBits bits) b.define := by
  unfold defineBits Byte.define
  by_cases hu : b.content = .undefined
  · rw [if_pos (h.undefined_iff.mpr hu), if_pos hu]
    exact ⟨by simp [Content.status], by simpa using h.owner, h.range⟩
  · rw [if_neg (h.undefined_iff.not.mpr hu), if_neg hu]
    exact h

lemma EncodesByte.store (h : EncodesByte bits b) {c : ℤ} (h0 : 0 ≤ c) (h1 : c < 63)
    (atomic outOfBoundCheck : Bool) :
    EncodesByte (storeBits atomic (UInt8.ofInt c) outOfBoundCheck bits)
        (b.store (atomic || !outOfBoundCheck) c) ∧
      storeBad atomic (UInt8.ofInt c) outOfBoundCheck bits =
        b.clashes (atomic || !outOfBoundCheck) c := by
  have hFF : UInt8.ofInt c ≠ 0xFF := ofInt_ne h0 h1 (by decide)
  have hlt : (UInt8.ofInt c).toNat < 64 := by
    rw [ofInt_toNat h0 h1]
    omega
  by_cases hover : b.content = .overwritten
  · have herr := h.error_iff.mpr hover
    refine ⟨?_, by simp [storeBad, herr, Byte.clashes, hover]⟩
    simpa [storeBits, herr, Byte.store, hover] using h
  have herr : getMemStatus bits ≠ .error := h.error_iff.not.mpr hover
  -- the bits after the run is defined
  obtain ⟨d, hd⟩ : ∃ d, d = (if getMemStatus bits = .undefined then setMemStatus bits .defined
      else bits) := ⟨_, rfl⟩
  have hdid : getCoreId d = ownerCode b.owner := by
    rw [hd, ← h.owner]
    split_ifs
    · exact getCoreId_setMemStatus bits .defined
    · rfl
  have hdst : getMemStatus d = .defined := by
    rw [hd]
    split_ifs with hu
    · simp
    · have hst := h.status
      cases hc : b.content with
      | undefined => exact absurd (h.undefined_iff.mpr hc) hu
      | written => rw [hst, hc]; rfl
      | overwritten => exact absurd hc hover
  have hstore : storeBits atomic (UInt8.ofInt c) outOfBoundCheck bits =
      if getCoreId d = defaultCoreId then setCoreId d (UInt8.ofInt c)
      else if getCoreId d ≠ UInt8.ofInt c ∧ atomic = false ∧ outOfBoundCheck = true then
        setMemStatus d .error else d := by
    simp [storeBits, herr, ← hd, hFF]
  have hbad : storeBad atomic (UInt8.ofInt c) outOfBoundCheck bits =
      (!atomic && outOfBoundCheck && decide (getCoreId d ≠ defaultCoreId)
        && decide (getCoreId d ≠ UInt8.ofInt c)) := by
    simp [storeBad, herr, ← hd, hFF]
  rw [hstore, hbad, hdid]
  cases howner : b.owner with
  | none =>
    refine ⟨?_, by simp [Byte.clashes, howner, ownerCode]⟩
    rw [if_pos (show ownerCode none = defaultCoreId from rfl)]
    refine ⟨?_, ?_, fun o ho => ?_⟩
    · simp [Byte.store, hover, Byte.clashes, howner, hdst, Content.status]
    · simpa [Byte.store, hover, howner, ownerCode] using getCoreId_setCoreId d _ hlt
    · simp only [Byte.store, hover, howner, if_false, Option.getD_none, Option.some.injEq] at ho
      exact ho ▸ ⟨h0, h1⟩
  | some o =>
    obtain ⟨o0, o1⟩ := h.range o howner
    have hod : ownerCode (some o) ≠ defaultCoreId := ofInt_ne o0 o1 (by decide)
    have hoc : ownerCode (some o) ≠ UInt8.ofInt c ↔ o ≠ c := by
      refine not_congr ⟨fun heq => ofInt_inj ⟨o0, o1⟩ ⟨h0, h1⟩ heq, fun heq => heq ▸ rfl⟩
    have hclash : b.clashes (atomic || !outOfBoundCheck) c = true ↔
        ownerCode (some o) ≠ UInt8.ofInt c ∧ atomic = false ∧ outOfBoundCheck = true := by
      rw [hoc]
      cases atomic <;> cases outOfBoundCheck <;> simp [Byte.clashes, howner, hover]
    rw [if_neg hod]
    refine ⟨?_, ?_⟩
    · -- the owner stays
      have hown : (b.store (atomic || !outOfBoundCheck) c).owner = some o := by
        simp [Byte.store, hover, howner]
      have hrange : ∀ x, (b.store (atomic || !outOfBoundCheck) c).owner = some x →
          0 ≤ x ∧ x < 63 := fun x hx => h.range x (howner.trans (hown.symm.trans hx))
      rw [howner] at hdid
      by_cases hcl : b.clashes (atomic || !outOfBoundCheck) c = true
      · rw [if_pos (hclash.mp hcl)]
        refine ⟨by simp [Byte.store, hover, hcl, Content.status], ?_, hrange⟩
        rw [getCoreId_setMemStatus, hdid, hown]
      · rw [if_neg (hclash.not.mp hcl)]
        refine ⟨by simp [Byte.store, hover, hcl, hdst, Content.status], ?_, hrange⟩
        rw [hdid, hown]
    · rw [Bool.eq_iff_iff, hclash]
      simp only [hod, ne_eq, not_false_eq_true, decide_true, Bool.and_true, Bool.and_eq_true,
        Bool.not_eq_true', decide_eq_true_eq]
      tauto

/-! ### The maps -/

/-- The spaces whose stores reach the shadow memory. -/
def Followed (config : Config) (mask : ℕ) (space : AddressSpace) : Prop :=
  Process.initcheckOn config mask space = true ∨ config.memCheck = true ∧ space = .gm

/-- A shadow memory stands for a memory. -/
structure Maps (config : Config) (mask : ℕ) (sm : ShadowMemory) (m : Memory) : Prop where
  chipInfo : sm.chipInfo = m.chipInfo
  type : sm.deviceType = m.type
  atomic : sm.atomicEnabled = m.atomic
  wf : Wf sm.gm
  gm : Followed config mask .gm → ∀ a < 2 ^ 48, EncodesByte (sm.gm.getBits a) (m.bytes .gm a)
  blocks : ∀ space pm, sm.getMemMap space = some (.chip pm) → m.size space ≤ blockSize * pm.smNum
  chips : ∀ space pm, sm.getMemMap space = some (.chip pm) → Followed config mask space →
    ∀ a < 2 ^ 36, EncodesByte (pm.getBits a) (m.bytes space a)

variable {config : Config} {mask : ℕ} {sm : ShadowMemory} {m : Memory} {record : MemOpRecord}

lemma size_gm (m : Memory) : m.size .gm = globalMemMask := rfl

lemma size_chip_lt (m : Memory) {space : AddressSpace} (h : space ≠ .gm) :
    m.size space < 2 ^ 32 := by
  cases space <;> first | exact absurd rfl h | exact UInt32.toNat_lt _ | exact Nat.two_pow_pos 32

lemma size_lt (m : Memory) (space : AddressSpace) : m.size space < 2 ^ 64 := by
  by_cases h : space = .gm
  · rw [h, size_gm, globalMemMask_eq]
    omega
  · have := size_chip_lt m h
    omega

lemma extent_le (m : Memory) (space : AddressSpace) (addr size : ℕ) :
    (m.extent space addr size).1 + (m.extent space addr size).2 ≤ m.size space := by
  unfold Memory.extent
  dsimp only
  omega

lemma Maps.validateRange (h : Maps config mask sm m) (space : AddressSpace) (addr : ℕ) {size : ℕ}
    (hs : size < 2 ^ 64) : sm.validateRange space addr size = m.extent space addr size := by
  have hsize : sm.maxSize space = m.size space := by
    cases space <;> simp [maxSize, Memory.size, h.chipInfo, Pm.globalMemMask, Bounds.globalMemMask]
  rw [validateRange_eq sm space (hsize ▸ size_lt m space) hs, hsize]
  rfl

lemma space_ne_gm {space : AddressSpace} {pm : PM}
    (h : sm.getMemMap space = some (.chip pm)) : space ≠ .gm := by
  rintro rfl
  simp [getMemMap] at h

lemma getMemMap_cases (sm : ShadowMemory) (space : AddressSpace) :
    space = .gm ∨ (sm.getMemMap space = none ∧ ∀ m : Memory, m.size space = 0) ∨
      ∃ pm, sm.getMemMap space = some (.chip pm) := by
  cases space <;> simp [getMemMap, Memory.size]

/-! ### Loads -/

lemma initCheck_of_on {space : AddressSpace}
    (h : Process.initcheckOn config mask space = true) : config.initCheck = true := by
  by_contra hno
  simp [Process.initcheckOn, initializationMask, hno, isInitcheckAddressSpaceEnabled] at h

/-- What the fast path and the scan of a load make of the count of undefined bytes. -/
lemma loadScan_eq {memmap : MemMap} {r : MemOpRecordForShadow} {addr size n : ℕ}
    (hcount : (memmap.countUnified addr size fun bits => getMemStatus bits == .undefined) = n)
    (hfast : memmap.rangeHasStatus addr size MemStatus.undefined.code = true ↔ 0 < n) :
    (if memmap.rangeHasStatus addr size MemStatus.undefined.code = true then
      loadScan memmap r addr size true else []) =
      if 0 < n then
        [makeBadBytesMsg .uninitializedRead r.dstSpace addr n r.isSimt r.mainScalarPc false]
      else [] := by
  unfold loadScan
  simp only [Bool.true_and, hcount, hfast]
  split_ifs <;> rfl

lemma count_pos_iff {p : ℕ → Prop} [DecidablePred p] {n : ℕ} :
    0 < Nat.count p n ↔ ∃ k < n, p k := by
  rw [Nat.pos_iff_ne_zero, ne_eq, Nat.count_iff_forall_not]
  push Not
  rfl

/-- The count of undefined bytes by their shadow bytes. -/
lemma undefinedBytes_eq {get : ℕ → UInt8} {space : AddressSpace} {addr size : ℕ}
    (h : ∀ k < (m.extent space addr size).2,
      EncodesByte (get ((m.extent space addr size).1 + k))
        (m.bytes space ((m.extent space addr size).1 + k))) :
    Nat.count
        (fun k => (getMemStatus (get ((m.extent space addr size).1 + k)) == .undefined) = true)
        (m.extent space addr size).2 = m.undefinedBytes space addr size := by
  refine count_congr fun k hk => ?_
  rw [beq_iff_eq]
  exact (h k hk).undefined_iff

/-- A load from a memory on chip is the fast path in front of the scan. -/
lemma loadNBytes_chip (sm : ShadowMemory) {r : MemOpRecordForShadow} {pm : PM}
    (hmap : sm.getMemMap r.dstSpace = some (.chip pm)) {addr size : ℕ}
    (hval : sm.validateRange r.dstSpace r.dstAddr r.memSize = (addr, size)) :
    sm.loadNBytes r true = if ¬ (r.dstSpace = .ub ∧ isAscend95 sm.deviceType = true) then
      if (MemMap.chip pm).rangeHasStatus addr size MemStatus.undefined.code = true then
        loadScan (.chip pm) r addr size true else [] else [] := by
  have hskip : skipSpace r.dstSpace = false := by
    cases hspace : r.dstSpace <;> first | rfl | simp [hspace, getMemMap] at hmap
  unfold loadNBytes
  simp only [hskip, hval, hmap, Bool.true_and, Bool.false_eq_true, if_false, Bool.and_eq_true,
    beq_iff_eq, Bool.not_eq_true']
  by_cases hub : r.dstSpace = .ub ∧ isAscend95 sm.deviceType = true
  · rw [if_pos hub, if_neg (not_not_intro hub)]
  · rw [if_neg hub, if_pos hub]
    rcases (MemMap.chip pm).rangeHasStatus addr size MemStatus.undefined.code with _ | _ <;> rfl

/-- The fast path sees an undefined byte of a range that stays in one chunk, outside of its last
block. -/
lemma rangeHasStatus_gm {gm : GmPM} (h : Wf gm) {addr size : ℕ} (hend : addr + size ≤ globalMemMask)
    (hfit : size = 0 ∨
      addr + size ≤ setLimit ∧ addr % GmPM.chunkSize + size + blockSize ≤ 2 ^ 36) :
    gm.rangeHasStatus addr size MemStatus.undefined.code = true ↔
      ∃ k < size, getMemStatus (gm.getBits (addr + k)) = .undefined := by
  rw [h.rangeHasStatus_iff .undefined hend]
  constructor
  · rintro ⟨-, k, hk, -, hks⟩
    exact ⟨k, hk, hks⟩
  · rintro ⟨k, hk, hks⟩
    obtain ⟨hlim, hchunk⟩ := hfit.resolve_left (by omega)
    refine ⟨hlim, k, hk, .inr ?_, hks⟩
    have hC := chunkSize_eq
    have hB := PmBytes.blockSize_eq
    have hdiv : (addr + k) / GmPM.chunkSize = addr / GmPM.chunkSize := by
      rw [hC] at hchunk ⊢
      omega
    rw [hdiv]
    rw [hC] at hchunk ⊢
    omega

/-- **A load reports the undefined bytes.** -/
lemma Maps.load (h : Maps config mask sm m)
    (hon : Process.initcheckOn config mask record.dstSpace = true)
    (hfit : LoadFits config mask m record) :
    (sm.loadNBytes (.ofRecord record) config.initCheck).map (fillErrorLocInfo record) =
      if ¬ (record.dstSpace = .ub ∧ isAscend95 m.type = true) then
        Process.bytesReport m record .uninitializedRead
          (m.undefinedBytes record.dstSpace record.dstAddr record.memSize)
      else [] := by
  obtain ⟨-, hs, hgmfit⟩ := hfit
  have hval := h.validateRange record.dstSpace record.dstAddr hs
  have hext := extent_le m record.dstSpace record.dstAddr record.memSize
  obtain ⟨r, hr⟩ : ∃ r, r = MemOpRecordForShadow.ofRecord record := ⟨_, rfl⟩
  rw [initCheck_of_on hon, ← hr]
  -- the message of a scan is the one that is due
  have hmsg : ∀ n, (if 0 < n then [makeBadBytesMsg .uninitializedRead r.dstSpace
      (m.extent record.dstSpace record.dstAddr record.memSize).1 n r.isSimt r.mainScalarPc false]
      else []).map (fillErrorLocInfo record) =
      Process.bytesReport m record .uninitializedRead n := by
    intro n
    unfold Process.bytesReport
    rw [hr]
    split_ifs <;> rfl
  have hspace : r.dstSpace = record.dstSpace := by
    rw [hr]
    rfl
  have hrng : sm.validateRange record.dstSpace r.dstAddr r.memSize =
      ((m.extent record.dstSpace record.dstAddr record.memSize).1,
        (m.extent record.dstSpace record.dstAddr record.memSize).2) := by
    rw [hr]
    exact hval
  have hfollow : Followed config mask record.dstSpace := .inl hon
  rcases getMemMap_cases sm record.dstSpace with hgm | ⟨hnone, hzero⟩ | ⟨pm, hchip⟩
  · rw [if_pos (by rw [hgm]; exact fun hub => AddressSpace.noConfusion hub.1)]
    have hM := globalMemMask_eq
    rw [hgm] at hrng hext hfollow hon hspace ⊢
    rw [size_gm] at hext
    have henc := @undefinedBytes_eq m sm.gm.getBits .gm record.dstAddr record.memSize fun k hk =>
      h.gm hfollow _ (by omega)
    rw [(ShadowScan.loadNBytes_gm sm hspace hrng).1]
    rw [show sm.gm.rangeHasStatus = (MemMap.global sm.gm).rangeHasStatus from rfl]
    rw [loadScan_eq ((countUnified_eq h.wf hext _).trans henc), ← hgm]
    · exact hmsg _
    · rw [← henc, count_pos_iff]
      simp only [beq_iff_eq]
      exact rangeHasStatus_gm h.wf hext (hgmfit hgm hon)
  · -- nothing of the space is modelled
    have hcount : m.undefinedBytes record.dstSpace record.dstAddr record.memSize = 0 := by
      unfold Memory.undefinedBytes Memory.extent
      simp [hzero m]
    have hnil : sm.loadNBytes r true = [] := by
      unfold loadNBytes
      rw [hspace, hnone]
      split_ifs <;> rfl
    rw [hcount, hnil]
    split_ifs <;> rfl
  · have hne := space_ne_gm hchip
    have hsize := size_chip_lt m hne
    have hB := PmBytes.blockSize_eq
    have henc := @undefinedBytes_eq m pm.getBits record.dstSpace record.dstAddr record.memSize
      fun k hk => h.chips _ pm hchip hfollow _ (by omega)
    have hload := loadNBytes_chip sm (hspace ▸ hchip) (hspace ▸ hrng)
    have hscan := @loadScan_eq (.chip pm) r _ _ _
      ((countUnified_chip pm (lt_of_le_of_lt hext (by omega)) _).trans henc) (by
        rw [← henc, count_pos_iff]
        simp only [beq_iff_eq]
        exact PmBytes.rangeHasStatus_iff pm .undefined (by omega))
    rw [hspace] at hload
    rw [hload, hscan, h.type]
    by_cases hub : record.dstSpace = .ub ∧ isAscend95 m.type = true
    · rw [if_neg (not_not_intro hub), if_neg (not_not_intro hub)]
      rfl
    · rw [if_pos hub, if_pos hub]
      exact hmsg _

/-! ### Stores -/

/-- A changed map takes the place of the old one and no other. -/
lemma getMemMap_putMemMap {space : AddressSpace} {pm : PM}
    (h : sm.getMemMap space = some (.chip pm)) (pm' : PM) (s : AddressSpace) :
    (sm.putMemMap space (.chip pm')).getMemMap s =
      if s = space then some (.chip pm') else sm.getMemMap s := by
  cases space <;> simp only [getMemMap, reduceCtorEq, Option.some.injEq] at h <;> cases s <;> rfl

lemma putMemMap_chip (sm : ShadowMemory) (space : AddressSpace) (pm : PM) :
    (sm.putMemMap space (.chip pm)).chipInfo = sm.chipInfo ∧
      (sm.putMemMap space (.chip pm)).deviceType = sm.deviceType ∧
      (sm.putMemMap space (.chip pm)).atomicEnabled = sm.atomicEnabled ∧
      (sm.putMemMap space (.chip pm)).gm = sm.gm := by
  cases space <;> exact ⟨rfl, rfl, rfl, rfl⟩

lemma Maps.chip_change (h : Maps config mask sm m) {space : AddressSpace} {pm pm' : PM}
    (hmap : sm.getMemMap space = some (.chip pm)) {addr size : ℕ} {f : UInt8 → UInt8}
    {g : Byte → Byte} (hc : ChipChanged pm pm' addr size f)
    (hfg : ∀ bits b, EncodesByte bits b → EncodesByte (f bits) (g b)) :
    Maps config mask (sm.putMemMap space (.chip pm')) (m.change space addr size g) := by
  obtain ⟨hchip, htype, hatomic, hgm⟩ := putMemMap_chip sm space pm'
  have hne := space_ne_gm hmap
  refine ⟨hchip.trans h.chipInfo, htype.trans h.type, hatomic.trans h.atomic, hgm ▸ h.wf,
    fun hf a ha => ?_, fun s q hq => ?_, fun s q hq hf a ha => ?_⟩
  · rw [hgm]
    simpa [Memory.change, hne.symm] using h.gm hf a ha
  · rw [getMemMap_putMemMap hmap] at hq
    split_ifs at hq with hs
    · obtain rfl : pm' = q := by simpa using hq
      rw [hs, hc.blocks]
      exact h.blocks space pm hmap
    · exact h.blocks s q hq
  · rw [getMemMap_putMemMap hmap] at hq
    split_ifs at hq with hs
    · obtain rfl : pm' = q := by simpa using hq
      subst hs
      have hold := h.chips s pm hmap hf a ha
      rw [hc.bits a ha]
      simp only [Memory.change, true_and]
      split_ifs
      · exact hfg _ _ hold
      · exact hold
    · simpa [Memory.change, hs] using h.chips s q hq hf a ha

lemma Maps.gm_change (h : Maps config mask sm m) {gm' : GmPM} {addr size : ℕ} {f : UInt8 → UInt8}
    {g : Byte → Byte} (hc : Changed sm.gm gm' addr size f)
    (hfg : ∀ bits b, EncodesByte bits b → EncodesByte (f bits) (g b)) :
    Maps config mask { sm with gm := gm' } (m.change .gm addr size g) := by
  refine ⟨h.chipInfo, h.type, h.atomic, hc.1, fun hf a ha => ?_, fun s q hq => ?_,
    fun s q hq hf a ha => ?_⟩
  · have hold := h.gm hf a ha
    rw [hc.2 a ha]
    simp only [Memory.change, true_and]
    split_ifs
    · exact hfg _ _ hold
    · exact hold
  · refine h.blocks s q ?_
    cases s <;> first | exact hq | (simp [getMemMap] at hq)
  · have hold : sm.getMemMap s = some (.chip q) := by
      cases s <;> first | exact hq | (simp [getMemMap] at hq)
    simpa [Memory.change, space_ne_gm hold] using h.chips s q hold hf a ha

lemma Maps.ignored (h : Maps config mask sm m) {space : AddressSpace}
    (hno : ¬ Followed config mask space) (addr size : ℕ) (g : Byte → Byte) :
    Maps config mask sm (m.change space addr size g) := by
  have hsame : ∀ s, Followed config mask s → (m.change space addr size g).bytes s = m.bytes s := by
    intro s hf
    funext a
    have hs : s ≠ space := by
      rintro rfl
      exact hno hf
    simp [Memory.change, hs]
  refine ⟨h.chipInfo, h.type, h.atomic, h.wf, fun hf a ha => ?_, h.blocks, fun s q hq hf a ha => ?_⟩
  · rw [hsame _ hf]
    exact h.gm hf a ha
  · rw [hsame _ hf]
    exact h.chips s q hq hf a ha

lemma storeNBytesInRange_zero (atomicEnabled : Bool) (memmap : MemMap) (addr : ℕ)
    (space : AddressSpace) (coreId : UInt8) (outOfBoundCheck : Bool) :
    storeNBytesInRange atomicEnabled memmap addr 0 space coreId outOfBoundCheck = ⟨memmap, 0⟩ := rfl

lemma change_zero (m : Memory) (space : AddressSpace) (addr : ℕ) (g : Byte → Byte) :
    m.change space addr 0 g = m := by
  unfold Memory.change
  simp only [Nat.add_zero]
  congr
  funext s a
  rw [if_neg (by omega)]

/-- A store to global memory, where its modelled part is empty or ends by the limit. -/
lemma storeNBytesInRange_gm {gm : GmPM} (h : Wf gm) (atomicEnabled : Bool) (coreId : UInt8)
    (outOfBoundCheck : Bool) {addr size : ℕ} (hend : size = 0 ∨ addr + size ≤ setLimit) :
    ∃ gm', storeNBytesInRange atomicEnabled (.global gm) addr size .gm coreId outOfBoundCheck =
        ⟨.global gm', countBytes gm addr size (storeBad atomicEnabled coreId outOfBoundCheck)⟩ ∧
      Changed gm gm' addr size (storeBits atomicEnabled coreId outOfBoundCheck) := by
  rcases hend with rfl | hend
  · refine ⟨gm, ?_, h, fun a _ => by rw [if_neg (by omega)]⟩
    rw [storeNBytesInRange_zero]
    simp [countBytes]
  · exact storeNBytesInRange_spec h atomicEnabled coreId outOfBoundCheck hend

lemma storeNBytes_chip (sm : ShadowMemory) {r : MemOpRecordForShadow} {pm pm' : PM}
    (memCheck outOfBoundCheck : Bool) (hmap : sm.getMemMap r.dstSpace = some (.chip pm))
    {addr size : ℕ} (hval : sm.validateRange r.dstSpace r.dstAddr r.memSize = (addr, size))
    (hs : storeNBytesInRange sm.atomicEnabled (.chip pm) addr size r.dstSpace r.coreId.toUInt8
      outOfBoundCheck = ⟨.chip pm', 0⟩) :
    sm.storeNBytes r memCheck outOfBoundCheck = ([], sm.putMemMap r.dstSpace (.chip pm')) := by
  have hskip : skipSpace r.dstSpace = false := by
    cases hspace : r.dstSpace <;> first | rfl | simp [hspace, getMemMap] at hmap
  unfold storeNBytes
  simp only [hskip, hval, hmap, hs, Bool.false_eq_true, if_false, Nat.lt_irrefl]
  cases memCheck <;> rfl

/-- **A store reports the bytes it overwrites**, and the shadow memory follows it. -/
lemma Maps.store (h : Maps config mask sm m) (hf : Followed config mask record.dstSpace)
    (hfit : StoreFits m record) :
    (sm.storeNBytes (.ofRecord record) config.memCheck config.outOfBoundCheck).1.map
        (fillErrorLocInfo record) =
      (if config.memCheck = true ∧ record.dstSpace = .gm then
        Process.bytesReport m record .outOfBounds
          (m.overwrittenBytes config record.coreId record.dstAddr record.memSize)
      else []) ∧
    Maps config mask
      (sm.storeNBytes (.ofRecord record) config.memCheck config.outOfBoundCheck).2
      (m.store config record) := by
  obtain ⟨-, hs, hgmfit⟩ := hfit
  have hval := h.validateRange record.dstSpace record.dstAddr hs
  have hext := extent_le m record.dstSpace record.dstAddr record.memSize
  have hcore :
      (MemOpRecordForShadow.ofRecord record).coreId.toUInt8 = UInt8.ofInt record.coreId := by
    simp [MemOpRecordForShadow.ofRecord]
  rcases getMemMap_cases sm record.dstSpace with hgm | ⟨hnone, hzero⟩ | ⟨pm, hchip⟩
  · obtain ⟨h0, h1, hend⟩ := hgmfit hgm
    have hM := globalMemMask_eq
    rw [hgm] at hval hext hf
    rw [size_gm] at hext
    have hbyte := fun bits b (he : EncodesByte bits b) =>
      he.store h0 h1 sm.atomicEnabled config.outOfBoundCheck
    have hexempt : m.exempt config = (sm.atomicEnabled || !config.outOfBoundCheck) := by
      rw [h.atomic]
      rfl
    obtain ⟨gm', heq, hc⟩ := storeNBytesInRange_gm h.wf sm.atomicEnabled
      (UInt8.ofInt record.coreId) config.outOfBoundCheck hend
    have hcount : countBytes sm.gm (m.extent .gm record.dstAddr record.memSize).1
        (m.extent .gm record.dstAddr record.memSize).2
        (storeBad sm.atomicEnabled (UInt8.ofInt record.coreId) config.outOfBoundCheck) =
        m.overwrittenBytes config record.coreId record.dstAddr record.memSize := by
      unfold countBytes Memory.overwrittenBytes
      refine count_congr fun k hk => ?_
      rw [(hbyte _ _ (h.gm hf _ (by omega))).2, hexempt]
    rw [hcount] at heq
    rw [ShadowScan.storeNBytes_gm sm (.ofRecord record) config.memCheck config.outOfBoundCheck hgm
      hval (by rw [hcore]; exact heq)]
    refine ⟨?_, ?_⟩
    · unfold Process.bytesReport
      rw [hgm]
      by_cases hmem : config.memCheck = true
      · simp only [hmem, true_and, if_true]
        split_ifs <;> rfl
      · simp [hmem]
    · unfold Memory.store
      rw [hgm, hexempt]
      exact h.gm_change hc fun bits b he => by simpa using (hbyte bits b he).1
  · -- nothing of the space is modelled
    have hnil : sm.storeNBytes (.ofRecord record) config.memCheck config.outOfBoundCheck =
        ([], sm) := by
      have hmap : sm.getMemMap (MemOpRecordForShadow.ofRecord record).dstSpace = none := hnone
      unfold storeNBytes
      rw [hmap]
      split_ifs <;> rfl
    have hne : record.dstSpace ≠ .gm := by
      intro hgm
      have hz := hzero m
      rw [hgm, size_gm, globalMemMask_eq] at hz
      cases hz
    rw [hnil, if_neg (fun hc => hne hc.2)]
    refine ⟨rfl, ?_⟩
    have hrange : (m.extent record.dstSpace record.dstAddr record.memSize).2 = 0 := by
      simp [Memory.extent, hzero m]
    unfold Memory.store
    simp only [hrange]
    rwa [change_zero]
  · have hne := space_ne_gm hchip
    have hsize := size_chip_lt m hne
    obtain ⟨pm', heq, hc⟩ := storeNBytesInRange_chip hne sm.atomicEnabled
      (UInt8.ofInt record.coreId) config.outOfBoundCheck
      (hext.trans (h.blocks record.dstSpace pm hchip)) (by omega)
    rw [storeNBytes_chip sm config.memCheck config.outOfBoundCheck hchip hval
      (by rw [hcore]; exact heq), if_neg (fun hc => hne hc.2)]
    refine ⟨rfl, ?_⟩
    unfold Memory.store
    simp only [if_neg hne]
    exact h.chip_change hchip hc fun bits b he => he.define

/-- A store leaves the heap blocks and the counters of unused memory alone. -/
lemma storeNBytes_heap (sm : ShadowMemory) (r : MemOpRecordForShadow)
    (memCheck outOfBoundCheck : Bool) :
    (sm.storeNBytes r memCheck outOfBoundCheck).2.heapBlockManager = sm.heapBlockManager ∧
      (sm.storeNBytes r memCheck outOfBoundCheck).2.unusedHeap = sm.unusedHeap := by
  have hput : ∀ space memmap, (sm.putMemMap space memmap).heapBlockManager =
      sm.heapBlockManager ∧ (sm.putMemMap space memmap).unusedHeap = sm.unusedHeap := by
    intro space memmap
    cases space <;> cases memmap <;> exact ⟨rfl, rfl⟩
  unfold storeNBytes
  by_cases hskip : skipSpace r.dstSpace = true
  · rw [if_pos hskip]
    exact ⟨rfl, rfl⟩
  · rw [if_neg hskip]
    cases sm.getMemMap r.dstSpace with
    | none => exact ⟨rfl, rfl⟩
    | some memmap =>
      dsimp only
      split_ifs <;> exact hput _ _

/-! ### The other operations -/

lemma Maps.setAtomic (h : Maps config mask sm m) (enabled : Bool) :
    Maps config mask (sm.setAtomic enabled) { m with atomic := enabled } :=
  ⟨h.chipInfo, h.type, rfl, h.wf, h.gm, h.blocks, h.chips⟩

/-- Global memory that is made undefined; without bytes nothing is. -/
lemma Maps.makeMemUndefined (h : Maps config mask sm m) {addr size : ℕ}
    (hend : size = 0 ∨ addr + size ≤ setLimit) :
    Maps config mask (sm.makeMemUndefined addr size) (m.change .gm addr size fun _ => {}) := by
  have hS := setLimit_eq
  have hM := globalMemMask_eq
  unfold ShadowMemory.makeMemUndefined
  rcases hend with rfl | hend
  · rw [change_zero, h.validateRange .gm addr (by decide)]
    have hext := extent_le m .gm addr 0
    have hzero : (m.extent .gm addr 0).2 = 0 := by simp [Memory.extent]
    rw [size_gm] at hext
    dsimp only
    rcases le_or_gt ((m.extent .gm addr 0).1 + (m.extent .gm addr 0).2) setLimit with hle | hgt
    · have hc := changed_set h.wf (makeByte .undefined defaultCoreId) hle
      have hmaps := h.gm_change hc fun _ _ _ => encodesByte_undefined
      rw [hzero] at hmaps ⊢
      rwa [change_zero] at hmaps
    · rw [set_wrap _ _ hext hgt]
      exact h
  · rw [validateRange_gm_of_le sm (by omega)]
    exact h.gm_change (changed_set h.wf _ hend) fun _ _ _ => encodesByte_undefined

lemma Maps.blocks_change (h : Maps config mask sm m) {sm' : ShadowMemory}
    (hmaps : ∀ s, sm'.getMemMap s = sm.getMemMap s) (hchip : sm'.chipInfo = sm.chipInfo)
    (htype : sm'.deviceType = sm.deviceType) (hatomic : sm'.atomicEnabled = sm.atomicEnabled) :
    Maps config mask sm' m := by
  have hgm : sm'.gm = sm.gm := by simpa [getMemMap] using hmaps .gm
  refine ⟨hchip.trans h.chipInfo, htype.trans h.type, hatomic.trans h.atomic, hgm ▸ h.wf, ?_,
    fun s pm hq => h.blocks s pm (hmaps s ▸ hq), fun s pm hq => h.chips s pm (hmaps s ▸ hq)⟩
  rw [hgm]
  exact h.gm

lemma Maps.reset (h : Maps config mask sm m) :
    Maps config mask sm.resetChipMemory.resetPrivateMemory m.resetChip := by
  have hold : ∀ s q, sm.resetChipMemory.resetPrivateMemory.getMemMap s = some (.chip q) →
      ∃ pm, sm.getMemMap s = some (.chip pm) ∧ q = pm.reset defaultValue := by
    intro s q hq
    cases s <;> simp only [getMemMap, resetPrivateMemory, resetChipMemory, reduceCtorEq,
      Option.some.injEq, MemMap.chip.injEq] at hq ⊢ <;> exact ⟨_, rfl, hq.symm⟩
  refine ⟨h.chipInfo, h.type, h.atomic, h.wf, fun hf a ha => ?_, fun s q hq => ?_,
    fun s q hq _ a _ => ?_⟩
  · exact h.gm hf a ha
  · obtain ⟨pm, hpm, rfl⟩ := hold s q hq
    exact h.blocks s pm hpm
  · obtain ⟨pm, -, rfl⟩ := hold s q hq
    rw [Memory.resetChip]
    simp only [space_ne_gm hq, if_false]
    simpa [PM.getBits, PM.reset] using encodesByte_default

/-- A device is set up, for the first time or again: the memories on chip are made anew. -/
lemma Maps.init (hwf : Wf sm.gm) (hatomic : sm.atomicEnabled = m.atomic)
    (hgm : Followed config mask .gm → ∀ a < 2 ^ 48,
      EncodesByte (sm.gm.getBits a) (m.bytes .gm a)) (type : DeviceType) (chipInfo : ChipInfo) :
    Maps config mask (sm.init type chipInfo)
      { m.resetChip with type := type, chipInfo := chipInfo } := by
  have hnew : ∀ s q, (sm.init type chipInfo).getMemMap s = some (.chip q) →
      ∃ n : UInt32, Memory.size { m.resetChip with type := type, chipInfo := chipInfo } s =
        n.toNat ∧
        q = PM.new n.toNat defaultValue := by
    intro s q hq
    cases s <;> simp only [getMemMap, ShadowMemory.init, reduceCtorEq, Option.some.injEq,
      MemMap.chip.injEq] at hq <;> exact ⟨_, rfl, hq.symm⟩
  refine ⟨rfl, rfl, hatomic, hwf, fun hf a ha => ?_, fun s q hq => ?_, fun s q hq _ a _ => ?_⟩
  · exact hgm hf a ha
  · obtain ⟨n, hsize, rfl⟩ := hnew s q hq
    rw [hsize]
    exact PmBytes.new_smNum (n.toNat_lt.trans (by norm_num)) defaultValue
  · obtain ⟨n, -, rfl⟩ := hnew s q hq
    rw [Memory.resetChip]
    simp only [space_ne_gm hq, if_false]
    simpa [PmBytes.new_getBits] using encodesByte_default

end MsSanitizer.DeviceMemory
