import MsSanitizer.ChipBytes
import MsSanitizer.RecordMerge
import MsSanitizer.ShadowScan

/-!
# Merged records and the shadow memory

A record that has taken in its neighbours stores to all their bytes at once, with the core of the
first of them. The shadow memory is compared byte by byte: what a store leaves in a byte depends on
the byte, its space and the core, so a merged store is as good as the single ones when these agree,
the ranges do not wrap and the global map does not lose the store.
-/

namespace MsSanitizer.MergedShadow

open RecordDefs Words RangeWrites Pm PmBytes GmBytes Shadow Shadow.ShadowMemory ShadowBytes
open ShadowScan MemRecords RecordMerge
open ChipBytes (defineBits storeNBytesInRange_chip)

/-! ## The shadow memory, byte by byte -/

/-- The shadow byte of an address; a space without a map has none. -/
def bitsAt (sm : ShadowMemory) (space : AddressSpace) (a : ℕ) : UInt8 :=
  match sm.getMemMap space with
  | some memmap => memmap.getBits a
  | none => 0

/-- The addresses that the map of a space tells apart. -/
def addrLimit : AddressSpace → ℕ
  | .gm => 2 ^ 48
  | _ => 2 ^ 36

/-- The maps of the chip have blocks for its memory, and the global map is well formed. -/
structure Ready (sm : ShadowMemory) : Prop where
  wf : Wf sm.gm
  roomy : ∀ space pm, sm.getMemMap space = some (.chip pm) →
    sm.maxSize space ≤ blockSize * pm.smNum

lemma maxSize_lt (sm : ShadowMemory) {space : AddressSpace} (h : space ≠ .gm) :
    sm.maxSize space < 2 ^ 32 := by
  cases space <;> simp only [maxSize] <;>
    first | exact absurd rfl h | exact UInt32.toNat_lt _ | norm_num

/-- The maps other than the one put in place, and what the maps are not part of, stay. -/
lemma putMemMap_chip {sm : ShadowMemory} {space : AddressSpace} {pm : PM} (pm' : PM)
    (h : sm.getMemMap space = some (.chip pm)) :
    (sm.putMemMap space (.chip pm')).getMemMap space = some (.chip pm') ∧
      (∀ s ≠ space, (sm.putMemMap space (.chip pm')).getMemMap s = sm.getMemMap s) ∧
      (sm.putMemMap space (.chip pm')).atomicEnabled = sm.atomicEnabled ∧
      (sm.putMemMap space (.chip pm')).chipInfo = sm.chipInfo := by
  cases space <;> simp only [getMemMap, Option.some.injEq, reduceCtorEq] at h <;>
    refine ⟨rfl, fun s hs => ?_, rfl, rfl⟩ <;> cases s <;> first | rfl | exact absurd rfl hs

lemma maxSize_congr {sm sm' : ShadowMemory} (h : sm'.chipInfo = sm.chipInfo)
    (space : AddressSpace) : sm'.maxSize space = sm.maxSize space := by
  cases space <;> simp only [maxSize, h]

lemma maxSize_lt_word (sm : ShadowMemory) (space : AddressSpace) : sm.maxSize space < 2 ^ 64 := by
  by_cases hgm : space = .gm
  · subst hgm
    exact maxSize_gm_lt sm
  · exact (maxSize_lt sm hgm).trans (by norm_num)

/-- The part of a range that `ValidateRange` keeps. -/
lemma mem_validateRange (sm : ShadowMemory) (space : AddressSpace) (addr : ℕ) {size : ℕ}
    (hs : size < 2 ^ 64) (a : ℕ) :
    (sm.validateRange space addr size).1 + (sm.validateRange space addr size).2 ≤
        sm.maxSize space ∧
      ((sm.validateRange space addr size).1 ≤ a ∧ a < (sm.validateRange space addr size).1 +
          (sm.validateRange space addr size).2 ↔
        addr ≤ a ∧ a < addr + size ∧ a < sm.maxSize space) := by
  rw [validateRange_eq sm space (maxSize_lt_word sm space) hs]
  dsimp only
  omega

/-- The bits that a store leaves in a byte of a space. -/
def newBits (atomicEnabled outOfBoundCheck : Bool) (space : AddressSpace) (coreId : UInt8)
    (bits : UInt8) : UInt8 :=
  if space = .gm then storeBits atomicEnabled coreId outOfBoundCheck bits else defineBits bits

/-- The shadow memory `sm'` is `sm` with the bytes of a range changed. -/
structure Stored (sm sm' : ShadowMemory) (outOfBoundCheck : Bool) (space : AddressSpace)
    (addr size : ℕ) (coreId : UInt8) : Prop where
  ready : Ready sm'
  atomicEnabled : sm'.atomicEnabled = sm.atomicEnabled
  chipInfo : sm'.chipInfo = sm.chipInfo
  bits : ∀ s a, a < addrLimit s → bitsAt sm' s a =
    if s = space ∧ addr ≤ a ∧ a < addr + size ∧ a < sm.maxSize s then
      newBits sm.atomicEnabled outOfBoundCheck s coreId (bitsAt sm s a)
    else bitsAt sm s a

section

variable {sm : ShadowMemory} (r : MemOpRecordForShadow) (memCheck outOfBoundCheck : Bool)

lemma stored_chip (h : Ready sm) (hs : r.memSize < 2 ^ 64) {pm : PM}
    (hpm : sm.getMemMap r.dstSpace = some (.chip pm)) :
    Stored sm (sm.storeNBytes r memCheck outOfBoundCheck).2 outOfBoundCheck r.dstSpace r.dstAddr
      r.memSize r.coreId.toUInt8 := by
  have hspace : r.dstSpace ≠ .gm := by
    intro hgm
    rw [hgm] at hpm
    cases hpm
  have hskip : skipSpace r.dstSpace = false := by
    cases hsp : r.dstSpace <;> first | rfl | (rw [hsp] at hpm; cases hpm)
  have hroom := h.roomy _ _ hpm
  have hmax := maxSize_lt sm hspace
  have hrange := mem_validateRange sm r.dstSpace r.dstAddr hs
  obtain ⟨pm', heq, hd⟩ := storeNBytesInRange_chip hspace sm.atomicEnabled r.coreId.toUInt8
    outOfBoundCheck ((hrange 0).1.trans hroom) (by have := (hrange 0).1; omega)
  have hstore : (sm.storeNBytes r memCheck outOfBoundCheck).2 =
      sm.putMemMap r.dstSpace (.chip pm') := by
    unfold storeNBytes
    simp only [hskip, Bool.false_eq_true, if_false, hpm, heq, lt_irrefl]
    split_ifs <;> rfl
  obtain ⟨hput, hother, hatomic, hchip⟩ := putMemMap_chip pm' hpm
  rw [hstore]
  have hgm : (sm.putMemMap r.dstSpace (.chip pm')).gm = sm.gm := putMemMap_gm_of_ne sm hspace _
  refine ⟨⟨hgm ▸ h.wf, fun s q hq => ?_⟩, hatomic, hchip, fun s a hlt => ?_⟩
  · rw [maxSize_congr hchip]
    by_cases hs' : s = r.dstSpace
    · subst hs'
      rw [hput] at hq
      cases hq
      rw [hd.blocks]
      exact hroom
    · rw [hother s hs'] at hq
      exact h.roomy s q hq
  · by_cases hs' : s = r.dstSpace
    · subst hs'
      have hlim : addrLimit r.dstSpace = 2 ^ 36 := by
        cases hsp : r.dstSpace <;> first | rfl | exact absurd hsp hspace
      simp only [bitsAt, hput, hpm, MemMap.getBits]
      rw [hd.bits a (hlim ▸ hlt)]
      refine if_congr ?_ ?_ rfl
      · rw [(hrange a).2]
        simp
      · rw [newBits, if_neg hspace]
    · rw [if_neg fun hc => hs' hc.1]
      simp only [bitsAt, hother s hs']

lemma stored_gm (h : Ready sm) (hgm : r.dstSpace = .gm) (hend : r.dstAddr + r.memSize ≤ setLimit) :
    Stored sm (sm.storeNBytes r memCheck outOfBoundCheck).2 outOfBoundCheck r.dstSpace r.dstAddr
      r.memSize r.coreId.toUInt8 := by
  have hS := setLimit_eq
  have hM := globalMemMask_eq
  obtain ⟨gm', heq, hc⟩ := storeNBytesInRange_spec h.wf sm.atomicEnabled r.coreId.toUInt8
    outOfBoundCheck hend
  rw [storeNBytes_gm sm r memCheck outOfBoundCheck hgm (validateRange_gm_of_le sm (by omega)) heq]
  change Stored sm { sm with gm := gm' } outOfBoundCheck _ _ _ _
  have hother : ∀ s ≠ .gm, ({ sm with gm := gm' } : ShadowMemory).getMemMap s = sm.getMemMap s := by
    intro s hs
    cases s <;> first | rfl | exact absurd rfl hs
  refine ⟨⟨hc.1, fun s q hq => ?_⟩, rfl, rfl, fun s a hlt => ?_⟩
  · have hs : s ≠ .gm := by
      rintro rfl
      cases hq
    rw [hother s hs] at hq
    exact h.roomy s q hq
  · rw [hgm]
    by_cases hs : s = .gm
    · subst hs
      simp only [bitsAt, getMemMap, MemMap.getBits]
      rw [hc.2 a hlt]
      refine if_congr ?_ rfl rfl
      simp only [maxSize, true_and]
      omega
    · rw [if_neg fun hc => hs hc.1]
      simp only [bitsAt, hother s hs]

lemma stored_none (h : Ready sm) (hnone : sm.getMemMap r.dstSpace = none) :
    Stored sm (sm.storeNBytes r memCheck outOfBoundCheck).2 outOfBoundCheck r.dstSpace r.dstAddr
      r.memSize r.coreId.toUInt8 := by
  have hstore : (sm.storeNBytes r memCheck outOfBoundCheck).2 = sm := by
    unfold storeNBytes
    simp only [hnone]
    split_ifs <;> rfl
  have hzero : sm.maxSize r.dstSpace = 0 := by
    cases hsp : r.dstSpace <;> first | rfl | (rw [hsp] at hnone; cases hnone)
  rw [hstore]
  refine ⟨h, rfl, rfl, fun s a _ => ?_⟩
  rw [if_neg]
  rintro ⟨rfl, -, -, hlt⟩
  omega

end

/-- The maps of the chip and its sizes decide whether there are enough blocks. -/
lemma Ready.congr {sm sm' : ShadowMemory} (h : Ready sm) (hwf : Wf sm'.gm)
    (hmap : ∀ s ≠ .gm, sm'.getMemMap s = sm.getMemMap s) (hchip : sm'.chipInfo = sm.chipInfo) :
    Ready sm' := by
  refine ⟨hwf, fun s pm hpm => ?_⟩
  have hs : s ≠ .gm := by
    rintro rfl
    cases hpm
  rw [maxSize_congr hchip]
  exact h.roomy s pm (hmap s hs ▸ hpm)

lemma ready_withGm {sm : ShadowMemory} (h : Ready sm) {gm : GmPM} (hwf : Wf gm) :
    Ready { sm with gm := gm } := by
  refine h.congr hwf (fun s hs => ?_) rfl
  cases s <;> first | rfl | exact absurd rfl hs

lemma ready_init {sm : ShadowMemory} (h : Wf sm.gm) (deviceType : DeviceType)
    (chipInfo : ChipInfo) : Ready (sm.init deviceType chipInfo) := by
  have hnew : ∀ size : UInt32, size.toNat ≤ blockSize * (PM.new size.toNat defaultValue).smNum :=
    fun size => new_smNum ((UInt32.toNat_lt size).trans (by norm_num)) _
  refine ⟨h, fun s pm hpm => ?_⟩
  cases s <;> first | (cases hpm; exact hnew _) | cases hpm

lemma ready_reset {sm : ShadowMemory} (h : Ready sm) :
    Ready sm.resetChipMemory ∧ Ready sm.resetPrivateMemory := by
  refine ⟨⟨h.wf, fun s pm hpm => ?_⟩, ⟨h.wf, fun s pm hpm => ?_⟩⟩ <;> cases s <;> cases hpm <;>
    first
    | exact h.roomy .l0a sm.l0a rfl
    | exact h.roomy .l0b sm.l0b rfl
    | exact h.roomy .l0c sm.l0c rfl
    | exact h.roomy .l1 sm.l1 rfl
    | exact h.roomy .ub sm.ub rfl
    | exact h.roomy .priv sm.priv rfl

lemma ready_store {sm : ShadowMemory} (h : Ready sm) (r : MemOpRecordForShadow)
    (memCheck outOfBoundCheck : Bool) (hs : r.memSize < 2 ^ 64) :
    Ready (sm.storeNBytes r memCheck outOfBoundCheck).2 := by
  cases hmap : sm.getMemMap r.dstSpace with
  | none => exact (stored_none r memCheck outOfBoundCheck h hmap).ready
  | some memmap =>
    cases memmap with
    | chip pm => exact (stored_chip r memCheck outOfBoundCheck h hs hmap).ready
    | global gm =>
      have hgm : r.dstSpace = .gm := by
        cases hsp : r.dstSpace <;> first | rfl | (rw [hsp] at hmap; cases hmap)
      obtain ⟨gm', n, heq, hw⟩ := storeNBytesInRange_wf h.wf sm.atomicEnabled r.coreId.toUInt8
        outOfBoundCheck (validateRange_gm_le sm r.dstAddr hs)
      rw [storeNBytes_gm sm r memCheck outOfBoundCheck hgm rfl heq]
      exact ready_withGm h hw

lemma ready_of_reachable {sm : ShadowMemory} (h : Reachable sm) : Ready sm := by
  induction h with
  | new =>
    refine ⟨wf_new _, fun s pm hpm => ?_⟩
    cases s <;> first | exact Nat.zero_le _ | cases hpm
  | init h deviceType chipInfo _ => exact ready_init h.wf deviceType chipInfo
  | resetChip _ ih => exact (ready_reset ih).1
  | resetPrivate _ ih => exact (ready_reset ih).2
  | setAtomic _ _ ih => exact ⟨ih.wf, ih.roomy⟩
  | store _ r memCheck outOfBoundCheck _ hs ih =>
    exact ready_store ih r memCheck outOfBoundCheck hs
  | @makeMemUndefined sm h addr size ha hs ih =>
    have hwf := (h.makeMemUndefined ha hs).wf
    obtain ⟨gm, hgm⟩ : ∃ gm, sm.makeMemUndefined addr size = { sm with gm := gm } := ⟨_, rfl⟩
    rw [hgm] at hwf ⊢
    exact ready_withGm ih hwf
  | @clearBlockId sm h addr size ha hs ih =>
    have hwf := (h.clearBlockId ha hs).wf
    obtain ⟨gm, hgm⟩ : ∃ gm, sm.clearBlockId addr size = { sm with gm := gm } := ⟨_, rfl⟩
    rw [hgm] at hwf ⊢
    exact ready_withGm ih hwf
  | @addHeapBlock sm _ record ih =>
    unfold ShadowMemory.addHeapBlock
    split_ifs <;> exact ⟨ih.wf, ih.roomy⟩
  | @freeHeapBlock sm _ record ih =>
    unfold ShadowMemory.freeHeapBlock
    split_ifs <;> exact ⟨ih.wf, ih.roomy⟩
  | @checkUnusedMem sm _ addr size ih =>
    unfold ShadowMemory.checkUnusedMem
    simp only
    split_ifs
    · exact ⟨ih.wf, ih.roomy⟩
    · exact ih

/-! ## Records -/

/-- `InitcheckAddressSpaceBit`; the unknown space has no bit. -/
def initcheckAddressSpaceBit : AddressSpace → UInt32
  | .priv => (1 : UInt32) <<< 0
  | .gm => (1 : UInt32) <<< 1
  | .l1 => (1 : UInt32) <<< 2
  | .l0a => (1 : UInt32) <<< 3
  | .l0b => (1 : UInt32) <<< 4
  | .l0c => (1 : UInt32) <<< 5
  | .ub => (1 : UInt32) <<< 6
  | .bt => (1 : UInt32) <<< 7
  | .fb => (1 : UInt32) <<< 8
  | .unknown => 0

def isInitcheckAddressSpaceEnabled (mask : UInt32) (space : AddressSpace) : Bool :=
  mask &&& initcheckAddressSpaceBit space != 0

/-- What is fixed while the records of a kernel are handled: the configuration, the mask that the
configuration manager holds, and whether the shadow memory is left out. -/
structure Switches where
  config : Config
  mask : UInt32
  ignoreShadowMemory : Bool

/-- `GetEffectiveInitcheckAddressSpaceMask` for the check of initialization. -/
def Switches.effectiveMask (cfg : Switches) : UInt32 := if cfg.config.initCheck then cfg.mask else 0

/-- The condition in `AsanStore` under which a store enters the shadow memory. -/
def Switches.enters (cfg : Switches) (space : AddressSpace) : Bool :=
  (isInitcheckAddressSpaceEnabled cfg.effectiveMask space ||
    (cfg.config.memCheck && space == .gm)) && !cfg.ignoreShadowMemory

/-- The records of loads, stores and copies, with the widths of their fields. -/
structure IsAccess (r : MemOpRecord) : Prop where
  type : r.type = .load ∨ r.type = .store ∨ r.type = .memcpyBlocks
  dstAddr : r.dstAddr < 2 ^ 64
  memSize : r.memSize < 2 ^ 64

/-- Stores, and copies, whose second half is a store. -/
def writes (r : MemOpRecord) : Bool := r.type == .store || r.type == .memcpyBlocks

/-- `doAction` of `AsanLoad`, `AsanStore` and `AsanMemcpyBlocks` on the shadow memory. A load only
reads it. -/
def doAction (cfg : Switches) (sm : ShadowMemory) (record : MemOpRecord) : ShadowMemory :=
  if writes record && cfg.enters record.dstSpace then
    (sm.storeNBytes (.ofRecord record) cfg.config.memCheck cfg.config.outOfBoundCheck).2
  else sm

def doActions (cfg : Switches) (sm : ShadowMemory) (l : List MemOpRecord) : ShadowMemory :=
  l.foldl (doAction cfg) sm

/-- The core of a record as the shadow memory sees it. -/
def shadowCore (record : MemOpRecord) : UInt8 := UInt8.ofInt record.coreId

/-- A write to global memory ends before the part that the map loses. -/
def InMap (r : MemOpRecord) : Prop :=
  writes r = true → r.dstSpace = .gm → r.dstAddr + r.memSize ≤ setLimit

abbrev View := AddressSpace → ℕ → UInt8

/-- What a record does to the bytes, with the sizes of the memories. -/
def act (cfg : Switches) (atomicEnabled : Bool) (maxSize : AddressSpace → ℕ) (v : View)
    (r : MemOpRecord) : View := fun s a =>
  if writes r = true ∧ cfg.enters r.dstSpace = true ∧ s = r.dstSpace ∧ r.dstAddr ≤ a ∧
      a < r.dstAddr + r.memSize ∧ a < maxSize s then
    newBits atomicEnabled cfg.config.outOfBoundCheck s (shadowCore r) (v s a)
  else v s a

/-- The shadow memory `sm`, which `sm₀` has become, holds the bytes of `v`. -/
structure Shows (sm₀ sm : ShadowMemory) (v : View) : Prop where
  ready : Ready sm
  atomicEnabled : sm.atomicEnabled = sm₀.atomicEnabled
  chipInfo : sm.chipInfo = sm₀.chipInfo
  bits : ∀ s a, a < addrLimit s → bitsAt sm s a = v s a

lemma shows_self {sm : ShadowMemory} (h : Ready sm) : Shows sm sm (bitsAt sm) :=
  ⟨h, rfl, rfl, fun _ _ _ => rfl⟩

section

variable (cfg : Switches) {sm₀ sm : ShadowMemory} {v : View}

lemma stored_record {r : MemOpRecord} (h : Ready sm) (hr : IsAccess r) (hw : writes r = true)
    (hin : InMap r) (memCheck outOfBoundCheck : Bool) :
    Stored sm (sm.storeNBytes (.ofRecord r) memCheck outOfBoundCheck).2 outOfBoundCheck
      r.dstSpace r.dstAddr r.memSize (shadowCore r) := by
  have hcore : (MemOpRecordForShadow.ofRecord r).coreId.toUInt8 = shadowCore r :=
    UInt8.toUInt8_toUInt16 _
  rw [← hcore]
  cases hmap : sm.getMemMap r.dstSpace with
  | none => exact stored_none (.ofRecord r) memCheck outOfBoundCheck h hmap
  | some memmap =>
    cases memmap with
    | chip pm => exact stored_chip (.ofRecord r) memCheck outOfBoundCheck h hr.memSize hmap
    | global gm =>
      have hgm : r.dstSpace = .gm := by
        cases hsp : r.dstSpace <;> first | rfl | (rw [hsp] at hmap; cases hmap)
      exact stored_gm (.ofRecord r) memCheck outOfBoundCheck h hgm (hin hw hgm)

/-- A record does to the shadow memory what `act` says. -/
lemma Shows.step (h : Shows sm₀ sm v) {r : MemOpRecord} (hr : IsAccess r) (hin : InMap r) :
    Shows sm₀ (doAction cfg sm r) (act cfg sm₀.atomicEnabled sm₀.maxSize v r) := by
  unfold doAction
  by_cases hw : (writes r && cfg.enters r.dstSpace) = true
  · rw [if_pos hw]
    rw [Bool.and_eq_true] at hw
    have hst := stored_record h.ready hr hw.1 hin cfg.config.memCheck cfg.config.outOfBoundCheck
    refine ⟨hst.ready, hst.atomicEnabled.trans h.atomicEnabled, hst.chipInfo.trans h.chipInfo,
      fun s a ha => ?_⟩
    rw [hst.bits s a ha, h.bits s a ha, h.atomicEnabled, maxSize_congr h.chipInfo]
    unfold act
    refine if_congr ?_ rfl rfl
    simp only [hw, true_and]
  · rw [if_neg hw]
    refine ⟨h.ready, h.atomicEnabled, h.chipInfo, fun s a ha => ?_⟩
    unfold act
    rw [if_neg, h.bits s a ha]
    rintro ⟨hwrites, henters, -⟩
    exact hw (by rw [hwrites, henters]; rfl)

end

/-- Two shadow memories that are both well formed and hold the same bytes. -/
structure Alike (sm sm' : ShadowMemory) : Prop where
  ready : Ready sm
  shows : Shows sm sm' (bitsAt sm)

lemma alike_refl {sm : ShadowMemory} (h : Ready sm) : Alike sm sm := ⟨h, shows_self h⟩

section

variable (cfg : Switches) {sm sm' sm'' : ShadowMemory}

lemma Alike.trans (h : Alike sm sm') (h' : Alike sm' sm'') : Alike sm sm'' :=
  ⟨h.ready, h'.shows.ready, h'.shows.atomicEnabled.trans h.shows.atomicEnabled,
    h'.shows.chipInfo.trans h.shows.chipInfo,
    fun s a ha => (h'.shows.bits s a ha).trans (h.shows.bits s a ha)⟩

/-- Shadow memories that hold the same bytes are alike. -/
lemma Shows.alike {v : View} (h : Shows sm sm' v) (h' : Shows sm sm'' v) : Alike sm' sm'' :=
  ⟨h.ready, h'.ready, h'.atomicEnabled.trans h.atomicEnabled.symm,
    h'.chipInfo.trans h.chipInfo.symm, fun s a ha => (h'.bits s a ha).trans (h.bits s a ha).symm⟩

/-- The global maps of shadow memories that are alike have the same bytes. -/
lemma Alike.sameBytes (h : Alike sm sm') : SameBytes sm.gm sm'.gm :=
  ⟨h.ready.wf, h.shows.ready.wf, fun a ha => h.shows.bits .gm a ha⟩

lemma Alike.withGm (h : Alike sm sm') {gm gm' : GmPM} (hgm : SameBytes gm gm') :
    Alike { sm with gm := gm } { sm' with gm := gm' } := by
  refine ⟨ready_withGm h.ready hgm.wf, ready_withGm h.shows.ready hgm.wf', h.shows.atomicEnabled,
    h.shows.chipInfo, fun s a ha => ?_⟩
  have hbits := h.shows.bits s a ha
  cases s <;> first | exact hbits | exact hgm.bits a ha

/-- **A record does the same to shadow memories that are alike**, wherever it ends. -/
lemma Alike.step (h : Alike sm sm') {r : MemOpRecord} (hr : IsAccess r) :
    Alike (doAction cfg sm r) (doAction cfg sm' r) := by
  by_cases hgm : r.dstSpace = .gm
  · unfold doAction
    split_ifs
    · -- a global write, which the map may lose
      have hval : ∀ sm : ShadowMemory, sm.validateRange .gm r.dstAddr r.memSize =
          ShadowMemory.new.validateRange .gm r.dstAddr r.memSize := fun _ => rfl
      have hend := validateRange_gm_le ShadowMemory.new r.dstAddr hr.memSize
      obtain ⟨g, g', n, hg, hg', hsame⟩ := h.sameBytes.storeNBytesInRange sm.atomicEnabled
        (MemOpRecordForShadow.ofRecord r).coreId.toUInt8 cfg.config.outOfBoundCheck hend
      rw [storeNBytes_gm sm (.ofRecord r) _ _ hgm (hval sm) hg,
        storeNBytes_gm sm' (.ofRecord r) _ _ hgm (hval sm') (h.shows.atomicEnabled ▸ hg')]
      exact h.withGm hsame
    · exact h
  · have hin : InMap r := fun _ hs => absurd hs hgm
    exact ((shows_self h.ready).step cfg hr hin).alike (h.shows.step cfg hr hin)

lemma Alike.run (h : Alike sm sm') {l : List MemOpRecord} (hl : ∀ r ∈ l, IsAccess r) :
    Alike (doActions cfg sm l) (doActions cfg sm' l) := by
  induction l generalizing sm sm' with
  | nil => exact h
  | cons r l ih => exact ih (h.step cfg (hl r (by simp))) fun r' hr' => hl r' (by simp [hr'])

end

/-! ## Joined records -/

/-- Records that may be neighbours: if they are joined and write, then neither runs to the end of
the 64-bit addresses, and in global memory the shadow memory takes them for one core and the second
ends before the part that the map loses. -/
def Mergeable (x y : MemOpRecord) : Prop :=
  joins x y = true → writes x = true →
    x.dstAddr + x.memSize < 2 ^ 64 ∧ y.dstAddr + y.memSize < 2 ^ 64 ∧
      (x.dstSpace = .gm → shadowCore x = shadowCore y ∧ y.dstAddr + y.memSize ≤ setLimit)

instance (x y : MemOpRecord) : Decidable (Mergeable x y) := by
  unfold Mergeable
  infer_instance

/-- The fields that the records must agree in to be joined. -/
lemma of_joins {x y : MemOpRecord} (h : joins x y = true) :
    x.type = y.type ∧ x.dstSpace = y.dstSpace ∧ (x.type = .memcpyBlocks → x.srcSpace = y.srcSpace) ∧
      add64 x.dstAddr x.memSize = y.dstAddr ∧
      (x.type = .memcpyBlocks → add64 x.srcAddr x.memSize = y.srcAddr) := by
  simp only [joins, isSameOp, isContinuousAddr, Bool.and_eq_true, Bool.or_eq_true, beq_iff_eq,
    bne_iff_ne, ne_eq] at h
  obtain ⟨⟨⟨htype, hspace⟩, hsrc⟩, hdst, hsrcAddr⟩ := h
  exact ⟨htype, hspace, fun hc => hsrc.resolve_left (not_not_intro hc), hdst,
    fun hc => hsrcAddr.resolve_left (not_not_intro hc)⟩

lemma writes_congr {x y : MemOpRecord} (h : x.type = y.type) : writes x = writes y := by
  simp only [writes, h]

/-- The record `last`, which has taken in others, is continued as the last of them, `y`, is. -/
structure StandsFor (last y : MemOpRecord) : Prop where
  type : last.type = y.type
  dstSpace : last.dstSpace = y.dstSpace
  joinsAs : ∀ z, joins last z = joins y z
  ends : writes y = true → last.dstAddr + last.memSize = y.dstAddr + y.memSize
  core : writes y = true → y.dstSpace = .gm → shadowCore last = shadowCore y

lemma standsFor_self (y : MemOpRecord) : StandsFor y y :=
  ⟨rfl, rfl, fun _ => rfl, fun _ => rfl, fun _ _ => rfl⟩

lemma add64_assoc (a b c : ℕ) : add64 a (add64 b c) = add64 (add64 a b) c := by
  simp only [add64, Nat.add_mod_mod, Nat.mod_add_mod, Nat.add_assoc]

section

variable {last x y : MemOpRecord}

/-- What is known of `last` and the next record `y` when they are joined, from the neighbours. -/
lemma StandsFor.joined (h : StandsFor last x) (hm : Mergeable x y) (hj : joins x y = true)
    (hw : writes y = true) :
    last.dstAddr + last.memSize = y.dstAddr ∧ y.dstAddr + y.memSize < 2 ^ 64 ∧
      (y.dstSpace = .gm → shadowCore last = shadowCore y ∧ InMap y) := by
  obtain ⟨htype, hspace, -, hdst, -⟩ := of_joins hj
  have hwx : writes x = true := (writes_congr htype).trans hw
  obtain ⟨hx, hy, hgmem⟩ := hm hj hwx
  rw [add64_eq hx] at hdst
  refine ⟨(h.ends hwx).trans hdst, hy, fun hgm => ?_⟩
  have hgmx : x.dstSpace = .gm := hspace.trans hgm
  exact ⟨(h.core hwx hgmx).trans (hgmem hgmx).1, fun _ _ => (hgmem hgmx).2⟩

lemma StandsFor.grow (h : StandsFor last x) (hm : Mergeable x y) (hj : joins x y = true) :
    StandsFor (MemOpRecord.grow last y) y := by
  have hjl : joins last y = true := (h.joinsAs y).trans hj
  obtain ⟨htype, hspace, hsrcSpace, hdst, hsrc⟩ := of_joins hjl
  refine ⟨htype, hspace, fun z => ?_, fun hw => ?_, fun hw hgm => ?_⟩
  · unfold joins isSameOp isContinuousAddr MemOpRecord.grow
    simp only [add64_assoc, hdst]
    by_cases hc : last.type = .memcpyBlocks
    · rw [hsrc hc, hsrcSpace hc, htype, hspace]
    · have hcy : (y.type != .memcpyBlocks) = true := by simpa [htype] using hc
      rw [htype, hspace, hcy]
      rfl
  · obtain ⟨hend, hlt, -⟩ := h.joined hm hj hw
    change last.dstAddr + add64 last.memSize y.memSize = _
    rw [add64_eq (by omega)]
    omega
  · exact ((h.joined hm hj hw).2.2 hgm).1

/-- Joined records, and what they grow to, end before the part that the map loses. -/
lemma StandsFor.inMap (h : StandsFor last x) (hm : Mergeable x y) (hj : joins x y = true) :
    InMap last ∧ InMap y ∧ InMap (MemOpRecord.grow last y) := by
  have hjl : joins last y = true := (h.joinsAs y).trans hj
  obtain ⟨htype, hspace, -⟩ := of_joins hjl
  have hg := h.grow hm hj
  have hin : writes y = true → y.dstSpace = .gm → y.dstAddr + y.memSize ≤ setLimit :=
    fun hw hgm => ((h.joined hm hj hw).2.2 hgm).2 hw hgm
  refine ⟨fun hw hgm => ?_, hin, fun hw hgm => ?_⟩
  · have hwy : writes y = true := (writes_congr htype).symm.trans hw
    have hy := hin hwy (hspace.symm.trans hgm)
    rw [(h.joined hm hj hwy).1]
    omega
  · have hwy : writes y = true := (writes_congr hg.type).symm.trans hw
    rw [hg.ends hwy]
    exact hin hwy (hg.dstSpace.symm.trans hgm)

lemma isAccess_grow (h : IsAccess last) : IsAccess (MemOpRecord.grow last y) :=
  ⟨h.type, h.dstAddr, Nat.mod_lt _ (by norm_num)⟩

lemma newBits_congr (atomicEnabled outOfBoundCheck : Bool) {space : AddressSpace} {c c' : UInt8}
    (h : space = .gm → c = c') (bits : UInt8) :
    newBits atomicEnabled outOfBoundCheck space c bits =
      newBits atomicEnabled outOfBoundCheck space c' bits := by
  unfold newBits
  by_cases hs : space = .gm
  · rw [if_pos hs, if_pos hs, h hs]
  · rw [if_neg hs, if_neg hs]

/-- **A joined record does what the two do.** -/
lemma StandsFor.act_grow (h : StandsFor last x) (hm : Mergeable x y) (hj : joins x y = true)
    (cfg : Switches) (atomicEnabled : Bool) (maxSize : AddressSpace → ℕ) (v : View) :
    act cfg atomicEnabled maxSize v (MemOpRecord.grow last y) =
      act cfg atomicEnabled maxSize (act cfg atomicEnabled maxSize v last) y := by
  have hjl : joins last y = true := (h.joinsAs y).trans hj
  obtain ⟨htype, hspace, -⟩ := of_joins hjl
  have hw := writes_congr htype
  funext s a
  by_cases hwy : writes y = true
  · obtain ⟨hend, hlt, hcore⟩ := h.joined hm hj hwy
    have hwg : writes (MemOpRecord.grow last y) = true := hw.trans hwy
    have hsize : (MemOpRecord.grow last y).memSize = last.memSize + y.memSize :=
      add64_eq (by omega)
    have hdst : (MemOpRecord.grow last y).dstAddr = last.dstAddr := rfl
    have hdsp : (MemOpRecord.grow last y).dstSpace = y.dstSpace := hspace
    have hshc : shadowCore (MemOpRecord.grow last y) = shadowCore last := rfl
    unfold act
    rw [hwg, hw, hwy, hsize, hdst, hdsp, hshc, hspace]
    by_cases hs : cfg.enters y.dstSpace = true ∧ s = y.dstSpace
    · have hnew := newBits_congr atomicEnabled cfg.config.outOfBoundCheck
        (fun hgm => (hcore (hs.2.symm.trans hgm)).1) (v s a)
      simp only [hs.1, hs.2, true_and] at hnew ⊢
      split_ifs <;> first | rfl | exact hnew | omega
    · have hno : ∀ P : Prop, ¬ (true = true ∧ cfg.enters y.dstSpace = true ∧ s = y.dstSpace ∧ P) :=
        fun P hP => hs ⟨hP.2.1, hP.2.2.1⟩
      rw [if_neg (hno _), if_neg (hno _), if_neg (hno _)]
  · have hwl : ¬ writes last = true := hw ▸ hwy
    have hwg : ¬ writes (MemOpRecord.grow last y) = true := hwl
    unfold act
    simp [hwy, hwl, hwg]

/-- In a shadow memory, a joined record leaves what the two leave. -/
lemma StandsFor.alike_grow (h : StandsFor last x) (hm : Mergeable x y) (hj : joins x y = true)
    (cfg : Switches) {sm : ShadowMemory} (hsm : Ready sm) (hlast : IsAccess last)
    (hy : IsAccess y) :
    Alike (doAction cfg sm (MemOpRecord.grow last y)) (doAction cfg (doAction cfg sm last) y) := by
  obtain ⟨hinlast, hiny, hingrow⟩ := h.inMap hm hj
  have hgrow := (shows_self hsm).step cfg (isAccess_grow (y := y) hlast) hingrow
  have htwo := ((shows_self hsm).step cfg hlast hinlast).step cfg hy hiny
  rw [h.act_grow hm hj] at hgrow
  exact hgrow.alike htwo

end

lemma doActions_concat (cfg : Switches) (sm : ShadowMemory) (l : List MemOpRecord)
    (r : MemOpRecord) : doActions cfg sm (l ++ [r]) = doAction cfg (doActions cfg sm l) r := by
  simp only [doActions, List.foldl_append, List.foldl_cons, List.foldl_nil]

/-- What pushing the records one by one keeps: the list leaves what the records that went into it
leave. The induction is over the records to come; `x` is the last one that went in. -/
lemma foldl_push_alike (cfg : Switches) {sm : ShadowMemory} (hsm : Ready sm)
    {l : List MemOpRecord} {x last : MemOpRecord} {init : List MemOpRecord}
    (h : StandsFor last x) (hchain : (x :: l).IsChain Mergeable)
    (hgood : ∀ r ∈ init ++ [last], IsAccess r) (hl : ∀ r ∈ l, IsAccess r) :
    Alike (doActions cfg sm (l.foldl (Compaction.push joins MemOpRecord.grow) (init ++ [last])))
      (doActions cfg (doActions cfg sm (init ++ [last])) l) := by
  induction l generalizing x last init with
  | nil => exact (alike_refl hsm).run cfg hgood
  | cons y l ih =>
    obtain ⟨hm, hchain'⟩ := List.isChain_cons_cons.mp hchain
    have hy := hl y (by simp)
    have hl' : ∀ r ∈ l, IsAccess r := fun r hr => hl r (by simp [hr])
    have hinit : ∀ r ∈ init, IsAccess r := fun r hr => hgood r (by simp [hr])
    have hlast := hgood last (by simp)
    rw [List.foldl_cons]
    by_cases hj : joins x y = true
    · rw [Compaction.push_concat_of_joins init ((h.joinsAs y).trans hj)]
      have hgood' : ∀ r ∈ init ++ [MemOpRecord.grow last y], IsAccess r := by
        intro r hr
        rcases List.mem_append.mp hr with hr | hr
        · exact hinit r hr
        · rw [List.mem_singleton.mp hr]
          exact isAccess_grow hlast
      -- the grown record leaves what the two leave, and the records to come keep that
      have hgrow := h.alike_grow hm hj cfg ((alike_refl hsm).run cfg hinit).ready hlast hy
      have hrest := ih (h.grow hm hj) hchain' hgood' hl'
      rw [doActions_concat] at hrest ⊢
      exact hrest.trans (hgrow.run cfg hl')
    · have hj' : joins last y = false := by simpa [h.joinsAs y] using hj
      rw [Compaction.push_concat_of_not init hj']
      have hgood' : ∀ r ∈ init ++ [last] ++ [y], IsAccess r := by
        intro r hr
        rcases List.mem_append.mp hr with hr | hr
        · exact hgood r hr
        · rw [List.mem_singleton.mp hr]
          exact hy
      have hrest := ih (standsFor_self y) hchain' hgood' hl'
      rw [doActions_concat] at hrest
      exact hrest

lemma mergeRecords_alike (cfg : Switches) {sm : ShadowMemory} (hsm : Ready sm)
    {l : List MemOpRecord} (hl : ∀ r ∈ l, IsAccess r) (hchain : l.IsChain Mergeable) :
    Alike (doActions cfg sm (mergeRecords l)) (doActions cfg sm l) := by
  rw [mergeRecords_eq_sink, sink_eq_foldl]
  cases l with
  | nil => exact alike_refl hsm
  | cons x l =>
    have hx : ∀ r ∈ [] ++ [x], IsAccess r := by
      intro r hr
      rw [List.mem_singleton.mp hr]
      exact hl x (by simp)
    exact foldl_push_alike cfg hsm (standsFor_self x) hchain hx fun r hr => hl r (by simp [hr])

/-! ## The shadow memory after merged records -/

/-- Every byte has the same status and owner in two shadow memories. -/
def SameShadow (sm sm' : ShadowMemory) : Prop :=
  ∀ space a, a < addrLimit space → bitsAt sm space a = bitsAt sm' space a

/-- **Merging neighbours of one core keeps the shadow memory.** From every shadow memory that is
reached, the records that `MergeRecords` makes leave every byte of every space as the single records
do, when each record that is joined to its neighbour may be. -/
theorem mergeRecords_sameShadow (cfg : Switches) {sm : ShadowMemory} (h : Reachable sm)
    {l : List MemOpRecord} (hl : ∀ r ∈ l, IsAccess r) (hchain : l.IsChain Mergeable) :
    SameShadow (doActions cfg sm (mergeRecords l)) (doActions cfg sm l) :=
  fun space a ha =>
    ((mergeRecords_alike cfg (ready_of_reachable h) hl hchain).shows.bits space a ha).symm

def gmStore (coreId : ℤ) (dstAddr : ℕ) : MemOpRecord where
  type := .store
  coreId := coreId
  dstAddr := dstAddr
  dstSpace := .gm
  memSize := 4
  side := .kernel

lemma gmStore_isAccess (coreId : ℤ) {dstAddr : ℕ} (h : dstAddr < 2 ^ 64) :
    IsAccess (gmStore coreId dstAddr) :=
  ⟨Or.inr (Or.inl rfl), h, show 4 < 2 ^ 64 by norm_num⟩

lemma gmStore_inMap (coreId : ℤ) {dstAddr : ℕ} (h : dstAddr < 2 ^ 32) :
    InMap (gmStore coreId dstAddr) := by
  intro _ _
  have := setLimit_eq
  change dstAddr + 4 ≤ setLimit
  omega

def memCheckSwitches : Switches where
  config := { memCheck := true, outOfBoundCheck := true }
  mask := 0
  ignoreShadowMemory := false

theorem mergeRecords_sameShadow_one_core :
    mergeRecords [gmStore 1 0, gmStore 1 4] = [{ gmStore 1 0 with memSize := 8 }] ∧
      SameShadow
        (doActions memCheckSwitches .new (mergeRecords [gmStore 1 0, gmStore 1 4]))
        (doActions memCheckSwitches .new [gmStore 1 0, gmStore 1 4]) := by
  refine ⟨rfl, mergeRecords_sameShadow memCheckSwitches .new ?_ (by decide)⟩
  simp only [List.mem_cons, List.not_mem_nil, or_false, forall_eq_or_imp, forall_eq]
  exact ⟨gmStore_isAccess 1 (by decide), gmStore_isAccess 1 (by decide)⟩

/-- **A merged store gives the bytes of one core to another.** Core 0 stores to the first four bytes
and core 1 to the next four; merged, all eight are owned by core 0. -/
theorem mergeRecords_changes_owner :
    ¬ ∀ (cfg : Switches) (sm : ShadowMemory) (l : List MemOpRecord), Reachable sm →
      (∀ r ∈ l, IsAccess r) →
        SameShadow (doActions cfg sm (mergeRecords l)) (doActions cfg sm l) := by
  intro hall
  have hshows := shows_self (ready_of_reachable .new)
  have hnew : bitsAt .new .gm 4 = defaultValue := by
    change (GmPM.new defaultValue).getBits 4 = defaultValue
    exact gm_new_getBits _ (by decide)
  have hgood : ∀ c a, a < 2 ^ 32 → IsAccess (gmStore c a) ∧ InMap (gmStore c a) :=
    fun c a ha => ⟨gmStore_isAccess c (ha.trans (by decide)), gmStore_inMap c ha⟩
  have hmerged : mergeRecords [gmStore 0 0, gmStore 1 4] = [{ gmStore 0 0 with memSize := 8 }] :=
    rfl
  have hin : InMap { gmStore 0 0 with memSize := 8 } := by
    intro _ _
    have := setLimit_eq
    change 0 + 8 ≤ setLimit
    omega
  have h := hall memCheckSwitches .new [gmStore 0 0, gmStore 1 4] .new
    (by simp [(hgood 0 0 (by decide)).1, (hgood 1 4 (by decide)).1]) .gm 4 (by decide)
  have hone := hshows.step memCheckSwitches
    (⟨Or.inr (Or.inl rfl), by decide, by decide⟩ : IsAccess { gmStore 0 0 with memSize := 8 }) hin
  have htwo := (hshows.step memCheckSwitches (hgood 0 0 (by decide)).1
    (hgood 0 0 (by decide)).2).step memCheckSwitches (hgood 1 4 (by decide)).1
    (hgood 1 4 (by decide)).2
  rw [hmerged] at h
  simp only [doActions, List.foldl_cons, List.foldl_nil] at h
  rw [hone.bits .gm 4 (by decide), htwo.bits .gm 4 (by decide)] at h
  simp only [act, hnew] at h
  revert h
  decide

end MsSanitizer.MergedShadow
