import MsSanitizer.ShadowBytes

/-!
The fast path of `LoadNBytes` against the scan it replaces.

`LoadNBytes` first asks the map whether the range holds any undefined byte and returns when
it does not. The answer comes from index arithmetic of its own, which misses the end of the
address space and the last block of a chunk that has a map.
-/

namespace MsSanitizer.ShadowScan

open MsSanitizer.RecordDefs MsSanitizer.Words MsSanitizer.RangeWrites MsSanitizer.Pm
open MsSanitizer.GmBytes MsSanitizer.Shadow MsSanitizer.Shadow.ShadowMemory
open MsSanitizer.ShadowBytes

/-- The shadow memories that the operations of the address sanitizer reach. -/
inductive Reachable : ShadowMemory → Prop
  | new : Reachable ShadowMemory.new
  | init {sm : ShadowMemory} (h : Reachable sm) (deviceType : DeviceType) (chipInfo : ChipInfo) :
      Reachable (sm.init deviceType chipInfo)
  | resetChip {sm : ShadowMemory} (h : Reachable sm) : Reachable sm.resetChipMemory
  | resetPrivate {sm : ShadowMemory} (h : Reachable sm) : Reachable sm.resetPrivateMemory
  | setAtomic {sm : ShadowMemory} (h : Reachable sm) (enabled : Bool) :
      Reachable (sm.setAtomic enabled)
  | store {sm : ShadowMemory} (h : Reachable sm) (r : MemOpRecordForShadow)
      (memCheck outOfBoundCheck : Bool) (ha : r.dstAddr < 2 ^ 64) (hs : r.memSize < 2 ^ 64) :
      Reachable (sm.storeNBytes r memCheck outOfBoundCheck).2
  | makeMemUndefined {sm : ShadowMemory} (h : Reachable sm) {addr size : ℕ} (ha : addr < 2 ^ 64)
      (hs : size < 2 ^ 64) : Reachable (sm.makeMemUndefined addr size)
  | clearBlockId {sm : ShadowMemory} (h : Reachable sm) {addr size : ℕ} (ha : addr < 2 ^ 64)
      (hs : size < 2 ^ 64) : Reachable (sm.clearBlockId addr size)
  | addHeapBlock {sm : ShadowMemory} (h : Reachable sm) (record : MemOpRecord) :
      Reachable (sm.addHeapBlock record).2
  | freeHeapBlock {sm : ShadowMemory} (h : Reachable sm) (record : MemOpRecord) :
      Reachable (sm.freeHeapBlock record).2.2
  | checkUnusedMem {sm : ShadowMemory} (h : Reachable sm) (addr size : ℕ) :
      Reachable (sm.checkUnusedMem addr size).2

/-- A store to another space leaves the global map alone. -/
lemma putMemMap_gm_of_ne (sm : ShadowMemory) {space : AddressSpace} (h : space ≠ .gm)
    (memmap : MemMap) : (sm.putMemMap space memmap).gm = sm.gm := by
  cases space <;> cases memmap <;> first | rfl | exact absurd rfl h

lemma storeNBytes_gm_of_ne (sm : ShadowMemory) (r : MemOpRecordForShadow)
    (memCheck outOfBoundCheck : Bool) (h : r.dstSpace ≠ .gm) :
    (sm.storeNBytes r memCheck outOfBoundCheck).2.gm = sm.gm := by
  unfold storeNBytes
  by_cases hskip : skipSpace r.dstSpace = true
  · rw [if_pos hskip]
  · rw [if_neg hskip]
    cases hm : sm.getMemMap r.dstSpace with
    | none => rfl
    | some memmap =>
      simp only
      split_ifs <;> exact putMemMap_gm_of_ne sm h _

lemma storeNBytes_gm (sm : ShadowMemory) (r : MemOpRecordForShadow)
    (memCheck outOfBoundCheck : Bool) (h : r.dstSpace = .gm) {addr size n : ℕ} {gm' : GmPM}
    (hv : sm.validateRange .gm r.dstAddr r.memSize = (addr, size))
    (hs : storeNBytesInRange sm.atomicEnabled (.global sm.gm) addr size .gm r.coreId.toUInt8
      outOfBoundCheck = ⟨.global gm', n⟩) :
    sm.storeNBytes r memCheck outOfBoundCheck =
      (if memCheck ∧ 0 < n then
        [makeBadBytesMsg .outOfBounds .gm addr n r.isSimt r.mainScalarPc false] else [],
        { sm with gm := gm' }) := by
  unfold storeNBytes
  simp only [h, skipSpace, hv, getMemMap, hs, putMemMap]
  cases memCheck
  · simp
  · by_cases hn : 0 < n
    · simp [hn]
    · simp [hn]

lemma checkUnusedMem_gm (sm : ShadowMemory) (addr size : ℕ) :
    (sm.checkUnusedMem addr size).2.gm = sm.gm := by
  unfold checkUnusedMem
  simp only
  split_ifs <;> rfl

/-- Every reachable shadow memory has a well formed global map. -/
lemma Reachable.wf {sm : ShadowMemory} (h : Reachable sm) : Wf sm.gm := by
  induction h with
  | new => exact wf_new _
  | init _ _ _ ih => exact ih
  | resetChip _ ih => exact ih
  | resetPrivate _ ih => exact ih
  | setAtomic _ _ ih => exact ih
  | @store sm _ r memCheck outOfBoundCheck ha hs ih =>
    by_cases hgm : r.dstSpace = .gm
    · have hle := validateRange_gm_le sm r.dstAddr hs
      obtain ⟨gm', n, heq, hw⟩ := storeNBytesInRange_wf ih sm.atomicEnabled r.coreId.toUInt8
        outOfBoundCheck hle
      rw [storeNBytes_gm sm r memCheck outOfBoundCheck hgm rfl heq]
      exact hw
    · rw [storeNBytes_gm_of_ne sm r memCheck outOfBoundCheck hgm]
      exact ih
  | @makeMemUndefined sm _ addr size ha hs ih =>
    exact wf_set ih _ (validateRange_gm_le sm addr hs)
  | @clearBlockId sm _ addr size ha hs ih =>
    have hM := globalMemMask_eq
    have hle := validateRange_gm_le sm addr hs
    unfold ShadowMemory.clearBlockId
    simp only
    rw [add64_eq (by omega)]
    exact clearLoop_wf ih hle
  | @addHeapBlock sm _ record ih =>
    unfold ShadowMemory.addHeapBlock
    split_ifs <;> exact ih
  | @freeHeapBlock sm _ record ih =>
    unfold ShadowMemory.freeHeapBlock
    split_ifs <;> exact ih
  | @checkUnusedMem sm _ addr size ih =>
    rw [checkUnusedMem_gm]
    exact ih

/-! ### The two ways to look for a status -/

/-- Whether the scan by unified ranges meets a byte of the status. -/
def scanHasStatus (gm : GmPM) (addr size : ℕ) (s : MemStatus) : Bool :=
  0 < (MemMap.global gm).countUnified addr size fun bits => getMemStatus bits == s

/-- `LoadNBytes` without its fast path. -/
def loadNBytesByScan (sm : ShadowMemory) (r : MemOpRecordForShadow) (initCheck : Bool) :
    List ErrorMsg :=
  if skipSpace r.dstSpace then []
  else if initCheck && r.dstSpace == .ub && isAscend95 sm.deviceType then []
  else
    let (addr, size) := sm.validateRange r.dstSpace r.dstAddr r.memSize
    match sm.getMemMap r.dstSpace with
    | none => []
    | some memmap => loadScan memmap r addr size initCheck

/-- Byte `addr + k` of the range has the status. -/
def HasStatus (gm : GmPM) (s : MemStatus) (a : ℕ) : Prop := getMemStatus (gm.getBits a) = s

/-- What the fast path needs: if a byte of the range has the status, then the range ends by
the limit and one of these bytes lies in a piece that is really scanned. -/
def FastPathSees (gm : GmPM) (addr size : ℕ) (s : MemStatus) : Prop :=
  (∃ k < size, HasStatus gm s (addr + k)) →
    addr + size ≤ setLimit ∧ ∃ k < size, Seen gm (addr + size) (addr + k) ∧
      HasStatus gm s (addr + k)

lemma scanHasStatus_iff {gm : GmPM} (h : Wf gm) {addr size : ℕ} (s : MemStatus)
    (hend : addr + size ≤ globalMemMask) :
    scanHasStatus gm addr size s = true ↔ ∃ k < size, HasStatus gm s (addr + k) := by
  unfold scanHasStatus
  rw [decide_eq_true_iff, countUnified_eq h hend, countBytes, Nat.pos_iff_ne_zero, ne_eq,
    Nat.count_iff_forall_not]
  push Not
  simp only [beq_iff_eq, HasStatus]

lemma rangeHasStatus_eq_scan_iff {gm : GmPM} (h : Wf gm) {addr size : ℕ} (s : MemStatus)
    (hend : addr + size ≤ globalMemMask) :
    gm.rangeHasStatus addr size s.code = scanHasStatus gm addr size s ↔
      FastPathSees gm addr size s := by
  rw [Bool.eq_iff_iff, h.rangeHasStatus_iff s hend, scanHasStatus_iff h s hend]
  constructor
  · intro hiff hex
    exact hiff.mpr hex
  · intro hsee
    refine ⟨?_, hsee⟩
    rintro ⟨-, k, hk, -, hks⟩
    exact ⟨k, hk, hks⟩

lemma loadScan_eq_nil_iff (gm : GmPM) (r : MemOpRecordForShadow) (addr size : ℕ) :
    loadScan (.global gm) r addr size true = [] ↔
      scanHasStatus gm addr size .undefined = false := by
  unfold loadScan scanHasStatus
  simp only [Bool.true_and]
  split_ifs with h
  · simp [h]
  · simp [h]

/-- A global load is the fast path in front of the scan. -/
lemma loadNBytes_gm (sm : ShadowMemory) {r : MemOpRecordForShadow} (hgm : r.dstSpace = .gm)
    {addr size : ℕ} (hv : sm.validateRange .gm r.dstAddr r.memSize = (addr, size)) :
    sm.loadNBytes r true = (if sm.gm.rangeHasStatus addr size MemStatus.undefined.code = true then
        loadScan (.global sm.gm) r addr size true else []) ∧
      loadNBytesByScan sm r true = loadScan (.global sm.gm) r addr size true := by
  have hub : (AddressSpace.gm == AddressSpace.ub) = false := rfl
  have hun : (AddressSpace.gm == AddressSpace.unknown) = false := rfl
  unfold loadNBytes loadNBytesByScan
  simp only [hgm, skipSpace, hv, getMemMap, MemMap.rangeHasStatus, hub, hun, Bool.false_eq_true,
    if_false, Bool.and_false, Bool.false_and, Bool.true_and, and_true]
  rcases sm.gm.rangeHasStatus addr size MemStatus.undefined.code with _ | _
  · simp
  · simp

lemma loadNBytes_eq_scan_iff {sm : ShadowMemory} (h : Wf sm.gm) {r : MemOpRecordForShadow}
    (hgm : r.dstSpace = .gm) {addr size : ℕ} (hend : addr + size ≤ globalMemMask)
    (hv : sm.validateRange .gm r.dstAddr r.memSize = (addr, size)) :
    sm.loadNBytes r true = loadNBytesByScan sm r true ↔
      FastPathSees sm.gm addr size .undefined := by
  obtain ⟨hfast, hscan⟩ := loadNBytes_gm sm hgm hv
  have hnil := loadScan_eq_nil_iff sm.gm r addr size
  rw [hfast, hscan, ← rangeHasStatus_eq_scan_iff h _ hend]
  rcases hf : sm.gm.rangeHasStatus addr size MemStatus.undefined.code with _ | _
  · rw [if_neg (by simp), eq_comm, hnil, eq_comm]
  · -- what the fast path finds, the scan finds
    have hfound : scanHasStatus sm.gm addr size .undefined = true := by
      obtain ⟨-, k, hk, -, hks⟩ := (h.rangeHasStatus_iff _ hend).mp hf
      exact (scanHasStatus_iff h _ hend).mpr ⟨k, hk, hks⟩
    rw [if_pos rfl, hfound]
    simp

/-- **When the fast path is exact.** In every reachable shadow memory and for every global
range, `RangeHasStatus` agrees with the scan, and `LoadNBytes` reports what it would report
without its fast path, exactly when the fast path sees one of the bytes it looks for. -/
theorem fastPath_exact_iff {sm : ShadowMemory} (h : Reachable sm) {addr size : ℕ}
    (hend : addr + size ≤ globalMemMask) (r : MemOpRecordForShadow) (hgm : r.dstSpace = .gm)
    (ha : r.dstAddr = addr) (hs : r.memSize = size) :
    (∀ s : MemStatus, sm.gm.rangeHasStatus addr size s.code = scanHasStatus sm.gm addr size s ↔
      FastPathSees sm.gm addr size s) ∧
    (sm.loadNBytes r true = loadNBytesByScan sm r true ↔
      FastPathSees sm.gm addr size .undefined) := by
  refine ⟨fun s => rangeHasStatus_eq_scan_iff h.wf s hend, ?_⟩
  refine loadNBytes_eq_scan_iff h.wf hgm hend ?_
  rw [ha, hs]
  exact validateRange_gm_of_le sm hend

/-- A range of a fresh shadow memory. -/
theorem fastPath_exact_iff_at : (ShadowMemory.new.gm.rangeHasStatus 100 8 MemStatus.undefined.code
    = scanHasStatus ShadowMemory.new.gm 100 8 .undefined) := by
  refine ((fastPath_exact_iff .new (by decide) ⟨.gm, 100, 8, 0, 0, 0, false⟩ rfl rfl rfl).1
    .undefined).mpr fun ⟨k, hk, hks⟩ => ⟨by decide, k, hk, Or.inl rfl, hks⟩

/-- One byte of a fresh shadow memory, past the limit: it is undefined and is not seen. -/
theorem fastPath_misses : Reachable ShadowMemory.new ∧
    2 ^ 48 - 2 ^ 36 + 1 + 1 ≤ globalMemMask ∧
    ¬ (ShadowMemory.new.gm.rangeHasStatus (2 ^ 48 - 2 ^ 36 + 1) 1 MemStatus.undefined.code
      = scanHasStatus ShadowMemory.new.gm (2 ^ 48 - 2 ^ 36 + 1) 1 .undefined) := by
  have hend : 2 ^ 48 - 2 ^ 36 + 1 + 1 ≤ globalMemMask := by decide
  refine ⟨.new, hend, fun h => ?_⟩
  have hsee := (rangeHasStatus_eq_scan_iff Reachable.new.wf .undefined hend).mp h
  have hund : HasStatus ShadowMemory.new.gm .undefined (2 ^ 48 - 2 ^ 36 + 1 + 0) := by
    unfold HasStatus
    rw [show ShadowMemory.new.gm = GmPM.new defaultValue from rfl, gm_new_getBits _ (by decide)]
    decide
  exact absurd (hsee ⟨0, by decide, hund⟩).1 (by decide)

end MsSanitizer.ShadowScan
