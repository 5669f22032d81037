import Mathlib.Data.List.DropRight
import MsSanitizer.DeviceSessions

/-!
# The checks at exit

`Exit` looks at the heap blocks that are left: blocks with bytes that were never written, and blocks
that were never freed. Here the second check is compared with the records of a session. Only records
of the runtime, the ACL and the HAL count for it, whatever else the sanitizer is given.
-/

namespace MsSanitizer.ExitChecks

open MsSanitizer.RecordDefs MsSanitizer.Shadow MsSanitizer.Shadow.ShadowMemory
open MsSanitizer.HeapBlocks MsSanitizer.HeapBlocks.HeapBlockManager
open MsSanitizer.AsanAction MsSanitizer.AsanAction.AddressSanitizer MsSanitizer.AsanAccess
open MsSanitizer.HeapCoverage (addHeapBlock_of_real freeHeapBlock_of_real freeUnused_blocks
  freeClear_blocks)

/-! ### `Exit` -/

/-- One turn of the loop of `CheckUnusedHeap`. -/
def checkUnusedBlock (state : List ErrorMsg × ShadowMemory) (block : HeapBlock) :
    List ErrorMsg × ShadowMemory :=
  let (errMsg, sm) := state.2.checkUnusedMem block.addr block.len
  if errMsg.isError then
    (state.1 ++
      [{ errMsg with auxData := { errMsg.auxData with serialNo := block.serialNo } }], sm)
  else (state.1, sm)

def checkUnusedHeap (sm : ShadowMemory) : List ErrorMsg × ShadowMemory :=
  (sm.heapBlockManager.heapBlocks.toList.map Prod.snd).foldl checkUnusedBlock ([], sm)

/-- What a summary says: its messages, the number of bytes and the number of allocations. The
counters of bytes are 64-bit numbers. -/
structure Summary where
  errors : List ErrorMsg
  bytes : ℕ
  allocations : ℕ

/-- `SummaryUnusedHeapCheck`; its output needs a registered function. -/
def summaryUnusedHeapCheck (sm : ShadowMemory) (registered : Bool) :
    Option Summary × ShadowMemory :=
  let (errNoUse, sm) := checkUnusedHeap sm
  let badHeap := sm.unusedHeap
  if 0 < badHeap.blockNum && registered then
    (some ⟨errNoUse, badHeap.bytesNotUse % 2 ^ 64, badHeap.blockNum⟩, sm)
  else (none, sm)

def summaryLeakCheck (sm : ShadowMemory) (registered : Bool) : Option Summary :=
  let msgs := sm.heapBlockManager.doLeakCheck
  if msgs.isEmpty then none
  else if registered then
    some ⟨msgs, (msgs.map fun msg => msg.auxData.nBadBytes).sum % 2 ^ 64, msgs.length⟩
  else none

/-- What `Exit` gives out: unused memory as a warning, leaks as an error. -/
structure ExitReport where
  unused : Option Summary := none
  leaks : Option Summary := none

/-- `Exit`, with the switch for leaks. -/
def exit (s : AddressSanitizer) (leakCheck registered : Bool) : ExitReport :=
  let (unused, sm) :=
    if s.config.memCheck && s.config.checkUnusedMemory then
      summaryUnusedHeapCheck s.shadowMemory registered
    else (none, s.shadowMemory)
  { unused := unused, leaks := if leakCheck then summaryLeakCheck sm registered else none }

/-! ### What a session leaves behind -/

def isSetup (device : ℤ) : Input → Bool
  | .deviceInfo d _ _ => d == device
  | _ => false

/-- The record of the host that an input gives to a device. -/
def recordOf (device : ℤ) : Input → Option MemOpRecord
  | .host d r => if d = device then some r.record else none
  | _ => none

/-- The records that the sanitizer of a device gets: those after the device was set up first. -/
def hostRecords (device : ℤ) (inputs : List Input) : List MemOpRecord :=
  (inputs.dropWhile fun i => !isSetup device i).filterMap (recordOf device)

/-- A record that allocates global memory at an address. -/
def mallocs (addr : ℕ) (record : MemOpRecord) : Bool :=
  record.type == .malloc && record.dstSpace == .gm && isRealMalloc record.infoSrc &&
    record.dstAddr == addr

/-- A record that frees the global memory at an address. -/
def frees (addr : ℕ) (record : MemOpRecord) : Bool :=
  record.type == .free && record.dstSpace == .gm && isRealMalloc record.infoSrc &&
    record.dstAddr == addr

/-- The record of the allocation that is live at an address: the first one since the last FREE. -/
def allocated (records : List MemOpRecord) (addr : ℕ) : Option MemOpRecord :=
  (records.rtakeWhile fun record => !frees addr record).find? (mallocs addr)

lemma allocated_concat (records : List MemOpRecord) (record : MemOpRecord) (addr : ℕ) :
    allocated (records ++ [record]) addr =
      if frees addr record then none
      else (allocated records addr).or (if mallocs addr record then some record else none) := by
  unfold allocated
  rw [List.rtakeWhile_concat]
  cases hf : frees addr record with
  | true => rfl
  | false =>
    rw [if_pos (by rfl), List.find?_append, List.find?_singleton]
    rfl

lemma frees_iff {addr : ℕ} {record : MemOpRecord} : frees addr record = true ↔
    record.type = .free ∧ record.dstSpace = .gm ∧ isRealMalloc record.infoSrc = true ∧
      record.dstAddr = addr := by
  simp [frees, and_assoc]

lemma mallocs_iff {addr : ℕ} {record : MemOpRecord} : mallocs addr record = true ↔
    record.type = .malloc ∧ record.dstSpace = .gm ∧ isRealMalloc record.infoSrc = true ∧
      record.dstAddr = addr := by
  simp [mallocs, and_assoc]

/-! ### Blocks -/

def changed (addr : ℕ) (block : Option HeapBlock) (record : MemOpRecord) : Option HeapBlock :=
  if frees addr record then none
  else block.or (if mallocs addr record then some (.ofRecord record) else none)

/-- Records of other sources or for other spaces change no block. -/
lemma changed_of_not {addr : ℕ} {record : MemOpRecord} (block : Option HeapBlock)
    (h : ¬ (record.dstSpace = .gm ∧ isRealMalloc record.infoSrc = true)) :
    changed addr block record = block := by
  have hf : ¬ frees addr record = true :=
    fun hf => h ⟨(frees_iff.mp hf).2.1, (frees_iff.mp hf).2.2.1⟩
  have hm : ¬ mallocs addr record = true :=
    fun hm => h ⟨(mallocs_iff.mp hm).2.1, (mallocs_iff.mp hm).2.2.1⟩
  rw [changed, if_neg hf, if_neg hm, Option.or_none]

lemma addHeapBlock_of_not_real (sm : ShadowMemory) {record : MemOpRecord}
    (h : isRealMalloc record.infoSrc = false) :
    (sm.addHeapBlock record).2.heapBlockManager.heapBlocks = sm.heapBlockManager.heapBlocks := by
  unfold ShadowMemory.addHeapBlock HeapBlockManager.addHeapBlock getHeapType
  cases hs : record.infoSrc with
  | mstxHeap =>
    simp only [reduceCtorEq, if_false, addMstxHeapBlock]
    split
    · rfl
    · split_ifs <;> rfl
  | mstxRegion =>
    simp only [reduceCtorEq, if_false, addMstxRegionBlock]
    split_ifs <;> rfl
  | hal | rt | acl =>
    rw [hs] at h
    cases h
  | _ => simp [addRtDfxBlock, isDfx, hs]

lemma freeHeapBlock_of_not_real (sm : ShadowMemory) {record : MemOpRecord}
    (h : isRealMalloc record.infoSrc = false) :
    (sm.freeHeapBlock record).2.2.heapBlockManager.heapBlocks =
      sm.heapBlockManager.heapBlocks := by
  unfold ShadowMemory.freeHeapBlock HeapBlockManager.freeHeapBlock getHeapType
  cases hs : record.infoSrc with
  | mstxHeap =>
    simp only [reduceCtorEq, if_false, freeMstxHeapBlock]
    split <;> rfl
  | mstxRegion =>
    simp only [reduceCtorEq, if_false, freeMstxRegionBlock]
    split <;> rfl
  | hal | rt | acl =>
    rw [hs] at h
    cases h
  | bypass => simp
  | extra | manual =>
    simp only [reduceCtorEq, if_false, freeRtDfxBlock, isDfx, hs, if_true]
    split
    · rfl
    · simp [deleteMstxInfo, hs, isRealMalloc]

lemma addIfNew_getElem? (blocks : Std.TreeMap ℕ HeapBlock) (record : MemOpRecord) (addr : ℕ) :
    (addIfNew blocks record)[addr]? =
      (blocks[addr]?).or (if record.dstAddr = addr then some (.ofRecord record) else none) := by
  unfold addIfNew
  cases hb : blocks[record.dstAddr]? with
  | none =>
    dsimp only
    rw [Std.TreeMap.getElem?_insert]
    by_cases ha : record.dstAddr = addr
    · subst ha
      simp [hb]
    · simp [ha]
  | some block =>
    by_cases ha : record.dstAddr = addr
    · subst ha
      simp [hb]
    · simp [ha]

lemma doAction_getElem? (r : HeapRecord) (sm : ShadowMemory) (bounds : List Bounds.Range)
    (config : Config) (addr : ℕ) :
    (r.doAction sm bounds config false).shadowMemory.heapBlockManager.heapBlocks[addr]? =
      changed addr sm.heapBlockManager.heapBlocks[addr]? r.record := by
  by_cases hgm : r.record.dstSpace = .gm
  · cases hreal : isRealMalloc r.record.infoSrc with
    | false =>
      rw [changed_of_not _ (by simp [hreal])]
      unfold HeapRecord.doAction
      cases r.action with
      | malloc =>
        simp only [asanMalloc, hgm, ne_eq, not_true_eq_false, if_false, Bool.false_eq_true]
        split_ifs <;> rw [addHeapBlock_of_not_real sm hreal]
      | free =>
        simp only [asanFree, hgm, ne_eq, not_true_eq_false, if_false, freeBlock,
          Bool.false_eq_true, freeClear_blocks, freeUnused_blocks]
        rw [freeHeapBlock_of_not_real sm hreal]
    | true =>
      have htype := r.type_eq
      unfold HeapRecord.doAction changed
      cases hact : r.action with
      | malloc =>
        rw [hact] at htype
        obtain ⟨hok, hblocks⟩ := addHeapBlock_of_real sm hreal
        simp only [asanMalloc, hgm, ne_eq, not_true_eq_false, if_false, hok, Bool.not_true,
          Bool.false_eq_true, hblocks, addIfNew_getElem?]
        simp [frees, mallocs, htype, HeapAction.type, hgm, hreal]
      | free =>
        rw [hact] at htype
        obtain ⟨hnone, hsome⟩ := freeHeapBlock_of_real sm hreal
        simp only [asanFree, hgm, ne_eq, not_true_eq_false, if_false, freeBlock,
          Bool.false_eq_true, freeClear_blocks, freeUnused_blocks]
        cases hb : sm.heapBlockManager.heapBlocks[r.record.dstAddr]? with
        | none =>
          rw [(hnone hb).2]
          by_cases ha : r.record.dstAddr = addr
          · subst ha
            simp [hb, mallocs, htype, HeapAction.type]
          · simp [frees, mallocs, htype, HeapAction.type, ha]
        | some block =>
          rw [(hsome block hb).2, Std.TreeMap.getElem?_erase]
          by_cases ha : r.record.dstAddr = addr
          · subst ha
            simp [frees, htype, HeapAction.type, hgm, hreal]
          · simp [frees, mallocs, htype, HeapAction.type, ha]
  · rw [changed_of_not _ (by simp [hgm])]
    unfold HeapRecord.doAction
    cases r.action with
    | malloc => simp [asanMalloc, hgm]
    | free => simp [asanFree, hgm]

/-- The first pass of a bypassed record leaves the blocks alone. -/
lemma doAction_ignore (r : HeapRecord) (sm : ShadowMemory) (bounds : List Bounds.Range)
    (config : Config) : (r.doAction sm bounds config true).shadowMemory = sm := by
  unfold HeapRecord.doAction
  cases r.action with
  | malloc =>
    simp only [asanMalloc, if_true, Bool.not_true, Bool.false_eq_true, if_false]
    split_ifs <;> rfl
  | free =>
    simp only [asanFree, freeBlock, freeUnused, freeClear, if_true, Bool.not_true, Bool.and_false,
      Bool.false_and, Bool.false_eq_true, if_false]
    split_ifs <;> rfl

/-- **A record of the host** changes the block at its address. -/
lemma process_getElem? (s : AddressSanitizer) (r : HeapRecord) (addr : ℕ) :
    (s.process r).2.blocks[addr]? = changed addr s.blocks[addr]? r.record := by
  unfold process scopeDoAction Scopes.beforeScopeSwitch
  cases memInfoToScope r.record.infoSrc with
  | bypass =>
    dsimp only
    rw [doAction_ignore]
    exact doAction_getElem? r s.shadowMemory s.boundsCheckRuntime s.config addr
  | dfx => exact doAction_getElem? r s.shadowMemory s.boundsCheckDfx s.config addr
  | runtime => exact doAction_getElem? r s.shadowMemory s.boundsCheckRuntime s.config addr

/-! ### Runs -/

section

variable {device : ℤ} {inputs : List Input} {i : Input}

lemma recordOf_of_isSetup (h : isSetup device i = true) : recordOf device i = none := by
  cases i <;> first | rfl | cases h

lemma hostRecords_of_not (h : inputs.any (isSetup device) = false) :
    hostRecords device inputs = [] := by
  have hnil : (inputs.dropWhile fun i => !isSetup device i) = [] := by
    rw [List.dropWhile_eq_nil_iff]
    intro x hx
    have hno := List.any_eq_false.mp h x hx
    simpa using hno
  rw [hostRecords, hnil, List.filterMap_nil]

lemma hostRecords_concat (h : inputs.any (isSetup device) = true) :
    hostRecords device (inputs ++ [i]) =
      hostRecords device inputs ++ (recordOf device i).toList := by
  have hne : (inputs.dropWhile fun i => !isSetup device i) ≠ [] := by
    rw [ne_eq, List.dropWhile_eq_nil_iff]
    intro hall
    obtain ⟨x, hx, hset⟩ := List.any_eq_true.mp h
    simpa [hset] using hall x hx
  unfold hostRecords
  rw [List.dropWhile_append, if_neg (by simpa using hne), List.filterMap_append]
  cases hr : recordOf device i <;> simp [hr]

end

section

variable (env : Env) (p : HostProcess) (mask : ℕ) (device : ℤ)

lemma doAction_heap (sm : ShadowMemory) (ignoreShadowMemory : Bool) (record : MemOpRecord) :
    (env.doAction sm ignoreShadowMemory record).2.heapBlockManager = sm.heapBlockManager ∧
      (env.doAction sm ignoreShadowMemory record).2.unusedHeap = sm.unusedHeap := by
  unfold Env.doAction
  cases record.type with
  | store | memcpyBlocks => exact DeviceMemory.asanStore_heap _ _ _ _
  | _ => exact ⟨rfl, rfl⟩

/-- An access of a kernel leaves the blocks and the counters of unused memory alone. -/
lemma doMemOpRecord_heap (s : AddressSanitizer) (record : MemOpRecord) :
    (p.doMemOpRecord mask device s record).2.blocks = s.blocks ∧
      (p.doMemOpRecord mask device s record).2.shadowMemory.unusedHeap =
        s.shadowMemory.unusedHeap := by
  unfold HostProcess.doMemOpRecord
  cases s.scopes.scope with
  | bypass =>
    obtain ⟨hb, hu⟩ := doAction_heap (p.env mask device s s.boundsCheckDfx) s.shadowMemory true
      record
    obtain ⟨hb', hu'⟩ := doAction_heap (p.env mask device s s.boundsCheckRuntime)
      ((p.env mask device s s.boundsCheckDfx).doAction s.shadowMemory true record).2 false record
    exact ⟨congrArg heapBlocks (hb'.trans hb), hu'.trans hu⟩
  | dfx | runtime =>
    exact ⟨congrArg heapBlocks (doAction_heap _ _ _ _).1, (doAction_heap _ _ _ _).2⟩

lemma setDevice_devices (d : ℤ) (s : AddressSanitizer) :
    (p.setDevice d s).devices device = if device = d then some s else p.devices device := by
  unfold HostProcess.setDevice
  exact Function.update_apply _ _ _ _

lemma onDevice_devices (d : ℤ) (f : AddressSanitizer → List ErrorMsg × AddressSanitizer) :
    (p.onDevice d f).2.devices device =
      if device = d then (p.devices device).map fun s => (f s).2 else p.devices device := by
  unfold HostProcess.onDevice
  by_cases hd : device = d
  · subst hd
    rw [if_pos rfl]
    cases hs : p.devices device with
    | none => exact hs
    | some s => simp [setDevice_devices]
  · rw [if_neg hd]
    cases p.devices d with
    | none => rfl
    | some s => rw [setDevice_devices, if_neg hd]

end

/-- The blocks of a device, before it is set up none. -/
def blockAt (p : HostProcess) (device : ℤ) (addr : ℕ) : Option HeapBlock :=
  (p.devices device).bind fun s => s.blocks[addr]?

/-- **One input**: the device is set up and keeps its blocks, or it is there if it was there and a
record of the host changes its block. -/
lemma step_blocks (pid : ℤ) (config : Config) (mask : ℕ) (p : HostProcess) (i : Input)
    (device : ℤ) :
    ((AsanAccess.step pid config mask p i).2.devices device).isSome =
        (isSetup device i || (p.devices device).isSome) ∧
      ∀ addr, blockAt (AsanAccess.step pid config mask p i).2 device addr =
        match recordOf device i with
        | none => blockAt p device addr
        | some record =>
          if (p.devices device).isSome then changed addr (blockAt p device addr) record
          else none := by
  have hkeep : ∀ (d : ℤ) (f : AddressSanitizer → List ErrorMsg × AddressSanitizer),
      (∀ s, (f s).2.blocks = s.blocks) →
      ((p.onDevice d f).2.devices device).isSome = (p.devices device).isSome ∧
        ∀ addr, blockAt (p.onDevice d f).2 device addr = blockAt p device addr := by
    intro d f hf
    unfold blockAt
    rw [onDevice_devices]
    by_cases hd : device = d
    · cases hs : p.devices device <;> simp [hd, hf]
    · simp [hd]
  unfold AsanAccess.step
  cases i with
  | deviceInfo d type chipInfo =>
    unfold blockAt
    dsimp only [recordOf, isSetup]
    rw [setDevice_devices]
    by_cases hd : device = d
    · subst hd
      cases hs : p.devices device with
      | none =>
        refine ⟨by simp, fun addr => ?_⟩
        rw [if_pos rfl]
        exact Std.TreeMap.getElem?_emptyc
      | some s => exact ⟨by simp, fun addr => by simp [setDeviceInfo, ShadowMemory.init]⟩
    · simp [hd, Ne.symm hd]
  | peerAccess record => exact ⟨rfl, fun addr => rfl⟩
  | host d r =>
    unfold blockAt
    dsimp only [recordOf, isSetup]
    rw [onDevice_devices]
    by_cases hd : device = d
    · subst hd
      cases hs : p.devices device with
      | none => simp
      | some s => simpa using process_getElem? s r
    · simp [hd, Ne.symm hd]
  | atomic d enabled => exact hkeep d _ fun s => rfl
  | blockFinish d => exact hkeep d _ fun s => rfl
  | access d record => exact hkeep d _ fun s => (doMemOpRecord_heap p mask d s record).1

/-- **A run**: the blocks are those of the allocations that are live. -/
lemma run_blocks (pid : ℤ) (config : Config) (mask : ℕ) (device : ℤ) (inputs : List Input) :
    ((AsanAccess.run pid config mask inputs).devices device).isSome =
        inputs.any (isSetup device) ∧
      ∀ addr, blockAt (AsanAccess.run pid config mask inputs) device addr =
        (allocated (hostRecords device inputs) addr).map .ofRecord := by
  induction inputs using List.reverseRecOn with
  | nil => exact ⟨rfl, fun addr => rfl⟩
  | append_singleton pre i ih =>
    obtain ⟨hset, hblocks⟩ := ih
    obtain ⟨hset', hblocks'⟩ :=
      step_blocks pid config mask (AsanAccess.run pid config mask pre) i device
    rw [AsanAccess.run_concat]
    refine ⟨by rw [hset', hset, List.any_append, Bool.or_comm]; simp, fun addr => ?_⟩
    rw [hblocks', hset]
    cases hany : pre.any (isSetup device) with
    | true =>
      rw [hostRecords_concat hany]
      cases hr : recordOf device i with
      | none => simpa using hblocks addr
      | some record =>
        dsimp only
        rw [Option.toList_some, allocated_concat, if_pos rfl, hblocks, changed]
        split_ifs
        · rfl
        · cases allocated (hostRecords device pre) addr <;> rfl
        · cases allocated (hostRecords device pre) addr <;> rfl
    | false =>
      have hnone : hostRecords device (pre ++ [i]) = [] := by
        have hpre : ∀ x ∈ pre, (!isSetup device x) = true := by
          intro x hx
          simpa using List.any_eq_false.mp hany x hx
        rw [hostRecords, List.dropWhile_append, List.dropWhile_eq_nil_iff.mpr hpre,
          List.isEmpty_nil, if_pos rfl]
        cases hi : isSetup device i with
        | true => simp [hi, recordOf_of_isSetup hi]
        | false => simp [hi]
      have hold := hblocks addr
      rw [hostRecords_of_not hany] at hold
      rw [hnone]
      cases recordOf device i with
      | none => exact hold
      | some record => rfl

/-! ### Leaks -/

/-- The message about an allocation that was not freed. -/
def leakMsg (record : MemOpRecord) : ErrorMsg :=
  let msg := ErrorMsg.setType {} .memLeak .gm record.dstAddr
  { msg with
    auxData := { msg.auxData with
      nBadBytes := record.memSize
      moduleId := record.moduleId
      fileName := record.fileName
      lineNo := (record.lineNo % 2 ^ 32).toNat
      serialNo := record.serialNo } }

lemma checkUnusedMem_blocks (sm : ShadowMemory) (addr size : ℕ) :
    (sm.checkUnusedMem addr size).2.heapBlockManager = sm.heapBlockManager := by
  unfold ShadowMemory.checkUnusedMem
  dsimp only
  split_ifs <;> rfl

lemma checkUnusedBlocks_blocks (blocks : List HeapBlock) (state : List ErrorMsg × ShadowMemory) :
    (blocks.foldl checkUnusedBlock state).2.heapBlockManager = state.2.heapBlockManager := by
  induction blocks generalizing state with
  | nil => rfl
  | cons block blocks ih =>
    have hstep : (checkUnusedBlock state block).2.heapBlockManager = state.2.heapBlockManager := by
      unfold checkUnusedBlock
      dsimp only
      split_ifs <;> exact checkUnusedMem_blocks _ _ _
    rw [List.foldl_cons, ih, hstep]

lemma summaryUnusedHeapCheck_blocks (sm : ShadowMemory) (registered : Bool) :
    (summaryUnusedHeapCheck sm registered).2.heapBlockManager = sm.heapBlockManager := by
  unfold summaryUnusedHeapCheck
  dsimp only
  split_ifs <;> exact checkUnusedBlocks_blocks _ _

lemma summaryLeakCheck_eq (sm : ShadowMemory) (registered : Bool) :
    summaryLeakCheck sm registered =
      if registered = true ∧ sm.heapBlockManager.doLeakCheck ≠ [] then
        some ⟨sm.heapBlockManager.doLeakCheck,
          (sm.heapBlockManager.doLeakCheck.map fun msg => msg.auxData.nBadBytes).sum % 2 ^ 64,
          sm.heapBlockManager.doLeakCheck.length⟩
      else none := by
  unfold summaryLeakCheck
  cases registered <;> cases sm.heapBlockManager.doLeakCheck <;> rfl

/-- The check for unused memory leaves the blocks to the check for leaks. -/
lemma exit_leaks (s : AddressSanitizer) (leakCheck registered : Bool) :
    (exit s leakCheck registered).leaks =
      if leakCheck then summaryLeakCheck s.shadowMemory registered else none := by
  have hsame : ∀ sm, sm.heapBlockManager = s.shadowMemory.heapBlockManager →
      summaryLeakCheck sm registered = summaryLeakCheck s.shadowMemory registered := by
    intro sm hsm
    rw [summaryLeakCheck_eq, summaryLeakCheck_eq, hsm]
  unfold exit
  cases leakCheck with
  | false => rfl
  | true =>
    cases s.config.memCheck && s.config.checkUnusedMemory with
    | true => exact hsame _ (summaryUnusedHeapCheck_blocks _ _)
    | false => rfl

lemma mallocs_of_allocated {records : List MemOpRecord} {addr : ℕ} {record : MemOpRecord}
    (h : allocated records addr = some record) : mallocs addr record = true :=
  List.find?_some h

/-- The live allocations, in the order of the map of blocks. -/
lemma live_records (pid : ℤ) (config : Config) (mask : ℕ) (inputs : List Input) (device : ℤ)
    {s : AddressSanitizer}
    (hs : (AsanAccess.run pid config mask inputs).devices device = some s) :
    ∃ live : List MemOpRecord, live.Pairwise (fun r r' => r.dstAddr < r'.dstAddr) ∧
      (∀ record, record ∈ live ↔
        allocated (hostRecords device inputs) record.dstAddr = some record) ∧
      (∀ record ∈ live, s.blocks[record.dstAddr]? = some (.ofRecord record)) ∧
      s.blocks.toList.map Prod.snd = live.map .ofRecord := by
  have hblocks : ∀ addr, s.blocks[addr]? =
      (allocated (hostRecords device inputs) addr).map .ofRecord := by
    intro addr
    rw [← (run_blocks pid config mask device inputs).2 addr, blockAt, hs]
    rfl
  let recordAt := fun it : ℕ × HeapBlock =>
    (allocated (hostRecords device inputs) it.1).getD {}
  have hat : ∀ it ∈ s.blocks.toList, allocated (hostRecords device inputs) it.1 =
      some (recordAt it) ∧ (recordAt it).dstAddr = it.1 ∧ it.2 = .ofRecord (recordAt it) := by
    rintro ⟨addr, block⟩ hmem
    have hblock := Std.TreeMap.mem_toList_iff_getElem?_eq_some.mp hmem
    rw [hblocks] at hblock
    obtain ⟨record, hrecord, rfl⟩ := Option.map_eq_some_iff.mp hblock
    have hget : recordAt (addr, .ofRecord record) = record := by simp [recordAt, hrecord]
    rw [hget]
    exact ⟨hrecord, (mallocs_iff.mp (mallocs_of_allocated hrecord)).2.2.2, rfl⟩
  have hmem : ∀ record, record ∈ s.blocks.toList.map recordAt ↔
      allocated (hostRecords device inputs) record.dstAddr = some record := by
    intro record
    rw [List.mem_map]
    constructor
    · rintro ⟨it, hit, rfl⟩
      obtain ⟨hget, haddr, -⟩ := hat it hit
      rw [haddr]
      exact hget
    · intro hrecord
      refine ⟨(record.dstAddr, .ofRecord record), ?_, by simp [recordAt, hrecord]⟩
      rw [Std.TreeMap.mem_toList_iff_getElem?_eq_some, hblocks, hrecord]
      rfl
  refine ⟨s.blocks.toList.map recordAt, ?_, hmem, fun record hrecord => ?_, ?_⟩
  · rw [List.pairwise_map]
    refine List.Pairwise.imp_of_mem (fun {x y} hx hy hlt => ?_) Std.TreeMap.ordered_keys_toList
    rw [(hat x hx).2.1, (hat y hy).2.1]
    exact Nat.compare_eq_lt.mp hlt
  · rw [hblocks, (hmem record).mp hrecord]
    rfl
  · rw [List.map_map]
    exact List.map_congr_left fun it hit => (hat it hit).2.2

lemma doLeakCheck_eq {m : HeapBlockManager} {live : List MemOpRecord}
    (h : m.heapBlocks.toList.map Prod.snd = live.map .ofRecord) :
    m.doLeakCheck = live.map leakMsg := by
  have hmap := congrArg (List.map fun block : HeapBlock =>
    let msg := ErrorMsg.setType {} .memLeak .gm block.addr
    { msg with
      auxData := { msg.auxData with
        nBadBytes := block.len
        moduleId := block.moduleId
        fileName := block.fileName
        lineNo := block.lineNo
        serialNo := block.serialNo } }) h
  rw [List.map_map, List.map_map] at hmap
  exact hmap

/-- **Every leak is reported, once, and nothing else is.** At the end of any session, whatever the
sanitizers of the process were given, `Exit` reports of a device the allocations of the runtime, the
ACL and the HAL that are live, in the order of their addresses: at an address this is the first
MALLOC since its last FREE. The summary has their number and the sum of their sizes. -/
theorem exit_reports_leaks (pid : ℤ) (config : Config) (mask : ℕ) (inputs : List Input)
    (device : ℤ) {s : AddressSanitizer}
    (hs : (AsanAccess.run pid config mask inputs).devices device = some s) :
    ∃ leaks : List MemOpRecord,
      leaks.Pairwise (fun r r' => r.dstAddr < r'.dstAddr) ∧
      (∀ record, record ∈ leaks ↔
        allocated (hostRecords device inputs) record.dstAddr = some record) ∧
      ∀ leakCheck registered, (exit s leakCheck registered).leaks =
        if leakCheck = true ∧ registered = true ∧ leaks ≠ [] then
          some ⟨leaks.map leakMsg, (leaks.map MemOpRecord.memSize).sum % 2 ^ 64, leaks.length⟩
        else none := by
  obtain ⟨leaks, hsorted, hmem, -, hblocks⟩ := live_records pid config mask inputs device hs
  refine ⟨leaks, hsorted, hmem, fun leakCheck registered => ?_⟩
  have hsizes : ((leaks.map leakMsg).map fun msg => msg.auxData.nBadBytes) =
      leaks.map MemOpRecord.memSize := by
    rw [List.map_map]
    rfl
  rw [exit_leaks, summaryLeakCheck_eq, doLeakCheck_eq hblocks, hsizes, List.length_map]
  cases leakCheck <;> simp

/-- The only block of a device is not freed. -/
theorem exit_reports_leaks_oneBlock : ∃ s,
    (AsanAccess.run 1 {} 0 DeviceMemory.oneBlock).devices 0 = some s ∧
      ∃ leaks : List MemOpRecord, leaks.map MemOpRecord.memSize = [16] ∧
        (exit s true true).leaks = some ⟨leaks.map leakMsg, 16, 1⟩ := by
  obtain ⟨s, hs⟩ : ∃ s, (AsanAccess.run 1 {} 0 DeviceMemory.oneBlock).devices 0 = some s :=
    ⟨_, rfl⟩
  obtain ⟨leaks, hsorted, hmem, hexit⟩ := exit_reports_leaks 1 {} 0 DeviceMemory.oneBlock 0 hs
  let record : MemOpRecord :=
    { type := .malloc, dstAddr := 64, memSize := 16, dstSpace := .gm, infoSrc := .rt }
  have hone : ∀ r, r ∈ leaks ↔ r = record := by
    intro r
    have hrecords : hostRecords 0 DeviceMemory.oneBlock = [] ++ [record] := rfl
    rw [hmem, hrecords, allocated_concat]
    constructor
    · intro h
      have hfree : frees r.dstAddr record = false := rfl
      rw [hfree] at h
      have hnil : allocated [] r.dstAddr = none := rfl
      rw [hnil] at h
      simp only [Bool.false_eq_true, if_false, Option.none_or] at h
      split_ifs at h
      exact (Option.some.inj h).symm
    · rintro rfl
      rfl
  have hleaks : leaks = [record] := by
    cases hl : leaks with
    | nil =>
      have := (hone record).mpr rfl
      rw [hl] at this
      cases this
    | cons r rest =>
      rw [hl] at hone hsorted
      obtain rfl := (hone r).mp List.mem_cons_self
      cases rest with
      | nil => rfl
      | cons r' rest =>
        have hlt := (List.pairwise_cons.mp hsorted).1 r' List.mem_cons_self
        rw [(hone r').mp (List.mem_cons_of_mem _ List.mem_cons_self)] at hlt
        exact absurd hlt (lt_irrefl _)
  rw [hleaks] at hexit
  exact ⟨s, hs, [record], rfl, hexit true true⟩

end MsSanitizer.ExitChecks
