import MsSanitizer.ExitChecks

/-!
# Memory that nobody writes to

A block that is freed, or left at exit, is reported with its bytes that were never written. The
counters of the shadow memory add up what was reported, so that the summary at exit accounts for
every block of a session once.
-/

namespace MsSanitizer.DeviceMemory

open MsSanitizer.RecordDefs MsSanitizer.Bounds MsSanitizer.Words MsSanitizer.Pm
open MsSanitizer.BoundsUpdate MsSanitizer.GmBytes
open MsSanitizer.HeapBlocks MsSanitizer.HeapBlocks.HeapBlockManager
open MsSanitizer.Shadow MsSanitizer.Shadow.ShadowMemory
open MsSanitizer.ShadowBytes (countUnified_eq count_congr)
open MsSanitizer.AsanAction MsSanitizer.AsanAction.AddressSanitizer MsSanitizer.AsanAccess
open MsSanitizer.ExitChecks
open MsSanitizer.HeapCoverage (IsReal IsReal.src IsReal.scope)

/-! ### What should be reported -/

/-- The bytes of a range of global memory that were not written since they were last undefined. -/
def Memory.unused (m : Memory) (addr size : ℕ) : ℕ :=
  Nat.count (fun k => (m.bytes .gm (addr + k)).content = .undefined) size

/-- The report of a freed block with `n` unused bytes. Its file is not known any more. -/
def unusedFreed (record : MemOpRecord) (n : ℕ) : ErrorMsg :=
  let msg := makeBadBytesMsg .memUnused .gm record.dstAddr n
  { msg with
    auxData := { msg.auxData with side := record.side, serialNo := record.serialNo } }

/-- The report of a block that is left at exit, by the record that allocated it. -/
def unusedLeft (m : Memory) (record : MemOpRecord) : ErrorMsg :=
  let msg := makeBadBytesMsg .memUnused .gm record.dstAddr (m.unused record.dstAddr record.memSize)
  { msg with
    auxData := { msg.auxData with
      fileName := record.fileName
      lineNo := (record.lineNo % 2 ^ 32).toNat
      serialNo := record.serialNo } }

/-- The unused bytes of the block that a record of the host frees, if it has any. -/
def Memory.freedBytes (m : Memory) (r : HeapRecord) : List ℕ :=
  if r.action = .free ∧ r.record.dstSpace = .gm then
    match m.heap r.record.dstAddr with
    | none => []
    | some n =>
      if 0 < m.unused r.record.dstAddr n then [m.unused r.record.dstAddr n] else []
  else []

/-- **What a record of the host should report**: a FREE where there is no block, and unused bytes
of the block that it frees. -/
def Memory.hostReports (m : Memory) (config : Config) (r : HeapRecord) : List ErrorMsg :=
  (if r.action = .free ∧ r.record.dstSpace = .gm ∧ m.heap r.record.dstAddr = none then
      [fillErrorLocInfo r.record (illegalFree r.record)]
    else []) ++
    if config.memCheck && config.checkUnusedMemory then
      (m.freedBytes r).map (unusedFreed r.record)
    else []

def hostReports (config : Config) (q : Process) (device : ℤ) (r : HeapRecord) : List ErrorMsg :=
  match q.devices device with
  | none => []
  | some m => m.hostReports config r

/-- The unused bytes of the block of a device that an input frees. -/
def freedBytes (device : ℤ) (q : Process) : Input → List ℕ
  | .host d r =>
    match q.devices device with
    | none => []
    | some m => if d = device then m.freedBytes r else []
  | _ => []

/-- The unused bytes of the blocks of a device that were freed in a session, block by block. -/
def freedInRun (pid : ℤ) (config : Config) (device : ℤ) (q : Process) : List Input → List ℕ
  | [] => []
  | i :: rest =>
    freedBytes device q i ++ freedInRun pid config device (step pid config q i) rest

lemma freedInRun_concat (pid : ℤ) (config : Config) (device : ℤ) (q : Process) (pre : List Input)
    (i : Input) : freedInRun pid config device q (pre ++ [i]) =
      freedInRun pid config device q pre ++
        freedBytes device (pre.foldl (step pid config) q) i := by
  induction pre generalizing q with
  | nil => simp [freedInRun]
  | cons j pre ih => simp [freedInRun, ih]

/-! ### Counting -/

variable {config : Config} {mask : ℕ} {s : AddressSanitizer} {m : Memory} {sm : ShadowMemory}
variable {addr size : ℕ}

lemma Maps.countUnused (h : Maps config mask sm m) (hmem : config.memCheck = true)
    (hend : size = 0 ∨ addr + size ≤ setLimit) :
    ((MemMap.global sm.gm).countUnified addr size fun bits => getMemStatus bits == .undefined) =
      m.unused addr size := by
  rcases hend with rfl | hend
  · rfl
  have hS := setLimit_eq
  have hlimit : setLimit ≤ Pm.globalMemMask := by decide
  rw [countUnified_eq h.wf (hend.trans hlimit)]
  refine count_congr fun k hk => ?_
  rw [beq_iff_eq]
  exact (h.gm (.inr ⟨hmem, rfl⟩) (addr + k) (by omega)).undefined_iff

/-- The counters after a block with `n` unused bytes. -/
def counted (unusedHeap : UnusedHeap) (n : ℕ) : UnusedHeap :=
  if 0 < n then ⟨unusedHeap.bytesNotUse + n, unusedHeap.blockNum + 1⟩ else unusedHeap

lemma checkUnusedMem_eq (h : Maps config mask sm m) (hmem : config.memCheck = true)
    (hend : size = 0 ∨ addr + size ≤ setLimit) :
    (sm.checkUnusedMem addr size).2 =
        { sm with unusedHeap := counted sm.unusedHeap (m.unused addr size) } ∧
      (sm.checkUnusedMem addr size).1 =
        if 0 < m.unused addr size then
          match sm.heapBlockManager.heapBlocks[addr]? with
          | none => makeBadBytesMsg .memUnused .gm addr (m.unused addr size)
          | some block =>
            let msg := makeBadBytesMsg .memUnused .gm addr (m.unused addr size)
            { msg with
              auxData := { msg.auxData with
                fileName := block.fileName
                lineNo := block.lineNo } }
        else {} := by
  unfold ShadowMemory.checkUnusedMem counted
  rw [h.countUnused hmem hend]
  dsimp only
  split_ifs <;> exact ⟨rfl, rfl⟩

/-! ### Records of the host -/

lemma process_fst {r : HeapRecord} (h : IsReal r) : (s.process r).1 =
    (r.doAction s.shadowMemory s.boundsCheckRuntime s.config false).errorMsgs := by
  unfold process scopeDoAction Scopes.beforeScopeSwitch
  rw [h.scope]

lemma addHeapBlock_unused (sm : ShadowMemory) (record : MemOpRecord) :
    (sm.addHeapBlock record).2.unusedHeap = sm.unusedHeap := by
  unfold ShadowMemory.addHeapBlock
  split_ifs <;> rfl

lemma freeHeapBlock_unused (sm : ShadowMemory) (record : MemOpRecord) :
    (sm.freeHeapBlock record).2.2.unusedHeap = sm.unusedHeap := by
  unfold ShadowMemory.freeHeapBlock
  split_ifs <;> rfl

lemma freeHeapBlock_fst (sm : ShadowMemory) {record : MemOpRecord}
    (h : isRealMalloc record.infoSrc = true) :
    (sm.freeHeapBlock record).1 =
      if sm.heapBlockManager.heapBlocks[record.dstAddr]? = none then illegalFree record
      else {} := by
  have hby : record.infoSrc ≠ .bypass := by
    rintro hs
    rw [hs] at h
    cases h
  simp only [ShadowMemory.freeHeapBlock, if_neg hby, HeapBlockManager.freeHeapBlock,
    getHeapType_of_isRealMalloc h, freeRtDfxBlock, isDfx_of_isRealMalloc h, Bool.false_eq_true,
    if_false]
  cases sm.heapBlockManager.heapBlocks[record.dstAddr]? <;> rfl

lemma add_asList {permission : ℕ} {ranges : List Range}
    (h : (checkOverflow addr size).isError = false) :
    ErrorMsg.asList (add addr size permission ranges).1 = [] := by
  unfold add
  dsimp only
  rw [h, if_neg Bool.false_ne_true]
  split
  · rfl
  · split_ifs <;> rfl

lemma remove_asList {ranges : List Range} (h : (checkOverflow addr size).isError = false) :
    ErrorMsg.asList (remove addr size ranges).1 = [] := by
  unfold remove
  dsimp only
  rw [h, if_neg Bool.false_ne_true]
  split
  · rfl
  · split_ifs <;> rfl

/-- The counters after blocks with so many unused bytes each. -/
def tally (l : List ℕ) : UnusedHeap := ⟨l.sum, l.length⟩

lemma counted_tally (l : List ℕ) (n : ℕ) :
    counted (tally l) n = tally (l ++ if 0 < n then [n] else []) := by
  unfold counted tally
  split_ifs <;> simp

def unusedOn (config : Config) : Bool := config.memCheck && config.checkUnusedMemory

lemma process_malloc_unused {r : HeapRecord} (hreal : IsReal r) (hact : r.action = .malloc)
    (hplaced : r.record.dstSpace = .gm → Placed m r.record.dstAddr r.record.memSize) :
    (s.process r).1 = [] ∧
      (s.process r).2.shadowMemory.unusedHeap = s.shadowMemory.unusedHeap := by
  have hlimit : setLimit ≤ Bounds.globalMemMask := by decide
  have hsrc : r.record.infoSrc ≠ .mstxHeap := by
    rcases hreal.src with hs | hs | hs <;> rw [hs] <;> decide
  rw [process_fst hreal, (process_scope hreal).2.2, HeapRecord.doAction, hact]
  unfold asanMalloc
  by_cases hgm : r.record.dstSpace = .gm
  · have hok := (HeapCoverage.addHeapBlock_of_real s.shadowMemory hreal).1
    have hover := (checkOverflow_ok r.size_lt).mpr (.inl ((hplaced hgm).2.1.trans hlimit))
    simp only [hgm, ne_eq, not_true_eq_false, if_false, Bool.false_eq_true, hok, Bool.not_true,
      hsrc]
    exact ⟨add_asList hover, addHeapBlock_unused _ _⟩
  · rw [if_pos hgm]
    exact ⟨rfl, rfl⟩

lemma makeMemUndefined_unused (sm : ShadowMemory) (addr size : ℕ) :
    (sm.makeMemUndefined addr size).unusedHeap = sm.unusedHeap := by
  obtain ⟨gm, hgm⟩ := HeapCoverage.makeMemUndefined_eq sm addr size
  rw [hgm]

/-- The shadow memory that a FREE looks at for unused memory. -/
lemma Stands.free_maps {r : HeapRecord} (h : Stands config mask s m) (hreal : IsReal r) :
    Maps config mask (s.shadowMemory.freeHeapBlock r.record).2.2 m ∧
      (s.shadowMemory.freeHeapBlock r.record).2.1 = (m.heap r.record.dstAddr).getD 0 ∧
      (s.shadowMemory.freeHeapBlock r.record).2.2.heapBlockManager.heapBlocks[r.record.dstAddr]? =
        none := by
  obtain ⟨hnone, hsome⟩ := HeapCoverage.freeHeapBlock_of_real s.shadowMemory hreal
  have hheap := h.heap r.record.dstAddr
  unfold AddressSanitizer.blocks at hheap
  refine ⟨maps_heap h.maps (freeHeapBlock_heap s.shadowMemory r.record), ?_⟩
  cases hb : s.shadowMemory.heapBlockManager.heapBlocks[r.record.dstAddr]? with
  | none =>
    rw [← hheap, hb, (hnone hb).1, (hnone hb).2]
    exact ⟨rfl, hb⟩
  | some block =>
    rw [← hheap, hb, (hsome block hb).1, (hsome block hb).2]
    exact ⟨rfl, by simp⟩

lemma Stands.freeUnused {r : HeapRecord} (h : Stands config mask s m) (hreal : IsReal r)
    (hact : r.action = .free) (hgm : r.record.dstSpace = .gm) {l : List ℕ}
    (hl : unusedOn config = true → s.shadowMemory.unusedHeap = tally l) :
    (AsanAction.freeUnused (s.shadowMemory.freeHeapBlock r.record).2.2 config false r.record
        ((m.heap r.record.dstAddr).getD 0)).1 =
        (if unusedOn config then (m.freedBytes r).map (unusedFreed r.record) else []) ∧
      (unusedOn config = true →
        (AsanAction.freeUnused (s.shadowMemory.freeHeapBlock r.record).2.2 config false r.record
          ((m.heap r.record.dstAddr).getD 0)).2.unusedHeap = tally (l ++ m.freedBytes r)) := by
  obtain ⟨hmaps, -, hgone⟩ := h.free_maps hreal
  have hsrc : (r.record.infoSrc != .bypass) = true := by
    rcases hreal.src with hs | hs | hs <;> rw [hs] <;> rfl
  unfold AsanAction.freeUnused unusedOn
  cases hon : config.memCheck && config.checkUnusedMemory with
  | false => exact ⟨by simp, fun hno => by cases hno⟩
  | true =>
    have hmem : config.memCheck = true := (Bool.and_eq_true_iff.mp hon).1
    have hend : (m.heap r.record.dstAddr).getD 0 = 0 ∨
        r.record.dstAddr + (m.heap r.record.dstAddr).getD 0 ≤ setLimit := by
      cases hb : m.heap r.record.dstAddr with
      | none => exact .inl rfl
      | some n => exact .inr (h.ends _ _ hb)
    obtain ⟨hsm, hmsg⟩ := checkUnusedMem_eq hmaps hmem hend
    have hfreed : m.freedBytes r =
        if 0 < m.unused r.record.dstAddr ((m.heap r.record.dstAddr).getD 0) then
          [m.unused r.record.dstAddr ((m.heap r.record.dstAddr).getD 0)]
        else [] := by
      unfold Memory.freedBytes
      rw [if_pos ⟨hact, hgm⟩]
      cases m.heap r.record.dstAddr <;> rfl
    rw [hgone] at hmsg
    simp only [hsrc, Bool.not_false, Bool.and_self, if_true, true_implies]
    refine ⟨?_, ?_⟩
    · rw [hmsg, hfreed]
      split_ifs <;> rfl
    · rw [hsm, freeHeapBlock_unused, hl hon, counted_tally, hfreed]

/-- **A record of the host** reports what it should, and the counters go on counting. -/
lemma Stands.host_unused {r : HeapRecord} (h : Stands config mask s m) (hreal : IsReal r)
    (hplaced : r.action = .malloc → r.record.dstSpace = .gm →
      Placed m r.record.dstAddr r.record.memSize) {l : List ℕ}
    (hl : unusedOn config = true → s.shadowMemory.unusedHeap = tally l) :
    (s.process r).1 = m.hostReports config r ∧
      (unusedOn config = true →
        (s.process r).2.shadowMemory.unusedHeap = tally (l ++ m.freedBytes r)) := by
  have hlimit : setLimit ≤ Bounds.globalMemMask := by decide
  cases hact : r.action with
  | malloc =>
    obtain ⟨hmsgs, hcount⟩ := @process_malloc_unused s m r hreal hact (hplaced hact)
    have hfreed : m.freedBytes r = [] := by simp [Memory.freedBytes, hact]
    rw [hmsgs, hcount, hfreed, List.append_nil]
    refine ⟨?_, hl⟩
    simp [Memory.hostReports, hact, hfreed]
  | free =>
    by_cases hgm : r.record.dstSpace = .gm
    · obtain ⟨hmaps, hsize, -⟩ := h.free_maps hreal
      obtain ⟨hunused, hcount⟩ := h.freeUnused hreal hact hgm hl
      have hsrc : r.record.infoSrc ≠ .mstxHeap ∧ r.record.infoSrc ≠ .extra := by
        rcases hreal.src with hs | hs | hs <;> rw [hs] <;> decide
      have hend : (m.heap r.record.dstAddr).getD 0 < 2 ^ 64 ∧
          (checkOverflow r.record.dstAddr ((m.heap r.record.dstAddr).getD 0)).isError = false := by
        have hM : Bounds.globalMemMask < 2 ^ 64 := by decide
        cases hb : m.heap r.record.dstAddr with
        | none => exact ⟨by decide, (checkOverflow_ok (by decide)).mpr (.inr rfl)⟩
        | some n =>
          have hn := h.ends _ _ hb
          have hlt : n < 2 ^ 64 := by omega
          exact ⟨hlt, (checkOverflow_ok hlt).mpr (.inl (hn.trans hlimit))⟩
      rw [process_fst hreal, (process_scope hreal).2.2, HeapRecord.doAction, hact]
      simp only [asanFree, hgm, ne_eq, not_true_eq_false, if_false, freeBlock,
        Bool.false_eq_true, hsrc.1, hsrc.2, freeClear, hsize, h.settings,
        remove_asList hend.2, List.append_nil, makeMemUndefined_unused, hunused]
      refine ⟨?_, hcount⟩
      have hnone : s.shadowMemory.heapBlockManager.heapBlocks[r.record.dstAddr]? = none ↔
          m.heap r.record.dstAddr = none := by
        rw [← h.heap r.record.dstAddr, Option.map_eq_none_iff]
      rw [freeHeapBlock_fst s.shadowMemory hreal]
      unfold Memory.hostReports
      by_cases hb : m.heap r.record.dstAddr = none
      · simp only [if_pos (hnone.mpr hb), if_pos (And.intro hact (And.intro hgm hb))]
        rfl
      · simp only [if_neg (hnone.not.mpr hb), if_neg fun h => hb (And.right (And.right h))]
        rfl
    · have hfreed : m.freedBytes r = [] := by simp [Memory.freedBytes, hgm]
      rw [process_fst hreal, (process_scope hreal).2.2, HeapRecord.doAction, hact, hfreed,
        List.append_nil]
      unfold asanFree
      rw [if_pos hgm]
      refine ⟨?_, hl⟩
      simp [Memory.hostReports, hgm, hfreed]

/-! ### Runs -/

variable {p : HostProcess} {q : Process} {device : ℤ}

/-- The counters of a device are those after blocks with so many unused bytes. Before the device is
set up, no block of it is freed. -/
def Tallied (config : Config) (l : List ℕ) : Option AddressSanitizer → Prop
  | none => l = []
  | some s => unusedOn config = true → s.shadowMemory.unusedHeap = tally l

/-- **One input** keeps the counters counting. -/
lemma Simulates.tallied (h : Simulates config mask p q) (pid : ℤ) {i : Input}
    (hfit : Fits config mask q i) {l : List ℕ} (hl : Tallied config l (p.devices device)) :
    Tallied config (l ++ freedBytes device q i)
      ((AsanAccess.step pid config mask p i).2.devices device) := by
  have hkeep : ∀ (d : ℤ) (f : AddressSanitizer → List ErrorMsg × AddressSanitizer),
      (∀ s, (f s).2.shadowMemory.unusedHeap = s.shadowMemory.unusedHeap) →
      Tallied config (l ++ []) ((p.onDevice d f).2.devices device) := by
    intro d f hf
    rw [onDevice_devices, List.append_nil]
    split_ifs
    · cases hs : p.devices device with
      | none => rwa [hs] at hl
      | some s =>
        rw [hs] at hl
        exact fun hon => (hf s).trans (hl hon)
    · exact hl
  unfold AsanAccess.step
  cases i with
  | deviceInfo d type chipInfo =>
    unfold freedBytes
    rw [setDevice_devices, List.append_nil]
    split_ifs with hd
    · subst hd
      cases hs : p.devices device with
      | none =>
        rw [hs] at hl
        exact fun _ => congrArg tally hl.symm
      | some s =>
        rw [hs] at hl
        exact hl
    · exact hl
  | peerAccess record =>
    unfold freedBytes
    rwa [List.append_nil]
  | atomic d enabled => exact hkeep d _ fun _ => rfl
  | blockFinish d => exact hkeep d _ fun _ => rfl
  | access d record => exact hkeep d _ fun s => (doMemOpRecord_heap p mask d s record).2
  | host d r =>
    unfold freedBytes
    dsimp only
    rw [onDevice_devices]
    rcases h.devices device with ⟨hs, hm⟩ | ⟨s, m, hs, hm, hst⟩
    · rw [hs] at hl ⊢
      rw [hm, List.append_nil]
      split_ifs <;> exact hl
    · rw [hs] at hl ⊢
      rw [hm]
      dsimp only
      by_cases hd : device = d
      · subst hd
        rw [if_pos rfl, if_pos rfl]
        exact (hst.host_unused hfit.1 (hfit.2 m hm) hl).2
      · rw [if_neg hd, if_neg (Ne.symm hd), List.append_nil]
        exact hl

/-- **A run**: the counters of a device are those of the blocks that were freed. -/
lemma tallied_run (pid device : ℤ) {inputs : List Input}
    (hfit : ∀ pre i, pre ++ [i] <+: inputs → Fits config mask (run pid config pre) i) :
    Tallied config (freedInRun pid config device {} inputs)
      ((AsanAccess.run pid config mask inputs).devices device) := by
  induction inputs using List.reverseRecOn with
  | nil => rfl
  | append_singleton pre i ih =>
    have hpre : ∀ pre' i', pre' ++ [i'] <+: pre → Fits config mask (run pid config pre') i' :=
      fun pre' i' h' => hfit pre' i' (h'.trans (List.prefix_append pre [i]))
    rw [AsanAccess.run_concat, freedInRun_concat]
    exact (simulates_run pid hpre).tallied pid (hfit pre i List.prefix_rfl) (ih hpre)

/-! ### Exit -/

/-- The unused bytes of the block that a record allocated. -/
def Memory.leftBytes (m : Memory) (record : MemOpRecord) : ℕ :=
  m.unused record.dstAddr record.memSize

def Memory.unusedRecords (m : Memory) (records : List MemOpRecord) : List MemOpRecord :=
  records.filter fun record => 0 < m.leftBytes record

/-- One turn of the loop, for the block that a record allocated. -/
lemma Maps.checkUnusedBlock (h : Maps config mask sm m) (hmem : config.memCheck = true)
    {record : MemOpRecord}
    (hblock : sm.heapBlockManager.heapBlocks[record.dstAddr]? = some (.ofRecord record))
    (hend : record.dstAddr + record.memSize ≤ setLimit) (msgs : List ErrorMsg) (l : List ℕ) :
    ExitChecks.checkUnusedBlock (msgs, { sm with unusedHeap := tally l }) (.ofRecord record) =
      (msgs ++ (m.unusedRecords [record]).map (unusedLeft m),
        { sm with unusedHeap := tally (l ++ (m.unusedRecords [record]).map m.leftBytes) }) := by
  have hmaps : Maps config mask { sm with unusedHeap := tally l } m := maps_heap h ⟨_, _, _, rfl⟩
  obtain ⟨hsm, hmsg⟩ := checkUnusedMem_eq hmaps hmem (.inr hend)
  rw [hblock] at hmsg
  rw [counted_tally] at hsm
  have hcheck : ∀ {msg sm'}, (ShadowMemory.checkUnusedMem { sm with unusedHeap := tally l }
        record.dstAddr record.memSize).1 = msg →
      (ShadowMemory.checkUnusedMem { sm with unusedHeap := tally l } record.dstAddr
        record.memSize).2 = sm' →
      ShadowMemory.checkUnusedMem { sm with unusedHeap := tally l }
        (HeapBlock.ofRecord record).addr (HeapBlock.ofRecord record).len = (msg, sm') :=
    fun h1 h2 => Prod.ext h1 h2
  unfold ExitChecks.checkUnusedBlock
  by_cases hpos : 0 < m.unused record.dstAddr record.memSize
  · have hone : m.unusedRecords [record] = [record] := by
      simp [Memory.unusedRecords, Memory.leftBytes, hpos]
    rw [if_pos hpos] at hmsg hsm
    simp only [hcheck hmsg hsm, hone, List.map_singleton]
    rfl
  · have hnone : m.unusedRecords [record] = [] := by
      simp [Memory.unusedRecords, Memory.leftBytes, hpos]
    rw [if_neg hpos] at hmsg hsm
    simp only [hcheck hmsg hsm, hnone, List.map_nil, List.append_nil]
    rfl

/-- The loop of `CheckUnusedHeap` over the blocks of some records. -/
lemma Maps.checkUnusedBlocks (h : Maps config mask sm m) (hmem : config.memCheck = true)
    {live : List MemOpRecord}
    (hblocks : ∀ record ∈ live,
      sm.heapBlockManager.heapBlocks[record.dstAddr]? = some (.ofRecord record))
    (hends : ∀ record ∈ live, record.dstAddr + record.memSize ≤ setLimit) (msgs : List ErrorMsg)
    (l : List ℕ) :
    (live.map HeapBlock.ofRecord).foldl ExitChecks.checkUnusedBlock
        (msgs, { sm with unusedHeap := tally l }) =
      (msgs ++ (m.unusedRecords live).map (unusedLeft m),
        { sm with unusedHeap := tally (l ++ (m.unusedRecords live).map m.leftBytes) }) := by
  induction live generalizing msgs l with
  | nil => simp [Memory.unusedRecords]
  | cons record live ih =>
    have hcons : ∀ {β : Type} (f : MemOpRecord → β), (m.unusedRecords (record :: live)).map f =
        (m.unusedRecords [record]).map f ++ (m.unusedRecords live).map f := by
      intro β f
      rw [← List.map_append]
      exact congrArg (List.map f) (List.filter_append [record] live)
    rw [List.map_cons, List.foldl_cons, h.checkUnusedBlock hmem (hblocks record (by simp))
      (hends record (by simp)), ih (fun r hr => hblocks r (by simp [hr]))
      (fun r hr => hends r (by simp [hr])), hcons, hcons, List.append_assoc, List.append_assoc]

/-- **The host hears of every block that is not used.** Whatever the devices are given, as long as
blocks lie beside one another and accesses fit the shadow memory, a record of the host reports a
FREE where there is no block and the bytes of the block it frees that were never written. At exit
the blocks that are left are reported likewise, and the summary counts the blocks with unused bytes
of the whole session: those that were freed and those that are left. -/
theorem session_reports_blocks (pid : ℤ) {inputs : List Input}
    (hfit : ∀ pre i, pre ++ [i] <+: inputs → Fits config mask (run pid config pre) i) :
    (∀ pre device r, pre ++ [.host device r] <+: inputs →
      (AsanAccess.step pid config mask (AsanAccess.run pid config mask pre) (.host device r)).1 =
        hostReports config (run pid config pre) device r) ∧
    ∀ device m, (run pid config inputs).devices device = some m →
      ∃ s, (AsanAccess.run pid config mask inputs).devices device = some s ∧
        ∃ left : List MemOpRecord, left.Pairwise (fun r r' => r.dstAddr < r'.dstAddr) ∧
          (∀ record, record ∈ left ↔
            allocated (hostRecords device inputs) record.dstAddr = some record ∧
              0 < m.leftBytes record) ∧
          ∀ leakCheck registered, (exit s leakCheck registered).unused =
            if unusedOn config = true ∧ registered = true ∧
                freedInRun pid config device {} inputs ++ left.map m.leftBytes ≠ [] then
              some ⟨left.map (unusedLeft m),
                (freedInRun pid config device {} inputs ++ left.map m.leftBytes).sum % 2 ^ 64,
                (freedInRun pid config device {} inputs ++ left.map m.leftBytes).length⟩
            else none := by
  refine ⟨fun pre device r hpre => ?_, fun device m hm => ?_⟩
  · have hsim : Simulates config mask (AsanAccess.run pid config mask pre) (run pid config pre) :=
      simulates_run pid fun pre' i h' =>
        hfit pre' i (h'.trans ((List.prefix_append pre _).trans hpre))
    obtain ⟨hreal, hplaced⟩ := hfit pre _ hpre
    unfold AsanAccess.step HostProcess.onDevice hostReports
    dsimp only
    rcases hsim.devices device with ⟨hs, hm⟩ | ⟨s, m, hs, hm, hst⟩
    · rw [hs, hm]
    · have htally := tallied_run pid device fun pre' i h' =>
        hfit pre' i (h'.trans ((List.prefix_append pre _).trans hpre))
      rw [hs] at htally
      rw [hs, hm]
      exact (hst.host_unused hreal (hplaced m hm) htally).1
  · have htally := tallied_run pid device hfit
    rcases (simulates_run pid hfit).devices device with ⟨-, hnone⟩ | ⟨s, m', hs, hm', hst⟩
    · rw [hnone] at hm
      cases hm
    obtain rfl : m' = m := Option.some.inj (hm'.symm.trans hm)
    rw [hs] at htally
    obtain ⟨live, hsorted, hmem, hat, hblocks⟩ := live_records pid config mask inputs device hs
    refine ⟨s, hs, m'.unusedRecords live, hsorted.filter _, fun record => ?_,
      fun leakCheck registered => ?_⟩
    · rw [Memory.unusedRecords, List.mem_filter, hmem, decide_eq_true_eq]
    unfold exit
    rw [hst.settings]
    cases hon : unusedOn config with
    | false =>
      unfold unusedOn at hon
      simp [hon]
    | true =>
      have hmemCheck : config.memCheck = true := (Bool.and_eq_true_iff.mp hon).1
      have hends : ∀ record ∈ live, record.dstAddr + record.memSize ≤ setLimit := by
        intro record hrecord
        refine hst.ends _ _ ?_
        rw [← hst.heap, hat record hrecord]
        rfl
      have hcheck := hst.maps.checkUnusedBlocks hmemCheck hat hends []
        (freedInRun pid config device {} inputs)
      rw [← htally hon, List.nil_append, ← hblocks] at hcheck
      have hloop : checkUnusedHeap s.shadowMemory = (_, _) := hcheck
      unfold unusedOn at hon
      simp only [hon, if_true, summaryUnusedHeapCheck, hloop, true_and]
      generalize freedInRun pid config device {} inputs ++
        (m'.unusedRecords live).map m'.leftBytes = blocks
      cases blocks <;> cases registered <;> simp [tally]

lemma freeOneBlock_size_lt : 0 < 2 ^ 64 := by decide

/-- The block of `oneBlock` is freed. -/
def freeOneBlock : HeapRecord :=
  HeapCoverage.rtRecord .free 64 0 oneBlock_addr_lt freeOneBlock_size_lt

def oneBlockFreed : List Input := oneBlock ++ [.host 0 freeOneBlock]

def checkUnused : Config := { memCheck := true, checkUnusedMemory := true }

/-- Nothing is written to the block before it is freed: its 16 bytes are reported, and counted in
the summary at exit. -/
theorem session_reports_blocks_freed :
    (AsanAccess.step 1 checkUnused 0 (AsanAccess.run 1 checkUnused 0 oneBlock)
        (.host 0 freeOneBlock)).1 = [unusedFreed freeOneBlock.record 16] ∧
      ∃ s, (AsanAccess.run 1 checkUnused 0 oneBlockFreed).devices 0 = some s ∧
        (exit s false true).unused = some ⟨[], 16, 1⟩ := by
  obtain ⟨hreports, hexit⟩ :=
    @session_reports_blocks checkUnused 0 1 oneBlockFreed fun pre i h => by
      obtain ⟨t, ht⟩ := h
      rcases pre with _ | ⟨a, _ | ⟨b, _ | ⟨c, pre⟩⟩⟩ <;>
        simp only [oneBlockFreed, oneBlock, List.cons_append, List.nil_append,
          List.cons.injEq] at ht
      · rw [ht.1]
        trivial
      · obtain ⟨rfl, rfl, -⟩ := ht
        refine ⟨rfl, fun m hm _ _ => ?_⟩
        obtain rfl : _ = m := Option.some.inj hm
        refine ⟨by decide, by decide, fun _ x _ _ hx => ?_, fun hne => absurd rfl hne⟩
        obtain ⟨a, n, hn, -⟩ := hx
        cases hn
      · obtain ⟨rfl, rfl, rfl, -⟩ := ht
        exact ⟨rfl, fun m _ hact => by cases hact⟩
      · simp at ht
  obtain ⟨m, hm⟩ : ∃ m, (run 1 checkUnused oneBlockFreed).devices 0 = some m := ⟨_, rfl⟩
  obtain ⟨s, hs, left, -, hmem, hunused⟩ := hexit 0 m hm
  have hleft : left = [] := by
    refine List.eq_nil_iff_forall_not_mem.mpr fun record hrecord => ?_
    obtain ⟨hallocated, -⟩ := (hmem record).mp hrecord
    -- both records are for the address that the last one frees
    have hin : record ∈ hostRecords 0 oneBlockFreed :=
      (List.rtakeWhile_suffix _ _).subset (List.mem_of_find?_eq_some hallocated)
    have haddr : ∀ r ∈ hostRecords 0 oneBlockFreed, r.dstAddr = 64 := by decide
    rw [haddr record hin] at hallocated
    cases hallocated
  refine ⟨(hreports oneBlock 0 freeOneBlock List.prefix_rfl).trans rfl, s, hs, ?_⟩
  rw [hunused false true, hleft]
  rfl

end MsSanitizer.DeviceMemory
