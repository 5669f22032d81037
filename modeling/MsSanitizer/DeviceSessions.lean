import MsSanitizer.AccessReports

/-!
# The reports of a whole session

Records of the host, of the kernels and of the peer accesses: every input keeps the sanitizers
standing for the memory of the devices, so that every access of a session reports what it should.
-/

namespace MsSanitizer.DeviceMemory

open MsSanitizer.RecordDefs MsSanitizer.Bounds
open MsSanitizer.BoundsUpdate MsSanitizer.GmBytes
open MsSanitizer.HeapBlocks MsSanitizer.PeerAccessManager MsSanitizer.Packets
open MsSanitizer.Shadow MsSanitizer.Shadow.ShadowMemory
open MsSanitizer.AsanAction MsSanitizer.AsanAction.AddressSanitizer MsSanitizer.AsanAccess
open MsSanitizer.HeapCoverage (IsReal IsReal.src)

variable {config : Config} {mask : ℕ} {s : AddressSanitizer} {m : Memory} {p : HostProcess}
variable {q : Process} {device : ℤ}

/-! ### Records of the host -/

/-- A record of the runtime, the ACL or the HAL: the scope and the settings stay. -/
lemma process_scope {r : HeapRecord} (h : IsReal r) :
    (s.process r).2.scopes.scope = .runtime ∧ (s.process r).2.config = s.config ∧
      (s.process r).2.shadowMemory =
        (r.doAction s.shadowMemory s.boundsCheckRuntime s.config false).shadowMemory := by
  unfold process scopeDoAction Scopes.beforeScopeSwitch Scopes.afterScopeSwitch
  rcases h.src with hs | hs | hs <;> simp [hs, memInfoToScope]

lemma maps_heap {sm sm' : ShadowMemory} (h : Maps config mask sm m)
    (heq : ∃ blocks bypass unused, sm' =
      { sm with heapBlockManager := blocks, heapBlockManagerBypass := bypass,
                unusedHeap := unused }) : Maps config mask sm' m := by
  obtain ⟨blocks, bypass, unused, rfl⟩ := heq
  exact h.blocks_change (fun s => by cases s <;> rfl) rfl rfl rfl

lemma addHeapBlock_heap (sm : ShadowMemory) (record : MemOpRecord) :
    ∃ blocks bypass unused, (sm.addHeapBlock record).2 =
      { sm with heapBlockManager := blocks, heapBlockManagerBypass := bypass,
                unusedHeap := unused } := by
  unfold ShadowMemory.addHeapBlock
  split_ifs <;> exact ⟨_, _, sm.unusedHeap, rfl⟩

lemma freeHeapBlock_heap (sm : ShadowMemory) (record : MemOpRecord) :
    ∃ blocks bypass unused, (sm.freeHeapBlock record).2.2 =
      { sm with heapBlockManager := blocks, heapBlockManagerBypass := bypass,
                unusedHeap := unused } := by
  unfold ShadowMemory.freeHeapBlock
  split_ifs <;> exact ⟨_, _, sm.unusedHeap, rfl⟩

lemma freeUnused_heap (sm : ShadowMemory) (record : MemOpRecord) (size : ℕ) :
    ∃ blocks bypass unused, (freeUnused sm config false record size).2 =
      { sm with heapBlockManager := blocks, heapBlockManagerBypass := bypass,
                unusedHeap := unused } := by
  unfold freeUnused ShadowMemory.checkUnusedMem
  split_ifs
  · dsimp only
    split_ifs <;> exact ⟨_, _, _, rfl⟩
  · exact ⟨_, _, _, rfl⟩

lemma Stands.maps_malloc {r : HeapRecord} (h : Stands config mask s m) (hreal : IsReal r)
    (hact : r.action = .malloc) : Maps config mask (s.process r).2.shadowMemory m := by
  have hadd := maps_heap h.maps (addHeapBlock_heap s.shadowMemory r.record)
  rw [(process_scope hreal).2.2, HeapRecord.doAction, hact]
  unfold asanMalloc
  simp only [Bool.false_eq_true, if_false]
  by_cases hgm : r.record.dstSpace = .gm
  · rw [if_neg (not_not_intro hgm)]
    split_ifs <;> exact hadd
  · rw [if_pos hgm]
    exact h.maps

lemma Stands.maps_free {r : HeapRecord} (h : Stands config mask s m) (hreal : IsReal r)
    (hact : r.action = .free) (hgm : r.record.dstSpace = .gm) :
    Maps config mask (s.process r).2.shadowMemory
      (m.change .gm r.record.dstAddr ((m.heap r.record.dstAddr).getD 0) fun _ => {}) := by
  have hend : (m.heap r.record.dstAddr).getD 0 = 0 ∨
      r.record.dstAddr + (m.heap r.record.dstAddr).getD 0 ≤ setLimit := by
    cases hb : m.heap r.record.dstAddr with
    | none => exact .inl rfl
    | some n => exact .inr (h.ends _ _ hb)
  obtain ⟨hnone, hsome⟩ := HeapCoverage.freeHeapBlock_of_real s.shadowMemory hreal
  have hsize : (s.shadowMemory.freeHeapBlock r.record).2.1 =
      (m.heap r.record.dstAddr).getD 0 := by
    have hheap := h.heap r.record.dstAddr
    unfold AddressSanitizer.blocks at hheap
    cases hb : s.shadowMemory.heapBlockManager.heapBlocks[r.record.dstAddr]? with
    | none => rw [← hheap, hb, (hnone hb).1]; rfl
    | some block => rw [← hheap, hb, (hsome block hb).1]; rfl
  have hextra : r.record.infoSrc ≠ .extra := by
    rcases hreal.src with hs | hs | hs <;> rw [hs] <;> decide
  have hfree := maps_heap h.maps (freeHeapBlock_heap s.shadowMemory r.record)
  have hunused := maps_heap hfree
    (@freeUnused_heap config _ r.record ((m.heap r.record.dstAddr).getD 0))
  rw [(process_scope hreal).2.2, HeapRecord.doAction, hact, h.settings]
  simp only [asanFree, hgm, ne_eq, not_true_eq_false, if_false, freeBlock, Bool.false_eq_true,
    freeClear, hextra, hsize]
  exact hunused.makeMemUndefined hend

/-- **A record of the host.** -/
lemma Stands.host {r : HeapRecord} (h : Stands config mask s m) (hreal : IsReal r)
    (hplaced : r.action = .malloc → r.record.dstSpace = .gm →
      Placed m r.record.dstAddr r.record.memSize) :
    Stands config mask (s.process r).2 (m.host r) := by
  have hlimit : setLimit ≤ globalMemMask := by decide
  have hnone : ∀ a, s.blocks[a]? = none ↔ m.heap a = none := by
    intro a
    rw [← h.heap a, Option.map_eq_none_iff]
  have hinv : HeapCoverage.Inv (s.process r).2 := by
    refine h.inv.process hreal (fun hact hgm hnew x h1 h2 => ?_) fun hact hgm => ?_
    · rw [h.live_iff]
      exact (hplaced hact hgm).2.2.1 ((hnone _).mp hnew) x h1 h2
    · obtain ⟨-, hend, -, hin⟩ := hplaced hact hgm
      refine ⟨fun _ => (checkOverflow_ok r.size_lt).mpr (.inl (hend.trans hlimit)),
        fun hold => .inr fun x h1 h2 => ?_⟩
      rw [h.live_iff]
      exact hin ((hnone _).not.mp hold) x h1 h2
  obtain ⟨hscope, hconfig, -⟩ := @process_scope s r hreal
  unfold Memory.host
  by_cases hgm : r.record.dstSpace = .gm
  · rw [if_neg (not_not_intro hgm)]
    cases hact : r.action with
    | malloc =>
      obtain ⟨hpos, hend, -⟩ := hplaced hact hgm
      obtain ⟨hblocks, htable⟩ := @HeapCoverage.process_malloc s r hreal hgm hact
      have hfilled : Filled (s.process r).2.boundsCheckRuntime := by
        rw [htable]
        exact add_filled h.inv.laid h.filled (fun t ht => h.permission ht) hpos
          (hend.trans hlimit)
      have hmaps := h.maps_malloc hreal hact
      dsimp only
      by_cases hnew : m.heap r.record.dstAddr = none
      · rw [if_pos hnew]
        rw [HeapCoverage.addIfNew_of_none ((hnone _).mpr hnew)] at hblocks
        refine ⟨hinv, hfilled, fun a => ?_, fun a n hn => ?_, hscope, hconfig.trans h.settings,
          ?_⟩
        · rw [hblocks, Std.TreeMap.getElem?_insert]
          by_cases ha : a = r.record.dstAddr
          · subst ha
            simp [HeapBlock.ofRecord]
          · rw [if_neg (fun heq => ha (Nat.compare_eq_eq.mp heq).symm), h.heap a]
            exact (Function.update_of_ne ha _ _).symm
        · by_cases ha : a = r.record.dstAddr
          · subst ha
            obtain rfl : r.record.memSize = n := by simpa using hn
            exact hend
          · exact h.ends a n ((Function.update_of_ne ha _ _).symm.trans hn)
        · exact ⟨hmaps.chipInfo, hmaps.type, hmaps.atomic, hmaps.wf, hmaps.gm, hmaps.blocks,
            hmaps.chips⟩
      · rw [if_neg hnew]
        rw [HeapCoverage.addIfNew_of_some ((hnone _).not.mpr hnew)] at hblocks
        exact ⟨hinv, hfilled, fun a => hblocks ▸ h.heap a, h.ends, hscope,
          hconfig.trans h.settings, hmaps⟩
    | free =>
      obtain ⟨hblocks, htable⟩ := @HeapCoverage.process_free s r hreal hgm hact
      have hmaps := h.maps_free hreal hact hgm
      have hget : ∀ a, (s.process r).2.blocks[a]? =
          if a = r.record.dstAddr then none else s.blocks[a]? := by
        intro a
        rcases hblocks with ⟨hb, heq⟩ | ⟨-, heq⟩
        · rw [heq]
          split_ifs with ha
          · rw [ha, hb]
          · rfl
        · rw [heq, Std.TreeMap.getElem?_erase]
          simp only [Nat.compare_eq_eq, eq_comm (a := a)]
      refine ⟨hinv, ?_, fun a => ?_, fun a n hn => ?_, hscope, hconfig.trans h.settings, ?_⟩
      · rw [htable]
        exact remove_filled h.inv.laid h.filled
      · rw [hget]
        by_cases ha : a = r.record.dstAddr
        · subst ha
          simp
        · rw [if_neg ha, h.heap a]
          exact (Function.update_of_ne ha _ _).symm
      · by_cases ha : a = r.record.dstAddr
        · subst ha
          simp at hn
        · exact h.ends a n ((Function.update_of_ne ha _ _).symm.trans hn)
      · exact ⟨hmaps.chipInfo, hmaps.type, hmaps.atomic, hmaps.wf, hmaps.gm, hmaps.blocks,
          hmaps.chips⟩
  · rw [if_pos hgm]
    obtain ⟨hblocks, htable⟩ := @HeapCoverage.process_of_ne_gm s r hreal hgm
    refine ⟨hinv, htable ▸ h.filled, fun a => hblocks ▸ h.heap a, h.ends, hscope,
      hconfig.trans h.settings, ?_⟩
    cases hact : r.action with
    | malloc => exact h.maps_malloc hreal hact
    | free =>
      rw [(process_scope hreal).2.2, HeapRecord.doAction, hact]
      simpa [asanFree, hgm] using h.maps

/-! ### The other inputs -/

lemma Stands.setAtomic (h : Stands config mask s m) (enabled : Bool) :
    Stands config mask { s with shadowMemory := s.shadowMemory.setAtomic enabled }
      { m with atomic := enabled } :=
  ⟨h.inv.congr rfl rfl, h.filled, h.heap, h.ends, h.scope, h.settings, h.maps.setAtomic enabled⟩

lemma Stands.blockFinish (h : Stands config mask s m) :
    Stands config mask
      { s with shadowMemory := s.shadowMemory.resetChipMemory.resetPrivateMemory } m.resetChip :=
  ⟨h.inv.congr rfl rfl, h.filled, h.heap, h.ends, h.scope, h.settings, h.maps.reset⟩

lemma Stands.deviceInfo (h : Stands config mask s m) (type : DeviceType) (chipInfo : ChipInfo) :
    Stands config mask (s.setDeviceInfo type chipInfo config)
      { m.resetChip with type := type, chipInfo := chipInfo } :=
  ⟨h.inv.congr rfl rfl, h.filled, h.heap, h.ends, h.scope, rfl,
    .init h.maps.wf h.maps.atomic h.maps.gm type chipInfo⟩

lemma stands_new (type : DeviceType) (chipInfo : ChipInfo) :
    Stands config mask (AddressSanitizer.setDeviceInfo {} type chipInfo config)
      { Memory.resetChip ⟨type, chipInfo, false, fun _ => none, fun _ _ => {}⟩ with
        type := type, chipInfo := chipInfo } := by
  refine ⟨HeapCoverage.Inv.start type chipInfo config, by simp [setDeviceInfo, Filled], fun a => ?_,
    fun a n hn => (by cases hn), rfl, rfl, .init (wf_new _) rfl (fun _ a ha => ?_) type chipInfo⟩
  · exact (congrArg (Option.map HeapBlock.len) Std.TreeMap.getElem?_emptyc)
  · rw [show (AddressSanitizer.shadowMemory {}).gm = Pm.GmPM.new defaultValue from rfl,
      gm_new_getBits _ ha]
    exact encodesByte_default

/-! ### Runs -/

lemma Simulates.devices (h : Simulates config mask p q) (d : ℤ) :
    p.devices d = none ∧ q.devices d = none ∨
      ∃ s m, p.devices d = some s ∧ q.devices d = some m ∧ Stands config mask s m := by
  cases hs : p.devices d with
  | none => exact .inl ⟨rfl, (h.none_iff d).mp hs⟩
  | some s =>
    obtain ⟨m, hm, hst⟩ := h.exists_memory hs
    exact .inr ⟨s, m, rfl, hm, hst⟩

lemma Simulates.setDevice (h : Simulates config mask p q) (hst : Stands config mask s m) :
    Simulates config mask (p.setDevice device s) (q.setDevice device m) := by
  unfold HostProcess.setDevice Process.setDevice
  refine ⟨h.relations, fun d => ?_, fun {d s' m'} hs hm => ?_⟩
  · by_cases hd : d = device
    · subst hd
      simp
    · simpa [Function.update_of_ne hd] using h.none_iff d
  · by_cases hd : d = device
    · subst hd
      obtain rfl : s = s' := by simpa using hs
      obtain rfl : m = m' := by simpa using hm
      exact hst
    · refine h.stands (d := d) ?_ ?_
      · simpa [Function.update_of_ne hd] using hs
      · simpa [Function.update_of_ne hd] using hm

lemma Simulates.onDevice (h : Simulates config mask p q)
    {f : AddressSanitizer → List ErrorMsg × AddressSanitizer} {g : Memory → Memory}
    (hfg : ∀ s m, p.devices device = some s → q.devices device = some m →
      Stands config mask s m → Stands config mask (f s).2 (g m)) :
    Simulates config mask (p.onDevice device f).2 (q.onDevice device g) := by
  unfold HostProcess.onDevice Process.onDevice
  rcases h.devices device with ⟨hs, hm⟩ | ⟨s, m, hs, hm, hst⟩
  · rw [hs, hm]
    exact h
  · rw [hs, hm]
    exact h.setDevice (hfg s m hs hm hst)

/-- **One input** keeps the sanitizers standing for the memory of the devices. -/
lemma Simulates.step (h : Simulates config mask p q) (pid : ℤ) {i : Input}
    (hfit : Fits config mask q i) :
    Simulates config mask (AsanAccess.step pid config mask p i).2 (step pid config q i) := by
  cases i with
  | deviceInfo device type chipInfo =>
    unfold AsanAccess.step DeviceMemory.step
    dsimp only
    rcases h.devices device with ⟨hs, hm⟩ | ⟨s, m, hs, hm, hst⟩
    · rw [hs, hm]
      exact h.setDevice (stands_new type chipInfo)
    · rw [hs, hm]
      exact h.setDevice (hst.deviceInfo type chipInfo)
  | peerAccess record =>
    refine ⟨?_, h.none_iff, h.stands⟩
    change (apply pid record p.relations).1 = (apply pid record q.relations).1
    rw [h.relations]
  | host device r => exact h.onDevice fun s m _ hm hst => hst.host hfit.1 (hfit.2 m hm)
  | atomic device enabled => exact h.onDevice fun s m _ _ hst => hst.setAtomic enabled
  | blockFinish device => exact h.onDevice fun s m _ _ hst => hst.blockFinish
  | access device record =>
    exact h.onDevice fun s m _ hm hst => (h.doMemOpRecord hst (hfit m hm)).2

lemma simulates_start : Simulates config mask {} {} :=
  ⟨rfl, fun _ => iff_of_true rfl rfl, fun hs => by cases hs⟩

/-- **A run** of inputs that fit. -/
lemma simulates_run (pid : ℤ) {inputs : List Input}
    (hfit : ∀ pre i, pre ++ [i] <+: inputs → Fits config mask (run pid config pre) i) :
    Simulates config mask (AsanAccess.run pid config mask inputs) (run pid config inputs) := by
  induction inputs using List.reverseRecOn with
  | nil => exact simulates_start
  | append_singleton pre i ih =>
    rw [AsanAccess.run_concat, run_concat]
    refine (ih fun pre' i' h' => hfit pre' i' ?_).step pid (hfit pre i List.prefix_rfl)
    exact h'.trans (List.prefix_append pre [i])

/-- What the memory of the devices says that an input should report. -/
noncomputable def accessReports (config : Config) (mask : ℕ) (q : Process) (device : ℤ)
    (record : MemOpRecord) : List ErrorMsg :=
  match q.devices device with
  | none => []
  | some m => q.reports config mask device m record

/-- **Every access of a session reports exactly what it should.** Whatever the devices are given
before, as long as blocks lie beside one another and accesses fit the shadow memory, an access is
reported with the bytes it may not touch, unless a device that it may access has all of them, with
the bytes it reads that no store has written since they were last undefined, and with the bytes of
other cores that it overwrites. -/
theorem session_reports_accesses (pid : ℤ) {inputs : List Input}
    (hfit : ∀ pre i, pre ++ [i] <+: inputs → Fits config mask (run pid config pre) i)
    {pre : List Input} {device : ℤ} {record : MemOpRecord}
    (hpre : pre ++ [.access device record] <+: inputs) :
    (AsanAccess.step pid config mask (AsanAccess.run pid config mask pre)
        (.access device record)).1 =
      accessReports config mask (run pid config pre) device record := by
  have hsim : Simulates config mask (AsanAccess.run pid config mask pre) (run pid config pre) :=
    simulates_run pid fun pre' i h' =>
      hfit pre' i (h'.trans ((List.prefix_append pre _).trans hpre))
  have hacc := hfit pre _ hpre
  unfold AsanAccess.step HostProcess.onDevice accessReports
  dsimp only
  rcases hsim.devices device with ⟨hs, hm⟩ | ⟨s, m, hs, hm, hst⟩
  · rw [hs, hm]
  · rw [hs, hm]
    exact (hsim.doMemOpRecord hst (hacc m hm)).1

lemma oneBlock_addr_lt : 64 < 2 ^ 64 := by decide

lemma oneBlock_size_lt : 16 < 2 ^ 64 := by decide

def oneBlock : List Input :=
  [.deviceInfo 0 ⟨0⟩ {},
    .host 0 (HeapCoverage.rtRecord .malloc 64 16 oneBlock_addr_lt oneBlock_size_lt)]

def storeOver : MemOpRecord :=
  { type := .store, coreId := 1, dstAddr := 72, dstSpace := .gm, memSize := 16 }

/-- A store that runs over the end of the only block of a device. -/
theorem session_reports_accesses_store :
    (AsanAccess.step 1 { memCheck := true } 0 (AsanAccess.run 1 { memCheck := true } 0 oneBlock)
        (.access 0 storeOver)).1 =
      accessReports { memCheck := true } 0 (run 1 { memCheck := true } oneBlock) 0 storeOver := by
  have hsize : ∀ m : Memory, m.extent .gm 72 16 = (72, 16) := by
    intro m
    unfold Memory.extent
    rw [size_gm]
    decide
  refine session_reports_accesses 1 (fun pre i h => ?_) List.prefix_rfl
  obtain ⟨t, ht⟩ := h
  rcases pre with _ | ⟨a, _ | ⟨b, _ | ⟨c, pre⟩⟩⟩ <;>
    simp only [oneBlock, List.cons_append, List.nil_append, List.cons.injEq] at ht
  · rw [ht.1]
    trivial
  · obtain ⟨rfl, rfl, -⟩ := ht
    refine ⟨rfl, fun m hm _ _ => ?_⟩
    obtain rfl : _ = m := Option.some.inj hm
    refine ⟨by decide, by decide, fun _ x _ _ hx => ?_, fun hne => absurd rfl hne⟩
    obtain ⟨a, n, hn, -⟩ := hx
    cases hn
  · obtain ⟨rfl, rfl, rfl, -⟩ := ht
    intro m _
    refine ⟨by decide, by decide, fun _ => ⟨by decide, by decide, .inr ?_⟩⟩
    rw [show m.extent .gm storeOver.dstAddr storeOver.memSize = (72, 16) from hsize m]
    decide
  · simp at ht

end MsSanitizer.DeviceMemory
