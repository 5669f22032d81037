import MsSanitizer.AccessShadow
import MsSanitizer.TableChecks

/-!
# The reports of an access

The sanitizers of a process, their tables, blocks and shadow bytes on one side, the memory of the
devices on the other. Where the one stands for the other, what an access reports can be read off
the memory.
-/

namespace MsSanitizer.DeviceMemory

open MsSanitizer.RecordDefs MsSanitizer.Segs MsSanitizer.Words MsSanitizer.Bounds
open MsSanitizer.BoundsCheck MsSanitizer.BoundsUpdate MsSanitizer.GmBytes
open MsSanitizer.HeapBlocks MsSanitizer.HeapBlocks.HeapBlockManager
open MsSanitizer.Shadow MsSanitizer.Shadow.ShadowMemory
open MsSanitizer.AsanAction MsSanitizer.AsanAction.AddressSanitizer MsSanitizer.AsanAccess
open MsSanitizer.HeapCoverage (IsReal IsReal.src IsReal.scope)

/-- A sanitizer stands for the memory of its device. -/
structure Stands (config : Config) (mask : ℕ) (s : AddressSanitizer) (m : Memory) : Prop where
  inv : HeapCoverage.Inv s
  filled : Filled s.boundsCheckRuntime
  heap : ∀ a, (s.blocks[a]?).map HeapBlock.len = m.heap a
  ends : ∀ a n, m.heap a = some n → a + n ≤ setLimit
  scope : s.scopes.scope = .runtime
  settings : s.config = config
  maps : Maps config mask s.shadowMemory m

variable {config : Config} {mask : ℕ} {s : AddressSanitizer} {m : Memory} {record : MemOpRecord}
variable {addr size : ℕ} {accessType : AccessType}

/-! ### The table -/

lemma Stands.live_iff (h : Stands config mask s m) (x : ℕ) :
    HeapCoverage.Live s.blocks x ↔ m.Live x := by
  rw [h.inv.apart.live_iff]
  constructor
  · rintro ⟨a, b, hb, hx⟩
    exact ⟨a, b.len, by rw [← h.heap, hb]; rfl, hx⟩
  · rintro ⟨a, n, hn, hx⟩
    rw [← h.heap] at hn
    obtain ⟨b, hb, rfl⟩ := Option.map_eq_some_iff.mp hn
    exact ⟨a, b, hb, hx⟩

lemma Stands.look_iff (h : Stands config mask s m) (x : ℕ) :
    (look s.boundsCheckRuntime x).isSome ↔ m.Live x := (h.inv.covers x).trans (h.live_iff x)

lemma Stands.permission (h : Stands config mask s m) {r : Range} (hr : r ∈ s.boundsCheckRuntime) :
    r.permission = defaultPermission := h.inv.permission (h.filled.look_addrL h.inv.laid hr)

lemma hasPermission_default (accessType : AccessType) :
    hasPermission defaultPermission accessType = true := by
  cases accessType <;> decide

lemma Stands.good_iff (h : Stands config mask s m) (accessType : AccessType) (x : ℕ) :
    Good accessType s.boundsCheckRuntime x ↔ m.Live x := by
  rw [← h.look_iff]
  constructor
  · rintro ⟨r, hr, -, hx⟩
    rw [h.inv.laid.look_eq hr hx]
    rfl
  · intro hx
    obtain ⟨p, hp⟩ := Option.isSome_iff_exists.mp hx
    obtain ⟨r, hr, -, hrx⟩ := exists_of_look hp
    exact ⟨r, hr, by rw [h.permission hr]; exact hasPermission_default accessType, hrx⟩

open Classical in
lemma illegalBytes_one (m : Memory) (space : AddressSpace) (addr : ℕ) :
    m.illegalBytes space addr (max 1 0) = if m.Legal space addr then 0 else 1 := by
  unfold Memory.illegalBytes
  rw [Finset.card_filter]
  simp [ite_not]

lemma Stands.check_gm (h : Stands config mask s m) (hs : size < 2 ^ 64) :
    Bounds.check addr size accessType s.boundsCheckRuntime =
      if 0 < m.illegalBytes .gm addr (max 1 size) then
        badAccess addr (m.illegalBytes .gm addr (max 1 size)) else {} := by
  rcases Nat.eq_zero_or_pos size with rfl | hpos
  · have hlook := h.look_iff addr
    rw [illegalBytes_one, Bounds.check, if_pos rfl, checkAddrOnly_eq h.inv.laid]
    by_cases hlive : m.Live addr
    · rw [if_pos (hlook.mpr hlive), if_pos (show m.Legal .gm addr from hlive)]
      rfl
    · rw [if_neg (hlook.not.mpr hlive), if_neg (show ¬ m.Legal .gm addr from hlive)]
      rfl
  · have hcount : (badBytes addr size accessType s.boundsCheckRuntime).card =
        m.illegalBytes .gm addr size := by
      classical
      unfold Memory.illegalBytes
      congr 1
      ext k
      rw [mem_badBytes, Finset.mem_filter, Finset.mem_range, h.good_iff]
      rfl
    rw [(check_eq h.inv.laid (fun r hr => h.filled.lt hr) hs hpos).1, hcount,
      max_eq_right hpos]

/-- What the bounds of a memory on chip say of an access. -/
lemma check_chip {space : AddressSpace} {n : ℕ} (hn : n < 2 ^ 64) (hs : size < 2 ^ 64)
    (hlegal : ∀ x, m.Legal space x ↔ x < n) :
    unionCheck addr size accessType (unionRange 0 n) =
      if 0 < m.illegalBytes space addr (max 1 size) then
        badAccess addr (m.illegalBytes space addr (max 1 size)) else {} := by
  have hrange : unionRange 0 n = ⟨0, n, defaultPermission⟩ := by
    rw [unionRange, add64_eq (by omega), Nat.zero_add]
  rw [hrange]
  rcases Nat.eq_zero_or_pos size with rfl | hpos
  · rw [illegalBytes_one, unionCheck, if_pos rfl, unionCheckAddrOnly]
    by_cases hx : addr < n
    · rw [if_neg (by simpa using hx), if_pos ((hlegal addr).mpr hx)]
      rfl
    · rw [if_pos (.inr (not_lt.mp hx)), if_neg ((hlegal addr).not.mpr hx)]
      rfl
  · have hcount : (badBytes addr size accessType [⟨0, n, defaultPermission⟩]).card =
        m.illegalBytes space addr size := by
      unfold Memory.illegalBytes
      congr 1
      ext k
      simp [good_cons, hasPermission_default, hlegal]
    rw [@unionCheck_eq _ _ _ ⟨0, n, defaultPermission⟩ hn hs hpos, hcount, max_eq_right hpos]

/-- **What the bounds say of an access** to a known space. -/
lemma Stands.check (h : Stands config mask s m) {space : AddressSpace} (hspace : space ≠ .unknown)
    (hs : size < 2 ^ 64) :
    (BoundsCheck.ofChip s.shadowMemory.chipInfo s.boundsCheckRuntime).check space addr size
        accessType =
      if 0 < m.illegalBytes space addr (max 1 size) then
        badAccess addr (m.illegalBytes space addr (max 1 size)) else {} := by
  have hfree : ∀ space, (∀ x, m.Legal space x) → m.illegalBytes space addr (max 1 size) = 0 := by
    intro space hall
    unfold Memory.illegalBytes
    classical
    rw [Finset.card_eq_zero, Finset.filter_eq_empty_iff]
    exact fun k _ hno => hno (hall _)
  have hlt : ∀ n : UInt32, n.toNat < 2 ^ 64 := fun n => n.toNat_lt.trans (by norm_num)
  rw [h.maps.chipInfo]
  cases space with
  | unknown => exact absurd rfl hspace
  | gm => exact h.check_gm hs
  | bt =>
    rw [hfree .bt fun _ => trivial]
    rfl
  | fb =>
    rw [hfree .fb fun _ => trivial]
    rfl
  | _ => exact check_chip (hlt _) hs fun x => Iff.rfl

lemma illegalBytes_eq_zero_iff {space : AddressSpace} {n : ℕ} :
    m.illegalBytes space addr n = 0 ↔ ∀ x, addr ≤ x → x < addr + n → m.Legal space x := by
  classical
  unfold Memory.illegalBytes
  rw [Finset.card_eq_zero, Finset.filter_eq_empty_iff]
  constructor
  · intro hall x h1 h2
    obtain ⟨k, rfl⟩ := Nat.exists_eq_add_of_le h1
    exact not_not.mp (hall (Finset.mem_range.mpr (by omega)))
  · intro hall k hk
    exact not_not.mpr (hall _ (Nat.le_add_right _ _)
      (Nat.add_lt_add_left (Finset.mem_range.mp hk) _))

/-! ### Other devices -/

/-- A process of sanitizers stands for the memory of its devices. -/
structure Simulates (config : Config) (mask : ℕ) (p : HostProcess) (q : Process) : Prop where
  relations : p.relations = q.relations
  none_iff : ∀ d, p.devices d = none ↔ q.devices d = none
  stands : ∀ {d s m}, p.devices d = some s → q.devices d = some m → Stands config mask s m

variable {p : HostProcess} {q : Process} {device : ℤ}

lemma Simulates.exists_memory (h : Simulates config mask p q) {d : ℤ}
    (hs : p.devices d = some s) : ∃ m, q.devices d = some m ∧ Stands config mask s m := by
  have hne : q.devices d ≠ none := (h.none_iff d).not.mp (by simp [hs])
  obtain ⟨m, hm⟩ := Option.ne_none_iff_exists'.mp hne
  exact ⟨m, hm, h.stands hs hm⟩

lemma Simulates.exists_sanitizer (h : Simulates config mask p q) {d : ℤ}
    (hm : q.devices d = some m) : ∃ s, p.devices d = some s ∧ Stands config mask s m := by
  have hne : p.devices d ≠ none := (h.none_iff d).not.mpr (by simp [hm])
  obtain ⟨s, hs⟩ := Option.ne_none_iff_exists'.mp hne
  exact ⟨s, hs, h.stands hs hm⟩

/-- A device covers an access that lies in its live blocks. -/
lemma Stands.checkExistingGmRange (h : Stands config mask s m) (hpos : 0 < size)
    (hs : size < 2 ^ 64) :
    checkExistingGmRange s addr size accessType = true ↔
      ∀ x, addr ≤ x → x < addr + size → m.Live x := by
  have hgm : gmOfScope s = s.boundsCheckRuntime := by
    rw [gmOfScope, h.scope, if_neg (by decide)]
  have hzero := @illegalBytes_eq_zero_iff m addr .gm size
  unfold AsanAccess.checkExistingGmRange
  rw [hgm, h.check (by decide) hs, max_eq_right hpos]
  rw [show (∀ x, addr ≤ x → x < addr + size → m.Live x) ↔ m.illegalBytes .gm addr size = 0 from
    hzero.symm]
  split_ifs with hbad
  · simp [badAccess, hbad.ne']
  · simp [Nat.eq_zero_of_not_pos hbad]

/-- **A look at other devices.** -/
lemma Simulates.checkRemote_iff (h : Simulates config mask p q) :
    p.checkRemote device addr size accessType = true ↔
      0 < size ∧ addr + size < 2 ^ 64 ∧
        ∃ peer m', (device, peer) ∈ q.relations ∧ q.devices peer = some m' ∧
          ∀ x, addr ≤ x → x < addr + size → m'.Live x := by
  unfold HostProcess.checkRemote PeerAccessManager.checkRemote
  rw [h.relations]
  by_cases hsize : size = 0 ∨ 2 ^ 64 - 1 < addr + size
  · rw [if_pos hsize]
    refine iff_of_false Bool.false_ne_true ?_
    rintro ⟨hpos, hlt, -⟩
    omega
  · rw [if_neg hsize, decide_eq_true_eq]
    push Not at hsize
    have hpos : 0 < size := by omega
    have hlt : addr + size < 2 ^ 64 := by omega
    simp only [hpos, hlt, true_and]
    constructor
    · rintro ⟨⟨a, peer⟩, hmem, rfl, hcov⟩
      obtain ⟨s', hs', hcov⟩ := Option.map_eq_some_iff.mp hcov
      obtain ⟨m', hm', hst⟩ := h.exists_memory hs'
      exact ⟨peer, m', hmem, hm', (hst.checkExistingGmRange hpos (by omega)).mp hcov⟩
    · rintro ⟨peer, m', hmem, hm', hlive⟩
      obtain ⟨s', hs', hst⟩ := h.exists_sanitizer hm'
      refine ⟨(device, peer), hmem, rfl, ?_⟩
      rw [hs', Option.map_some, (hst.checkExistingGmRange hpos (by omega)).mpr hlive]

/-- The look at other devices that an illegal access is given. -/
lemma Simulates.checkPeerAccessAddr_iff (h : Simulates config mask p q)
    (hst : Stands config mask s m) :
    (p.env mask device s s.boundsCheckRuntime).checkPeerAccessAddr record accessType = true ↔
      record.dstSpace = .gm ∧ q.PeerAllows device m record.dstAddr record.memSize := by
  unfold Env.checkPeerAccessAddr Process.PeerAllows
  by_cases hgm : record.dstSpace = .gm
  · rw [if_neg (not_not_intro hgm)]
    have hremote := @Simulates.checkRemote_iff _ mask record.dstAddr record.memSize accessType p q
      device h
    by_cases hsize : 0 < record.memSize ∧ record.dstAddr + record.memSize < 2 ^ 64
    · have hover := hasOverlap_iff hst.inv.laid hst.filled hsize.1 hsize.2
      simp only [hst.look_iff] at hover
      have hbounds : (p.env mask device s s.boundsCheckRuntime).bounds.hasOverlap record.dstSpace
          record.dstAddr record.memSize =
          Bounds.hasOverlap record.dstAddr record.memSize s.boundsCheckRuntime := by
        rw [hgm]
        rfl
      rw [hbounds]
      split_ifs with hmeet
      · obtain ⟨x, h1, h2, hx⟩ := hover.mp hmeet
        refine iff_of_false (by simp) ?_
        rintro ⟨-, -, -, hno, -⟩
        exact hno x h1 h2 hx
      · have hno : ∀ x, record.dstAddr ≤ x → x < record.dstAddr + record.memSize →
            ¬ m.Live x := fun x h1 h2 hx => hmeet (hover.mpr ⟨x, h1, h2, hx⟩)
        refine hremote.trans ?_
        simp only [hgm, hsize, true_and]
        exact (and_iff_right hno).symm
    · refine iff_of_false (fun hc => ?_) fun hc => hsize ⟨hc.2.1, hc.2.2.1⟩
      split_ifs at hc with hmeet
      have hrem := hremote.mp hc
      exact hsize ⟨hrem.1, hrem.2.1⟩
  · rw [if_pos hgm]
    exact iff_of_false Bool.false_ne_true fun hc => hgm hc.1

/-- **The check of the bounds.** -/
lemma Simulates.checkIllegal (h : Simulates config mask p q) (hst : Stands config mask s m)
    (hs : record.memSize < 2 ^ 64) (accessType : AccessType) (error : MemErrorType) :
    (p.env mask device s s.boundsCheckRuntime).checkIllegal record accessType error =
      q.illegalReports config device m record error := by
  have hpeer := @Simulates.checkPeerAccessAddr_iff _ mask s m record accessType p q device h hst
  have hconfig : (p.env mask device s s.boundsCheckRuntime).config = config := hst.settings
  unfold Env.checkIllegal Process.illegalReports
  rw [hconfig]
  by_cases hon : config.memCheck = true ∧ record.ignoreIllegalCheck = false
  · rw [if_pos hon, if_pos (by simp [hon])]
    dsimp only
    rcases eq_or_ne record.dstSpace .unknown with hspace | hspace
    · -- an unknown space is never that of another device
      have hno : (p.env mask device s s.boundsCheckRuntime).checkPeerAccessAddr record accessType =
          false := by
        rw [Bool.eq_false_iff, ne_eq, hpeer, hspace]
        exact fun hc => AddressSpace.noConfusion hc.1
      have hill : m.illegal record.dstSpace record.dstAddr record.memSize =
          some record.memSize := if_pos hspace
      have hmsg : ((p.env mask device s s.boundsCheckRuntime).bounds.check record.dstSpace
          record.dstAddr record.memSize accessType).setType error record.dstSpace record.dstAddr =
          (badAccess record.dstAddr record.memSize).setType error record.dstSpace
            record.dstAddr := by
        rw [hspace]
        rfl
      have haddr : ((p.env mask device s s.boundsCheckRuntime).bounds.check record.dstSpace
          record.dstAddr record.memSize accessType).isError = true ∧
          ((p.env mask device s s.boundsCheckRuntime).bounds.check record.dstSpace
            record.dstAddr record.memSize accessType).auxData.badAddr = record.dstAddr := by
        rw [hspace]
        exact ⟨rfl, rfl⟩
      have hnot : ¬ (record.dstSpace = .gm ∧
          q.PeerAllows device m record.dstAddr record.memSize) := by
        rw [hspace]
        exact fun hc => AddressSpace.noConfusion hc.1
      rw [hno, hill, haddr.1, haddr.2, hmsg]
      simp only [if_neg hnot]
      rfl
    · have hcheck := @Stands.check _ mask s m record.dstAddr record.memSize accessType hst _
        hspace hs
      rw [show (p.env mask device s s.boundsCheckRuntime).bounds.check record.dstSpace
        record.dstAddr record.memSize accessType = _ from hcheck]
      unfold Memory.illegal
      rw [if_neg hspace]
      by_cases hbad : 0 < m.illegalBytes record.dstSpace record.dstAddr (max 1 record.memSize)
      · rw [if_pos hbad, if_pos hbad]
        rcases hallow : (p.env mask device s s.boundsCheckRuntime).checkPeerAccessAddr record
          accessType with _ | _
        · have hnot := hpeer.not.mp (by simp [hallow])
          simp only [if_neg hnot]
          rfl
        · simp only [if_pos (hpeer.mp hallow)]
          rfl
      · rw [if_neg hbad, if_neg hbad]
        rfl
  · rw [if_neg hon, if_neg (by simpa using hon)]

/-! ### An access -/

lemma Simulates.asanLoad (h : Simulates config mask p q) (hst : Stands config mask s m)
    (hfit : LoadFits config mask m record) :
    (p.env mask device s s.boundsCheckRuntime).asanLoad s.shadowMemory false record =
      q.loadReports config mask device m record := by
  have hconfig : (p.env mask device s s.boundsCheckRuntime).config = config := hst.settings
  have hon : (p.env mask device s s.boundsCheckRuntime).initcheckEnabled record.dstSpace =
      Process.initcheckOn config mask record.dstSpace := by
    unfold Env.initcheckEnabled
    rw [hconfig]
    rfl
  unfold Env.asanLoad Process.loadReports
  rw [h.checkIllegal hst hfit.2.1, hconfig, hon, Bool.not_false, Bool.and_true]
  by_cases hinit : Process.initcheckOn config mask record.dstSpace = true
  · rw [if_pos hinit, hst.maps.load hinit hfit]
    simp only [hinit, true_and]
  · rw [if_neg hinit, if_neg fun hc => hinit hc.1]

lemma Simulates.asanStore (h : Simulates config mask p q) (hst : Stands config mask s m)
    (hfit : StoreFits m record) :
    ((p.env mask device s s.boundsCheckRuntime).asanStore s.shadowMemory false record).1 =
        q.storeReports config device m record ∧
      Maps config mask
        ((p.env mask device s s.boundsCheckRuntime).asanStore s.shadowMemory false record).2
        (m.store config record) := by
  have hconfig : (p.env mask device s s.boundsCheckRuntime).config = config := hst.settings
  have hon : (p.env mask device s s.boundsCheckRuntime).initcheckEnabled record.dstSpace =
      Process.initcheckOn config mask record.dstSpace := by
    unfold Env.initcheckEnabled
    rw [hconfig]
    rfl
  unfold Env.asanStore Process.storeReports
  rw [h.checkIllegal hst hfit.2.1, hconfig, hon, Bool.not_false, Bool.and_true]
  by_cases hfollow : Followed config mask record.dstSpace
  · obtain ⟨hmsgs, hmaps⟩ := hst.maps.store hfollow hfit
    rw [if_pos (by simpa [Followed] using hfollow)]
    exact ⟨congrArg _ hmsgs, hmaps⟩
  · rw [if_neg (by simpa [Followed] using hfollow)]
    refine ⟨?_, ?_⟩
    · rw [if_neg fun hc => hfollow (.inr hc), List.append_nil]
    · unfold Memory.store
      exact hst.maps.ignored hfollow _ _ _

lemma asanStore_heap (env : Env) (sm : ShadowMemory) (ignoreShadowMemory : Bool)
    (record : MemOpRecord) :
    (env.asanStore sm ignoreShadowMemory record).2.heapBlockManager = sm.heapBlockManager ∧
      (env.asanStore sm ignoreShadowMemory record).2.unusedHeap = sm.unusedHeap := by
  unfold Env.asanStore
  split_ifs
  · exact storeNBytes_heap sm _ _ _
  · exact ⟨rfl, rfl⟩

/-- **An access reports what it should**, and the sanitizer still stands for the memory. -/
lemma Simulates.doMemOpRecord (h : Simulates config mask p q) (hst : Stands config mask s m)
    (hfit : AccessFits config mask m record) :
    (p.doMemOpRecord mask device s record).1 = q.reports config mask device m record ∧
      Stands config mask (p.doMemOpRecord mask device s record).2
        (Process.access config m record) := by
  have hrun : p.doMemOpRecord mask device s record =
      (((p.env mask device s s.boundsCheckRuntime).doAction s.shadowMemory false record).1,
        { s with
          shadowMemory := ((p.env mask device s s.boundsCheckRuntime).doAction s.shadowMemory
            false record).2 }) := by
    unfold HostProcess.doMemOpRecord
    rw [hst.scope]
  have hkeep : ∀ {sm : ShadowMemory} {m' : Memory}, sm.heapBlockManager =
      s.shadowMemory.heapBlockManager → m'.heap = m.heap → Maps config mask sm m' →
      Stands config mask { s with shadowMemory := sm } m' := by
    intro sm m' hblocks hheap hmaps
    refine ⟨hst.inv.congr (congrArg HeapBlockManager.heapBlocks hblocks) rfl, hst.filled,
      fun a => ?_, ?_, hst.scope, hst.settings, hmaps⟩
    · rw [hheap, ← hst.heap a]
      exact congrArg (fun b : HeapBlockManager => (b.heapBlocks[a]?).map HeapBlock.len) hblocks
    · rw [hheap]
      exact hst.ends
  rw [hrun]
  unfold Env.doAction Process.reports Process.access
  unfold AccessFits at hfit
  cases htype : record.type with
  | load =>
    rw [htype] at hfit
    exact ⟨h.asanLoad hst hfit, hst⟩
  | store =>
    rw [htype] at hfit
    obtain ⟨hmsgs, hmaps⟩ := @Simulates.asanStore _ mask s m record p q device h hst hfit
    exact ⟨hmsgs, hkeep (asanStore_heap _ _ _ _).1 rfl hmaps⟩
  | memcpyBlocks =>
    rw [htype] at hfit
    obtain ⟨hmsgs, hmaps⟩ := @Simulates.asanStore _ mask s m record p q device h hst hfit.2
    have hload := @Simulates.asanLoad _ mask s m (Process.source record) p q device h hst hfit.1
    exact ⟨congrArg₂ (· ++ ·) hload hmsgs, hkeep (asanStore_heap _ _ _ _).1 rfl hmaps⟩
  | _ => exact ⟨rfl, hst⟩

end MsSanitizer.DeviceMemory
