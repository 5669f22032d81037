import MsSanitizer.OpExtent
import MsSanitizer.ScanlineFast
import MsSanitizer.SeriesOverlap

/-!
# The scan of plain memory events

Of events that are memory operations with numbers in their words, the scans hand over the pairs
that share a byte, are not both reads, and pass the other conditions of their check function.
-/

namespace MsSanitizer.MemEventChecker

open RecordDefs EventDef Words MemSeries OpExtent

/-- The bytes of an operation for the check: a mask that selects nothing leaves none. -/
def touched (op : MemOpInfo) : Set ℕ :=
  if op.maskMode = .count ∧ (op.mask0 = 0 ∨ op.dataBits = 0) then ∅ else bytes op

/-- The numbers of the scan fit their words: 32 bits for the length of an operation, 64 bits for
its addresses. -/
def FitsScan (op : MemOpInfo) : Prop :=
  touched op = ∅ ∨ FitsSeries op ∧ extent op < 2 ^ 32

/-- Two operations on one memory that share a byte and are not both reads. -/
def Clash (op1 op2 : MemOpInfo) : Prop :=
  op1.memType = op2.memType ∧ (touched op1 ∩ touched op2).Nonempty ∧
    ¬ (op1.opType = .read ∧ op2.opType = .read)

variable {op op1 op2 : MemOpInfo} {e : MemEvent} {events : List MemEvent} {c h : ℕ}

lemma Clash.symm (hc : Clash op1 op2) : Clash op2 op1 :=
  ⟨hc.1.symm, Set.inter_comm _ _ ▸ hc.2.1, fun hr => hc.2.2 ⟨hr.2, hr.1⟩⟩

lemma ne_of_mem_scan {check : CheckTypeFunc} (hlen : events.length ≤ 2 ^ 32)
    (hch : (c, h) ∈ idxPairs (scanGeneric events check (buildScanlineMetaData events))) :
    c < events.length ∧ h < events.length ∧ c ≠ h := by
  obtain ⟨hc, hh, hb, -⟩ := (mem_scanGeneric_iff hlen check).mp hch
  refine ⟨hc.1, hh.1, ?_⟩
  rintro rfl
  unfold StartsBefore at hb
  omega

lemma getMemMaxLength_of_touched (hd : e.isDynamic = false) (ht : touched e.memInfo = ∅) :
    getMemMaxLength e = 0 := by
  simp only [getMemMaxLength, hd, Bool.false_eq_true, if_false]
  split_ifs with h1 h2
  · rfl
  · rfl
  · rw [not_or, not_or] at h2
    rw [touched, if_neg h1, Set.eq_empty_iff_forall_notMem] at ht
    refine absurd ?_ (ht e.memInfo.addr)
    refine ⟨0, Nat.pos_of_ne_zero h2.1, 0, Nat.pos_of_ne_zero h2.2.1, by simp, ?_⟩
    have := Nat.pos_of_ne_zero h2.2.2
    simpa using this

lemma interval_eq (hd : e.isDynamic = false) (hf : FitsScan e.memInfo)
    (ht : touched e.memInfo ≠ ∅) :
    startAddr e = e.memInfo.addr ∧ endAddr e = e.memInfo.addr + extent e.memInfo ∧
      getMemMaxLength e = extent e.memInfo ∧ FitsSeries e.memInfo := by
  obtain ⟨hs, hx⟩ := hf.resolve_left ht
  have hmask : ¬ (e.memInfo.maskMode = .count ∧
      (e.memInfo.mask0 = 0 ∨ e.memInfo.dataBits = 0)) := by
    intro hc
    rw [touched, if_pos hc] at ht
    exact ht rfl
  have hne : ¬ (e.memInfo.repeatTimes = 0 ∨ e.memInfo.blockNum = 0 ∨ e.memInfo.blockSize = 0) := by
    have h1 := hs.repeatTimes
    have h2 := hs.blockNum
    have h3 := hs.blockSize
    omega
  have hlen : getMemMaxLength e = extent e.memInfo := by
    simp only [getMemMaxLength, hd, Bool.false_eq_true, if_false, if_neg hmask, if_neg hne]
    exact Nat.mod_eq_of_lt hx
  have hlast := hs.last
  refine ⟨?_, ?_, hlen, hs⟩
  · simp only [startAddr, hd, Bool.false_eq_true, if_false]
    exact Nat.mod_eq_of_lt (by omega)
  · simp only [endAddr, hd, Bool.false_eq_true, if_false, hlen, add64]
    exact Nat.mod_eq_of_lt hlast

lemma touched_subset (ht : touched op ≠ ∅) : touched op = bytes op := by
  unfold touched at ht ⊢
  split_ifs with hc
  · rw [if_pos hc] at ht
    exact absurd rfl ht
  · rfl

lemma bytes_subset_extent : bytes op ⊆ Set.Ico op.addr (op.addr + extent op) := by
  rintro x ⟨r, hr, b, hb, hlo, hhi⟩
  have := block_end_le hr hb
  exact ⟨by omega, by omega⟩

lemma eventAt_mem (hc : c < events.length) : eventAt events c ∈ events := by
  simp only [eventAt, List.getD_eq_getElem?_getD, List.getElem?_eq_getElem hc, Option.getD_some]
  exact List.getElem_mem hc

lemma startsBefore_total (hne : c ≠ h) : StartsBefore events h c ∨ StartsBefore events c h := by
  unfold StartsBefore
  omega

section

variable (hd : ∀ e ∈ events, e.isDynamic = false) (hf : ∀ e ∈ events, FitsScan e.memInfo)
include hd

lemma touched_of_scanned (hs : Scanned events c) : touched (eventAt events c).memInfo ≠ ∅ :=
  fun ht => hs.2 (getMemMaxLength_of_touched (hd _ (eventAt_mem hs.1)) ht)

include hf

lemma scanned_of_touched (hc : c < events.length) (ht : touched (eventAt events c).memInfo ≠ ∅) :
    Scanned events c := by
  have hmem := eventAt_mem hc
  obtain ⟨-, -, hlen, hs⟩ := interval_eq (hd _ hmem) (hf _ hmem) ht
  refine ⟨hc, fun h0 => ?_⟩
  have := hs.blockSize
  rw [hlen, extent] at h0
  omega

lemma not_wraps_plain (hs : Scanned events c) : ¬ Wraps (eventAt events c) := by
  have hmem := eventAt_mem hs.1
  obtain ⟨h1, h2, -⟩ := interval_eq (hd _ hmem) (hf _ hmem) (touched_of_scanned hd hs)
  unfold Wraps
  omega

variable (hcopy : NoCopies events) (hlen : events.length ≤ 2 ^ 32) (check : CheckTypeFunc)
  {Q : ℕ → ℕ → Prop}
  (hcheck : ∀ c h, c < events.length → h < events.length → ((check c h).race = true ↔
    Q c h ∧ isMemoryOverlap (eventAt events c).memInfo (eventAt events h).memInfo = true))
include hcopy hlen hcheck

/-- The pairs of the scan, in the order in which their events start. -/
lemma mem_scan_ordered_iff (hc : c < events.length) (hh : h < events.length) :
    (c, h) ∈ idxPairs (scanGeneric events check (buildScanlineMetaData events)) ↔
      StartsBefore events h c ∧ Q c h ∧
        Clash (eventAt events c).memInfo (eventAt events h).memInfo := by
  have hread : ∀ {i}, i < events.length →
      (IsWrite events i ↔ (eventAt events i).memInfo.opType ≠ .read) := by
    intro i hi
    rw [hcopy.isWrite_iff hi, effOpType, hd _ (eventAt_mem hi)]
    simp
  have hmemType : ∀ {i}, i < events.length →
      effMemType (eventAt events i) = (eventAt events i).memInfo.memType := by
    intro i hi
    rw [effMemType, hd _ (eventAt_mem hi)]
    simp
  have hoverlap : touched (eventAt events c).memInfo ≠ ∅ → touched (eventAt events h).memInfo ≠ ∅ →
      (eventAt events c).memInfo.memType = (eventAt events h).memInfo.memType →
      (isMemoryOverlap (eventAt events c).memInfo (eventAt events h).memInfo = true ↔
        (touched (eventAt events c).memInfo ∩ touched (eventAt events h).memInfo).Nonempty) := by
    intro htc hth hty
    obtain ⟨-, -, -, hsc⟩ := interval_eq (hd _ (eventAt_mem hc)) (hf _ (eventAt_mem hc)) htc
    obtain ⟨-, -, -, hsh⟩ := interval_eq (hd _ (eventAt_mem hh)) (hf _ (eventAt_mem hh)) hth
    rw [touched_subset htc, touched_subset hth, overlap_iff_bytes hsc hsh hty]
  rw [mem_scanGeneric_iff hlen, hcheck c h hc hh, SameMem, hmemType hc, hmemType hh, hread hc,
    hread hh]
  constructor
  · rintro ⟨hsc, hsh, hb, -, hty, hw, hQ, hov⟩
    have htc := touched_of_scanned hd hsc
    have hth := touched_of_scanned hd hsh
    exact ⟨hb, hQ, hty.symm, (hoverlap htc hth hty.symm).mp hov, by tauto⟩
  · rintro ⟨hb, hQ, hty, hne, hw⟩
    have htc : touched (eventAt events c).memInfo ≠ ∅ := (hne.mono Set.inter_subset_left).ne_empty
    have hth : touched (eventAt events h).memInfo ≠ ∅ := (hne.mono Set.inter_subset_right).ne_empty
    obtain ⟨h1, -⟩ := interval_eq (hd _ (eventAt_mem hc)) (hf _ (eventAt_mem hc)) htc
    obtain ⟨-, h2, -⟩ := interval_eq (hd _ (eventAt_mem hh)) (hf _ (eventAt_mem hh)) hth
    refine ⟨scanned_of_touched hd hf hc htc, scanned_of_touched hd hf hh hth, hb, .inr ?_,
      hty.symm, by tauto, hQ, (hoverlap htc hth hty).mpr hne⟩
    obtain ⟨x, hxc, hxh⟩ := hne
    have hxc := bytes_subset_extent (touched_subset htc ▸ hxc)
    have hxh := bytes_subset_extent (touched_subset hth ▸ hxh)
    rw [Set.mem_Ico] at hxc hxh
    omega

/-- **The scan of plain events**: for a symmetric check, two different events are handed over, in
one order or the other, exactly when they clash and pass the rest of the check. -/
lemma mem_scan_plain_iff (hQ : ∀ c h, Q c h → Q h c) (hc : c < events.length)
    (hh : h < events.length) (hne : c ≠ h) :
    ((c, h) ∈ idxPairs (scanGeneric events check (buildScanlineMetaData events)) ∨
      (h, c) ∈ idxPairs (scanGeneric events check (buildScanlineMetaData events))) ↔
      Q c h ∧ Clash (eventAt events c).memInfo (eventAt events h).memInfo := by
  rw [mem_scan_ordered_iff hd hf hcopy hlen check hcheck hc hh,
    mem_scan_ordered_iff hd hf hcopy hlen check hcheck hh hc]
  constructor
  · rintro (⟨-, hq, hcl⟩ | ⟨-, hq, hcl⟩)
    · exact ⟨hq, hcl⟩
    · exact ⟨hQ _ _ hq, hcl.symm⟩
  · rintro ⟨hq, hcl⟩
    rcases @startsBefore_total events _ _ hne with hb | hb
    · exact .inl ⟨hb, hq, hcl⟩
    · exact .inr ⟨hb, hQ _ _ hq, hcl.symm⟩

end

end MsSanitizer.MemEventChecker
