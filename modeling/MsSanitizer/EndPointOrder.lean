import MsSanitizer.ScanlinePairs
import MsSanitizer.StableOrder

/-!
# The radix sort and `CompareEvent`

`RadixSortByAddr` compares addresses only. That ends come before starts, and end points of one
kind in the order of their events, follows from the layout and from stability: it is the stable
sort by address with ends first (`eq_mergeSort_addrLe`). `CompareEvent` also compares the indexes
of the events, and these have 32 bits in an end point, so the two sorts agree exactly when the cut
indexes still ascend (`IndexesAscend`), as they do up to 2^32 events.
-/

namespace MsSanitizer.MemEventChecker

open RecordDefs EventDef Words CountingSort StableOrder

/-- What `BuildScanlineMetaData` lays out before it sorts: all ends, then all starts. -/
def layout (events : List MemEvent) : List SortMetaData :=
  endPoints events false ++ endPoints events true

def addrLe (a b : SortMetaData) : Bool :=
  decide (a.addr < b.addr) || decide (a.addr = b.addr) && (!a.isStart || b.isStart)

/-- `a` may stand before `b` in a list sorted with `CompareEvent`. -/
def compareLe (a b : SortMetaData) : Bool := !compareEvent b a

/-- The indexes, cut to 32 bits, of the end points of one kind at one address ascend. -/
def IndexesAscend (events : List MemEvent) : Prop :=
  (layout events).Pairwise fun a b =>
    a.addr = b.addr → a.isStart = b.isStart → a.eventIdx ≤ b.eventIdx

variable {events : List MemEvent}

/-! ## The two orders -/

lemma addrLe_iff {a b : SortMetaData} : addrLe a b = true ↔
    a.addr < b.addr ∨ a.addr = b.addr ∧ (a.isStart = false ∨ b.isStart = true) := by
  simp [addrLe]

lemma addrLe_total (a b : SortMetaData) : (addrLe a b || addrLe b a) = true := by
  rw [Bool.or_eq_true, addrLe_iff, addrLe_iff]
  cases a.isStart <;> cases b.isStart <;> simp <;> omega

lemma addrLe_trans (a b c : SortMetaData) (hab : addrLe a b = true) (hbc : addrLe b c = true) :
    addrLe a c = true := by
  rw [addrLe_iff] at *
  rcases hab with hab | ⟨hab, hs⟩
  · rcases hbc with hbc | ⟨hbc, -⟩
    · exact .inl (hab.trans hbc)
    · exact .inl (hbc ▸ hab)
  · rcases hbc with hbc | ⟨hbc, hs'⟩
    · exact .inl (hab ▸ hbc)
    · refine .inr ⟨hab.trans hbc, ?_⟩
      rcases hs with hs | hs
      · exact .inl hs
      · rcases hs' with hs' | hs'
        · rw [hs] at hs'
          cases hs'
        · exact .inr hs'

lemma compareLe_iff {a b : SortMetaData} : compareLe a b = true ↔
    a.addr < b.addr ∨ a.addr = b.addr ∧ (a.isStart = false ∧ b.isStart = true ∨
      a.isStart = b.isStart ∧ a.eventIdx ≤ b.eventIdx) := by
  rw [compareLe, Bool.not_eq_true', ← Bool.not_eq_true, compareEvent_iff]
  cases a.isStart <;> cases b.isStart <;> simp <;> omega

lemma compareLe_total (a b : SortMetaData) : (compareLe a b || compareLe b a) = true := by
  rw [Bool.or_eq_true, compareLe_iff, compareLe_iff]
  cases a.isStart <;> cases b.isStart <;> simp <;> omega

lemma compareLe_trans (a b c : SortMetaData) (hab : compareLe a b = true)
    (hbc : compareLe b c = true) : compareLe a c = true := by
  rw [compareLe_iff] at *
  cases ha : a.isStart <;> cases hb : b.isStart <;> cases hc : c.isStart <;>
    simp [ha, hb, hc] at * <;> omega

lemma addr_eq_of_addrLe {a b : SortMetaData} (h : (addrLe a b && addrLe b a) = true) :
    a.addr = b.addr := by
  rw [Bool.and_eq_true, addrLe_iff, addrLe_iff] at h
  omega

lemma addr_eq_of_compareLe {a b : SortMetaData} (h : (compareLe a b && compareLe b a) = true) :
    a.addr = b.addr := by
  rw [Bool.and_eq_true, compareLe_iff, compareLe_iff] at h
  omega

/-! ## The sort -/

/-- Sorting by address leaves the classes of an order as they were that ties only end points
of one address. -/
lemma same_of_stableSort {le : SortMetaData → SortMetaData → Bool} {xs ys : List SortMetaData}
    (hle : ∀ a b, (le a b && le b a) = true → a.addr = b.addr)
    (h : StableSort SortMetaData.addr xs ys) (c : SortMetaData) :
    (ys.filter fun x => le x c && le c x) = xs.filter fun x => le x c && le c x := by
  have hfilter : ∀ l : List SortMetaData, (l.filter fun x => le x c && le c x) =
      (l.filter fun x => x.addr = c.addr).filter fun x => le x c && le c x := by
    intro l
    rw [List.filter_filter]
    refine List.filter_congr fun x _ => ?_
    by_cases hx : (le x c && le c x) = true
    · rw [hx, decide_eq_true (hle x c hx), Bool.and_self]
    · rw [Bool.not_eq_true] at hx
      rw [hx, Bool.false_and]
  rw [hfilter ys, h.same, ← hfilter]

lemma layout_pairwise (events : List MemEvent) :
    (layout events).Pairwise fun a b => a.isStart = false ∨ b.isStart = true := by
  have hkind : ∀ isStart, ∀ m ∈ endPoints events isStart, m.isStart = isStart := by
    intro isStart m hm
    obtain ⟨p, -, rfl⟩ := List.mem_map.mp hm
    rfl
  refine List.pairwise_append.mpr ⟨?_, ?_, fun a ha _ _ => .inl (hkind false a ha)⟩
  · exact List.pairwise_of_forall_mem_list fun a ha _ _ => .inl (hkind false a ha)
  · exact List.pairwise_of_forall_mem_list fun _ _ b hb => .inr (hkind true b hb)

lemma layout_stable (events : List MemEvent) :
    StableSort SortMetaData.addr (layout events) (radixSortByAddr (layout events)) :=
  radixSortByAddr_stable (endPoints_addr_lt events)

lemma sortedStably_addrLe (events : List MemEvent) :
    SortedStably addrLe (layout events) (radixSortByAddr (layout events)) := by
  refine ⟨?_, same_of_stableSort (fun _ _ => addr_eq_of_addrLe) (layout_stable events)⟩
  exact ((layout_stable events).pairwise (layout_pairwise events)).imp fun h => addrLe_iff.mpr h

/-- For every length and every address the radix sort is the stable sort by address with ends
first. -/
lemma eq_mergeSort_addrLe (events : List MemEvent) :
    radixSortByAddr (layout events) = (layout events).mergeSort addrLe :=
  (eq_mergeSort_iff addrLe_total addrLe_trans).mpr (sortedStably_addrLe events)

lemma sortedStably_compareLe (h : IndexesAscend events) :
    SortedStably compareLe (layout events) (radixSortByAddr (layout events)) := by
  refine ⟨?_, same_of_stableSort (fun _ _ => addr_eq_of_compareLe) (layout_stable events)⟩
  refine ((layout_stable events).pairwise ((layout_pairwise events).and h)).imp ?_
  rintro a b (hlt | ⟨heq, hkind, hidx⟩)
  · exact compareLe_iff.mpr (.inl hlt)
  · refine compareLe_iff.mpr (.inr ⟨heq, ?_⟩)
    by_cases hs : a.isStart = b.isStart
    · exact .inr ⟨hs, hidx heq hs⟩
    · refine .inl ?_
      cases ha : a.isStart <;> cases hb : b.isStart <;> simp_all

/-- The radix sort moves no end point past another of its kind and address, so what the sorted
list says about their order holds of the layout. -/
lemma indexesAscend_of_sorted
    (h : (radixSortByAddr (layout events)).Pairwise fun a b => compareLe a b = true) :
    IndexesAscend events := by
  have hclass : ∀ k : ℕ × Bool,
      ((layout events).filter fun m => (m.addr, m.isStart) = k).Pairwise
        fun a b => a.eventIdx ≤ b.eventIdx := by
    intro k
    have hsplit : ∀ l : List SortMetaData, (l.filter fun m => (m.addr, m.isStart) = k) =
        (l.filter fun m => m.addr = k.1).filter fun m => m.isStart = k.2 := by
      intro l
      rw [List.filter_filter]
      refine List.filter_congr fun m _ => ?_
      simp [Prod.ext_iff, Bool.and_comm]
    rw [hsplit, ← (layout_stable events).same, ← hsplit]
    refine ((h.filter _).imp_of_mem ?_)
    intro a b ha hb hab
    have ha := of_decide_eq_true (List.mem_filter.mp ha).2
    have hb := of_decide_eq_true (List.mem_filter.mp hb).2
    obtain ⟨haddr, hkind⟩ := Prod.ext_iff.mp (ha.trans hb.symm)
    simp only at haddr hkind
    rcases compareLe_iff.mp hab with hlt | ⟨-, ⟨h1, h2⟩ | ⟨-, hidx⟩⟩
    · omega
    · rw [h1, h2] at hkind
      cases hkind
    · exact hidx
  refine (pairwise_of_classes hclass).imp ?_
  intro a b hab haddr hkind
  exact hab (Prod.ext haddr hkind)

lemma eq_mergeSort_compareLe_iff :
    radixSortByAddr (layout events) = (layout events).mergeSort compareLe ↔
      IndexesAscend events := by
  rw [eq_mergeSort_iff compareLe_total compareLe_trans]
  exact ⟨fun h => indexesAscend_of_sorted h.sorted, sortedStably_compareLe⟩

lemma indexesAscend_of_length (hlen : events.length ≤ 2 ^ 32) : IndexesAscend events := by
  refine (endPoints_pairwise hlen).imp ?_
  rintro a b (⟨h1, h2⟩ | ⟨-, hlt⟩) - hs
  · rw [h1, h2] at hs
    cases hs
  · exact hlt.le

/-- **The order of the end points.** Whatever the events are and however many, the radix sort
loses and doubles no end point and is the stable sort by address with ends first. It is the
stable sort with `CompareEvent` as well exactly if the 32-bit indexes of the end points of one
kind at one address ascend, which they do for up to 2^32 events. -/
theorem radixSort_order (events : List MemEvent) :
    (buildScanlineMetaData events).Perm (layout events) ∧
      buildScanlineMetaData events = (layout events).mergeSort addrLe ∧
      (buildScanlineMetaData events = (layout events).mergeSort compareLe ↔
        IndexesAscend events) ∧
      (events.length ≤ 2 ^ 32 →
        buildScanlineMetaData events = (layout events).mergeSort compareLe) := by
  refine ⟨(sortedStably_addrLe events).perm addrLe_total, eq_mergeSort_addrLe events,
    eq_mergeSort_compareLe_iff, fun hlen => ?_⟩
  exact eq_mergeSort_compareLe_iff.mpr (indexesAscend_of_length hlen)

/-! ## More than 2^32 events -/

/-- Of more than 2^32 accesses to one place, number 2^32 has index `0` and comes after number
`1`. -/
lemma not_indexesAscend_replicate {e : MemEvent} (he : getMemMaxLength e ≠ 0) {n : ℕ}
    (hn : 2 ^ 32 < n) : ¬ IndexesAscend (List.replicate n e) := by
  intro h
  have hends := (List.pairwise_append.mp h).1
  have hall : ((List.replicate n e).zipIdx.filter fun p => getMemMaxLength p.1 ≠ 0) =
      (List.replicate n e).zipIdx := by
    refine List.filter_eq_self.mpr fun p hp => ?_
    have hp1 : p.1 ∈ List.replicate n e := List.fst_mem_of_mem_zipIdx hp
    rw [List.eq_of_mem_replicate hp1]
    exact decide_eq_true he
  rw [endPoints, hall, List.pairwise_map, List.pairwise_iff_getElem] at hends
  have hlen : (List.replicate n e).zipIdx.length = n := by
    rw [List.length_zipIdx, List.length_replicate]
  have h1 := hends 1 (2 ^ 32) (by omega) (by omega) (by norm_num)
  simp only [List.getElem_zipIdx, List.getElem_replicate, Nat.zero_add, Nat.mod_self,
    forall_const] at h1
  norm_num at h1

/-- 2^32 + 1 writes of 32 bytes to one address are not sorted as `CompareEvent` would. -/
theorem radixSort_wide : ¬ ∀ events : List MemEvent,
    buildScanlineMetaData events = (layout events).mergeSort compareLe := by
  intro h
  have hsorted := h (List.replicate (2 ^ 32 + 1) (writeOf 0 32))
  exact not_indexesAscend_replicate (by decide) (Nat.lt_succ_self _)
    (eq_mergeSort_compareLe_iff.mp hsorted)

end MsSanitizer.MemEventChecker
