import MsSanitizer.MemEventChecker

/-!
# The order of the end points

`RadixSortByAddr` leaves the end points in the order of `CompareEvent` (`build_pairwise`): by
address, ends before starts, then by event. The scans only depend on which end point of an
event came last, and `openAfter_iff` reads that off the addresses: at the start of an event
those are open that started before and do not end in between.
-/

namespace MsSanitizer.MemEventChecker

open RecordDefs EventDef Words CountingSort

/-! ## The sort -/

lemma radixDigit_eq (shift : ℕ) (m : SortMetaData) :
    radixDigit shift m = m.addr / 2 ^ shift % 2 ^ radixBits := by
  rw [radixDigit, Nat.and_two_pow_sub_one_eq_mod, Nat.shiftRight_eq_div_pow]

/-- After `i` passes the list is sorted by the lowest `i` digits. -/
lemma radixSort_passes (data : List SortMetaData) (i : ℕ) (tmp : List SortMetaData)
    (htmp : tmp.length = data.length) :
    let s := (List.range i).foldl (fun (s : List SortMetaData × List SortMetaData) i =>
      (pass (radixDigit (i * radixBits)) (2 ^ radixBits) s.1 s.2, s.1)) (data, tmp)
    StableSort (fun m => m.addr % 2 ^ (i * radixBits)) data s.1 ∧
      s.1.length = data.length ∧ s.2.length = data.length := by
  induction i with
  | zero =>
    refine ⟨(StableSort.refl_zero data).congr fun m => ?_, rfl, htmp⟩
    rw [Nat.zero_mul, Nat.pow_zero, Nat.mod_one]
  | succ i ih =>
    obtain ⟨hsort, hlen1, hlen2⟩ := ih
    simp only [List.range_succ, List.foldl_append, List.foldl_cons, List.foldl_nil]
    refine ⟨?_, by rw [pass_length, hlen2], hlen1⟩
    have hdigit : ∀ m, radixDigit (i * radixBits) m < 2 ^ radixBits := by
      intro m
      rw [radixDigit_eq]
      exact Nat.mod_lt _ (by decide)
    refine (StableSort.trans (fun x => Nat.mod_lt _ (by positivity)) hsort
      (pass_stable (fun m _ => hdigit m) (hlen2.trans hlen1.symm))).congr fun m => ?_
    rw [radixDigit_eq, Nat.add_mul, Nat.one_mul, Nat.pow_add, Nat.mod_mul]
    ring

/-- `RadixSortByAddr` is a stable sort by the address. -/
lemma radixSortByAddr_stable {data : List SortMetaData} (h : ∀ m ∈ data, m.addr < 2 ^ 64) :
    StableSort SortMetaData.addr data (radixSortByAddr data) := by
  unfold radixSortByAddr
  split_ifs with hlen
  · refine ⟨?_, fun _ => rfl⟩
    rcases data with - | ⟨a, - | ⟨b, data⟩⟩
    · exact List.Pairwise.nil
    · exact List.pairwise_singleton _ _
    · simp at hlen
  · obtain ⟨hsort, -, -⟩ := radixSort_passes data 4
      (List.replicate data.length { addr := 0, eventIdx := 0, isStart := false }) (by simp)
    have haddr : ∀ m ∈ data, m.addr % 2 ^ (4 * radixBits) = m.addr :=
      fun m hm => Nat.mod_eq_of_lt (h m hm)
    constructor
    · refine hsort.sorted.imp_of_mem ?_
      intro a b ha hb hab
      rwa [haddr a (hsort.mem_iff.mp ha), haddr b (hsort.mem_iff.mp hb)] at hab
    · intro k
      have hk := hsort.same (k % 2 ^ (4 * radixBits))
      -- addresses agree when their remainders do
      by_cases hlt : k < 2 ^ 64
      · have hkmod : k % 2 ^ (4 * radixBits) = k := Nat.mod_eq_of_lt hlt
        rw [hkmod] at hk
        have hfilter : ∀ l : List SortMetaData, (∀ m ∈ l, m ∈ data) →
            l.filter (fun m => m.addr % 2 ^ (4 * radixBits) = k)
              = l.filter fun m => m.addr = k := by
          intro l hl
          refine List.filter_congr fun m hm => ?_
          rw [haddr m (hl m hm)]
        rwa [hfilter _ fun m hm => hsort.mem_iff.mp hm, hfilter data fun m hm => hm] at hk
      · have hnone : ∀ l : List SortMetaData, (∀ m ∈ l, m ∈ data) →
            l.filter (fun m => m.addr = k) = [] := by
          intro l hl
          rw [List.filter_eq_nil_iff]
          intro m hm
          have := h m (hl m hm)
          simp only [decide_eq_true_eq]
          omega
        rw [hnone _ fun m hm => hsort.mem_iff.mp hm, hnone data fun m hm => hm]

/-! ## The end points -/

lemma compareEvent_iff {a b : SortMetaData} :
    compareEvent a b = true ↔ a.addr < b.addr ∨ a.addr = b.addr ∧
      (a.isStart = false ∧ b.isStart = true ∨ a.isStart = b.isStart ∧ a.eventIdx < b.eventIdx) := by
  unfold compareEvent
  split_ifs with h1 h2
  · simp [h1, h2]
  · cases ha : a.isStart <;> cases hb : b.isStart <;> simp_all
  · simp [h1]

lemma compareEvent_irrefl (a : SortMetaData) : ¬ compareEvent a a = true := by
  simp [compareEvent_iff]

lemma compareEvent_asymm {a b : SortMetaData} (h : compareEvent a b = true) :
    ¬ compareEvent b a = true := by
  rw [compareEvent_iff] at h ⊢
  rcases h with h | ⟨h1, ⟨h2, h3⟩ | ⟨h2, h3⟩⟩
  · omega
  · simp [h1, h2, h3]
  · simp [h1, h2]
    omega

/-- The end point of event `i` on one side. -/
def endPoint (events : List MemEvent) (i : ℕ) (isStart : Bool) : SortMetaData :=
  { addr := if isStart then startAddr (eventAt events i) else endAddr (eventAt events i)
    eventIdx := i
    isStart := isStart }

/-- Event `i` exists and takes part in the scan. -/
def Scanned (events : List MemEvent) (i : ℕ) : Prop :=
  i < events.length ∧ getMemMaxLength (eventAt events i) ≠ 0

variable {events : List MemEvent}

lemma startAddr_lt (e : MemEvent) : startAddr e < 2 ^ 64 := Nat.mod_lt _ (by decide)

lemma endAddr_lt (e : MemEvent) : endAddr e < 2 ^ 64 := by
  unfold endAddr add64
  split_ifs <;> exact Nat.mod_lt _ (by decide)

/-- The interval is empty exactly when the length is `0`, and then the event takes no part. -/
lemma getMemMaxLength_eq_zero_iff (e : MemEvent) :
    getMemMaxLength e = 0 ↔ startAddr e = endAddr e := by
  unfold startAddr endAddr
  cases hd : e.isDynamic with
  | true =>
    simp only [getMemMaxLength, hd, if_true, sub64]
    have h1 := Nat.mod_lt e.dynamicMemInfo.maxAddr (show 0 < 2 ^ 64 by decide)
    have h2 := Nat.mod_lt e.dynamicMemInfo.minAddr (show 0 < 2 ^ 64 by decide)
    omega
  | false =>
    have hlt : getMemMaxLength e < 2 ^ 32 := by
      simp only [getMemMaxLength, hd, Bool.false_eq_true, if_false]
      split_ifs
      · exact Nat.two_pow_pos _
      · exact Nat.two_pow_pos _
      · exact Nat.mod_lt _ (Nat.two_pow_pos _)
    simp only [Bool.false_eq_true, if_false, add64]
    generalize getMemMaxLength e = len at hlt ⊢
    omega

lemma endPoints_eq (hlen : events.length ≤ 2 ^ 32) (isStart : Bool) :
    endPoints events isStart = ((List.range events.length).filter fun i =>
      getMemMaxLength (eventAt events i) ≠ 0).map fun i => endPoint events i isStart := by
  have hzip : events.zipIdx = (List.range events.length).map fun i => (eventAt events i, i) := by
    refine List.ext_getElem (by simp) fun i h1 h2 => ?_
    simp only [List.length_zipIdx] at h1
    simp [eventAt, h1]
  unfold endPoints
  rw [hzip, List.filter_map, List.map_map]
  refine List.map_congr_left fun i hi => ?_
  have hi := List.mem_range.mp (List.mem_filter.mp hi).1
  simp only [Function.comp_apply, endPoint]
  rw [Nat.mod_eq_of_lt (by omega)]

lemma mem_endPoints (hlen : events.length ≤ 2 ^ 32) {isStart : Bool} {m : SortMetaData} :
    m ∈ endPoints events isStart ↔
      Scanned events m.eventIdx ∧ m = endPoint events m.eventIdx isStart := by
  rw [endPoints_eq hlen, List.mem_map]
  constructor
  · rintro ⟨i, hi, rfl⟩
    rw [List.mem_filter, List.mem_range] at hi
    exact ⟨⟨hi.1, by simpa [endPoint] using hi.2⟩, rfl⟩
  · rintro ⟨⟨h1, h2⟩, heq⟩
    exact ⟨m.eventIdx, List.mem_filter.mpr ⟨List.mem_range.mpr h1, by simpa using h2⟩, heq.symm⟩

/-- The end points are stored in the order in which `CompareEvent` puts equal addresses. -/
lemma endPoints_pairwise (hlen : events.length ≤ 2 ^ 32) :
    (endPoints events false ++ endPoints events true).Pairwise fun a b =>
      a.isStart = false ∧ b.isStart = true ∨ a.isStart = b.isStart ∧ a.eventIdx < b.eventIdx := by
  have hone : ∀ isStart, (endPoints events isStart).Pairwise fun a b =>
      a.isStart = false ∧ b.isStart = true ∨ a.isStart = b.isStart ∧ a.eventIdx < b.eventIdx := by
    intro isStart
    rw [endPoints_eq hlen, List.pairwise_map]
    refine (List.pairwise_lt_range.filter _).imp fun {i j} hij => ?_
    exact .inr ⟨rfl, hij⟩
  refine List.pairwise_append.mpr ⟨hone false, hone true, fun a ha b hb => .inl ?_⟩
  have ha := ((mem_endPoints hlen).mp ha).2
  have hb := ((mem_endPoints hlen).mp hb).2
  constructor
  · rw [ha]
    rfl
  · rw [hb]
    rfl

lemma endPoints_addr_lt (events : List MemEvent) :
    ∀ m ∈ endPoints events false ++ endPoints events true, m.addr < 2 ^ 64 := by
  intro m hm
  rcases List.mem_append.mp hm with hm | hm
  · obtain ⟨p, -, rfl⟩ := List.mem_map.mp hm
    exact endAddr_lt _
  · obtain ⟨p, -, rfl⟩ := List.mem_map.mp hm
    exact startAddr_lt _

lemma mem_build_iff (hlen : events.length ≤ 2 ^ 32) {m : SortMetaData} :
    m ∈ buildScanlineMetaData events ↔
      Scanned events m.eventIdx ∧ m = endPoint events m.eventIdx m.isStart := by
  rw [buildScanlineMetaData, (radixSortByAddr_stable (endPoints_addr_lt events)).mem_iff,
    List.mem_append, mem_endPoints hlen, mem_endPoints hlen]
  constructor
  · rintro (⟨h1, h2⟩ | ⟨h1, h2⟩)
    · refine ⟨h1, ?_⟩
      have hs : m.isStart = false := by rw [h2]; rfl
      rw [hs]
      exact h2
    · refine ⟨h1, ?_⟩
      have hs : m.isStart = true := by rw [h2]; rfl
      rw [hs]
      exact h2
  · rintro ⟨h1, h2⟩
    cases hs : m.isStart with
    | false =>
      rw [hs] at h2
      exact .inl ⟨h1, h2⟩
    | true =>
      rw [hs] at h2
      exact .inr ⟨h1, h2⟩

/-- **The scan sees the end points in the order of `CompareEvent`.** -/
lemma build_pairwise (hlen : events.length ≤ 2 ^ 32) :
    (buildScanlineMetaData events).Pairwise fun a b => compareEvent a b = true := by
  have hstable := radixSortByAddr_stable (endPoints_addr_lt events)
  refine (hstable.pairwise (endPoints_pairwise hlen)).imp ?_
  intro a b h
  exact compareEvent_iff.mpr h

/-! ## Open events -/

/-- The last end point of event `h` in a list is its start. -/
def OpenAfter (data : List SortMetaData) (h : ℕ) : Prop :=
  ((data.filter fun m => m.eventIdx = h).getLast?.map SortMetaData.isStart) = some true

lemma openAfter_nil (h : ℕ) : ¬ OpenAfter [] h := by simp [OpenAfter]

lemma openAfter_concat (data : List SortMetaData) (m : SortMetaData) (h : ℕ) :
    OpenAfter (data ++ [m]) h ↔
      m.eventIdx = h ∧ m.isStart = true ∨ m.eventIdx ≠ h ∧ OpenAfter data h := by
  unfold OpenAfter
  by_cases hm : m.eventIdx = h
  · simp [List.filter_append, hm]
  · simp [List.filter_append, hm]

lemma openAfter_start {data : List SortMetaData} {m : SortMetaData} (hm : m.isStart = true)
    (h : ℕ) : OpenAfter (data ++ [m]) h ↔ h = m.eventIdx ∨ OpenAfter data h := by
  rw [openAfter_concat]
  by_cases hh : m.eventIdx = h
  · simp [hh, hm]
  · have hh' : ¬ h = m.eventIdx := fun h => hh h.symm
    simp [hh, hh']

lemma openAfter_end {data : List SortMetaData} {m : SortMetaData} (hm : m.isStart = false)
    (h : ℕ) : OpenAfter (data ++ [m]) h ↔ h ≠ m.eventIdx ∧ OpenAfter data h := by
  rw [openAfter_concat]
  simp [hm, eq_comm]

section
variable {before after : List SortMetaData} {m : SortMetaData}

/-- What stands before `m` in the order is what compares as less. -/
lemma mem_before_iff (hlen : events.length ≤ 2 ^ 32)
    (hdata : buildScanlineMetaData events = before ++ m :: after) (x : SortMetaData) :
    x ∈ before ↔ x ∈ buildScanlineMetaData events ∧ compareEvent x m = true := by
  have hpair := build_pairwise hlen
  rw [hdata, List.pairwise_append, List.pairwise_cons] at hpair
  obtain ⟨-, ⟨hafter, -⟩, hcross⟩ := hpair
  constructor
  · intro hx
    exact ⟨by rw [hdata]; exact List.mem_append_left _ hx, hcross x hx m (by simp)⟩
  · rintro ⟨hx, hlt⟩
    rw [hdata, List.mem_append, List.mem_cons] at hx
    rcases hx with hx | rfl | hx
    · exact hx
    · exact absurd hlt (compareEvent_irrefl x)
    · exact absurd hlt (compareEvent_asymm (hafter x hx))

lemma endPoint_mem_before (hlen : events.length ≤ 2 ^ 32)
    (hdata : buildScanlineMetaData events = before ++ m :: after) (h : ℕ) (b : Bool) :
    endPoint events h b ∈ before ↔
      Scanned events h ∧ compareEvent (endPoint events h b) m = true := by
  rw [mem_before_iff hlen hdata, mem_build_iff hlen]
  exact ⟨fun h => ⟨h.1.1, h.2⟩, fun h => ⟨⟨h.1, rfl⟩, h.2⟩⟩

/-- The end points of one event in their order: its start is the last of them if and only if it
is there, and its end is not behind it. -/
lemma last_isStart_iff {own : List SortMetaData} {h : ℕ}
    (hclass : ∀ x ∈ own, x = endPoint events h x.isStart)
    (horder : own.Pairwise fun a b => compareEvent a b = true) :
    own.getLast?.map SortMetaData.isStart = some true ↔ endPoint events h true ∈ own ∧
      (compareEvent (endPoint events h false) (endPoint events h true) = true ∨
        endPoint events h false ∉ own) := by
  rcases own.eq_nil_or_concat with rfl | ⟨own, x, rfl⟩
  · simp
  · rw [List.concat_eq_append] at hclass horder ⊢
    rw [List.pairwise_append] at horder
    have hx := hclass x (by simp)
    have hlast : ∀ {b}, endPoint events h b ∈ own ++ [x] → x.isStart ≠ b →
        compareEvent (endPoint events h b) x = true := by
      intro b hmem hne
      rcases List.mem_append.mp hmem with hmem | hmem
      · exact horder.2.2 _ hmem x (by simp)
      · rw [← List.mem_singleton.mp hmem] at hne
        exact absurd rfl hne
    rw [List.getLast?_concat, Option.map_some, Option.some.injEq]
    constructor
    · intro hs
      rw [hs] at hx
      refine ⟨by rw [← hx]; simp, ?_⟩
      by_cases hend : endPoint events h false ∈ own ++ [x]
      · -- the end was seen too, and before the start
        have hlt := hlast hend (by rw [hs]; decide)
        rw [hx] at hlt
        exact .inl hlt
      · exact .inr hend
    · rintro ⟨hmem, hend⟩
      by_contra hs
      rw [Bool.not_eq_true] at hs
      rw [hs] at hx
      rcases hend with hend | hend
      · -- the last one seen is the end, so the start is not after it
        have hlt := hlast hmem (by rw [hs]; decide)
        rw [hx] at hlt
        exact compareEvent_asymm hend hlt
      · exact hend (by rw [← hx]; simp)

/-- At the start of event `c` the open events are those that started before, and have not come
to their end since. -/
lemma openAfter_iff (hlen : events.length ≤ 2 ^ 32)
    (hdata : buildScanlineMetaData events = before ++ m :: after) (h : ℕ) :
    OpenAfter before h ↔ Scanned events h ∧ compareEvent (endPoint events h true) m = true ∧
      (compareEvent (endPoint events h false) (endPoint events h true) = true ∨
        ¬ compareEvent (endPoint events h false) m = true) := by
  have hclass : ∀ x ∈ before.filter fun m => m.eventIdx = h, x = endPoint events h x.isStart := by
    intro x hx
    rw [List.mem_filter] at hx
    have h1 := ((mem_build_iff hlen).mp ((mem_before_iff hlen hdata x).mp hx.1).1).2
    rwa [of_decide_eq_true hx.2] at h1
  have hbefore : before.Pairwise fun a b => compareEvent a b = true := by
    have hpair := build_pairwise hlen
    rw [hdata, List.pairwise_append] at hpair
    exact hpair.1
  have hin : ∀ b, endPoint events h b ∈ (before.filter fun m => m.eventIdx = h) ↔
      Scanned events h ∧ compareEvent (endPoint events h b) m = true := by
    intro b
    rw [← endPoint_mem_before hlen hdata, List.mem_filter]
    simp [endPoint]
  rw [OpenAfter, last_isStart_iff hclass (hbefore.filter _), hin, hin, and_assoc]
  refine and_congr_right fun hs => and_congr_right fun _ => or_congr_right ?_
  simp [hs]

end

/-- The order in which events start: by address, then by index. -/
def StartsBefore (events : List MemEvent) (h c : ℕ) : Prop :=
  startAddr (eventAt events h) < startAddr (eventAt events c) ∨
    startAddr (eventAt events h) = startAddr (eventAt events c) ∧ h < c

/-- The computed end of the interval lies below its start: the addresses wrapped. -/
def Wraps (e : MemEvent) : Prop := endAddr e < startAddr e

instance (events : List MemEvent) (h c : ℕ) : Decidable (StartsBefore events h c) :=
  inferInstanceAs (Decidable (_ ∨ _))

instance (e : MemEvent) : Decidable (Wraps e) := inferInstanceAs (Decidable (_ < _))

/-- The open events at the start of `c`, in terms of addresses. -/
lemma openAfter_start_iff (hlen : events.length ≤ 2 ^ 32) {before after : List SortMetaData}
    {c : ℕ} (hdata : buildScanlineMetaData events = before ++ endPoint events c true :: after)
    (h : ℕ) :
    OpenAfter before h ↔ Scanned events h ∧ StartsBefore events h c ∧
      (Wraps (eventAt events h) ∨
        startAddr (eventAt events c) < endAddr (eventAt events h)) := by
  rw [openAfter_iff hlen hdata]
  refine and_congr_right fun hs => and_congr ?_ (or_congr ?_ ?_)
  · simp [compareEvent_iff, endPoint, StartsBefore]
  · have hne : startAddr (eventAt events h) ≠ endAddr (eventAt events h) :=
      fun heq => hs.2 ((getMemMaxLength_eq_zero_iff _).mpr heq)
    simp only [compareEvent_iff, endPoint, Wraps, Bool.false_eq_true, if_false, if_true]
    constructor
    · rintro (h1 | ⟨h1, -⟩)
      · exact h1
      · exact absurd h1.symm hne
    · exact fun h1 => .inl h1
  · simp only [compareEvent_iff, endPoint, Bool.false_eq_true, if_false, if_true, and_true,
      false_and, or_false, not_or]
    omega

end MsSanitizer.MemEventChecker
