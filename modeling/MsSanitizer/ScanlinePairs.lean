import MsSanitizer.ScanlineOrder
import Mathlib.Data.Sym.Sym2

/-!
# The pairs of the generic scan

`ScanGeneric` keeps for each memory type the open writes and the open reads. The invariant
(`History.Holds`) says that these are the events whose last end point so far is a start, and
that the reported pairs are those of the starts so far with the events open at that moment.
Together with the order of the end points this gives the reported pairs in terms of addresses
(`mem_scanGeneric_iff`).

An event whose computed interval wraps has its end before its start, so it stays open to the
end of the scan and meets every later start: `scanGeneric_exact_iff` says that these are the
only pairs that are reported wrongly.
-/

namespace MsSanitizer.MemEventChecker

open RecordDefs EventDef Words

variable {events : List MemEvent} {check : CheckTypeFunc}

def idxPairs (out : RaceMemEventsIdx) : List (ℕ × ℕ) :=
  out.map fun p => (p.1.eventIdx, p.2.eventIdx)

lemma idxPairs_append (a b : RaceMemEventsIdx) : idxPairs (a ++ b) = idxPairs a ++ idxPairs b :=
  List.map_append

/-- `CheckExistRaceEvents` reports the history events for which the check holds. -/
lemma idxPairs_check (history : List ℕ) (check : CheckTypeFunc) (cur : ℕ) :
    idxPairs (checkExistRaceEvents history check cur)
      = (history.filter fun h => (check cur h).race).map fun h => (cur, h) := by
  have hgen : ∀ (l : List ℕ) (s : ℕ × ℕ × RaceMemEventsIdx),
      idxPairs (l.foldl (fun (s : ℕ × ℕ × RaceMemEventsIdx) h =>
        let v := check cur h
        let err1 := v.errorIdx1.getD s.1
        let err2 := v.errorIdx2.getD s.2.1
        (err1, err2, if v.race then s.2.2 ++ [(⟨cur, err1⟩, ⟨h, err2⟩)] else s.2.2)) s).2.2
      = idxPairs s.2.2 ++ (l.filter fun h => (check cur h).race).map fun h => (cur, h) := by
    intro l
    induction l with
    | nil => simp
    | cons h l ih =>
      intro s
      rw [List.foldl_cons, ih]
      by_cases hr : (check cur h).race = true
      · simp [hr, idxPairs]
      · simp [hr]
  rw [checkExistRaceEvents, hgen]
  rfl

lemma mem_idxPairs_check {history : List ℕ} {cur c h : ℕ} :
    (c, h) ∈ idxPairs (checkExistRaceEvents history check cur) ↔
      c = cur ∧ h ∈ history ∧ (check cur h).race = true := by
  rw [idxPairs_check, List.mem_map]
  constructor
  · rintro ⟨h', hmem, heq⟩
    rw [Prod.mk.injEq] at heq
    obtain ⟨rfl, rfl⟩ := heq
    exact ⟨rfl, List.mem_filter.mp hmem⟩
  · rintro ⟨rfl, h1, h2⟩
    exact ⟨h, List.mem_filter.mpr ⟨h1, h2⟩, rfl⟩

lemma nodup_idxPairs_check {history : List ℕ} (h : history.Nodup) (cur : ℕ) :
    (idxPairs (checkExistRaceEvents history check cur)).Nodup := by
  rw [idxPairs_check]
  refine (h.filter _).map fun a b hab => ?_
  exact (Prod.mk.inj hab).2

/-! ## The invariant -/

def IsWrite (events : List MemEvent) (i : ℕ) : Prop := effOpType (eventAt events i) = .write

instance (events : List MemEvent) (i : ℕ) : Decidable (IsWrite events i) :=
  inferInstanceAs (Decidable (_ = _))

def SameMem (events : List MemEvent) (i j : ℕ) : Prop :=
  effMemType (eventAt events i) = effMemType (eventAt events j)

instance (events : List MemEvent) (i j : ℕ) : Decidable (SameMem events i j) :=
  inferInstanceAs (Decidable (_ = _))

/-- The pairs of a start with an event that is open then, as far as `Q` accepts them. -/
def MetBy (Q : ℕ → ℕ → Prop) (data : List SortMetaData) (c h : ℕ) : Prop :=
  (∃ before m after, data = before ++ m :: after ∧ m.eventIdx = c ∧ m.isStart = true ∧
    OpenAfter before h) ∧ Q c h

def Compared (events : List MemEvent) (check : CheckTypeFunc) (c h : ℕ) : Prop :=
  SameMem events h c ∧ (IsWrite events h ∨ IsWrite events c) ∧ (check c h).race = true

/-- What the scan knows after the end points `data`. -/
structure History.Holds (events : List MemEvent) (check : CheckTypeFunc)
    (data : List SortMetaData) (s : History × RaceMemEventsIdx) : Prop where
  writes : ∀ t h, h ∈ s.1.writes t ↔
    OpenAfter data h ∧ effMemType (eventAt events h) = t ∧ IsWrite events h
  reads : ∀ t h, h ∈ s.1.reads t ↔
    OpenAfter data h ∧ effMemType (eventAt events h) = t ∧ ¬ IsWrite events h
  nodup : ∀ t, (s.1.writes t).Nodup ∧ (s.1.reads t).Nodup
  met : ∀ c h, (c, h) ∈ idxPairs s.2 ↔ MetBy (Compared events check) data c h
  once : (idxPairs s.2).Nodup

lemma metBy_nil (Q : ℕ → ℕ → Prop) (c h : ℕ) : ¬ MetBy Q [] c h := by
  rintro ⟨⟨before, m, after, heq, -⟩, -⟩
  simp at heq

lemma metBy_concat {Q : ℕ → ℕ → Prop} {data : List SortMetaData} {m : SortMetaData} {c h : ℕ} :
    MetBy Q (data ++ [m]) c h ↔ MetBy Q data c h ∨
      m.eventIdx = c ∧ m.isStart = true ∧ OpenAfter data h ∧ Q c h := by
  unfold MetBy
  constructor
  · rintro ⟨⟨before, x, after, heq, h1, h2, h3⟩, hQ⟩
    rcases after.eq_nil_or_concat with rfl | ⟨after, y, rfl⟩
    · obtain ⟨rfl, hx⟩ := List.append_inj' heq rfl
      obtain rfl : m = x := by simpa using hx
      exact .inr ⟨h1, h2, h3, hQ⟩
    · have heq : data ++ [m] = (before ++ x :: after) ++ [y] := by simpa using heq
      obtain ⟨rfl, -⟩ := List.append_inj' heq rfl
      exact .inl ⟨⟨before, x, after, rfl, h1, h2, h3⟩, hQ⟩
  · rintro (⟨⟨before, x, after, rfl, h1, h2, h3⟩, hQ⟩ | ⟨h1, h2, h3, hQ⟩)
    · exact ⟨⟨before, x, after ++ [m], by simp, h1, h2, h3⟩, hQ⟩
    · exact ⟨⟨data, m, [], rfl, h1, h2, h3⟩, hQ⟩

lemma metBy_start {Q : ℕ → ℕ → Prop} {data : List SortMetaData} {m : SortMetaData}
    {out hits : RaceMemEventsIdx} (hout : ∀ c h, (c, h) ∈ idxPairs out ↔ MetBy Q data c h)
    (hm : m.isStart = true) (hhits : ∀ c h, (c, h) ∈ idxPairs hits ↔
      c = m.eventIdx ∧ OpenAfter data h ∧ Q m.eventIdx h) (c h : ℕ) :
    (c, h) ∈ idxPairs (out ++ hits) ↔ MetBy Q (data ++ [m]) c h := by
  rw [idxPairs_append, List.mem_append, hout, metBy_concat, hhits]
  refine or_congr_right ?_
  constructor
  · rintro ⟨rfl, h1, h2⟩
    exact ⟨rfl, hm, h1, h2⟩
  · rintro ⟨rfl, -, h1, h2⟩
    exact ⟨rfl, h1, h2⟩

lemma metBy_end {Q : ℕ → ℕ → Prop} {data : List SortMetaData} {m : SortMetaData} {c h : ℕ}
    (hm : m.isStart = false) : MetBy Q (data ++ [m]) c h ↔ MetBy Q data c h := by
  rw [metBy_concat]
  simp [hm]

variable {data : List SortMetaData} {s : History × RaceMemEventsIdx} {m : SortMetaData}

lemma holds_nil : History.Holds events check [] ({}, []) := by
  refine ⟨fun t h => ?_, fun t h => ?_, fun t => ⟨List.nodup_nil, List.nodup_nil⟩,
    fun c h => ?_, List.nodup_nil⟩
  · simp [openAfter_nil]
  · simp [openAfter_nil]
  · simp [metBy_nil, idxPairs]

/-- No pair is reported twice: the pairs of a start are led by its event, which has not started
before. -/
lemma History.Holds.once_start (hs : Holds events check data s)
    (hfresh : ∀ x ∈ data, x.isStart = true → x.eventIdx ≠ m.eventIdx)
    {hits : RaceMemEventsIdx} (hlead : ∀ c h, (c, h) ∈ idxPairs hits → c = m.eventIdx)
    (hnodup : (idxPairs hits).Nodup) : (idxPairs (s.2 ++ hits)).Nodup := by
  rw [idxPairs_append]
  refine hs.once.append hnodup fun p hp hp' => ?_
  obtain ⟨c, h⟩ := p
  have hc := hlead c h hp'
  obtain ⟨⟨before, x, after, rfl, h1, h2, -⟩, -⟩ := (hs.met c h).mp hp
  exact hfresh x (by simp) h2 (h1.trans hc)

lemma nodup_update {f : MemType → List ℕ} {t : MemType} {l : List ℕ} (hf : ∀ t, (f t).Nodup)
    (hl : l.Nodup) (t' : MemType) : (Function.update f t l t').Nodup := by
  rw [Function.update_apply]
  split_ifs
  · exact hl
  · exact hf t'

/-! ### The open events of one kind, by their memory type -/

/-- The sets `f` are the open events of which `Q` holds. -/
def OpenSets (events : List MemEvent) (data : List SortMetaData) (Q : ℕ → Prop)
    (f : MemType → List ℕ) : Prop :=
  ∀ t h, h ∈ f t ↔ OpenAfter data h ∧ effMemType (eventAt events h) = t ∧ Q h

section
variable {f : MemType → List ℕ} {Q : ℕ → Prop}

lemma OpenSets.update (hf : OpenSets events data Q f) {l : List ℕ}
    (hl : ∀ h, h ∈ l ↔ OpenAfter (data ++ [m]) h ∧
      effMemType (eventAt events h) = effMemType (eventAt events m.eventIdx) ∧ Q h) :
    OpenSets events (data ++ [m]) Q
      (Function.update f (effMemType (eventAt events m.eventIdx)) l) := by
  intro t h
  rw [Function.update_apply]
  split_ifs with ht
  · rw [hl, ht]
  · rw [hf, openAfter_concat]
    by_cases hh : m.eventIdx = h
    · subst hh
      have hne : ¬ effMemType (eventAt events m.eventIdx) = t := fun h => ht h.symm
      simp [hne]
    · simp [hh]

/-- The start of an event of the kind puts it into its set. -/
lemma OpenSets.insert (hf : OpenSets events data Q f) (hm : m.isStart = true)
    (hQ : Q m.eventIdx) :
    OpenSets events (data ++ [m]) Q (Function.update f (effMemType (eventAt events m.eventIdx))
      ((f (effMemType (eventAt events m.eventIdx))).insert m.eventIdx)) := by
  refine hf.update fun h => ?_
  rw [List.mem_insert_iff, hf, openAfter_start hm]
  constructor
  · rintro (rfl | ⟨h1, h2, h3⟩)
    · exact ⟨.inl rfl, rfl, hQ⟩
    · exact ⟨.inr h1, h2, h3⟩
  · rintro ⟨rfl | h1, h2, h3⟩
    · exact .inl rfl
    · exact .inr ⟨h1, h2, h3⟩

lemma OpenSets.other (hf : OpenSets events data Q f) (hm : m.isStart = true)
    (hQ : ¬ Q m.eventIdx) : OpenSets events (data ++ [m]) Q f := by
  intro t h
  rw [hf, openAfter_start hm]
  constructor
  · rintro ⟨h1, h2, h3⟩
    exact ⟨.inr h1, h2, h3⟩
  · rintro ⟨rfl | h1, h2, h3⟩
    · exact absurd h3 hQ
    · exact ⟨h1, h2, h3⟩

lemma OpenSets.erase (hf : OpenSets events data Q f) (hm : m.isStart = false)
    (hnd : ∀ t, (f t).Nodup) :
    OpenSets events (data ++ [m]) Q (Function.update f (effMemType (eventAt events m.eventIdx))
      ((f (effMemType (eventAt events m.eventIdx))).erase m.eventIdx)) := by
  refine hf.update fun h => ?_
  rw [(hnd _).mem_erase_iff, hf, openAfter_end hm, and_assoc]

end

/-- The hits of a write, which is compared with the writes and the reads. -/
lemma mem_hits_write {hist : History} (hwr : OpenSets events data (IsWrite events) hist.writes)
    (hrd : OpenSets events data (fun i => ¬ IsWrite events i) hist.reads)
    (hw : IsWrite events m.eventIdx) (c h : ℕ) :
    (c, h) ∈ idxPairs (checkExistRaceEvents
        (hist.writes (effMemType (eventAt events m.eventIdx))) check m.eventIdx ++
      checkExistRaceEvents (hist.reads (effMemType (eventAt events m.eventIdx))) check
        m.eventIdx) ↔
      c = m.eventIdx ∧ OpenAfter data h ∧ Compared events check m.eventIdx h := by
  rw [idxPairs_append, List.mem_append, mem_idxPairs_check, mem_idxPairs_check, hwr, hrd]
  constructor
  · rintro (⟨h1, ⟨h2, h3, h4⟩, h5⟩ | ⟨h1, ⟨h2, h3, h4⟩, h5⟩)
    · exact ⟨h1, h2, h3, .inr hw, h5⟩
    · exact ⟨h1, h2, h3, .inr hw, h5⟩
  · rintro ⟨h1, h2, h3, -, h5⟩
    by_cases hwh : IsWrite events h
    · exact .inl ⟨h1, ⟨h2, h3, hwh⟩, h5⟩
    · exact .inr ⟨h1, ⟨h2, h3, hwh⟩, h5⟩

/-- The hits of a read, which is compared with the writes only. -/
lemma mem_hits_read {hist : History} (hwr : OpenSets events data (IsWrite events) hist.writes)
    (hw : ¬ IsWrite events m.eventIdx) (c h : ℕ) :
    (c, h) ∈ idxPairs (checkExistRaceEvents
        (hist.writes (effMemType (eventAt events m.eventIdx))) check m.eventIdx) ↔
      c = m.eventIdx ∧ OpenAfter data h ∧ Compared events check m.eventIdx h := by
  rw [mem_idxPairs_check, hwr]
  constructor
  · rintro ⟨h1, ⟨h2, h3, h4⟩, h5⟩
    exact ⟨h1, h2, h3, .inl h4, h5⟩
  · rintro ⟨h1, h2, h3, h4, h5⟩
    exact ⟨h1, ⟨h2, h3, h4.resolve_right hw⟩, h5⟩

/-- The hits of a write are reported once, since no event is both a write and a read. -/
lemma nodup_hits_write {hist : History} {t : MemType}
    (hwr : OpenSets events data (IsWrite events) hist.writes)
    (hrd : OpenSets events data (fun i => ¬ IsWrite events i) hist.reads)
    (hnd : (hist.writes t).Nodup ∧ (hist.reads t).Nodup) (cur : ℕ) :
    (idxPairs (checkExistRaceEvents (hist.writes t) check cur ++
      checkExistRaceEvents (hist.reads t) check cur)).Nodup := by
  rw [idxPairs_append]
  refine (nodup_idxPairs_check hnd.1 _).append (nodup_idxPairs_check hnd.2 _) ?_
  rintro ⟨c, h⟩ h1 h2
  rw [mem_idxPairs_check] at h1 h2
  exact ((hrd _ h).mp h2.2.1).2.2 ((hwr _ h).mp h1.2.1).2.2

/-- **One end point keeps the invariant.** -/
lemma History.Holds.step (hs : Holds events check data s)
    (hfresh : m.isStart = true → ∀ x ∈ data, x.isStart = true → x.eventIdx ≠ m.eventIdx) :
    Holds events check (data ++ [m]) (scanGenericStep events check s m) := by
  obtain ⟨hist, out⟩ := s
  have hwr : OpenSets events data (IsWrite events) hist.writes := hs.writes
  have hrd : OpenSets events data (fun i => ¬ IsWrite events i) hist.reads := hs.reads
  have hnd := hs.nodup
  simp only at hnd
  unfold scanGenericStep
  cases hm : m.isStart with
  | true =>
    by_cases hw : effOpType (eventAt events m.eventIdx) = .write
    · have hwm : IsWrite events m.eventIdx := hw
      simp only [if_true, if_pos hw, List.append_assoc]
      refine ⟨hwr.insert hm hwm, hrd.other hm (not_not.mpr hwm),
        fun t => ⟨nodup_update (fun t => (hnd t).1) (hnd _).1.insert t, (hnd t).2⟩,
        metBy_start hs.met hm (mem_hits_write hwr hrd hwm),
        hs.once_start (hfresh hm) (fun c h hmem => ?_) (nodup_hits_write hwr hrd (hnd _) _)⟩
      exact ((mem_hits_write hwr hrd hwm c h).mp hmem).1
    · have hwm : ¬ IsWrite events m.eventIdx := hw
      simp only [if_true, if_neg hw]
      refine ⟨hwr.other hm hwm, hrd.insert hm hwm,
        fun t => ⟨(hnd t).1, nodup_update (fun t => (hnd t).2) (hnd _).2.insert t⟩,
        metBy_start hs.met hm (mem_hits_read hwr hwm),
        hs.once_start (hfresh hm) (fun c h hmem => ?_) (nodup_idxPairs_check (hnd _).1 _)⟩
      exact ((mem_hits_read hwr hwm c h).mp hmem).1
  | false =>
    simp only [Bool.false_eq_true, if_false]
    refine ⟨hwr.erase hm fun t => (hnd t).1, hrd.erase hm fun t => (hnd t).2,
      fun t => ⟨?_, ?_⟩, fun c h => ?_, hs.once⟩
    · exact nodup_update (fun t => (hnd t).1) ((hnd _).1.erase _) t
    · exact nodup_update (fun t => (hnd t).2) ((hnd _).2.erase _) t
    · rw [hs.met, metBy_end hm]

/-- The invariant holds at the end of a scan in which no event starts twice. -/
lemma holds_scan {data : List SortMetaData}
    (hdata : data.Pairwise fun a b => a.isStart = true → b.isStart = true →
      a.eventIdx ≠ b.eventIdx) :
    History.Holds events check data (data.foldl (scanGenericStep events check) ({}, [])) := by
  induction data using List.reverseRecOn with
  | nil => exact holds_nil
  | append_singleton data m ih =>
    rw [List.pairwise_append] at hdata
    rw [List.foldl_append]
    exact (ih hdata.1).step fun hm x hx hxs => hdata.2.2 x hx m (by simp) hxs hm

lemma build_starts (hlen : events.length ≤ 2 ^ 32) :
    (buildScanlineMetaData events).Pairwise fun a b => a.isStart = true → b.isStart = true →
      a.eventIdx ≠ b.eventIdx := by
  refine (build_pairwise hlen).imp_of_mem ?_
  intro a b ha hb hab hsa hsb heq
  have ha := ((mem_build_iff hlen).mp ha).2
  have hb := ((mem_build_iff hlen).mp hb).2
  rw [hsa, heq] at ha
  rw [hsb] at hb
  rw [ha, ← hb] at hab
  exact compareEvent_irrefl b hab

/-- **What the generic scan reports**, in terms of addresses. -/
lemma mem_scanGeneric_iff (hlen : events.length ≤ 2 ^ 32) (check : CheckTypeFunc) {c h : ℕ} :
    (c, h) ∈ idxPairs (scanGeneric events check (buildScanlineMetaData events)) ↔
      Scanned events c ∧ Scanned events h ∧ StartsBefore events h c ∧
        (Wraps (eventAt events h) ∨ startAddr (eventAt events c) < endAddr (eventAt events h)) ∧
        SameMem events h c ∧ (IsWrite events h ∨ IsWrite events c) ∧ (check c h).race = true := by
  rw [scanGeneric, (holds_scan (build_starts hlen)).met]
  constructor
  · rintro ⟨⟨before, m, after, hdata, rfl, hms, hopen⟩, h1, h2, h3⟩
    have hm := (mem_build_iff hlen).mp (show m ∈ buildScanlineMetaData events by simp [hdata])
    have heq := hm.2
    rw [hms] at heq
    rw [heq] at hdata
    obtain ⟨h4, h5, h6⟩ := (openAfter_start_iff hlen hdata h).mp hopen
    exact ⟨hm.1, h4, h5, h6, h1, h2, h3⟩
  · rintro ⟨hc, h4, h5, h6, h1, h2, h3⟩
    have hm : endPoint events c true ∈ buildScanlineMetaData events :=
      (mem_build_iff hlen).mpr ⟨hc, rfl⟩
    obtain ⟨before, after, hdata⟩ := List.append_of_mem hm
    exact ⟨⟨before, _, after, hdata, rfl, rfl,
      (openAfter_start_iff hlen hdata h).mpr ⟨h4, h5, h6⟩⟩, h1, h2, h3⟩

/-! ## The specification -/

/-- The half-open intervals of two events have an address in common. -/
def Intersect (e1 e2 : MemEvent) : Prop :=
  ∃ a, startAddr e1 ≤ a ∧ a < endAddr e1 ∧ startAddr e2 ≤ a ∧ a < endAddr e2

/-- A pair of events that is to be handed over: event `c`, which starts later, with `h`. -/
def RacePair (events : List MemEvent) (check : CheckTypeFunc) (c h : ℕ) : Prop :=
  c < events.length ∧ h < events.length ∧ StartsBefore events h c ∧ SameMem events h c ∧
    Intersect (eventAt events c) (eventAt events h) ∧
    ¬ (effOpType (eventAt events c) = .read ∧ effOpType (eventAt events h) = .read) ∧
    (check c h).race = true

/-- The pairs are exactly those of the specification, and no two of them are the same pair of
events. -/
def HandsOver (events : List MemEvent) (check : CheckTypeFunc) (pairs : List (ℕ × ℕ)) : Prop :=
  (pairs.map fun p => s(p.1, p.2)).Nodup ∧
    ∀ c h, (c, h) ∈ pairs ↔ RacePair events check c h

/-- An event whose interval wraps meets another one: it starts inside that one's interval, or it
starts before, wherever it ends. -/
def WrapMeets (events : List MemEvent) (check : CheckTypeFunc) (c h : ℕ) : Prop :=
  Scanned events c ∧ Scanned events h ∧ StartsBefore events h c ∧
    (Wraps (eventAt events c) ∨ Wraps (eventAt events h)) ∧
    (Wraps (eventAt events h) ∨ startAddr (eventAt events c) < endAddr (eventAt events h)) ∧
    SameMem events h c ∧
    ¬ (effOpType (eventAt events c) = .read ∧ effOpType (eventAt events h) = .read) ∧
    (check c h).race = true

lemma Intersect.not_wraps {e1 e2 : MemEvent} (h : Intersect e1 e2) : ¬ Wraps e1 ∧ ¬ Wraps e2 := by
  obtain ⟨a, h1, h2, h3, h4⟩ := h
  unfold Wraps
  omega

lemma Intersect.scanned {c h : ℕ} (hc : c < events.length) (hh : h < events.length)
    (hi : Intersect (eventAt events c) (eventAt events h)) :
    Scanned events c ∧ Scanned events h := by
  obtain ⟨a, h1, h2, h3, h4⟩ := hi
  refine ⟨⟨hc, fun h0 => ?_⟩, ⟨hh, fun h0 => ?_⟩⟩
  · rw [getMemMaxLength_eq_zero_iff] at h0
    omega
  · rw [getMemMaxLength_eq_zero_iff] at h0
    omega

/-- Without wrapping, an event that is open when another one starts shares its first address. -/
lemma intersect_iff {c h : ℕ} (hc : Scanned events c) (hb : StartsBefore events h c)
    (hwc : ¬ Wraps (eventAt events c)) :
    Intersect (eventAt events c) (eventAt events h) ↔
      startAddr (eventAt events c) < endAddr (eventAt events h) := by
  have hle : startAddr (eventAt events h) ≤ startAddr (eventAt events c) := by
    rcases hb with h1 | ⟨h1, -⟩
    · exact h1.le
    · exact h1.le
  have hne : startAddr (eventAt events c) ≠ endAddr (eventAt events c) :=
    fun heq => hc.2 ((getMemMaxLength_eq_zero_iff _).mpr heq)
  unfold Wraps at hwc
  constructor
  · rintro ⟨a, h1, -, -, h4⟩
    omega
  · intro hlt
    exact ⟨startAddr (eventAt events c), le_rfl, by omega, hle, hlt⟩

/-- No block copy: `EventContainer::Push` splits it into a read and a write. -/
def NoCopies (events : List MemEvent) : Prop :=
  ∀ e ∈ events, e.memInfo.opType ≠ .memcpyBlocks

lemma NoCopies.isWrite_iff (h : NoCopies events) {i : ℕ} (hi : i < events.length) :
    IsWrite events i ↔ effOpType (eventAt events i) ≠ .read := by
  have hi : eventAt events i = events.get ⟨i, hi⟩ := by simp [eventAt, hi]
  have hmem := h (eventAt events i) (by rw [hi]; exact List.get_mem _ _)
  unfold IsWrite effOpType
  split_ifs with hd
  · simp
  · cases hop : (eventAt events i).memInfo.opType with
    | read => simp
    | write => simp
    | memcpyBlocks => exact absurd hop hmem

/-- Two starts are ordered, so a pair is not reported the other way round as well. -/
lemma startsBefore_asymm {c h : ℕ} (h1 : StartsBefore events h c) :
    ¬ StartsBefore events c h := by
  unfold StartsBefore at h1 ⊢
  omega

/-- **The generic scan hands over exactly the pairs that intersect**, each once, for every check
function, if and only if no event whose interval wraps meets another one. -/
theorem scanGeneric_exact_iff (events : List MemEvent) (check : CheckTypeFunc)
    (hlen : events.length ≤ 2 ^ 32) (hcopy : NoCopies events) :
    HandsOver events check
        (idxPairs (scanGeneric events check (buildScanlineMetaData events))) ↔
      ∀ c h, ¬ WrapMeets events check c h := by
  have hmem := fun c h => mem_scanGeneric_iff (c := c) (h := h) hlen check
  have hread : ∀ {c h : ℕ}, c < events.length → h < events.length →
      ((IsWrite events h ∨ IsWrite events c) ↔
        ¬ (effOpType (eventAt events c) = .read ∧ effOpType (eventAt events h) = .read)) := by
    intro c h hc hh
    rw [hcopy.isWrite_iff hc, hcopy.isWrite_iff hh]
    tauto
  have honce : ((idxPairs (scanGeneric events check (buildScanlineMetaData events))).map
      fun p => s(p.1, p.2)).Nodup := by
    have hnd : (idxPairs (scanGeneric events check (buildScanlineMetaData events))).Nodup :=
      (holds_scan (build_starts hlen)).once
    refine hnd.map_on ?_
    rintro ⟨c, h⟩ hp ⟨c', h'⟩ hp' heq
    rw [Sym2.eq_iff] at heq
    rcases heq with ⟨rfl, rfl⟩ | ⟨rfl, rfl⟩
    · rfl
    · have h1 := ((hmem _ _).mp hp).2.2.1
      have h2 := ((hmem _ _).mp hp').2.2.1
      exact absurd h1 (startsBefore_asymm h2)
  constructor
  · rintro ⟨-, hset⟩ c h ⟨h1, h2, h3, h4, h5, h6, h7, h8⟩
    have hrep := (hmem c h).mpr ⟨h1, h2, h3, h5, h6, (hread h1.1 h2.1).mpr h7, h8⟩
    obtain ⟨-, -, -, -, hi, -, -⟩ := (hset c h).mp hrep
    exact h4.elim hi.not_wraps.1 hi.not_wraps.2
  · intro hno
    refine ⟨honce, fun c h => ?_⟩
    rw [hmem]
    constructor
    · rintro ⟨h1, h2, h3, h5, h6, h7, h8⟩
      have h7 := (hread h1.1 h2.1).mp h7
      have hwc : ¬ Wraps (eventAt events c) :=
        fun hw => hno c h ⟨h1, h2, h3, .inl hw, h5, h6, h7, h8⟩
      have hwh : ¬ Wraps (eventAt events h) :=
        fun hw => hno c h ⟨h1, h2, h3, .inr hw, h5, h6, h7, h8⟩
      exact ⟨h1.1, h2.1, h3, h6, (intersect_iff h1 h3 hwc).mpr (h5.resolve_left hwh), h7, h8⟩
    · rintro ⟨h1, h2, h3, h4, h5, h6, h7⟩
      obtain ⟨hc, hh⟩ := h5.scanned h1 h2
      exact ⟨hc, hh, h3, .inr ((intersect_iff hc h3 h5.not_wraps.1).mp h5), h4,
        (hread h1 h2).mpr h6, h7⟩

/-- A write of `len` bytes of the unified buffer. -/
def writeOf (addr len : ℕ) : MemEvent :=
  { memInfo := { memType := .ub, opType := .write, addr := addr, blockNum := 1, blockSize := len,
                 blockStride := 1, repeatTimes := 1, repeatStride := 1 } }

theorem scanGeneric_exact_iff_at :
    HandsOver [writeOf 0 32, writeOf 16 32] (fun _ _ => { race := true })
      (idxPairs (scanGeneric [writeOf 0 32, writeOf 16 32] (fun _ _ => { race := true })
        (buildScanlineMetaData [writeOf 0 32, writeOf 16 32]))) := by
  refine (scanGeneric_exact_iff _ _ (by decide) ?_).mpr fun c h hmeet => ?_
  · intro e he
    simp only [List.mem_cons, List.not_mem_nil, or_false] at he
    rcases he with rfl | rfl <;> decide
  · have hno : ∀ i, i < 2 → ¬ Wraps (eventAt [writeOf 0 32, writeOf 16 32] i) := by decide
    obtain ⟨⟨hc, -⟩, ⟨hh, -⟩, -, hw, -⟩ := hmeet
    exact hw.elim (hno c hc) (hno h hh)

/-- A write whose end wraps past the last address is still open when the next one starts, and
their pair is reported although its computed interval is empty. -/
theorem scanGeneric_reports_wrapped :
    ¬ HandsOver [writeOf (2 ^ 64 - 32) 64, writeOf (2 ^ 64 - 16) 8] (fun _ _ => { race := true })
      (idxPairs (scanGeneric [writeOf (2 ^ 64 - 32) 64, writeOf (2 ^ 64 - 16) 8]
        (fun _ _ => { race := true })
        (buildScanlineMetaData [writeOf (2 ^ 64 - 32) 64, writeOf (2 ^ 64 - 16) 8]))) := by
  rintro ⟨-, hset⟩
  have hlen : [writeOf (2 ^ 64 - 32) 64, writeOf (2 ^ 64 - 16) 8].length ≤ 2 ^ 32 := by decide
  have hrep := (mem_scanGeneric_iff hlen (fun _ _ => { race := true }) (c := 1) (h := 0)).mpr
    ⟨⟨by decide, by decide⟩, ⟨by decide, by decide⟩, by decide, by decide, by decide, by decide,
      rfl⟩
  obtain ⟨-, -, -, -, hi, -⟩ := (hset 1 0).mp hrep
  exact hi.not_wraps.2 (by decide)

end MsSanitizer.MemEventChecker
