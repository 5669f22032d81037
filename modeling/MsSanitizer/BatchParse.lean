import MsSanitizer.SettledEvents
import MsSanitizer.RecordPreProcess

/-!
# Records that are parsed together

When `Process` has buffered records it parses them into one list of events. The label of an event
is then the one of the last record that makes events, and what the parser added to an earlier
record gets a label too; if neither happens, the records are parsed as they are one at a time, but
for the mark of a last `HWAIT_FLAG`: it is lost if the flag behind it moves the list.
-/

namespace MsSanitizer.RecordParse

open RecordDefs EventDef

/-- The type of the last record that makes events. -/
def lastType (rs : List KernelRecord) : Option ℕ :=
  ((rs.filter KernelRecord.makes).getLast?).map KernelRecord.recordType

/-- Every record that makes events before another one does is of the type of the last one that
does, and the parser adds nothing to its events. -/
def OneLabel (ctx : Context) : ParseState → List KernelRecord → Prop
  | _, [] => True
  | st, r :: rs =>
    (r.makes = true → ∀ t ∈ lastType rs, r.recordType = t ∧ adds ctx st r = false) ∧
      OneLabel ctx (step ctx st r) rs

/-- A flag for the last record that makes events moves a list that holds `n` events and those of
the records before it exactly if it moves a list of its own. -/
def MovesAlike (ctx : Context) : ℕ → ParseState → List KernelRecord → Prop
  | _, _, [] => True
  | n, st, r :: rs =>
    (r.makes = true → lastType rs = none → waitsForFlag (st.start r).hsetSyncMap r = true →
      isFull ctx.room (n + 1) = isFull ctx.room 1) ∧
      MovesAlike ctx (n + (parseFunc ctx r (st.start r)).1.length) (step ctx st r) rs

/-! ## Batches -/

section Batch

variable {ctx : Context} {st : ParseState} {r : KernelRecord} {rs : List KernelRecord}
  {E : List SanEvent} {t : ℕ}

lemma parseBatch_cons (ctx : Context) (E : List SanEvent) (st : ParseState) (r : KernelRecord)
    (rs : List KernelRecord) :
    parseBatch ctx E st (r :: rs) =
      parseBatch ctx (parse ctx r E st).1 (parse ctx r E st).2 rs := rfl

lemma parseRun_cons (ctx : Context) (st : ParseState) (r : KernelRecord)
    (rs : List KernelRecord) :
    parseRun ctx st (r :: rs) =
      (parse ctx r [] st).1 ++ parseRun ctx (parse ctx r [] st).2 rs := rfl

lemma lastType_cons (r : KernelRecord) (rs : List KernelRecord) :
    lastType (r :: rs) =
      (lastType rs).or (if r.makes then some r.recordType else none) := by
  unfold lastType
  rw [List.filter_cons]
  split_ifs with hm
  · cases hlast : (rs.filter KernelRecord.makes).getLast? with
    | none =>
      rw [List.getLast?_eq_none_iff] at hlast
      rw [hlast]
      rfl
    | some x =>
      rw [List.getLast?_cons, hlast]
      rfl
  · rw [Option.or_none]

lemma makes_of_lastType_none (h : lastType rs = none) : ∀ r ∈ rs, r.makes = false := by
  unfold lastType at h
  rw [Option.map_eq_none_iff, List.getLast?_eq_none_iff, List.filter_eq_nil_iff] at h
  intro r hr
  simpa using h r hr

lemma parseBatch_of_not_makes (h : ∀ r ∈ rs, r.makes = false) (E : List SanEvent)
    (st : ParseState) : (parseBatch ctx E st rs).1 = E := by
  induction rs generalizing st with
  | nil => rfl
  | cons r rs ih =>
    rw [parseBatch_cons, parse_of_not_makes ctx (h r List.mem_cons_self)]
    exact ih (fun x hx => h x (List.mem_cons_of_mem _ hx)) _

lemma parseRun_of_not_makes (h : ∀ r ∈ rs, r.makes = false) (st : ParseState) :
    parseRun ctx st rs = [] := by
  induction rs generalizing st with
  | nil => rfl
  | cons r rs ih =>
    rw [parseRun_cons, parse_of_not_makes ctx (h r List.mem_cons_self)]
    exact ih (fun x hx => h x (List.mem_cons_of_mem _ hx)) _

lemma oneLabel_of_not_makes (h : ∀ r ∈ rs, r.makes = false) (st : ParseState) :
    OneLabel ctx st rs := by
  induction rs generalizing st with
  | nil => trivial
  | cons r rs ih =>
    refine ⟨fun hm => ?_, ih (fun x hx => h x (List.mem_cons_of_mem _ hx)) _⟩
    rw [h r List.mem_cons_self] at hm
    cases hm

lemma movesAlike_of_not_makes (h : ∀ r ∈ rs, r.makes = false) (n : ℕ) (st : ParseState) :
    MovesAlike ctx n st rs := by
  induction rs generalizing n st with
  | nil => trivial
  | cons r rs ih =>
    refine ⟨fun hm => ?_, ih (fun x hx => h x (List.mem_cons_of_mem _ hx)) _ _⟩
    rw [h r List.mem_cons_self] at hm
    cases hm

lemma length_le_parse (ctx : Context) (r : KernelRecord) (E : List SanEvent) (st : ParseState) :
    E.length ≤ (parse ctx r E st).1.length := by
  cases hm : r.makes with
  | true =>
    obtain ⟨A, hA, hlen, -⟩ := parse_label ctx hm st E
    have := hA.length_le
    omega
  | false => rw [parse_of_not_makes ctx hm]

/-- In the end the events carry the type of the last record with events. -/
lemma parseBatch_label (ctx : Context) (h : lastType rs = some t) (E : List SanEvent)
    (st : ParseState) :
    ∃ A, A <+: (parseBatch ctx E st rs).1 ∧ E.length ≤ A.length ∧
      ∀ e ∈ A, e.recordType = t := by
  induction rs generalizing E st with
  | nil => cases h
  | cons r rs ih =>
    rw [lastType_cons] at h
    rw [parseBatch_cons]
    cases hrest : lastType rs with
    | some t' =>
      rw [hrest, Option.some_or] at h
      obtain rfl := Option.some.inj h
      obtain ⟨A, hA, hlen, hlabel⟩ := ih hrest (parse ctx r E st).1 (parse ctx r E st).2
      exact ⟨A, hA, (length_le_parse ctx r E st).trans hlen, hlabel⟩
    | none =>
      rw [hrest, Option.none_or] at h
      split_ifs at h with hm
      obtain rfl := Option.some.inj h
      obtain ⟨A, hA, hlen, hlabel⟩ := parse_label ctx hm st E
      rw [parseBatch_of_not_makes (makes_of_lastType_none hrest)]
      exact ⟨A, hA, by omega, hlabel⟩

lemma step_eq (ctx : Context) (st : ParseState) (r : KernelRecord) :
    step ctx st r = (parse ctx r [] st).2 := by rw [parse_eq]

/-- A reset leaves nothing that an event without hard synchronisation could match. -/
lemma Settled.start {e : SanEvent} (h : Settled r.recordType st.hsetSyncMap e) :
    Settled r.recordType (st.start r).hsetSyncMap e := by
  unfold ParseState.start
  split_ifs with hr
  · have hard : hardType r.recordType = false := by
      apply hardType_of_not_hard
      unfold KernelRecord.isFinish at hr
      unfold KernelRecord.hard
      cases hp : r.payload <;> simp [hp] at hr ⊢
    refine ⟨h.label, h.scalar, h.hard, fun kv hkv => (by cases hkv), ?_⟩
    intro info hinfo
    have := h.hard
    rw [hinfo, hard] at this
    cases this
  · exact h

/-- Two ways in which a batch goes wrong: an event gets the type of a later record, or one that
the parser added gets a type. -/
lemma parseBatch_ne (hp : r.payload.Proper) (hm : r.makes = true) (hr : r.isFinish = false)
    (hs : SortedMap st.hsetSyncMap) (hlast : lastType rs = some t)
    (hE : ∀ e ∈ E, Settled t st.hsetSyncMap e)
    (h : ¬ (r.recordType = t ∧ adds ctx st r = false)) :
    (parseBatch ctx E st (r :: rs)).1 ≠ E ++ parseRun ctx st (r :: rs) := by
  intro heq
  obtain ⟨A, hA, hlen, hlabel⟩ :=
    parseBatch_label ctx hlast (parse ctx r E st).1 (parse ctx r E st).2
  rw [parseBatch_cons] at heq
  rw [heq, parseRun_cons, ← List.append_assoc] at hA
  by_cases ht : r.recordType = t
  · -- the record is of the right type, so the parser added to it
    have hadds : adds ctx st r = true := by
      by_contra hc
      exact h ⟨ht, by simpa using hc⟩
    have hE' : ∀ e ∈ E, Settled r.recordType (st.start r).hsetSyncMap e :=
      fun e he => (ht ▸ hE e he : Settled _ _ _).start
    by_cases hflag : waitsForFlag (st.start r).hsetSyncMap r = true
    · -- the flag has a type in the batch
      obtain ⟨-, -, g₂, -, -, -, hE₂, -⟩ := parse_flag ctx hm (start_sorted hs r) hE' hflag
      obtain ⟨-, -, g, -, -, -, hg, hinv⟩ := parse_flag ctx (E := []) hm
        (start_sorted hs r) (fun e he => (by cases he)) hflag
      obtain ⟨hlt, -⟩ := List.getElem?_eq_some_iff.1 hE₂
      rw [List.length_nil, Nat.zero_add] at hg
      have hget : A[E.length + 1]? = some g := by
        obtain ⟨B, hB⟩ := hA
        have := congrArg (fun l : List SanEvent => l[E.length + 1]?) hB
        rw [List.getElem?_append_left (by omega), List.append_assoc,
          List.getElem?_append_right (by omega), Nat.add_sub_cancel_left,
          List.getElem?_append_left (List.getElem?_eq_some_iff.1 hg).1] at this
        exact this.trans hg
      have := hlabel g (List.mem_of_getElem? hget)
      rw [hinv, ← ht] at this
      exact proper_recordType hp this.symm
    · -- it was parsed as if alone
      obtain ⟨e, he, hinv⟩ := parse_adds hp hm hr hs hadds
      rw [parse_settled hp hm (start_sorted hs r) hE' fun hc => absurd hc hflag,
        List.length_append] at hlen
      have hpre : E ++ (parse ctx r [] st).1 <+: A :=
        List.prefix_of_prefix_length_le (List.prefix_append _ _) hA (by simpa using hlen)
      have := hlabel e (hpre.subset (List.mem_append_right _ he))
      rw [hinv, ← ht] at this
      exact proper_recordType hp this.symm
  · -- its first event has the type of the record alone and that of the last one in the batch
    obtain ⟨A', hA', hlen', hlabel'⟩ := parse_label ctx hm st []
    obtain ⟨A₂, hA₂, hlen₂, -⟩ := parse_label ctx hm st E
    have hpos := parseFunc_length_pos hm ctx (st.start r)
    have hle := hA₂.length_le
    rw [List.length_nil] at hlen'
    have hpre : E ++ A' <+: A := by
      refine List.prefix_of_prefix_length_le ?_ hA (by rw [List.length_append]; omega)
      exact ((List.prefix_append_right_inj E).2 hA').trans (List.prefix_append _ _)
    obtain ⟨e, he⟩ := List.exists_mem_of_length_pos (by omega : 0 < A'.length)
    exact ht ((hlabel' e he).symm.trans (hlabel e (hpre.subset (List.mem_append_right _ he))))

/-- The last record with events is parsed as one at a time if and only if its flag, if it waits for
one, moves both lists or none. -/
lemma parse_last_iff (hp : r.payload.Proper) (hm : r.makes = true) (hs : SortedMap st.hsetSyncMap)
    (hE : ∀ e ∈ E, Settled r.recordType st.hsetSyncMap e) :
    (parse ctx r E st).1 = E ++ (parse ctx r [] st).1 ↔
      (waitsForFlag (st.start r).hsetSyncMap r = true →
        isFull ctx.room (E.length + 1) = isFull ctx.room 1) := by
  have hs' := start_sorted hs r
  have hE' : ∀ e ∈ E, Settled r.recordType (st.start r).hsetSyncMap e :=
    fun e he => (hE e he).start
  refine ⟨fun heq hflag => ?_, fun hmoves => by rw [parse_settled hp hm hs' hE' hmoves]⟩
  obtain ⟨e, info, -, he, hinfo, hmark, -⟩ := parse_flag ctx hm hs' hE' hflag
  obtain ⟨e₁, info₁, -, he₁, hinfo₁, hmark₁, -⟩ :=
    parse_flag ctx (E := []) hm hs' (fun e he => (by cases he)) hflag
  rw [heq, List.getElem?_append_right le_rfl, Nat.sub_self] at he
  obtain rfl : e₁ = e := Option.some.inj (he₁.symm.trans he)
  obtain rfl : info₁ = info := EventInfo.hSync.inj (hinfo₁.symm.trans hinfo)
  exact Bool.not_inj (hmark.symm.trans hmark₁)

/-- **Batches.** Behind settled events records are parsed as one at a time if and only if they
carry one label and the flag of the last one moves the list as it moves a list of its own. -/
lemma parseBatch_iff (ctx : Context) (hp : ∀ r ∈ rs, r.payload.Proper)
    (hfin : ∀ r ∈ rs.dropLast, r.isFinish = false) (hs : SortedMap st.hsetSyncMap)
    (hE : ∀ t ∈ lastType rs, ∀ e ∈ E, Settled t st.hsetSyncMap e) :
    (parseBatch ctx E st rs).1 = E ++ parseRun ctx st rs ↔
      OneLabel ctx st rs ∧ MovesAlike ctx E.length st rs := by
  induction rs generalizing E st with
  | nil => simp [parseBatch, parseRun, parseOuts, OneLabel, MovesAlike]
  | cons r rs ih =>
    have hpr := hp r List.mem_cons_self
    have hprs : ∀ x ∈ rs, x.payload.Proper := fun x hx => hp x (List.mem_cons_of_mem _ hx)
    have hfins : ∀ x ∈ rs.dropLast, x.isFinish = false := by
      intro x hx
      cases rs with
      | nil => cases hx
      | cons y rs => exact hfin x (by rw [List.dropLast_cons_cons]; exact List.mem_cons_of_mem _ hx)
    have hrfin : ∀ t, lastType rs = some t → r.isFinish = false := by
      intro t ht
      cases rs with
      | nil => cases ht
      | cons y rs => exact hfin r (by rw [List.dropLast_cons_cons]; exact List.mem_cons_self)
    have hs' := parse_sorted ctx r [] hs
    rw [lastType_cons] at hE
    rw [OneLabel, MovesAlike, step_eq, parseRun_cons]
    cases hm : r.makes with
    | false =>
      have hnil := parse_of_not_makes ctx hm st []
      rw [parseBatch_cons, parse_of_not_makes ctx hm, hnil, List.nil_append,
        parseFunc_nil_iff.2 hm, List.length_nil, Nat.add_zero]
      rw [hnil] at hs'
      refine (ih hprs hfins hs' ?_).trans ⟨fun h => ⟨⟨fun hc => (by cases hc), h.1⟩,
        fun hc => (by cases hc), h.2⟩, fun h => ⟨h.1.2, h.2.2⟩⟩
      intro t ht e he
      rw [parseFunc_hsetSyncMap, start_of_not_finish (hrfin t ht)]
      exact hE t (by rw [ht, Option.some_or]; rfl) e he
    | true =>
      rw [hm, if_pos rfl] at hE
      cases hlast : lastType rs with
      | none =>
        rw [hlast, Option.none_or] at hE
        have hno := makes_of_lastType_none hlast
        rw [parseBatch_cons, parseBatch_of_not_makes hno, parseRun_of_not_makes hno,
          List.append_nil, parse_last_iff hpr hm hs (hE _ rfl)]
        exact ⟨fun h => ⟨⟨fun _ t ht => (by cases ht), oneLabel_of_not_makes hno _⟩,
          fun _ _ => h, movesAlike_of_not_makes hno _ _⟩, fun h => h.2.1 rfl rfl⟩
      | some t =>
        rw [hlast, Option.some_or] at hE
        have hr := hrfin t hlast
        by_cases hgood : r.recordType = t ∧ adds ctx st r = false
        · obtain ⟨rfl, hadds⟩ := hgood
          obtain ⟨hlen, hout, hkeep⟩ := parse_quiet hpr hm hr hs hadds
          have hflag : ¬ waitsForFlag (st.start r).hsetSyncMap r = true := by
            rw [start_of_not_finish hr]
            unfold adds at hadds
            rw [Bool.or_eq_false_iff, Bool.or_eq_false_iff] at hadds
            simp [hadds.1.1]
          rw [parseBatch_cons, parse_settled hpr hm (start_sorted hs r)
            (fun e he => (hE _ rfl e he).start) fun hc => absurd hc hflag, ← List.append_assoc]
          rw [start_of_not_finish hr, ← hlen, ← List.length_append]
          refine (ih hprs hfins hs' ?_).trans ⟨fun h => ⟨⟨fun _ t ht => ?_, h.1⟩,
            fun _ hc => (by cases hc), h.2⟩, fun h => ⟨h.1.2, h.2.2⟩⟩
          · rw [hlast]
            rintro _ ⟨⟩ e he
            rcases List.mem_append.1 he with he | he
            · exact hkeep e (hE _ rfl e he)
            · exact hout e he
          · cases ht
            exact ⟨rfl, hadds⟩
        · refine iff_of_false ?_ fun h => hgood (h.1.1 rfl t rfl)
          have := parseBatch_ne hpr hm hr hs hlast (hE t rfl) hgood
          rwa [parseRun_cons] at this

end Batch

/-! ## Workers -/

namespace RecordPreProcess

variable {p : RecordPreProcess} {r : KernelRecord}

lemma processMstxCrossWaitRecord_buffer (p : RecordPreProcess) (r : KernelRecord) :
    (p.processMstxCrossWaitRecord r).recordBuffer = p.recordBuffer ∨
      (p.processMstxCrossWaitRecord r).recordBuffer = p.recordBuffer ++ [r] := by
  unfold processMstxCrossWaitRecord
  split
  · unfold mergeWait
    dsimp only
    split_ifs
    · exact .inl rfl
    · exact .inr rfl
  · exact .inr rfl

lemma mstxWaitRecord_of_isFinish (hr : r.isFinish = true) : mstxWaitRecord r = none := by
  unfold KernelRecord.isFinish at hr
  unfold mstxWaitRecord
  cases hp : r.payload <;> simp [hp] at hr ⊢

lemma processMstxCrossWaitRecord_finish (p : RecordPreProcess) (hr : r.isFinish = true) :
    (p.processMstxCrossWaitRecord r).waitMergeInfo.endTag = true := by
  unfold processMstxCrossWaitRecord
  rw [mstxWaitRecord_of_isFinish hr]
  dsimp only
  rw [if_pos hr]

/-- `Process` keeps its records or parses them all, with the last record at their end. A finish
is never kept. -/
lemma next_cases (p : RecordPreProcess) (r : KernelRecord) :
    ((p.next r).1 = [] ∧ r.isFinish = false ∧ ((p.next r).2.recordBuffer = p.recordBuffer ∨
      (p.next r).2.recordBuffer = p.recordBuffer ++ [r])) ∨
    ((p.next r).2.recordBuffer = [] ∧ ((p.next r).1 = p.recordBuffer ∨
      (p.next r).1 = p.recordBuffer ++ [r])) := by
  by_cases hdrop : (p.updateMergeInfo r).drops r = true
  · rw [next_of_drops hdrop]
    refine .inl ⟨rfl, ?_, .inl rfl⟩
    by_contra hc
    rw [Bool.not_eq_false] at hc
    rw [drops_of_isFinish _ hc] at hdrop
    cases hdrop
  · obtain ⟨q, hbuf, hnext⟩ := next_of_not_drops hdrop
    rw [hnext]
    have hcases := processMstxCrossWaitRecord_buffer q r
    rw [hbuf] at hcases
    split_ifs with hend
    · exact .inr ⟨rfl, hcases⟩
    · refine .inl ⟨rfl, ?_, hcases⟩
      by_contra hc
      rw [Bool.not_eq_false] at hc
      exact hend (processMstxCrossWaitRecord_finish q hc)

end RecordPreProcess

def SanitizerRecord.Proper : SanitizerRecord → Prop
  | .memory => True
  | .kernel r => r.payload.Proper

namespace Worker

variable {ctx : Context} {w : Worker}

/-- What holds of a worker between two calls. -/
structure Ready (w : Worker) : Prop where
  proper : ∀ r ∈ w.pre.recordBuffer, r.payload.Proper
  open' : ∀ r ∈ w.pre.recordBuffer, r.isFinish = false
  sorted : SortedMap w.parser.hsetSyncMap

lemma ready_init : Ready {} :=
  ⟨fun _ h => (by cases h), fun _ h => (by cases h), List.Pairwise.nil⟩

lemma parseBatch_sorted (ctx : Context) (E : List SanEvent) {st : ParseState}
    (rs : List KernelRecord) (hs : SortedMap st.hsetSyncMap) :
    SortedMap (parseBatch ctx E st rs).2.hsetSyncMap := by
  induction rs generalizing E st with
  | nil => exact hs
  | cons r rs ih =>
    rw [parseBatch_cons]
    exact ih _ (parse_sorted ctx r E hs)

lemma Ready.process (h : w.Ready) {record : SanitizerRecord} (hp : record.Proper) :
    (w.process ctx record).2.Ready := by
  cases record with
  | memory => exact h
  | kernel r =>
    have hsorted := parseBatch_sorted ctx [] (w.flushed (.kernel r)) h.sorted
    have hbuf : (w.pre.next r).2.recordBuffer = [] ∨
        r.isFinish = false ∧ ((w.pre.next r).2.recordBuffer = w.pre.recordBuffer ∨
          (w.pre.next r).2.recordBuffer = w.pre.recordBuffer ++ [r]) := by
      rcases w.pre.next_cases r with ⟨-, hr, hbuf⟩ | ⟨hbuf, -⟩
      · exact .inr ⟨hr, hbuf⟩
      · exact .inl hbuf
    refine ⟨?_, ?_, hsorted⟩
    all_goals
      intro x hx
      rcases hbuf with hbuf | ⟨hr, hbuf | hbuf⟩
      · rw [show (w.process ctx (.kernel r)).2.pre.recordBuffer = [] from hbuf] at hx
        cases hx
      · rw [show (w.process ctx (.kernel r)).2.pre.recordBuffer = w.pre.recordBuffer from hbuf]
          at hx
        first | exact h.proper x hx | exact h.open' x hx
      · rw [show (w.process ctx (.kernel r)).2.pre.recordBuffer = w.pre.recordBuffer ++ [r]
          from hbuf, List.mem_append, List.mem_singleton] at hx
        rcases hx with hx | rfl
        · first | exact h.proper x hx | exact h.open' x hx
        · first | exact hp | exact hr

/-- A worker as the records that it has seen leave it, whatever the contexts were. -/
inductive Reached : Worker → Prop
  | start : Reached {}
  | process {w : Worker} (h : w.Reached) (ctx : Context) {record : SanitizerRecord}
      (hp : record.Proper) : Reached (w.process ctx record).2

lemma Reached.ready (h : w.Reached) : w.Ready := by
  induction h with
  | start => exact ready_init
  | process _ ctx hp ih => exact ih.process hp

lemma Reached.after (h : w.Reached) (ctx : Context) {records : List SanitizerRecord}
    (hp : ∀ record ∈ records, record.Proper) : (w.after ctx records).Reached := by
  induction records generalizing w with
  | nil => exact h
  | cons record records ih =>
    exact ih (h.process ctx (hp record List.mem_cons_self))
      fun x hx => hp x (List.mem_cons_of_mem _ hx)

/-- The records parsed together are proper, and a finish is the last of them. -/
lemma Ready.flushed (h : w.Ready) {record : SanitizerRecord} (hp : record.Proper) :
    (∀ r ∈ w.flushed record, r.payload.Proper) ∧
      ∀ r ∈ (w.flushed record).dropLast, r.isFinish = false := by
  cases record with
  | memory => exact ⟨fun _ h => (by cases h), fun _ h => (by cases h)⟩
  | kernel r =>
    have hcases : w.flushed (.kernel r) = [] ∨ w.flushed (.kernel r) = w.pre.recordBuffer ∨
        w.flushed (.kernel r) = w.pre.recordBuffer ++ [r] := by
      rcases w.pre.next_cases r with ⟨hnil, -⟩ | ⟨-, hfl⟩
      · exact .inl hnil
      · exact .inr hfl
    rcases hcases with hfl | hfl | hfl
    · rw [hfl]
      exact ⟨fun _ h => (by cases h), fun _ h => (by cases h)⟩
    · rw [hfl]
      exact ⟨h.proper, fun x hx => h.open' x (List.mem_of_mem_dropLast hx)⟩
    · rw [hfl, List.dropLast_concat]
      refine ⟨fun x hx => ?_, h.open'⟩
      rcases List.mem_append.1 hx with hx | hx
      · exact h.proper x hx
      · rw [List.mem_singleton.1 hx]
        exact hp

end Worker

/-- **Records that `Process` parses together.** Whatever a worker has seen before, the events of
a call are those of its records parsed one at a time, each into a list of its own, if and only if
the records carry one label (every record with events but the last has the type of the last, and
the parser adds nothing to it), and the flag of the last one, if it is a `HWAIT_FLAG` that gets
one, moves the list exactly if it moves a list of its own. -/
theorem process_eq_parseRun_iff {ctx : Context} {w : Worker} (hw : w.Reached)
    {record : SanitizerRecord} (hr : record.Proper) :
    (w.process ctx record).1 = parseRun ctx w.parser (w.flushed record) ↔
      OneLabel ctx w.parser (w.flushed record) ∧
        MovesAlike ctx 0 w.parser (w.flushed record) := by
  have hready := hw.ready
  obtain ⟨hproper, hfin⟩ := hready.flushed hr
  have hbatch := parseBatch_iff ctx (E := []) hproper hfin hready.sorted
    fun _ _ _ he => (by cases he)
  rw [List.nil_append] at hbatch
  have hprocess : (w.process ctx record).1 = (parseBatch ctx [] w.parser (w.flushed record)).1 := by
    cases record with
    | memory => rfl
    | kernel r => rfl
  rw [hprocess]
  exact hbatch

/-- The wait of an MSTX communication that may be repeated. -/
def repeatedWait (addr : ℕ) : SanitizerRecord :=
  .kernel { payload := .mstxCross false true { addr, isMore := true } }

/-- Two waits are parsed together as they are one at a time. -/
theorem process_eq_parseRun_waits :
    ((Worker.after {} {} [repeatedWait 0, repeatedWait 8]).process {}
        (.kernel { payload := .blockFinish })).1 =
      parseRun {} (Worker.after {} {} [repeatedWait 0, repeatedWait 8]).parser
        ((Worker.after {} {} [repeatedWait 0, repeatedWait 8]).flushed
          (.kernel { payload := .blockFinish })) := by
  have hw : (Worker.after {} {} [repeatedWait 0, repeatedWait 8]).Reached := by
    refine Worker.Reached.start.after {} fun x hx => ?_
    simp only [List.mem_cons, List.not_mem_nil, or_false] at hx
    rcases hx with rfl | rfl <;> trivial
  have hr : (SanitizerRecord.kernel { payload := .blockFinish }).Proper := trivial
  refine (process_eq_parseRun_iff hw hr).2 ⟨⟨fun _ t ht => ?_, fun _ t ht => ?_, fun _ t ht => ?_,
    trivial⟩, fun _ ht => ?_, fun _ _ hc => ?_, fun hc => ?_, trivial⟩
  · cases ht
    exact ⟨rfl, rfl⟩
  · cases ht
  · cases ht
  · cases ht
  · cases hc
  · cases hc

/-- A wait and a `SET_FLAG` behind it are parsed together: the wait comes out labelled as a
`SET_FLAG`. -/
theorem process_relabels :
    ((Worker.after {} {} [repeatedWait 0,
        .kernel { payload := .setFlag .plain { src := .mte2, dst := .v } }]).process {}
        (.kernel { payload := .blockFinish })).1 ≠
      parseRun {} (Worker.after {} {} [repeatedWait 0,
          .kernel { payload := .setFlag .plain { src := .mte2, dst := .v } }]).parser
        ((Worker.after {} {} [repeatedWait 0,
          .kernel { payload := .setFlag .plain { src := .mte2, dst := .v } }]).flushed
          (.kernel { payload := .blockFinish })) := by
  intro h
  have := congrArg (List.map SanEvent.recordType) h
  revert this
  decide +kernel

end MsSanitizer.RecordParse
