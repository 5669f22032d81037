import MsSanitizer.RecordParse
import MsSanitizer.FifoTrace

/-!
Streams of records, each parsed into its own list of events.

What one record does to the state and which events it raises, and the trace of all events of a
stream. The trace is taken before the scalar pipe is replaced, so that a set is at the pipe
that recorded it; `parseRun` is what the sanitizers get.
-/

namespace MsSanitizer.RecordParse

open RecordDefs EventDef

/-! ## Flags -/

/-- The key under which a set goes with a wait: the pipes, the full event id, and whether the
flag is native or generated. -/
structure FlagKey where
  srcPipe : PipeType
  dstPipe : PipeType
  eventId : ℕ
  isGenerated : Bool
  deriving DecidableEq, Repr

/-- The key of an event that is a flag operation of the given kind. -/
def flagOf (opType : SyncType) (e : SanEvent) : Option FlagKey :=
  match e.info with
  | .sync info =>
    if info.opType = opType then
      some { srcPipe := info.srcPipe, dstPipe := info.dstPipe, eventId := info.eventId,
             isGenerated := info.isGenerated }
    else none
  | _ => none

abbrev setOf : SanEvent → Option FlagKey := flagOf .setFlag
abbrev waitOf : SanEvent → Option FlagKey := flagOf .waitFlag

lemma flagOf_eq_some {t : SyncType} {e : SanEvent} {k : FlagKey} :
    flagOf t e = some k ↔ ∃ info, e.info = .sync info ∧ info.opType = t ∧
      k = { srcPipe := info.srcPipe, dstPipe := info.dstPipe, eventId := info.eventId,
            isGenerated := info.isGenerated } := by
  cases hinfo : e.info with
  | sync info =>
    simp only [flagOf, hinfo, EventInfo.sync.injEq, exists_eq_left']
    by_cases ht : info.opType = t
    · simp [ht, eq_comm]
    · simp [ht]
  | _ => simp [flagOf, hinfo]

/-- The edge a flag belongs to in the ring state, with its id cut to three bits. -/
def FlagKey.edge (k : FlagKey) : PipeType × PipeType × ℕ :=
  (k.srcPipe, k.dstPipe, k.eventId % validEventIdSize)

/-! ## What the hset lowering keeps -/

lemma hsetWaitLoop_of_noH {events : List SanEvent} (h : ∀ e ∈ events, ∀ i, e.info ≠ .hSync i)
    (v : Storage) (last : SanEvent) (m : HsetMap) :
    hsetWaitLoop v last m events = (events, [], m) := by
  induction events generalizing v last m with
  | nil => rfl
  | cons e rest ih =>
    have he : hsetWaitEvent last m e = (e, none, m) := by
      have := h e List.mem_cons_self
      rw [hsetWaitEvent]
      split
      · rename_i i hi
        exact absurd hi (this i)
      · rfl
    simp only [hsetWaitLoop, he, ite_self]
    rw [ih (fun x hx => h x (List.mem_cons_of_mem _ hx))]
    rfl

lemma hsetMatchLoop_nil (m : HsetMap) : hsetMatchLoop [] m = ([], m) := by
  have hp : pendingHset m [] = none := by
    rw [pendingHset, List.find?_eq_none]
    intro kv _
    simp
  rw [hsetMatchLoop, hp]

lemma processHsetWaitSync_nil (room : ℕ) (m : HsetMap) :
    processHsetWaitSync room [] m = ([], m) := hsetMatchLoop_nil m

/-- A property of events that the lowering keeps: it holds of an event with another value of
`isReplaced` and of the flags generated at the place of an event that has it. -/
structure LoweringStable (Q : SanEvent → Prop) : Prop where
  replaced : ∀ e h, e.info = .hSync h → Q e → Q (replaced e h)
  generated : ∀ t a b e n, Q e → Q (hsetWaitCreateSyncEvent t a b e n)

section Stable

variable {Q : SanEvent → Prop} (hQ : LoweringStable Q)
include hQ

lemma LoweringStable.event {last e : SanEvent} (m : HsetMap) (hlast : Q last) (he : Q e) :
    Q (hsetWaitEvent last m e).1 ∧ ∀ g ∈ (hsetWaitEvent last m e).2.1, Q g := by
  cases hinfo : e.info with
  | hSync h =>
    have hrep := hQ.replaced e h hinfo he
    have hgen := hQ.generated .waitFlag h.srcPipe h.dstPipe last h.eventId hlast
    simp only [hsetWaitEvent, hinfo]
    split_ifs <;> simp [he, hrep, hgen]
  | _ => simp [hsetWaitEvent, hinfo, he]

lemma LoweringStable.loop {v : Storage} {last : SanEvent} {m : HsetMap} {events : List SanEvent}
    (hlast : Q last) (h : ∀ e ∈ events, Q e) :
    (∀ e ∈ (hsetWaitLoop v last m events).1, Q e) ∧
      ∀ e ∈ (hsetWaitLoop v last m events).2.1, Q e := by
  induction events generalizing v last m with
  | nil => simp [hsetWaitLoop]
  | cons e rest ih =>
    obtain ⟨he, hg⟩ := hQ.event m hlast (h e List.mem_cons_self)
    have hnext : Q ((hsetWaitEvent last m e).2.1.getD last) := by
      cases hgen : (hsetWaitEvent last m e).2.1 with
      | none => exact hlast
      | some g => exact hg g hgen
    obtain ⟨ih1, ih2⟩ := ih hnext (v := v.push (hsetWaitEvent last m e).2.1)
      (m := (hsetWaitEvent last m e).2.2) fun x hx => h x (List.mem_cons_of_mem _ hx)
    refine ⟨?_, ?_⟩
    · intro x hx
      rw [hsetWaitLoop] at hx
      rcases List.mem_cons.1 hx with rfl | hx
      · split_ifs
        · exact h e List.mem_cons_self
        · exact he
      · exact ih1 x hx
    · intro x hx
      rcases List.mem_append.1 hx with hx | hx
      · exact hg x (Option.mem_toList.1 hx)
      · exact ih2 x hx

lemma LoweringStable.matchLoop {m : HsetMap} {events : List SanEvent}
    (h : ∀ e ∈ events, Q e) : ∀ e ∈ (hsetMatchLoop events m).1, Q e := by
  rw [hsetMatchLoop]
  cases hp : pendingHset m events with
  | none => exact h
  | some kv =>
    have hne : events ≠ [] := by
      rintro rfl
      have := List.find?_some hp
      simp at this
    intro e he
    rcases List.mem_append.1 he with he | he
    · exact h e he
    · rw [List.mem_singleton.1 he, List.getLastD_eq_getLast?,
        List.getLast?_eq_getLast_of_ne_nil hne]
      exact hQ.generated _ _ _ _ _ (h _ (List.getLast_mem hne))

lemma LoweringStable.lowering {room : ℕ} {m : HsetMap} {events : List SanEvent}
    (h : ∀ e ∈ events, Q e) : ∀ e ∈ (processHsetWaitSync room events m).1, Q e := by
  rcases List.eq_nil_or_concat' events with rfl | ⟨l, a, rfl⟩
  · rw [processHsetWaitSync_nil]
    exact h
  · have hlast : Q ((l ++ [a]).getLastD blankEvent) := by
      rw [List.getLastD_eq_getLast?, List.getLast?_concat]
      exact h a (by simp)
    obtain ⟨h1, h2⟩ :=
      hQ.loop (v := { room, size := (l ++ [a]).length }) (m := m) hlast h
    exact hQ.matchLoop fun e he => (List.mem_append.1 he).elim (h1 e) (h2 e)

end Stable

/-! ## One record into an empty list -/

variable (ctx : Context)

/-- The events of a record after the hset lowering. -/
def lowered (st : ParseState) (r : KernelRecord) : List SanEvent :=
  (processHsetWaitSync ctx.room ((parseFunc ctx r st).1.map (setRecordType r.recordType))
    st.hsetSyncMap).1

/-- The state after the hset lowering of a record. -/
def loweredState (st : ParseState) (r : KernelRecord) : ParseState :=
  { (parseFunc ctx r st).2 with
    hsetSyncMap := (processHsetWaitSync ctx.room
      ((parseFunc ctx r st).1.map (setRecordType r.recordType)) st.hsetSyncMap).2 }

/-- The events that a record raises, and the state after it. -/
def out (st : ParseState) (r : KernelRecord) : List SanEvent := (raise ctx r [] st).1
def step (st : ParseState) (r : KernelRecord) : ParseState := (raise ctx r [] st).2

def barriers (st : ParseState) (r : KernelRecord) : List SanEvent :=
  (updateSyncInPipe ctx r (lowered ctx st r) (loweredState ctx st r)).1

lemma parseFunc_hsetSyncMap (r : KernelRecord) (st : ParseState) :
    (parseFunc ctx r st).2.hsetSyncMap = st.hsetSyncMap := by
  rw [parseFunc]
  split <;> first | rfl | (split <;> rfl)

lemma parseFunc_ring (r : KernelRecord) (st : ParseState) :
    (parseFunc ctx r st).2.dstSrcGraph = st.dstSrcGraph ∧
      (parseFunc ctx r st).2.edgeStartPoints = st.edgeStartPoints ∧
      (parseFunc ctx r st).2.inheritedStartPoints = st.inheritedStartPoints ∧
      (parseFunc ctx r st).2.closedRingStartSerialNo = st.closedRingStartSerialNo := by
  rw [parseFunc]
  split <;> first | exact ⟨rfl, rfl, rfl, rfl⟩ | (split <;> exact ⟨rfl, rfl, rfl, rfl⟩)

lemma raise_nil {r : KernelRecord} (hr : r.isFinish = false) (st : ParseState) :
    step ctx st r =
        (updateSyncInPipe ctx r (lowered ctx st r) (loweredState ctx st r)).2 ∧
      out ctx st r =
        (lowered ctx st r ++ barriers ctx st r).map (stampRing (step ctx st r)) := by
  by_cases hnil : (parseFunc ctx r st).1 = []
  · have hlow : lowered ctx st r = [] := by
      rw [lowered, hnil, List.map_nil, processHsetWaitSync_nil]
    have hst : loweredState ctx st r = (parseFunc ctx r st).2 := by
      rw [loweredState, hnil, List.map_nil, processHsetWaitSync_nil, ← parseFunc_hsetSyncMap ctx r]
    have hraise : raise ctx r [] st = ([], (parseFunc ctx r st).2) := by
      simp [raise, hr, hnil]
    rw [step, out, barriers, hlow, hst, hraise]
    simp [updateSyncInPipe, hr]
  · have hraise : raise ctx r [] st =
        ((lowered ctx st r ++ barriers ctx st r).map (stampRing (updateSyncInPipe ctx r
          (lowered ctx st r) (loweredState ctx st r)).2),
          (updateSyncInPipe ctx r (lowered ctx st r) (loweredState ctx st r)).2) := by
      simp only [raise, hr, Bool.false_eq_true, if_false, hnil, List.nil_append, List.length_nil,
        List.take_zero, List.drop_zero, parseFunc_hsetSyncMap]
      rfl
    rw [step, out, hraise]
    exact ⟨rfl, rfl⟩

/-! ## Serial numbers -/

lemma parseFunc_serialNo {r : KernelRecord} {st : ParseState} :
    ∀ e ∈ (parseFunc ctx r st).1, e.serialNo = r.serialNo := by
  intro e he
  rw [parseFunc] at he
  split at he
  case h_3 => split at he <;> cases he
  all_goals first
    | (obtain rfl := List.mem_singleton.1 he; rfl)
    | (obtain ⟨b, _, rfl⟩ := List.mem_map.1 he; rfl)
    | cases he

lemma serialNo_lt {rs : List KernelRecord}
    (h : (rs.map KernelRecord.serialNo).Pairwise (· < ·)) {i j : ℕ} {r r' : KernelRecord}
    (hr : rs[i]? = some r) (hr' : rs[j]? = some r') (hij : i < j) : r.serialNo < r'.serialNo := by
  obtain ⟨hi, rfl⟩ := List.getElem?_eq_some_iff.1 hr
  obtain ⟨hj, rfl⟩ := List.getElem?_eq_some_iff.1 hr'
  exact List.pairwise_iff_getElem.1 (List.pairwise_map.1 h) i j hi hj hij

lemma serialNo_stable (n : ℕ) : LoweringStable fun e => e.serialNo = n where
  replaced _ _ _ h := h
  generated _ _ _ _ _ h := h

lemma lowered_serialNo {st : ParseState} {r : KernelRecord} :
    ∀ e ∈ lowered ctx st r, e.serialNo = r.serialNo := by
  refine (serialNo_stable r.serialNo).lowering ?_
  intro e he
  obtain ⟨e', he', rfl⟩ := List.mem_map.1 he
  exact parseFunc_serialNo ctx e' he'

lemma barriers_eq_nil_or {r : KernelRecord} (hr : r.isFinish = false) (st : ParseState) :
    barriers ctx st r = [] ∨ ∃ (st' : ParseState) (e : SanEvent) (k : FlagKey),
      (lowered ctx st r).getLast? = some e ∧ waitOf e = some k ∧ k.dstPipe = .s ∧
      barriers ctx st r = (reachable (step ctx st r).dstSrcGraph k.srcPipe).map fun p =>
        newEvent ctx st' r (innerPipeSync p) := by
  rw [(raise_nil ctx hr st).1, barriers, updateSyncInPipe, if_neg (by simp [hr])]
  cases hlast : (lowered ctx st r).getLast? with
  | none => exact Or.inl rfl
  | some e =>
    simp only
    cases hinfo : e.info with
    | sync info =>
      simp only
      cases hop : info.opType with
      | waitFlag =>
        simp only
        by_cases hs : info.dstPipe = .s
        · refine Or.inr ⟨(loweredState ctx st r).waitRing info.srcPipe info.dstPipe
            (info.eventId % validEventIdSize), e,
            ⟨info.srcPipe, info.dstPipe, info.eventId, info.isGenerated⟩, rfl,
            flagOf_eq_some.2 ⟨info, hinfo, hop, rfl⟩, hs, ?_⟩
          rw [if_pos hs]
        · exact Or.inl (by rw [if_neg hs])
      | _ => exact Or.inl rfl
    | _ => exact Or.inl rfl

lemma eq_of_mem_barriers {r : KernelRecord} (hr : r.isFinish = false) {st : ParseState}
    {e : SanEvent} (he : e ∈ barriers ctx st r) :
    ∃ (st' : ParseState) (p : PipeType), e = newEvent ctx st' r (innerPipeSync p) := by
  rcases barriers_eq_nil_or ctx hr st with h | ⟨st', _, _, _, _, _, h⟩
  · rw [h] at he
    cases he
  · rw [h] at he
    obtain ⟨p, _, rfl⟩ := List.mem_map.1 he
    exact ⟨st', p, rfl⟩

/-- What the lowering and the inferred barriers keep of the events of a handler. -/
lemma forall_out {Q : SanEvent → Prop} (hQ : LoweringStable Q) {r : KernelRecord}
    (hr : r.isFinish = false) {st : ParseState} (hlabel : ∀ e t, Q e → Q (setRecordType t e))
    (hstamp : ∀ e st', Q e → Q (stampRing st' e))
    (hbarrier : ∀ st' p, Q (newEvent ctx st' r (innerPipeSync p)))
    (h : ∀ e ∈ (parseFunc ctx r st).1, Q e) : ∀ e ∈ out ctx st r, Q e := by
  have hlow : ∀ e ∈ lowered ctx st r, Q e := by
    refine hQ.lowering fun e he => ?_
    obtain ⟨e', he', rfl⟩ := List.mem_map.1 he
    exact hlabel e' _ (h e' he')
  intro e he
  rw [(raise_nil ctx hr st).2] at he
  obtain ⟨e', he', rfl⟩ := List.mem_map.1 he
  refine hstamp e' _ ?_
  rcases List.mem_append.1 he' with he' | he'
  · exact hlow e' he'
  · obtain ⟨st', p, rfl⟩ := eq_of_mem_barriers ctx hr he'
    exact hbarrier st' p

lemma out_serialNo {r : KernelRecord} (hr : r.isFinish = false) (st : ParseState) :
    ∀ e ∈ out ctx st r, e.serialNo = r.serialNo :=
  forall_out ctx (serialNo_stable r.serialNo) hr (fun _ _ h => h) (fun _ _ h => h)
    (fun _ _ => rfl) (parseFunc_serialNo ctx)

/-! ## Streams -/

/-- The state after a stream, and the events of each of its records. -/
def stateAfter (st : ParseState) (rs : List KernelRecord) : ParseState := rs.foldl (step ctx) st

def outs (st : ParseState) : List KernelRecord → List (List SanEvent)
  | [] => []
  | r :: rs => out ctx st r :: outs (step ctx st r) rs

def raised (st : ParseState) (rs : List KernelRecord) : List SanEvent := (outs ctx st rs).flatten

/-- The events that the parser returns for each record of a stream. -/
def parseOuts (st : ParseState) : List KernelRecord → List (List SanEvent)
  | [] => []
  | r :: rs => (parse ctx r [] st).1 :: parseOuts (parse ctx r [] st).2 rs

/-- All events that the parser returns for a stream. -/
def parseRun (st : ParseState) (rs : List KernelRecord) : List SanEvent :=
  (parseOuts ctx st rs).flatten

lemma stateAfter_append (st : ParseState) (rs rs' : List KernelRecord) :
    stateAfter ctx st (rs ++ rs') = stateAfter ctx (stateAfter ctx st rs) rs' :=
  List.foldl_append

lemma stateAfter_concat (st : ParseState) (rs : List KernelRecord) (r : KernelRecord) :
    stateAfter ctx st (rs ++ [r]) = step ctx (stateAfter ctx st rs) r := by
  rw [stateAfter_append]
  rfl

lemma outs_append (st : ParseState) (rs rs' : List KernelRecord) :
    outs ctx st (rs ++ rs') = outs ctx st rs ++ outs ctx (stateAfter ctx st rs) rs' := by
  induction rs generalizing st with
  | nil => rfl
  | cons r rs ih => rw [List.cons_append, outs, ih, outs, List.cons_append]; rfl

lemma raised_append (st : ParseState) (rs rs' : List KernelRecord) :
    raised ctx st (rs ++ rs') = raised ctx st rs ++ raised ctx (stateAfter ctx st rs) rs' := by
  rw [raised, outs_append, List.flatten_append]
  rfl

lemma outs_concat (st : ParseState) (rs : List KernelRecord) (r : KernelRecord) :
    outs ctx st (rs ++ [r]) = outs ctx st rs ++ [out ctx (stateAfter ctx st rs) r] :=
  outs_append ctx st rs [r]

lemma raised_concat (st : ParseState) (rs : List KernelRecord) (r : KernelRecord) :
    raised ctx st (rs ++ [r]) = raised ctx st rs ++ out ctx (stateAfter ctx st rs) r := by
  rw [raised, outs_concat, List.flatten_append, List.flatten_singleton]
  rfl

lemma parse_eq (r : KernelRecord) (st : ParseState) :
    parse ctx r [] st = ((out ctx st r).map replacePipeScalar, step ctx st r) := by
  by_cases h : (parseFunc ctx r (if r.isFinish then st.resetAll else st)).1 = []
  · have hraise : raise ctx r [] st = ([], (raise ctx r [] st).2) := by
      rw [raise, if_pos h]
    rw [parse, if_pos h, out, hraise]
    rfl
  · rw [parse, if_neg h]
    rfl

lemma parseOuts_eq (st : ParseState) (rs : List KernelRecord) :
    parseOuts ctx st rs = (outs ctx st rs).map (List.map replacePipeScalar) := by
  induction rs generalizing st with
  | nil => rfl
  | cons r rs ih => rw [parseOuts, parse_eq, ih, outs, List.map_cons]

lemma parseRun_eq (st : ParseState) (rs : List KernelRecord) :
    parseRun ctx st rs = (raised ctx st rs).map replacePipeScalar := by
  rw [parseRun, parseOuts_eq, raised, List.map_flatten]

lemma outs_getElem? (st : ParseState) (rs : List KernelRecord) (i : ℕ) :
    (outs ctx st rs)[i]? = rs[i]?.map (out ctx (stateAfter ctx st (rs.take i))) := by
  induction rs generalizing st i with
  | nil => rfl
  | cons r rs ih =>
    cases i with
    | zero => rfl
    | succ i => rw [outs, List.getElem?_cons_succ, ih]; rfl

lemma mem_raised {st : ParseState} {rs : List KernelRecord} {e : SanEvent}
    (h : e ∈ raised ctx st rs) :
    ∃ i r, rs[i]? = some r ∧ e ∈ out ctx (stateAfter ctx st (rs.take i)) r := by
  obtain ⟨l, hl, he⟩ := List.mem_flatten.1 h
  obtain ⟨i, hi⟩ := List.mem_iff_getElem?.1 hl
  rw [outs_getElem?, Option.map_eq_some_iff] at hi
  obtain ⟨r, hr, rfl⟩ := hi
  exact ⟨i, r, hr, he⟩

lemma raised_take_append_drop (st : ParseState) (rs : List KernelRecord) (n : ℕ) :
    raised ctx st rs =
      raised ctx st (rs.take n) ++ raised ctx (stateAfter ctx st (rs.take n)) (rs.drop n) := by
  rw [← raised_append, List.take_append_drop]

lemma raised_take_succ (st : ParseState) {rs : List KernelRecord} {i : ℕ} {r : KernelRecord}
    (h : rs[i]? = some r) :
    raised ctx st (rs.take (i + 1)) =
      raised ctx st (rs.take i) ++ out ctx (stateAfter ctx st (rs.take i)) r := by
  rw [List.take_add_one, h, Option.toList_some, raised_concat]

lemma raised_getElem? {st : ParseState} {rs : List KernelRecord} {j : ℕ} {e : SanEvent}
    (h : (raised ctx st rs)[j]? = some e) :
    ∃ n r, rs[n]? = some r ∧ (raised ctx st (rs.take n)).length ≤ j ∧
      (out ctx (stateAfter ctx st (rs.take n)) r)[j - (raised ctx st (rs.take n)).length]? =
        some e := by
  induction rs using List.reverseRecOn with
  | nil => cases h
  | append_singleton rs r ih =>
    rcases Nat.lt_or_ge j (raised ctx st rs).length with hlt | hge
    · rw [raised_concat, List.getElem?_append_left hlt] at h
      obtain ⟨n, r', hr', hle, hget⟩ := ih h
      have hn : n < rs.length := (List.getElem?_eq_some_iff.1 hr').1
      refine ⟨n, r', ?_, ?_, ?_⟩
      · rw [List.getElem?_append_left hn, hr']
      · rwa [List.take_append_of_le_length hn.le]
      · rwa [List.take_append_of_le_length hn.le]
    · rw [raised_concat, List.getElem?_append_right hge] at h
      refine ⟨rs.length, r, ?_, ?_, ?_⟩
      · rw [List.getElem?_append_right le_rfl, Nat.sub_self]
        rfl
      · rwa [List.take_left]
      · rwa [List.take_left]

lemma stateAfter_take_succ (st : ParseState) {rs : List KernelRecord} {i : ℕ} {r : KernelRecord}
    (h : rs[i]? = some r) :
    stateAfter ctx st (rs.take (i + 1)) = step ctx (stateAfter ctx st (rs.take i)) r := by
  rw [List.take_add_one, h, Option.toList_some, stateAfter_concat]

lemma replacePipeScalar_eq_mem {e : SanEvent} {op : MemOpInfo}
    (h : (replacePipeScalar e).info = .mem op) : replacePipeScalar e = e := by
  rw [replacePipeScalar] at h ⊢
  split at h <;> simp_all
  all_goals (split_ifs at h; simp_all)

/-! ## What a record does to the rings -/

/-- The part of the state that the rings are kept in. -/
structure Ring where
  edge : PipeType → PipeType → ℕ → Option RingStartPoints
  inherited : PipeType → RingStartPoints
  closed : PipeType → ℕ

def ParseState.ring (st : ParseState) : Ring :=
  ⟨st.edgeStartPoints, st.inheritedStartPoints, st.closedRingStartSerialNo⟩

lemma setRing_ring {st st' : ParseState} (h : st.ring = st'.ring) (n : ℕ) (a b : PipeType)
    (e : ℕ) : (st.setRing n a b e).ring = (st'.setRing n a b e).ring := by
  simp only [ParseState.ring, Ring.mk.injEq] at h
  simp only [ParseState.ring, ParseState.setRing, h.1, h.2.1, h.2.2]

lemma waitRing_ring {st st' : ParseState} (h : st.ring = st'.ring) (a b : PipeType) (e : ℕ) :
    (st.waitRing a b e).ring = (st'.waitRing a b e).ring := by
  simp only [ParseState.ring, Ring.mk.injEq] at h
  simp only [ParseState.ring, ParseState.waitRing, h.1]
  split <;> simp [h.2.1, h.2.2]

lemma loweredState_ring (st : ParseState) (r : KernelRecord) :
    (loweredState ctx st r).ring = st.ring := by
  obtain ⟨-, h1, h2, h3⟩ := parseFunc_ring ctx r st
  simp only [ParseState.ring, loweredState, h1, h2, h3]

/-- The three things a record can do to the rings, by its last event: a set merges into an edge,
a wait merges an edge into a pipe, and anything else leaves them alone. -/
lemma step_ring {r : KernelRecord} (hr : r.isFinish = false) (st : ParseState) :
    (∃ e k, (lowered ctx st r).getLast? = some e ∧ setOf e = some k ∧
      (step ctx st r).ring =
        (st.setRing r.serialNo k.srcPipe k.dstPipe (k.eventId % validEventIdSize)).ring) ∨
    (∃ e k, (lowered ctx st r).getLast? = some e ∧ waitOf e = some k ∧
      (step ctx st r).ring =
        (st.waitRing k.srcPipe k.dstPipe (k.eventId % validEventIdSize)).ring) ∨
    ((∀ e, (lowered ctx st r).getLast? = some e → setOf e = none ∧ waitOf e = none) ∧
      (step ctx st r).ring = st.ring) := by
  rw [(raise_nil ctx hr st).1, updateSyncInPipe, if_neg (by simp [hr])]
  have hring := loweredState_ring ctx st r
  cases hlast : (lowered ctx st r).getLast? with
  | none => exact Or.inr (Or.inr ⟨by simp, hring⟩)
  | some e =>
    have hserial : e.serialNo = r.serialNo :=
      lowered_serialNo ctx e (List.mem_of_getLast? hlast)
    simp only
    cases hinfo : e.info with
    | sync info =>
      simp only
      cases hop : info.opType with
      | setFlag =>
        refine Or.inl ⟨e, ⟨info.srcPipe, info.dstPipe, info.eventId, info.isGenerated⟩, rfl,
          flagOf_eq_some.2 ⟨info, hinfo, hop, rfl⟩, ?_⟩
        rw [← hserial]
        exact setRing_ring hring _ _ _ _
      | waitFlag =>
        refine Or.inr (Or.inl ⟨e, ⟨info.srcPipe, info.dstPipe, info.eventId, info.isGenerated⟩,
          rfl, flagOf_eq_some.2 ⟨info, hinfo, hop, rfl⟩, ?_⟩)
        simp only
        split <;> exact waitRing_ring hring _ _ _
      | _ =>
        refine Or.inr (Or.inr ⟨?_, hring⟩)
        intro e' he'
        obtain rfl := Option.some.inj he'
        simp [flagOf, hinfo, hop]
    | _ =>
      refine Or.inr (Or.inr ⟨?_, hring⟩)
      intro e' he'
      obtain rfl := Option.some.inj he'
      simp [flagOf, hinfo]

end MsSanitizer.RecordParse
