import MsSanitizer.RecordStream
import MsSanitizer.MemEventChecker

/-!
Rings are found: a chain of set/wait pairs that leaves a pipe after an access and comes back to
it before another one closes a ring, and the two accesses are not reported.

Start points only grow, so what a set puts on its edge is still there at a later wait, whatever
was recorded in between.
-/

namespace MsSanitizer.RecordParse

open RecordDefs EventDef MemEventChecker

/-! ## Start points only grow -/

def Ring.starts (g : Ring) (a b : PipeType) (e : ℕ) : RingStartPoints :=
  (g.edge a b e).getD fun _ => 0

/-- The order of ring states: more on every edge and at every pipe. -/
structure Ring.Le (g h : Ring) : Prop where
  starts : ∀ a b e p, g.starts a b e p ≤ h.starts a b e p
  inherited : ∀ q p, g.inherited q p ≤ h.inherited q p
  closed : ∀ p, g.closed p ≤ h.closed p

lemma Ring.Le.refl (g : Ring) : g.Le g :=
  ⟨fun _ _ _ _ => le_rfl, fun _ _ => le_rfl, fun _ => le_rfl⟩

lemma Ring.Le.trans {g h k : Ring} (hgh : g.Le h) (hhk : h.Le k) : g.Le k :=
  ⟨fun a b e p => (hgh.starts a b e p).trans (hhk.starts a b e p),
    fun q p => (hgh.inherited q p).trans (hhk.inherited q p),
    fun p => (hgh.closed p).trans (hhk.closed p)⟩

lemma setRing_starts (st : ParseState) (n : ℕ) (a b : PipeType) (e : ℕ) :
    (st.setRing n a b e).ring.starts a b e =
      Function.update (mergeStarts (st.ring.starts a b e) (st.inheritedStartPoints a)) a
        (max (mergeStarts (st.ring.starts a b e) (st.inheritedStartPoints a) a) n) := by
  simp [Ring.starts, ParseState.ring, ParseState.setRing]

lemma le_setRing_starts (st : ParseState) (n : ℕ) (a b : PipeType) (e : ℕ) (p : PipeType) :
    st.ring.starts a b e p ≤ (st.setRing n a b e).ring.starts a b e p ∧
      st.inheritedStartPoints a p ≤ (st.setRing n a b e).ring.starts a b e p := by
  rw [setRing_starts]
  by_cases hp : p = a
  · subst hp
    rw [Function.update_self]
    exact ⟨le_max_of_le_left (le_max_left _ _), le_max_of_le_left (le_max_right _ _)⟩
  · rw [Function.update_of_ne hp]
    exact ⟨le_max_left _ _, le_max_right _ _⟩

lemma serialNo_le_setRing_starts (st : ParseState) (n : ℕ) (a b : PipeType) (e : ℕ) :
    n ≤ (st.setRing n a b e).ring.starts a b e a := by
  rw [setRing_starts, Function.update_self]
  exact le_max_right _ _

lemma le_setRing (st : ParseState) (n : ℕ) (a b : PipeType) (e : ℕ) :
    st.ring.Le (st.setRing n a b e).ring := by
  refine ⟨?_, fun _ _ => le_rfl, fun _ => le_rfl⟩
  intro a' b' e' p
  by_cases h : a' = a ∧ b' = b ∧ e' = e
  · obtain ⟨rfl, rfl, rfl⟩ := h
    exact (le_setRing_starts st n a' b' e' p).1
  · exact le_of_eq (by simp [Ring.starts, ParseState.ring, ParseState.setRing, h])

lemma waitRing_inherited (st : ParseState) (a b : PipeType) (e : ℕ) (p : PipeType) :
    (st.waitRing a b e).inheritedStartPoints b p =
      max (st.inheritedStartPoints b p) (st.ring.starts a b e p) := by
  rw [Ring.starts, ParseState.waitRing, ParseState.ring]
  cases h : st.edgeStartPoints a b e with
  | none => simp [h]
  | some edgeStarts => simp [h, mergeStarts]

lemma waitRing_closed (st : ParseState) (a b : PipeType) (e : ℕ) :
    (st.waitRing a b e).closedRingStartSerialNo b =
      max (st.closedRingStartSerialNo b) (st.ring.starts a b e b) := by
  rw [Ring.starts, ParseState.waitRing, ParseState.ring]
  cases h : st.edgeStartPoints a b e with
  | none => simp [h]
  | some edgeStarts => simp [h]

lemma waitRing_edge (st : ParseState) (a b : PipeType) (e : ℕ) :
    (st.waitRing a b e).edgeStartPoints = st.edgeStartPoints := by
  rw [ParseState.waitRing]
  split <;> rfl

lemma waitRing_of_ne (st : ParseState) (a : PipeType) {b q : PipeType} (e : ℕ) (h : q ≠ b) :
    (st.waitRing a b e).inheritedStartPoints q = st.inheritedStartPoints q ∧
      (st.waitRing a b e).closedRingStartSerialNo q = st.closedRingStartSerialNo q := by
  rw [ParseState.waitRing]
  split <;> simp [h]

lemma le_waitRing (st : ParseState) (a b : PipeType) (e : ℕ) :
    st.ring.Le (st.waitRing a b e).ring := by
  refine ⟨?_, ?_, ?_⟩
  · intro a' b' e' p
    exact le_of_eq (by rw [Ring.starts, Ring.starts, ParseState.ring, ParseState.ring,
      waitRing_edge])
  · intro q p
    by_cases hq : q = b
    · subst hq
      exact (le_max_left _ _).trans_eq (waitRing_inherited st a q e p).symm
    · exact le_of_eq (congrFun (waitRing_of_ne st a e hq).1 p).symm
  · intro p
    by_cases hp : p = b
    · subst hp
      exact (le_max_left _ _).trans_eq (waitRing_closed st a p e).symm
    · exact le_of_eq (waitRing_of_ne st a e hp).2.symm

variable (ctx : Context)

lemma le_step {r : KernelRecord} (hr : r.isFinish = false) (st : ParseState) :
    st.ring.Le (step ctx st r).ring := by
  obtain ⟨_, k, _, _, h⟩ | ⟨_, k, _, _, h⟩ | ⟨_, h⟩ := step_ring ctx hr st
  · rw [h]
    exact le_setRing st _ _ _ _
  · rw [h]
    exact le_waitRing st _ _ _
  · rw [h]
    exact Ring.Le.refl _

/-- The rings after a stream are at least those after a part of it. -/
lemma le_stateAfter {rs : List KernelRecord} (hrs : ∀ r ∈ rs, r.isFinish = false)
    (st : ParseState) {i j : ℕ} (hij : i ≤ j) :
    (stateAfter ctx st (rs.take i)).ring.Le (stateAfter ctx st (rs.take j)).ring := by
  induction j with
  | zero =>
    obtain rfl : i = 0 := by omega
    exact Ring.Le.refl _
  | succ j ih =>
    by_cases hlt : i ≤ j
    · refine (ih hlt).trans ?_
      cases hr : rs[j]? with
      | none =>
        rw [List.take_add_one, hr, Option.toList_none, List.append_nil]
        exact Ring.Le.refl _
      | some r =>
        rw [stateAfter_take_succ ctx st hr]
        exact le_step ctx (hrs r (List.mem_of_getElem? hr)) _
    · obtain rfl : i = j + 1 := by omega
      exact Ring.Le.refl _

/-! ## Flag records -/

lemma processHsetWaitSync_flag {e : SanEvent} {info : SyncOpInfo} (h : e.info = .sync info)
    (room : ℕ) (m : HsetMap) : processHsetWaitSync room [e] m = ([e], m) := by
  have hp : pendingHset m [e] = none := by
    rw [pendingHset, List.find?_eq_none]
    intro kv _
    simp [matchesHset, h]
  simp [processHsetWaitSync, hsetWaitLoop, hsetWaitEvent, hsetMatchLoop, h, hp]

lemma lowered_setFlag {r : KernelRecord} {form : FlagForm} {rec : SyncRecord}
    (h : r.payload = .setFlag form rec) (st : ParseState) :
    lowered ctx st r =
      [setRecordType r.recordType (newEvent ctx st r (flagSync .setFlag rec))] := by
  rw [lowered, parseFunc, h]
  exact congrArg Prod.fst (processHsetWaitSync_flag rfl _ _)

lemma lowered_waitFlag {r : KernelRecord} {form : FlagForm} {rec : SyncRecord}
    (h : r.payload = .waitFlag form rec) (st : ParseState) :
    lowered ctx st r =
      [setRecordType r.recordType (newEvent ctx st r (flagSync .waitFlag rec))] := by
  rw [lowered, parseFunc, h]
  exact congrArg Prod.fst (processHsetWaitSync_flag rfl _ _)

lemma step_setFlag {r : KernelRecord} {form : FlagForm} {rec : SyncRecord}
    (h : r.payload = .setFlag form rec) (st : ParseState) :
    (step ctx st r).ring =
      (st.setRing r.serialNo rec.src rec.dst (rec.eventID % validEventIdSize)).ring := by
  have hr : r.isFinish = false := by rw [KernelRecord.isFinish, h]
  have hlast := lowered_setFlag ctx h st
  obtain ⟨e, k, he, hk, hstep⟩ | ⟨e, k, he, hk, _⟩ | ⟨hno, _⟩ := step_ring ctx hr st
  · rw [hlast, List.getLast?_singleton] at he
    obtain rfl := Option.some.inj he
    obtain ⟨info, hinfo, _, rfl⟩ := flagOf_eq_some.1 hk
    cases hinfo
    rw [hstep]
    simp
  · rw [hlast, List.getLast?_singleton] at he
    obtain rfl := Option.some.inj he
    cases hk
  · rw [hlast] at hno
    cases (hno _ List.getLast?_singleton).1

lemma step_waitFlag {r : KernelRecord} {form : FlagForm} {rec : SyncRecord}
    (h : r.payload = .waitFlag form rec) (st : ParseState) :
    (step ctx st r).ring =
      (st.waitRing rec.src rec.dst (rec.eventID % validEventIdSize)).ring := by
  have hr : r.isFinish = false := by rw [KernelRecord.isFinish, h]
  have hlast := lowered_waitFlag ctx h st
  obtain ⟨e, k, he, hk, _⟩ | ⟨e, k, he, hk, hstep⟩ | ⟨hno, _⟩ := step_ring ctx hr st
  · rw [hlast, List.getLast?_singleton] at he
    obtain rfl := Option.some.inj he
    cases hk
  · rw [hlast, List.getLast?_singleton] at he
    obtain rfl := Option.some.inj he
    obtain ⟨info, hinfo, _, rfl⟩ := flagOf_eq_some.1 hk
    cases hinfo
    rw [hstep]
    simp
  · rw [hlast] at hno
    cases (hno _ List.getLast?_singleton).2

/-! ## Chains of flags -/

/-- The record at a position is a `SET_FLAG` with these pipes and this id of the hardware. -/
def IsSetAt (rs : List KernelRecord) (i : ℕ) (a b : PipeType) (e : ℕ) : Prop :=
  ∃ r form rec, rs[i]? = some r ∧ r.payload = .setFlag form rec ∧ rec.src = a ∧ rec.dst = b ∧
    rec.eventID % validEventIdSize = e

/-- The record at a position is a `WAIT_FLAG` with these pipes and this id of the hardware. -/
def IsWaitAt (rs : List KernelRecord) (i : ℕ) (a b : PipeType) (e : ℕ) : Prop :=
  ∃ r form rec, rs[i]? = some r ∧ r.payload = .waitFlag form rec ∧ rec.src = a ∧ rec.dst = b ∧
    rec.eventID % validEventIdSize = e

/-- A chain of set/wait pairs from the set at `s₀` on `p` to the wait at `w` on `q`. -/
inductive FlagChain (rs : List KernelRecord) (p : PipeType) (s₀ : ℕ) : PipeType → ℕ → Prop
  | start {q e w} (hs : IsSetAt rs s₀ p q e) (hlt : s₀ < w) (hw : IsWaitAt rs w p q e) :
      FlagChain rs p s₀ q w
  | link {q w s q' e w'} (hc : FlagChain rs p s₀ q w) (hws : w < s) (hs : IsSetAt rs s q q' e)
      (hlt : s < w') (hw : IsWaitAt rs w' q q' e) : FlagChain rs p s₀ q' w'

lemma FlagChain.first {rs : List KernelRecord} {p q : PipeType} {s₀ w : ℕ}
    (h : FlagChain rs p s₀ q w) : ∃ r, rs[s₀]? = some r := by
  induction h with
  | start hs _ _ =>
    obtain ⟨r, _, _, hr, _⟩ := hs
    exact ⟨r, hr⟩
  | link _ _ _ _ _ ih => exact ih

section Chain

variable {rs : List KernelRecord} (hrs : ∀ r ∈ rs, r.isFinish = false) (st : ParseState)
include hrs

/-- The start point `n` of `p` goes over one pair: put on the edge by the set, it reaches the
pipe that waits. -/
lemma start_over_pair {a b p : PipeType} {e s w n : ℕ} (hs : IsSetAt rs s a b e) (hlt : s < w)
    (hw : IsWaitAt rs w a b e)
    (hn : ∀ r, rs[s]? = some r →
      (p = a ∧ n = r.serialNo) ∨ n ≤ (stateAfter ctx st (rs.take s)).inheritedStartPoints a p) :
    n ≤ (stateAfter ctx st (rs.take (w + 1))).inheritedStartPoints b p ∧
      (p = b → n ≤ (stateAfter ctx st (rs.take (w + 1))).closedRingStartSerialNo b) := by
  obtain ⟨r, form, rec, hr, hpay, rfl, rfl, rfl⟩ := hs
  obtain ⟨r', form', rec', hr', hpay', hsrc, hdst, hid⟩ := hw
  have hset : n ≤ (stateAfter ctx st (rs.take (s + 1))).ring.starts rec.src rec.dst
      (rec.eventID % validEventIdSize) p := by
    rw [stateAfter_take_succ ctx st hr, step_setFlag ctx hpay]
    rcases hn r hr with ⟨rfl, rfl⟩ | hle
    · exact serialNo_le_setRing_starts _ _ _ _ _
    · exact hle.trans (le_setRing_starts _ _ _ _ _ _).2
  have hkept := hset.trans ((le_stateAfter ctx hrs st (show s + 1 ≤ w by omega)).starts _ _ _ _)
  have hstep := stateAfter_take_succ ctx st hr'
  have hring := step_waitFlag ctx hpay' (stateAfter ctx st (rs.take w))
  rw [hsrc, hdst, hid] at hring
  have hinh := congrFun (congrFun (congrArg Ring.inherited hring) rec.dst) p
  have hclosed := congrFun (congrArg Ring.closed hring) rec.dst
  simp only [ParseState.ring] at hinh hclosed
  rw [hstep, hinh, hclosed, waitRing_inherited, waitRing_closed]
  refine ⟨le_max_of_le_right hkept, ?_⟩
  rintro rfl
  exact le_max_of_le_right hkept

/-- A chain carries the serial number of its first set to the pipe where it ends. -/
lemma FlagChain.start_le {p q : PipeType} {s₀ w : ℕ} (h : FlagChain rs p s₀ q w)
    {r : KernelRecord} (hr : rs[s₀]? = some r) :
    r.serialNo ≤ (stateAfter ctx st (rs.take (w + 1))).inheritedStartPoints q p ∧
      (p = q → r.serialNo ≤ (stateAfter ctx st (rs.take (w + 1))).closedRingStartSerialNo q) := by
  induction h with
  | start hs hlt hw =>
    refine start_over_pair ctx hrs st hs hlt hw ?_
    intro r' hr'
    rw [hr] at hr'
    cases hr'
    exact Or.inl ⟨rfl, rfl⟩
  | link hc hws hs hlt hw ih =>
    refine start_over_pair ctx hrs st hs hlt hw fun _ _ => Or.inr ?_
    exact ih.1.trans ((le_stateAfter ctx hrs st (by omega)).inherited _ _)

end Chain

/-! ## The pair is not reported -/

/-- `MemEvent(event)`. -/
def memEventOf (e : SanEvent) : MemEvent :=
  let base : MemEvent :=
    { serialNo := e.serialNo, closedRingStartSerialNo := e.closedRingStartSerialNo, loc := e.loc,
      pipe := e.pipe, isAtomicMode := e.isAtomicMode }
  match e.info with
  | .mem op => { base with memInfo := op }
  | .dynamicMem op => { base with dynamicMemInfo := op, isDynamic := true }
  | _ => base

/-- The event that `SinglePipeRaceAlgImpl::ProcessMemEvent` pushes, with the two numbers that it
counts by itself. -/
def pushedEvent (e : SanEvent) (barrierNo pipeSerialNo : ℕ) : MemEvent :=
  { memEventOf e with barrierNo, pipeSerialNo }

lemma pushedEvent_serialNo (e : SanEvent) (m n : ℕ) :
    (pushedEvent e m n).serialNo = e.serialNo ∧
      (pushedEvent e m n).closedRingStartSerialNo = e.closedRingStartSerialNo := by
  rw [pushedEvent, memEventOf]
  split <;> exact ⟨rfl, rfl⟩

/-- Two accesses of which one lies before a ring that the other one closes are no race, in
whichever order they are compared. -/
lemma not_race_of_ring {events : List MemEvent} {i j : ℕ}
    (h : (eventAt events i).serialNo ≤ (eventAt events j).closedRingStartSerialNo) :
    (isSinglePipeRaceEvent events i j).race = false ∧
      (isSinglePipeRaceEvent events j i).race = false := by
  simp only [isSinglePipeRaceEvent, h, true_or, or_true, if_true]
  refine ⟨?_, ?_⟩ <;> split_ifs <;> rfl

lemma out_closedRing {st : ParseState} {r : KernelRecord} (hr : r.isFinish = false) :
    ∀ e ∈ out ctx st r,
      e.closedRingStartSerialNo = (step ctx st r).closedRingStartSerialNo e.pipe := by
  intro e he
  rw [(raise_nil ctx hr st).2] at he
  obtain ⟨e', _, rfl⟩ := List.mem_map.1 he
  rfl

/-- The events a stream gives for one of its records, at a memory access. -/
lemma mem_parseOuts {st : ParseState} {rs : List KernelRecord} {i : ℕ} {l : List SanEvent}
    {e : SanEvent} {op : MemOpInfo} (hl : (parseOuts ctx st rs)[i]? = some l) (he : e ∈ l)
    (hop : e.info = .mem op) :
    ∃ r, rs[i]? = some r ∧ e ∈ out ctx (stateAfter ctx st (rs.take i)) r := by
  rw [parseOuts_eq, List.getElem?_map, outs_getElem?, Option.map_map,
    Option.map_eq_some_iff] at hl
  obtain ⟨r, hr, rfl⟩ := hl
  obtain ⟨e', he', rfl⟩ := List.mem_map.1 he
  rw [replacePipeScalar_eq_mem hop]
  exact ⟨r, hr, he'⟩

/-- **Rings are found.** In every stream of records of one block with increasing serial numbers
and from every state of the parser, when the records between two accesses `A` and `C` on a pipe
hold a chain of set/wait pairs that starts with a set on this pipe and ends with a wait on it,
then `A` lies before the last ring that is closed at `C`, and the check of one pipe does not
report the pair. (Of `A` only the serial number is used; where it is on another pipe the check
does not look further.) -/
theorem ring_of_chain (st : ParseState) {rs : List KernelRecord}
    (hrs : ∀ r ∈ rs, r.isFinish = false)
    (hserial : (rs.map KernelRecord.serialNo).Pairwise (· < ·))
    {i s₀ w j : ℕ} {p : PipeType} (his : i < s₀) (hchain : FlagChain rs p s₀ p w) (hwj : w < j)
    {l l' : List SanEvent} (hl : (parseOuts ctx st rs)[i]? = some l)
    (hl' : (parseOuts ctx st rs)[j]? = some l') {A C : SanEvent} {opA opC : MemOpInfo}
    (hA : A ∈ l) (hopA : A.info = .mem opA)
    (hC : C ∈ l') (hopC : C.info = .mem opC) (hpC : C.pipe = p) :
    A.serialNo ≤ C.closedRingStartSerialNo ∧
      ∀ (events : List MemEvent) (a c m m' n n' : ℕ),
        events[a]? = some (pushedEvent A m n) → events[c]? = some (pushedEvent C m' n') →
        (isSinglePipeRaceEvent events a c).race = false ∧
          (isSinglePipeRaceEvent events c a).race = false := by
  obtain ⟨rA, hrA, hAout⟩ := mem_parseOuts ctx hl hA hopA
  obtain ⟨rC, hrC, hCout⟩ := mem_parseOuts ctx hl' hC hopC
  have hfinC := hrs rC (List.mem_of_getElem? hrC)
  obtain ⟨r₀, hr₀⟩ := hchain.first
  have hlt : rA.serialNo < r₀.serialNo := serialNo_lt hserial hrA hr₀ his
  have hle : A.serialNo ≤ C.closedRingStartSerialNo := by
    have hAserial := out_serialNo ctx (hrs rA (List.mem_of_getElem? hrA)) _ A hAout
    have hring := (hchain.start_le ctx hrs st hr₀).2 rfl
    have hkept := (le_stateAfter ctx hrs st (show w + 1 ≤ j + 1 by omega)).closed p
    rw [out_closedRing ctx hfinC C hCout, hpC, ← stateAfter_take_succ ctx st hrC, hAserial]
    exact hlt.le.trans (hring.trans hkept)
  refine ⟨hle, ?_⟩
  intro events a c m m' n n' ha hc
  apply not_race_of_ring
  rw [eventAt, eventAt, List.getD_eq_getElem?_getD, List.getD_eq_getElem?_getD, ha, hc]
  exact ((pushedEvent_serialNo A m n).1.trans_le hle).trans_eq (pushedEvent_serialNo C m' n').2.symm

/-- An access on the vector pipe, a round trip over the cube pipe, and another access. -/
def roundTrip : List KernelRecord :=
  [{ serialNo := 1, payload := .instr .vector [(.v, .mem {})] },
    { serialNo := 2, payload := .setFlag .plain { src := .v, dst := .m, eventID := 8 } },
    { serialNo := 3, payload := .waitFlag .plain { src := .v, dst := .m, eventID := 0 } },
    { serialNo := 4, payload := .setFlag .plain { src := .m, dst := .v, eventID := 1 } },
    { serialNo := 5, payload := .waitFlag .plain { src := .m, dst := .v, eventID := 1 } },
    { serialNo := 6, payload := .instr .vector [(.v, .mem {})] }]

/-- The access of the record at a position of the round trip. -/
def roundTripAccess (i : ℕ) : SanEvent :=
  ((parseOuts {} {} roundTrip).getD i []).getD 0 blankEvent

theorem ring_of_chain_roundTrip :
    (roundTripAccess 0).serialNo ≤ (roundTripAccess 5).closedRingStartSerialNo ∧
      ∀ (events : List MemEvent) (a c m m' n n' : ℕ),
        events[a]? = some (pushedEvent (roundTripAccess 0) m n) →
        events[c]? = some (pushedEvent (roundTripAccess 5) m' n') →
        (isSinglePipeRaceEvent events a c).race = false ∧
          (isSinglePipeRaceEvent events c a).race = false := by
  have hset₁ : IsSetAt roundTrip 1 .v .m 0 := ⟨_, _, _, rfl, rfl, rfl, rfl, rfl⟩
  have hwait₁ : IsWaitAt roundTrip 2 .v .m 0 := ⟨_, _, _, rfl, rfl, rfl, rfl, rfl⟩
  have hset₂ : IsSetAt roundTrip 3 .m .v 1 := ⟨_, _, _, rfl, rfl, rfl, rfl, rfl⟩
  have hwait₂ : IsWaitAt roundTrip 4 .m .v 1 := ⟨_, _, _, rfl, rfl, rfl, rfl, rfl⟩
  have hchain : FlagChain roundTrip .v 1 .v 4 :=
    .link (.start hset₁ (by omega) hwait₁) (by omega) hset₂ (by omega) hwait₂
  have hl : (parseOuts {} {} roundTrip)[0]? = some [roundTripAccess 0] := rfl
  have hl' : (parseOuts {} {} roundTrip)[5]? = some [roundTripAccess 5] := rfl
  exact ring_of_chain {} {} (by decide) (by decide) (by omega) hchain (by omega) hl hl'
    List.mem_cons_self rfl List.mem_cons_self rfl rfl

end MsSanitizer.RecordParse
