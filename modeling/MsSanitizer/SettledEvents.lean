import MsSanitizer.HsetLowering
import MsSanitizer.ScalarBarriers

/-!
# Settled events

Events behind which a record of a type can be parsed as if they were not there, and what the
parser adds to the events of a record on its own: flags for hard synchronisation, and barriers.
As long as all records are of one type and the parser adds nothing, all events stay settled.
-/

namespace MsSanitizer.RecordParse

open RecordDefs EventDef

/-! ## What the parser adds -/

/-- A `WAIT_FLAG` on the scalar pipe. -/
def isScalarWait (e : SanEvent) : Bool :=
  match e.info with
  | .sync info => decide (info.opType = .waitFlag ∧ info.dstPipe = .s)
  | _ => false

/-- The last event is a `WAIT_FLAG` on the scalar pipe. -/
def waitsOnScalar (events : List SanEvent) : Bool := events.getLast?.any isScalarWait

/-- The record is a valid `HWAIT_FLAG` for a set that was turned into a flag. -/
def waitsForFlag (m : HsetMap) (r : KernelRecord) : Bool :=
  match r.payload with
  | .hwaitFlag _ h =>
    isValidHardSyncRecord r.blockType h &&
      ((hsetFind m { srcPipe := h.src, dstPipe := h.dst, eventId := h.eventID,
                     memType := h.memory }).getD {}).isTransSet
  | _ => false

/-- The parser adds events of its own to those of the handler: the flag of a `HWAIT_FLAG`, the
flag of a pending `HSET_FLAG`, or the barriers of a wait on the scalar pipe. -/
def adds (ctx : Context) (st : ParseState) (r : KernelRecord) : Bool :=
  waitsForFlag st.hsetSyncMap r ||
    (pendingHset st.hsetSyncMap (parseFunc ctx r st).1).isSome ||
    waitsOnScalar (parseFunc ctx r st).1

/-! ## Settled events -/

lemma replacePipeScalar_recordType (e : SanEvent) :
    (replacePipeScalar e).recordType = e.recordType := by
  unfold replacePipeScalar
  split <;> (try split_ifs) <;> rfl

lemma replacePipeScalar_idem (e : SanEvent) :
    replacePipeScalar (replacePipeScalar e) = replacePipeScalar e := by
  obtain ⟨serialNo, pipe, info, loc, atomic, type, ring⟩ := e
  cases info with
  | sync info =>
    simp only [replacePipeScalar]
    split_ifs with hset hwait
    · simp
    · simp
    · dsimp only
      rw [if_neg hset, if_neg hwait]
  | crossCoreSync info => simp only [replacePipeScalar]; split_ifs <;> simp_all
  | crossCoreSoftSync info => simp only [replacePipeScalar]; split_ifs <;> simp_all
  | mstxCrossSync info => simp only [replacePipeScalar]; split_ifs <;> simp_all
  | bufSync info => simp only [replacePipeScalar]; split_ifs <;> simp_all
  | _ => rfl

lemma replacePipeScalar_isHSync (e : SanEvent) :
    isHSync (replacePipeScalar e).info = isHSync e.info := by
  unfold replacePipeScalar
  split <;> (try split_ifs) <;> simp_all [isHSync]

lemma replacePipeScalar_of_hSync {e : SanEvent} (h : isHSync e.info = true) :
    replacePipeScalar e = e := by
  unfold replacePipeScalar
  split <;> simp_all [isHSync]

lemma matchesHset_replacePipeScalar (key : HsetRecordKey) (e : SanEvent) :
    matchesHset key (replacePipeScalar e) = matchesHset key e := by
  unfold replacePipeScalar
  split <;> (try split_ifs) <;> simp_all [matchesHset]

/-- The types of `HSET_FLAG`. -/
def setType (t : ℕ) : Bool := decide (t ∈ [20002, 20027])

/-- An event behind which a record of type `t` can be parsed as if it were not there. A
`HSET_FLAG` that was not replaced finds its set turned into a flag. -/
structure Settled (t : ℕ) (m : HsetMap) (e : SanEvent) : Prop where
  label : e.recordType = t
  scalar : replacePipeScalar e = e
  hard : isHSync e.info = hardType t
  unmatched : Unmatched m e
  replaced : ∀ info, e.info = .hSync info → info.isReplaced = true ∨
    setType t = true ∧ info.opType = .hsetFlag ∧
      ∃ s, hsetFind m (hsetKey info) = some s ∧ s.isTransSet = true

section Settle

variable {ctx : Context} {st : ParseState} {r : KernelRecord} {m : HsetMap} {t : ℕ}
  {e : SanEvent} {E : List SanEvent}

lemma Settled.inert (h : Settled t m e) (hs : SortedMap m) : Inert m e := by
  intro last
  unfold hsetWaitEvent
  cases hinfo : e.info with
  | hSync info =>
    dsimp only
    by_cases hrep : info.isReplaced = true
    · rw [if_neg (by simp [hrep]), if_neg (by simp [hrep])]
    · obtain ⟨-, hop, s, hfind, htrans⟩ := (h.replaced info hinfo).resolve_left hrep
      rw [if_pos ⟨hop, by simpa using hrep⟩, hfind, Option.getD_some, if_pos htrans,
        hs.put_self hfind]
  | _ => rfl

lemma hard_of_waitsForFlag (h : waitsForFlag m r = true) : r.hard = true := by
  unfold waitsForFlag at h
  unfold KernelRecord.hard
  cases hp : r.payload with
  | hwaitFlag imm record => rfl
  | _ => simp [hp] at h

/-- The event of a hard synchronisation record gets a flag if the record waits for a set that is
one, and is replaced then. -/
lemma hsetWaitEvent_flag (ctx : Context) (st : ParseState) (hm : r.makes = true)
    (hard : r.hard = true) :
    ∃ e₀ info, (parseFunc ctx r st).1 = [e₀] ∧ e₀.info = .hSync info ∧
      info.isReplaced = false ∧ ∀ last m,
        (hsetWaitEvent last m (setRecordType r.recordType e₀)).2.1.isSome = waitsForFlag m r ∧
        (waitsForFlag m r = true → (hsetWaitEvent last m (setRecordType r.recordType e₀)).1 =
          replaced (setRecordType r.recordType e₀) info) := by
  obtain ⟨e₀, info, hfunc, hinfo, hrep, imm, record, hcase, hv, hkey⟩ :=
    parseFunc_hard ctx st hard hm
  refine ⟨e₀, info, hfunc, hinfo, hrep, fun last m => ?_⟩
  have hinfo₀ : (setRecordType r.recordType e₀).info = .hSync info := hinfo
  unfold hsetWaitEvent waitsForFlag
  rw [hinfo₀]
  rcases hcase with ⟨hop, hp⟩ | ⟨hop, hp⟩
  · rw [hp]
    dsimp only
    rw [if_pos ⟨hop, hrep⟩]
    split_ifs <;> exact ⟨rfl, fun h => (by cases h)⟩
  · rw [hp]
    dsimp only
    rw [if_neg (by simp [hop]), if_pos ⟨hop, hrep⟩, hv, Bool.true_and, ← hkey]
    cases ((hsetFind m (hsetKey info)).getD {}).isTransSet <;> exact ⟨rfl, fun _ => rfl⟩

/-- The first loop leaves the event of a hard synchronisation record alike in two lists, if a flag
for it moves both or none. -/
lemma hsetWaitLoop_size (v v' : Storage) (hv : v.moved = v'.moved) (last e : SanEvent)
    (h : (hsetWaitEvent last m e).2.1.isSome = true →
      isFull v.room v.size = isFull v'.room v'.size) :
    (hsetWaitLoop v last m [e]).1 = (hsetWaitLoop v' last m [e]).1 := by
  rw [hsetWaitLoop, hsetWaitLoop]
  dsimp only [hsetWaitLoop]
  cases hflag : (hsetWaitEvent last m e).2.1 with
  | none => rw [Storage.push, Storage.push, hv]
  | some g =>
    rw [hflag] at h
    rw [Storage.push, Storage.push, hv, h rfl]

/-- A record behind settled events of its type, if a flag for it moves the list as it moves the
list of its own events. -/
lemma parse_settled (hp : r.payload.Proper) (hm : r.makes = true)
    (hs : SortedMap (st.start r).hsetSyncMap)
    (hE : ∀ e ∈ E, Settled r.recordType (st.start r).hsetSyncMap e)
    (hmoves : waitsForFlag (st.start r).hsetSyncMap r = true →
      isFull ctx.room (E.length + 1) = isFull ctx.room 1) :
    parse ctx r E st = (E ++ (parse ctx r [] st).1, (parse ctx r [] st).2) := by
  cases hard : r.hard with
  | true =>
    obtain ⟨e₀, info, hfunc, -, -, hflag⟩ := hsetWaitEvent_flag ctx (st.start r) hm hard
    refine parse_append hm rfl (fun e he => (hE e he).label) (fun e he => (hE e he).scalar)
      (fun e he => (hE e he).inert hs) (fun e he v => unmatched_of_hSync ?_ _) ?_
    · rw [(hE e he).hard, hardType_of_hard hard]
    · rw [hfunc, List.map_singleton]
      refine hsetWaitLoop_size ⟨ctx.room, E.length + 1, false⟩ ⟨ctx.room, 1, false⟩ rfl _ _
        fun h => hmoves ?_
      rwa [(hflag _ _).1] at h
  | false =>
    have hsoft : ∀ e ∈ (parseFunc ctx r (st.start r)).1.map (setRecordType r.recordType),
        isHSync e.info = false := by
      intro e he
      obtain ⟨x, hx, rfl⟩ := List.mem_map.1 he
      exact isHSync_parseFunc hp hard x hx
    refine parse_append hm rfl (fun e he => (hE e he).label) (fun e he => (hE e he).scalar)
      (fun e he => (hE e he).inert hs) (fun e he v => ?_) ?_
    · rw [hsetWaitLoop_of_not_hSync v _ hsoft]
      exact (hE e he).unmatched
    · rw [hsetWaitLoop_of_not_hSync _ _ hsoft, hsetWaitLoop_of_not_hSync _ _ hsoft]

/-- `UpdateSyncInPipe` changes the state of the rings and nothing else. -/
lemma updateSyncInPipe_frame (ctx : Context) (r : KernelRecord) (events : List SanEvent)
    (st : ParseState) : ∃ graph edges inherited closed,
      (updateSyncInPipe ctx r events st).2 =
        { st with
          dstSrcGraph := graph, edgeStartPoints := edges, inheritedStartPoints := inherited,
          closedRingStartSerialNo := closed } := by
  have hwait (a b : PipeType) (n : ℕ) : ∃ graph edges inherited closed, st.waitRing a b n =
      { st with
        dstSrcGraph := graph, edgeStartPoints := edges, inheritedStartPoints := inherited,
        closedRingStartSerialNo := closed } := by
    unfold ParseState.waitRing
    dsimp only
    split <;> exact ⟨_, _, _, _, rfl⟩
  unfold updateSyncInPipe
  split
  · exact ⟨_, _, _, _, rfl⟩
  · split
    · exact ⟨_, _, _, _, rfl⟩
    · split
      · exact ⟨_, _, _, _, rfl⟩
      · dsimp only
        split
        · exact ⟨_, _, _, _, rfl⟩
        · split_ifs
          · exact hwait _ _ _
          · exact hwait _ _ _
        · exact ⟨_, _, _, _, rfl⟩
      · exact ⟨_, _, _, _, rfl⟩

lemma updateSyncInPipe_hsetSyncMap (ctx : Context) (r : KernelRecord) (events : List SanEvent)
    (st : ParseState) : (updateSyncInPipe ctx r events st).2.hsetSyncMap = st.hsetSyncMap := by
  obtain ⟨_, _, _, _, h⟩ := updateSyncInPipe_frame ctx r events st
  rw [h]

/-- The lowering of one event that makes no flag and that no pending set waits for. -/
lemma processHsetWaitSync_singleton {room : ℕ} {e' : SanEvent} {m' : HsetMap}
    (h : hsetWaitEvent e m e = (e', none, m')) (hun : Unmatched m' e') :
    processHsetWaitSync room [e] m = ([e'], m') := by
  have hpend : pendingHset m' [e'] = none := by
    have := pendingHset_unmatched (E := [e']) (N := []) (m := m') fun x hx => by
      rw [List.mem_singleton.1 hx]
      exact hun
    rw [List.append_nil] at this
    rw [this]
    unfold pendingHset
    rw [List.find?_eq_none]
    simp
  unfold processHsetWaitSync
  rw [List.getLastD_cons, List.getLastD_nil, hsetWaitLoop, h]
  change hsetMatchLoop [e'] m' = ([e'], m')
  unfold hsetMatchLoop
  rw [hpend]

lemma updateSyncInPipe_of_not_waits {events : List SanEvent} (hr : r.isFinish = false)
    (h : waitsOnScalar events = false) (st : ParseState) :
    (updateSyncInPipe ctx r events st).1 = [] := by
  unfold waitsOnScalar at h
  unfold updateSyncInPipe
  rw [hr, if_neg (by simp)]
  cases hlast : events.getLast? with
  | none => rfl
  | some event =>
    rw [hlast, Option.any_some] at h
    unfold isScalarWait at h
    dsimp only
    cases hinfo : event.info with
    | sync info =>
      rw [hinfo] at h
      dsimp only at h ⊢
      cases hop : info.opType with
      | waitFlag =>
        have hdst : info.dstPipe ≠ .s := by
          intro hc
          simp [hop, hc] at h
        dsimp only
        rw [if_neg hdst]
      | _ => rfl
    | _ => rfl

lemma waitsOnScalar_map (events : List SanEvent) (t : ℕ) :
    waitsOnScalar (events.map (setRecordType t)) = waitsOnScalar events := by
  unfold waitsOnScalar
  rw [List.getLast?_map]
  cases events.getLast? with
  | none => rfl
  | some e => rfl

lemma pendingHset_map (m : HsetMap) (events : List SanEvent) (t : ℕ) :
    pendingHset m (events.map (setRecordType t)) = pendingHset m events := by
  unfold pendingHset
  apply List.find?_congr
  intro kv _
  rw [List.any_map]
  rfl

lemma start_of_not_finish (hr : r.isFinish = false) : st.start r = st := by
  unfold ParseState.start
  rw [hr]
  rfl

lemma parse_nil_of_low {L : List SanEvent} {m' : HsetMap} (hm : r.makes = true)
    (hr : r.isFinish = false)
    (hlow : processHsetWaitSync ctx.room
      ((parseFunc ctx r st).1.map (setRecordType r.recordType)) st.hsetSyncMap = (L, m'))
    (hwaits : waitsOnScalar L = false) :
    ∃ st' : ParseState, parse ctx r [] st =
      (L.map fun e => replacePipeScalar (stampRing st' e), st') ∧ st'.hsetSyncMap = m' := by
  have hstart : st.start r = st := start_of_not_finish hr
  rw [← hstart] at hlow
  have hparse := parse_of_makes hm st [] hlow.symm rfl
  refine ⟨_, ?_, updateSyncInPipe_hsetSyncMap ctx r L
    { (parseFunc ctx r (st.start r)).2 with hsetSyncMap := m' }⟩
  dsimp only at hparse
  rw [hparse, updateSyncInPipe_of_not_waits hr hwaits, List.append_nil, List.length_nil,
    List.take_zero, List.drop_zero, List.nil_append, List.map_map]
  rfl

/-- What a record without hard synchronisation leaves if the parser adds nothing. -/
lemma parse_quiet_soft (hp : r.payload.Proper) (hm : r.makes = true) (hr : r.isFinish = false)
    (hard : r.hard = false) (hadds : adds ctx st r = false) :
    (parse ctx r [] st).1.length = (parseFunc ctx r st).1.length ∧
      (∀ e ∈ (parse ctx r [] st).1, Settled r.recordType st.hsetSyncMap e) ∧
      (parse ctx r [] st).2.hsetSyncMap = st.hsetSyncMap := by
  unfold adds at hadds
  rw [Bool.or_eq_false_iff, Bool.or_eq_false_iff] at hadds
  obtain ⟨⟨-, hpend⟩, hwaits⟩ := hadds
  rw [Option.isSome_eq_false_iff, Option.isNone_iff_eq_none] at hpend
  have hN : ∀ e ∈ (parseFunc ctx r st).1.map (setRecordType r.recordType),
      isHSync e.info = false := by
    intro e he
    obtain ⟨x, hx, rfl⟩ := List.mem_map.1 he
    exact isHSync_parseFunc hp hard x hx
  have hlow : processHsetWaitSync ctx.room
      ((parseFunc ctx r st).1.map (setRecordType r.recordType)) st.hsetSyncMap =
        ((parseFunc ctx r st).1.map (setRecordType r.recordType), st.hsetSyncMap) := by
    unfold processHsetWaitSync
    rw [hsetWaitLoop_of_not_hSync _ _ hN]
    unfold hsetMatchLoop
    dsimp only
    rw [List.append_nil, pendingHset_map, hpend]
  obtain ⟨st', hparse, hmap⟩ :=
    parse_nil_of_low hm hr hlow ((waitsOnScalar_map _ _).trans hwaits)
  rw [hparse]
  refine ⟨by rw [List.length_map, List.length_map], ?_, hmap⟩
  intro e he
  obtain ⟨y, hy, rfl⟩ := List.mem_map.1 he
  obtain ⟨x, hx, rfl⟩ := List.mem_map.1 hy
  have hsoft := (replacePipeScalar_isHSync (stampRing st' (setRecordType r.recordType x))).trans
    (isHSync_parseFunc hp hard x hx)
  refine ⟨replacePipeScalar_recordType _, replacePipeScalar_idem _, ?_, ?_, ?_⟩
  · rw [hardType_of_not_hard hard]
    exact hsoft
  · intro kv hkv htrans hmode
    have := List.find?_eq_none.1 hpend kv hkv
    simp only [htrans, hmode, Bool.not_false, Bool.true_and, List.any_eq_true, not_exists,
      not_and, Bool.not_eq_true] at this
    exact (matchesHset_replacePipeScalar kv.1 _).trans (this x hx)
  · intro info hinfo
    rw [hinfo] at hsoft
    cases hsoft

/-- Between hard synchronisation records only the sets that are flags already matter. -/
lemma Settled.mono {m' : HsetMap} (h : Settled t m e) (hard : hardType t = true)
    (hfind : setType t = true → ∀ key s, hsetFind m key = some s → s.isTransSet = true →
      hsetFind m' key = some s) : Settled t m' e where
  label := h.label
  scalar := h.scalar
  hard := h.hard
  unmatched := unmatched_of_hSync (h.hard.trans hard) m'
  replaced := by
    intro info hinfo
    rcases h.replaced info hinfo with hrep | ⟨ht, hop, s, hs, htrans⟩
    · exact .inl hrep
    · exact .inr ⟨ht, hop, s, hfind ht _ s hs htrans, htrans⟩

/-- An event of a hard synchronisation record after its lowering. -/
lemma settled_of_hSync {info : HSyncOpInfo} {st' : ParseState} (hinfo : e.info = .hSync info)
    (hlabel : e.recordType = t) (hard : hardType t = true)
    (hrep : info.isReplaced = true ∨ setType t = true ∧ info.opType = .hsetFlag ∧
      ∃ s, hsetFind m (hsetKey info) = some s ∧ s.isTransSet = true) :
    Settled t m (replacePipeScalar (stampRing st' e)) := by
  have hsync : isHSync (stampRing st' e).info = true := by
    show isHSync e.info = true
    rw [hinfo]
    rfl
  rw [replacePipeScalar_of_hSync hsync]
  refine ⟨hlabel, replacePipeScalar_of_hSync hsync, hsync.trans hard.symm,
    unmatched_of_hSync hsync m, ?_⟩
  intro info' hinfo'
  have : EventInfo.hSync info = .hSync info' := hinfo.symm.trans hinfo'
  cases this
  exact hrep

lemma setType_recordType {imm : Bool} {record : HardSyncRecord}
    (hp : r.payload = .hsetFlag imm record) : setType r.recordType = true := by
  unfold KernelRecord.recordType
  rw [hp]
  cases imm <;> rfl

lemma setType_recordType_wait {imm : Bool} {record : HardSyncRecord}
    (hp : r.payload = .hwaitFlag imm record) : setType r.recordType = false := by
  unfold KernelRecord.recordType
  rw [hp]
  cases imm <;> rfl

/-- The lowering of the event of a hard synchronisation record for which no flag is made. -/
lemma hsetWaitEvent_quiet (ctx : Context) (hm : r.makes = true) (hard : r.hard = true)
    (hs : SortedMap st.hsetSyncMap) (hflag : waitsForFlag st.hsetSyncMap r = false) :
    ∃ e₀ e' info m', (parseFunc ctx r st).1 = [e₀] ∧
      hsetWaitEvent (setRecordType r.recordType e₀) st.hsetSyncMap
        (setRecordType r.recordType e₀) = (e', none, m') ∧
      e'.info = .hSync info ∧ e'.recordType = r.recordType ∧
      (info.isReplaced = true ∨ setType r.recordType = true ∧ info.opType = .hsetFlag ∧
        ∃ s, hsetFind m' (hsetKey info) = some s ∧ s.isTransSet = true) ∧
      (setType r.recordType = true → ∀ key s, hsetFind st.hsetSyncMap key = some s →
        s.isTransSet = true → hsetFind m' key = some s) := by
  obtain ⟨e₀, info, hfunc, hinfo, hrep, imm, record, hcase, hv, hkey⟩ :=
    parseFunc_hard ctx st hard hm
  have hinfo₀ : (setRecordType r.recordType e₀).info = .hSync info := hinfo
  refine ⟨e₀, ?_⟩
  rcases hcase with ⟨hop, hp⟩ | ⟨hop, hp⟩
  · have hset := setType_recordType hp
    by_cases htrans : ((hsetFind st.hsetSyncMap (hsetKey info)).getD {}).isTransSet = true
    · cases hfind : hsetFind st.hsetSyncMap (hsetKey info) with
      | none =>
        rw [hfind] at htrans
        cases htrans
      | some s =>
        rw [hfind, Option.getD_some] at htrans
        refine ⟨setRecordType r.recordType e₀, info, st.hsetSyncMap, hfunc, ?_, hinfo₀, rfl,
          .inr ⟨hset, hop, s, hfind, htrans⟩, fun _ _ _ h _ => h⟩
        unfold hsetWaitEvent
        rw [hinfo₀]
        dsimp only
        rw [if_pos ⟨hop, hrep⟩, hfind, Option.getD_some, if_pos htrans, hs.put_self hfind]
    · refine ⟨replaced (setRecordType r.recordType e₀) info, _,
        hsetPut st.hsetSyncMap (hsetKey info)
          (((hsetFind st.hsetSyncMap (hsetKey info)).getD {}).cache info.v),
        hfunc, ?_, rfl, rfl, .inl rfl, ?_⟩
      · unfold hsetWaitEvent
        rw [hinfo₀]
        dsimp only
        rw [if_pos ⟨hop, hrep⟩, if_neg htrans]
      · intro _ key s hfind hs
        rw [hsetFind_put, if_neg, hfind]
        rintro rfl
        rw [hfind] at htrans
        exact htrans hs
  · have htrans : ¬ ((hsetFind st.hsetSyncMap (hsetKey info)).getD {}).isTransSet = true := by
      unfold waitsForFlag at hflag
      rw [hp] at hflag
      dsimp only at hflag
      rw [hv, Bool.true_and, ← hkey] at hflag
      simp [hflag]
    refine ⟨replaced (setRecordType r.recordType e₀) info, _,
      hsetErase st.hsetSyncMap (hsetKey info), hfunc, ?_, rfl, rfl, .inl rfl, ?_⟩
    · unfold hsetWaitEvent
      rw [hinfo₀]
      dsimp only
      rw [if_neg (by simp [hop]), if_pos ⟨hop, hrep⟩, if_neg htrans]
    · intro hc
      rw [setType_recordType_wait hp] at hc
      cases hc

/-- What a hard synchronisation record leaves if the parser adds nothing. -/
lemma parse_quiet_hard (hm : r.makes = true) (hr : r.isFinish = false) (hard : r.hard = true)
    (hs : SortedMap st.hsetSyncMap) (hflag : waitsForFlag st.hsetSyncMap r = false) :
    (parse ctx r [] st).1.length = (parseFunc ctx r st).1.length ∧
      (∀ e ∈ (parse ctx r [] st).1, Settled r.recordType (parse ctx r [] st).2.hsetSyncMap e) ∧
      ∀ e, Settled r.recordType st.hsetSyncMap e →
        Settled r.recordType (parse ctx r [] st).2.hsetSyncMap e := by
  have htype := hardType_of_hard hard
  obtain ⟨e₀, e', info, m', hfunc, hevent, hinfo, hlabel, hrep, hkeep⟩ :=
    hsetWaitEvent_quiet ctx hm hard hs hflag
  have hsync : isHSync e'.info = true := by
    rw [hinfo]
    rfl
  have hlow : processHsetWaitSync ctx.room
      ((parseFunc ctx r st).1.map (setRecordType r.recordType)) st.hsetSyncMap = ([e'], m') := by
    rw [hfunc]
    exact processHsetWaitSync_singleton hevent (unmatched_of_hSync hsync m')
  have hwaits : waitsOnScalar [e'] = false := by
    simp [waitsOnScalar, isScalarWait, hinfo]
  obtain ⟨st', hparse, rfl⟩ := parse_nil_of_low hm hr hlow hwaits
  rw [hparse]
  refine ⟨by rw [hfunc]; rfl, ?_, fun e he => he.mono htype hkeep⟩
  intro e he
  rw [List.map_singleton, List.mem_singleton] at he
  rw [he]
  exact settled_of_hSync hinfo hlabel htype hrep

/-- A record to which the parser adds nothing leaves the events of its handler, settled, and
unsettles none. -/
lemma parse_quiet (hp : r.payload.Proper) (hm : r.makes = true) (hr : r.isFinish = false)
    (hs : SortedMap st.hsetSyncMap) (hadds : adds ctx st r = false) :
    (parse ctx r [] st).1.length = (parseFunc ctx r st).1.length ∧
      (∀ e ∈ (parse ctx r [] st).1, Settled r.recordType (parse ctx r [] st).2.hsetSyncMap e) ∧
      ∀ e, Settled r.recordType st.hsetSyncMap e →
        Settled r.recordType (parse ctx r [] st).2.hsetSyncMap e := by
  cases hard : r.hard with
  | true =>
    unfold adds at hadds
    rw [Bool.or_eq_false_iff, Bool.or_eq_false_iff] at hadds
    exact parse_quiet_hard hm hr hard hs hadds.1.1
  | false =>
    obtain ⟨hlen, hout, hmap⟩ := parse_quiet_soft hp hm hr hard hadds
    rw [hmap]
    exact ⟨hlen, hout, fun _ h => h⟩

/-! ## The map stays ordered -/

lemma hsetWaitEvent_sorted (last e : SanEvent) (hs : SortedMap m) :
    SortedMap (hsetWaitEvent last m e).2.2 := by
  unfold hsetWaitEvent
  split
  · dsimp only
    split_ifs
    · exact hs.put _ _
    · exact hs.put _ _
    · exact hs.erase _
    · exact hs.erase _
    · exact hs
  · exact hs

lemma hsetWaitLoop_sorted (v : Storage) (last : SanEvent) (events : List SanEvent)
    (hs : SortedMap m) : SortedMap (hsetWaitLoop v last m events).2.2 := by
  induction events generalizing v last m with
  | nil => exact hs
  | cons e events ih => exact ih _ _ (hsetWaitEvent_sorted last e hs)

lemma processHsetWaitSync_sorted (room : ℕ) (events : List SanEvent) (hs : SortedMap m) :
    SortedMap (processHsetWaitSync room events m).2 := by
  have hloop := hsetWaitLoop_sorted { room, size := events.length }
    (events.getLastD blankEvent) events hs
  unfold processHsetWaitSync hsetMatchLoop
  dsimp only
  split
  · exact hloop.put _ _
  · exact hloop

lemma start_sorted (hs : SortedMap st.hsetSyncMap) (r : KernelRecord) :
    SortedMap (st.start r).hsetSyncMap := by
  unfold ParseState.start
  split_ifs
  · exact List.Pairwise.nil
  · exact hs

lemma parse_sorted (ctx : Context) (r : KernelRecord) (E : List SanEvent)
    (hs : SortedMap st.hsetSyncMap) : SortedMap (parse ctx r E st).2.hsetSyncMap := by
  have hstart := start_sorted hs r
  cases hm : r.makes with
  | true =>
    rw [parse_of_makes hm st E rfl rfl]
    dsimp only
    rw [updateSyncInPipe_hsetSyncMap]
    exact processHsetWaitSync_sorted _ _ hstart
  | false =>
    rw [parse_of_not_makes ctx hm, parseFunc_hsetSyncMap]
    exact hstart

/-! ## Labels -/

lemma hsetWaitEvent_label (last : SanEvent) (m : HsetMap) (e : SanEvent) :
    (hsetWaitEvent last m e).1.recordType = e.recordType := by
  unfold hsetWaitEvent
  split
  · dsimp only
    split_ifs <;> rfl
  · rfl

lemma hsetWaitLoop_label (v : Storage) (last : SanEvent) (m : HsetMap)
    {events : List SanEvent} (h : ∀ e ∈ events, e.recordType = t) :
    ∀ e ∈ (hsetWaitLoop v last m events).1, e.recordType = t := by
  induction events generalizing v last m with
  | nil => simp [hsetWaitLoop]
  | cons e events ih =>
    intro x hx
    rw [hsetWaitLoop] at hx
    rcases List.mem_cons.1 hx with rfl | hx
    · have he := h e List.mem_cons_self
      split_ifs
      · exact he
      · rwa [hsetWaitEvent_label]
    · exact ih _ _ _ (fun y hy => h y (List.mem_cons_of_mem _ hy)) x hx

lemma prefix_hsetMatchLoop (events : List SanEvent) (m : HsetMap) :
    events <+: (hsetMatchLoop events m).1 := by
  unfold hsetMatchLoop
  split
  · exact List.prefix_append _ _
  · exact List.prefix_rfl

/-- The lowering keeps the events, with what they are labelled with, and adds others behind. -/
lemma processHsetWaitSync_label (room : ℕ) (m : HsetMap) (events : List SanEvent)
    (h : ∀ e ∈ events, e.recordType = t) :
    ∃ A, A <+: (processHsetWaitSync room events m).1 ∧ A.length = events.length ∧
      ∀ e ∈ A, e.recordType = t :=
  ⟨_, (List.prefix_append _ _).trans (prefix_hsetMatchLoop _ _),
    length_hsetWaitLoop _ (events.getLastD blankEvent) m events, hsetWaitLoop_label _ _ m h⟩

/-- Every record with events writes its type to all events of the list but those that are added
at this record. -/
lemma parse_label (ctx : Context) (hm : r.makes = true) (st : ParseState) (E : List SanEvent) :
    ∃ A, A <+: (parse ctx r E st).1 ∧
      A.length = E.length + (parseFunc ctx r (st.start r)).1.length ∧
      ∀ e ∈ A, e.recordType = r.recordType := by
  obtain ⟨A, ⟨B, hAB⟩, hlen, hlabel⟩ := processHsetWaitSync_label ctx.room (st.start r).hsetSyncMap
    ((E ++ (parseFunc ctx r (st.start r)).1).map (setRecordType r.recordType))
    (t := r.recordType) (by
      intro e he
      obtain ⟨x, -, rfl⟩ := List.mem_map.1 he
      rfl)
  rw [List.length_map, List.length_append] at hlen
  rw [parse_of_makes hm st E rfl rfl]
  generalize updateSyncInPipe _ _ _ _ = up
  dsimp only
  refine ⟨(A.take E.length ++ (A.drop E.length).map (stampRing up.2)).map replacePipeScalar, ?_,
    ?_, ?_⟩
  · apply List.IsPrefix.map
    rw [← hAB, List.append_assoc, List.take_append_of_le_length (by omega),
      List.drop_append_of_le_length (by omega), List.map_append, ← List.append_assoc]
    exact List.prefix_append _ _
  · simp only [List.length_map, List.length_append, List.length_take, List.length_drop]
    omega
  · intro e he
    obtain ⟨x, hx, rfl⟩ := List.mem_map.1 he
    rw [replacePipeScalar_recordType]
    rcases List.mem_append.1 hx with hx | hx
    · exact hlabel x (List.mem_of_mem_take hx)
    · obtain ⟨y, hy, rfl⟩ := List.mem_map.1 hx
      exact hlabel y (List.mem_of_mem_drop hy)

/-! ## Marks -/

lemma hsetWaitEvent_flag_label {last g : SanEvent} (hg : (hsetWaitEvent last m e).2.1 = some g) :
    g.recordType = invalidRecordType := by
  unfold hsetWaitEvent at hg
  split at hg
  · dsimp only at hg
    split_ifs at hg
    cases hg
    rfl
  · cases hg

lemma hsetMatchLoop_getElem? (events : List SanEvent) (m : HsetMap) {i : ℕ}
    (h : i < events.length) : (hsetMatchLoop events m).1[i]? = events[i]? := by
  obtain ⟨B, hB⟩ := prefix_hsetMatchLoop events m
  rw [← hB, List.getElem?_append_left h]

/-- The events behind the earlier ones are those of the lowering, stamped and with their pipes
replaced. -/
lemma parse_getElem? (ctx : Context) (st : ParseState) (E : List SanEvent)
    (hm : r.makes = true) : ∃ st', ∀ i e, E.length ≤ i →
    (processHsetWaitSync ctx.room
      ((E ++ (parseFunc ctx r (st.start r)).1).map (setRecordType r.recordType))
      (st.start r).hsetSyncMap).1[i]? = some e →
    (parse ctx r E st).1[i]? = some (replacePipeScalar (stampRing st' e)) := by
  rw [parse_of_makes hm st E rfl rfl]
  generalize processHsetWaitSync _ _ _ = low
  generalize updateSyncInPipe _ _ _ _ = up
  refine ⟨up.2, fun i e hi he => ?_⟩
  obtain ⟨hlt, -⟩ := List.getElem?_eq_some_iff.1 he
  have hlen : ((low.1 ++ up.1).take E.length).length = E.length := by
    rw [List.length_take, List.length_append]
    omega
  dsimp only
  rw [List.getElem?_map, List.getElem?_append_right (by omega), hlen, List.getElem?_map,
    List.getElem?_drop, Nat.add_sub_cancel' hi, List.getElem?_append_left hlt, he]
  rfl

/-- The list that a record leaves which waits for a flag: behind the earlier events the one of the
record, marked as replaced if the flag did not move the list, and the flag. -/
lemma parse_flag (ctx : Context) (hm : r.makes = true) (hs : SortedMap (st.start r).hsetSyncMap)
    (hE : ∀ e ∈ E, Settled r.recordType (st.start r).hsetSyncMap e)
    (hflag : waitsForFlag (st.start r).hsetSyncMap r = true) :
    ∃ e info g, (parse ctx r E st).1[E.length]? = some e ∧ e.info = .hSync info ∧
      info.isReplaced = !isFull ctx.room (E.length + 1) ∧
      (parse ctx r E st).1[E.length + 1]? = some g ∧ g.recordType = invalidRecordType := by
  obtain ⟨e₀, info, hfunc, hinfo, hrep, hloop⟩ :=
    hsetWaitEvent_flag ctx (st.start r) hm (hard_of_waitsForFlag hflag)
  have hEmap : E.map (setRecordType r.recordType) = E := by
    refine (List.map_congr_left (g := id) fun e he => ?_).trans (List.map_id E)
    unfold setRecordType
    rw [← (hE e he).label]
    rfl
  obtain ⟨hsome, hmark⟩ := hloop ((E ++ [setRecordType r.recordType e₀]).getLastD blankEvent)
    (st.start r).hsetSyncMap
  obtain ⟨g, hg⟩ := Option.isSome_iff_exists.1 (hsome.trans hflag)
  have hlow : ∀ k < 2, (processHsetWaitSync ctx.room
      ((E ++ (parseFunc ctx r (st.start r)).1).map (setRecordType r.recordType))
      (st.start r).hsetSyncMap).1[E.length + k]? =
        [if isFull ctx.room (E.length + 1) = true then setRecordType r.recordType e₀
          else replaced (setRecordType r.recordType e₀) info, g][k]? := by
    intro k hk
    rw [hfunc, List.map_append, hEmap, List.map_singleton]
    unfold processHsetWaitSync
    rw [hsetWaitLoop_inert _ _ fun e he => (hE e he).inert hs, List.length_append,
      List.length_singleton]
    dsimp only [hsetWaitLoop]
    rw [hmark hflag, hg, hsetMatchLoop_getElem? _ _ (by simp; omega), List.append_assoc,
      List.getElem?_append_right (by omega), Nat.add_sub_cancel_left]
    rfl
  obtain ⟨st', hget⟩ := parse_getElem? ctx st E hm
  refine ⟨_, { info with isReplaced := !isFull ctx.room (E.length + 1) }, _,
    hget _ _ le_rfl (hlow 0 (by omega)), ?_, rfl, hget _ _ (by omega) (hlow 1 (by omega)), ?_⟩
  · have hinfo₀ : (if isFull ctx.room (E.length + 1) = true then setRecordType r.recordType e₀
        else replaced (setRecordType r.recordType e₀) info).info =
          .hSync { info with isReplaced := !isFull ctx.room (E.length + 1) } := by
      cases isFull ctx.room (E.length + 1) with
      | true => exact hinfo.trans (by rw [Bool.not_true, ← hrep])
      | false => rfl
    rw [replacePipeScalar_of_hSync]
    · exact hinfo₀
    · exact (congrArg isHSync hinfo₀).trans rfl
  · exact (replacePipeScalar_recordType (stampRing st' g)).trans
      (hsetWaitEvent_flag_label hg :)

lemma parseFunc_length_pos (hm : r.makes = true) (ctx : Context) (st : ParseState) :
    0 < (parseFunc ctx r st).1.length := by
  apply List.length_pos_of_ne_nil
  rw [Ne, parseFunc_nil_iff, hm]
  simp

/-- The labels of the events before they are stamped and their pipes replaced. -/
lemma exists_label_of_low (hm : r.makes = true) (hr : r.isFinish = false)
    {low : List SanEvent × HsetMap}
    (hlow : processHsetWaitSync ctx.room
      ((parseFunc ctx r st).1.map (setRecordType r.recordType)) st.hsetSyncMap = low)
    (h : ∃ e ∈ low.1 ++ (updateSyncInPipe ctx r low.1
      { (parseFunc ctx r st).2 with hsetSyncMap := low.2 }).1, e.recordType = t) :
    ∃ e ∈ (parse ctx r [] st).1, e.recordType = t := by
  have hstart : st.start r = st := start_of_not_finish hr
  rw [← hstart] at hlow h
  obtain ⟨e, he, hlabel⟩ := h
  rw [parse_of_makes hm st [] hlow.symm rfl]
  dsimp only
  rw [List.length_nil, List.take_zero, List.drop_zero, List.nil_append]
  refine ⟨_, List.mem_map_of_mem (List.mem_map_of_mem he), ?_⟩
  rw [replacePipeScalar_recordType]
  exact hlabel

lemma parse_adds_flag (hm : r.makes = true) (hr : r.isFinish = false)
    (hs : SortedMap st.hsetSyncMap) (hflag : waitsForFlag st.hsetSyncMap r = true) :
    ∃ e ∈ (parse ctx r [] st).1, e.recordType = invalidRecordType := by
  have hstart : st.start r = st := start_of_not_finish hr
  rw [← hstart] at hs hflag
  obtain ⟨-, -, g, -, -, -, hg, hlabel⟩ :=
    parse_flag ctx (E := []) hm hs (fun e he => (by cases he)) hflag
  exact ⟨g, List.mem_of_getElem? hg, hlabel⟩

/-- The lowering of a record without hard synchronisation is the search in the map. -/
lemma processHsetWaitSync_soft (hp : r.payload.Proper) (hard : r.hard = false) :
    processHsetWaitSync ctx.room
      ((parseFunc ctx r st).1.map (setRecordType r.recordType)) st.hsetSyncMap =
        hsetMatchLoop ((parseFunc ctx r st).1.map (setRecordType r.recordType))
          st.hsetSyncMap := by
  unfold processHsetWaitSync
  rw [hsetWaitLoop_of_not_hSync]
  · dsimp only
    rw [List.append_nil]
  · intro e he
    obtain ⟨x, hx, rfl⟩ := List.mem_map.1 he
    exact isHSync_parseFunc hp hard x hx

lemma parse_adds_set (hp : r.payload.Proper) (hm : r.makes = true) (hr : r.isFinish = false)
    (hpend : (pendingHset st.hsetSyncMap (parseFunc ctx r st).1).isSome = true) :
    ∃ e ∈ (parse ctx r [] st).1, e.recordType = invalidRecordType := by
  have hard : r.hard = false := by
    by_contra hc
    rw [Bool.not_eq_false] at hc
    obtain ⟨e₀, info, hfunc, hinfo, -⟩ := parseFunc_hard ctx st hc hm
    obtain ⟨kv, hkv⟩ := Option.isSome_iff_exists.1 hpend
    have := List.find?_some hkv
    rw [hfunc, List.any_cons, List.any_nil, Bool.or_false,
      matchesHset_of_hSync (by rw [hinfo]; rfl), Bool.and_false] at this
    cases this
  obtain ⟨kv, hkv⟩ := Option.isSome_iff_exists.1 hpend
  apply exists_label_of_low hm hr (processHsetWaitSync_soft hp hard)
  have hmatch : hsetMatchLoop ((parseFunc ctx r st).1.map (setRecordType r.recordType))
      st.hsetSyncMap = ((parseFunc ctx r st).1.map (setRecordType r.recordType) ++
        [hsetWaitCreateSyncEvent .setFlag kv.1.srcPipe kv.1.dstPipe
          (((parseFunc ctx r st).1.map (setRecordType r.recordType)).getLastD blankEvent)
          kv.1.eventId], hsetPut st.hsetSyncMap kv.1 { kv.2 with isTransSet := true }) := by
    unfold hsetMatchLoop
    rw [pendingHset_map, hkv]
  rw [hmatch]
  exact ⟨_, List.mem_append_left _ (List.mem_append_right _ (List.mem_singleton_self _)), rfl⟩

lemma reachable_ne_nil (graph : PipeType → List PipeType) (p : PipeType) :
    reachable graph p ≠ [] :=
  List.ne_nil_of_mem (mem_reachable_iff.2 Relation.ReflTransGen.refl)

lemma parse_adds_barriers (hp : r.payload.Proper) (hm : r.makes = true) (hr : r.isFinish = false)
    (hpend : pendingHset st.hsetSyncMap (parseFunc ctx r st).1 = none)
    (hwaits : waitsOnScalar (parseFunc ctx r st).1 = true) :
    ∃ e ∈ (parse ctx r [] st).1, e.recordType = invalidRecordType := by
  have hard : r.hard = false := by
    by_contra hc
    rw [Bool.not_eq_false] at hc
    obtain ⟨e₀, info, hfunc, hinfo, -⟩ := parseFunc_hard ctx st hc hm
    simp [hfunc, waitsOnScalar, isScalarWait, hinfo] at hwaits
  apply exists_label_of_low hm hr (processHsetWaitSync_soft hp hard)
  have hmatch : hsetMatchLoop ((parseFunc ctx r st).1.map (setRecordType r.recordType))
      st.hsetSyncMap =
        ((parseFunc ctx r st).1.map (setRecordType r.recordType), st.hsetSyncMap) := by
    unfold hsetMatchLoop
    rw [pendingHset_map, hpend]
  rw [hmatch]
  dsimp only
  rw [← waitsOnScalar_map _ r.recordType] at hwaits
  generalize { (parseFunc ctx r st).2 with hsetSyncMap := st.hsetSyncMap } = st'
  unfold waitsOnScalar at hwaits
  cases hlast : ((parseFunc ctx r st).1.map (setRecordType r.recordType)).getLast? with
  | none =>
    rw [hlast] at hwaits
    cases hwaits
  | some event =>
    rw [hlast, Option.any_some] at hwaits
    unfold isScalarWait at hwaits
    cases hinfo : event.info with
    | sync info =>
      rw [hinfo] at hwaits
      obtain ⟨hop, hdst⟩ := of_decide_eq_true hwaits
      obtain ⟨p, hmem⟩ := List.exists_mem_of_ne_nil _ (reachable_ne_nil
        (st'.waitRing info.srcPipe info.dstPipe (info.eventId % validEventIdSize)).dstSrcGraph
        info.srcPipe)
      refine ⟨newEvent ctx (st'.waitRing info.srcPipe info.dstPipe
        (info.eventId % validEventIdSize)) r (innerPipeSync p), List.mem_append_right _ ?_, rfl⟩
      unfold updateSyncInPipe
      rw [hr, if_neg (by simp), hlast]
      dsimp only
      rw [hinfo]
      dsimp only
      rw [hop]
      dsimp only
      rw [if_pos hdst]
      exact List.mem_map_of_mem hmem
    | _ =>
      rw [hinfo] at hwaits
      cases hwaits

lemma parse_adds (hp : r.payload.Proper) (hm : r.makes = true) (hr : r.isFinish = false)
    (hs : SortedMap st.hsetSyncMap) (hadds : adds ctx st r = true) :
    ∃ e ∈ (parse ctx r [] st).1, e.recordType = invalidRecordType := by
  unfold adds at hadds
  rw [Bool.or_eq_true, Bool.or_eq_true] at hadds
  by_cases hpend : (pendingHset st.hsetSyncMap (parseFunc ctx r st).1).isSome = true
  · exact parse_adds_set hp hm hr hpend
  · rcases hadds with (hflag | hc) | hwaits
    · exact parse_adds_flag hm hr hs hflag
    · exact absurd hc hpend
    · rw [Bool.not_eq_true, Option.isSome_eq_false_iff, Option.isNone_iff_eq_none] at hpend
      exact parse_adds_barriers hp hm hr hpend hwaits

end Settle

end MsSanitizer.RecordParse
