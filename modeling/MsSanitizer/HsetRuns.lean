import MsSanitizer.SettledEvents

/-!
`HSET_FLAG` and `HWAIT_FLAG` over a stream of records.

Each record is parsed into its own list of events. What a record does to the map of keys is one of
four things (`Lowers`): it caches a mode, it ends a key, it turns the first pending key that one
of its accesses matches into a flag, or nothing. The flags of a key alternate, and a wait is made
where a set was made before. A key that is pending gets its flag at the first access on its pipe and
memory only if no key before it in the order of the map is matched by the same record, since the
search returns after the first key that is matched.
-/

namespace MsSanitizer.RecordParse

open RecordDefs EventDef

/-! ## Flags of a record -/

/-- The state of a key, as `map::operator[]` finds or makes it. -/
def hsetState (m : HsetMap) (k : HsetRecordKey) : HsetRecordState := (hsetFind m k).getD {}

def hardKey (record : HardSyncRecord) : HsetRecordKey :=
  { srcPipe := record.src, dstPipe := record.dst, eventId := record.eventID,
    memType := record.memory }

/-- The key and the mode of a `HSET_FLAG` that the parser accepts. -/
def KernelRecord.hsetOf (r : KernelRecord) : Option (HsetRecordKey × ℕ) :=
  match r.payload with
  | .hsetFlag _ record =>
    if isValidHardSyncRecord r.blockType record then some (hardKey record, record.v) else none
  | _ => none

/-- The key of a `HWAIT_FLAG` that the parser accepts. -/
def KernelRecord.hwaitOf (r : KernelRecord) : Option HsetRecordKey :=
  match r.payload with
  | .hwaitFlag _ record =>
    if isValidHardSyncRecord r.blockType record then some (hardKey record) else none
  | _ => none

/-- The key for which the first loop of `ProcessHsetWaitSync` appends a `WAIT_FLAG`. -/
def waitKey (m : HsetMap) (e : SanEvent) : Option HsetRecordKey :=
  match e.info with
  | .hSync h =>
    if h.opType = .hwaitFlag ∧ h.isReplaced = false ∧ (hsetState m (hsetKey h)).isTransSet = true
    then some (hsetKey h) else none
  | _ => none

variable (ctx : Context)

/-- The flags that the lowering makes at a record, each with its key. -/
def recordFlags (st : ParseState) (r : KernelRecord) : List (SyncType × HsetRecordKey) :=
  ((parseFunc ctx r st).1.filterMap (waitKey st.hsetSyncMap)).map (SyncType.waitFlag, ·) ++
    (pendingHset st.hsetSyncMap (parseFunc ctx r st).1).toList.map (SyncType.setFlag, ·.1)

/-- The flags that the lowering makes at the records of a stream. -/
def flags (st : ParseState) : List KernelRecord → List (SyncType × HsetRecordKey)
  | [] => []
  | r :: rs => recordFlags ctx st r ++ flags (step ctx st r) rs

def keyFlags (k : HsetRecordKey) (l : List (SyncType × HsetRecordKey)) : List SyncType :=
  (l.filter fun f => f.2 = k).map Prod.fst

/-- A `SET_FLAG` of the key was made, and no `HWAIT_FLAG` of the key was recorded since. -/
def SetSince (st : ParseState) (rs : List KernelRecord) (k : HsetRecordKey) : Prop :=
  ∃ l r l', rs = l ++ r :: l' ∧ (SyncType.setFlag, k) ∈ recordFlags ctx (stateAfter ctx st l) r ∧
    ∀ r' ∈ l', r'.hwaitOf ≠ some k

def Alternates (l : List SyncType) : Prop :=
  ∀ i t, l[i]? = some t → t = if i % 2 = 0 then .setFlag else .waitFlag

/-- A key is pending: a set in mode 0 is cached that was not turned into a flag. -/
def Pending (m : HsetMap) (k : HsetRecordKey) : Prop :=
  (hsetState m k).isTransSet = false ∧ (hsetState m k).cacheMode0 = true

/-! ## The map -/

variable {ctx} {st : ParseState} {r : KernelRecord} {k k' : HsetRecordKey} {m : HsetMap}
  {s : HsetRecordState} {events : List SanEvent}

lemma hsetState_put (m : HsetMap) (k k' : HsetRecordKey) (s : HsetRecordState) :
    hsetState (hsetPut m k s) k' = if k = k' then s else hsetState m k' := by
  unfold hsetState
  rw [hsetFind_put]
  split_ifs <;> rfl

lemma hsetFind_erase (m : HsetMap) (k k' : HsetRecordKey) :
    hsetFind (hsetErase m k) k' = if k = k' then none else hsetFind m k' := by
  induction m with
  | nil => split_ifs <;> rfl
  | cons kv m ih =>
    by_cases hk : kv.1 = k
    · have herase : hsetErase (kv :: m) k = hsetErase m k := by
        unfold hsetErase
        rw [List.filter_cons_of_neg (by simpa using hk)]
      rw [herase, ih, hsetFind_cons, hk]
      split_ifs <;> rfl
    · have herase : hsetErase (kv :: m) k = kv :: hsetErase m k := by
        unfold hsetErase
        rw [List.filter_cons_of_pos (by simpa using hk)]
      rw [herase, hsetFind_cons, hsetFind_cons, ih]
      by_cases hk' : kv.1 = k'
      · rw [if_pos hk', if_pos hk', if_neg fun hc => hk (hk'.trans hc.symm)]
      · rw [if_neg hk', if_neg hk']

lemma hsetState_erase (m : HsetMap) (k k' : HsetRecordKey) :
    hsetState (hsetErase m k) k' = if k = k' then {} else hsetState m k' := by
  unfold hsetState
  rw [hsetFind_erase]
  split_ifs <;> rfl

lemma SortedMap.find_eq (h : SortedMap m) (hmem : (k, s) ∈ m) : hsetFind m k = some s := by
  induction m with
  | nil => cases hmem
  | cons kv m ih =>
    obtain ⟨hhead, htail⟩ := List.pairwise_cons.mp h
    rw [hsetFind_cons]
    rcases List.mem_cons.mp hmem with rfl | hmem
    · rw [if_pos rfl]
    · rw [if_neg fun hc => (hhead _ hmem).ne (congrArg HsetRecordKey.rank hc), ih htail hmem]

lemma mem_of_hsetFind (h : hsetFind m k = some s) : (k, s) ∈ m := by
  obtain ⟨kv, hkv, rfl⟩ := Option.map_eq_some_iff.mp h
  have hkey : kv.1 = k := by simpa using List.find?_some hkv
  rw [← hkey]
  exact List.mem_of_find?_eq_some hkv

lemma Pending.mem (h : Pending m k) : (k, hsetState m k) ∈ m := by
  unfold Pending hsetState at h
  cases hfind : hsetFind m k with
  | none =>
    rw [hfind] at h
    exact absurd h.2 (by decide)
  | some s =>
    have hstate : hsetState m k = s := by rw [hsetState, hfind]; rfl
    rw [hstate]
    exact mem_of_hsetFind hfind

/-! ## One record -/

/-- What a record with these events does to the map, and the flags that are made at it. -/
inductive Lowers (m : HsetMap) (r : KernelRecord) (events : List SanEvent) :
    List (SyncType × HsetRecordKey) → HsetMap → Prop
  | hset {key : HsetRecordKey} {v : ℕ} (h : r.hsetOf = some (key, v)) (hwait : r.hwaitOf = none)
      (hno : ∀ k, events.any (matchesHset k) = false) :
      Lowers m r events [] (hsetPut m key
        (if (hsetState m key).isTransSet then hsetState m key else (hsetState m key).cache v))
  | hwait {key : HsetRecordKey} (h : r.hsetOf = none) (hwait : r.hwaitOf = some key)
      (hno : ∀ k, events.any (matchesHset k) = false) :
      Lowers m r events
        (if (hsetState m key).isTransSet then [(.waitFlag, key)] else []) (hsetErase m key)
  | served {kv : HsetRecordKey × HsetRecordState} (h : r.hsetOf = none) (hwait : r.hwaitOf = none)
      (hpend : pendingHset m events = some kv) :
      Lowers m r events [(.setFlag, kv.1)] (hsetPut m kv.1 { kv.2 with isTransSet := true })
  | other (h : r.hsetOf = none) (hwait : r.hwaitOf = none) (hpend : pendingHset m events = none) :
      Lowers m r events [] m

lemma step_hsetSyncMap (ctx : Context) (hr : r.isFinish = false) (st : ParseState) :
    (step ctx st r).hsetSyncMap =
      (processHsetWaitSync ctx.room ((parseFunc ctx r st).1.map (setRecordType r.recordType))
        st.hsetSyncMap).2 := by
  rw [(raise_nil ctx hr st).1, updateSyncInPipe_hsetSyncMap]
  rfl

lemma pendingHset_of_no_match (h : ∀ k, events.any (matchesHset k) = false) :
    pendingHset m events = none := by
  unfold pendingHset
  rw [List.find?_eq_none]
  intro kv _
  simp [h kv.1]

/-- The lowering of a list that holds a `HSET_FLAG` or a `HWAIT_FLAG` only: the flag behind the
event, which is marked or not. -/
lemma processHsetWaitSync_hSync {e : SanEvent} {h : HSyncOpInfo} (hinfo : e.info = .hSync h)
    (room : ℕ) (m : HsetMap) : ∃ x, processHsetWaitSync room [e] m =
      (x :: (hsetWaitEvent e m e).2.1.toList, (hsetWaitEvent e m e).2.2) := by
  have hloop : ∃ x, hsetWaitLoop ⟨room, 1, false⟩ e m [e] =
      ([x], (hsetWaitEvent e m e).2.1.toList, (hsetWaitEvent e m e).2.2) ∧
        (x = e ∨ x = (hsetWaitEvent e m e).1) := by
    rw [hsetWaitLoop]
    dsimp only [hsetWaitLoop]
    rw [List.append_nil]
    exact ⟨_, rfl, ite_eq_or_eq _ _ _⟩
  obtain ⟨x, hloop, hx⟩ := hloop
  have hmatch : ∀ k, ([x] ++ (hsetWaitEvent e m e).2.1.toList).any (matchesHset k) = false := by
    intro k
    rcases hx with rfl | rfl
    all_goals
      simp only [hsetWaitEvent, hinfo]
      split_ifs <;> simp [matchesHset, hinfo, replaced, hsetWaitCreateSyncEvent]
  unfold processHsetWaitSync
  rw [List.getLastD_cons, List.getLastD_nil, List.length_singleton, hloop]
  unfold hsetMatchLoop
  dsimp only
  rw [pendingHset_of_no_match hmatch]
  exact ⟨x, rfl⟩

lemma hsetWaitEvent_hset {e : SanEvent} {h : HSyncOpInfo} (hinfo : e.info = .hSync h)
    (hop : h.opType = .hsetFlag) (hrep : h.isReplaced = false) (m : HsetMap) :
    waitKey m e = none ∧ (hsetWaitEvent e m e).2.2 = hsetPut m (hsetKey h)
      (if (hsetState m (hsetKey h)).isTransSet then hsetState m (hsetKey h)
        else (hsetState m (hsetKey h)).cache h.v) := by
  simp only [waitKey, hsetWaitEvent, hsetState, hinfo, hop, hrep, reduceCtorEq, false_and, if_false,
    and_self, if_true]
  by_cases hset : ((hsetFind m (hsetKey h)).getD {}).isTransSet = true
  · simp [hset]
  · simp [hset]

lemma hsetWaitEvent_hwait {e : SanEvent} {h : HSyncOpInfo} (hinfo : e.info = .hSync h)
    (hop : h.opType = .hwaitFlag) (hrep : h.isReplaced = false) (m : HsetMap) :
    (waitKey m e).toList.map (SyncType.waitFlag, ·) =
        (if (hsetState m (hsetKey h)).isTransSet then [(.waitFlag, hsetKey h)] else []) ∧
      (hsetWaitEvent e m e).2.2 = hsetErase m (hsetKey h) := by
  simp only [waitKey, hsetWaitEvent, hinfo, hop, hrep, reduceCtorEq, if_false, true_and, if_true,
    and_true]
  split_ifs <;> rfl

/-- A record whose only event is a `HSET_FLAG` or a `HWAIT_FLAG`. -/
lemma lowers_hSync {ctx : Context} {e : SanEvent} {h : HSyncOpInfo}
    (hfunc : (parseFunc ctx r st).1 = [e]) (hinfo : e.info = .hSync h) :
    (∀ k, (parseFunc ctx r st).1.any (matchesHset k) = false) ∧
      recordFlags ctx st r =
        (waitKey st.hsetSyncMap e).toList.map (SyncType.waitFlag, ·) ∧
      (processHsetWaitSync ctx.room ((parseFunc ctx r st).1.map (setRecordType r.recordType))
        st.hsetSyncMap).2 = (hsetWaitEvent e st.hsetSyncMap e).2.2 := by
  have hno : ∀ k, (parseFunc ctx r st).1.any (matchesHset k) = false := by
    intro k
    rw [hfunc]
    simp [matchesHset, hinfo]
  refine ⟨hno, ?_, ?_⟩
  · unfold recordFlags
    rw [pendingHset_of_no_match hno, hfunc, List.filterMap_cons]
    cases waitKey st.hsetSyncMap e <;> rfl
  · have hlabel : (setRecordType r.recordType e).info = .hSync h := hinfo
    obtain ⟨x, hprocess⟩ := processHsetWaitSync_hSync hlabel ctx.room st.hsetSyncMap
    rw [hfunc, List.map_singleton, hprocess]
    simp only [hsetWaitEvent, hlabel, hinfo]
    split_ifs <;> rfl

/-- The lowering of other events is the search in the map. -/
lemma lowering_soft {ctx : Context} (hno : ∀ e ∈ (parseFunc ctx r st).1, isHSync e.info = false) :
    recordFlags ctx st r = (pendingHset st.hsetSyncMap (parseFunc ctx r st).1).toList.map
        (SyncType.setFlag, ·.1) ∧
      processHsetWaitSync ctx.room
          ((parseFunc ctx r st).1.map (setRecordType r.recordType)) st.hsetSyncMap =
        hsetMatchLoop ((parseFunc ctx r st).1.map (setRecordType r.recordType))
          st.hsetSyncMap := by
  have hkeys : (parseFunc ctx r st).1.filterMap (waitKey st.hsetSyncMap) = [] := by
    refine List.filterMap_eq_nil_iff.mpr fun e he => ?_
    have hsoft := hno e he
    cases hinfo : e.info with
    | hSync h => simp [isHSync, hinfo] at hsoft
    | _ => simp [waitKey, hinfo]
  have hlabel : ∀ e ∈ (parseFunc ctx r st).1.map (setRecordType r.recordType),
      isHSync e.info = false := by
    intro e he
    obtain ⟨e', he', rfl⟩ := List.mem_map.mp he
    exact hno e' he'
  refine ⟨by rw [recordFlags, hkeys]; rfl, ?_⟩
  unfold processHsetWaitSync
  rw [hsetWaitLoop_of_not_hSync _ _ hlabel]
  dsimp only
  rw [List.append_nil]

/-- What a record does that has no event of a `HSET_FLAG` or a `HWAIT_FLAG`. -/
lemma lowers_soft (ctx : Context) (st : ParseState) (hset : r.hsetOf = none)
    (hwait : r.hwaitOf = none) (hno : ∀ e ∈ (parseFunc ctx r st).1, isHSync e.info = false) :
    Lowers st.hsetSyncMap r (parseFunc ctx r st).1 (recordFlags ctx st r)
      (processHsetWaitSync ctx.room ((parseFunc ctx r st).1.map (setRecordType r.recordType))
        st.hsetSyncMap).2 := by
  obtain ⟨hflags, hprocess⟩ := lowering_soft hno
  rw [hflags, hprocess, hsetMatchLoop, pendingHset_map]
  cases hpend : pendingHset st.hsetSyncMap (parseFunc ctx r st).1 with
  | none => exact .other hset hwait hpend
  | some kv => exact .served hset hwait hpend

/-- The events of a record: none of a `HSET_FLAG` or a `HWAIT_FLAG`, or just one. -/
lemma parseFunc_cases (ctx : Context) (hp : r.payload.Proper) (st : ParseState) :
    (r.hsetOf = none ∧ r.hwaitOf = none ∧
      ∀ e ∈ (parseFunc ctx r st).1, isHSync e.info = false) ∨
    ∃ e h, (parseFunc ctx r st).1 = [e] ∧ e.info = .hSync h ∧ h.isReplaced = false ∧
      (h.opType = .hsetFlag ∧ r.hsetOf = some (hsetKey h, h.v) ∧ r.hwaitOf = none ∨
        h.opType = .hwaitFlag ∧ r.hsetOf = none ∧ r.hwaitOf = some (hsetKey h)) := by
  have hinvalid (hset : r.hsetOf = none) (hwait : r.hwaitOf = none)
      (hnil : (parseFunc ctx r st).1 = []) : r.hsetOf = none ∧ r.hwaitOf = none ∧
        ∀ e ∈ (parseFunc ctx r st).1, isHSync e.info = false :=
    ⟨hset, hwait, hnil ▸ fun e he => absurd he List.not_mem_nil⟩
  cases hpay : r.payload with
  | hsetFlag imm record =>
    have hwait : r.hwaitOf = none := by simp [KernelRecord.hwaitOf, hpay]
    by_cases hv : isValidHardSyncRecord r.blockType record = true
    · refine Or.inr ⟨newEvent ctx st r (record.src, .hSync
        { opType := .hsetFlag, srcPipe := record.src, dstPipe := record.dst,
          eventId := record.eventID, memType := record.memory, v := record.v }), _, ?_, rfl, rfl,
        Or.inl ⟨rfl, ?_, hwait⟩⟩
      · simp [parseFunc, hpay, Payload.bodies, hardSync, hv]
      · simp [KernelRecord.hsetOf, hpay, hv, hardKey, hsetKey]
    · refine Or.inl (hinvalid (by simp [KernelRecord.hsetOf, hpay, hv]) hwait ?_)
      simp [parseFunc, hpay, Payload.bodies, hardSync, hv]
  | hwaitFlag imm record =>
    have hset : r.hsetOf = none := by simp [KernelRecord.hsetOf, hpay]
    by_cases hv : isValidHardSyncRecord r.blockType record = true
    · refine Or.inr ⟨newEvent ctx st r (record.dst, .hSync
        { opType := .hwaitFlag, srcPipe := record.src, dstPipe := record.dst,
          eventId := record.eventID, memType := record.memory, v := record.v }), _, ?_, rfl, rfl,
        Or.inr ⟨rfl, hset, ?_⟩⟩
      · simp [parseFunc, hpay, Payload.bodies, hardSync, hv]
      · simp [KernelRecord.hwaitOf, hpay, hv, hardKey, hsetKey]
    · refine Or.inl (hinvalid hset (by simp [KernelRecord.hwaitOf, hpay, hv]) ?_)
      simp [parseFunc, hpay, Payload.bodies, hardSync, hv]
  | _ =>
    exact Or.inl ⟨by simp [KernelRecord.hsetOf, hpay], by simp [KernelRecord.hwaitOf, hpay],
      isHSync_parseFunc hp (by simp [KernelRecord.hard, hpay])⟩

/-- **What a record does to the keys.** -/
lemma lowers_record (ctx : Context) (hp : r.payload.Proper) (hr : r.isFinish = false)
    (st : ParseState) :
    Lowers st.hsetSyncMap r (parseFunc ctx r st).1 (recordFlags ctx st r)
      (step ctx st r).hsetSyncMap := by
  rw [step_hsetSyncMap ctx hr]
  rcases parseFunc_cases ctx hp st with ⟨hset, hwait, hno⟩ | ⟨e, h, hfunc, hinfo, hrep, hkind⟩
  · exact lowers_soft ctx st hset hwait hno
  · obtain ⟨hno, hflags, hmap⟩ := lowers_hSync hfunc hinfo
    rcases hkind with ⟨hop, hset, hwait⟩ | ⟨hop, hset, hwait⟩
    · obtain ⟨hkey, hput⟩ := hsetWaitEvent_hset hinfo hop hrep st.hsetSyncMap
      rw [hflags, hmap, hkey, hput]
      exact .hset hset hwait hno
    · obtain ⟨hkey, herase⟩ := hsetWaitEvent_hwait hinfo hop hrep st.hsetSyncMap
      rw [hflags, hmap, hkey, herase]
      exact .hwait hset hwait hno

def flagFor (last : SanEvent) (f : SyncType × HsetRecordKey) : SanEvent :=
  hsetWaitCreateSyncEvent f.1 f.2.srcPipe f.2.dstPipe last f.2.eventId

lemma flagFor_label (t : ℕ) (events : List SanEvent) :
    flagFor ((events.map (setRecordType t)).getLastD blankEvent) =
      flagFor (events.getLastD blankEvent) := by
  rcases List.eq_nil_or_concat' events with rfl | ⟨l, e, rfl⟩
  · rfl
  · simp only [List.map_append, List.map_singleton, List.getLastD_concat]
    rfl

/-- The lowering appends the events of the flags and no others. -/
lemma lowered_drop (ctx : Context) (hp : r.payload.Proper) (st : ParseState) :
    (lowered ctx st r).drop (parseFunc ctx r st).1.length =
      (recordFlags ctx st r).map (flagFor ((parseFunc ctx r st).1.getLastD blankEvent)) := by
  unfold lowered
  rcases parseFunc_cases ctx hp st with ⟨-, -, hno⟩ | ⟨e, h, hfunc, hinfo, hrep, hkind⟩
  · obtain ⟨hflags, hprocess⟩ := lowering_soft hno
    rw [hflags, hprocess, hsetMatchLoop, pendingHset_map, ← flagFor_label r.recordType]
    cases pendingHset st.hsetSyncMap (parseFunc ctx r st).1 with
    | none => simp
    | some kv => exact List.drop_left' (by rw [List.length_map])
  · obtain ⟨-, hflags, -⟩ := lowers_hSync hfunc hinfo
    have hlabel : (setRecordType r.recordType e).info = .hSync h := hinfo
    obtain ⟨x, hprocess⟩ := processHsetWaitSync_hSync hlabel ctx.room st.hsetSyncMap
    rw [hflags, hfunc, List.map_singleton, hprocess, List.length_singleton, List.drop_one,
      List.tail_cons]
    rcases hkind with ⟨hop, -⟩ | ⟨hop, -⟩
    · simp only [hsetWaitEvent, waitKey, hlabel, hinfo, hop, hrep, reduceCtorEq, false_and,
        if_false, and_self, if_true]
      split_ifs <;> rfl
    · simp only [hsetWaitEvent, waitKey, hsetState, hlabel, hinfo, hop, hrep, reduceCtorEq,
        if_false, true_and, if_true, and_true]
      split_ifs <;> rfl

/-! ## One key -/

lemma cache_isTransSet (s : HsetRecordState) (v : ℕ) : (s.cache v).isTransSet = s.isTransSet := by
  unfold HsetRecordState.cache
  split_ifs <;> rfl

lemma cache_cacheMode0 (s : HsetRecordState) (v : ℕ) (h : s.cacheMode0 = true) :
    (s.cache v).cacheMode0 = true := by
  unfold HsetRecordState.cache
  split_ifs <;> first | rfl | exact h

/-- The key that the search in the map finds is pending, and it is the first one that is matched. -/
lemma pendingHset_eq_some (hs : SortedMap m) {kv : HsetRecordKey × HsetRecordState}
    (h : pendingHset m events = some kv) :
    hsetState m kv.1 = kv.2 ∧ Pending m kv.1 ∧ events.any (matchesHset kv.1) = true ∧
      ∀ k, Pending m k → events.any (matchesHset k) = true → HsetRecordKey.lt k kv.1 = false := by
  obtain ⟨hkv, before, after, hsplit, hbefore⟩ := List.find?_eq_some_iff_append.mp h
  simp only [Bool.and_eq_true, Bool.not_eq_true'] at hkv
  obtain ⟨⟨htrans, hmode⟩, hmatch⟩ := hkv
  have hmem : (kv.1, kv.2) ∈ m := by simp [hsplit]
  have hstate : hsetState m kv.1 = kv.2 := by rw [hsetState, hs.find_eq hmem]; rfl
  refine ⟨hstate, ⟨hstate.symm ▸ htrans, hstate.symm ▸ hmode⟩, hmatch, fun k hp hk => ?_⟩
  rw [← Bool.not_eq_true, HsetRecordKey.lt_iff]
  intro hlt
  -- an entry with a smaller key stands in front, where no entry is found
  have hentry := hp.mem
  obtain ⟨hset, hcached⟩ := hp
  generalize hsetState m k = s at hset hcached hentry
  rw [hsplit] at hentry hs
  obtain ⟨-, htail, hcross⟩ := List.pairwise_append.mp hs
  rcases List.mem_append.mp hentry with hin | hin
  · have hno := hbefore _ hin
    simp [hset, hcached, hk] at hno
  · rcases List.mem_cons.mp hin with heq | hin
    · rw [← heq] at hlt
      exact lt_irrefl _ hlt
    · exact lt_asymm hlt ((List.pairwise_cons.mp htail).1 _ hin)

lemma pendingHset_ne_none (hp : Pending m k) (hmatch : events.any (matchesHset k) = true) :
    pendingHset m events ≠ none := by
  unfold pendingHset
  rw [ne_eq, List.find?_eq_none, not_forall]
  refine ⟨(k, hsetState m k), fun hc => hc hp.mem ?_⟩
  simp [hp.1, hp.2, hmatch]

/-- What a record does to one key. -/
inductive Acts (m : HsetMap) (r : KernelRecord) (events : List SanEvent) (k : HsetRecordKey) :
    List SyncType → HsetRecordState → Prop
  | hset {v : ℕ} (h : r.hsetOf = some (k, v)) (hwait : r.hwaitOf ≠ some k)
      (hno : events.any (matchesHset k) = false) :
      Acts m r events k []
        (if (hsetState m k).isTransSet then hsetState m k else (hsetState m k).cache v)
  | hwait (hwait : r.hwaitOf = some k) (hno : events.any (matchesHset k) = false) :
      Acts m r events k (if (hsetState m k).isTransSet then [.waitFlag] else []) {}
  | served (hwait : r.hwaitOf ≠ some k) (hp : Pending m k)
      (hmatch : events.any (matchesHset k) = true)
      (hfirst : ∀ k', Pending m k' → events.any (matchesHset k') = true →
        HsetRecordKey.lt k' k = false) :
      Acts m r events k [.setFlag] { hsetState m k with isTransSet := true }
  | other (h : ∀ v, r.hsetOf ≠ some (k, v)) (hwait : r.hwaitOf ≠ some k)
      (hfirst : Pending m k → events.any (matchesHset k) = true →
        ∃ k', Pending m k' ∧ events.any (matchesHset k') = true ∧ HsetRecordKey.lt k' k = true) :
      Acts m r events k [] (hsetState m k)

lemma Lowers.acts {l : List (SyncType × HsetRecordKey)} {m' : HsetMap}
    (h : Lowers m r events l m') (hs : SortedMap m) (k : HsetRecordKey) :
    Acts m r events k (keyFlags k l) (hsetState m' k) := by
  cases h with
  | @hset key v h hwait hno =>
    rw [hsetState_put]
    by_cases hk : key = k
    · subst hk
      rw [if_pos rfl]
      exact .hset h (by simp [hwait]) (hno key)
    · rw [if_neg hk]
      exact .other (fun v hc => hk (by simpa [h] using congrArg (Option.map Prod.fst) hc))
        (by simp [hwait]) fun _ hmatch => absurd hmatch (by simp [hno k])
  | @hwait key h hwait hno =>
    rw [hsetState_erase]
    by_cases hk : key = k
    · subst hk
      rw [if_pos rfl]
      have hflags : keyFlags key
          (if (hsetState m key).isTransSet = true then [(SyncType.waitFlag, key)] else []) =
            if (hsetState m key).isTransSet = true then [.waitFlag] else [] := by
        split_ifs <;> simp [keyFlags]
      rw [hflags]
      exact .hwait hwait (hno key)
    · rw [if_neg hk]
      have hflags : keyFlags k
          (if (hsetState m key).isTransSet = true then [(SyncType.waitFlag, key)] else []) =
            [] := by
        split_ifs <;> simp [keyFlags, hk]
      rw [hflags]
      exact .other (by simp [h]) (by simpa [hwait] using hk) fun _ hmatch =>
        absurd hmatch (by simp [hno k])
  | @served kv h hwait hpend =>
    obtain ⟨hstate, hp, hmatch, hfirst⟩ := pendingHset_eq_some hs hpend
    rw [hsetState_put]
    by_cases hk : kv.1 = k
    · rw [if_pos hk, ← hstate]
      subst hk
      have hflags : keyFlags kv.1 [(SyncType.setFlag, kv.1)] = [.setFlag] := by simp [keyFlags]
      rw [hflags]
      exact .served (by simp [hwait]) hp hmatch hfirst
    · have hflags : keyFlags k [(SyncType.setFlag, kv.1)] = [] := by simp [keyFlags, hk]
      rw [if_neg hk, hflags]
      refine .other (by simp [h]) (by simp [hwait]) fun hpk hmk => ⟨kv.1, hp, hmatch, ?_⟩
      have hle := hfirst k hpk hmk
      rw [← Bool.not_eq_true, HsetRecordKey.lt_iff, not_lt] at hle
      rw [HsetRecordKey.lt_iff]
      exact lt_of_le_of_ne hle fun hc => hk (HsetRecordKey.rank_injective hc)
  | other h hwait hpend =>
    exact .other (by simp [h]) (by simp [hwait]) fun hp hmatch =>
      absurd hpend (pendingHset_ne_none hp hmatch)

/-! ## Streams -/

lemma flags_concat (ctx : Context) (st : ParseState) (rs : List KernelRecord) (r : KernelRecord) :
    flags ctx st (rs ++ [r]) = flags ctx st rs ++ recordFlags ctx (stateAfter ctx st rs) r := by
  induction rs generalizing st with
  | nil => simp [flags, stateAfter]
  | cons r' rs ih =>
    rw [List.cons_append, flags, ih, flags, List.append_assoc]
    rfl

lemma keyFlags_append (k : HsetRecordKey) (l l' : List (SyncType × HsetRecordKey)) :
    keyFlags k (l ++ l') = keyFlags k l ++ keyFlags k l' := by
  rw [keyFlags, List.filter_append, List.map_append]
  rfl

lemma mem_keyFlags {l : List (SyncType × HsetRecordKey)} {t : SyncType} :
    t ∈ keyFlags k l ↔ (t, k) ∈ l := by
  simp [keyFlags]

lemma alternates_concat {l : List SyncType} {t : SyncType} (h : Alternates l)
    (ht : t = if l.length % 2 = 0 then .setFlag else .waitFlag) : Alternates (l ++ [t]) := by
  intro i t' hi
  rcases lt_trichotomy i l.length with hlt | heq | hgt
  · rw [List.getElem?_append_left hlt] at hi
    exact h i t' hi
  · rw [heq, List.getElem?_concat_length] at hi
    rw [← Option.some_inj.mp hi, heq]
    exact ht
  · rw [List.getElem?_eq_none (by simpa using hgt)] at hi
    cases hi

lemma setSince_concat (ctx : Context) (st : ParseState) (rs : List KernelRecord)
    (r : KernelRecord) (k : HsetRecordKey) : SetSince ctx st (rs ++ [r]) k ↔
      (SyncType.setFlag, k) ∈ recordFlags ctx (stateAfter ctx st rs) r ∨
        SetSince ctx st rs k ∧ r.hwaitOf ≠ some k := by
  constructor
  · rintro ⟨l, r', l', heq, hset, hno⟩
    rcases List.eq_nil_or_concat' l' with rfl | ⟨l', x, rfl⟩
    · obtain ⟨rfl, hr⟩ := List.append_inj' heq rfl
      obtain rfl := List.head_eq_of_cons_eq hr
      exact Or.inl hset
    · rw [← List.cons_append, ← List.append_assoc] at heq
      obtain ⟨rfl, hr⟩ := List.append_inj' heq rfl
      obtain rfl := List.head_eq_of_cons_eq hr
      refine Or.inr ⟨⟨l, r', l', rfl, hset, fun y hy => hno y ?_⟩, hno r (by simp)⟩
      exact List.mem_append_left _ hy
  · rintro (hset | ⟨⟨l, r', l', rfl, hset, hno⟩, hr⟩)
    · exact ⟨rs, r, [], rfl, hset, fun _ hr' => absurd hr' List.not_mem_nil⟩
    · refine ⟨l, r', l' ++ [r], by simp, hset, fun y hy => ?_⟩
      rcases List.mem_append.mp hy with hy | hy
      · exact hno y hy
      · rw [List.mem_singleton.mp hy]
        exact hr

/-- A record keeps the flags of a key in turn, and the state of the key says whether the last one
is a set. -/
lemma Acts.alternates {l fl : List SyncType} {s' : HsetRecordState} (h : Acts m r events k fl s')
    (halt : Alternates l)
    (hparity : (hsetState m k).isTransSet = true ↔ l.length % 2 = 1) :
    Alternates (l ++ fl) ∧ (s'.isTransSet = true ↔ (l ++ fl).length % 2 = 1) := by
  cases h with
  | hset =>
    rw [List.append_nil]
    refine ⟨halt, ?_⟩
    split_ifs
    · exact hparity
    · rw [cache_isTransSet]
      exact hparity
  | hwait =>
    by_cases hset : (hsetState m k).isTransSet = true
    · have hodd := hparity.mp hset
      rw [if_pos hset, List.length_append, List.length_singleton]
      refine ⟨alternates_concat halt (by rw [if_neg (by omega)]), ?_⟩
      exact iff_of_false (by simp) (by omega)
    · have heven : ¬ l.length % 2 = 1 := fun hc => hset (hparity.mpr hc)
      rw [if_neg hset, List.append_nil]
      exact ⟨halt, iff_of_false (by simp) heven⟩
  | served _ hp =>
    have heven : ¬ l.length % 2 = 1 := fun hc => absurd (hparity.mpr hc) (by simp [hp.1])
    rw [List.length_append, List.length_singleton]
    refine ⟨alternates_concat halt (by rw [if_pos (by omega)]), ?_⟩
    exact iff_of_true rfl (by omega)
  | other =>
    rw [List.append_nil]
    exact ⟨halt, hparity⟩

/-- A key is set after a record if the record made its set, or if it was set and no wait came. -/
lemma Acts.isTransSet_iff {fl : List SyncType} {s' : HsetRecordState}
    (h : Acts m r events k fl s') : s'.isTransSet = true ↔
      SyncType.setFlag ∈ fl ∨ (hsetState m k).isTransSet = true ∧ r.hwaitOf ≠ some k := by
  cases h with
  | hset _ hwait _ =>
    split_ifs with hset
    · simp [hset, hwait]
    · simp [cache_isTransSet, hset]
  | hwait hwait _ =>
    split_ifs <;> simp [hwait]
  | served => simp
  | other _ hwait => simp [hwait]

lemma Acts.waitFlag_iff {fl : List SyncType} {s' : HsetRecordState} (h : Acts m r events k fl s')
    (hwait : r.hwaitOf = some k) :
    SyncType.waitFlag ∈ fl ↔ (hsetState m k).isTransSet = true := by
  cases h with
  | hset _ hno => exact absurd hwait hno
  | hwait =>
    split_ifs with hset
    · exact iff_of_true (by simp) hset
    · exact iff_of_false (by simp) hset
  | served hno => exact absurd hwait hno
  | other _ hno => exact absurd hwait hno

/-- What the map knows of a key after a stream. -/
structure Known (ctx : Context) (st : ParseState) (rs : List KernelRecord) (k : HsetRecordKey) :
    Prop where
  sorted : SortedMap (stateAfter ctx st rs).hsetSyncMap
  alternates : Alternates (keyFlags k (flags ctx st rs))
  parity : (hsetState (stateAfter ctx st rs).hsetSyncMap k).isTransSet = true ↔
    (keyFlags k (flags ctx st rs)).length % 2 = 1
  since : (hsetState (stateAfter ctx st rs).hsetSyncMap k).isTransSet = true ↔
    SetSince ctx st rs k

lemma Known.concat {rs : List KernelRecord} (h : Known ctx st rs k) (hp : r.payload.Proper)
    (hr : r.isFinish = false) : Known ctx st (rs ++ [r]) k := by
  have hacts := (lowers_record ctx hp hr (stateAfter ctx st rs)).acts h.sorted k
  obtain ⟨halt, hparity⟩ := hacts.alternates h.alternates h.parity
  have hset := hacts.isTransSet_iff
  rw [← keyFlags_append, ← flags_concat] at halt hparity
  rw [mem_keyFlags, h.since, ← setSince_concat] at hset
  have hsorted := processHsetWaitSync_sorted ctx.room
    ((parseFunc ctx r (stateAfter ctx st rs)).1.map (setRecordType r.recordType)) h.sorted
  rw [← step_hsetSyncMap ctx hr] at hsorted
  rw [← stateAfter_concat] at hsorted hparity hset
  exact ⟨hsorted, halt, hparity, hset⟩

def Running (rs : List KernelRecord) : Prop :=
  ∀ r ∈ rs, r.payload.Proper ∧ r.isFinish = false

/-- **The map knows of each key whether a set was made since the last wait.** -/
lemma known (ctx : Context) (hst : st.hsetSyncMap = []) {rs : List KernelRecord}
    (hrs : Running rs) (k : HsetRecordKey) : Known ctx st rs k := by
  induction rs using List.reverseRecOn with
  | nil =>
    have hstate : (hsetState (stateAfter ctx st []).hsetSyncMap k).isTransSet = false := by
      change (hsetState st.hsetSyncMap k).isTransSet = false
      rw [hst]
      rfl
    refine ⟨?_, fun i t hi => ?_, ?_, ?_⟩
    · change SortedMap st.hsetSyncMap
      rw [hst]
      exact List.Pairwise.nil
    · cases hi
    · rw [hstate]
      exact iff_of_false (by simp) (by simp [flags, keyFlags])
    · rw [hstate]
      refine iff_of_false (by simp) ?_
      rintro ⟨l, r, l', heq, -⟩
      simp at heq
  | append_singleton rs r ih =>
    have hr := hrs r (by simp)
    exact (ih fun r hr => hrs r (List.mem_append_left _ hr)).concat hr.1 hr.2

/-! ## A set in mode 0 -/

/-- A set in mode 0 is kept until a wait comes: it is pending, or it was turned into a flag. -/
lemma Acts.cached {fl : List SyncType} {s' : HsetRecordState} (h : Acts m r events k fl s')
    (hwait : r.hwaitOf ≠ some k)
    (hcached : r.hsetOf = some (k, 0) ∨ (hsetState m k).cacheMode0 = true ∨
      (hsetState m k).isTransSet = true) : s'.cacheMode0 = true ∨ s'.isTransSet = true := by
  cases h with
  | @hset v h =>
    split_ifs with hset
    · exact Or.inr hset
    · rcases hcached with h0 | h0 | h0
      · rw [h] at h0
        cases h0
        exact Or.inl rfl
      · exact Or.inl (cache_cacheMode0 _ _ h0)
      · exact absurd h0 hset
  | hwait h => exact absurd h hwait
  | served => exact Or.inr rfl
  | other h => exact hcached.resolve_left (h 0)

/-- A set of `k` in mode 0 at `r`, and after it, before any wait of the key, a record `a` with an
access on its pipe and memory. -/
structure Awaits (ctx : Context) (st : ParseState) (pre : List KernelRecord) (r : KernelRecord)
    (mid : List KernelRecord) (a : KernelRecord) (k : HsetRecordKey) : Prop where
  hset : r.hsetOf = some (k, 0)
  nowait : ∀ x ∈ mid, x.hwaitOf ≠ some k
  access : (parseFunc ctx a (stateAfter ctx st (pre ++ r :: mid))).1.any (matchesHset k) = true

/-- No pending key that stands before `k` in the map is matched by an access of `a`. -/
def First (ctx : Context) (st : ParseState) (rs : List KernelRecord) (a : KernelRecord)
    (k : HsetRecordKey) : Prop :=
  ∀ k', Pending (stateAfter ctx st rs).hsetSyncMap k' →
    (parseFunc ctx a (stateAfter ctx st rs)).1.any (matchesHset k') = true →
      HsetRecordKey.lt k' k = false

/-- No other key with the pipe and the memory of `k` is pending. -/
def Alone (ctx : Context) (st : ParseState) (rs : List KernelRecord) (k : HsetRecordKey) : Prop :=
  ∀ k', Pending (stateAfter ctx st rs).hsetSyncMap k' → k'.srcPipe = k.srcPipe →
    k'.memType = k.memType → k' = k

/-- After a set in mode 0 its key is cached or set, until a wait comes. -/
lemma cached_after (ctx : Context) (hst : st.hsetSyncMap = []) {pre mid : List KernelRecord}
    (hrs : Running (pre ++ r :: mid)) (hset : r.hsetOf = some (k, 0))
    (hno : ∀ x ∈ mid, x.hwaitOf ≠ some k) :
    (hsetState (stateAfter ctx st (pre ++ r :: mid)).hsetSyncMap k).cacheMode0 = true ∨
      (hsetState (stateAfter ctx st (pre ++ r :: mid)).hsetSyncMap k).isTransSet = true := by
  induction mid using List.reverseRecOn with
  | nil =>
    have hr := hrs r (by simp)
    have hpre : Running pre := fun r hr => hrs r (List.mem_append_left _ hr)
    have hacts := (lowers_record ctx hr.1 hr.2 (stateAfter ctx st pre)).acts
      (known ctx hst hpre k).sorted k
    rw [stateAfter_concat]
    refine hacts.cached (fun hwait => ?_) (Or.inl hset)
    unfold KernelRecord.hsetOf at hset
    unfold KernelRecord.hwaitOf at hwait
    split at hset <;> simp_all
  | append_singleton mid x ih =>
    rw [← List.cons_append, ← List.append_assoc] at hrs ⊢
    have hx := hrs x (by simp)
    have hbefore : Running (pre ++ r :: mid) := fun r hr => hrs r (List.mem_append_left _ hr)
    have hacts := (lowers_record ctx hx.1 hx.2 (stateAfter ctx st (pre ++ r :: mid))).acts
      (known ctx hst hbefore k).sorted k
    rw [stateAfter_concat]
    exact hacts.cached (hno x (by simp))
      (Or.inr (ih hbefore fun y hy => hno y (List.mem_append_left _ hy)))

/-- **A set in mode 0 has its flag after an access if and only if it had it before, or no key in
front of it is matched by the same record.** -/
lemma Awaits.setSince_iff (hst : st.hsetSyncMap = []) {pre mid : List KernelRecord}
    {a : KernelRecord} (h : Awaits ctx st pre r mid a k)
    (hrs : Running (pre ++ r :: mid ++ [a])) :
    SetSince ctx st (pre ++ r :: mid ++ [a]) k ↔
      SetSince ctx st (pre ++ r :: mid) k ∨ First ctx st (pre ++ r :: mid) a k := by
  have ha := hrs a (by simp)
  have hbefore : Running (pre ++ r :: mid) := fun r hr => hrs r (List.mem_append_left _ hr)
  have hknown := known ctx hst hbefore k
  have hcached := cached_after ctx hst hbefore h.hset h.nowait
  have hacts := (lowers_record ctx ha.1 ha.2 (stateAfter ctx st (pre ++ r :: mid))).acts
    hknown.sorted k
  have haccess := h.access
  rw [setSince_concat, ← mem_keyFlags, ← hknown.since]
  generalize keyFlags k (recordFlags ctx (stateAfter ctx st (pre ++ r :: mid)) a) = fl
    at hacts ⊢
  generalize hsetState (step ctx (stateAfter ctx st (pre ++ r :: mid)) a).hsetSyncMap k = s'
    at hacts
  cases hacts with
  | hset _ _ hno | hwait _ hno =>
    rw [hno] at haccess
    cases haccess
  | served _ _ _ hfirst => exact iff_of_true (Or.inl (by simp)) (Or.inr hfirst)
  | other _ hwait hbehind =>
    constructor
    · rintro (hmem | ⟨hset, -⟩)
      · cases hmem
      · exact Or.inl hset
    · rintro (hset | hfirst)
      · exact Or.inr ⟨hset, hwait⟩
      · by_cases hset : (hsetState (stateAfter ctx st (pre ++ r :: mid)).hsetSyncMap k).isTransSet
            = true
        · exact Or.inr ⟨hset, hwait⟩
        · have hp : Pending (stateAfter ctx st (pre ++ r :: mid)).hsetSyncMap k :=
            ⟨Bool.not_eq_true _ ▸ hset, hcached.resolve_right hset⟩
          obtain ⟨k', hp', hmatch, hlt⟩ := hbehind hp haccess
          rw [hfirst k' hp' hmatch] at hlt
          cases hlt

/-! ## The lowering -/

/-- **The lowering of `HSET_FLAG` and `HWAIT_FLAG`.** The lowering appends the events of the flags
to the events of each record. The flags of a key alternate, a set first. A wait of the key makes a
flag if and only if a set of it was made since the wait before. A set in mode 0 that an access on
its pipe and memory follows before the next wait has its flag after this access if and only if it
had it before, or no pending key in front of it is matched by an access of the same record. -/
theorem hset_lowering (ctx : Context) (st : ParseState) (hst : st.hsetSyncMap = [])
    (rs : List KernelRecord) (hrs : Running rs) (k : HsetRecordKey) :
    (∀ pre r post, rs = pre ++ r :: post →
      (lowered ctx (stateAfter ctx st pre) r).drop
          (parseFunc ctx r (stateAfter ctx st pre)).1.length =
        (recordFlags ctx (stateAfter ctx st pre) r).map
          (flagFor ((parseFunc ctx r (stateAfter ctx st pre)).1.getLastD blankEvent))) ∧
    Alternates (keyFlags k (flags ctx st rs)) ∧
    (∀ pre r post, rs = pre ++ r :: post → r.hwaitOf = some k →
      ((SyncType.waitFlag, k) ∈ recordFlags ctx (stateAfter ctx st pre) r ↔
        SetSince ctx st pre k)) ∧
    (∀ pre r mid a post, rs = pre ++ r :: mid ++ a :: post → Awaits ctx st pre r mid a k →
      (SetSince ctx st (pre ++ r :: mid ++ [a]) k ↔
        SetSince ctx st (pre ++ r :: mid) k ∨ First ctx st (pre ++ r :: mid) a k)) := by
  refine ⟨?_, (known ctx hst hrs k).alternates, ?_, ?_⟩
  · rintro pre r post rfl
    exact lowered_drop ctx (hrs r (by simp)).1 _
  · rintro pre r post rfl hwait
    have hr := hrs r (by simp)
    have hknown := known ctx hst (fun x hx => hrs x (List.mem_append_left _ hx)) k
    have hacts := (lowers_record ctx hr.1 hr.2 (stateAfter ctx st pre)).acts hknown.sorted k
    rw [← mem_keyFlags, hacts.waitFlag_iff hwait, hknown.since]
  · rintro pre r mid a post rfl h
    refine h.setSince_iff hst fun x hx => hrs x ?_
    rw [List.mem_append, List.mem_singleton] at hx
    rcases hx with hx | rfl
    · exact List.mem_append_left _ hx
    · simp

/-- The key by which the unit that loads an operand is told that it was read. -/
def operandKey (memType : MemType) : HsetRecordKey :=
  { srcPipe := .m, dstPipe := .mte1, eventId := 0, memType }

def operandSet (memType : MemType) : KernelRecord :=
  { blockType := .aicube
    payload := .hsetFlag false { src := .m, dst := .mte1, memory := memType } }

/-- `MATRIX_MUL_OP`. -/
def multiplication : KernelRecord :=
  { blockType := .aicube
    payload := .matmul ⟨10006, rfl⟩
      [{ memType := .l0a }, { memType := .l0b }, { memType := .l0c, opType := .write }] false }

def operands : List KernelRecord := [operandSet .l0a, operandSet .l0b, multiplication]

lemma running_operands : Running operands := by
  simp [Running, operands, operandSet, multiplication, Payload.Proper, KernelRecord.isFinish,
    invalidRecordType]

lemma pending_operand
    (h : Pending (stateAfter {} {} [operandSet .l0a, operandSet .l0b]).hsetSyncMap k) :
    k = operandKey .l0a ∨ k = operandKey .l0b := by
  have hmap : (stateAfter {} {} [operandSet .l0a, operandSet .l0b]).hsetSyncMap =
      [(operandKey .l0a, { cacheMode0 := true }), (operandKey .l0b, { cacheMode0 := true })] := by
    decide
  have hmem := List.mem_map_of_mem (f := Prod.fst) h.mem
  rw [hmap] at hmem
  simpa using hmem

/-- The first operand has its flag after the multiplication. -/
theorem hset_lowering_operands :
    Alternates (keyFlags (operandKey .l0a) (flags {} {} operands)) ∧
      SetSince {} {} operands (operandKey .l0a) := by
  obtain ⟨-, halt, -, hset⟩ := hset_lowering {} {} rfl operands running_operands (operandKey .l0a)
  refine ⟨halt, (hset [] (operandSet .l0a) [operandSet .l0b] multiplication [] rfl
    ⟨by decide, by decide, by decide⟩).mpr (Or.inr fun k' hp _ => ?_)⟩
  rcases pending_operand hp with rfl | rfl <;> decide

/-- Both operands are pending, on different memories, and the multiplication reads both. The search
returns after the first one, so the second one has no flag. -/
theorem hset_lowering_returns : ∃ pre r mid a k, pre ++ r :: mid ++ [a] = operands ∧
    Awaits {} {} pre r mid a k ∧ Alone {} {} (pre ++ r :: mid) k ∧
      ¬ SetSince {} {} (pre ++ r :: mid ++ [a]) k := by
  refine ⟨[operandSet .l0a], operandSet .l0b, [], multiplication, operandKey .l0b, rfl,
    ⟨by decide, by decide, by decide⟩, fun k' hp _ hmem => ?_, ?_⟩
  · rcases pending_operand hp with rfl | rfl
    · exact absurd hmem (by decide)
    · rfl
  · have hknown : Known {} {} operands (operandKey .l0b) := known {} rfl running_operands _
    exact fun hset => absurd (hknown.since.mpr hset) (by decide)

end MsSanitizer.RecordParse
