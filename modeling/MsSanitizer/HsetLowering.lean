import MsSanitizer.RecordStream
import Mathlib.Order.Basic

/-!
# The hset lowering and earlier events

`Parse` runs over the whole list of events at each record: it writes the type of the record to
all events, offers all of them to the lowering of `HSET_FLAG` and `HWAIT_FLAG` again and replaces
scalar pipes again. Here it is said when events that are in the list already come through this
unchanged, and which events a record makes.
-/

namespace MsSanitizer.RecordParse

open RecordDefs EventDef

/-! ## The ordered map -/

lemma memTypeIdx_inj {a b : MemType} (h : memTypeIdx a = memTypeIdx b) : a = b := by
  cases a <;> cases b <;> first | rfl | (exact absurd h (by decide))

namespace HsetRecordKey

variable {a b c : HsetRecordKey}

/-- The place of a key in the lexicographic order. -/
def rank (k : HsetRecordKey) : ℕ ×ₗ ℕ ×ₗ ℕ ×ₗ ℕ :=
  toLex (k.srcPipe.idx, toLex (k.dstPipe.idx, toLex (k.eventId, memTypeIdx k.memType)))

lemma rank_injective : Function.Injective rank := by
  intro a b h
  have h1 := congrArg Prod.fst (toLex.injective h)
  have h2 := toLex.injective (congrArg Prod.snd (toLex.injective h))
  have h3 := toLex.injective (congrArg Prod.snd h2)
  obtain ⟨as, ad, ae, am⟩ := a
  obtain ⟨bs, bd, be, bm⟩ := b
  obtain rfl := PipeType.idx_injective h1
  obtain rfl := PipeType.idx_injective (congrArg Prod.fst h2)
  obtain rfl : ae = be := congrArg Prod.fst h3
  obtain rfl := memTypeIdx_inj (congrArg Prod.snd h3)
  rfl

lemma lt_iff : HsetRecordKey.lt a b = true ↔ a.rank < b.rank := by
  have hne {p q : PipeType} (h : p ≠ q) : p.idx ≠ q.idx := fun hc => h (PipeType.idx_injective hc)
  simp only [lt, rank, Prod.Lex.toLex_lt_toLex]
  split_ifs with h1 h2 h3
  · simp [hne h1]
  · rw [not_not] at h1
    simp [h1, hne h2]
  · rw [not_not] at h1 h2
    simp [h1, h2, h3]
  · rw [not_not] at h1 h2 h3
    simp [h1, h2, h3]

end HsetRecordKey

def SortedMap (m : HsetMap) : Prop := m.Pairwise fun x y => x.1.rank < y.1.rank

lemma SortedMap.tail {kv : HsetRecordKey × HsetRecordState} {m : HsetMap}
    (h : SortedMap (kv :: m)) : SortedMap m := (List.pairwise_cons.1 h).2

lemma mem_hsetPut {m : HsetMap} {k : HsetRecordKey} {s : HsetRecordState}
    {x : HsetRecordKey × HsetRecordState} (h : x ∈ hsetPut m k s) : x = (k, s) ∨ x ∈ m := by
  induction m with
  | nil => exact .inl (List.mem_singleton.1 h)
  | cons kv m ih =>
    rw [hsetPut] at h
    split_ifs at h with heq hlt
    · rcases List.mem_cons.1 h with rfl | h
      · exact .inl rfl
      · exact .inr (List.mem_cons_of_mem _ h)
    · exact (List.mem_cons.1 h).imp_right id
    · rcases List.mem_cons.1 h with rfl | h
      · exact .inr List.mem_cons_self
      · exact (ih h).imp_right (List.mem_cons_of_mem _)

lemma SortedMap.put {m : HsetMap} (h : SortedMap m) (k : HsetRecordKey) (s : HsetRecordState) :
    SortedMap (hsetPut m k s) := by
  induction m with
  | nil => exact List.pairwise_singleton _ _
  | cons kv m ih =>
    obtain ⟨hhead, htail⟩ := List.pairwise_cons.1 h
    rw [hsetPut]
    split_ifs with heq hlt
    · refine List.pairwise_cons.2 ⟨fun x hx => ?_, htail⟩
      rw [← heq]
      exact hhead x hx
    · rw [HsetRecordKey.lt_iff] at hlt
      refine List.pairwise_cons.2 ⟨fun x hx => ?_, h⟩
      rcases List.mem_cons.1 hx with rfl | hx
      · exact hlt
      · exact hlt.trans (hhead x hx)
    · rw [HsetRecordKey.lt_iff, not_lt] at hlt
      refine List.pairwise_cons.2 ⟨fun x hx => ?_, ih htail⟩
      rcases mem_hsetPut hx with rfl | hx
      · exact lt_of_le_of_ne hlt fun hc => heq (HsetRecordKey.rank_injective hc)
      · exact hhead x hx

lemma SortedMap.erase {m : HsetMap} (h : SortedMap m) (k : HsetRecordKey) :
    SortedMap (hsetErase m k) := List.Pairwise.filter _ h

lemma hsetFind_cons (kv : HsetRecordKey × HsetRecordState) (m : HsetMap) (k : HsetRecordKey) :
    hsetFind (kv :: m) k = if kv.1 = k then some kv.2 else hsetFind m k := by
  rw [hsetFind, List.find?_cons]
  by_cases hk : kv.1 = k
  · rw [if_pos hk, beq_iff_eq.2 hk]
    rfl
  · rw [if_neg hk, beq_eq_false_iff_ne.2 hk]
    rfl

lemma SortedMap.put_self {m : HsetMap} (h : SortedMap m) {k : HsetRecordKey}
    {s : HsetRecordState} (hs : hsetFind m k = some s) : hsetPut m k s = m := by
  induction m with
  | nil => cases hs
  | cons kv m ih =>
    obtain ⟨hhead, htail⟩ := List.pairwise_cons.1 h
    rw [hsetFind_cons] at hs
    rw [hsetPut]
    by_cases heq : kv.1 = k
    · rw [if_pos heq, Option.some_inj] at hs
      rw [if_pos heq, ← heq, ← hs]
    · rw [if_neg heq] at hs
      rw [if_neg heq, if_neg, ih htail hs]
      -- the entry that is found stands behind `kv`
      obtain ⟨x, hx, -⟩ := Option.map_eq_some_iff.1 hs
      have hlt := hhead x (List.mem_of_find?_eq_some hx)
      have hkey : x.1 = k := by simpa using List.find?_some hx
      rw [HsetRecordKey.lt_iff, not_lt, ← hkey]
      exact hlt.le

lemma hsetFind_put (m : HsetMap) (k k' : HsetRecordKey) (s : HsetRecordState) :
    hsetFind (hsetPut m k s) k' = if k = k' then some s else hsetFind m k' := by
  induction m with
  | nil => rw [hsetPut, hsetFind_cons]
  | cons kv m ih =>
    rw [hsetPut]
    by_cases heq : kv.1 = k
    · rw [if_pos heq, hsetFind_cons, hsetFind_cons, heq]
      split_ifs <;> rfl
    · rw [if_neg heq]
      by_cases hlt : HsetRecordKey.lt k kv.1 = true
      · rw [if_pos hlt, hsetFind_cons]
      · rw [if_neg hlt, hsetFind_cons, hsetFind_cons, ih]
        by_cases hk : kv.1 = k'
        · rw [if_pos hk, if_pos hk, if_neg fun hc => heq (hk.trans hc.symm)]
        · rw [if_neg hk, if_neg hk]

/-! ## Records that make events -/

/-- The handler of the record appends events, whatever the state is. -/
def KernelRecord.makes (r : KernelRecord) : Bool :=
  match r.payload with
  | .getBuf .. | .rlsBuf .. | .dynamicOp (some _) | .kernelFinish | .finish => true
  | .setAtomic _ | .dynamicOp none => false
  | payload => !(payload.bodies r.blockType).isEmpty

/-- The event of a `HSET_FLAG` or a `HWAIT_FLAG`. -/
def isHSync (info : EventInfo) : Bool :=
  match info with
  | .hSync _ => true
  | _ => false

/-- What the handlers of instructions append: no `HSET_FLAG` or `HWAIT_FLAG`. -/
def Payload.Proper : Payload → Prop
  | .instr t bodies => t.code ≠ invalidRecordType ∧ ∀ b ∈ bodies, isHSync b.2 = false
  | .matmul t _ _ => t.code ≠ invalidRecordType
  | .movFp t _ _ => t.code ≠ invalidRecordType
  | .mstxOther bodies => ∀ b ∈ bodies, isHSync b.2 = false
  | _ => True

/-- A `HSET_FLAG` or a `HWAIT_FLAG`. -/
def KernelRecord.hard (r : KernelRecord) : Bool :=
  match r.payload with
  | .hsetFlag _ _ | .hwaitFlag _ _ => true
  | _ => false

/-- The codes of `HSET_FLAG` and `HWAIT_FLAG`. -/
def hardType (t : ℕ) : Bool := decide (t ∈ [20002, 20003, 20027, 20028])

section Makes

variable {ctx : Context} {st : ParseState} {r : KernelRecord}

lemma parseFunc_nil_iff : (parseFunc ctx r st).1 = [] ↔ r.makes = false := by
  unfold KernelRecord.makes parseFunc
  cases r.payload with
  | setAtomic mode => cases mode <;> simp [getAtomicFlag]
  | dynamicOp event => cases event <;> simp
  | kernelFinish => exact iff_of_false (List.cons_ne_nil _ _) (by simp)
  | _ => simp

lemma ne_invalid {n : ℕ} (h : n ≤ 100002) : n ≠ invalidRecordType := by
  unfold invalidRecordType
  omega

lemma FlagForm.code_le (form : FlagForm) {a b c d : ℕ} (ha : a ≤ 100002) (hb : b ≤ 100002)
    (hc : c ≤ 100002) (hd : d ≤ 100002) : form.code a b c d ≤ 100002 := by
  cases form <;> assumption

lemma proper_recordType (h : r.payload.Proper) : r.recordType ≠ invalidRecordType := by
  unfold KernelRecord.recordType
  cases hp : r.payload <;> rw [hp] at h <;> unfold Payload.recordType <;> dsimp only
  case instr => exact h.1
  case matmul => exact h
  case movFp => exact h
  case setFlag form _ | waitFlag form _ | getBuf form _ | rlsBuf form _ | waitFlagDevPipe form _ _ |
      setIntraBlock form _ | waitIntraBlock form _ =>
    apply ne_invalid
    apply FlagForm.code_le <;> omega
  case hsetFlag imm _ | hwaitFlag imm _ | fftsSync imm _ =>
    apply ne_invalid
    split_ifs <;> omega
  all_goals
    apply ne_invalid
    omega

lemma isHSync_barrierAndFlags (pipe : PipeType) :
    ∀ b ∈ barrierAndFlags pipe, isHSync b.2 = false := by
  simp [barrierAndFlags, innerPipeSync, crossPipeSync, isHSync]

lemma isHSync_flatMap (pipes : List PipeType) :
    ∀ b ∈ pipes.flatMap barrierAndFlags, isHSync b.2 = false := by
  intro b hb
  obtain ⟨p, -, hb⟩ := List.mem_flatMap.1 hb
  exact isHSync_barrierAndFlags p b hb

lemma isHSync_accesses (accesses : List MemOpInfo) (pipe : PipeType)
    (enUnitFlag isWriteMode : Bool) :
    ∀ b ∈ accesses.map (fun op => (pipe, EventInfo.mem op)) ++
      (if enUnitFlag then unitFlagSync isWriteMode else []), isHSync b.2 = false := by
  intro b hb
  rcases List.mem_append.1 hb with hb | hb
  · obtain ⟨op, -, rfl⟩ := List.mem_map.1 hb
    rfl
  · split_ifs at hb
    · simp only [unitFlagSync, List.mem_cons, List.not_mem_nil, or_false] at hb
      rcases hb with rfl | rfl <;> rfl
    · cases hb

lemma isHSync_bodies (blockType : BlockType) {payload : Payload} (h : payload.Proper)
    (hset : ∀ imm record, payload ≠ .hsetFlag imm record)
    (hwait : ∀ imm record, payload ≠ .hwaitFlag imm record) :
    ∀ b ∈ payload.bodies blockType, isHSync b.2 = false := by
  cases payload with
  | instr _ bodies => exact h.2
  | mstxOther bodies => exact h
  | matmul _ accesses en => exact isHSync_accesses accesses .m en true
  | movFp _ accesses en => exact isHSync_accesses accesses .fix en false
  | hsetFlag imm record => exact absurd rfl (hset imm record)
  | hwaitFlag imm record => exact absurd rfl (hwait imm record)
  | pipeBarrier pipe =>
    unfold Payload.bodies
    dsimp only
    split_ifs
    · exact isHSync_flatMap _
    · simp [innerPipeSync, isHSync]
  | dsb pipe memDomain =>
    unfold Payload.bodies dsbSync
    dsimp only
    split_ifs
    · exact isHSync_flatMap _
    · exact isHSync_flatMap _
    · simp [isHSync]
  | mstxCross error isWait record =>
    unfold Payload.bodies
    dsimp only
    split_ifs <;> simp [isHSync]
  | _ =>
    simp [Payload.bodies, flagSync, innerPipeSync, softSync, syncAllStub, isHSync]

end Makes

/-! ## Earlier events in the list -/

/-- The first loop of the lowering passes over the event. -/
def Inert (m : HsetMap) (e : SanEvent) : Prop := ∀ last, hsetWaitEvent last m e = (e, none, m)

/-- No pending entry of the map goes with the event. -/
def Unmatched (m : HsetMap) (e : SanEvent) : Prop :=
  ∀ kv ∈ m, kv.2.isTransSet = false → kv.2.cacheMode0 = true → matchesHset kv.1 e = false

section Append

variable {E N : List SanEvent} {m : HsetMap}

lemma hsetWaitLoop_inert (v : Storage) (last : SanEvent) (h : ∀ e ∈ E, Inert m e) :
    hsetWaitLoop v last m (E ++ N) =
      (E ++ (hsetWaitLoop v last m N).1, (hsetWaitLoop v last m N).2) := by
  induction E with
  | nil => rfl
  | cons e E ih =>
    have he := h e List.mem_cons_self last
    have ih := ih fun x hx => h x (List.mem_cons_of_mem _ hx)
    rw [List.cons_append, hsetWaitLoop, he]
    dsimp only
    rw [ite_self, Option.getD_none, Storage.push, ih]
    rfl

/-- The flags and the map do not depend on the storage: each event is read once, before it is
written. -/
lemma hsetWaitLoop_snd (v v' : Storage) (last : SanEvent) (m : HsetMap) (N : List SanEvent) :
    (hsetWaitLoop v last m N).2 = (hsetWaitLoop v' last m N).2 := by
  induction N generalizing v v' last m with
  | nil => rfl
  | cons e N ih =>
    rw [hsetWaitLoop, hsetWaitLoop]
    dsimp only
    rw [ih (v.push _) (v'.push _)]

lemma pendingHset_unmatched (h : ∀ e ∈ E, Unmatched m e) :
    pendingHset m (E ++ N) = pendingHset m N := by
  unfold pendingHset
  apply List.find?_congr
  intro kv hkv
  by_cases hp : (!kv.2.isTransSet && kv.2.cacheMode0) = true
  · have hE : E.any (matchesHset kv.1) = false := by
      rw [List.any_eq_false]
      intro e he
      rw [Bool.and_eq_true, Bool.not_eq_true'] at hp
      simp [h e he kv hkv hp.1 hp.2]
    rw [List.any_append, hE, Bool.false_or]
  · rw [Bool.not_eq_true] at hp
    rw [hp, Bool.false_and, Bool.false_and]

lemma getLastD_append_of_ne_nil (hN : N ≠ []) (d : SanEvent) :
    (E ++ N).getLastD d = N.getLastD d := by
  rw [List.getLastD_eq_getLast?, List.getLastD_eq_getLast?, List.getLast?_append_of_ne_nil _ hN]

lemma hsetMatchLoop_unmatched (hN : N ≠ []) (h : ∀ e ∈ E, Unmatched m e) :
    hsetMatchLoop (E ++ N) m = (E ++ (hsetMatchLoop N m).1, (hsetMatchLoop N m).2) := by
  unfold hsetMatchLoop
  rw [pendingHset_unmatched h, getLastD_append_of_ne_nil hN]
  cases pendingHset m N with
  | none => rfl
  | some kv => simp only [List.append_assoc]

lemma length_hsetWaitLoop (v : Storage) (last : SanEvent) (m : HsetMap) (N : List SanEvent) :
    (hsetWaitLoop v last m N).1.length = N.length := by
  induction N generalizing v last m with
  | nil => rfl
  | cons e N ih =>
    rw [hsetWaitLoop]
    exact congrArg (· + 1) (ih _ _ _)

/-- Events that the loops pass over stay in front of what the lowering makes of the others, if the
longer list moves where the list of the others does. -/
lemma processHsetWaitSync_append {room : ℕ} (hN : N ≠ []) (hE : ∀ e ∈ E, Inert m e)
    (hE' : ∀ e ∈ E, ∀ v, Unmatched (hsetWaitLoop v (N.getLastD blankEvent) m N).2.2 e)
    (hmoves : (hsetWaitLoop { room, size := E.length + N.length } (N.getLastD blankEvent) m N).1 =
      (hsetWaitLoop { room, size := N.length } (N.getLastD blankEvent) m N).1) :
    processHsetWaitSync room (E ++ N) m =
      (E ++ (processHsetWaitSync room N m).1, (processHsetWaitSync room N m).2) := by
  unfold processHsetWaitSync
  dsimp only
  rw [getLastD_append_of_ne_nil hN, hsetWaitLoop_inert _ _ hE, List.append_assoc,
    List.length_append, hmoves,
    hsetWaitLoop_snd { room, size := E.length + N.length } { room, size := N.length }]
  refine hsetMatchLoop_unmatched ?_ fun e he => hE' e he _
  intro hnil
  have hlen := length_hsetWaitLoop { room, size := N.length } (N.getLastD blankEvent) m N
  rw [(List.append_eq_nil_iff.1 hnil).1] at hlen
  exact hN (List.length_eq_zero_iff.1 hlen.symm)

lemma processHsetWaitSync_ne_nil {room : ℕ} (hN : N ≠ []) :
    (processHsetWaitSync room N m).1 ≠ [] := by
  unfold processHsetWaitSync hsetMatchLoop
  dsimp only
  have hlen := length_hsetWaitLoop { room, size := N.length } (N.getLastD blankEvent) m N
  have hpos : 0 < N.length := List.length_pos_of_ne_nil hN
  split
  · simp
  · intro hnil
    rw [(List.append_eq_nil_iff.1 hnil).1] at hlen
    simp at hlen
    omega

lemma updateSyncInPipe_append (ctx : Context) (r : KernelRecord) (st : ParseState) (hN : N ≠ []) :
    updateSyncInPipe ctx r (E ++ N) st = updateSyncInPipe ctx r N st := by
  unfold updateSyncInPipe
  rw [List.getLast?_append_of_ne_nil _ hN]

/-- The state in which the handler of a record runs. -/
def ParseState.start (st : ParseState) (r : KernelRecord) : ParseState :=
  if r.isFinish then st.resetAll else st

lemma parse_of_not_makes (ctx : Context) {r : KernelRecord} (hr : r.makes = false)
    (st : ParseState) (E : List SanEvent) :
    parse ctx r E st = (E, (parseFunc ctx r (st.start r)).2) := by
  have hnil : (parseFunc ctx r (st.start r)).1 = [] := parseFunc_nil_iff.2 hr
  unfold ParseState.start at hnil ⊢
  unfold parse raise
  dsimp only
  rw [if_pos hnil, if_pos hnil]

lemma parse_of_makes {ctx : Context} {r : KernelRecord} (hr : r.makes = true) (st : ParseState)
    (E : List SanEvent) {low : List SanEvent × HsetMap} {up : List SanEvent × ParseState}
    (hlow : low = processHsetWaitSync ctx.room
      ((E ++ (parseFunc ctx r (st.start r)).1).map (setRecordType r.recordType))
      (st.start r).hsetSyncMap)
    (hup : up = updateSyncInPipe ctx r low.1
      { (parseFunc ctx r (st.start r)).2 with hsetSyncMap := low.2 }) :
    parse ctx r E st =
      (((low.1 ++ up.1).take E.length ++
        ((low.1 ++ up.1).drop E.length).map (stampRing up.2)).map replacePipeScalar, up.2) := by
  have hne : (parseFunc ctx r (st.start r)).1 ≠ [] := by
    intro hnil
    rw [parseFunc_nil_iff, hr] at hnil
    cases hnil
  subst hup hlow
  rw [← parseFunc_hsetSyncMap ctx r (st.start r)]
  unfold ParseState.start at hne ⊢
  unfold parse raise
  dsimp only
  rw [if_neg hne, if_neg hne]

/-- **Earlier events stay.** A record is parsed behind events that carry its type, that the
lowering passes over and whose pipes are replaced already as if they were not there, if a flag for
it moves both lists or none. -/
lemma parse_append {ctx : Context} {r : KernelRecord} {st : ParseState}
    {E N : List SanEvent} (hr : r.makes = true)
    (hN : N = (parseFunc ctx r (st.start r)).1.map (setRecordType r.recordType))
    (hlabel : ∀ e ∈ E, e.recordType = r.recordType)
    (hscalar : ∀ e ∈ E, replacePipeScalar e = e)
    (hinert : ∀ e ∈ E, Inert (st.start r).hsetSyncMap e)
    (hun : ∀ e ∈ E, ∀ v,
      Unmatched (hsetWaitLoop v (N.getLastD blankEvent) (st.start r).hsetSyncMap N).2.2 e)
    (hmoves : (hsetWaitLoop { room := ctx.room, size := E.length + N.length }
        (N.getLastD blankEvent) (st.start r).hsetSyncMap N).1 =
      (hsetWaitLoop { room := ctx.room, size := N.length }
        (N.getLastD blankEvent) (st.start r).hsetSyncMap N).1) :
    parse ctx r E st = (E ++ (parse ctx r [] st).1, (parse ctx r [] st).2) := by
  have hne : N ≠ [] := by
    rw [hN, Ne, List.map_eq_nil_iff, parseFunc_nil_iff, hr]
    simp
  have hEmap : E.map (setRecordType r.recordType) = E := by
    refine (List.map_congr_left (g := id) fun e he => ?_).trans (List.map_id E)
    unfold setRecordType
    rw [← hlabel e he]
    rfl
  have hEscalar : E.map replacePipeScalar = E :=
    (List.map_congr_left (g := id) hscalar).trans (List.map_id E)
  have hlow : (E ++ (processHsetWaitSync ctx.room N (st.start r).hsetSyncMap).1,
      (processHsetWaitSync ctx.room N (st.start r).hsetSyncMap).2) =
      processHsetWaitSync ctx.room
        ((E ++ (parseFunc ctx r (st.start r)).1).map (setRecordType r.recordType))
        (st.start r).hsetSyncMap := by
    rw [List.map_append, hEmap, ← hN, processHsetWaitSync_append hne hinert hun hmoves]
  rw [parse_of_makes hr st E hlow (updateSyncInPipe_append ctx r _
    (processHsetWaitSync_ne_nil hne)).symm,
    parse_of_makes hr st [] (congrArg (fun L => processHsetWaitSync ctx.room L _) hN) rfl]
  dsimp only
  rw [List.append_assoc, List.take_left, List.drop_left, List.map_append, hEscalar]
  rfl

end Append

/-! ## Hard synchronisation records and the others -/

section Hard

variable {ctx : Context} {st : ParseState} {r : KernelRecord} {m : HsetMap}

lemma hsetWaitLoop_of_not_hSync (v : Storage) (last : SanEvent) {N : List SanEvent}
    (h : ∀ e ∈ N, isHSync e.info = false) : hsetWaitLoop v last m N = (N, [], m) := by
  refine hsetWaitLoop_of_noH (fun e he info hinfo => ?_) v last m
  have := h e he
  rw [hinfo] at this
  cases this

lemma matchesHset_of_hSync {e : SanEvent} (h : isHSync e.info = true) (key : HsetRecordKey) :
    matchesHset key e = false := by
  unfold matchesHset
  cases hinfo : e.info with
  | mem op =>
    rw [hinfo] at h
    cases h
  | _ => rfl

lemma unmatched_of_hSync {e : SanEvent} (h : isHSync e.info = true) (m : HsetMap) :
    Unmatched m e := fun kv _ _ _ => matchesHset_of_hSync h kv.1

lemma hardType_of_hard (h : r.hard = true) : hardType r.recordType = true := by
  unfold KernelRecord.hard at h
  unfold KernelRecord.recordType
  cases hp : r.payload with
  | hsetFlag imm record => cases imm <;> rfl
  | hwaitFlag imm record => cases imm <;> rfl
  | _ =>
    rw [hp] at h
    cases h

lemma hardType_of_notCtrl {n : ℕ} (h : isCtrlType n = false) : hardType n = false := by
  by_contra hc
  rw [Bool.not_eq_false] at hc
  unfold hardType at hc
  simp only [List.mem_cons, List.not_mem_nil, or_false, decide_eq_true_eq] at hc
  rcases hc with rfl | rfl | rfl | rfl <;> exact absurd h (by decide)

lemma hardType_of_not_hard (h : r.hard = false) : hardType r.recordType = false := by
  unfold KernelRecord.hard at h
  unfold KernelRecord.recordType
  cases hp : r.payload with
  | hsetFlag imm record =>
    rw [hp] at h
    cases h
  | hwaitFlag imm record =>
    rw [hp] at h
    cases h
  | instr type bodies => exact hardType_of_notCtrl type.notCtrl
  | matmul type accesses en => exact hardType_of_notCtrl type.notCtrl
  | movFp type accesses en => exact hardType_of_notCtrl type.notCtrl
  | setFlag form | waitFlag form | getBuf form | rlsBuf form | waitFlagDevPipe form
  | setIntraBlock form | waitIntraBlock form => cases form <;> rfl
  | fftsSync vec _ => cases vec <;> rfl
  | _ => rfl

/-- The handlers of the other records append no `HSET_FLAG` or `HWAIT_FLAG`. -/
lemma isHSync_parseFunc (hp : r.payload.Proper) (h : r.hard = false) :
    ∀ e ∈ (parseFunc ctx r st).1, isHSync e.info = false := by
  unfold KernelRecord.hard at h
  have hbodies : ∀ imm record, r.payload ≠ .hsetFlag imm record ∧
      r.payload ≠ .hwaitFlag imm record := by
    intro imm record
    constructor
    all_goals
      intro hc
      rw [hc] at h
      cases h
  have hmap : ∀ e ∈ (r.payload.bodies r.blockType).map (newEvent ctx st r),
      isHSync e.info = false := by
    intro e he
    obtain ⟨b, hb, rfl⟩ := List.mem_map.1 he
    exact isHSync_bodies r.blockType hp (fun i x => (hbodies i x).1) (fun i x => (hbodies i x).2)
      b hb
  unfold parseFunc
  split
  case h_1 | h_2 =>
    intro e he
    rw [List.mem_singleton.1 he]
    rfl
  case h_3 => split <;> simp
  case h_4 => simp
  case h_5 | h_6 | h_7 =>
    intro e he
    rw [List.mem_singleton.1 he]
    rfl
  case h_8 => exact hmap

/-- A hard synchronisation record that makes events makes one, that is not replaced. -/
lemma parseFunc_hard (ctx : Context) (st : ParseState) (h : r.hard = true) (hm : r.makes = true) :
    ∃ e info, (parseFunc ctx r st).1 = [e] ∧ e.info = .hSync info ∧ info.isReplaced = false ∧
      ∃ imm record, (info.opType = .hsetFlag ∧ r.payload = .hsetFlag imm record ∨
          info.opType = .hwaitFlag ∧ r.payload = .hwaitFlag imm record) ∧
        isValidHardSyncRecord r.blockType record = true ∧
        hsetKey info =
          { srcPipe := record.src, dstPipe := record.dst, eventId := record.eventID,
            memType := record.memory } := by
  unfold KernelRecord.hard at h
  unfold KernelRecord.makes at hm
  cases hp : r.payload with
  | hsetFlag imm record =>
    by_cases hv : isValidHardSyncRecord r.blockType record = true
    · refine ⟨newEvent ctx st r (record.src, .hSync
        { opType := .hsetFlag, srcPipe := record.src, dstPipe := record.dst,
          eventId := record.eventID, memType := record.memory, v := record.v }), _, ?_, rfl, rfl,
        imm, record, .inl ⟨rfl, rfl⟩, hv, rfl⟩
      unfold parseFunc
      rw [hp]
      simp [Payload.bodies, hardSync, hv]
    · simp [hp, Payload.bodies, hardSync, hv] at hm
  | hwaitFlag imm record =>
    by_cases hv : isValidHardSyncRecord r.blockType record = true
    · refine ⟨newEvent ctx st r (record.dst, .hSync
        { opType := .hwaitFlag, srcPipe := record.src, dstPipe := record.dst,
          eventId := record.eventID, memType := record.memory, v := record.v }), _, ?_, rfl, rfl,
        imm, record, .inr ⟨rfl, rfl⟩, hv, rfl⟩
      unfold parseFunc
      rw [hp]
      simp [Payload.bodies, hardSync, hv]
    · simp [hp, Payload.bodies, hardSync, hv] at hm
  | _ =>
    rw [hp] at h
    cases h

end Hard

end MsSanitizer.RecordParse
