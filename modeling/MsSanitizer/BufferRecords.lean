import MsSanitizer.PipelineReplayer
import MsSanitizer.SettledEvents

/-!
Gets and releases of buffers, as the parser numbers them.

`ParseRecordRlsBuf` counts the releases of each buffer of a block, and `ParseRecordGetBuf` writes
the count into the event of a get. In a stream of one block a get therefore carries the number of
the releases of its buffer that were recorded before it (`Numbered.stream`).
-/

namespace MsSanitizer.RecordParse

open RecordDefs EventDef

def rlsOf (e : SanEvent) : Option ℕ :=
  match e.info with
  | .bufSync info => if info.opType = .rlsBuf then some info.bufId else none
  | _ => none

/-- What an event asks for that is a get in block mode. -/
def getOf (e : SanEvent) : Option BufSyncInfo :=
  match e.info with
  | .bufSync info => if info.opType = .getBuf ∧ info.mode = .blockMode then some info else none
  | _ => none

/-- A record of a buffer or of memory accesses, of one block. -/
def KernelRecord.bufOrMem (blockId : ℕ) (blockType : BlockType) (r : KernelRecord) : Prop :=
  r.location.blockId = blockId ∧ r.blockType = blockType ∧
    match r.payload with
    | .getBuf _ _ | .rlsBuf _ _ | .matmul _ _ _ | .movFp _ _ _ => True
    | .instr _ bodies => ∀ body ∈ bodies, ∃ op, body.2 = .mem op
    | .dynamicOp event => ∀ x ∈ event, x.2.1 = blockId
    | _ => False

/-- The kinds of events that such records raise: accesses, flags and operations on buffers. -/
def BufOrMem (e : SanEvent) : Prop :=
  PipelineReplayer.isMemEvent e = true ∨ (∃ info, e.info = .sync info) ∨
    ∃ info, e.info = .bufSync info

def Raised (blockId : ℕ) (blockType : BlockType) (e : SanEvent) : Prop :=
  e.loc.coreId = blockId ∧ e.loc.blockType = blockType ∧ BufOrMem e

def releasesOf (k : ℕ) (l : List SanEvent) : List SanEvent := l.filter fun e => rlsOf e = some k

/-- The releases of a buffer that were recorded before an event. -/
def releasesBefore (k : ℕ) (e : SanEvent) (l : List SanEvent) : List SanEvent :=
  (releasesOf k l).filter fun r => r.serialNo < e.serialNo

variable {ctx : Context} {blockId : ℕ} {blockType : BlockType} {r : KernelRecord} {e : SanEvent}
  {k : ℕ}

lemma rlsOf_eq_some : rlsOf e = some k ↔
    ∃ info, e.info = .bufSync info ∧ info.opType = .rlsBuf ∧ info.bufId = k := by
  cases hinfo : e.info with
  | bufSync info => simp [rlsOf, hinfo]
  | _ => simp [rlsOf, hinfo]

lemma getOf_eq_some {info : BufSyncInfo} : getOf e = some info ↔
    e.info = .bufSync info ∧ info.opType = .getBuf ∧ info.mode = .blockMode := by
  cases hinfo : e.info with
  | bufSync info' =>
    simp only [getOf, hinfo, Option.ite_none_right_eq_some, EventInfo.bufSync.injEq,
      Option.some.injEq]
    constructor
    · rintro ⟨h, rfl⟩
      exact ⟨rfl, h⟩
    · rintro ⟨rfl, h⟩
      exact ⟨h, rfl⟩
  | _ => simp [getOf, hinfo]

lemma mem_releasesBefore {l : List SanEvent} {e' : SanEvent} :
    e' ∈ releasesBefore k e l ↔ e' ∈ l ∧ rlsOf e' = some k ∧ e'.serialNo < e.serialNo := by
  simp only [releasesBefore, releasesOf, List.mem_filter, decide_eq_true_eq, and_assoc]

/-! ## One record -/

lemma raised_stable : LoweringStable (Raised blockId blockType) where
  replaced e h hinfo he := by
    rcases he.2.2 with hm | ⟨info, hi⟩ | ⟨info, hi⟩
    · simp [PipelineReplayer.isMemEvent, hinfo] at hm
    · rw [hinfo] at hi
      cases hi
    · rw [hinfo] at hi
      cases hi
  generated _ _ _ _ _ he := ⟨he.1, he.2.1, Or.inr (Or.inl ⟨_, rfl⟩)⟩

lemma soft_stable : LoweringStable fun e => rlsOf e = none ∧ getOf e = none where
  replaced _ _ _ _ := ⟨rfl, rfl⟩
  generated _ _ _ _ _ _ := ⟨rfl, rfl⟩

lemma isFinish_of_bufOrMem (hr : r.bufOrMem blockId blockType) : r.isFinish = false := by
  obtain ⟨-, -, hp⟩ := hr
  unfold KernelRecord.isFinish
  split
  · rename_i h
    rw [h] at hp
    exact hp.elim
  · rename_i h
    rw [h] at hp
    exact hp.elim
  · rfl

lemma step_getRlsBufMap (hr : r.isFinish = false) (st : ParseState) :
    (step ctx st r).getRlsBufMap = (parseFunc ctx r st).2.getRlsBufMap := by
  obtain ⟨_, _, _, _, h⟩ :=
    updateSyncInPipe_frame ctx r (lowered ctx st r) (loweredState ctx st r)
  rw [(raise_nil ctx hr st).1, h]
  rfl

/-- A record with one event on a buffer raises that event, with a label and a stamp. -/
lemma out_bufSync (hr : r.isFinish = false) {st : ParseState} {info : BufSyncInfo}
    (he : e.info = .bufSync info) (h : (parseFunc ctx r st).1 = [e]) :
    out ctx st r = [stampRing (step ctx st r) (setRecordType r.recordType e)] := by
  have hlow : lowered ctx st r = [setRecordType r.recordType e] := by
    unfold lowered
    have hinfo : (setRecordType r.recordType e).info = .bufSync info := he
    have hwait : hsetWaitEvent (setRecordType r.recordType e) st.hsetSyncMap
        (setRecordType r.recordType e) =
          (setRecordType r.recordType e, none, st.hsetSyncMap) := by
      simp only [hsetWaitEvent, hinfo]
    rw [h, List.map_singleton, processHsetWaitSync_singleton hwait]
    intro kv _
    simp [matchesHset, hinfo]
  have hbar : barriers ctx st r = [] := by
    unfold barriers
    rw [hlow]
    simp [updateSyncInPipe, hr, setRecordType, he]
  rw [(raise_nil ctx hr st).2, hlow, hbar]
  rfl

lemma raised_newEvent (ctx : Context) (hr : r.bufOrMem blockId blockType) (st : ParseState)
    {bodies : List Body}
    (h : ∀ body ∈ bodies, (∃ op, body.2 = .mem op) ∨ ∃ info, body.2 = .sync info) :
    ∀ e ∈ bodies.map (newEvent ctx st r),
      Raised blockId blockType e ∧ rlsOf e = none ∧ getOf e = none := by
  intro e he
  obtain ⟨body, hbody, rfl⟩ := List.mem_map.mp he
  have hloc : (newEvent ctx st r body).loc.coreId = blockId ∧
      (newEvent ctx st r body).loc.blockType = blockType := ⟨hr.1, hr.2.1⟩
  rcases h body hbody with ⟨op, hop⟩ | ⟨info, hi⟩
  · have hinfo : (newEvent ctx st r body).info = .mem op := hop
    refine ⟨⟨hloc.1, hloc.2, Or.inl ?_⟩, ?_, ?_⟩ <;>
      simp only [PipelineReplayer.isMemEvent, rlsOf, getOf, hinfo]
  · have hinfo : (newEvent ctx st r body).info = .sync info := hi
    refine ⟨⟨hloc.1, hloc.2, Or.inr (Or.inl ⟨info, hinfo⟩)⟩, ?_, ?_⟩ <;>
      simp only [rlsOf, getOf, hinfo]

lemma access_or_sync (accesses : List MemOpInfo) (pipe : PipeType)
    (enUnitFlag isWriteMode : Bool) :
    ∀ body ∈ accesses.map (fun op => (pipe, EventInfo.mem op)) ++
      (if enUnitFlag then unitFlagSync isWriteMode else []),
      (∃ op, body.2 = EventInfo.mem op) ∨ ∃ info, body.2 = EventInfo.sync info := by
  intro body hbody
  rcases List.mem_append.mp hbody with h | h
  · obtain ⟨op, -, rfl⟩ := List.mem_map.mp h
    exact Or.inl ⟨op, rfl⟩
  · split_ifs at h
    · simp only [unitFlagSync, crossPipeSync, List.mem_cons, List.not_mem_nil, or_false] at h
      rcases h with rfl | rfl <;> exact Or.inr ⟨_, rfl⟩
    · cases h

/-- What a record does to buffers, with the counts before and after it: it releases one, it gets
one with the count of its releases so far, or it does nothing. -/
inductive Handles (blockId : ℕ) (m : ℕ × ℕ → ℕ) : List SanEvent → (ℕ × ℕ → ℕ) → Prop
  | release {a : SanEvent} {buf : ℕ} (h : rlsOf a = some buf) :
      Handles blockId m [a] (Function.update m (blockId, buf) (m (blockId, buf) + 1))
  | get {a : SanEvent} {info : BufSyncInfo} (h : getOf a = some info)
      (hcount : info.rlsCount = m (blockId, info.bufId)) : Handles blockId m [a] m
  | other {l : List SanEvent} (h : ∀ a ∈ l, rlsOf a = none ∧ getOf a = none) :
      Handles blockId m l m

/-- The events of the handler of a record, and the counts after it. -/
lemma parseFunc_bufOrMem (ctx : Context) (hr : r.bufOrMem blockId blockType) (st : ParseState) :
    (∀ e ∈ (parseFunc ctx r st).1, Raised blockId blockType e) ∧
      Handles blockId st.getRlsBufMap (parseFunc ctx r st).1
        (parseFunc ctx r st).2.getRlsBufMap := by
  have hbodies {bodies : List Body}
      (hfunc : parseFunc ctx r st = (bodies.map (newEvent ctx st r), st))
      (h : ∀ body ∈ bodies, (∃ op, body.2 = .mem op) ∨ ∃ info, body.2 = .sync info) :
      (∀ e ∈ (parseFunc ctx r st).1, Raised blockId blockType e) ∧
        Handles blockId st.getRlsBufMap (parseFunc ctx r st).1
          (parseFunc ctx r st).2.getRlsBufMap := by
    rw [hfunc]
    have hnew := raised_newEvent ctx hr st h
    exact ⟨fun e he => (hnew e he).1, .other fun e he => (hnew e he).2⟩
  obtain ⟨hid, hbt, hp⟩ := id hr
  cases hpay : r.payload with
  | getBuf form record =>
    have hfunc := parseFunc.eq_def ctx r st
    simp only [hpay, hid] at hfunc
    rw [hfunc]
    refine ⟨fun e he => ?_, ?_⟩
    · rw [List.mem_singleton.mp he]
      exact ⟨hid, hbt, Or.inr (Or.inr ⟨_, rfl⟩)⟩
    · by_cases hmode : record.mode = .blockMode
      · simp only [if_pos hmode]
        exact .get (getOf_eq_some.mpr ⟨rfl, rfl, hmode⟩) rfl
      · refine .other fun e he => ?_
        rw [List.mem_singleton.mp he]
        simp [rlsOf, getOf, newEvent, hmode]
  | rlsBuf form record =>
    have hfunc := parseFunc.eq_def ctx r st
    simp only [hpay, hid] at hfunc
    rw [hfunc]
    refine ⟨fun e he => ?_, .release rfl⟩
    rw [List.mem_singleton.mp he]
    exact ⟨hid, hbt, Or.inr (Or.inr ⟨_, rfl⟩)⟩
  | matmul type accesses enUnitFlag =>
    refine hbodies ?_ (access_or_sync accesses .m enUnitFlag true)
    simp only [parseFunc, hpay, Payload.bodies]
  | movFp type accesses enUnitFlag =>
    refine hbodies ?_ (access_or_sync accesses .fix enUnitFlag false)
    simp only [parseFunc, hpay, Payload.bodies]
  | instr type bodies =>
    rw [hpay] at hp
    refine hbodies ?_ fun body hbody => Or.inl (hp body hbody)
    simp only [parseFunc, hpay, Payload.bodies]
  | dynamicOp event =>
    rw [hpay] at hp
    cases event with
    | none =>
      simp only [parseFunc, hpay]
      exact ⟨fun e he => absurd he List.not_mem_nil, .other fun e he => absurd he List.not_mem_nil⟩
    | some event =>
      simp only [parseFunc, hpay]
      refine ⟨fun e he => ?_, .other fun e he => ?_⟩
      · rw [List.mem_singleton.mp he]
        exact ⟨hp event rfl, hbt, Or.inl rfl⟩
      · rw [List.mem_singleton.mp he]
        exact ⟨rfl, rfl⟩
  | _ => simp only [hpay] at hp

/-- The events that a record raises, and the counts after it. -/
lemma out_bufOrMem (ctx : Context) (hr : r.bufOrMem blockId blockType) (st : ParseState) :
    (∀ e ∈ out ctx st r, Raised blockId blockType e) ∧
      Handles blockId st.getRlsBufMap (out ctx st r) (step ctx st r).getRlsBufMap := by
  have hfinish := isFinish_of_bufOrMem hr
  obtain ⟨hraised, hhandles⟩ := parseFunc_bufOrMem ctx hr st
  refine ⟨forall_out ctx raised_stable hfinish (fun _ _ h => h) (fun _ _ h => h)
    (fun _ _ => ⟨hr.1, hr.2.1, Or.inr (Or.inl ⟨_, rfl⟩)⟩) hraised, ?_⟩
  rw [step_getRlsBufMap hfinish]
  generalize hm : (parseFunc ctx r st).2.getRlsBufMap = m' at hhandles ⊢
  generalize hl : (parseFunc ctx r st).1 = l at hhandles
  cases hhandles with
  | release h =>
    obtain ⟨info, hi, -, -⟩ := rlsOf_eq_some.mp h
    rw [out_bufSync hfinish hi hl]
    exact .release h
  | get h hcount =>
    obtain ⟨hi, -, -⟩ := getOf_eq_some.mp h
    rw [out_bufSync hfinish hi hl]
    exact .get h hcount
  | other h =>
    exact .other (forall_out ctx soft_stable hfinish (fun _ _ h => h) (fun _ _ h => h)
      (fun _ _ => ⟨rfl, rfl⟩) (hl ▸ h))

/-! ## A stream -/

/-- The counts of the parser and of the gets, for the events `l` of a stream so far. -/
structure Numbered (blockId : ℕ) (st : ParseState) (l : List SanEvent) : Prop where
  count : ∀ k, st.getRlsBufMap (blockId, k) = (releasesOf k l).length
  gets : ∀ e ∈ l, ∀ info, getOf e = some info →
    info.rlsCount = (releasesBefore info.bufId e l).length
  sorted : ∀ k, (releasesOf k l).Pairwise fun e e' => e.serialNo < e'.serialNo

variable {st : ParseState} {l l' : List SanEvent}

lemma releasesOf_append : releasesOf k (l ++ l') = releasesOf k l ++ releasesOf k l' :=
  List.filter_append ..

lemma releasesOf_eq_nil (h : ∀ e ∈ l, rlsOf e = none) : releasesOf k l = [] := by
  refine List.filter_eq_nil_iff.mpr fun e he => ?_
  simp [h e he]

lemma mem_releasesOf : e ∈ releasesOf k l ↔ e ∈ l ∧ rlsOf e = some k := by
  simp [releasesOf]

/-- Releases that were recorded with an event or after it do not count for it. -/
lemma releasesBefore_append (h : ∀ e' ∈ l', e.serialNo ≤ e'.serialNo) :
    releasesBefore k e (l ++ l') = releasesBefore k e l := by
  have hnil : (releasesOf k l').filter (fun r => r.serialNo < e.serialNo) = [] := by
    refine List.filter_eq_nil_iff.mpr fun e' he' => ?_
    simpa using h e' (mem_releasesOf.mp he').1
  rw [releasesBefore, releasesOf_append, List.filter_append, hnil, List.append_nil]
  rfl

lemma releasesBefore_of_lt (h : ∀ e' ∈ l, e'.serialNo < e.serialNo) :
    releasesBefore k e l = releasesOf k l :=
  List.filter_eq_self.mpr fun e' he' => by simpa using h e' (mem_releasesOf.mp he').1

/-- The count of a buffer goes up by one for each release. -/
lemma Handles.count {m m' : ℕ × ℕ → ℕ} (h : Handles blockId m l m') (k : ℕ) :
    m' (blockId, k) = m (blockId, k) + (releasesOf k l).length := by
  cases h with
  | @release a buf ha =>
    by_cases hk : buf = k
    · subst hk
      simp [releasesOf, ha]
    · have hne : (blockId, k) ≠ (blockId, buf) := by simpa using Ne.symm hk
      rw [Function.update_of_ne hne]
      simp [releasesOf, ha, hk]
  | @get a info ha =>
    obtain ⟨hi, hop, -⟩ := getOf_eq_some.mp ha
    simp [releasesOf, rlsOf, hi, hop]
  | other ha => rw [releasesOf_eq_nil fun e he => (ha e he).1]; rfl

lemma Handles.rlsCount {m m' : ℕ × ℕ → ℕ} (h : Handles blockId m l m') (he : e ∈ l)
    {info : BufSyncInfo} (hinfo : getOf e = some info) :
    info.rlsCount = m (blockId, info.bufId) := by
  cases h with
  | release ha =>
    rw [List.mem_singleton.mp he] at hinfo
    obtain ⟨info', hi, hop, -⟩ := rlsOf_eq_some.mp ha
    simp [getOf, hi, hop] at hinfo
  | get ha hcount =>
    rw [List.mem_singleton.mp he, ha] at hinfo
    cases hinfo
    exact hcount
  | other ha =>
    rw [(ha e he).2] at hinfo
    cases hinfo

lemma Handles.length_le {m m' : ℕ × ℕ → ℕ} (h : Handles blockId m l m') (k : ℕ) :
    (releasesOf k l).length ≤ 1 := by
  cases h with
  | release | get => exact (List.length_filter_le _ _).trans (by simp)
  | other ha => simp [releasesOf_eq_nil fun e he => (ha e he).1]

lemma Numbered.concat (ctx : Context) (h : Numbered blockId st l)
    (hr : r.bufOrMem blockId blockType) (hlt : ∀ e ∈ l, e.serialNo < r.serialNo) :
    Numbered blockId (step ctx st r) (l ++ out ctx st r) := by
  have hserial := out_serialNo ctx (isFinish_of_bufOrMem hr) st
  have hhandles := (out_bufOrMem ctx hr st).2
  refine ⟨fun k => ?_, fun e he info hinfo => ?_, fun k => ?_⟩
  · rw [hhandles.count, h.count, releasesOf_append, List.length_append]
  · rcases List.mem_append.mp he with he | he
    · rw [releasesBefore_append fun e' he' => (hserial e' he').symm ▸ (hlt e he).le]
      exact h.gets e he info hinfo
    · rw [releasesBefore_append fun e' he' => ((hserial e he).trans (hserial e' he').symm).le,
        releasesBefore_of_lt fun e' he' => (hserial e he).symm ▸ hlt e' he', ← h.count]
      exact hhandles.rlsCount he hinfo
  · rw [releasesOf_append, List.pairwise_append]
    refine ⟨h.sorted k, ?_, fun e he e' he' => ?_⟩
    · have hshort := hhandles.length_le k
      match releasesOf k (out ctx st r), hshort with
      | [], _ => exact .nil
      | [_], _ => exact List.pairwise_singleton _ _
      | _ :: _ :: _, hl => simp at hl
    · rw [hserial e' (mem_releasesOf.mp he').1]
      exact hlt e (mem_releasesOf.mp he).1

/-- **In a stream of one block the gets are numbered by the releases before them.** -/
lemma Numbered.stream (ctx : Context) (hst : ∀ k, st.getRlsBufMap (blockId, k) = 0)
    {rs : List KernelRecord} (hrs : ∀ r ∈ rs, r.bufOrMem blockId blockType)
    (hserial : (rs.map KernelRecord.serialNo).Pairwise (· < ·)) :
    Numbered blockId (stateAfter ctx st rs) (raised ctx st rs) := by
  induction rs using List.reverseRecOn with
  | nil =>
    exact ⟨hst, fun e he => absurd he List.not_mem_nil, fun _ => .nil⟩
  | append_singleton rs r ih =>
    rw [List.map_append, List.pairwise_append] at hserial
    have hrs' : ∀ r ∈ rs, r.bufOrMem blockId blockType := fun r hr =>
      hrs r (List.mem_append_left _ hr)
    rw [stateAfter_concat, raised_concat]
    refine (ih hrs' hserial.1).concat ctx (hrs r (by simp)) fun e he => ?_
    obtain ⟨i, r', hr', hout⟩ := mem_raised ctx he
    have hmem : r' ∈ rs := List.mem_of_getElem? hr'
    rw [out_serialNo ctx (isFinish_of_bufOrMem (hrs' r' hmem)) _ e hout]
    exact hserial.2.2 _ (List.mem_map_of_mem hmem) _ (by simp)

/-- Every event of the stream is an event of the block. -/
lemma raised_stream (ctx : Context) {rs : List KernelRecord}
    (hrs : ∀ r ∈ rs, r.bufOrMem blockId blockType) :
    ∀ e ∈ raised ctx st rs, Raised blockId blockType e := by
  intro e he
  obtain ⟨i, r, hr, hout⟩ := mem_raised ctx he
  exact (out_bufOrMem ctx (hrs r (List.mem_of_getElem? hr)) _).1 e hout

/-! ## The scalar pipe -/

lemma rlsOf_replacePipeScalar (e : SanEvent) : rlsOf (replacePipeScalar e) = rlsOf e := by
  unfold replacePipeScalar
  split <;> (try split_ifs) <;> simp_all [rlsOf]

lemma getOf_replacePipeScalar (e : SanEvent) : getOf (replacePipeScalar e) = getOf e := by
  unfold replacePipeScalar
  split <;> (try split_ifs) <;> simp_all [getOf]

lemma serialNo_replacePipeScalar (e : SanEvent) :
    (replacePipeScalar e).serialNo = e.serialNo := by
  unfold replacePipeScalar
  split <;> (try split_ifs) <;> rfl

lemma raised_replacePipeScalar (h : Raised blockId blockType e) :
    Raised blockId blockType (replacePipeScalar e) := by
  have hloc : (replacePipeScalar e).loc = e.loc := by
    unfold replacePipeScalar
    split <;> (try split_ifs) <;> rfl
  refine ⟨hloc ▸ h.1, hloc ▸ h.2.1, ?_⟩
  rcases h.2.2 with hm | ⟨info, hi⟩ | ⟨info, hi⟩
  · have heq : replacePipeScalar e = e := by
      unfold PipelineReplayer.isMemEvent at hm
      unfold replacePipeScalar
      split at hm <;> simp_all
    rw [heq]
    exact Or.inl hm
  · refine Or.inr (Or.inl ?_)
    simp only [replacePipeScalar, hi]
    split_ifs <;> exact ⟨_, by first | rfl | exact hi⟩
  · refine Or.inr (Or.inr ?_)
    simp only [replacePipeScalar, hi]
    split_ifs <;> exact ⟨_, by first | rfl | exact hi⟩

lemma releasesOf_map (k : ℕ) (l : List SanEvent) :
    releasesOf k (l.map replacePipeScalar) = (releasesOf k l).map replacePipeScalar := by
  simp only [releasesOf, List.filter_map, Function.comp_def, rlsOf_replacePipeScalar]

lemma releasesBefore_map (k : ℕ) (e : SanEvent) (l : List SanEvent) :
    releasesBefore k (replacePipeScalar e) (l.map replacePipeScalar) =
      (releasesBefore k e l).map replacePipeScalar := by
  simp only [releasesBefore, releasesOf_map, List.filter_map, Function.comp_def,
    serialNo_replacePipeScalar]

end MsSanitizer.RecordParse
