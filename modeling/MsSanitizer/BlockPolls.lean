import MsSanitizer.RaceAlgImpl
import MsSanitizer.ReplayDelivery
import MsSanitizer.VectorTimeDense

/-!
# What a poll does

On the events of one block a poll is one of six things: the scalar pipe issues an event, or a pipe
executes a memory event, a time event, a set or a wait, or passes over other synchronisation. It
works on the queue and the clock of its pipe, and on the queue of another pipe or the store of one
flag at most.
-/

namespace MsSanitizer.BlockReplay

open RecordDefs EventDef VectorTime PipeLine EventContainer

variable {kt : KernelType} {dt : DeviceType} {b : ℕ} {p q : PipeType} {s s' : BlockReplay}
  {e : SanEvent} {rest : List SanEvent} {x : Exec}

/-- The clock of a pipe of block `b`. -/
def clock (s : BlockReplay) (b : ℕ) (p : PipeType) : VectorTime := s.alg.vc (queIdx b p)

def tick (b : ℕ) (p : PipeType) (vt : VectorTime) : VectorTime := updateLogicTime vt (queIdx b p)

lemma queIdx_inj : queIdx b p = queIdx b q ↔ p = q := by
  unfold queIdx
  rw [Nat.add_left_cancel_iff]
  exact PipeType.idx_injective.eq_iff

lemma getQueIndex_position (c : EventContainer) (b : ℕ) (p : PipeType) :
    (position c b p).getQueIndex = queIdx b p := by
  simp [position, getQueIndex, flattenPipeIdx, queIdx]

/-- What a poll of `p` with the front event `e` computes: the clock, the events that it adds to the
queues, the store of flags, and what the checker has got. -/
inductive Does (b : ℕ) (s : BlockReplay) (p : PipeType) (e : SanEvent) :
    VectorTime → (PipeType → List SanEvent) → SyncEventDataBase → List (SanEvent × VectorTime) →
      Prop
  | issue (hp : p = .s) (hne : e.pipe ≠ p) {vt} (hvt : vt = tick b p (s.clock b p)) :
      Does b s p e vt
        (fun q => if q = e.pipe then [RaceAlgImpl.timeEventOf e vt, e] else [])
        s.alg.syncDB s.alg.checked
  | mem (hp : e.pipe = p) (hm : PipelineReplayer.isMemEvent e = true) {vt}
      (hvt : vt = tick b p (s.clock b p)) :
      Does b s p e vt (fun _ => []) s.alg.syncDB (s.alg.checked ++ [(e, vt)])
  | time (hp : e.pipe = p) {t} (hi : e.info = .time (some t)) {vt}
      (hvt : vt = tick b p (updateVectorTime t (s.clock b p))) :
      Does b s p e vt (fun _ => []) s.alg.syncDB s.alg.checked
  | set (hp : e.pipe = p) {info} (hi : e.info = .sync info) (hop : info.opType = .setFlag)
      (hsrc : info.srcPipe = p) {vt} (hvt : vt = tick b p (s.clock b p)) :
      Does b s p e vt (fun _ => []) (s.alg.syncDB.set (.ofInfo info) vt) s.alg.checked
  | wait (hp : e.pipe = p) {info} (hi : e.info = .sync info) (hop : info.opType = .waitFlag)
      (hdst : info.dstPipe = p) {t l} (hdb : s.alg.syncDB (.ofInfo info) = t :: l) {vt}
      (hvt : vt = tick b p (updateVectorTime t (s.clock b p))) :
      Does b s p e vt (fun _ => []) (Function.update s.alg.syncDB (.ofInfo info) l) s.alg.checked
  | pass (hp : e.pipe = p) {info} (hi : e.info = .sync info) (hset : info.opType ≠ .setFlag)
      (hwait : info.opType ≠ .waitFlag) {vt} (hvt : vt = s.clock b p) :
      Does b s p e vt (fun _ => []) s.alg.syncDB s.alg.checked

/-- The state after a poll. -/
structure After (b : ℕ) (s : BlockReplay) (x : Exec) (adds : PipeType → List SanEvent)
    (db : SyncEventDataBase) (checked : List (SanEvent × VectorTime)) (s' : BlockReplay) :
    Prop where
  que : ∀ q, s'.que b q = (if q = x.pipe then (s.que b q).tail else s.que b q) ++ adds q
  clock : ∀ q, s'.clock b q = if q = x.pipe then x.clock else s.clock b q
  syncDB : s'.alg.syncDB = db
  checked : s'.alg.checked = checked
  kernelType : s'.alg.kernelType = s.alg.kernelType
  deviceType : s'.alg.deviceType = s.alg.deviceType
  blocks : s'.events.maxBlockNum = s.events.maxBlockNum
  devices : s'.events.deviceNum = s.events.deviceNum

/-- The front event of a queue waits for a flag that is not set. -/
def Stalls (s : BlockReplay) (p : PipeType) (e : SanEvent) : Prop :=
  e.pipe = p ∧ ∃ info, e.info = .sync info ∧ info.opType = .waitFlag ∧ info.dstPipe = p ∧
    s.alg.syncDB (.ofInfo info) = []

/-- The events that can be in the queue of `p`. -/
def Fits (kt : KernelType) (dt : DeviceType) (b : ℕ) (p : PipeType) (e : SanEvent) : Prop :=
  (InBlock kt dt b e ∧ parts e = [e] ∧ (p = .s ∨ e.pipe = p)) ∨
    (p ≠ .s ∧ e.pipe = p ∧ ∃ t, e.info = .time (some t))

/-- The queues of block `b` hold events of the block. -/
structure Fit (b : ℕ) (s : BlockReplay) : Prop where
  fits : ∀ p, ∀ e ∈ s.que b p, Fits s.alg.kernelType s.alg.deviceType b p e
  room : ∀ p, s.que b p ≠ [] → b < s.events.maxBlockNum ∧ 0 < s.events.deviceNum

/-! ## One poll -/

lemma processEvent_own (hp : e.pipe = p) :
    RaceAlgImpl.processEvent (position s.events b p) s.alg e =
      { ret := (s.alg.dispatch (queIdx b p) e).1, state := (s.alg.dispatch (queIdx b p) e).2 } := by
  subst hp
  unfold RaceAlgImpl.processEvent
  rw [getQueIndex_position, if_neg (by simp [position])]

/-- The state after an event was executed on its own pipe. -/
lemma poll_own (hq : s.que b p = e :: rest) (hp : e.pipe = p) {a : RaceAlgImpl}
    (hd : s.alg.dispatch (queIdx b p) e = (.processOk, a))
    (hvc : ∀ q, q ≠ p → a.vc (queIdx b q) = s.clock b q) (hk : a.kernelType = s.alg.kernelType)
    (hdt : a.deviceType = s.alg.deviceType) :
    ∃ s', poll b p s = some (⟨p, e, a.vc (queIdx b p)⟩, s') ∧
      After b s ⟨p, e, a.vc (queIdx b p)⟩ (fun _ => []) a.syncDB a.checked s' := by
  have hr : RaceAlgImpl.processEvent (position s.events b p) s.alg e =
      { ret := .processOk, state := a } := by rw [processEvent_own hp, hd]
  refine ⟨⟨afterOffer (position s.events b p) { ret := .processOk, state := a }, a⟩, ?_, ?_⟩
  · simp only [poll, hq, hr]
  · refine ⟨fun q => ?_, fun q => ?_, rfl, rfl, hk, hdt, rfl, rfl⟩
    · rw [que, afterOffer_ques, getQueIndex_position, List.foldl_nil]
      simp only [true_and, queIdx_inj, List.append_nil]
      rfl
    · by_cases hqp : q = p
      · subst hqp
        rw [if_pos rfl]
        rfl
      · rw [if_neg hqp]
        exact hvc q hqp

lemma update_vc_of_ne {vc : ℕ → VectorTime} {vt : VectorTime} (h : q ≠ p) :
    Function.update vc (queIdx b p) vt (queIdx b q) = vc (queIdx b q) :=
  Function.update_of_ne (fun hc => h (queIdx_inj.mp hc)) _ _

lemma dispatch_mem {a : RaceAlgImpl} {c : ℕ} (hm : PipelineReplayer.isMemEvent e = true) :
    a.dispatch c e = (.processOk, a.processMemEvent c e) := by
  unfold RaceAlgImpl.dispatch
  unfold PipelineReplayer.isMemEvent at hm
  split at hm <;> simp_all

lemma poll_mem (hq : s.que b p = e :: rest) (hp : e.pipe = p)
    (hm : PipelineReplayer.isMemEvent e = true) :
    ∃ s', poll b p s = some (⟨p, e, tick b p (s.clock b p)⟩, s') ∧
      After b s ⟨p, e, tick b p (s.clock b p)⟩ (fun _ => []) s.alg.syncDB
        (s.alg.checked ++ [(e, tick b p (s.clock b p))]) s' := by
  have hvc : (s.alg.processMemEvent (queIdx b p) e).vc (queIdx b p) = tick b p (s.clock b p) :=
    Function.update_self _ _ _
  have h := poll_own hq hp (dispatch_mem hm) (fun q hqp => update_vc_of_ne hqp) rfl rfl
  rw [hvc] at h
  exact h

lemma poll_time (hq : s.que b p = e :: rest) (hp : e.pipe = p) {t : VectorTime}
    (hi : e.info = .time (some t)) :
    ∃ s', poll b p s = some (⟨p, e, tick b p (updateVectorTime t (s.clock b p))⟩, s') ∧
      After b s ⟨p, e, tick b p (updateVectorTime t (s.clock b p))⟩ (fun _ => []) s.alg.syncDB
        s.alg.checked s' := by
  have hd : s.alg.dispatch (queIdx b p) e = (.processOk,
      s.alg.setClock (queIdx b p) (tick b p (updateVectorTime t (s.clock b p)))) := by
    simp only [RaceAlgImpl.dispatch, hi, RaceAlg.timeEvent]
    rfl
  have h := poll_own hq hp hd (fun q hqp => update_vc_of_ne hqp) rfl rfl
  simp only [RaceAlgImpl.setClock, Function.update_self] at h
  exact h

lemma poll_set (hq : s.que b p = e :: rest) (hp : e.pipe = p) {info : SyncOpInfo}
    (hi : e.info = .sync info) (hop : info.opType = .setFlag) :
    ∃ s', poll b p s = some (⟨p, e, tick b p (s.clock b p)⟩, s') ∧
      After b s ⟨p, e, tick b p (s.clock b p)⟩ (fun _ => [])
        (s.alg.syncDB.set (.ofInfo info) (tick b p (s.clock b p))) s.alg.checked s' := by
  have hd : s.alg.dispatch (queIdx b p) e = (.processOk,
      { s.alg.setClock (queIdx b p) (tick b p (s.clock b p)) with
        syncDB := s.alg.syncDB.set (.ofInfo info) (tick b p (s.clock b p)) }) := by
    simp only [RaceAlgImpl.dispatch, hi, RaceAlgImpl.processSyncEvent, RaceAlg.syncFlag, hop,
      if_true]
    rfl
  have h := poll_own hq hp hd (fun q hqp => update_vc_of_ne hqp) rfl rfl
  simp only [RaceAlgImpl.setClock, Function.update_self] at h
  exact h

lemma poll_wait (hq : s.que b p = e :: rest) (hp : e.pipe = p) {info : SyncOpInfo}
    (hi : e.info = .sync info) (hop : info.opType = .waitFlag) {t : VectorTime}
    {l : List VectorTime} (hdb : s.alg.syncDB (.ofInfo info) = t :: l) :
    ∃ s', poll b p s = some (⟨p, e, tick b p (updateVectorTime t (s.clock b p))⟩, s') ∧
      After b s ⟨p, e, tick b p (updateVectorTime t (s.clock b p))⟩ (fun _ => [])
        (Function.update s.alg.syncDB (.ofInfo info) l) s.alg.checked s' := by
  have hd : s.alg.dispatch (queIdx b p) e = (.processOk,
      { s.alg.setClock (queIdx b p) (tick b p (updateVectorTime t (s.clock b p))) with
        syncDB := Function.update s.alg.syncDB (.ofInfo info) l }) := by
    simp only [RaceAlgImpl.dispatch, hi, RaceAlgImpl.processSyncEvent, RaceAlg.syncFlag, hop,
      reduceCtorEq, if_false, if_true, SyncEventDataBase.get, hdb]
    rfl
  have h := poll_own hq hp hd (fun q hqp => update_vc_of_ne hqp) rfl rfl
  simp only [RaceAlgImpl.setClock, Function.update_self] at h
  exact h

lemma poll_pass (hq : s.que b p = e :: rest) (hp : e.pipe = p) {info : SyncOpInfo}
    (hi : e.info = .sync info) (hset : info.opType ≠ .setFlag) (hwait : info.opType ≠ .waitFlag) :
    ∃ s', poll b p s = some (⟨p, e, s.clock b p⟩, s') ∧
      After b s ⟨p, e, s.clock b p⟩ (fun _ => []) s.alg.syncDB s.alg.checked s' := by
  have hd : s.alg.dispatch (queIdx b p) e = (.processOk, s.alg) := by
    simp only [RaceAlgImpl.dispatch, hi, RaceAlgImpl.processSyncEvent, RaceAlg.syncFlag, hset,
      hwait, if_false, RaceAlgImpl.setClock, Function.update_eq_self]
  exact poll_own hq hp hd (fun _ _ => rfl) rfl rfl

/-- The pushes of an issue end up in the queue of the pipe. -/
lemma target_position (hroom : b < s.events.maxBlockNum ∧ 0 < s.events.deviceNum) (e : SanEvent)
    (r : PipeType) :
    (position s.events b p).target { event := e, pipe := r, blockIdx := b } =
      some (queIdx b r) := by
  unfold target
  rw [if_neg (by simp [position, hroom.1, hroom.2.ne'])]
  simp [flattenPipeIdx, queIdx]

def issued (b : ℕ) (e : SanEvent) (vt : VectorTime) : List Push :=
  [{ event := RaceAlgImpl.timeEventOf e vt, pipe := e.pipe, blockIdx := b },
    { event := e, pipe := e.pipe, blockIdx := b }]

lemma issued_ques (hroom : b < s.events.maxBlockNum ∧ 0 < s.events.deviceNum)
    (hparts : parts e = [e]) (vt : VectorTime) (q : PipeType) :
    ((issued b e vt).foldl .push (position s.events b p)).ques (queIdx b q) =
      s.que b q ++ if q = e.pipe then [RaceAlgImpl.timeEventOf e vt, e] else [] := by
  have htime : parts (RaceAlgImpl.timeEventOf e vt) = [RaceAlgImpl.timeEventOf e vt] := rfl
  rw [foldl_push_ques]
  congr 1
  by_cases hqe : q = e.pipe
  · simp [issued, target_position hroom, hqe, htime, hparts]
  · simp [issued, target_position hroom, queIdx_inj, hqe, Ne.symm hqe]

lemma poll_issue (hq : s.que b p = e :: rest) (hne : e.pipe ≠ p)
    (hb : getEventBlockIndex e.loc s.alg.kernelType s.alg.deviceType = b)
    (hparts : parts e = [e]) (hroom : b < s.events.maxBlockNum ∧ 0 < s.events.deviceNum) :
    ∃ s', poll b p s = some (⟨p, e, tick b p (s.clock b p)⟩, s') ∧
      After b s ⟨p, e, tick b p (s.clock b p)⟩
        (fun q => if q = e.pipe then
          [RaceAlgImpl.timeEventOf e (tick b p (s.clock b p)), e] else [])
        s.alg.syncDB s.alg.checked s' := by
  have hidx : (position s.events b p).pipeIndex ≠ e.pipe.idx :=
    fun hc => hne (PipeType.idx_injective hc).symm
  have hr : RaceAlgImpl.processEvent (position s.events b p) s.alg e =
      { ret := .processOk, state := s.alg.setClock (queIdx b p) (tick b p (s.clock b p)),
        pushes := issued b e (tick b p (s.clock b p)) } := by
    unfold RaceAlgImpl.processEvent
    rw [getQueIndex_position, if_pos hidx, RaceAlgImpl.blockIndex, hb]
    rfl
  have hvc : (s.alg.setClock (queIdx b p) (tick b p (s.clock b p))).vc (queIdx b p) =
      tick b p (s.clock b p) := Function.update_self _ _ _
  refine ⟨⟨afterOffer (position s.events b p)
    { ret := .processOk
      state := s.alg.setClock (queIdx b p) (tick b p (s.clock b p))
      pushes := issued b e (tick b p (s.clock b p)) },
    s.alg.setClock (queIdx b p) (tick b p (s.clock b p))⟩, by simp only [poll, hq, hr, hvc], ?_⟩
  refine ⟨fun q => ?_, fun q => ?_, rfl, rfl, rfl, rfl, (afterOffer_blocks _ _).1,
    (afterOffer_blocks _ _).2⟩
  · rw [que, afterOffer_ques, getQueIndex_position]
    simp only [queIdx_inj, true_and, issued_ques hroom hparts]
    by_cases hqp : q = p
    · have hqe : ¬ q = e.pipe := fun hc => hne (hc.symm.trans hqp)
      rw [if_pos hqp, if_pos hqp, if_neg hqe, List.append_nil, List.append_nil]
    · rw [if_neg hqp, if_neg hqp]
  · by_cases hqp : q = p
    · subst hqp
      rw [if_pos rfl]
      exact hvc
    · rw [if_neg hqp]
      exact update_vc_of_ne hqp

lemma processEvent_stalls (h : Stalls s p e) :
    RaceAlgImpl.processEvent (position s.events b p) s.alg e =
      { ret := .processStalled, state := s.alg } := by
  obtain ⟨hp, info, hi, hop, -, hdb⟩ := h
  rw [processEvent_own hp]
  have hd : s.alg.dispatch (queIdx b p) e = (.processStalled, s.alg) := by
    simp only [RaceAlgImpl.dispatch, hi, RaceAlgImpl.processSyncEvent, RaceAlg.syncFlag, hop,
      reduceCtorEq, if_false, if_true, SyncEventDataBase.get, hdb, RaceAlgImpl.setClock,
      Function.update_eq_self]
  rw [hd]

lemma poll_stalls (hq : s.que b p = e :: rest) (h : Stalls s p e) : poll b p s = none := by
  simp only [poll, hq, processEvent_stalls h]

/-- **What a poll of a queue does.** -/
lemma poll_cons (h : Fit b s) (hq : s.que b p = e :: rest) :
    (Stalls s p e ∧ poll b p s = none) ∨ ∃ vt adds db checked s',
      Does b s p e vt adds db checked ∧ poll b p s = some (⟨p, e, vt⟩, s') ∧
        After b s ⟨p, e, vt⟩ adds db checked s' := by
  rcases h.fits p e (by simp [hq]) with ⟨⟨hb, hkind⟩, hparts, hplace⟩ | ⟨-, hp, t, hi⟩
  · by_cases hp : e.pipe = p
    · rcases hkind with hm | ⟨info, hi, hsrc, hdst⟩
      · obtain ⟨s', hpoll, ha⟩ := poll_mem hq hp hm
        exact Or.inr ⟨_, _, _, _, s', .mem hp hm rfl, hpoll, ha⟩
      · by_cases hset : info.opType = .setFlag
        · obtain ⟨s', hpoll, ha⟩ := poll_set hq hp hi hset
          have hsrc' : info.srcPipe = p := (hsrc hset).symm.trans hp
          exact Or.inr ⟨_, _, _, _, s', .set hp hi hset hsrc' rfl, hpoll, ha⟩
        by_cases hwait : info.opType = .waitFlag
        · have hdst' : info.dstPipe = p := (hdst hwait).symm.trans hp
          cases hdb : s.alg.syncDB (.ofInfo info) with
          | nil =>
            have hst : Stalls s p e := ⟨hp, info, hi, hwait, hdst', hdb⟩
            exact Or.inl ⟨hst, poll_stalls hq hst⟩
          | cons t l =>
            obtain ⟨s', hpoll, ha⟩ := poll_wait hq hp hi hwait hdb
            exact Or.inr ⟨_, _, _, _, s', .wait hp hi hwait hdst' hdb rfl, hpoll, ha⟩
        · obtain ⟨s', hpoll, ha⟩ := poll_pass hq hp hi hset hwait
          exact Or.inr ⟨_, _, _, _, s', .pass hp hi hset hwait rfl, hpoll, ha⟩
    · have hps : p = .s := hplace.resolve_right hp
      obtain ⟨s', hpoll, ha⟩ := poll_issue hq hp hb hparts (h.room p (by simp [hq]))
      exact Or.inr ⟨_, _, _, _, s', .issue hps hp rfl, hpoll, ha⟩
  · obtain ⟨s', hpoll, ha⟩ := poll_time hq hp hi
    exact Or.inr ⟨_, _, _, _, s', .time hp hi rfl, hpoll, ha⟩

lemma poll_inv (h : Fit b s) (hpoll : poll b p s = some (x, s')) :
    ∃ rest adds db checked, x.pipe = p ∧ s.que b p = x.event :: rest ∧
      Does b s p x.event x.clock adds db checked ∧ After b s x adds db checked s' := by
  cases hq : s.que b p with
  | nil =>
    simp only [poll, hq] at hpoll
    cases hpoll
  | cons e rest =>
    rcases poll_cons h hq with ⟨-, hnone⟩ | ⟨vt, adds, db, checked, s'', hdoes, hsome, ha⟩
    · rw [hnone] at hpoll
      cases hpoll
    · rw [hsome] at hpoll
      cases hpoll
      exact ⟨rest, adds, db, checked, rfl, rfl, hdoes, ha⟩

lemma Does.adds_fits {vt : VectorTime} {adds : PipeType → List SanEvent} {db : SyncEventDataBase}
    {checked : List (SanEvent × VectorTime)} (h : Does b s p e vt adds db checked)
    (hfits : Fits kt dt b p e) : ∀ e' ∈ adds q, Fits kt dt b q e' := by
  cases h with
  | issue hp hne hvt =>
    intro e' he'
    dsimp only at he'
    split_ifs at he' with hqe
    · rcases hfits with ⟨hblock, hparts, -⟩ | ⟨-, hc, -⟩
      · simp only [List.mem_cons, List.not_mem_nil, or_false] at he'
        rcases he' with rfl | rfl
        · exact Or.inr ⟨fun hc => hne (hqe.symm.trans (hc.trans hp.symm)), hqe.symm, vt, rfl⟩
        · exact Or.inl ⟨hblock, hparts, Or.inr hqe.symm⟩
      · exact absurd hc hne
    · cases he'
  | mem | time | set | wait | pass => exact fun _ he' => absurd he' List.not_mem_nil

lemma Fit.poll (h : Fit b s) (hpoll : poll b p s = some (x, s')) : Fit b s' := by
  obtain ⟨rest, adds, db, checked, hxp, hq, hdoes, ha⟩ := poll_inv h hpoll
  have hfits := h.fits p x.event (by simp [hq])
  have hroom := h.room p (by simp [hq])
  refine ⟨fun q e he => ?_, fun q _ => by rw [ha.blocks, ha.devices]; exact hroom⟩
  rw [ha.kernelType, ha.deviceType]
  rw [ha.que, List.mem_append] at he
  rcases he with he | he
  · refine h.fits q e ?_
    split_ifs at he
    · exact List.mem_of_mem_tail he
    · exact he
  · exact hdoes.adds_fits hfits e he

/-! ## The start -/

lemma parts_of_mem_parts {e e' : SanEvent} (h : e' ∈ parts e) : parts e' = [e'] := by
  unfold parts at h
  split at h
  · rename_i info hinfo
    split_ifs at h with hop
    · simp only [List.mem_cons, List.not_mem_nil, or_false] at h
      rcases h with rfl | rfl <;> simp [parts]
    · rw [List.mem_singleton.mp h]
      simp [parts, hinfo, hop]
  · rename_i hno
    rw [List.mem_singleton.mp h]
    unfold parts
    split
    · rename_i info hinfo
      exact absurd hinfo (hno info)
    · rfl

lemma parts_eq_or_mem (e : SanEvent) :
    parts e = [e] ∨ PipelineReplayer.isMemEvent e = true ∧
      ∀ e' ∈ parts e, e'.loc = e.loc ∧ PipelineReplayer.isMemEvent e' = true := by
  unfold parts
  split
  · rename_i info hinfo
    split_ifs
    · refine Or.inr ⟨by simp [PipelineReplayer.isMemEvent, hinfo], fun e' he' => ?_⟩
      simp only [List.mem_cons, List.not_mem_nil, or_false] at he'
      rcases he' with rfl | rfl <;> exact ⟨rfl, rfl⟩
    · exact Or.inl rfl
  · exact Or.inl rfl

lemma mem_parts_block {e e' : SanEvent} (h : e' ∈ parts e) (he : InBlock kt dt b e) :
    InBlock kt dt b e' ∧ parts e' = [e'] := by
  refine ⟨?_, parts_of_mem_parts h⟩
  rcases parts_eq_or_mem e with heq | ⟨-, hparts⟩
  · rw [heq, List.mem_singleton] at h
    exact h ▸ he
  · obtain ⟨hloc, hm⟩ := hparts e' h
    exact ⟨hloc ▸ he.1, Or.inl hm⟩

/-- At the start the events of block `b` are in its scalar queue, if there is such a block. -/
lemma start_que (blockDim : ℕ) {l : List SanEvent}
    (hl : ∀ e ∈ l, getEventBlockIndex e.loc kt dt = b) (p : PipeType) :
    (start kt dt blockDim l).que b p =
      if p = .s ∧ b < RaceAlgImpl.totalBlockNum kt dt blockDim then l.flatMap parts else [] := by
  change (List.foldl EventContainer.push
    (EventContainer.init (RaceAlgImpl.totalBlockNum kt dt blockDim) 1)
    ((RaceAlgImpl.init kt dt blockDim).pushes l)).ques (queIdx b p) = _
  rw [foldl_push_ques]
  have htarget : ∀ push ∈ (RaceAlgImpl.init kt dt blockDim).pushes l,
      (EventContainer.init (RaceAlgImpl.totalBlockNum kt dt blockDim) 1).target push =
        some (queIdx b p) ↔ p = .s ∧ b < RaceAlgImpl.totalBlockNum kt dt blockDim := by
    intro push hpush
    obtain ⟨e, he, rfl⟩ := List.mem_map.mp hpush
    have hb : (RaceAlgImpl.init kt dt blockDim).blockIndex e = b := hl e he
    unfold target
    rw [hb]
    by_cases hlt : b < RaceAlgImpl.totalBlockNum kt dt blockDim
    · have hidx : EventContainer.flattenPipeIdx (EventContainer.init
          (RaceAlgImpl.totalBlockNum kt dt blockDim) 1) PipeType.s.idx b 0 = queIdx b .s := by
        simp [flattenPipeIdx, queIdx]
      rw [if_neg (by simpa [EventContainer.init] using hlt), Option.some_inj, hidx, queIdx_inj,
        and_iff_left hlt, eq_comm]
    · rw [if_pos (by simpa [EventContainer.init] using hlt)]
      exact iff_of_false (by simp) fun h => hlt h.2
  by_cases h : p = .s ∧ b < RaceAlgImpl.totalBlockNum kt dt blockDim
  · rw [if_pos h, List.filter_eq_self.mpr fun push hpush => by
      simpa using (htarget push hpush).mpr h, RaceAlgImpl.pushes, List.flatMap_map]
    exact List.nil_append _
  · rw [if_neg h, List.filter_eq_nil_iff.mpr fun push hpush hc =>
      h ((htarget push hpush).mp (by simpa using hc))]
    rfl

lemma mem_start (blockDim : ℕ) {l : List SanEvent} (hl : ∀ e ∈ l, InBlock kt dt b e)
    (he : e ∈ (start kt dt blockDim l).que b p) :
    p = .s ∧ b < RaceAlgImpl.totalBlockNum kt dt blockDim ∧ ∃ e₀ ∈ l, e ∈ parts e₀ := by
  rw [start_que blockDim fun e he => (hl e he).1] at he
  split_ifs at he with h
  · exact ⟨h.1, h.2, List.mem_flatMap.mp he⟩
  · cases he

/-- An event in a queue is in a block of the container. -/
lemma start_room (blockDim : ℕ) {l : List SanEvent}
    (hl : ∀ e ∈ l, getEventBlockIndex e.loc kt dt = b)
    (hne : (start kt dt blockDim l).que b p ≠ []) :
    b < (start kt dt blockDim l).events.maxBlockNum ∧
      0 < (start kt dt blockDim l).events.deviceNum := by
  obtain ⟨hblocks, hdevices, -⟩ := foldl_push_blocks ((RaceAlgImpl.init kt dt blockDim).pushes l)
    (EventContainer.init (RaceAlgImpl.totalBlockNum kt dt blockDim) 1)
  rw [start_que blockDim hl] at hne
  split_ifs at hne with h
  · refine ⟨hblocks.symm ▸ h.2, ?_⟩
    change 0 < (List.foldl EventContainer.push _ _).deviceNum
    rw [hdevices]
    exact Nat.one_pos
  · exact absurd rfl hne

lemma fit_start (blockDim : ℕ) {l : List SanEvent} (hl : ∀ e ∈ l, InBlock kt dt b e) :
    Fit b (start kt dt blockDim l) := by
  refine ⟨fun p e he => ?_, fun p => start_room blockDim fun e he => (hl e he).1⟩
  obtain ⟨hp, -, e₀, he₀, hpart⟩ := mem_start blockDim hl he
  obtain ⟨hblock, hparts⟩ := mem_parts_block hpart (hl e₀ he₀)
  exact Or.inl ⟨hblock, hparts, Or.inl hp⟩

lemma Polls.fit {s₀ : BlockReplay} {tr : List Exec} (h : Polls b s₀ tr s) (h₀ : Fit b s₀) :
    Fit b s := by
  induction h with
  | nil => exact h₀
  | concat _ hpoll ih => exact ih.poll hpoll

/-- Every step of a run is a poll after the steps before it. -/
lemma Polls.step_at {s₀ : BlockReplay} {tr : List Exec} (h : Polls b s₀ tr s) {j : ℕ}
    (hj : tr[j]? = some x) :
    ∃ p s₁ s₂, Polls b s₀ (tr.take j) s₁ ∧ BlockReplay.poll b p s₁ = some (x, s₂) := by
  induction h with
  | nil => cases hj
  | @concat tr s p y s' h hpoll ih =>
    by_cases hlt : j < tr.length
    · rw [List.getElem?_append_left hlt] at hj
      rw [List.take_append_of_le_length hlt.le]
      exact ih hj
    · rw [List.getElem?_append_right (not_lt.mp hlt)] at hj
      have hlen : j = tr.length := by
        have := (List.getElem?_eq_some_iff.mp hj).1
        simp only [List.length_singleton] at this
        omega
      subst hlen
      rw [Nat.sub_self] at hj
      cases hj
      rw [List.take_left']
      · exact ⟨p, s, s', h, hpoll⟩
      · rfl

/-! ## What the checker has got -/

/-- The memory events of a run, with their clocks. -/
def memEvents (tr : List Exec) : List (SanEvent × VectorTime) :=
  (tr.filter Exec.isMem).map fun x => (x.event, x.clock)

lemma memEvents_concat (tr : List Exec) (x : Exec) :
    memEvents (tr ++ [x]) = memEvents tr ++ if x.isMem then [(x.event, x.clock)] else [] := by
  unfold memEvents
  rw [List.filter_append, List.map_append]
  cases hx : x.isMem <;> simp [hx]

/-- A poll gives the checker the event that it executes, if it is a memory event. -/
lemma Does.checked_eq {vt : VectorTime} {adds : PipeType → List SanEvent} {db : SyncEventDataBase}
    {checked : List (SanEvent × VectorTime)} (h : Does b s p e vt adds db checked) :
    checked = s.alg.checked ++ if (⟨p, e, vt⟩ : Exec).isMem then [(e, vt)] else [] := by
  unfold Exec.isMem
  cases h with
  | issue _ hne => simp [hne]
  | mem hp hm => simp [hp, hm]
  | time _ hi => simp [PipelineReplayer.isMemEvent, hi]
  | set _ hi => simp [PipelineReplayer.isMemEvent, hi]
  | wait _ hi => simp [PipelineReplayer.isMemEvent, hi]
  | pass _ hi => simp [PipelineReplayer.isMemEvent, hi]

/-- **The checker gets the memory events that are executed, with the clocks of their pipes.** -/
lemma Polls.checked_eq {s₀ : BlockReplay} {tr : List Exec} (h : Polls b s₀ tr s) (h₀ : Fit b s₀) :
    s.alg.checked = s₀.alg.checked ++ memEvents tr := by
  induction h with
  | nil => simp [memEvents]
  | concat h hpoll ih =>
    obtain ⟨rest, adds, db, checked, rfl, -, hdoes, ha⟩ := poll_inv (h.fit h₀) hpoll
    rw [ha.checked, hdoes.checked_eq, ih, memEvents_concat, List.append_assoc]

/-! ## Every run ends -/

instance : Fintype PipeType :=
  Fintype.ofList [.s, .v, .m, .mte1, .mte2, .mte3, .all, .mte4, .mte5, .v2, .fix, .sCal]
    fun p => by cases p <;> decide

/-- The work that is left: an event in the scalar queue may be issued, with a time event. -/
def work (b : ℕ) (s : BlockReplay) : ℕ :=
  ∑ q, (if q = .s then 3 else 1) * (s.que b q).length

lemma Does.work_adds {vt : VectorTime} {adds : PipeType → List SanEvent} {db : SyncEventDataBase}
    {checked : List (SanEvent × VectorTime)} (h : Does b s p e vt adds db checked) :
    ∑ q, (if q = .s then 3 else 1) * (adds q).length < if p = .s then 3 else 1 := by
  cases h with
  | issue hp hne =>
    have hes : e.pipe ≠ .s := fun hc => hne (hc.trans hp.symm)
    rw [Finset.sum_eq_single e.pipe]
    · simp [hp, hes]
    · intro q _ hq
      simp [hq]
    · simp
  | mem | time | set | wait | pass =>
    simp only [List.length_nil, Nat.mul_zero, Finset.sum_const_zero]
    split_ifs <;> norm_num

lemma work_lt (h : Fit b s) (hpoll : poll b p s = some (x, s')) : work b s' < work b s := by
  obtain ⟨rest, adds, db, checked, rfl, hq, hdoes, ha⟩ := poll_inv h hpoll
  have hadds := hdoes.work_adds
  have hque : work b s' + (if x.pipe = .s then 3 else 1) =
      work b s + ∑ q, (if q = .s then 3 else 1) * (adds q).length := by
    unfold work
    rw [← Finset.add_sum_erase _ _ (Finset.mem_univ x.pipe),
      ← Finset.add_sum_erase _ (fun q => (if q = PipeType.s then 3 else 1) * (s.que b q).length)
        (Finset.mem_univ x.pipe),
      ← Finset.add_sum_erase _ (fun q => (if q = PipeType.s then 3 else 1) * (adds q).length)
        (Finset.mem_univ x.pipe)]
    have hrest : ∑ q ∈ Finset.univ.erase x.pipe,
        (if q = PipeType.s then 3 else 1) * (s'.que b q).length =
        ∑ q ∈ Finset.univ.erase x.pipe, (if q = PipeType.s then 3 else 1) * (s.que b q).length +
        ∑ q ∈ Finset.univ.erase x.pipe, (if q = PipeType.s then 3 else 1) * (adds q).length := by
      rw [← Finset.sum_add_distrib]
      refine Finset.sum_congr rfl fun q hq' => ?_
      rw [ha.que, if_neg (Finset.ne_of_mem_erase hq'), List.length_append, Nat.mul_add]
    rw [hrest, ha.que, if_pos rfl, hq, List.tail_cons, List.length_append, List.length_cons]
    ring
  omega

lemma Polls.length_le {s₀ : BlockReplay} {tr : List Exec} (h : Polls b s₀ tr s) (h₀ : Fit b s₀) :
    tr.length + work b s ≤ work b s₀ := by
  induction h with
  | nil => simp
  | concat h hpoll ih =>
    have := work_lt (h.fit h₀) hpoll
    rw [List.length_append, List.length_singleton]
    omega

/-- **Every run goes on to one in which all queues are stuck.** -/
lemma exists_stuck {s₀ : BlockReplay} (h₀ : Fit b s₀) {tr : List Exec} (h : Polls b s₀ tr s) :
    ∃ tr' s', Polls b s₀ tr' s' ∧ Stuck b s' := by
  induction hn : work b s using Nat.strong_induction_on generalizing tr s with
  | _ n ih =>
    subst hn
    by_cases hs : Stuck b s
    · exact ⟨tr, s, h, hs⟩
    · unfold Stuck at hs
      rw [not_forall] at hs
      obtain ⟨p, hp⟩ := hs
      obtain ⟨⟨x, s'⟩, hpoll⟩ := Option.ne_none_iff_exists'.mp hp
      exact ih _ (work_lt (h.fit h₀) hpoll) (h.concat hpoll) rfl

/-! ## A flag -/

/-- A flag from the vector pipe to the unit that writes back, with a memory event on either side. -/
def flagEvents : List SanEvent :=
  [{ pipe := .v, info := .mem {} },
    { pipe := .v, info := .sync { opType := .setFlag, srcPipe := .v, dstPipe := .mte3 } },
    { pipe := .mte3, info := .sync { opType := .waitFlag, srcPipe := .v, dstPipe := .mte3 } },
    { pipe := .mte3, info := .mem {} }]

lemma flagEvents_isBlockEvent : ∀ e ∈ flagEvents, IsBlockEvent .aivec ⟨0⟩ 0 e := by
  simp only [flagEvents, List.mem_cons, List.not_mem_nil, or_false, forall_eq_or_imp, forall_eq]
  exact ⟨⟨rfl, Or.inl rfl⟩, ⟨rfl, Or.inr ⟨_, rfl, Or.inl ⟨rfl, rfl⟩⟩⟩,
    ⟨rfl, Or.inr ⟨_, rfl, Or.inr ⟨rfl, rfl⟩⟩⟩, ⟨rfl, Or.inl rfl⟩⟩

lemma work_flagEvents : work 0 (start .aivec ⟨0⟩ 1 flagEvents) = 12 := by
  decide

end MsSanitizer.BlockReplay
