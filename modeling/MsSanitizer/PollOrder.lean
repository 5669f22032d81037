import MsSanitizer.BlockPolls
import MsSanitizer.FifoNetwork

/-!
# The order of the polls

The pipes of a block are the processes of a network. The queue of a pipe is written by the scalar
pipe, which issues the events, and read by the pipe; the clocks stored under a flag are written by
the source pipe of the flag and read by its destination pipe. So the order in which the queues are
polled does not matter.
-/

namespace MsSanitizer.BlockReplay

open RecordDefs EventDef VectorTime PipeLine FifoNetwork

/-- The queues of the network: the events of a pipe, and the clocks stored under a flag. -/
inductive Chan
  | events (p : PipeType)
  | flag (k : SyncEvent)
  deriving DecidableEq

abbrev Msg := SanEvent ⊕ VectorTime

/-- What a pipe has of its own: its clock and what it has executed. -/
structure PipeLoc where
  clock : VectorTime
  log : List Exec

def Chan.writer : Chan → PipeType
  | .events _ => .s
  | .flag k => k.srcPipe

def Chan.reader : Chan → PipeType
  | .events p => p
  | .flag k => k.dstPipe

/-- A step of a pipe that executes its front event and has the clock `vt` then. -/
def executed (p : PipeType) (l : PipeLoc) (e : SanEvent) (vt : VectorTime) (takes : Chan → Bool)
    (adds : Chan → List Msg) : Effect Chan Msg PipeLoc where
  state := ⟨vt, l.log ++ [⟨p, e, vt⟩]⟩
  takes k := k == .events p || takes k
  adds := adds

def nextOwn (b : ℕ) (p : PipeType) (l : PipeLoc) (h : Chan → Option Msg) (e : SanEvent) :
    Option (Effect Chan Msg PipeLoc) :=
  match e.info with
  | .sync info =>
    if info.opType = .setFlag ∧ info.srcPipe = p then
      let vt := tick b p l.clock
      some (executed p l e vt (fun _ => false)
        fun k => if k = .flag (.ofInfo info) then [.inr vt] else [])
    else if info.opType = .waitFlag ∧ info.dstPipe = p then
      match h (.flag (.ofInfo info)) with
      | some (.inr t) =>
        some (executed p l e (tick b p (updateVectorTime t l.clock))
          (fun k => k == .flag (.ofInfo info)) fun _ => [])
      | _ => none
    else if info.opType ≠ .setFlag ∧ info.opType ≠ .waitFlag then
      some (executed p l e l.clock (fun _ => false) fun _ => [])
    else none
  | .time (some t) =>
    some (executed p l e (tick b p (updateVectorTime t l.clock)) (fun _ => false) fun _ => [])
  | .mem _ | .dynamicMem _ =>
    some (executed p l e (tick b p l.clock) (fun _ => false) fun _ => [])
  | _ => none

/-- The step of a pipe; only the scalar pipe issues events. -/
def next (b : ℕ) (p : PipeType) (l : PipeLoc) (h : Chan → Option Msg) :
    Option (Effect Chan Msg PipeLoc) :=
  match h (.events p) with
  | some (.inl e) =>
    if e.pipe = p then nextOwn b p l h e
    else if p = .s then
      let vt := tick b p l.clock
      some (executed p l e vt (fun _ => false)
        fun k => if k = .events e.pipe then [.inl (RaceAlgImpl.timeEventOf e vt), .inl e] else [])
    else none
  | _ => none

section

variable {b : ℕ} {p : PipeType} {l : PipeLoc} {h h' : Chan → Option Msg} {e : SanEvent}
  {r : Effect Chan Msg PipeLoc} {k : Chan}

lemma nextOwn_cases (hr : nextOwn b p l h e = some r) :
    (∃ vt, r = executed p l e vt (fun _ => false) fun _ => []) ∨
    (∃ key vt, key.srcPipe = p ∧
      r = executed p l e vt (fun _ => false) fun k => if k = .flag key then [.inr vt] else []) ∨
    ∃ key vt t, key.dstPipe = p ∧ h (.flag key) = some (.inr t) ∧
      r = executed p l e vt (fun k => k == .flag key) fun _ => [] := by
  unfold nextOwn at hr
  split at hr
  · rename_i info _
    split_ifs at hr with hset hwait hpass
    · exact Or.inr (Or.inl ⟨.ofInfo info, _, hset.2, (Option.some_inj.mp hr).symm⟩)
    · split at hr
      · rename_i t ht
        exact Or.inr (Or.inr ⟨.ofInfo info, _, t, hwait.2, ht, (Option.some_inj.mp hr).symm⟩)
      · cases hr
    · exact Or.inl ⟨_, (Option.some_inj.mp hr).symm⟩
  · exact Or.inl ⟨_, (Option.some_inj.mp hr).symm⟩
  · exact Or.inl ⟨_, (Option.some_inj.mp hr).symm⟩
  · exact Or.inl ⟨_, (Option.some_inj.mp hr).symm⟩
  · cases hr

lemma nextOwn_stable (hr : nextOwn b p l h e = some r)
    (hh : ∀ k : Chan, k.reader = p → ∀ m, h k = some m → h' k = some m) :
    nextOwn b p l h' e = some r := by
  unfold nextOwn at hr ⊢
  split at hr
  · rename_i info _
    dsimp only
    split_ifs at hr ⊢ with hset hwait hpass
    · exact hr
    · split at hr
      · rename_i t ht
        rw [hh (.flag (.ofInfo info)) hwait.2 _ ht]
        exact hr
      · cases hr
    · exact hr
  · exact hr
  · exact hr
  · exact hr
  · cases hr

lemma next_cases (hr : next b p l h = some r) :
    ∃ e, h (.events p) = some (.inl e) ∧ (nextOwn b p l h e = some r ∨ p = .s ∧ ∃ vt,
      r = executed p l e vt (fun _ => false) fun k =>
        if k = .events e.pipe then [.inl (RaceAlgImpl.timeEventOf e vt), .inl e] else []) := by
  unfold next at hr
  split at hr
  · rename_i e he
    refine ⟨e, he, ?_⟩
    split_ifs at hr with hp hs
    · exact Or.inl hr
    · exact Or.inr ⟨hs, _, (Option.some_inj.mp hr).symm⟩
  · cases hr

lemma next_stable (hr : next b p l h = some r)
    (hh : ∀ k : Chan, k.reader = p → ∀ m, h k = some m → h' k = some m) :
    next b p l h' = some r := by
  unfold next at hr ⊢
  split at hr
  · rename_i e he
    rw [hh (.events p) rfl _ he]
    dsimp only
    split_ifs at hr ⊢ with hp hs
    · exact nextOwn_stable hr hh
    · exact hr
  · cases hr

lemma next_takes_own (hr : next b p l h = some r) (hk : r.takes k = true) :
    k.reader = p ∧ h k ≠ none := by
  obtain ⟨e, he, hr⟩ := next_cases hr
  have hevents : k = .events p → k.reader = p ∧ h k ≠ none := by
    rintro rfl
    exact ⟨rfl, by rw [he]; exact Option.some_ne_none _⟩
  rcases hr with hr | ⟨-, vt, rfl⟩
  · rcases nextOwn_cases hr with ⟨vt, rfl⟩ | ⟨key, vt, -, rfl⟩ | ⟨key, vt, t, hkey, ht, rfl⟩ <;>
      simp only [executed, Bool.or_false, Bool.or_eq_true, beq_iff_eq] at hk
    · exact hevents hk
    · exact hevents hk
    · rcases hk with hk | rfl
      · exact hevents hk
      · exact ⟨hkey, by rw [ht]; exact Option.some_ne_none _⟩
  · simp only [executed, Bool.or_false, beq_iff_eq] at hk
    exact hevents hk

lemma next_adds_own (hr : next b p l h = some r) (hk : r.adds k ≠ []) : k.writer = p := by
  obtain ⟨e, he, hr⟩ := next_cases hr
  rcases hr with hr | ⟨hp, vt, rfl⟩
  · rcases nextOwn_cases hr with ⟨vt, rfl⟩ | ⟨key, vt, hkey, rfl⟩ | ⟨key, vt, t, -, -, rfl⟩
    · exact absurd rfl hk
    · simp only [executed, ne_eq, ite_eq_right_iff, not_forall] at hk
      obtain ⟨rfl, -⟩ := hk
      exact hkey
    · exact absurd rfl hk
  · simp only [executed, ne_eq, ite_eq_right_iff, not_forall] at hk
    obtain ⟨rfl, -⟩ := hk
    exact hp.symm

end

/-- The pipes of block `b` as a network. -/
def net (b : ℕ) : Net PipeType Chan Msg PipeLoc where
  writer := Chan.writer
  reader := Chan.reader
  next := next b
  stable := next_stable
  takes_own := next_takes_own
  adds_own := next_adds_own

/-! ## Runs of the replay are runs of the network -/

variable {b : ℕ} {p : PipeType} {s s' : BlockReplay} {tr : List Exec} {x : Exec}

/-- The state of the network for a state of the replay after a run. -/
def view (b : ℕ) (s : BlockReplay) (tr : List Exec) : State PipeType Chan Msg PipeLoc where
  loc p := ⟨s.clock b p, tr.filter fun x => x.pipe = p⟩
  queue
    | .events p => (s.que b p).map .inl
    | .flag k => (s.alg.syncDB k).map .inr

lemma view_after {adds : PipeType → List SanEvent} {db : SyncEventDataBase}
    {checked : List (SanEvent × VectorTime)} (ha : After b s x adds db checked s')
    {takes : Chan → Bool} {madds : Chan → List Msg}
    (hev : ∀ q, takes (.events q) = false ∧ madds (.events q) = (adds q).map .inl)
    (hflag : ∀ k, (if takes (.flag k) then (s.alg.syncDB k).tail else s.alg.syncDB k).map .inr ++
      madds (.flag k) = (db k).map .inr) :
    (view b s tr).apply x.pipe
      (executed x.pipe ((view b s tr).loc x.pipe) x.event x.clock takes madds) =
        view b s' (tr ++ [x]) := by
  refine State.ext (funext fun q => ?_) (funext fun k => ?_)
  · by_cases hq : q = x.pipe
    · subst hq
      simp [State.apply, executed, view, ha.clock]
    · simp [State.apply, view, ha.clock, hq, Ne.symm hq]
  · cases k with
    | events q =>
      simp only [State.apply, executed, view, (hev q).1, (hev q).2, ha.que, Bool.or_false,
        beq_iff_eq, Chan.events.injEq, List.map_append]
      split_ifs <;> simp
    | flag k =>
      simp only [State.apply, executed, view, ha.syncDB, ← hflag k]
      split_ifs <;> simp_all

lemma fronts_events {e : SanEvent} {rest : List SanEvent} (hq : s.que b p = e :: rest) :
    (view b s tr).fronts (.events p) = some (.inl e) := by
  simp [State.fronts, view, hq]

/-- **A poll is a step of the network.** -/
lemma step_of_poll (h : Fit b s) (hpoll : poll b p s = some (x, s')) :
    (net b).step p (view b s tr) = some (view b s' (tr ++ [x])) := by
  obtain ⟨rest, adds, db, checked, rfl, hq, hdoes, ha⟩ := poll_inv h hpoll
  have hfront : (view b s tr).fronts (.events x.pipe) = some (.inl x.event) := fronts_events hq
  -- it is enough to know the effect of the step
  have key : ∀ takes madds, next b x.pipe ((view b s tr).loc x.pipe) (view b s tr).fronts =
        some (executed x.pipe ((view b s tr).loc x.pipe) x.event x.clock takes madds) →
      (∀ q, takes (.events q) = false ∧ madds (.events q) = (adds q).map .inl) →
      (∀ k, (if takes (.flag k) then (s.alg.syncDB k).tail else s.alg.syncDB k).map .inr ++
        madds (.flag k) = (db k).map .inr) →
      (net b).step x.pipe (view b s tr) = some (view b s' (tr ++ [x])) := by
    intro takes madds hnext hev hflag
    have heq : (net b).next x.pipe ((view b s tr).loc x.pipe) (view b s tr).fronts = _ := hnext
    rw [Net.step, heq, Option.map_some, view_after ha hev hflag]
  have hloc : ((view b s tr).loc x.pipe).clock = s.clock b x.pipe := rfl
  cases hdoes with
  | issue hp hne hvt =>
    refine key (fun _ => false) (fun k => if k = .events x.event.pipe then
      [.inl (RaceAlgImpl.timeEventOf x.event x.clock), .inl x.event] else []) ?_ (fun q => ?_)
      fun k => by simp
    · simp only [next, hfront, if_neg hne, if_pos hp, hloc, ← hvt]
    · by_cases hqe : q = x.event.pipe <;> simp [hqe]
  | mem hp hm hvt =>
    refine key (fun _ => false) (fun _ => []) ?_ (fun q => by simp) fun k => by simp
    simp only [next, hfront, if_pos hp]
    unfold nextOwn
    unfold PipelineReplayer.isMemEvent at hm
    split at hm <;> simp_all
  | time hp hi hvt =>
    refine key (fun _ => false) (fun _ => []) ?_ (fun q => by simp) fun k => by simp
    simp only [next, hfront, if_pos hp, nextOwn, hi, hloc, ← hvt]
  | @set hp info hi hop hsrc _ hvt =>
    refine key (fun _ => false) (fun k => if k = .flag (.ofInfo info) then [.inr x.clock] else [])
      ?_ (fun q => by simp) fun k => ?_
    · simp only [next, hfront, if_pos hp, nextOwn, hi, hop, hsrc, and_self, if_true, hloc, ← hvt]
    · by_cases hk : k = .ofInfo info <;> simp [SyncEventDataBase.set, hk]
  | @wait hp info hi hop hdst t l hdb _ hvt =>
    have hflag : (view b s tr).fronts (.flag (.ofInfo info)) = some (.inr t) := by
      simp [State.fronts, view, hdb]
    refine key (fun k => k == .flag (.ofInfo info)) (fun _ => []) ?_ (fun q => by simp)
      fun k => ?_
    · simp only [next, hfront, if_pos hp, nextOwn, hi, hop, hdst, hflag, reduceCtorEq, false_and,
        if_false, and_self, if_true, hloc, ← hvt]
    · by_cases hk : k = .ofInfo info <;> simp [hk, hdb]
  | @pass hp info hi hset hwait _ hvt =>
    refine key (fun _ => false) (fun _ => []) ?_ (fun q => by simp) fun k => by simp
    simp only [next, hfront, if_pos hp, nextOwn, hi, hset, hwait, false_and, if_false, ne_eq,
      not_false_eq_true, and_self, if_true, hloc, ← hvt]

lemma step_of_poll_none (h : Fit b s) (hpoll : poll b p s = none) :
    (net b).step p (view b s tr) = none := by
  have key : next b p ((view b s tr).loc p) (view b s tr).fronts = none →
      (net b).step p (view b s tr) = none := by
    intro hnext
    have heq : (net b).next p ((view b s tr).loc p) (view b s tr).fronts = none := hnext
    rw [Net.step, heq, Option.map_none]
  refine key ?_
  cases hq : s.que b p with
  | nil =>
    have hfront : (view b s tr).fronts (.events p) = none := by simp [State.fronts, view, hq]
    simp only [next, hfront]
  | cons e rest =>
    rcases poll_cons h hq with ⟨⟨hp, info, hi, hop, hdst, hdb⟩, -⟩ | ⟨_, _, _, _, _, -, hsome, -⟩
    · have hflag : (view b s tr).fronts (.flag (.ofInfo info)) = none := by
        simp [State.fronts, view, hdb]
      simp only [next, fronts_events hq, if_pos hp, nextOwn, hi, hop, hdst, hflag, reduceCtorEq,
        false_and, if_false, and_self, if_true]
    · rw [hsome] at hpoll
      cases hpoll

lemma Polls.moves {s₀ : BlockReplay} (h : Polls b s₀ tr s) (h₀ : Fit b s₀) :
    Relation.ReflTransGen (net b).Moves (view b s₀ []) (view b s tr) := by
  induction h with
  | nil => exact Relation.ReflTransGen.refl
  | concat h hpoll ih => exact ih.tail ⟨_, step_of_poll (h.fit h₀) hpoll⟩

lemma Stuck.net {s₀ : BlockReplay} (hs : Stuck b s) (h : Polls b s₀ tr s) (h₀ : Fit b s₀) :
    (net b).Stuck (view b s tr) :=
  fun p => step_of_poll_none (h.fit h₀) (hs p)

/-! ## The order of `Run` -/

def Alone (b : ℕ) (s : BlockReplay) : Prop :=
  ∀ i, (∀ p, i ≠ queIdx b p) → s.events.ques i = []

lemma pushes_target (h : Fit b s) {e : SanEvent} {rest : List SanEvent}
    (hq : s.que b p = e :: rest) {c : EventContainer} {i : ℕ} {push : Push}
    (hpush : push ∈ (RaceAlgImpl.processEvent (position s.events b p) s.alg e).pushes)
    (ht : c.target push = some i) : ∃ q, i = queIdx b q := by
  rcases h.fits p e (by simp [hq]) with ⟨⟨hb, -⟩, -⟩ | ⟨-, hp, -⟩
  · by_cases hp : e.pipe = p
    · rw [processEvent_own hp] at hpush
      cases hpush
    · have hidx : (position s.events b p).pipeIndex ≠ e.pipe.idx :=
        fun hc => hp (PipeType.idx_injective hc).symm
      unfold RaceAlgImpl.processEvent at hpush
      rw [if_pos hidx, RaceAlgImpl.blockIndex, hb] at hpush
      simp only [List.mem_cons, List.not_mem_nil, or_false] at hpush
      unfold EventContainer.target at ht
      split_ifs at ht
      refine ⟨e.pipe, ?_⟩
      rcases hpush with rfl | rfl <;>
        simpa [EventContainer.flattenPipeIdx, queIdx, eq_comm] using ht
  · rw [processEvent_own hp] at hpush
    cases hpush

lemma Alone.poll (ha : Alone b s) (h : Fit b s) (hpoll : poll b p s = some (x, s')) :
    Alone b s' := by
  intro i hi
  cases hq : s.que b p with
  | nil =>
    simp only [BlockReplay.poll, hq] at hpoll
    cases hpoll
  | cons e rest =>
    simp only [BlockReplay.poll, hq] at hpoll
    split at hpoll
    · cases hpoll
    · rename_i hret
      cases hpoll
      rw [afterOffer_ques, if_neg fun hc => hi p (hc.2.trans (getQueIndex_position _ b p)),
        EventContainer.foldl_push_ques]
      have hnone : (RaceAlgImpl.processEvent (position s.events b p) s.alg e).pushes.filter
          (fun push => decide ((position s.events b p).target push = some i)) = [] := by
        rw [List.filter_eq_nil_iff]
        intro push hpush ht
        obtain ⟨q, hq'⟩ := pushes_target h hq hpush (of_decide_eq_true ht)
        exact hi q hq'
      rw [hnone, List.flatMap_nil, List.append_nil]
      exact ha i hi

lemma alone_start {kt : KernelType} {dt : DeviceType} (blockDim : ℕ) {l : List SanEvent}
    (hl : ∀ e ∈ l, InBlock kt dt b e) : Alone b (start kt dt blockDim l) := by
  intro i hi
  change (List.foldl EventContainer.push
    (EventContainer.init (RaceAlgImpl.totalBlockNum kt dt blockDim) 1)
    ((RaceAlgImpl.init kt dt blockDim).pushes l)).ques i = []
  rw [EventContainer.foldl_push_ques, List.append_eq_nil_iff]
  refine ⟨rfl, ?_⟩
  rw [List.flatMap_eq_nil_iff]
  intro push hpush
  obtain ⟨hin, htarget⟩ := List.mem_filter.mp hpush
  obtain ⟨e, he, rfl⟩ := List.mem_map.mp hin
  have hb : (RaceAlgImpl.init kt dt blockDim).blockIndex e = b := (hl e he).1
  rw [decide_eq_true_eq, hb] at htarget
  unfold EventContainer.target at htarget
  split_ifs at htarget
  refine absurd ?_ (hi .s)
  rw [← Option.some_inj.mp htarget]
  simp [EventContainer.flattenPipeIdx, queIdx]

lemma Polls.alone {s₀ : BlockReplay} (h : Polls b s₀ tr s) (h₀ : Fit b s₀) (ha : Alone b s₀) :
    Alone b s := by
  induction h with
  | nil => exact ha
  | concat h hpoll ih => exact ih.poll (h.fit h₀) hpoll

lemma Polls.blocks {s₀ : BlockReplay} (h : Polls b s₀ tr s) (h₀ : Fit b s₀) :
    s.events.maxBlockNum = s₀.events.maxBlockNum ∧ s.events.deviceNum = s₀.events.deviceNum := by
  induction h with
  | nil => exact ⟨rfl, rfl⟩
  | concat h hpoll ih =>
    obtain ⟨_, _, _, _, -, -, -, ha⟩ := poll_inv (h.fit h₀) hpoll
    exact ⟨ha.blocks.trans ih.1, ha.devices.trans ih.2⟩

/-- The handler looks at the container only for its place. -/
lemma processEvent_position {c : EventContainer} (hidx : c.getQueIndex = queIdx b p)
    (hp : c.pipeIndex = p.idx) (a : RaceAlgImpl) (e : SanEvent) :
    RaceAlgImpl.processEvent c a e = RaceAlgImpl.processEvent (position s.events b p) a e := by
  unfold RaceAlgImpl.processEvent
  rw [getQueIndex_position, hidx, hp]
  rfl

/-- `Run` on the events of a kernel, after `n` rounds of its loop. -/
def replay (kt : KernelType) (dt : DeviceType) (blockDim : ℕ) (l : List SanEvent) (n : ℕ) :
    PipeLine RaceAlgImpl :=
  run RaceAlgImpl.processEvent
    (PipeLine.start (RaceAlgImpl.totalBlockNum kt dt blockDim) 1
      ((RaceAlgImpl.init kt dt blockDim).pushes l) ((RaceAlgImpl.init kt dt blockDim).collect l)) n

/-! ## Any two orders -/

/-- Runs in which every pipe has done the same are the same up to order. -/
lemma perm_of_filter_eq {tr' : List Exec}
    (h : ∀ p, tr.filter (fun x => x.pipe = p) = tr'.filter fun x => x.pipe = p) :
    tr.Perm tr' := by
  rw [List.perm_iff_count]
  intro x
  have hcount : ∀ l : List Exec, (l.filter fun y => y.pipe = x.pipe).count x = l.count x :=
    fun l => List.count_filter (by simp)
  rw [← hcount tr, ← hcount tr', h]

/-- **The order of the polls does not matter.** Take any events of a block, any two orders in which
its queues are polled until all of them are empty or stuck. Each pipe has executed the same events
with the same clocks, in the same order; the same events are left in the queues; and the checker has
got the same memory events with the same clocks. -/
theorem polls_confluent (kernelType : KernelType) (deviceType : DeviceType) (blockDim b : ℕ)
    {l : List SanEvent} (hl : ∀ e ∈ l, IsBlockEvent kernelType deviceType b e)
    {tr tr' : List Exec} {s s' : BlockReplay}
    (h : Polls b (start kernelType deviceType blockDim l) tr s) (hs : Stuck b s)
    (h' : Polls b (start kernelType deviceType blockDim l) tr' s') (hs' : Stuck b s') :
    (∀ p, tr.filter (fun x => x.pipe = p) = tr'.filter fun x => x.pipe = p) ∧ tr.Perm tr' ∧
      (∀ p, s.que b p = s'.que b p) ∧ s.alg.checked.Perm s'.alg.checked := by
  have h₀ := fit_start blockDim fun e he => (hl e he).inBlock
  have hview : view b s tr = view b s' tr' :=
    Net.eq_of_stuck (h.moves h₀) (hs.net h h₀) (h'.moves h₀) (hs'.net h' h₀)
  have hlog : ∀ p, tr.filter (fun x => x.pipe = p) = tr'.filter fun x => x.pipe = p :=
    fun p => congrArg (fun v : State PipeType Chan Msg PipeLoc => (v.loc p).log) hview
  have hperm := perm_of_filter_eq hlog
  refine ⟨hlog, hperm, fun p => ?_, ?_⟩
  · have hque := congrArg (fun v : State PipeType Chan Msg PipeLoc => v.queue (.events p)) hview
    exact List.map_injective_iff.mpr Sum.inl_injective hque
  · rw [h.checked_eq h₀, h'.checked_eq h₀]
    exact List.Perm.append_left _ ((hperm.filter _).map _)

theorem polls_confluent_flag :
    ∃ tr s, Polls 0 (start .aivec ⟨0⟩ 1 flagEvents) tr s ∧ Stuck 0 s ∧
      ∀ tr' s', Polls 0 (start .aivec ⟨0⟩ 1 flagEvents) tr' s' → Stuck 0 s' →
        tr.Perm tr' ∧ s.alg.checked.Perm s'.alg.checked := by
  obtain ⟨tr, s, h, hs⟩ :=
    exists_stuck (fit_start 1 fun e he => (flagEvents_isBlockEvent e he).inBlock) .nil
  refine ⟨tr, s, h, hs, fun tr' s' h' hs' => ?_⟩
  obtain ⟨-, hperm, -, hchecked⟩ :=
    polls_confluent .aivec ⟨0⟩ 1 0 flagEvents_isBlockEvent h hs h' hs'
  exact ⟨hperm, hchecked⟩

end MsSanitizer.BlockReplay
