import MsSanitizer.StoredClocks
import MsSanitizer.PipeLineSteps
import MsSanitizer.PipeLineEnds

/-!
# The queues of the check between devices

Each device records its kernels one after the other, and the recordings of the devices are
interleaved in any way. The events of a block stand in its scalar queue; an event of another pipe
goes from there to the queue of its pipe, behind a time event. The end of a kernel becomes one
event for each pipe of each block.

`Queued` says that for each pipe of a block what has been executed and what is left is what was
recorded, in order.
-/

namespace MsSanitizer.NpuReplay

open RecordDefs EventDef VectorTime PipeLine

/-! ## Recordings -/

def isTime (e : SanEvent) : Bool :=
  match e.info with
  | .time _ => true
  | _ => false

def isFinish (e : SanEvent) : Bool :=
  match e.info with
  | .sanitizerControl .kernelFinish => true
  | _ => false

def isWork (e : SanEvent) : Bool :=
  match e.info with
  | .time _ | .sanitizerControl _ => false
  | _ => true

def blockOf (e : SanEvent) : ℕ := getEventExpandBlockIndexByLoc e.loc

/-- The event is one of kernel `k` on device `d`. -/
def ofKernel (d k : ℕ) (e : SanEvent) : Bool :=
  isWork e && decide (e.loc.deviceIdx = d) && decide (e.loc.kernelIdx = k)

/-- The events of a kernel, and its end. -/
structure KernelEvents where
  works : List SanEvent
  finish : SanEvent

def kernel? (env : NpuEnv) (d k : ℕ) : Option KernelSummary := do
  let device ← env.devices[d]?
  device.kernels[k]?

/-- The events are those of kernel `k` on device `d`: each is on a core of the kernel. -/
structure Fits (env : NpuEnv) (d k : ℕ) (x : KernelEvents) : Prop where
  core : ∃ s, kernel? env d k = some s ∧
    ∀ e ∈ x.works, blockOf e < s.blockDim * c220MixSubBlockDim
  work : ∀ e ∈ x.works, ofKernel d k e = true
  finish : isFinish x.finish = true ∧ x.finish.loc.deviceIdx = d ∧ x.finish.loc.kernelIdx = k

/-- What the devices record: a list of kernels each. -/
structure Recording (env : NpuEnv) where
  kernels : ℕ → List KernelEvents
  fits : ∀ d k x, (kernels d)[k]? = some x → Fits env d k x

/-- The events of some kernels, one kernel after the other. -/
def stream (kernels : List KernelEvents) : List SanEvent :=
  kernels.flatMap fun x => x.works ++ [x.finish]

def Recording.Interleaves {env : NpuEnv} (R : Recording env) (events : List SanEvent) : Prop :=
  ∀ d, (events.filter fun e => decide (e.loc.deviceIdx = d)) = stream (R.kernels d)

/-! ## What the replay executes -/

/-- An event that is offered to the handler on its own pipe, the answer and the clock of the pipe
after it. -/
structure Offer where
  event : SanEvent
  ok : Bool
  clock : VectorTime

def offerAt (env : NpuEnv) (p : PipeLine CrossNpuRaceAlg) : Option Offer :=
  if p.pipeState = .processEvent then
    match p.events.ques p.events.getQueIndex with
    | [] => none
    | e :: _ =>
      if p.events.pipeIndex = e.pipe.idx then
        let r := CrossNpuRaceAlg.processEvent env p.events p.handler e
        some { event := e, ok := decide (r.ret = .processOk),
               clock := r.state.vc p.events.getQueIndex }
      else none
  else none

/-- The offers of the first `n` rounds. -/
def offers (env : NpuEnv) (events : List SanEvent) (n : ℕ) : List Offer :=
  (List.range n).filterMap fun j => offerAt env (npuReplay env events j)

/-- The events executed on pipe `p` of block `b` of device `d`, in order. -/
def executed (os : List Offer) (d b : ℕ) (p : PipeType) : List SanEvent :=
  ((os.filter Offer.ok).map Offer.event).filter fun e =>
    !isTime e && decide (e.loc.deviceIdx = d) && decide (blockOf e = b) && decide (e.pipe = p)

lemma offers_succ (env : NpuEnv) (events : List SanEvent) (n : ℕ) :
    offers env events (n + 1) =
      offers env events n ++ (offerAt env (npuReplay env events n)).toList := by
  rw [offers, List.range_succ, List.filterMap_append, List.filterMap_cons, offers]
  cases offerAt env (npuReplay env events n) <;> rfl

lemma executed_concat (os : List Offer) (o : Offer) (d b : ℕ) (p : PipeType) :
    executed (os ++ [o]) d b p = executed os d b p ++ executed [o] d b p := by
  rw [executed, List.filter_append, List.map_append, List.filter_append]
  rfl

lemma executed_stalled {o : Offer} (h : o.ok = false) (d b : ℕ) (p : PipeType) :
    executed [o] d b p = [] := by
  rw [executed, List.filter_cons_of_neg (by rw [h]; exact Bool.false_ne_true)]
  rfl

lemma executed_single {o : Offer} (h : o.ok = true) (d b : ℕ) (p : PipeType) :
    executed [o] d b p =
      if isTime o.event = false ∧ o.event.loc.deviceIdx = d ∧ blockOf o.event = b ∧
        o.event.pipe = p then [o.event] else [] := by
  rw [executed, List.filter_cons_of_pos h, List.filter_nil, List.map_singleton,
    List.filter_singleton]
  simp [and_assoc]

/-! ## What was recorded for a pipe -/

/-- The event at the end of a kernel, for pipe `p` of block `b`. -/
def barrierEvent (e : SanEvent) (b : ℕ) (p : PipeType) : SanEvent :=
  { e with loc := CrossNpuRaceAlg.barrierLoc e b, pipe := p }

/-- What an event of the recording puts into the scalar queue of block `b`. -/
def onBlock (b : ℕ) (e : SanEvent) : List SanEvent :=
  if isFinish e then CrossNpuRaceAlg.barrierPipes.map (barrierEvent e b)
  else if blockOf e = b then EventContainer.parts e else []

/-- What is for pipe `p` of it. -/
def onPipe (b : ℕ) (p : PipeType) (e : SanEvent) : List SanEvent :=
  if isFinish e then [barrierEvent e b p]
  else if blockOf e = b ∧ e.pipe = p then EventContainer.parts e else []

/-- The program of pipe `p` of block `b`. -/
def prog (evs : List SanEvent) (b : ℕ) (p : PipeType) : List SanEvent := evs.flatMap (onPipe b p)

/-- The parts of an event are at its place, on its pipe and of its kind. -/
lemma mem_parts {e x : SanEvent} (h : x ∈ EventContainer.parts e) :
    x.loc = e.loc ∧ x.pipe = e.pipe ∧ isTime x = isTime e ∧ isFinish x = isFinish e ∧
      isWork x = isWork e ∧ EventContainer.parts x = [x] := by
  unfold EventContainer.parts at h
  cases hinfo : e.info with
  | mem info =>
    simp only [hinfo] at h
    split_ifs at h with hop
    · simp only [List.mem_cons, List.not_mem_nil, or_false] at h
      rcases h with rfl | rfl <;>
        simp [isTime, isFinish, isWork, hinfo, EventContainer.parts]
    · rw [List.mem_singleton.1 h]
      simp [EventContainer.parts, hinfo, hop]
  | _ =>
    simp only [hinfo] at h
    rw [List.mem_singleton.1 h]
    simp [EventContainer.parts, hinfo]

/-- The place that the events at the end of a kernel get is in their block. -/
lemma blockOf_barrierEvent (e : SanEvent) (b : ℕ) (p : PipeType) :
    blockOf (barrierEvent e b p) = b := by
  unfold blockOf barrierEvent CrossNpuRaceAlg.barrierLoc getEventExpandBlockIndexByLoc
  by_cases hb : b % c220MixSubBlockDim = 2
  · simp only [if_pos hb]
    rw [if_neg (by simp)]
    simp only [c220MixSubBlockDim, c220VecSubBlockDim] at hb ⊢
    omega
  · simp only [if_neg hb, if_true]
    simp only [c220MixSubBlockDim, c220VecSubBlockDim] at hb ⊢
    omega

lemma barrierEvent_loc (e : SanEvent) (b : ℕ) (p : PipeType) :
    (barrierEvent e b p).loc.deviceIdx = e.loc.deviceIdx ∧
      (barrierEvent e b p).loc.kernelIdx = e.loc.kernelIdx := by
  unfold barrierEvent CrossNpuRaceAlg.barrierLoc
  dsimp only
  split_ifs <;> exact ⟨rfl, rfl⟩

lemma filter_onBlock (b : ℕ) (p : PipeType) (e : SanEvent) :
    ((onBlock b e).filter fun x => decide (x.pipe = p)) = onPipe b p e := by
  unfold onBlock onPipe
  by_cases hf : isFinish e = true
  · rw [if_pos hf, if_pos hf]
    cases p <;> rfl
  · rw [if_neg hf, if_neg hf]
    by_cases hb : blockOf e = b
    · rw [if_pos hb]
      by_cases hp : e.pipe = p
      · rw [if_pos ⟨hb, hp⟩, List.filter_eq_self]
        exact fun x hx => decide_eq_true ((mem_parts hx).2.1.trans hp)
      · rw [if_neg fun h => hp h.2, List.filter_eq_nil_iff]
        exact fun x hx => by
          rw [decide_eq_true_eq, (mem_parts hx).2.1]
          exact hp
    · rw [if_neg hb, if_neg fun h => hb h.1, List.filter_nil]

/-! ## Order -/

/-- The stages of a device: the events of a kernel, then its end. -/
def stage (e : SanEvent) : ℕ := 2 * e.loc.kernelIdx + if isFinish e then 1 else 0

/-- Nothing of an earlier stage follows, and the end of a kernel is the last of its stage. -/
def Precedes (e e' : SanEvent) : Prop :=
  stage e ≤ stage e' ∧ (isFinish e = true → stage e < stage e')

lemma isFinish_of_isWork {e : SanEvent} (h : isWork e = true) : isFinish e = false := by
  unfold isWork isFinish at *
  cases hinfo : e.info <;> simp_all

lemma ofKernel_iff {d k : ℕ} {e : SanEvent} :
    ofKernel d k e = true ↔ isWork e = true ∧ e.loc.deviceIdx = d ∧ e.loc.kernelIdx = k := by
  simp [ofKernel, and_assoc]

lemma stage_ofKernel {d k : ℕ} {e : SanEvent} (h : ofKernel d k e = true) : stage e = 2 * k := by
  obtain ⟨hw, -, hk⟩ := ofKernel_iff.1 h
  rw [stage, hk, isFinish_of_isWork hw]
  rfl

lemma stage_finish {k : ℕ} {e : SanEvent} (h : isFinish e = true) (hk : e.loc.kernelIdx = k) :
    stage e = 2 * k + 1 := by
  rw [stage, hk, h]
  rfl

lemma stream_order (env : NpuEnv) (d : ℕ) (kernels : List KernelEvents) :
    ∀ k, (∀ i x, kernels[i]? = some x → Fits env d (k + i) x) →
      (stream kernels).Pairwise Precedes ∧ ∀ e ∈ stream kernels, 2 * k ≤ stage e := by
  induction kernels with
  | nil => exact fun k _ => ⟨List.Pairwise.nil, fun e he => absurd he List.not_mem_nil⟩
  | cons x xs ih =>
    intro k hfits
    have hx : Fits env d k x := hfits 0 x rfl
    obtain ⟨hpair, hstage⟩ := ih (k + 1) fun i y hy => by
      have := hfits (i + 1) y hy
      rwa [show k + (i + 1) = k + 1 + i by omega] at this
    have hwork (e : SanEvent) (he : e ∈ x.works) : isFinish e = false ∧ stage e = 2 * k :=
      ⟨isFinish_of_isWork (ofKernel_iff.1 (hx.work e he)).1, stage_ofKernel (hx.work e he)⟩
    have hfin := stage_finish hx.finish.1 hx.finish.2.2
    have hcons : stream (x :: xs) = x.works ++ x.finish :: stream xs := by
      rw [stream, List.flatMap_cons, List.append_assoc]
      rfl
    rw [hcons]
    refine ⟨List.pairwise_append.2 ⟨?_, List.pairwise_cons.2 ⟨fun e he => ?_, hpair⟩, ?_⟩,
      fun e he => ?_⟩
    · refine List.pairwise_of_forall_mem_list fun e he e' he' => ?_
      refine ⟨by rw [(hwork e he).2, (hwork e' he').2], fun hf => ?_⟩
      rw [(hwork e he).1] at hf
      cases hf
    · have hle := hstage e he
      exact ⟨by omega, fun _ => by omega⟩
    · intro e he e' he'
      refine ⟨?_, fun hf => ?_⟩
      · rw [(hwork e he).2]
        rcases List.mem_cons.1 he' with rfl | he'
        · omega
        · have := hstage e' he'
          omega
      · rw [(hwork e he).1] at hf
        cases hf
    · rcases List.mem_append.1 he with he | he
      · exact (hwork e he).2.ge
      · rcases List.mem_cons.1 he with rfl | he
        · omega
        · have := hstage e he
          omega

section Prog

variable {env : NpuEnv} (R : Recording env) {d b : ℕ} {p : PipeType}

def Recording.prog (d b : ℕ) (p : PipeType) : List SanEvent :=
  NpuReplay.prog (stream (R.kernels d)) b p

lemma stage_onPipe {e x : SanEvent} (h : x ∈ onPipe b p e) :
    stage x = stage e ∧ isFinish x = isFinish e := by
  unfold onPipe at h
  split_ifs at h with hf hb
  · rw [List.mem_singleton.1 h]
    have hfin : isFinish (barrierEvent e b p) = isFinish e := rfl
    rw [stage, (barrierEvent_loc e b p).2, hfin]
    exact ⟨rfl, rfl⟩
  · obtain ⟨hloc, -, -, hfin, -⟩ := mem_parts h
    rw [stage, hloc, hfin]
    exact ⟨rfl, rfl⟩
  · exact absurd h List.not_mem_nil

/-- The program of a pipe is in the order of the stages. -/
lemma Recording.prog_order : (R.prog d b p).Pairwise Precedes := by
  obtain ⟨hpair, -⟩ := stream_order env d (R.kernels d) 0 fun i x hx => by
    rw [Nat.zero_add]
    exact R.fits d i x hx
  refine List.pairwise_flatMap.2 ⟨fun e _ => ?_, hpair.imp fun {e e'} h x hx y hy => ?_⟩
  · unfold onPipe
    split_ifs with hf hb
    · exact List.pairwise_singleton _ _
    · refine List.pairwise_of_forall_mem_list fun x hx y hy => ?_
      obtain ⟨hlocx, -, -, hfinx, -⟩ := mem_parts hx
      obtain ⟨hlocy, -, -, hfiny, -⟩ := mem_parts hy
      refine ⟨by rw [stage, stage, hlocx, hlocy, hfinx, hfiny], fun h => ?_⟩
      rw [hfinx] at h
      exact absurd h hf
    · exact List.Pairwise.nil
  · rw [Precedes, (stage_onPipe hx).1, (stage_onPipe hx).2, (stage_onPipe hy).1]
    exact h

/-- Before the events of a kernel stands the end of the one before it, on every pipe. -/
lemma Recording.finish_mem {k : ℕ} {e : SanEvent} (he : e ∈ R.prog d b p)
    (hk : ofKernel d (k + 1) e = true) (b' : ℕ) (p' : PipeType) :
    ∃ f ∈ R.prog d b' p', isFinish f = true ∧ f.loc.deviceIdx = d ∧ f.loc.kernelIdx = k ∧
      blockOf f = b' ∧ f.pipe = p' := by
  obtain ⟨e0, he0, hx⟩ := List.mem_flatMap.1 he
  have hstage : stage e0 = 2 * (k + 1) := by
    rw [← (stage_onPipe hx).1, stage_ofKernel hk]
  have hnotfin : isFinish e0 = false := by
    rw [← (stage_onPipe hx).2]
    exact isFinish_of_isWork (ofKernel_iff.1 hk).1
  obtain ⟨x, hxmem, hex⟩ := List.mem_flatMap.1 he0
  obtain ⟨i, hi⟩ := List.getElem?_of_mem hxmem
  have hfits := R.fits d i x hi
  have hik : i = k + 1 := by
    rcases List.mem_append.1 hex with hw | hw
    · rw [stage_ofKernel (hfits.work e0 hw)] at hstage
      omega
    · rw [List.mem_singleton.1 hw, hfits.finish.1] at hnotfin
      cases hnotfin
  have hlt : k < (R.kernels d).length := by
    have := (List.getElem?_eq_some_iff.1 hi).1
    omega
  have hy := List.getElem?_eq_getElem hlt
  obtain ⟨hf, hd, hkk⟩ := (R.fits d k _ hy).finish
  refine ⟨barrierEvent ((R.kernels d)[k]).finish b' p', ?_, hf, ?_, ?_,
    blockOf_barrierEvent _ _ _, rfl⟩
  · refine List.mem_flatMap.2 ⟨((R.kernels d)[k]).finish, ?_, ?_⟩
    · exact List.mem_flatMap.2 ⟨(R.kernels d)[k], List.getElem_mem hlt,
        List.mem_append_right _ (List.mem_singleton_self _)⟩
    · rw [onPipe, if_pos hf]
      exact List.mem_singleton_self _
  · rw [(barrierEvent_loc _ _ _).1, hd]
  · rw [(barrierEvent_loc _ _ _).2, hkk]

end Prog

/-! ## The queues -/

/-- The index of the queue of pipe `p` of block `b` of device `d`, for `blockNum` blocks. -/
def que (blockNum d b : ℕ) (p : PipeType) : ℕ := d * blockNum * pipeSize + b * pipeSize + p.idx

lemma que_injective {N d b d' b' : ℕ} {p p' : PipeType} (hb : b < N) (hb' : b' < N)
    (h : que N d b p = que N d' b' p') : d = d' ∧ b = b' ∧ p = p' := by
  have hp := p.idx_lt
  have hp' := p'.idx_lt
  have hrow : (d * N + b) * pipeSize + p.idx = (d' * N + b') * pipeSize + p'.idx := by
    rw [Nat.add_mul, Nat.add_mul]
    exact h
  have hmod : p.idx = p'.idx := by
    have := congrArg (· % pipeSize) hrow
    simpa [Nat.add_mod, Nat.mod_eq_of_lt hp, Nat.mod_eq_of_lt hp'] using this
  have hdiv : d * N + b = d' * N + b' := by
    rw [hmod] at hrow
    exact Nat.eq_of_mul_eq_mul_right pipeSize_pos (Nat.add_right_cancel hrow)
  have hblock : b = b' := by
    have := congrArg (· % N) hdiv
    simpa [Nat.add_mod, Nat.mod_eq_of_lt hb, Nat.mod_eq_of_lt hb'] using this
  have hdev : d = d' := by
    rw [hblock] at hdiv
    exact Nat.eq_of_mul_eq_mul_right (lt_of_le_of_lt (Nat.zero_le _) hb)
      (Nat.add_right_cancel hdiv)
  exact ⟨hdev, hblock, PipeType.idx_injective hmod⟩

/-- The events that are left for pipe `p` of block `b`: those in its queue and those that the
scalar queue still has for it. -/
def left (N : ℕ) (ques : ℕ → List SanEvent) (d b : ℕ) (p : PipeType) : List SanEvent :=
  (if p = .s then [] else (ques (que N d b p)).filter (!isTime ·)) ++
    (ques (que N d b .s)).filter fun e => decide (e.pipe = p)

/-- An event in the queue of pipe `p` of block `b`. -/
structure Home (d b : ℕ) (p : PipeType) (e : SanEvent) : Prop where
  whole : EventContainer.parts e = [e]
  place : isTime e = false → e.loc.deviceIdx = d ∧ blockOf e = b
  scalar : p = .s → isTime e = false
  pipe : p ≠ .s → e.pipe = p
  time : ∀ t, e.info = .time (some t) → Wf t

/-- What has been executed and what is left. -/
structure Queued {env : NpuEnv} (R : Recording env) (ques : ℕ → List SanEvent)
    (os : List Offer) : Prop where
  home : ∀ d < env.devices.length, ∀ b < env.totalBlockNum, ∀ p,
    ∀ e ∈ ques (que env.totalBlockNum d b p), Home d b p e
  whole : ∀ d < env.devices.length, ∀ b < env.totalBlockNum, ∀ p,
    executed os d b p ++ left env.totalBlockNum ques d b p = R.prog d b p

section Queued

variable {env : NpuEnv} {R : Recording env} {ques : ℕ → List SanEvent} {os : List Offer}
  {d b : ℕ} {p : PipeType} {e : SanEvent} {rest : List SanEvent}

lemma Queued.stalled (h : Queued R ques os) {o : Offer} (ho : o.ok = false) :
    Queued R ques (os ++ [o]) := by
  refine ⟨h.home, fun d hd b hb p => ?_⟩
  rw [executed_concat, executed_stalled ho, List.append_nil]
  exact h.whole d hd b hb p

/-- An event goes from the scalar queue to the queue of its pipe, behind a time event. -/
lemma Queued.issued (h : Queued R ques os) (hd : d < env.devices.length)
    (hb : b < env.totalBlockNum) (hq : ques (que env.totalBlockNum d b .s) = e :: rest)
    (hp : e.pipe ≠ .s) (time : SanEvent) (htime : isTime time = true)
    (hpipe : time.pipe = e.pipe) (hparts : EventContainer.parts time = [time])
    (hwf : ∀ t, time.info = .time (some t) → Wf t) {ques' : ℕ → List SanEvent}
    (hques' : ∀ d' < env.devices.length, ∀ b' < env.totalBlockNum, ∀ p',
      ques' (que env.totalBlockNum d' b' p') =
        if d' = d ∧ b' = b ∧ p' = .s then rest
        else if d' = d ∧ b' = b ∧ p' = e.pipe then
          ques (que env.totalBlockNum d' b' p') ++ [time, e]
        else ques (que env.totalBlockNum d' b' p')) :
    Queued R ques' os := by
  have he : Home d b .s e := h.home d hd b hb .s e (by rw [hq]; exact List.mem_cons_self)
  have hnt := he.scalar rfl
  refine ⟨fun d' hd' b' hb' p' x hx => ?_, fun d' hd' b' hb' p' => ?_⟩
  · rw [hques' d' hd' b' hb' p'] at hx
    split_ifs at hx with hs hp'
    · obtain ⟨rfl, rfl, rfl⟩ := hs
      exact h.home d' hd' b' hb' .s x (by rw [hq]; exact List.mem_cons_of_mem _ hx)
    · obtain ⟨rfl, rfl, rfl⟩ := hp'
      rcases List.mem_append.1 hx with hx | hx
      · exact h.home d' hd' b' hb' _ x hx
      · simp only [List.mem_cons, List.not_mem_nil, or_false] at hx
        rcases hx with rfl | rfl
        · refine ⟨hparts, fun hf => ?_, fun hs => absurd hs hp, fun _ => hpipe, hwf⟩
          rw [htime] at hf
          cases hf
        · exact ⟨he.whole, he.place, fun hs => absurd hs hp, fun _ => rfl, he.time⟩
    · exact h.home d' hd' b' hb' p' x hx
  · rw [← h.whole d' hd' b' hb' p']
    congr 1
    rw [left, left, hques' d' hd' b' hb' p', hques' d' hd' b' hb' .s]
    by_cases hdb : d' = d ∧ b' = b
    · obtain ⟨rfl, rfl⟩ := hdb
      rw [if_pos (show d' = d' ∧ b' = b' ∧ PipeType.s = .s from ⟨rfl, rfl, rfl⟩), hq]
      by_cases hpe : p' = e.pipe
      · subst hpe
        rw [if_neg hp, if_neg fun hc => hp hc.2.2, if_pos ⟨rfl, rfl, rfl⟩, if_neg hp,
          List.filter_append, List.filter_cons_of_neg (by simp [htime]),
          List.filter_cons_of_pos (by simp [hnt]), List.filter_nil,
          List.filter_cons_of_pos (by simp), List.append_assoc, List.singleton_append]
      · have hfilter : ((e :: rest).filter fun x => decide (x.pipe = p')) =
            rest.filter fun x => decide (x.pipe = p') :=
          List.filter_cons_of_neg (by simpa using Ne.symm hpe)
        rw [hfilter]
        by_cases hps : p' = .s
        · rw [if_pos hps, if_pos hps]
        · rw [if_neg hps, if_neg hps, if_neg fun hc => hps hc.2.2, if_neg fun hc => hpe hc.2.2]
    · have hne (q : PipeType) : ¬ (d' = d ∧ b' = b ∧ q = PipeType.s) :=
        fun hc => hdb ⟨hc.1, hc.2.1⟩
      have hne' (q : PipeType) : ¬ (d' = d ∧ b' = b ∧ q = e.pipe) :=
        fun hc => hdb ⟨hc.1, hc.2.1⟩
      rw [if_neg (hne p'), if_neg (hne' p'), if_neg (hne .s), if_neg (hne' .s)]

lemma Queued.processed (h : Queued R ques os) (hd : d < env.devices.length)
    (hb : b < env.totalBlockNum) (hq : ques (que env.totalBlockNum d b p) = e :: rest)
    (hp : e.pipe = p) {o : Offer} (hev : o.event = e) (hok : o.ok = true)
    {ques' : ℕ → List SanEvent}
    (hques' : ∀ d' < env.devices.length, ∀ b' < env.totalBlockNum, ∀ p',
      ques' (que env.totalBlockNum d' b' p') =
        if d' = d ∧ b' = b ∧ p' = p then rest else ques (que env.totalBlockNum d' b' p')) :
    Queued R ques' (os ++ [o]) := by
  have he : Home d b p e := h.home d hd b hb p e (by rw [hq]; exact List.mem_cons_self)
  refine ⟨fun d' hd' b' hb' p' x hx => ?_, fun d' hd' b' hb' p' => ?_⟩
  · rw [hques' d' hd' b' hb' p'] at hx
    split_ifs at hx with hc
    · obtain ⟨rfl, rfl, rfl⟩ := hc
      exact h.home d' hd' b' hb' _ x (by rw [hq]; exact List.mem_cons_of_mem _ hx)
    · exact h.home d' hd' b' hb' p' x hx
  · rw [← h.whole d' hd' b' hb' p', executed_concat, executed_single hok, hev, List.append_assoc]
    congr 1
    rw [left, left, hques' d' hd' b' hb' p', hques' d' hd' b' hb' .s]
    by_cases hdb : d' = d ∧ b' = b
    · obtain ⟨rfl, rfl⟩ := hdb
      simp only [true_and]
      cases ht : isTime e with
      | true =>
        have hps : p ≠ .s := fun hc => by
          rw [he.scalar hc] at ht
          cases ht
        rw [if_neg (by simp), List.nil_append, if_neg (Ne.symm hps)]
        by_cases hpp : p' = p
        · rw [hpp, if_neg hps, if_neg hps, if_pos rfl, hq,
            List.filter_cons_of_neg (by simp [ht])]
        · rw [if_neg hpp]
      | false =>
        obtain ⟨hdev, hblock⟩ := he.place ht
        by_cases hpp : p' = p
        · subst hpp
          rw [if_pos ⟨rfl, hdev, hblock, hp⟩]
          by_cases hps : p' = .s
          · subst hps
            rw [if_pos rfl, if_pos rfl, if_pos rfl, hq, List.filter_cons_of_pos (by simp [hp])]
            rfl
          · rw [if_neg hps, if_neg hps, if_pos rfl, if_neg (Ne.symm hps), hq,
              List.filter_cons_of_pos (by simp [ht])]
            rfl
        · rw [if_neg fun hc => hpp (hc.2.2.2.symm.trans hp), List.nil_append, if_neg hpp]
          congr 1
          split_ifs with hs
          · rw [hs, hq, List.filter_cons_of_neg (by simpa [hp] using Ne.symm hpp)]
          · rfl
    · have hne (q : PipeType) : ¬ (d' = d ∧ b' = b ∧ q = p) := fun hc => hdb ⟨hc.1, hc.2.1⟩
      rw [if_neg (hne p'), if_neg (hne .s), if_neg, List.nil_append]
      rintro ⟨ht, h1, h2, -⟩
      obtain ⟨hdev, hblock⟩ := he.place ht
      exact hdb ⟨h1.symm.trans hdev, h2.symm.trans hblock⟩

end Queued

/-! ## Rounds of the loop -/

lemma PipeType.exists_idx {i : ℕ} (h : i < pipeSize) : ∃ p : PipeType, p.idx = i := by
  have hall : ∀ j : Fin pipeSize, ∃ p ∈ CrossNpuRaceAlg.barrierPipes, p.idx = j := by decide
  obtain ⟨p, -, hp⟩ := hall ⟨i, h⟩
  exact ⟨p, hp⟩

/-- The loop is at the queue of pipe `p` of block `b` of device `d`. -/
structure IsAt (env : NpuEnv) (c : EventContainer) (d b : ℕ) (p : PipeType) : Prop where
  blocks : c.maxBlockNum = env.totalBlockNum
  devices : c.deviceNum = env.devices.length
  device : c.deviceIndex = d
  block : c.blockIndex = b
  pipe : c.pipeIndex = p.idx
  device_lt : d < env.devices.length
  block_lt : b < env.totalBlockNum

section Rounds

variable {env : NpuEnv} {R : Recording env} {c : EventContainer} {a : CrossNpuRaceAlg}
  {os : List Offer} {d b : ℕ} {p : PipeType} {e : SanEvent} {rest : List SanEvent}

lemma IsAt.getQueIndex (h : IsAt env c d b p) : c.getQueIndex = que env.totalBlockNum d b p := by
  rw [EventContainer.getQueIndex, EventContainer.flattenPipeIdx, h.blocks, h.device, h.block,
    h.pipe]
  rfl

lemma IsAt.getQueIndex_eq (h : IsAt env c d b p) {d' b' : ℕ} {p' : PipeType}
    (hb' : b' < env.totalBlockNum) :
    que env.totalBlockNum d' b' p' = c.getQueIndex ↔ d' = d ∧ b' = b ∧ p' = p := by
  rw [h.getQueIndex]
  refine ⟨que_injective hb' h.block_lt, ?_⟩
  rintro ⟨rfl, rfl, rfl⟩
  rfl

/-- An event that is not on its own pipe is on the scalar pipe. -/
lemma Queued.scalar_of_ne (h : Queued R c.ques os) (hat : IsAt env c d b p)
    (hq : c.ques c.getQueIndex = e :: rest) (hne : c.pipeIndex ≠ e.pipe.idx) :
    p = .s ∧ e.pipe ≠ .s := by
  have he : Home d b p e := h.home d hat.device_lt b hat.block_lt p e (by
    rw [← hat.getQueIndex, hq]
    exact List.mem_cons_self)
  have hs : p = .s := by
    by_contra hs
    exact hne (by rw [hat.pipe, he.pipe hs])
  refine ⟨hs, fun hc => hne ?_⟩
  rw [hat.pipe, hs, hc]

lemma Queued.offer_issue (h : Queued R c.ques os) (hat : IsAt env c d b p)
    (hq : c.ques c.getQueIndex = e :: rest) (hne : c.pipeIndex ≠ e.pipe.idx)
    (hvc : ∀ q, Wf (a.vc q)) :
    Queued R (afterOffer c (CrossNpuRaceAlg.processEvent env c a e)).ques os := by
  obtain ⟨rfl, hp⟩ := h.scalar_of_ne hat hq hne
  have hque := hat.getQueIndex
  rw [hque] at hq
  have he : Home d b .s e :=
    h.home d hat.device_lt b hat.block_lt .s e (by rw [hq]; exact List.mem_cons_self)
  obtain ⟨hdev, hblock⟩ := he.place (he.scalar rfl)
  refine h.issued hat.device_lt hat.block_lt hq hp
    (CrossCoreRaceAlg.timeEventOf e (updateLogicTime (a.vc c.getQueIndex) c.getQueIndex))
    rfl rfl rfl (fun t ht => ?_) fun d' hd' b' hb' p' => ?_
  · cases ht
    exact (hvc _).updateLogicTime _
  · have htarget (x : SanEvent) : c.target (Push.mk x e.pipe (getEventExpandBlockIndexByLoc e.loc)
        e.loc.deviceIdx) = some (que env.totalBlockNum d b e.pipe) := by
      rw [EventContainer.target, if_neg]
      · rw [EventContainer.flattenPipeIdx, hat.blocks, hdev]
        exact congrArg (fun b => some (que env.totalBlockNum d b e.pipe)) hblock
      · rw [hat.blocks, hat.devices, hdev, not_or, not_le, not_le]
        exact ⟨lt_of_eq_of_lt hblock hat.block_lt, hat.device_lt⟩
    rw [afterOffer_ques]
    simp only [CrossNpuRaceAlg.processEvent, if_pos hne, true_and,
      EventContainer.foldl_push_ques, List.filter_cons, htarget, Option.some_inj,
      List.filter_nil, hat.getQueIndex_eq hb']
    have htimeparts : EventContainer.parts (CrossCoreRaceAlg.timeEventOf e
        (updateLogicTime (a.vc c.getQueIndex) c.getQueIndex)) =
          [CrossCoreRaceAlg.timeEventOf e
            (updateLogicTime (a.vc c.getQueIndex) c.getQueIndex)] := rfl
    by_cases hcur : d' = d ∧ b' = b ∧ p' = .s
    · obtain ⟨rfl, rfl, rfl⟩ := hcur
      have hne' : ¬ que env.totalBlockNum d' b' e.pipe = que env.totalBlockNum d' b' .s :=
        fun hc => hp (que_injective hb' hb' hc).2.2
      simp [hne', hq]
    · rw [if_neg hcur, if_neg hcur]
      by_cases htar : d' = d ∧ b' = b ∧ p' = e.pipe
      · obtain ⟨rfl, rfl, rfl⟩ := htar
        simp [he.whole, htimeparts]
      · have hne' : ¬ que env.totalBlockNum d b e.pipe = que env.totalBlockNum d' b' p' := by
          intro hc
          obtain ⟨h1, h2, h3⟩ := que_injective hat.block_lt hb' hc
          exact htar ⟨h1.symm, h2.symm, h3.symm⟩
        rw [if_neg htar]
        simp [hne']

lemma Queued.offer_process (h : Queued R c.ques os) (hat : IsAt env c d b p)
    (hq : c.ques c.getQueIndex = e :: rest) (hp : c.pipeIndex = e.pipe.idx) {o : Offer}
    (hev : o.event = e)
    (hok : o.ok = decide ((CrossNpuRaceAlg.processEvent env c a e).ret = .processOk)) :
    Queued R (afterOffer c (CrossNpuRaceAlg.processEvent env c a e)).ques (os ++ [o]) := by
  have hpipe : e.pipe = p := PipeType.idx_injective (by rw [← hp, hat.pipe])
  have hpushes : (CrossNpuRaceAlg.processEvent env c a e).pushes = [] := by
    rw [CrossNpuRaceAlg.processEvent, if_neg (by simpa using hp)]
  by_cases hret : (CrossNpuRaceAlg.processEvent env c a e).ret = .processOk
  · rw [hat.getQueIndex] at hq
    refine h.processed hat.device_lt hat.block_lt hq hpipe hev
      (by rw [hok]; exact decide_eq_true hret) fun d' hd' b' hb' p' => ?_
    rw [afterOffer_ques, hpushes, List.foldl_nil]
    simp only [hret, true_and, hat.getQueIndex_eq hb']
    split_ifs with hcur
    · obtain ⟨rfl, rfl, rfl⟩ := hcur
      rw [hq, List.tail_cons]
    · rfl
  · have hques : (afterOffer c (CrossNpuRaceAlg.processEvent env c a e)).ques = c.ques := by
      funext q
      rw [afterOffer_ques, hpushes, List.foldl_nil, if_neg fun hc => hret hc.1]
    rw [hques]
    exact h.stalled (by rw [hok]; exact decide_eq_false hret)

end Rounds

/-! ## The start -/

section Start

variable {env : NpuEnv} {d b : ℕ} {p : PipeType}

lemma target_init (hd : d < env.devices.length) (hb : b < env.totalBlockNum) (x : Push) :
    (EventContainer.init env.totalBlockNum env.devices.length).target x =
        some (que env.totalBlockNum d b p) ↔
      x.deviceIdx = d ∧ x.blockIdx = b ∧ x.pipe = p := by
  rw [EventContainer.target]
  constructor
  · intro h
    split_ifs at h with hout
    rw [not_or, not_le, not_le] at hout
    exact que_injective hout.1 hb (Option.some_inj.1 h)
  · rintro ⟨rfl, rfl, rfl⟩
    rw [if_neg (by rw [not_or, not_le, not_le]; exact ⟨hb, hd⟩)]
    rfl

lemma flatMap_range_single {α : Type} (f : ℕ → List α) (n i : ℕ) :
    ((List.range n).flatMap fun j => if j = i then f j else []) = if i < n then f i else [] := by
  induction n with
  | zero => rfl
  | succ n ih =>
    rw [List.range_succ, List.flatMap_append, ih, List.flatMap_singleton]
    by_cases hi : n = i
    · rw [if_pos hi, hi, if_neg (lt_irrefl i), if_pos (Nat.lt_succ_self i), List.nil_append]
    · rw [if_neg hi, List.append_nil]
      by_cases hlt : i < n
      · rw [if_pos hlt, if_pos (by omega)]
      · rw [if_neg hlt, if_neg (by omega)]

lemma doPushes_flatMap (hd : d < env.devices.length) (hb : b < env.totalBlockNum) {e : SanEvent}
    (he : isWork e = true ∨ isFinish e = true) :
    (((CrossNpuRaceAlg.doPushes env e).filter fun x =>
      decide ((EventContainer.init env.totalBlockNum env.devices.length).target x =
        some (que env.totalBlockNum d b p))).flatMap fun x => EventContainer.parts x.event) =
      if e.loc.deviceIdx = d ∧ p = .s then onBlock b e else [] := by
  simp only [target_init hd hb]
  rcases he with hwork | hfin
  · have hpush : CrossNpuRaceAlg.doPushes env e =
        [Push.mk e .s (blockOf e) e.loc.deviceIdx] := by
      unfold isWork at hwork
      unfold CrossNpuRaceAlg.doPushes
      cases hinfo : e.info <;> simp_all [blockOf]
    rw [hpush, List.filter_singleton, onBlock, isFinish_of_isWork hwork]
    by_cases hc : e.loc.deviceIdx = d ∧ p = .s
    · rw [if_pos hc]
      by_cases hblock : blockOf e = b
      · simp [hc.1, hc.2, hblock]
      · simp [hblock]
    · rw [if_neg hc]
      have hne : ¬ (e.loc.deviceIdx = d ∧ blockOf e = b ∧ PipeType.s = p) :=
        fun h => hc ⟨h.1, h.2.2.symm⟩
      simp [hne]
  · have hpush : CrossNpuRaceAlg.doPushes env e =
        (List.range env.totalBlockNum).flatMap fun i => CrossNpuRaceAlg.barrierPipes.map fun q =>
          Push.mk (barrierEvent e i q) .s i e.loc.deviceIdx := by
      unfold isFinish at hfin
      unfold CrossNpuRaceAlg.doPushes
      split at hfin
      · rename_i hinfo
        rw [hinfo]
        rfl
      · cases hfin
    have hparts (i : ℕ) (q : PipeType) :
        EventContainer.parts (barrierEvent e i q) = [barrierEvent e i q] := by
      unfold isFinish at hfin
      split at hfin
      · rename_i hinfo
        simp [EventContainer.parts, barrierEvent, hinfo]
      · cases hfin
    have hone (i : ℕ) : (((CrossNpuRaceAlg.barrierPipes.map fun q =>
        Push.mk (barrierEvent e i q) .s i e.loc.deviceIdx).filter fun x =>
          decide (x.deviceIdx = d ∧ x.blockIdx = b ∧ x.pipe = p)).flatMap
            fun x => EventContainer.parts x.event) =
          if i = b then if e.loc.deviceIdx = d ∧ p = .s then
            CrossNpuRaceAlg.barrierPipes.map (barrierEvent e i) else [] else [] := by
      rw [List.filter_map, List.flatMap_map]
      by_cases hc : i = b ∧ e.loc.deviceIdx = d ∧ p = .s
      · obtain ⟨rfl, rfl, rfl⟩ := hc
        rw [if_pos rfl, if_pos ⟨rfl, rfl⟩, List.filter_eq_self.2 (by simp)]
        simp only [hparts]
        rfl
      · rw [List.filter_eq_nil_iff.2]
        · by_cases hi : i = b
          · rw [if_pos hi, if_neg fun h => hc ⟨hi, h⟩]
            rfl
          · rw [if_neg hi]
            rfl
        · intro q _
          simp only [Function.comp_def, decide_eq_true_eq]
          exact fun h => hc ⟨h.2.1, h.1, h.2.2.symm⟩
    rw [hpush, List.filter_flatMap, List.flatMap_assoc]
    simp only [hone]
    rw [flatMap_range_single, if_pos hb, onBlock, if_pos hfin]

lemma flatMap_ite {α β : Type} (l : List α) (q : α → Prop) [DecidablePred q] (f : α → List β) :
    (l.flatMap fun x => if q x then f x else []) = (l.filter fun x => decide (q x)).flatMap f := by
  induction l with
  | nil => rfl
  | cons x l ih =>
    rw [List.flatMap_cons, ih]
    by_cases hx : q x
    · rw [if_pos hx, List.filter_cons_of_pos (by simpa using hx), List.flatMap_cons]
    · rw [if_neg hx, List.filter_cons_of_neg (by simpa using hx), List.nil_append]

variable {R : Recording env} {events : List SanEvent}

/-- The events of a recording are those of cores and the ends of kernels. -/
lemma Recording.kind (hR : R.Interleaves events) {e : SanEvent} (he : e ∈ events) :
    isWork e = true ∨ isFinish e = true := by
  have hmem : e ∈ stream (R.kernels e.loc.deviceIdx) := by
    rw [← hR]
    exact List.mem_filter.2 ⟨he, decide_eq_true rfl⟩
  obtain ⟨x, hx, hex⟩ := List.mem_flatMap.1 hmem
  obtain ⟨k, hk⟩ := List.getElem?_of_mem hx
  have hfits := R.fits _ k x hk
  rcases List.mem_append.1 hex with hw | hw
  · exact .inl (ofKernel_iff.1 (hfits.work e hw)).1
  · rw [List.mem_singleton.1 hw]
    exact .inr hfits.finish.1

lemma start_ques (hR : R.Interleaves events) (hd : d < env.devices.length)
    (hb : b < env.totalBlockNum) :
    (npuReplay env events 0).events.ques (que env.totalBlockNum d b p) =
      if p = .s then (stream (R.kernels d)).flatMap (onBlock b) else [] := by
  have hstart : (npuReplay env events 0).events.ques (que env.totalBlockNum d b p) =
      events.flatMap fun e => if e.loc.deviceIdx = d ∧ p = .s then onBlock b e else [] := by
    have hpush := EventContainer.foldl_push_ques (events.flatMap (CrossNpuRaceAlg.doPushes env))
      (.init env.totalBlockNum env.devices.length) (que env.totalBlockNum d b p)
    refine hpush.trans ?_
    rw [List.filter_flatMap, List.flatMap_assoc]
    refine (List.nil_append _).trans (List.flatMap_congr fun e he => ?_)
    exact doPushes_flatMap hd hb (Recording.kind hR he)
  rw [hstart]
  by_cases hp : p = .s
  · simp only [hp, and_true, if_true]
    rw [flatMap_ite, hR]
  · simp [hp]

lemma queued_start (hR : R.Interleaves events) :
    Queued R (npuReplay env events 0).events.ques [] := by
  refine ⟨fun d hd b hb p e he => ?_, fun d hd b hb p => ?_⟩
  · rw [start_ques hR hd hb] at he
    by_cases hp : p = .s
    · rw [if_pos hp] at he
      obtain ⟨e0, he0, hx⟩ := List.mem_flatMap.1 he
      rw [← hR] at he0
      obtain ⟨hmem, hdev⟩ := List.mem_filter.1 he0
      rw [decide_eq_true_eq] at hdev
      unfold onBlock at hx
      split_ifs at hx with hf hblock
      · obtain ⟨q, -, rfl⟩ := List.mem_map.1 hx
        have htime : isTime (barrierEvent e0 b q) = false ∧
            EventContainer.parts (barrierEvent e0 b q) = [barrierEvent e0 b q] := by
          unfold isFinish at hf
          split at hf
          · rename_i hinfo
            simp [isTime, EventContainer.parts, barrierEvent, hinfo]
          · cases hf
        refine ⟨htime.2, fun _ => ⟨?_, blockOf_barrierEvent _ _ _⟩, fun _ => htime.1,
          fun hne => absurd hp hne, fun t ht => ?_⟩
        · rw [(barrierEvent_loc _ _ _).1, hdev]
        · have hnot := htime.1
          unfold isTime at hnot
          rw [ht] at hnot
          cases hnot
      · obtain ⟨hloc, -, htime, -, -, hparts⟩ := mem_parts hx
        have hnot : isTime e0 = false := by
          rcases Recording.kind hR hmem with hw | hf'
          · unfold isWork at hw
            unfold isTime
            cases hinfo : e0.info <;> simp_all
          · exact absurd hf' hf
        refine ⟨hparts, fun _ => ⟨by rw [hloc, hdev], ?_⟩, fun _ => by rw [htime, hnot],
          fun hne => absurd hp hne, fun t ht => ?_⟩
        · rw [blockOf, hloc]
          exact hblock
        · rw [hnot] at htime
          unfold isTime at htime
          rw [ht] at htime
          cases htime
      · exact absurd hx List.not_mem_nil
    · rw [if_neg hp] at he
      exact absurd he List.not_mem_nil
  · rw [left, start_ques hR hd hb, start_ques hR hd hb, if_pos rfl, List.filter_flatMap]
    simp only [filter_onBlock]
    by_cases hp : p = .s
    · rw [if_pos hp]
      rfl
    · rw [if_neg hp, if_neg hp]
      rfl

end Start

end MsSanitizer.NpuReplay
