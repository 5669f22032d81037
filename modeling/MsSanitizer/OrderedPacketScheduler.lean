import Mathlib.Data.List.TakeWhile
import MsSanitizer.PacketDependencies
import MsSanitizer.ReorderBuffer

/-!
# Packets in the order of their numbers

The queues of `ordered_packet_scheduler.cpp`. The threads that receive packets submit them under
a lock; for every process one thread takes the packet whose number is due, also under the lock,
and then executes it, for which it may have to wait. A run of the scheduler is a list of these
steps in any order. The numbers are natural numbers here: 2 ^ 64 of them are not used up. The
callbacks do not throw.
-/

namespace MsSanitizer.OrderedPacketScheduler

open Packets RecordDefs ReorderBuffer PacketDependencies

/-- `ProcessQueue`: of its buffer, `pendingJobMap_` is `pending`, `nextOrderId_` is `next`, and
`released` are the jobs that the loop of `Run` took. -/
structure ProcessQueue where
  jobs : Buffer Job := {}
  closing : Bool := false
  /-- The loop of `Run` was left. -/
  exited : Bool := false
  /-- The job that `Execute` is busy with, and the answer of `ipcUpdates_` to it. -/
  current : Option (Job × List ℕ) := none
  state : State := {}
  /-- The jobs that `Execute` returned from. It called `dispatch_` if no text of `Fail` is here. -/
  executed : List (Job × Option String) := []

/-- `ProcessQueue::Submit`, with the text of `Fail`. -/
def ProcessQueue.submit (q : ProcessQueue) (job : Job) : ProcessQueue × Option String :=
  match q.jobs.offer job.orderId job with
  | none => (q, some "invalid or duplicate orderId")
  | some jobs => ({ q with jobs := jobs }, none)

/-- The head of the loop of `Run`. If the number that is due is not there the thread stays in
its wait, or leaves the loop when the queue is closing. -/
def ProcessQueue.runOnce (q : ProcessQueue) (sharees : List ℕ) : ProcessQueue × Option String :=
  if q.exited || q.current.isSome then (q, none)
  else
    match q.jobs.release with
    | some jobs =>
      ({ q with
          jobs := jobs
          current := (q.jobs.pending.lookup q.jobs.next).map fun job => (job, sharees) },
        none)
    | none =>
      if q.closing then
        ({ q with exited := true },
          if q.jobs.pending.isEmpty then none else some "missing orderId or unconsumed packet")
      else (q, none)

/-- The rest of the loop, which is one call of `Execute`; `none` while it waits. -/
def ProcessQueue.execute (q : ProcessQueue) (pid : ℤ) : Option (ProcessQueue × Option String) :=
  q.current.bind fun (job, sharees) =>
    (q.state.execute job sharees pid).map fun (state, fail) =>
      ({ q with state := state, current := none, executed := q.executed ++ [(job, fail)] }, fail)

/-- The checker of a device takes the next marker out of its queue. -/
def ProcessQueue.check (q : ProcessQueue) (pid d : ℤ) : Option ProcessQueue :=
  (PacketDependencies.step pid q.state (.finish d)).map fun state => { q with state := state }

/-- `OrderedPacketScheduler`. A process without an entry in `processesQueueMap_` has the queue
it would be given at its first packet. -/
structure Scheduler where
  queues : ℤ → ProcessQueue := fun _ => {}
  closed : Bool := false

inductive Action
  /-- A receiving thread calls `Submit`. -/
  | submit (job : Job)
  /-- The thread of the process is at the head of its loop. -/
  | runOnce (pid : ℤ) (sharees : List ℕ)
  /-- The thread of the process is in `Execute`. -/
  | execute (pid : ℤ)
  /-- The checker of a device of the process goes on. -/
  | check (pid d : ℤ)
  /-- `Finish` sets `closed_`. -/
  | finish
  /-- `Finish` goes on to the queue of a process. -/
  | close (pid : ℤ)

def Scheduler.set (s : Scheduler) (pid : ℤ) (q : ProcessQueue) : Scheduler :=
  { s with queues := Function.update s.queues pid q }

def Scheduler.step (s : Scheduler) : Action → Scheduler × Option String
  | .submit job =>
    if s.closed then (s, some "Packet received after ordered scheduler closed.")
    else
      let (q, fail) := (s.queues job.pid).submit job
      (s.set job.pid q, fail)
  | .runOnce pid sharees =>
    let (q, fail) := (s.queues pid).runOnce sharees
    (s.set pid q, fail)
  | .execute pid =>
    match (s.queues pid).execute pid with
    | some (q, fail) => (s.set pid q, fail)
    | none => (s, none)
  | .check pid d =>
    match (s.queues pid).check pid d with
    | some q => (s.set pid q, none)
    | none => (s, none)
  | .finish => ({ s with closed := true }, none)
  | .close pid =>
    if s.closed then (s.set pid { s.queues pid with closing := true }, none) else (s, none)

def run (acts : List Action) : Scheduler := acts.foldl (fun s a => (s.step a).1) {}

/-- The jobs of a process that its thread took, in the order it did. -/
def Scheduler.taken (s : Scheduler) (pid : ℤ) : List Job :=
  (s.queues pid).jobs.released.map Prod.snd

/-- The jobs of a process that were handed to `dispatch_`. -/
def Scheduler.dispatched (s : Scheduler) (pid : ℤ) : List Job :=
  ((s.queues pid).executed.filter fun e => e.2.isNone).map Prod.fst

/-- The numbers of the jobs of a process that wait. -/
def Scheduler.pendingIds (s : Scheduler) (pid : ℤ) : List ℕ :=
  (s.queues pid).jobs.pending.map Prod.fst

/-! ### What the run of a process says -/

/-- `Finish` is the end of the submissions. -/
def Action.isFinish : Action → Bool
  | .finish => true
  | _ => false

def Action.jobOf (pid : ℤ) : Action → Option Job
  | .submit job => if job.pid = pid then some job else none
  | _ => none

/-- The jobs submitted for a process before `Finish`. -/
def submitted (acts : List Action) (pid : ℤ) : List Job :=
  (acts.takeWhile fun a => !a.isFinish).filterMap (Action.jobOf pid)

def offers (acts : List Action) (pid : ℤ) : List (ℕ × Job) :=
  (submitted acts pid).map fun job => (job.orderId, job)

def connect (devices : ℕ → ℤ) (job : Job) : ℕ → ℤ :=
  match job.packet.payload with
  | .deviceSummary d => if d < 0 then devices else Function.update devices job.connection d
  | _ => devices

/-- Why a job is not dispatched: a summary without a device, or a record about authorisations
that does not fit the device of its connection. -/
def refusal (devices : ℕ → ℤ) (job : Job) : Option String :=
  match job.packet.payload with
  | .deviceSummary d => if d < 0 then some "invalid deviceId" else none
  | .peerAccessRecord record =>
    if State.invalidRecord (devices job.connection) record then
      some "invalid peer access record"
    else none
  | _ => none

/-- Jobs with the devices of the connections that they find. -/
def outcomes : (ℕ → ℤ) → List Job → List (Job × Option String)
  | _, [] => []
  | devices, job :: rest => (job, refusal devices job) :: outcomes (connect devices job) rest

/-- The jobs of a list that are dispatched when all are executed. -/
def accepted (jobs : List Job) : List Job :=
  ((outcomes (fun _ => 0) jobs).filter fun e => e.2.isNone).map Prod.fst

/-- What holds of the queue of a process after the steps made so far. -/
structure QueueInv (hist : List (ℕ × Job)) (closed : Bool) (pid : ℤ) (q : ProcessQueue) : Prop where
  follows : Follows hist q.jobs
  closing : q.closing = true → closed = true
  exited : q.exited = true → closed = true ∧ q.jobs.pending.lookup q.jobs.next = none
  taken : q.jobs.released.map Prod.snd =
    q.executed.map Prod.fst ++ (q.current.map Prod.fst).toList
  outcomes : q.executed = outcomes (fun _ => 0) (q.executed.map Prod.fst)
  contexts : q.state.contexts = (q.executed.map Prod.fst).foldl connect fun _ => 0
  reached : ∃ steps, PacketDependencies.run pid {} steps = some q.state

/-! ### One call of `Execute` -/

lemma outcomes_concat (devices : ℕ → ℤ) (jobs : List Job) (job : Job) :
    outcomes devices (jobs ++ [job]) =
      outcomes devices jobs ++ [(job, refusal (jobs.foldl connect devices) job)] := by
  induction jobs generalizing devices with
  | nil => rfl
  | cons a jobs ih => simp only [List.cons_append, outcomes, ih, List.foldl_cons]

lemma connect_nonneg {devices : ℕ → ℤ} (h : ∀ c, 0 ≤ devices c) (job : Job) (c : ℕ) :
    0 ≤ connect devices job c := by
  unfold connect
  cases job.packet.payload with
  | deviceSummary d =>
    by_cases hd : d < 0
    · simpa [hd] using h c
    · by_cases hc : c = job.connection
      · subst hc
        simp only [hd, if_false, Function.update_self]
        omega
      · simpa [hd, hc] using h c
  | _ => exact h c

lemma foldl_connect_nonneg {devices : ℕ → ℤ} (h : ∀ c, 0 ≤ devices c) (jobs : List Job) :
    ∀ c, 0 ≤ jobs.foldl connect devices c := by
  induction jobs generalizing devices with
  | nil => exact h
  | cons job jobs ih => exact ih (connect_nonneg h job)

/-- A call that returns refuses its job or connects what it names. -/
lemma execute_outcome {s s' : State} {job : Job} {sharees : List ℕ} {pid : ℤ}
    {fail : Option String} (hs : ∀ c, 0 ≤ s.contexts c)
    (h : s.execute job sharees pid = some (s', fail)) :
    fail = refusal s.contexts job ∧ s'.contexts = connect s.contexts job := by
  unfold State.execute at h
  unfold refusal connect
  have hcon := hs job.connection
  cases hp : job.packet.payload with
  | deviceSummary d =>
    simp only [hp, State.device] at h
    split_ifs at h with hneg hpass
    · cases h
      simp [hneg]
    · cases h
      simp [hneg, State.complete, State.relate, State.dispatch, hp]
  | peerAccessRecord record =>
    simp only [hp, State.device] at h
    rw [if_neg (by omega)] at h
    split_ifs at h with hinv hpass
    · cases h
      simp [hinv]
    · cases h
      refine ⟨by simp [hinv], ?_⟩
      simp only [State.complete, State.relate, State.dispatch, hp]
      split_ifs <;> rfl
  | logString =>
    simp only [hp] at h
    cases h
    simp
  | _ =>
    simp only [hp, State.device] at h
    rw [if_neg (by omega)] at h
    split_ifs at h with hpass
    cases h
    simp [State.complete, State.relate, State.dispatch, hp]

/-! ### One queue -/

lemma submit_jobs (q : ProcessQueue) (job : Job) :
    (q.submit job).1 = { q with jobs := (q.jobs.offer job.orderId job).getD q.jobs } := by
  unfold ProcessQueue.submit
  cases q.jobs.offer job.orderId job with
  | none => rfl
  | some jobs => rfl

lemma runOnce_cases (q : ProcessQueue) (sharees : List ℕ) :
    (q.exited = false ∧ q.current = none ∧ ∃ jobs job, q.jobs.release = some jobs ∧
      q.jobs.pending.lookup q.jobs.next = some job ∧
      (q.runOnce sharees).1 = { q with jobs := jobs, current := some (job, sharees) }) ∨
    (q.exited = false ∧ q.current = none ∧ q.jobs.release = none ∧ q.closing = true ∧
      (q.runOnce sharees).1 = { q with exited := true }) ∨
    ((q.exited = true ∨ q.current.isSome ∨ q.jobs.release = none) ∧
      (q.runOnce sharees).1 = q) := by
  unfold ProcessQueue.runOnce
  by_cases he : (q.exited || q.current.isSome) = true
  · rw [if_pos he]
    refine .inr (.inr ⟨?_, rfl⟩)
    exact (Bool.or_eq_true_iff.1 he).imp_right .inl
  · rw [if_neg he]
    obtain ⟨hex, hcur⟩ : q.exited = false ∧ q.current = none := by simpa using he
    cases hr : q.jobs.release with
    | some jobs =>
      obtain ⟨job, hjob, -⟩ := release_eq_some hr
      exact .inl ⟨hex, hcur, jobs, job, rfl, hjob, by rw [hjob]; rfl⟩
    | none =>
      by_cases hc : q.closing = true
      · exact .inr (.inl ⟨hex, hcur, rfl, hc, by simp only [hc, if_true]⟩)
      · exact .inr (.inr ⟨.inr (.inr rfl), by simp only [hc]; rfl⟩)

lemma execute_eq_some {q q' : ProcessQueue} {pid : ℤ} {fail : Option String}
    (h : q.execute pid = some (q', fail)) :
    ∃ job sharees state, q.current = some (job, sharees) ∧
      q.state.execute job sharees pid = some (state, fail) ∧
      q' = { q with
        state := state, current := none, executed := q.executed ++ [(job, fail)] } := by
  obtain ⟨⟨job, sharees⟩, hcur, h⟩ := Option.bind_eq_some_iff.1 h
  obtain ⟨⟨state, fail'⟩, hexec, heq⟩ := Option.map_eq_some_iff.1 h
  cases heq
  exact ⟨job, sharees, state, hcur, hexec, rfl⟩

lemma check_eq_some {q q' : ProcessQueue} {pid d : ℤ} (h : q.check pid d = some q') :
    ∃ state, PacketDependencies.step pid q.state (.finish d) = some state ∧
      q' = { q with state := state } := by
  obtain ⟨state, hstep, rfl⟩ := Option.map_eq_some_iff.1 h
  exact ⟨state, hstep, rfl⟩

lemma release_eq_none {α : Type*} {b : Buffer α} (h : b.release = none) :
    b.pending.lookup b.next = none := by
  cases hl : b.pending.lookup b.next with
  | none => rfl
  | some a =>
    have hs : b.release.isSome := release_isSome.2 (by rw [hl]; rfl)
    rw [h] at hs
    cases hs

section

variable {hist : List (ℕ × Job)} {closed : Bool} {pid : ℤ} {q q' : ProcessQueue}

lemma queueInv_init (pid : ℤ) : QueueInv [] false pid {} where
  follows := follows_empty
  closing h := by cases h
  exited h := by cases h
  taken := rfl
  outcomes := rfl
  contexts := rfl
  reached := ⟨[], rfl⟩

lemma QueueInv.submit (hi : QueueInv hist closed pid q) (hopen : closed = false) (job : Job) :
    QueueInv (hist ++ [(job.orderId, job)]) closed pid (q.submit job).1 := by
  rw [submit_jobs]
  refine ⟨hi.follows.offer _ _, hi.closing, fun he => ?_, ?_, hi.outcomes, hi.contexts, hi.reached⟩
  · rw [(hi.exited he).1] at hopen
    cases hopen
  · rw [← hi.taken]
    cases ho : q.jobs.offer job.orderId job with
    | none => rfl
    | some jobs => rw [(offer_eq_some ho).2.2]; rfl

lemma QueueInv.runOnce (hi : QueueInv hist closed pid q) (sharees : List ℕ) :
    QueueInv hist closed pid (q.runOnce sharees).1 := by
  rcases runOnce_cases q sharees with ⟨hex, hcur, jobs, job, hr, hjob, hq⟩ |
    ⟨-, -, hr, hcl, hq⟩ | ⟨-, hq⟩
  · rw [hq]
    refine ⟨hi.follows.release hr, hi.closing, fun he => ?_, ?_, hi.outcomes, hi.contexts,
      hi.reached⟩
    · rw [hex] at he
      cases he
    · obtain ⟨a, ha, -, hrel, -⟩ := release_eq_some hr
      rw [hjob] at ha
      cases ha
      have htaken := hi.taken
      rw [hcur] at htaken
      simp only [hrel, List.map_append, htaken]
      simp
  · rw [hq]
    exact { hi with exited := fun _ => ⟨hi.closing hcl, release_eq_none hr⟩ }
  · rwa [hq]

lemma QueueInv.execute (hi : QueueInv hist closed pid q) {fail : Option String}
    (h : q.execute pid = some (q', fail)) : QueueInv hist closed pid q' := by
  obtain ⟨job, sharees, state, hcur, hexec, rfl⟩ := execute_eq_some h
  have hnonneg : ∀ c, 0 ≤ q.state.contexts c := by
    rw [hi.contexts]
    exact foldl_connect_nonneg (fun _ => le_rfl) _
  obtain ⟨rfl, hcon⟩ := execute_outcome hnonneg hexec
  refine ⟨hi.follows, hi.closing, hi.exited, ?_, ?_, ?_, ?_⟩
  · rw [hi.taken, hcur]
    simp
  · simp only [List.map_append, List.map_cons, List.map_nil]
    rw [outcomes_concat, ← hi.outcomes, ← hi.contexts]
  · simp only [List.map_append, List.map_cons, List.map_nil, List.foldl_append, List.foldl_cons,
      List.foldl_nil]
    rw [hcon, hi.contexts]
  · obtain ⟨steps, hsteps⟩ := hi.reached
    refine ⟨steps ++ [.execute job sharees], ?_⟩
    rw [run_append, hsteps, Option.bind_some, run_cons]
    simp [PacketDependencies.step, hexec, PacketDependencies.run]

lemma QueueInv.check (hi : QueueInv hist closed pid q) {d : ℤ} (h : q.check pid d = some q') :
    QueueInv hist closed pid q' := by
  obtain ⟨state, hstep, rfl⟩ := check_eq_some h
  refine ⟨hi.follows, hi.closing, hi.exited, hi.taken, hi.outcomes, ?_, ?_⟩
  · unfold PacketDependencies.step at hstep
    dsimp only at hstep
    split_ifs at hstep
    cases hstep
    exact hi.contexts
  · obtain ⟨steps, hsteps⟩ := hi.reached
    refine ⟨steps ++ [.finish d], ?_⟩
    rw [run_append, hsteps, Option.bind_some, run_cons, hstep]
    rfl

lemma QueueInv.finish (hi : QueueInv hist closed pid q) : QueueInv hist true pid q :=
  { hi with closing := fun _ => rfl, exited := fun he => ⟨rfl, (hi.exited he).2⟩ }

lemma QueueInv.close (hi : QueueInv hist closed pid q) (hc : closed = true) :
    QueueInv hist closed pid { q with closing := true } :=
  { hi with closing := fun _ => hc }

end

/-! ### Runs -/

lemma run_concat (acts : List Action) (a : Action) : run (acts ++ [a]) = ((run acts).step a).1 := by
  unfold run
  rw [List.foldl_append]
  rfl

section

variable {acts : List Action} {pid : ℤ}

lemma offers_concat_closed (h : acts.any Action.isFinish = true) (a : Action) (pid : ℤ) :
    offers (acts ++ [a]) pid = offers acts pid := by
  have hlt : (acts.takeWhile fun a => !a.isFinish).length ≠ acts.length := by
    intro heq
    obtain ⟨b, hb, hfin⟩ := List.any_eq_true.1 h
    have hall : acts.takeWhile (fun a => !a.isFinish) = acts :=
      (List.takeWhile_prefix _).eq_of_length heq
    have := List.takeWhile_eq_self_iff.1 hall b hb
    simp [hfin] at this
  unfold offers submitted
  rw [List.takeWhile_append, if_neg hlt]

lemma offers_concat_open (h : acts.any Action.isFinish = false) (a : Action) (pid : ℤ) :
    offers (acts ++ [a]) pid =
      offers acts pid ++ ((a.jobOf pid).toList.map fun job => (job.orderId, job)) := by
  have hall : acts.takeWhile (fun a => !a.isFinish) = acts := by
    rw [List.takeWhile_eq_self_iff]
    intro b hb
    have := List.any_eq_false.1 h b hb
    simpa using this
  unfold offers submitted
  rw [List.takeWhile_append, if_pos (by rw [hall]), hall, List.filterMap_append, List.map_append]
  congr 1
  cases a with
  | submit job =>
    by_cases hp : job.pid = pid
    · simp [Action.isFinish, Action.jobOf, hp]
    · simp [Action.isFinish, Action.jobOf, hp]
  | _ => rfl

/-- A step that submits nothing leaves the history as it is. -/
lemma offers_concat_quiet {a : Action} (ha : a.jobOf pid = none) :
    offers (acts ++ [a]) pid = offers acts pid := by
  cases h : acts.any Action.isFinish with
  | true => exact offers_concat_closed h a pid
  | false => rw [offers_concat_open h, ha]; simp

lemma offers_concat_isSome (a : Action) {i : ℕ} (h : ((offers acts pid).lookup i).isSome) :
    ((offers (acts ++ [a]) pid).lookup i).isSome := by
  cases hf : acts.any Action.isFinish with
  | true => rwa [offers_concat_closed hf]
  | false =>
    rw [offers_concat_open hf, lookup_append, Option.isSome_or, h]
    rfl

/-- What holds of all queues. -/
structure RunInv (acts : List Action) (s : Scheduler) : Prop where
  closed : s.closed = acts.any Action.isFinish
  queue : ∀ pid, QueueInv (offers acts pid) s.closed pid (s.queues pid)

lemma set_queues (s : Scheduler) {P : ℤ → ProcessQueue → Prop} {p : ℤ} {q : ProcessQueue}
    (hp : P p q) (h : ∀ pid ≠ p, P pid (s.queues pid)) (pid : ℤ) : P pid ((s.set p q).queues pid) :=
  (Function.forall_update_iff s.queues P).2 ⟨hp, h⟩ pid

/-- A step that submits nothing keeps the invariant if it does so for its queue. -/
lemma RunInv.set {s : Scheduler} (hi : RunInv acts s) {a : Action} (ha : a.isFinish = false)
    (hjob : ∀ pid, a.jobOf pid = none) {p : ℤ} {q : ProcessQueue}
    (hq : QueueInv (offers acts p) s.closed p q) : RunInv (acts ++ [a]) (s.set p q) where
  closed := by
    rw [List.any_append, ← hi.closed]
    simp [ha, Scheduler.set]
  queue pid := by
    rw [offers_concat_quiet (hjob pid)]
    exact set_queues s (P := fun pid q => QueueInv (offers acts pid) s.closed pid q) hq
      (fun pid _ => hi.queue pid) pid

lemma RunInv.idle {s : Scheduler} (hi : RunInv acts s) {a : Action} (ha : a.isFinish = false)
    (hoff : ∀ pid, offers (acts ++ [a]) pid = offers acts pid) : RunInv (acts ++ [a]) s where
  closed := by
    rw [List.any_append, ← hi.closed]
    simp [ha]
  queue pid := by
    rw [hoff]
    exact hi.queue pid

lemma RunInv.submit {s : Scheduler} (hi : RunInv acts s) (job : Job) :
    RunInv (acts ++ [.submit job]) (s.step (.submit job)).1 := by
  by_cases hc : s.closed = true
  · have hst : (s.step (.submit job)).1 = s := by simp [Scheduler.step, hc]
    rw [hst]
    exact hi.idle rfl fun pid => offers_concat_closed (hi.closed.symm.trans hc) _ pid
  · have hst : (s.step (.submit job)).1 = s.set job.pid ((s.queues job.pid).submit job).1 := by
      simp [Scheduler.step, hc]
    have hopen : s.closed = false := by simpa using hc
    have ho := offers_concat_open (hi.closed.symm.trans hopen) (.submit job)
    rw [hst]
    refine ⟨?_, fun pid => ?_⟩
    · rw [List.any_append, ← hi.closed]
      simp [Action.isFinish, Scheduler.set]
    · refine set_queues s (P := fun pid q => QueueInv (offers (acts ++ [.submit job]) pid)
        s.closed pid q) ?_ (fun pid hne => ?_) pid
      · rw [ho]
        simpa [Action.jobOf] using (hi.queue job.pid).submit hopen job
      · rw [ho]
        have hne' : job.pid ≠ pid := fun h => hne h.symm
        simpa [Action.jobOf, hne'] using hi.queue pid

lemma RunInv.step {s : Scheduler} (hi : RunInv acts s) (a : Action) :
    RunInv (acts ++ [a]) (s.step a).1 := by
  cases a with
  | submit job => exact hi.submit job
  | runOnce p sharees => exact hi.set rfl (fun _ => rfl) ((hi.queue p).runOnce sharees)
  | execute p =>
    cases h : (s.queues p).execute p with
    | none =>
      have hst : (s.step (.execute p)).1 = s := by simp [Scheduler.step, h]
      rw [hst]
      exact hi.idle rfl fun _ => offers_concat_quiet rfl
    | some r =>
      have hst : (s.step (.execute p)).1 = s.set p r.1 := by simp [Scheduler.step, h]
      rw [hst]
      exact hi.set rfl (fun _ => rfl) ((hi.queue p).execute h)
  | check p d =>
    cases h : (s.queues p).check p d with
    | none =>
      have hst : (s.step (.check p d)).1 = s := by simp [Scheduler.step, h]
      rw [hst]
      exact hi.idle rfl fun _ => offers_concat_quiet rfl
    | some q =>
      have hst : (s.step (.check p d)).1 = s.set p q := by simp [Scheduler.step, h]
      rw [hst]
      exact hi.set rfl (fun _ => rfl) ((hi.queue p).check h)
  | finish =>
    refine ⟨?_, fun pid => ?_⟩
    · simp [Scheduler.step, Action.isFinish]
    · rw [offers_concat_quiet rfl]
      exact (hi.queue pid).finish
  | close p =>
    unfold Scheduler.step
    dsimp only
    split_ifs with hc
    · exact hi.set rfl (fun _ => rfl) ((hi.queue p).close hc)
    · exact hi.idle rfl fun _ => offers_concat_quiet rfl

/-- **A whole run** keeps the invariant of every queue. -/
lemma runInv (acts : List Action) : RunInv acts (run acts) := by
  induction acts using List.reverseRecOn with
  | nil => exact ⟨rfl, fun pid => queueInv_init pid⟩
  | append_singleton acts a ih =>
    rw [run_concat]
    exact ih.step a

end

/-! ### What the invariant says about jobs -/

lemma lookup_keyed (l : List Job) (id : ℕ) :
    (l.map fun job => (job.orderId, job)).lookup id = l.find? fun job => job.orderId == id := by
  induction l with
  | nil => rfl
  | cons job l ih =>
    by_cases h : job.orderId = id
    · subst h; simp
    · have h1 : (id == job.orderId) = false := by simpa using fun e : id = _ => h e.symm
      have h2 : (job.orderId == id) = false := by simpa using h
      rw [List.map_cons, List.lookup_cons, h1, List.find?_cons, h2]
      exact ih

lemma mem_keys_iff {l : List (ℕ × Job)} {id : ℕ} :
    id ∈ l.map Prod.fst ↔ (l.lookup id).isSome := by
  induction l with
  | nil => simp
  | cons e l ih =>
    rcases e with ⟨k, job⟩
    by_cases h : id = k
    · subst h; simp
    · have hne : (id == k) = false := by simpa using h
      rw [List.map_cons, List.mem_cons, List.lookup_cons, hne, ← ih]
      simp [h]

section

variable {acts : List Action} {closed : Bool} {pid : ℤ} {q : ProcessQueue}

lemma QueueInv.find_released (hi : QueueInv (offers acts pid) closed pid q) {e : ℕ × Job}
    (he : e ∈ q.jobs.released) :
    (submitted acts pid).find? (fun job => job.orderId == e.1) = some e.2 := by
  have := hi.follows.first e he
  rwa [offers, lookup_keyed] at this

lemma QueueInv.orderId_released (hi : QueueInv (offers acts pid) closed pid q) {e : ℕ × Job}
    (he : e ∈ q.jobs.released) : e.2.orderId = e.1 := by
  have := List.find?_some (hi.find_released he)
  simpa using this

lemma QueueInv.taken_ids (hi : QueueInv (offers acts pid) closed pid q) :
    (q.jobs.released.map Prod.snd).map Job.orderId = q.jobs.released.map Prod.fst := by
  rw [List.map_map]
  exact List.map_congr_left fun e he => hi.orderId_released he

/-- The next number is that of the job after those executed and the one in execution. -/
lemma QueueInv.next_eq (hi : QueueInv (offers acts pid) closed pid q) :
    q.jobs.next = q.executed.length + q.current.toList.length + 1 := by
  have hlen := congrArg List.length hi.follows.numbers
  have htaken := congrArg List.length hi.taken
  have := hi.follows.pos
  simp only [List.length_map, List.length_range', List.length_append] at hlen htaken
  cases hq : q.current <;> simp [hq] at htaken ⊢ <;> omega

lemma QueueInv.executed_ids (hi : QueueInv (offers acts pid) closed pid q) :
    q.executed.map (fun e => e.1.orderId) = List.range' 1 q.executed.length := by
  have hids := hi.taken_ids.trans hi.follows.numbers
  rw [hi.taken, List.map_append, List.map_map] at hids
  have htake := congrArg (List.take q.executed.length) hids
  have hnext := hi.next_eq
  rw [List.take_left' (by simp), List.take_range'_of_length_ge (by omega)] at htake
  exact htake

end

/-! ### Progress -/

/-- Each job takes two turns of its thread: it is taken, and `Execute` returns from it. -/
def ProcessQueue.progress (q : ProcessQueue) : ℕ :=
  2 * q.executed.length + q.current.toList.length

/-- The thread of the process is free at the head of its loop, or `Execute` returns. -/
def Scheduler.isTurn (s : Scheduler) (pid : ℤ) : Action → Bool
  | .runOnce p _ => p == pid && (s.queues pid).current.isNone
  | .execute p => p == pid && ((s.queues pid).execute pid).isSome
  | _ => false

/-- The turns of the thread of a process in the steps to come. -/
def Scheduler.turns (s : Scheduler) (pid : ℤ) : List Action → ℕ
  | [] => 0
  | a :: later => (if s.isTurn pid a then 1 else 0) + (s.step a).1.turns pid later

lemma turns_cons (s : Scheduler) (pid : ℤ) (a : Action) (later : List Action) :
    s.turns pid (a :: later) = (if s.isTurn pid a then 1 else 0) + (s.step a).1.turns pid later :=
  rfl

section

variable {pid : ℤ} {q q' : ProcessQueue}

lemma progress_submit (q : ProcessQueue) (job : Job) : (q.submit job).1.progress = q.progress := by
  rw [submit_jobs]
  rfl

lemma progress_runOnce (q : ProcessQueue) (sharees : List ℕ) :
    q.progress ≤ (q.runOnce sharees).1.progress := by
  rcases runOnce_cases q sharees with ⟨-, hcur, jobs, job, -, -, hq⟩ | ⟨-, -, -, -, hq⟩ | ⟨-, hq⟩
  · rw [hq]
    simp [ProcessQueue.progress, hcur]
  · rw [hq]
    rfl
  · rw [hq]

lemma progress_execute {fail : Option String} (h : q.execute pid = some (q', fail)) :
    q'.progress = q.progress + 1 := by
  obtain ⟨job, sharees, state, hcur, -, rfl⟩ := execute_eq_some h
  simp [ProcessQueue.progress, hcur]
  omega

lemma progress_check {d : ℤ} (h : q.check pid d = some q') : q'.progress = q.progress := by
  obtain ⟨state, -, rfl⟩ := check_eq_some h
  rfl

lemma progress_step (s : Scheduler) (a : Action) (pid : ℤ) :
    (s.queues pid).progress ≤ ((s.step a).1.queues pid).progress := by
  have hset : ∀ {p : ℤ} {q : ProcessQueue}, (s.queues p).progress ≤ q.progress →
      (s.queues pid).progress ≤ ((s.set p q).queues pid).progress := fun hq =>
    set_queues s (P := fun pid q => (s.queues pid).progress ≤ q.progress) hq
      (fun _ _ => le_rfl) pid
  unfold Scheduler.step
  cases a with
  | submit job =>
    dsimp only
    split_ifs
    · exact le_rfl
    · exact hset (progress_submit _ job).ge
  | runOnce p sharees => exact hset (progress_runOnce _ sharees)
  | execute p =>
    cases h : (s.queues p).execute p with
    | none => simp [h]
    | some r => simpa [h] using hset (by rw [progress_execute h]; omega)
  | check p d =>
    cases h : (s.queues p).check p d with
    | none => simp [h]
    | some q => simpa [h] using hset (progress_check h).ge
  | finish => exact le_rfl
  | close p =>
    dsimp only
    split_ifs
    · exact hset le_rfl
    · exact le_rfl

/-- As long as a number is missing up to which all jobs were submitted, each turn counts. -/
lemma QueueInv.progress_runOnce {acts : List Action} {closed : Bool}
    (hi : QueueInv (offers acts pid) closed pid q) {id : ℕ}
    (hall : ∀ i, 1 ≤ i → i ≤ id → ((offers acts pid).lookup i).isSome)
    (hlt : q.progress < 2 * id) (hcur : q.current = none) (sharees : List ℕ) :
    (q.runOnce sharees).1.progress = q.progress + 1 := by
  have hnext := hi.next_eq
  have hdue : (q.jobs.pending.lookup q.jobs.next).isSome := by
    refine hi.follows.due id hall ?_
    simp only [ProcessQueue.progress, hcur, Option.toList_none, List.length_nil] at hlt hnext
    omega
  rcases runOnce_cases q sharees with ⟨-, -, jobs, job, -, -, hq⟩ | ⟨-, -, hr, -⟩ | ⟨hno, -⟩
  · rw [hq]
    simp [ProcessQueue.progress, hcur]
  · rw [release_eq_none hr] at hdue
    cases hdue
  · rcases hno with he | hc | hr
    · rw [(hi.exited he).2] at hdue
      cases hdue
    · rw [hcur] at hc
      cases hc
    · rw [release_eq_none hr] at hdue
      cases hdue

lemma progress_turn {acts : List Action} {s : Scheduler} (hi : RunInv acts s) {id : ℕ}
    (hall : ∀ i, 1 ≤ i → i ≤ id → ((offers acts pid).lookup i).isSome)
    (hlt : (s.queues pid).progress < 2 * id) {a : Action} (ha : s.isTurn pid a = true) :
    ((s.step a).1.queues pid).progress = (s.queues pid).progress + 1 := by
  cases a with
  | runOnce p sharees =>
    obtain ⟨rfl, hcur⟩ : p = pid ∧ (s.queues pid).current = none := by
      simpa [Scheduler.isTurn] using ha
    simpa [Scheduler.step, Scheduler.set] using
      (hi.queue p).progress_runOnce hall hlt hcur sharees
  | execute p =>
    obtain ⟨rfl, hsome⟩ : p = pid ∧ ((s.queues pid).execute pid).isSome := by
      simpa [Scheduler.isTurn] using ha
    obtain ⟨r, hr⟩ := Option.isSome_iff_exists.1 hsome
    simpa [Scheduler.step, Scheduler.set, hr] using progress_execute hr
  | _ => cases ha

/-- The turns of a process, whatever else happens in between, bring it to every number up to
which all jobs were submitted. -/
lemma progress_turns {acts : List Action} {s : Scheduler} (hi : RunInv acts s) {id : ℕ}
    (hall : ∀ i, 1 ≤ i → i ≤ id → ((offers acts pid).lookup i).isSome) (later : List Action) :
    min (2 * id) ((s.queues pid).progress + s.turns pid later) ≤
      ((later.foldl (fun s a => (s.step a).1) s).queues pid).progress := by
  induction later generalizing acts s with
  | nil => simp [Scheduler.turns]
  | cons a later ih =>
    have hnext := ih (hi.step a) fun i h1 h2 => offers_concat_isSome a (hall i h1 h2)
    have hmono := progress_step s a pid
    rw [List.foldl_cons]
    refine le_trans ?_ hnext
    rw [turns_cons]
    split_ifs with ha
    · by_cases hlt : (s.queues pid).progress < 2 * id
      · have := progress_turn hi hall hlt ha
        omega
      · omega
    · omega

end

end MsSanitizer.OrderedPacketScheduler
