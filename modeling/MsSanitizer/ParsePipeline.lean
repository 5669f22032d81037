import Mathlib.Tactic

/-!
# The ordered parse pipeline

The model of `parse_pipeline.cpp`. Any number of workers take jobs from a queue and parse them; one
committer takes the futures in the order of their submission, waits for each and hands the output
on. A step is what a thread does under the lock or between two sections under it, and a run is any
sequence of steps. A wait with a condition is a step that is not enabled.

A job and its future share the place of their result. Here both are the number of the task among
the submitted ones, and the places are a function of these numbers. What `parse_` may do with a task
is a relation: it returns an output or throws, and `commit_` may throw as well. Two histories are
kept beside the fields of the source: the tasks that `Submit` accepted and the outputs that were
handed to `commit_`.
-/

namespace MsSanitizer.ParsePipeline

/-- A thread in `WorkerLoop`: it waits for a job, runs one without the lock, or has returned. -/
inductive Worker (Task : Type*)
  | waiting
  | running (ticket : ℕ) (task : Task)
  | returned

/-- The thread in `CommitLoop`: it waits for a future, waits for the result of one, is inside
`commit_`, has caught an exception, is about to count the task, or has returned. -/
inductive Committer (ε : Type*)
  | waiting
  | getting (ticket : ℕ)
  | committing
  | failing (e : ε)
  | counting
  | returned

/-- `OrderedParsePipeline`, with its threads. -/
structure Pipeline (W Task Out ε : Type*) where
  jobs : List (ℕ × Task) := []
  ordered : List ℕ := []
  submitted : ℕ := 0
  committed : ℕ := 0
  stop : Bool := false
  firstError : Option ε := none
  workers : W → Worker Task := fun _ => .waiting
  committer : Committer ε := .waiting
  /-- The shared states of the futures. -/
  results : ℕ → Option (Except ε Out) := fun _ => none
  /-- The accepted tasks. -/
  history : List Task := []
  /-- The outputs that `commit_` was called with. -/
  log : List Out := []

/-- `inflightCap_`. -/
def capOf (inflightCap : ℕ) : ℕ := if inflightCap = 0 then 1 else inflightCap

variable {W Task Out ε : Type*}

namespace Pipeline

/-- `Submit`, when it does not wait and the pipeline is not stopped. -/
def submit (s : Pipeline W Task Out ε) (task : Task) : Pipeline W Task Out ε :=
  { s with
    ordered := s.ordered ++ [s.history.length]
    jobs := s.jobs ++ [(s.history.length, task)]
    submitted := (s.submitted + 1) % 2 ^ 64
    history := s.history ++ [task] }

/-- `CommitLoop` takes a future. -/
def takeFuture (s : Pipeline W Task Out ε) (ticket : ℕ) (rest : List ℕ) : Pipeline W Task Out ε :=
  { s with ordered := rest, committer := .getting ticket }

/-- `fut.get()` returned and `commit_` is called. -/
def commit (s : Pipeline W Task Out ε) (out : Out) : Pipeline W Task Out ε :=
  { s with log := s.log ++ [out], committer := .committing }

def recordError (s : Pipeline W Task Out ε) (e : ε) : Pipeline W Task Out ε :=
  { s with firstError := s.firstError.or (some e), committer := .counting }

/-- The last section of a pass of `CommitLoop`. -/
def count (s : Pipeline W Task Out ε) : Pipeline W Task Out ε :=
  { s with committed := (s.committed + 1) % 2 ^ 64, committer := .waiting }

/-- `Drain` returns, with the exception of `firstError` if there is one. -/
def drains (s : Pipeline W Task Out ε) : Bool := s.committed == s.submitted

variable [DecidableEq W]

def setWorker (s : Pipeline W Task Out ε) (w : W) (pc : Worker Task) : Pipeline W Task Out ε :=
  { s with workers := Function.update s.workers w pc }

/-- `WorkerLoop` takes a job. -/
def takeJob (s : Pipeline W Task Out ε) (w : W) (job : ℕ × Task) (rest : List (ℕ × Task)) :
    Pipeline W Task Out ε :=
  { s.setWorker w (.running job.1 job.2) with jobs := rest }

/-- `job()`: the output or the exception goes to the future. -/
def runJob (s : Pipeline W Task Out ε) (w : W) (ticket : ℕ) (r : Except ε Out) :
    Pipeline W Task Out ε :=
  { s.setWorker w .waiting with results := Function.update s.results ticket (some r) }

end Pipeline

variable (Parses : Task → Except ε Out → Prop)

section

variable [DecidableEq W]

/-- The steps of the workers and of the committer. -/
inductive Internal : Pipeline W Task Out ε → Pipeline W Task Out ε → Prop
  | takeJob {s} (w job rest) (hw : s.workers w = .waiting) (hj : s.jobs = job :: rest) :
      Internal s (s.takeJob w job rest)
  | runJob {s} (w ticket task r) (hw : s.workers w = .running ticket task) (hr : Parses task r) :
      Internal s (s.runJob w ticket r)
  | workerReturn {s} (w) (hw : s.workers w = .waiting) (hj : s.jobs = []) (hs : s.stop = true) :
      Internal s (s.setWorker w .returned)
  | takeFuture {s} (ticket rest) (hc : s.committer = .waiting) (ho : s.ordered = ticket :: rest) :
      Internal s (s.takeFuture ticket rest)
  | commit {s} (ticket out) (hc : s.committer = .getting ticket)
      (hr : s.results ticket = some (.ok out)) : Internal s (s.commit out)
  | getThrow {s} (ticket e) (hc : s.committer = .getting ticket)
      (hr : s.results ticket = some (.error e)) : Internal s { s with committer := .failing e }
  | commitReturn {s} (hc : s.committer = .committing) :
      Internal s { s with committer := .counting }
  | commitThrow {s} (e) (hc : s.committer = .committing) :
      Internal s { s with committer := .failing e }
  | recordError {s} (e) (hc : s.committer = .failing e) : Internal s (s.recordError e)
  | count {s} (hc : s.committer = .counting) : Internal s s.count
  | committerReturn {s} (hc : s.committer = .waiting) (ho : s.ordered = []) (hs : s.stop = true) :
      Internal s { s with committer := .returned }

/-- The steps of a pipeline: `Submit` waits for room, and accepts nothing after `Shutdown`. -/
inductive Step (cap : ℕ) : Pipeline W Task Out ε → Pipeline W Task Out ε → Prop
  | submit {s} (task) (hs : s.stop = false) (hroom : s.ordered.length < cap) :
      Step cap s (s.submit task)
  | shutdown {s} : Step cap s { s with stop := true }
  | internal {s s'} (h : Internal Parses s s') : Step cap s s'

abbrev Steps (cap : ℕ) := Relation.ReflTransGen (Step (W := W) Parses cap)

end

/-! ## What holds along a run -/

/-- One if the committer has taken a future that it has not counted. -/
def Committer.held : Committer ε → ℕ
  | .waiting | .returned => 0
  | _ => 1

/-- One if the committer waits for the result of a future. -/
def Committer.gets : Committer ε → ℕ
  | .getting _ => 1
  | _ => 0

def outputs (rs : List (Except ε Out)) : List Out := rs.filterMap Except.toOption

/-- The workers: every job, running task and result belongs to an accepted task, and an accepted
task without a result waits in the queue or is run. -/
structure Fed (s : Pipeline W Task Out ε) : Prop where
  jobs : ∀ job ∈ s.jobs, s.history[job.1]? = some job.2
  running : ∀ w ticket task, s.workers w = .running ticket task → s.history[ticket]? = some task
  results : ∀ ticket r, s.results ticket = some r → ∃ task, s.history[ticket]? = some task ∧
    Parses task r
  covered : ∀ ticket < s.history.length, s.results ticket ≠ none ∨
    (∃ task, (ticket, task) ∈ s.jobs) ∨ ∃ w task, s.workers w = .running ticket task
  returned : ∀ w, s.workers w = .returned → s.stop = true ∧ s.jobs = []

/-- The committer, which has taken the first `n` futures: the log has the outputs of the first
tasks, in their order, and the counters are as far apart as tasks are on their way. -/
structure InOrder (cap n : ℕ) (s : Pipeline W Task Out ε) : Prop where
  ordered : s.ordered = List.range' n s.ordered.length
  total : n + s.ordered.length = s.history.length
  room : s.ordered.length ≤ cap
  getting : ∀ ticket, s.committer = .getting ticket → ticket + 1 = n
  submitted : s.submitted = s.history.length % 2 ^ 64
  committed : ∃ c, c + s.committer.held = n ∧ s.committed = c % 2 ^ 64
  log : ∃ m rs, m + s.committer.gets = n ∧ List.Forall₂ Parses (s.history.take m) rs ∧
    s.log = outputs rs
  returned : s.committer = .returned → s.stop = true ∧ s.ordered = []

variable {Parses} {cap n : ℕ} {s : Pipeline W Task Out ε}

/-! ## The workers -/

lemma getElem?_concat_of_some {l : List Task} {t u : Task} {i : ℕ} (h : l[i]? = some t) :
    (l ++ [u])[i]? = some t := by
  rw [List.getElem?_append_left (List.getElem?_eq_some_iff.mp h).1, h]

lemma Fed.init : Fed Parses ({} : Pipeline W Task Out ε) := by
  refine ⟨?_, ?_, ?_, ?_, ?_⟩ <;> intros <;> simp_all

lemma Fed.submit (h : Fed Parses s) (task : Task) (hs : s.stop = false) :
    Fed Parses (s.submit task) where
  jobs := by
    intro job hjob
    rcases List.mem_append.mp hjob with hjob | hjob
    · exact getElem?_concat_of_some (h.jobs job hjob)
    · rw [List.mem_singleton.mp hjob]
      exact List.getElem?_concat_length
  running := fun w ticket task' hw => getElem?_concat_of_some (h.running w ticket task' hw)
  results := by
    intro ticket r hr
    obtain ⟨task', htask, hparse⟩ := h.results ticket r hr
    exact ⟨task', getElem?_concat_of_some htask, hparse⟩
  covered := by
    intro ticket hlt
    have hlt' : ticket < s.history.length + 1 := by simpa [Pipeline.submit] using hlt
    rcases Nat.lt_succ_iff_lt_or_eq.mp hlt' with hlt' | rfl
    · rcases h.covered ticket hlt' with hr | ⟨task', hjob⟩ | hw
      · exact Or.inl hr
      · exact Or.inr (Or.inl ⟨task', List.mem_append_left _ hjob⟩)
      · exact Or.inr (Or.inr hw)
    · exact Or.inr (Or.inl ⟨task, List.mem_append_right _ (List.mem_singleton_self _)⟩)
  returned := by
    intro w hw
    rw [(h.returned w hw).1] at hs
    cases hs

section

variable [DecidableEq W]

lemma setWorker_self (s : Pipeline W Task Out ε) (w : W) (pc : Worker Task) :
    (s.setWorker w pc).workers w = pc := Function.update_self _ _ _

/-- A worker that is not where `w` was sent has not moved. -/
lemma workers_of_setWorker {w w' : W} {pc pc' : Worker Task} (hne : pc ≠ pc')
    (h : (s.setWorker w pc).workers w' = pc') : s.workers w' = pc' := by
  have hww : w' ≠ w := by
    rintro rfl
    exact hne ((setWorker_self s w' pc).symm.trans h)
  exact (Function.update_of_ne hww _ _).symm.trans h

/-- A worker that is not where `w` was stays. -/
lemma setWorker_of_workers {w w' : W} {pc pc' : Worker Task} (hne : s.workers w ≠ pc')
    (h : s.workers w' = pc') : (s.setWorker w pc).workers w' = pc' := by
  have hww : w' ≠ w := by
    rintro rfl
    exact hne h
  exact (Function.update_of_ne hww _ _).trans h

lemma Fed.takeJob (h : Fed Parses s) {w : W} {job : ℕ × Task} {rest : List (ℕ × Task)}
    (hw : s.workers w = .waiting) (hj : s.jobs = job :: rest) :
    Fed Parses (s.takeJob w job rest) where
  jobs := fun j hjob => h.jobs j (by rw [hj]; exact List.mem_cons_of_mem _ hjob)
  running := by
    intro w' ticket task hw'
    by_cases heq : Worker.running job.1 job.2 = .running ticket task
    · cases heq
      exact h.jobs job (by rw [hj]; exact List.mem_cons_self)
    · exact h.running w' ticket task (workers_of_setWorker heq hw')
  results := h.results
  covered := by
    intro ticket hlt
    rcases h.covered ticket hlt with hr | ⟨task, hjob⟩ | ⟨w', task, hw'⟩
    · exact Or.inl hr
    · rw [hj] at hjob
      rcases List.mem_cons.mp hjob with rfl | hjob
      · exact Or.inr (Or.inr ⟨w, task, setWorker_self s w _⟩)
      · exact Or.inr (Or.inl ⟨task, hjob⟩)
    · exact Or.inr (Or.inr ⟨w', task, setWorker_of_workers (by simp [hw]) hw'⟩)
  returned := by
    intro w' hw'
    have hnil := (h.returned w' (workers_of_setWorker (by simp) hw')).2
    rw [hj] at hnil
    cases hnil

lemma Fed.runJob (h : Fed Parses s) {w : W} {ticket : ℕ} {task : Task} {r : Except ε Out}
    (hw : s.workers w = .running ticket task) (hr : Parses task r) :
    Fed Parses (s.runJob w ticket r) where
  jobs := h.jobs
  running := fun w' ticket' task' hw' =>
    h.running w' ticket' task' (workers_of_setWorker (by simp) hw')
  results := by
    intro ticket' r' hr'
    simp only [Pipeline.runJob, Function.update_apply] at hr'
    split_ifs at hr' with heq
    · cases hr'
      exact ⟨task, heq ▸ h.running w ticket task hw, hr⟩
    · exact h.results ticket' r' hr'
  covered := by
    intro ticket' hlt
    simp only [Pipeline.runJob, Function.update_apply]
    by_cases heq : ticket' = ticket
    · exact Or.inl (by simp [heq])
    · rcases h.covered ticket' hlt with hr' | hjob | ⟨w', task', hw'⟩
      · exact Or.inl (by simpa [heq] using hr')
      · exact Or.inr (Or.inl hjob)
      · have hne : s.workers w ≠ .running ticket' task' := by
          rw [hw]
          intro hc
          cases hc
          exact heq rfl
        exact Or.inr (Or.inr ⟨w', task', setWorker_of_workers hne hw'⟩)
  returned := fun w' hw' => h.returned w' (workers_of_setWorker (by simp) hw')

lemma Fed.workerReturn (h : Fed Parses s) {w : W} (hw : s.workers w = .waiting) (hj : s.jobs = [])
    (hs : s.stop = true) : Fed Parses (s.setWorker w .returned) where
  jobs := h.jobs
  running := fun w' ticket task hw' =>
    h.running w' ticket task (workers_of_setWorker (by simp) hw')
  results := h.results
  covered := by
    intro ticket hlt
    rcases h.covered ticket hlt with hr | hjob | ⟨w', task, hw'⟩
    · exact Or.inl hr
    · exact Or.inr (Or.inl hjob)
    · exact Or.inr (Or.inr ⟨w', task, setWorker_of_workers (by simp [hw]) hw'⟩)
  returned := fun _ _ => ⟨hs, hj⟩

end

/-! ## The committer -/

@[simp] lemma outputs_concat_ok (rs : List (Except ε Out)) (out : Out) :
    outputs (rs ++ [.ok out]) = outputs rs ++ [out] := by
  simp [outputs, Except.toOption]

@[simp] lemma outputs_concat_error (rs : List (Except ε Out)) (e : ε) :
    outputs (rs ++ [.error e]) = outputs rs := by
  simp [outputs, Except.toOption]

lemma InOrder.init : InOrder Parses cap 0 ({} : Pipeline W Task Out ε) where
  ordered := rfl
  total := rfl
  room := Nat.zero_le _
  getting := fun ticket hc => by cases hc
  submitted := rfl
  committed := ⟨0, rfl, rfl⟩
  log := ⟨0, [], rfl, List.Forall₂.nil, rfl⟩
  returned := fun hc => by cases hc

lemma InOrder.submit (h : InOrder Parses cap n s) (task : Task) (hs : s.stop = false)
    (hroom : s.ordered.length < cap) : InOrder Parses cap n (s.submit task) where
  ordered := by
    simp only [Pipeline.submit, List.length_append, List.length_singleton]
    rw [List.range'_concat, ← h.ordered, one_mul, h.total]
  total := by
    simp only [Pipeline.submit, List.length_append, List.length_singleton]
    have := h.total
    omega
  room := by
    simp only [Pipeline.submit, List.length_append, List.length_singleton]
    omega
  getting := h.getting
  submitted := by
    simp only [Pipeline.submit, List.length_append, List.length_singleton, h.submitted,
      Nat.mod_add_mod]
  committed := h.committed
  log := by
    obtain ⟨m, rs, hm, hrs, hlog⟩ := h.log
    have hle : m ≤ s.history.length := by
      have := h.total
      omega
    refine ⟨m, rs, hm, ?_, hlog⟩
    simp only [Pipeline.submit]
    rwa [List.take_append_of_le_length hle]
  returned := by
    intro hc
    rw [(h.returned hc).1] at hs
    cases hs

lemma InOrder.takeFuture (h : InOrder Parses cap n s) {ticket : ℕ} {rest : List ℕ}
    (hc : s.committer = .waiting) (ho : s.ordered = ticket :: rest) :
    InOrder Parses cap (n + 1) (s.takeFuture ticket rest) := by
  have hord := h.ordered
  have htot := h.total
  have hroom := h.room
  rw [ho] at hord htot hroom
  simp only [List.length_cons, List.range'_succ, List.cons.injEq] at hord htot hroom
  obtain ⟨c, hcn, hcom⟩ := h.committed
  obtain ⟨m, rs, hm, hrs, hlog⟩ := h.log
  simp only [hc, Committer.held, Committer.gets] at hcn hm
  refine ⟨hord.2, by dsimp only [Pipeline.takeFuture]; omega,
    by dsimp only [Pipeline.takeFuture]; omega, fun t ht => ?_, h.submitted,
    ⟨c, by simp only [Pipeline.takeFuture, Committer.held]; omega, hcom⟩,
    ⟨m, rs, by simp only [Pipeline.takeFuture, Committer.gets]; omega, hrs, hlog⟩,
    fun hret => by cases hret⟩
  cases ht
  omega

/-- The committer has a result: it belongs to the task after those in the log. -/
lemma InOrder.got (h : InOrder Parses cap n s) (hfed : Fed Parses s) {ticket : ℕ}
    {r : Except ε Out} (hc : s.committer = .getting ticket) (hr : s.results ticket = some r) :
    ∃ rs, List.Forall₂ Parses (s.history.take n) (rs ++ [r]) ∧ s.log = outputs rs := by
  obtain ⟨m, rs, hm, hrs, hlog⟩ := h.log
  obtain ⟨task, htask, hparse⟩ := hfed.results ticket r hr
  have hticket := h.getting ticket hc
  simp only [hc, Committer.gets] at hm
  obtain rfl : m = ticket := by omega
  refine ⟨rs, ?_, hlog⟩
  rw [← hticket, List.take_add_one, htask]
  exact List.rel_append hrs (List.Forall₂.cons hparse .nil)

lemma InOrder.move (h : InOrder Parses cap n s) {pc : Committer ε}
    (hheld : pc.held = s.committer.held) (hgets : pc.gets = s.committer.gets)
    (hget : ∀ ticket, pc ≠ .getting ticket) (hret : pc ≠ .returned) :
    InOrder Parses cap n { s with committer := pc } where
  ordered := h.ordered
  total := h.total
  room := h.room
  getting := fun ticket hc => absurd hc (hget ticket)
  submitted := h.submitted
  committed := by simpa only [hheld] using h.committed
  log := by simpa only [hgets] using h.log
  returned := fun hc => absurd hc hret

lemma InOrder.commit (h : InOrder Parses cap n s) (hfed : Fed Parses s) {ticket : ℕ} {out : Out}
    (hc : s.committer = .getting ticket) (hr : s.results ticket = some (.ok out)) :
    InOrder Parses cap n (s.commit out) := by
  obtain ⟨rs, hrs, hlog⟩ := h.got hfed hc hr
  refine ⟨h.ordered, h.total, h.room, fun t ht => (by cases ht), h.submitted, ?_,
    ⟨n, _, rfl, hrs, ?_⟩, fun ht => (by cases ht)⟩
  · simpa only [hc, Committer.held, Pipeline.commit] using h.committed
  · simp only [Pipeline.commit, hlog, outputs_concat_ok]

lemma InOrder.getThrow (h : InOrder Parses cap n s) (hfed : Fed Parses s) {ticket : ℕ} {e : ε}
    (hc : s.committer = .getting ticket) (hr : s.results ticket = some (.error e)) :
    InOrder Parses cap n { s with committer := .failing e } := by
  obtain ⟨rs, hrs, hlog⟩ := h.got hfed hc hr
  refine ⟨h.ordered, h.total, h.room, fun t ht => (by cases ht), h.submitted, ?_,
    ⟨n, _, rfl, hrs, ?_⟩, fun ht => (by cases ht)⟩
  · simpa only [hc, Committer.held] using h.committed
  · rw [outputs_concat_error]
    exact hlog

lemma InOrder.recordError (h : InOrder Parses cap n s) {e : ε} (hc : s.committer = .failing e) :
    InOrder Parses cap n (s.recordError e) := by
  have hmove := @InOrder.move W Task Out ε Parses cap n s h .counting (by rw [hc]; rfl)
    (by rw [hc]; rfl) (by simp) (by simp)
  exact ⟨hmove.ordered, hmove.total, hmove.room, hmove.getting, hmove.submitted, hmove.committed,
    hmove.log, hmove.returned⟩

lemma InOrder.count (h : InOrder Parses cap n s) (hc : s.committer = .counting) :
    InOrder Parses cap n s.count := by
  obtain ⟨c, hcn, hcom⟩ := h.committed
  simp only [hc, Committer.held] at hcn
  refine ⟨h.ordered, h.total, h.room, fun t ht => (by cases ht), h.submitted, ⟨c + 1, hcn, ?_⟩, ?_,
    fun ht => (by cases ht)⟩
  · simp only [Pipeline.count, hcom, Nat.mod_add_mod]
  · simpa only [hc, Committer.gets, Pipeline.count] using h.log

lemma InOrder.committerReturn (h : InOrder Parses cap n s) (hc : s.committer = .waiting)
    (ho : s.ordered = []) (hs : s.stop = true) :
    InOrder Parses cap n { s with committer := .returned } := by
  refine ⟨h.ordered, h.total, h.room, fun t ht => (by cases ht), h.submitted, ?_, ?_,
    fun _ => ⟨hs, ho⟩⟩
  · simpa only [hc, Committer.held] using h.committed
  · simpa only [hc, Committer.gets] using h.log

/-! ## Runs -/

def Inv (Parses : Task → Except ε Out → Prop) (cap : ℕ) (s : Pipeline W Task Out ε) : Prop :=
  Fed Parses s ∧ ∃ n, InOrder Parses cap n s

lemma Inv.log (h : Inv Parses cap s) : ∃ m rs, m ≤ s.history.length ∧
    List.Forall₂ Parses (s.history.take m) rs ∧ s.log = outputs rs := by
  obtain ⟨-, n, hord⟩ := h
  obtain ⟨m, rs, hm, hrs, hlog⟩ := hord.log
  have := hord.total
  exact ⟨m, rs, by omega, hrs, hlog⟩

/-- The counters differ by the tasks on their way, which are too few to make them wrap around to
one value. -/
lemma Inv.log_of_drains (h : Inv Parses cap s) (hcap : cap < 2 ^ 32) (hd : s.drains = true) :
    ∃ rs, List.Forall₂ Parses s.history rs ∧ s.log = outputs rs := by
  obtain ⟨-, n, hord⟩ := h
  obtain ⟨c, hc, hcom⟩ := hord.committed
  obtain ⟨m, rs, hm, hrs, hlog⟩ := hord.log
  have hle : s.committer.held ≤ 1 ∧ s.committer.gets ≤ s.committer.held := by
    cases s.committer <;> simp [Committer.held, Committer.gets]
  have heq : c % 2 ^ 64 = s.history.length % 2 ^ 64 := by
    rw [← hcom, ← hord.submitted]
    simpa [Pipeline.drains] using hd
  have htot := hord.total
  have hroom := hord.room
  have hall : m = s.history.length := by omega
  rw [hall, List.take_length] at hrs
  exact ⟨rs, hrs, hlog⟩

section

variable [DecidableEq W] {s' : Pipeline W Task Out ε}

lemma Inv.internal (h : Inv Parses cap s) (hs : Internal Parses s s') : Inv Parses cap s' := by
  obtain ⟨hfed, n, hord⟩ := h
  cases hs with
  | takeJob w job rest hw hj => exact ⟨hfed.takeJob hw hj, n, { hord with }⟩
  | runJob w ticket task r hw hr => exact ⟨hfed.runJob hw hr, n, { hord with }⟩
  | workerReturn w hw hj hstop => exact ⟨hfed.workerReturn hw hj hstop, n, { hord with }⟩
  | takeFuture ticket rest hc ho => exact ⟨{ hfed with }, n + 1, hord.takeFuture hc ho⟩
  | commit ticket out hc hr => exact ⟨{ hfed with }, n, hord.commit hfed hc hr⟩
  | getThrow ticket e hc hr => exact ⟨{ hfed with }, n, hord.getThrow hfed hc hr⟩
  | commitReturn hc =>
    exact ⟨{ hfed with }, n, hord.move (by rw [hc]; rfl) (by rw [hc]; rfl) (by simp) (by simp)⟩
  | commitThrow e hc =>
    exact ⟨{ hfed with }, n, hord.move (by rw [hc]; rfl) (by rw [hc]; rfl) (by simp) (by simp)⟩
  | recordError e hc => exact ⟨{ hfed with }, n, hord.recordError hc⟩
  | count hc => exact ⟨{ hfed with }, n, hord.count hc⟩
  | committerReturn hc ho hstop => exact ⟨{ hfed with }, n, hord.committerReturn hc ho hstop⟩

lemma Inv.step (h : Inv Parses cap s) (hs : Step Parses cap s s') : Inv Parses cap s' := by
  cases hs with
  | submit task hstop hroom =>
    obtain ⟨hfed, n, hord⟩ := h
    exact ⟨hfed.submit task hstop, n, hord.submit task hstop hroom⟩
  | shutdown =>
    obtain ⟨hfed, n, hord⟩ := h
    exact ⟨{ hfed with returned := fun w hw => ⟨rfl, (hfed.returned w hw).2⟩ }, n,
      { hord with returned := fun hc => ⟨rfl, (hord.returned hc).2⟩ }⟩
  | internal hint => exact h.internal hint

lemma Inv.steps (h : Inv Parses cap s) (hs : Steps Parses cap s s') : Inv Parses cap s' := by
  induction hs with
  | refl => exact h
  | tail _ hstep ih => exact ih.step hstep

lemma history_extends (hs : Steps Parses cap s s') : s.history <+: s'.history := by
  induction hs with
  | refl => exact List.prefix_rfl
  | tail _ hstep ih =>
    refine ih.trans ?_
    cases hstep with
    | submit task _ _ => exact List.prefix_append _ _
    | shutdown => exact List.prefix_rfl
    | internal hint => cases hint <;> exact List.prefix_rfl

/-! ## A pipeline at rest -/

/-- A pipeline with a worker, in which neither a worker nor the committer can do a step, has
committed everything. -/
lemma Inv.drains_of_rest [Nonempty W] (h : Inv Parses cap s) (htotal : ∀ task, ∃ r, Parses task r)
    (hrest : ∀ s', ¬ Internal Parses s s') : s.drains = true := by
  obtain ⟨hfed, n, hord⟩ := h
  have hidle : ∀ w ticket task, s.workers w ≠ .running ticket task := by
    intro w ticket task hw
    obtain ⟨r, hr⟩ := htotal task
    exact hrest _ (.runJob w ticket task r hw hr)
  have hjobs : s.jobs = [] := by
    obtain ⟨w⟩ := ‹Nonempty W›
    cases hj : s.jobs with
    | nil => rfl
    | cons job rest =>
      cases hw : s.workers w with
      | waiting => exact absurd (.takeJob w job rest hw hj) (hrest _)
      | running ticket task => exact absurd hw (hidle w ticket task)
      | returned =>
        have := (hfed.returned w hw).2
        rw [hj] at this
        cases this
  have hresult : ∀ ticket < s.history.length, s.results ticket ≠ none := by
    intro ticket hlt
    rcases hfed.covered ticket hlt with hr | ⟨task, hjob⟩ | ⟨w, task, hw⟩
    · exact hr
    · rw [hjobs] at hjob
      cases hjob
    · exact absurd hw (hidle w ticket task)
  have hdone : s.committer.held = 0 ∧ s.ordered = [] := by
    cases hc : s.committer with
    | waiting =>
      cases ho : s.ordered with
      | nil => exact ⟨rfl, rfl⟩
      | cons ticket rest => exact absurd (.takeFuture ticket rest hc ho) (hrest _)
    | getting ticket =>
      have htot := hord.total
      have hticket := hord.getting ticket hc
      cases hr : s.results ticket with
      | none => exact absurd hr (hresult ticket (by omega))
      | some r =>
        cases r with
        | ok out => exact absurd (.commit ticket out hc hr) (hrest _)
        | error e => exact absurd (.getThrow ticket e hc hr) (hrest _)
    | committing => exact absurd (.commitReturn hc) (hrest _)
    | failing e => exact absurd (.recordError e hc) (hrest _)
    | counting => exact absurd (.count hc) (hrest _)
    | returned => exact ⟨rfl, (hord.returned hc).2⟩
  obtain ⟨c, hcn, hcom⟩ := hord.committed
  have htot := hord.total
  rw [hdone.2, List.length_nil, add_zero] at htot
  have heq : c = s.history.length := by omega
  simp only [Pipeline.drains, beq_iff_eq, hcom, hord.submitted, heq]

/-! ## The steps that are left -/

def Worker.weight : Worker Task → ℕ
  | .waiting => 1
  | .running _ _ => 2
  | .returned => 0

def Committer.weight : Committer ε → ℕ
  | .waiting => 1
  | .getting _ => 5
  | .committing => 4
  | .failing _ => 3
  | .counting => 2
  | .returned => 0

/-- A bound on the steps of the workers and the committer. -/
def weight [Fintype W] (s : Pipeline W Task Out ε) : ℕ :=
  3 * s.jobs.length + ∑ w, (s.workers w).weight + (6 * s.ordered.length + s.committer.weight)

lemma sum_setWorker [Fintype W] (s : Pipeline W Task Out ε) (w : W) (pc : Worker Task) :
    ∑ w', ((s.setWorker w pc).workers w').weight + (s.workers w).weight =
      ∑ w', (s.workers w').weight + pc.weight := by
  have hnew := Finset.add_sum_erase Finset.univ
    (fun w' => ((s.setWorker w pc).workers w').weight) (Finset.mem_univ w)
  have hold := Finset.add_sum_erase Finset.univ (fun w' => (s.workers w').weight)
    (Finset.mem_univ w)
  have hrest : ∑ w' ∈ Finset.univ.erase w, ((s.setWorker w pc).workers w').weight =
      ∑ w' ∈ Finset.univ.erase w, (s.workers w').weight := by
    refine Finset.sum_congr rfl fun w' hw' => ?_
    exact congrArg Worker.weight (Function.update_of_ne (Finset.ne_of_mem_erase hw') _ _)
  simp only [setWorker_self] at hnew
  omega

/-- Every step of a worker or the committer is progress. -/
lemma weight_lt [Fintype W] (hs : Internal Parses s s') : weight s' < weight s := by
  cases hs with
  | takeJob w job rest hw hj =>
    have hsum := sum_setWorker s w (.running job.1 job.2)
    simp only [weight, Pipeline.takeJob, Pipeline.setWorker, hw, hj, Worker.weight,
      List.length_cons] at hsum ⊢
    omega
  | runJob w ticket task r hw hr =>
    have hsum := sum_setWorker s w .waiting
    simp only [weight, Pipeline.runJob, Pipeline.setWorker, hw, Worker.weight] at hsum ⊢
    omega
  | workerReturn w hw hj hstop =>
    have hsum := sum_setWorker s w .returned
    simp only [weight, Pipeline.setWorker, hw, Worker.weight] at hsum ⊢
    omega
  | takeFuture ticket rest hc ho =>
    simp only [weight, Pipeline.takeFuture, hc, ho, Committer.weight, List.length_cons]
    omega
  | commit ticket out hc hr => simp [weight, Pipeline.commit, hc, Committer.weight]
  | getThrow ticket e hc hr => simp [weight, hc, Committer.weight]
  | commitReturn hc => simp [weight, hc, Committer.weight]
  | commitThrow e hc => simp [weight, hc, Committer.weight]
  | recordError e hc => simp [weight, Pipeline.recordError, hc, Committer.weight]
  | count hc => simp [weight, Pipeline.count, hc, Committer.weight]
  | committerReturn hc ho hstop => simp [weight, hc, Committer.weight]

lemma length_le_weight [Fintype W] {l : List (Pipeline W Task Out ε)}
    (h : List.IsChain (Internal Parses) (s :: l)) : l.length ≤ weight s := by
  induction l generalizing s with
  | nil => exact Nat.zero_le _
  | cons s' l ih =>
    obtain ⟨hstep, htail⟩ := List.isChain_cons_cons.mp h
    have hlt := weight_lt hstep
    have hle := ih htail
    simp only [List.length_cons]
    omega

/-- **The parse pipeline.** In every run, whatever the number of workers and the order of the steps:
the outputs handed to `commit_` are those of the first tasks in the order of their submission, one
for each task whose parse did not throw. When `Drain` returns, these are all tasks submitted so
far, among them all that were submitted when it was called. If there is a worker and `parse_`
always returns or throws, the workers and the committer come to rest after a bounded number of
steps, and then everything is committed. -/
theorem commits_in_order [Fintype W] {inflightCap : ℕ} (hcap : inflightCap < 2 ^ 32)
    (hs : Steps Parses (capOf inflightCap) {} s) :
    (∃ m rs, m ≤ s.history.length ∧ List.Forall₂ Parses (s.history.take m) rs ∧
      s.log = outputs rs) ∧
    (∀ s', Steps Parses (capOf inflightCap) s s' → s'.drains = true →
      s.history <+: s'.history ∧ ∃ rs, List.Forall₂ Parses s'.history rs ∧ s'.log = outputs rs) ∧
    (Nonempty W → (∀ task, ∃ r, Parses task r) →
      (∃ bound, ∀ l, List.IsChain (Internal Parses) (s :: l) → l.length ≤ bound) ∧
      ∀ s', Relation.ReflTransGen (Internal Parses) s s' → (∀ s'', ¬ Internal Parses s' s'') →
        s'.drains = true) := by
  have hcap' : capOf inflightCap < 2 ^ 32 := by
    unfold capOf
    split_ifs <;> omega
  have hinit : Inv Parses (capOf inflightCap) ({} : Pipeline W Task Out ε) :=
    ⟨Fed.init, 0, InOrder.init⟩
  have hinv := hinit.steps hs
  refine ⟨hinv.log, fun s' hs' hd => ?_, fun hne htotal => ⟨?_, fun s' hs' hrest => ?_⟩⟩
  · exact ⟨history_extends hs', (hinv.steps hs').log_of_drains hcap' hd⟩
  · exact ⟨weight s, fun l hl => length_le_weight hl⟩
  · have hsteps : Steps Parses (capOf inflightCap) s s' :=
      Relation.ReflTransGen.mono (fun _ _ h => Step.internal h) _ _ hs'
    exact (hinv.steps hsteps).drains_of_rest htotal hrest

end

def evens (task : ℕ) (r : Except String ℕ) : Prop :=
  r = if task % 2 = 0 then .ok task else .error "odd"

/-- Two workers have parsed the tasks 3 and 4, the second one first. -/
def parsed : Pipeline (Fin 2) ℕ ℕ String :=
  ((((Pipeline.submit {} 3).submit 4).takeJob 0 (0, 3) [(1, 4)]).takeJob 1 (1, 4) []).runJob 1 1
    (.ok 4) |>.runJob 0 0 (.error "odd")

def drained : Pipeline (Fin 2) ℕ ℕ String :=
  let failed := ({ parsed.takeFuture 0 [1] with committer := .failing "odd" }).recordError "odd"
  let second := (failed.count.takeFuture 1 []).commit 4
  ({ second with committer := .counting }).count

lemma steps_parsed : Steps evens (capOf 2) {} parsed := by
  refine .tail (.tail (.tail (.tail (.tail (.tail .refl (.submit 3 rfl (by decide)))
    (.submit 4 rfl (by decide))) (.internal (.takeJob 0 (0, 3) [(1, 4)] rfl rfl)))
    (.internal (.takeJob 1 (1, 4) [] rfl rfl))) (.internal (.runJob 1 1 4 _ rfl rfl)))
    (.internal (.runJob 0 0 3 _ rfl rfl))

lemma steps_drained : Steps evens (capOf 2) parsed drained := by
  refine .tail (.tail (.tail (.tail (.tail (.tail (.tail (.tail .refl
    (.internal (.takeFuture 0 [1] rfl rfl))) (.internal (.getThrow 0 "odd" rfl rfl)))
    (.internal (.recordError "odd" rfl))) (.internal (.count rfl)))
    (.internal (.takeFuture 1 [] rfl rfl))) (.internal (.commit 1 4 rfl rfl)))
    (.internal (.commitReturn rfl))) (.internal (.count rfl))

theorem commits_in_order_two : parsed.history <+: drained.history ∧
    ∃ rs, List.Forall₂ evens drained.history rs ∧ drained.log = outputs rs :=
  (commits_in_order (by norm_num) steps_parsed).2.1 drained steps_drained rfl

end MsSanitizer.ParsePipeline
