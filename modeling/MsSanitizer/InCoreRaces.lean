import MsSanitizer.EventOrder
import MsSanitizer.PipeLineRule
import MsSanitizer.RunAlgorithm

/-!
# The races inside a block

The whole check of `RaceAlgImpl` on the memory events, flags and barriers of a block: `Run` replays
them, and `RunAlgorithm` compares the memory events that were executed. What is reported is said of
the list of events alone: two operations that get through, of different pipes, on common bytes, that
neither happens before the other.
-/

namespace MsSanitizer.BlockReplay

open RecordDefs EventDef VectorTime PipeLine EventContainer MemEventChecker MemSeries

variable {kt : KernelType} {dt : DeviceType} {blockDim b : ℕ} {p q : PipeType}
  {s s' : BlockReplay} {tr : List Exec} {x : Exec} {events : List SanEvent}

/-! ## The end of the replay -/

/-- The queues and the handler of `Run` are those of a run of polls. -/
def Polled (kt : KernelType) (dt : DeviceType) (blockDim b : ℕ) (events : List SanEvent)
    (c : EventContainer) (a : RaceAlgImpl) : Prop :=
  ∃ tr s, Polls b (start kt dt blockDim events) tr s ∧ SameQueues s.events c ∧ s.alg = a

/-- The work that is left in the queues of block `b`. -/
def queWork (b : ℕ) (ques : ℕ → List SanEvent) : ℕ :=
  ∑ q : PipeType, (if q = .s then 3 else 1) * (ques (queIdx b q)).length

/-- What the handler does with a front event: it stalls and does nothing, or it is a poll. -/
lemma offer_cases (hl : ∀ e ∈ events, InBlock kt dt b e)
    (h : Polls b (start kt dt blockDim events) tr s) {c : EventContainer}
    (hs : SameQueues s.events c) {e : SanEvent} {rest : List SanEvent} (hat : AtFront c e rest) :
    ∃ p, c.getQueIndex = queIdx b p ∧
      (RaceAlgImpl.processEvent c s.alg e = { ret := .processStalled, state := s.alg } ∧
          poll b p s = none ∨
        ∃ x s', poll b p s = some (x, s') ∧
          (RaceAlgImpl.processEvent c s.alg e).ret = .processOk ∧
          (RaceAlgImpl.processEvent c s.alg e).state = s'.alg ∧
          SameQueues s'.events (afterOffer c (RaceAlgImpl.processEvent c s.alg e))) := by
  have hfit := h.fit (fit_start blockDim hl)
  obtain ⟨p, hp, hidx⟩ : ∃ p : PipeType, c.pipeIndex = p.idx ∧ c.getQueIndex = queIdx b p := by
    have hne : s.events.ques c.getQueIndex ≠ [] := by
      rw [← hs.ques, hat.front]
      exact List.cons_ne_nil _ _
    obtain ⟨q, hidx⟩ : ∃ q, c.getQueIndex = queIdx b q := by
      by_contra hc
      exact hne (h.alone (fit_start blockDim hl) (alone_start blockDim hl) _
        fun q hq => hc ⟨q, hq⟩)
    refine ⟨q, ?_, hidx⟩
    -- there is one device, so the index of the queue tells the pipe
    have hdev : c.deviceIndex = 0 := by
      have hlt := hat.device
      have hone : (start kt dt blockDim events).events.deviceNum = 1 :=
        (foldl_push_blocks ((RaceAlgImpl.init kt dt blockDim).pushes events) _).2.1
      rw [hs.devices, (h.blocks (fit_start blockDim hl)).2, hone] at hlt
      omega
    rw [getQueIndex_eq hdev, queIdx] at hidx
    have hmod := congrArg (· % pipeSize) hidx
    simpa [Nat.mul_add_mod', Nat.mod_eq_of_lt hat.pipe, Nat.mod_eq_of_lt q.idx_lt] using hmod
  refine ⟨p, hidx, ?_⟩
  have hque : s.que b p = e :: rest := by
    rw [que, ← hidx, ← hs.ques]
    exact hat.front
  rw [processEvent_position hidx hp]
  rcases poll_cons hfit hque with ⟨hst, hnone⟩ | ⟨_, _, _, _, s', -, hsome, -⟩
  · exact .inl ⟨processEvent_stalls hst, hnone⟩
  · refine .inr ⟨_, s', hsome, ?_⟩
    simp only [poll, hque] at hsome
    have hat' : SameQueues (position s.events b p) c := ⟨hs.ques, hs.blocks, hs.devices⟩
    split at hsome
    · cases hsome
    · rename_i hret
      cases hsome
      exact ⟨hret, rfl, hat'.afterOffer (hidx.trans (getQueIndex_position s.events b p).symm) _⟩

/-- **The handler of the replay settles.** -/
lemma settles (hl : ∀ e ∈ events, InBlock kt dt b e) :
    Settles RaceAlgImpl.processEvent (Polled kt dt blockDim b events) (queWork b) where
  same := fun hs ⟨tr, s, h, hs', ha⟩ => ⟨tr, s, h, hs'.trans hs, ha⟩
  keeps := by
    rintro c a e rest ⟨tr, s, h, hs, rfl⟩ hat
    obtain ⟨p, -, ⟨hst, -⟩ | ⟨x, s', hpoll, -, hstate, hsame⟩⟩ := offer_cases hl h hs hat
    · rw [hst]
      exact ⟨tr, s, h, hs, rfl⟩
    · exact ⟨_, s', h.concat hpoll, hsame, hstate.symm⟩
  stalls := by
    rintro c a e rest ⟨tr, s, h, hs, rfl⟩ hat hret
    obtain ⟨p, -, ⟨hst, -⟩ | ⟨x, s', -, hok, -⟩⟩ := offer_cases hl h hs hat
    · rw [hst]
      exact ⟨rfl, rfl⟩
    · rw [hok] at hret
      cases hret
  works := by
    rintro c a e rest ⟨tr, s, h, hs, rfl⟩ hat hret
    obtain ⟨p, -, ⟨hst, -⟩ | ⟨x, s', hpoll, -, -, hsame⟩⟩ := offer_cases hl h hs hat
    · rw [hst] at hret
      cases hret
    · have hlt := work_lt (h.fit (fit_start blockDim hl)) hpoll
      rw [hsame.ques, hs.ques]
      exact hlt

lemma length_flatMap_parts_le (events : List SanEvent) :
    (events.flatMap parts).length ≤ 2 * events.length := by
  induction events with
  | nil => exact le_rfl
  | cons e events ih =>
    have := parts_length_le e
    rw [List.flatMap_cons, List.length_append, List.length_cons]
    omega

lemma work_start_le (hl : ∀ e ∈ events, InBlock kt dt b e) :
    work b (start kt dt blockDim events) ≤ 6 * events.length := by
  have hlen := length_flatMap_parts_le events
  unfold work
  rw [Finset.sum_eq_single PipeType.s]
  · rw [if_pos rfl, start_que blockDim fun e he => (hl e he).1]
    split_ifs
    · omega
    · simp
  · intro q _ hq
    rw [if_neg hq, start_que blockDim fun e he => (hl e he).1, if_neg fun hc => hq hc.1]
    rfl
  · simp

/-- **`Run` ends**, after a run of polls that left every queue empty or stuck. -/
lemma replay_stuck (hl : ∀ e ∈ events, InBlock kt dt b e)
    (hb : b < RaceAlgImpl.totalBlockNum kt dt blockDim) (hlen : 6 * events.length < 2 ^ 32) :
    (∃ n, Stopped (replay kt dt blockDim events n)) ∧
      ∀ n, Stopped (replay kt dt blockDim events n) → ∃ tr s,
        Polls b (start kt dt blockDim events) tr s ∧ Stuck b s ∧
          s.alg = (replay kt dt blockDim events n).handler := by
  have hset := @settles _ _ blockDim _ _ hl
  have hI : Polled kt dt blockDim b events (PipeLine.start
      (RaceAlgImpl.totalBlockNum kt dt blockDim) 1 ((RaceAlgImpl.init kt dt blockDim).pushes events)
      ((RaceAlgImpl.init kt dt blockDim).collect events)).events
      ((RaceAlgImpl.init kt dt blockDim).collect events) := ⟨[], _, .nil, ⟨rfl, rfl, rfl⟩, rfl⟩
  have hplaced := placed_start (lt_of_le_of_lt (Nat.zero_le b) hb) Nat.one_pos
    ((RaceAlgImpl.init kt dt blockDim).pushes events)
    ((RaceAlgImpl.init kt dt blockDim).collect events)
  have hone := (foldl_push_blocks ((RaceAlgImpl.init kt dt blockDim).pushes events)
    (.init (RaceAlgImpl.totalBlockNum kt dt blockDim) 1)).2.1
  refine ⟨hset.exists_stopped hplaced hI hone, fun n hn => ?_⟩
  obtain ⟨tr, s, hpolls, hsame, halg⟩ := hset.run hplaced hI n
  refine ⟨tr, s, hpolls, fun p => ?_, halg⟩
  by_cases hne : s.que b p = []
  · simp only [poll, hne]
  · have hidx : queIdx b p < RaceAlgImpl.totalBlockNum kt dt blockDim * pipeSize := by
      have h1 := p.idx_lt
      have h2 : (b + 1) * pipeSize ≤ RaceAlgImpl.totalBlockNum kt dt blockDim * pipeSize :=
        Nat.mul_le_mul_right _ hb
      rw [Nat.add_mul, Nat.one_mul] at h2
      unfold queIdx
      omega
    obtain ⟨c, e, rest, hc, hq, hat, hret⟩ := hset.front_of_stopped hI
      (lt_of_le_of_lt (work_start_le hl) hlen) hn hidx (by rw [hsame.ques]; exact hne)
    have hret' : (RaceAlgImpl.processEvent c s.alg e).ret = .processStalled := halg ▸ hret
    obtain ⟨p', hp', ⟨-, hnone⟩ | ⟨x, s', -, hok, -⟩⟩ :=
      offer_cases hl hpolls (hsame.trans hc) hat
    · rw [hq, queIdx_inj] at hp'
      exact hp' ▸ hnone
    · rw [hok] at hret'
      cases hret'

/-! ## The events of the check -/

/-- The memory event that `ProcessMemEvent` pushes. -/
def checkedEvent (c : SanEvent × VectorTime) : MemEvent := { MemEvent.ofEvent c.1 with vt := c.2 }

def report (e1 e2 : SanEvent) : RaceDispInfo :=
  fillRaceDispInfo false (.ofEvent e1) (.ofEvent e2)

/-- `GetResult`, where the run has ended after `n` rounds. -/
def results (kt : KernelType) (dt : DeviceType) (blockDim : ℕ) (events : List SanEvent) (n : ℕ) :
    Option (List RaceDispInfo) :=
  runAlgorithm ⟨kt, dt⟩ .singleBlock
    ((replay kt dt blockDim events n).handler.checked.map checkedEvent)

/-- Two memory operations of a list race: both get through, neither happens before the other, they
clash, and they are not both atomic. -/
structure Races (l : List SanEvent) (i j : ℕ) (e1 e2 : SanEvent) : Prop where
  left : l[i]? = some e1
  right : l[j]? = some e2
  leftRuns : Runs l i
  rightRuns : Runs l j
  unordered : ¬ HappensBefore l i j ∧ ¬ HappensBefore l j i
  clash : ∃ op1 op2, e1.info = .mem op1 ∧ e2.info = .mem op2 ∧ Clash op1 op2
  atomic : isAtomicAgainst (.ofEvent e1) (.ofEvent e2) = false

variable {l : List SanEvent} {i j m n n' c h : ℕ} {e e1 e2 : SanEvent} {y : Exec}
  {labs : List Label} {todo : PipeType → List Label}

lemma Races.pipe_ne (hr : Races l i j e1 e2) : e1.pipe ≠ e2.pipe := by
  intro heq
  have hi := hr.leftRuns.lt_length
  have hj := hr.rightRuns.lt_length
  have hp : pipeOf l i = pipeOf l j := by rw [pipeOf_eq hr.left, pipeOf_eq hr.right, heq]
  rcases Nat.lt_trichotomy i j with hlt | rfl | hlt
  · exact hr.unordered.1 (.single (.pipe hlt hj hp))
  · exact hr.unordered.1 .refl
  · exact hr.unordered.2 (.single (.pipe hlt hi hp.symm))

lemma getPipeIdx_checkedEvent (he : getEventBlockIndex e.loc kt dt = b) (vt : VectorTime) :
    getPipeIdxByMemEvent ⟨kt, dt⟩ (checkedEvent (e, vt)) = queIdx b e.pipe := by
  have hloc : (checkedEvent (e, vt)).loc = e.loc := by
    unfold checkedEvent MemEvent.ofEvent
    split <;> rfl
  have hpipe : (checkedEvent (e, vt)).pipe = e.pipe := by
    unfold checkedEvent MemEvent.ofEvent
    split <;> rfl
  rw [getPipeIdxByMemEvent, hloc, hpipe, he, queIdx]

lemma checkedEvent_of_mem {op : MemOpInfo} (he : e.info = .mem op) (vt : VectorTime) :
    (checkedEvent (e, vt)).isDynamic = false ∧ (checkedEvent (e, vt)).memInfo = op ∧
      (checkedEvent (e, vt)).pipe = e.pipe := by
  simp only [checkedEvent, MemEvent.ofEvent, he, and_self]

/-- `IsInnerCoreRaceCandidate` on the components of two clocks that do not both reach the other. -/
lemma isInnerCoreRaceCandidate_components {c1 c2 : MemEvent} {p1 p2 : ℕ}
    (hanti : ¬ (c1.vt.get p1 ≤ c2.vt.get p1 ∧ c2.vt.get p2 ≤ c1.vt.get p2)) :
    isInnerCoreRaceCandidate c1 c2 p1 (c1.vt.get p1) p2 (c2.vt.get p2) = true ↔
      (¬ c1.vt.get p1 ≤ c2.vt.get p1 ∧ ¬ c2.vt.get p2 ≤ c1.vt.get p2) ∧
        isAtomicAgainst c1 c2 = false := by
  rw [isInnerCoreRaceCandidate, MemEventChecker.isNotHappensBefore]
  generalize isAtomicAgainst c1 c2 = atomic
  generalize c1.vt.get p1 = a1 at *
  generalize c2.vt.get p1 = a2 at *
  generalize c1.vt.get p2 = b1 at *
  generalize c2.vt.get p2 = b2 at *
  cases atomic <;> split_ifs <;> simp_all <;> omega

lemma pipe_of_isMem (hm : x.isMem = true) : x.event.pipe = x.pipe := by
  rw [Exec.isMem, Bool.and_eq_true, decide_eq_true_eq] at hm
  exact hm.1

lemma ticks_of_isMem (hm : x.isMem = true) : ticks x = true := by
  rw [Exec.isMem, Bool.and_eq_true] at hm
  exact ticks_of_not_silent (not_silent_of_isMemEvent hm.2)

/-- A candidate for a race: neither step reaches the other, and they are not both atomic. -/
lemma isInnerCoreRaceCandidate_iff (hrun : IsRun b tr)
    (hticks : ∀ p, (tr.filter fun x => x.pipe = p).length < 2 ^ 32 - 1) (hx : tr[n]? = some x)
    (hmx : x.isMem = true) (hy : tr[n']? = some y) (hmy : y.isMem = true) (hne : x.pipe ≠ y.pipe)
    {c1 c2 : MemEvent} (h1 : c1.vt = x.clock) (h2 : c2.vt = y.clock) :
    isInnerCoreRaceCandidate c1 c2 (queIdx b x.pipe) (c1.vt.get (queIdx b x.pipe))
        (queIdx b y.pipe) (c2.vt.get (queIdx b y.pipe)) = true ↔
      (¬ Reaches tr n n' ∧ ¬ Reaches tr n' n) ∧ isAtomicAgainst c1 c2 = false := by
  have hxy := hrun.clock_le_iff hticks hx hy (ticks_of_isMem hmx)
  have hyx := hrun.clock_le_iff hticks hy hx (ticks_of_isMem hmy)
  have hanti := hrun.not_both hx hy hne
  rw [← hxy, ← hyx, ← h1, ← h2] at *
  exact isInnerCoreRaceCandidate_components hanti

/-- The place of a memory event of the checker in the run. -/
lemma exists_step (hc : c < (memEvents tr).length) : ∃ (n : ℕ) (x : Exec), tr[n]? = some x ∧
    x.isMem = true ∧
    eventAt ((memEvents tr).map checkedEvent) c = checkedEvent (x.event, x.clock) := by
  have hmem := List.getElem_mem hc
  obtain ⟨x, hx, heq⟩ := List.mem_map.mp hmem
  obtain ⟨htr, hm⟩ := List.mem_filter.mp hx
  obtain ⟨n, hn⟩ := List.getElem?_of_mem htr
  refine ⟨n, x, hn, hm, ?_⟩
  rw [eventAt, List.getD_eq_getElem?_getD, List.getElem?_map, List.getElem?_eq_getElem hc, ← heq]
  rfl

/-- The place of a step of the run among the memory events of the checker. -/
lemma exists_checked (hn : tr[n]? = some x) (hm : x.isMem = true) :
    ∃ c < (memEvents tr).length,
      eventAt ((memEvents tr).map checkedEvent) c = checkedEvent (x.event, x.clock) := by
  have hmem : (x.event, x.clock) ∈ memEvents tr :=
    List.mem_map_of_mem (List.mem_filter.mpr ⟨List.mem_of_getElem? hn, hm⟩)
  obtain ⟨c, hc⟩ := List.getElem?_of_mem hmem
  refine ⟨c, (List.getElem?_eq_some_iff.mp hc).1, ?_⟩
  rw [eventAt, List.getD_eq_getElem?_getD, List.getElem?_map, hc]
  rfl

/-- Two events of the check are unordered: they are of steps that neither reaches the other, and
they are not both atomic. -/
def Unordered (tr : List Exec) (c h : ℕ) : Prop :=
  ∃ (n n' : ℕ) (x y : Exec), (tr[n]? = some x ∧ x.isMem = true ∧
      eventAt ((memEvents tr).map checkedEvent) c = checkedEvent (x.event, x.clock)) ∧
    (tr[n']? = some y ∧ y.isMem = true ∧
      eventAt ((memEvents tr).map checkedEvent) h = checkedEvent (y.event, y.clock)) ∧
    (¬ Reaches tr n n' ∧ ¬ Reaches tr n' n) ∧
      isAtomicAgainst (.ofEvent x.event) (.ofEvent y.event) = false

lemma Unordered.symm (hu : Unordered tr c h) : Unordered tr h c := by
  obtain ⟨n, n', x, y, hx, hy, ⟨h1, h2⟩, ha⟩ := hu
  refine ⟨n', n, y, x, hy, hx, ⟨h2, h1⟩, ?_⟩
  rw [isAtomicAgainst, Bool.and_comm]
  exact ha

lemma pipe_ne_of_unordered (hx : tr[n]? = some x) (hy : tr[n']? = some y)
    (hu : ¬ Reaches tr n n' ∧ ¬ Reaches tr n' n) : x.pipe ≠ y.pipe := by
  intro heq
  rcases Nat.lt_trichotomy n n' with hlt | rfl | hlt
  · exact hu.1 (.single (.inl ⟨hlt, x, y, hx, hy, heq⟩))
  · exact hu.1 .refl
  · exact hu.2 (.single (.inl ⟨hlt, y, x, hy, hx, heq.symm⟩))

/-! ## What is reported -/

section

variable (hlab : Labelled l b tr s labs todo m) (hl : ∀ e ∈ l, InBlock kt dt b e)
  (hplain : ∀ e ∈ l, ∀ op, e.info = .mem op → FitsScan op)
  (hdyn : ∀ e ∈ l, ∀ op, e.info ≠ .dynamicMem op)
include hlab

lemma exists_exec (hx : tr[n]? = some x) (hm : x.isMem = true) :
    ∃ i, labs[n]? = some (.exec i) ∧ l[i]? = some x.event := by
  obtain ⟨lab, hn, hname⟩ := hlab.exists_label hx
  obtain ⟨p, e, vt⟩ := x
  simp only [Exec.isMem, Bool.and_eq_true, decide_eq_true_eq] at hm
  cases hname with
  | issue he hs hne => exact absurd (hm.1.trans hs) hne
  | time => exact absurd hm.2 Bool.false_ne_true
  | exec he => exact ⟨_, hn, he⟩

include hdyn

lemma mem_of_isMem (hx : tr[n]? = some x) (hm : x.isMem = true) :
    ∃ op, x.event.info = .mem op := by
  obtain ⟨i, -, hi⟩ := exists_exec hlab hx hm
  simp only [Exec.isMem, Bool.and_eq_true, PipelineReplayer.isMemEvent] at hm
  split at hm
  · exact ⟨_, ‹_›⟩
  · exact absurd ‹_› (hdyn _ (List.mem_of_getElem? hi) _)
  · simp at hm

include hl

lemma isInnerCoreRaceEvent_steps (hrun : IsRun b tr)
    (hticks : ∀ p, (tr.filter fun x => x.pipe = p).length < 2 ^ 32 - 1)
    {checked : List MemEvent} (hx : tr[n]? = some x) (hmx : x.isMem = true)
    (hc : eventAt checked c = checkedEvent (x.event, x.clock)) (hy : tr[n']? = some y)
    (hmy : y.isMem = true) (hh : eventAt checked h = checkedEvent (y.event, y.clock)) :
    (isInnerCoreRaceEvent ⟨kt, dt⟩ checked c h).race = true ↔ x.pipe ≠ y.pipe ∧
      ((¬ Reaches tr n n' ∧ ¬ Reaches tr n' n) ∧
        isAtomicAgainst (.ofEvent x.event) (.ofEvent y.event) = false) ∧
      isMemoryOverlap (eventAt checked c).memInfo (eventAt checked h).memInfo = true := by
  obtain ⟨i, -, hi⟩ := exists_exec hlab hx hmx
  obtain ⟨j, -, hj⟩ := exists_exec hlab hy hmy
  obtain ⟨op1, hop1⟩ := mem_of_isMem hlab hdyn hx hmx
  obtain ⟨op2, hop2⟩ := mem_of_isMem hlab hdyn hy hmy
  obtain ⟨hd1, -, hp1⟩ := checkedEvent_of_mem hop1 x.clock
  obtain ⟨hd2, -, hp2⟩ := checkedEvent_of_mem hop2 y.clock
  have hq1 := getPipeIdx_checkedEvent (hl _ (List.mem_of_getElem? hi)).1 x.clock
  have hq2 := getPipeIdx_checkedEvent (hl _ (List.mem_of_getElem? hj)).1 y.clock
  rw [pipe_of_isMem hmx] at hp1 hq1
  rw [pipe_of_isMem hmy] at hp2 hq2
  rw [isInnerCoreRaceEvent, hc, hh, hp1, hp2, hq1, hq2]
  by_cases hne : x.pipe = y.pipe
  · simp [hne]
  · have hcand := isInnerCoreRaceCandidate_iff hrun hticks hx hmx hy hmy hne
      (show (checkedEvent (x.event, x.clock)).vt = x.clock from rfl)
      (show (checkedEvent (y.event, y.clock)).vt = y.clock from rfl)
    have hatomic : isAtomicAgainst (checkedEvent (x.event, x.clock))
        (checkedEvent (y.event, y.clock)) =
          isAtomicAgainst (.ofEvent x.event) (.ofEvent y.event) := rfl
    rw [hatomic] at hcand
    rw [if_neg hne, isMemSpaceOverlap, hd1, hd2]
    by_cases hu : (¬ Reaches tr n n' ∧ ¬ Reaches tr n' n) ∧
        isAtomicAgainst (.ofEvent x.event) (.ofEvent y.event) = false
    · simp only [hcand.mpr hu, Bool.not_true, Bool.false_eq_true, if_false, hu]
      simp [hne]
    · simp only [Bool.eq_false_iff.mpr (mt hcand.mp hu), Bool.not_false, if_true, hu]
      simp

lemma isInnerCoreRaceEvent_iff (hrun : IsRun b tr)
    (hticks : ∀ p, (tr.filter fun x => x.pipe = p).length < 2 ^ 32 - 1)
    (hc : c < ((memEvents tr).map checkedEvent).length)
    (hh : h < ((memEvents tr).map checkedEvent).length) :
    (isInnerCoreRaceEvent ⟨kt, dt⟩ ((memEvents tr).map checkedEvent) c h).race = true ↔
      Unordered tr c h ∧ isMemoryOverlap (eventAt ((memEvents tr).map checkedEvent) c).memInfo
        (eventAt ((memEvents tr).map checkedEvent) h).memInfo = true := by
  rw [List.length_map] at hc hh
  constructor
  · intro hrace
    obtain ⟨n, x, hx, hmx, hcx⟩ := exists_step hc
    obtain ⟨n', y, hy, hmy, hhy⟩ := exists_step hh
    obtain ⟨-, hu, hov⟩ := (isInnerCoreRaceEvent_steps hlab hl hdyn hrun hticks hx hmx hcx hy hmy
      hhy).mp hrace
    exact ⟨⟨n, n', x, y, ⟨hx, hmx, hcx⟩, ⟨hy, hmy, hhy⟩, hu⟩, hov⟩
  · rintro ⟨⟨n, n', x, y, ⟨hx, hmx, hcx⟩, ⟨hy, hmy, hhy⟩, hu⟩, hov⟩
    exact (isInnerCoreRaceEvent_steps hlab hl hdyn hrun hticks hx hmx hcx hy hmy hhy).mpr
      ⟨pipe_ne_of_unordered hx hy hu.1, hu, hov⟩

include hplain

omit hl in
/-- The events of the check are memory operations with numbers in their words. -/
lemma plain_of_mem {e : MemEvent} (hparts : ∀ e ∈ l, parts e = [e])
    (he : e ∈ (memEvents tr).map checkedEvent) :
    e.isDynamic = false ∧ FitsScan e.memInfo ∧ e.memInfo.opType ≠ .memcpyBlocks := by
  obtain ⟨c, hc, rfl⟩ := List.mem_map.mp he
  obtain ⟨x, hx, rfl⟩ := List.mem_map.mp hc
  obtain ⟨htr, hm⟩ := List.mem_filter.mp hx
  obtain ⟨n, hn⟩ := List.getElem?_of_mem htr
  obtain ⟨i, -, hi⟩ := exists_exec hlab hn hm
  obtain ⟨op, hop⟩ := mem_of_isMem hlab hdyn hn hm
  have hmem := List.mem_of_getElem? hi
  obtain ⟨hd, hinfo, -⟩ := checkedEvent_of_mem hop x.clock
  refine ⟨hd, hinfo ▸ hplain _ hmem op hop, fun hcopy => ?_⟩
  rw [hinfo] at hcopy
  have heq := hparts _ hmem
  simp [parts, hop, hcopy] at heq

/-- **The pairs of the scan**, for the memory events of a run. -/
lemma mem_scanSingleBlockFast (hparts : ∀ e ∈ l, parts e = [e]) (hrun : IsRun b tr)
    (hticks : ∀ p, (tr.filter fun x => x.pipe = p).length < 2 ^ 32 - 1)
    (hlen : tr.length ≤ 2 ^ 32) : ∃ pairs,
      scanlineAlgorithm ⟨kt, dt⟩ .singleBlock ((memEvents tr).map checkedEvent) = some pairs ∧
      (∀ c h, (c, h) ∈ idxPairs pairs → c < ((memEvents tr).map checkedEvent).length ∧
        h < ((memEvents tr).map checkedEvent).length ∧ c ≠ h) ∧
      ∀ c h, c < ((memEvents tr).map checkedEvent).length →
        h < ((memEvents tr).map checkedEvent).length → c ≠ h →
        ((c, h) ∈ idxPairs pairs ∨ (h, c) ∈ idxPairs pairs ↔
          Unordered tr c h ∧ Clash (eventAt ((memEvents tr).map checkedEvent) c).memInfo
            (eventAt ((memEvents tr).map checkedEvent) h).memInfo) := by
  have hplain' := fun e he => plain_of_mem hlab hplain hdyn hparts (e := e) he
  have hlen' : ((memEvents tr).map checkedEvent).length ≤ 2 ^ 32 := by
    rw [List.length_map, memEvents, List.length_map]
    exact (List.length_filter_le _ _).trans hlen
  obtain ⟨pairs, hpairs, hsame⟩ := scanSingleBlockFast_same ⟨kt, dt⟩ hlen' fun i hi =>
    not_wraps_plain (fun e he => (hplain' e he).1) (fun e he => (hplain' e he).2.1) hi
  refine ⟨pairs, ?_, fun c h hch => ne_of_mem_scan hlen' ((hsame _).mp hch),
    fun c h hc hh hne => ?_⟩
  · rw [scanlineAlgorithm, if_neg, hpairs]
    rw [List.any_eq_true]
    rintro ⟨e, he, hd⟩
    rw [(hplain' e he).1] at hd
    cases hd
  · rw [hsame, hsame]
    exact mem_scan_plain_iff (fun e he => (hplain' e he).1) (fun e he => (hplain' e he).2.1)
      (fun e he => (hplain' e he).2.2) hlen' _
      (fun c h hc hh => isInnerCoreRaceEvent_iff hlab hl hdyn hrun hticks hc hh)
      (fun _ _ => Unordered.symm) hc hh hne

omit hplain hdyn in
/-- Two steps that are unordered and clash are a race of the list. -/
lemma races_iff (hrun : IsRun b tr) (hn : labs[n]? = some (.exec i)) (hi : l[i]? = some e1)
    (hn' : labs[n']? = some (.exec j)) (hj : l[j]? = some e2) :
    Races l i j e1 e2 ↔ (¬ Reaches tr n n' ∧ ¬ Reaches tr n' n) ∧
      isAtomicAgainst (.ofEvent e1) (.ofEvent e2) = false ∧
        ∃ op1 op2, e1.info = .mem op1 ∧ e2.info = .mem op2 ∧ Clash op1 op2 := by
  rw [hlab.reaches_iff hl hrun hn hn', hlab.reaches_iff hl hrun hn' hn]
  constructor
  · intro hr
    exact ⟨hr.unordered, hr.atomic, hr.clash⟩
  · rintro ⟨hu, ha, hc⟩
    exact ⟨hi, hj, hlab.runs hl hrun hn, hlab.runs hl hrun hn', hu, hc, ha⟩

omit hplain hdyn hl in
/-- The place of an operation that was executed among the events of the check. -/
lemma exists_checked_of_exec (hi : .exec i ∈ labs) (he : l[i]? = some e) {op : MemOpInfo}
    (hop : e.info = .mem op) : ∃ (n : ℕ) (x : Exec) (c : ℕ), labs[n]? = some (.exec i) ∧
      tr[n]? = some x ∧ x.isMem = true ∧ x.event = e ∧
      c < ((memEvents tr).map checkedEvent).length ∧
      eventAt ((memEvents tr).map checkedEvent) c = checkedEvent (x.event, x.clock) := by
  obtain ⟨n, hn⟩ := List.getElem?_of_mem hi
  obtain ⟨x, hx, hname⟩ := hlab.names hn
  obtain rfl : x.event = e := Option.some_inj.mp (hname.getElem?_exec.symm.trans he)
  have hm : x.isMem = true := by
    have hpipe : x.event.pipe = x.pipe := (pipeOf_eq hname.getElem?_exec).symm.trans hname.pipe
    simp [Exec.isMem, PipelineReplayer.isMemEvent, hpipe, hop]
  obtain ⟨c, hc, hat⟩ := exists_checked hx hm
  exact ⟨n, x, c, hn, hx, hm, rfl, by rwa [List.length_map], hat⟩

omit hplain hdyn in
/-- A race of the list, where all operations that get through were executed, among the events of
the check. -/
lemma exists_unordered (hrun : IsRun b tr) (hexec : ∀ i, Runs l i → .exec i ∈ labs)
    (hr : Races l i j e1 e2) :
    ∃ c h, c < ((memEvents tr).map checkedEvent).length ∧
      h < ((memEvents tr).map checkedEvent).length ∧ c ≠ h ∧
      (Unordered tr c h ∧ Clash (eventAt ((memEvents tr).map checkedEvent) c).memInfo
        (eventAt ((memEvents tr).map checkedEvent) h).memInfo) ∧
      fillRaceDispInfo false (eventAt ((memEvents tr).map checkedEvent) c)
        (eventAt ((memEvents tr).map checkedEvent) h) = report e1 e2 := by
  obtain ⟨op1, op2, hop1, hop2, hclash⟩ := hr.clash
  obtain ⟨n1, x, c, hn1, hx, hmx, rfl, hc, hcx⟩ :=
    exists_checked_of_exec hlab (hexec i hr.leftRuns) hr.left hop1
  obtain ⟨n2, y, h, hn2, hy, hmy, rfl, hh, hhy⟩ :=
    exists_checked_of_exec hlab (hexec j hr.rightRuns) hr.right hop2
  obtain ⟨-, hm1, hp1⟩ := checkedEvent_of_mem hop1 x.clock
  obtain ⟨-, hm2, hp2⟩ := checkedEvent_of_mem hop2 y.clock
  have hne : c ≠ h := by
    rintro rfl
    rw [hcx] at hhy
    exact hr.pipe_ne (by rw [← hp1, ← hp2, hhy])
  obtain ⟨hu, ha, -⟩ := (races_iff hlab hl hrun hn1 hr.left hn2 hr.right).mp hr
  refine ⟨c, h, hc, hh, hne,
    ⟨⟨n1, n2, x, y, ⟨hx, hmx, hcx⟩, ⟨hy, hmy, hhy⟩, hu, ha⟩, ?_⟩, ?_⟩
  · rwa [hcx, hhy, hm1, hm2]
  · rw [hcx, hhy]
    rfl

omit hplain in
lemma races_of_unordered (hrun : IsRun b tr) (hu : Unordered tr c h)
    (hclash : Clash (eventAt ((memEvents tr).map checkedEvent) c).memInfo
      (eventAt ((memEvents tr).map checkedEvent) h).memInfo) :
    ∃ i j e1 e2, Races l i j e1 e2 ∧
      fillRaceDispInfo false (eventAt ((memEvents tr).map checkedEvent) c)
        (eventAt ((memEvents tr).map checkedEvent) h) = report e1 e2 := by
  obtain ⟨n1, n2, x, y, ⟨hx, hmx, hcx⟩, ⟨hy, hmy, hhy⟩, hu, ha⟩ := hu
  obtain ⟨i, hn1, hi⟩ := exists_exec hlab hx hmx
  obtain ⟨j, hn2, hj⟩ := exists_exec hlab hy hmy
  obtain ⟨op1, hop1⟩ := mem_of_isMem hlab hdyn hx hmx
  obtain ⟨op2, hop2⟩ := mem_of_isMem hlab hdyn hy hmy
  obtain ⟨-, hm1, -⟩ := checkedEvent_of_mem hop1 x.clock
  obtain ⟨-, hm2, -⟩ := checkedEvent_of_mem hop2 y.clock
  rw [hcx, hhy, hm1, hm2] at hclash
  refine ⟨i, j, x.event, y.event, ?_, by rw [hcx, hhy]; rfl⟩
  exact (races_iff hlab hl hrun hn1 hi hn2 hj).mpr ⟨hu, ha, op1, op2, hop1, hop2, hclash⟩

end

variable {blockDim : ℕ}

/-- **The check of a block reports its races.** -/
theorem reports_block_races (hl : ∀ e ∈ events, InBlock kt dt b e)
    (hb : b < RaceAlgImpl.totalBlockNum kt dt blockDim) (hlen : 6 * events.length < 2 ^ 32 - 1)
    (hplain : ∀ e ∈ events.flatMap parts, ∀ op, e.info = .mem op → FitsScan op)
    (hdyn : ∀ e ∈ events.flatMap parts, ∀ op, e.info ≠ .dynamicMem op) :
    (∃ n, Stopped (replay kt dt blockDim events n)) ∧
      ∀ n, Stopped (replay kt dt blockDim events n) →
        ∃ result, results kt dt blockDim events n = some result ∧
          (∀ i j e1 e2, Races (events.flatMap parts) i j e1 e2 →
            ∃ r ∈ result, errorEventEqual r (report e1 e2) = true) ∧
          (∀ r ∈ result, ∃ i j e1 e2, Races (events.flatMap parts) i j e1 e2 ∧
            r = report e1 e2) ∧
          result.Pairwise fun r r' => errorEventEqual r r' = false := by
  obtain ⟨hends, hstop⟩ := replay_stuck hl hb (by omega)
  refine ⟨hends, fun n hn => ?_⟩
  obtain ⟨tr, s, hp, hstuck, halg⟩ := hstop n hn
  have h₀ := fit_start blockDim hl
  have hl' : ∀ e ∈ events.flatMap parts, InBlock kt dt b e ∧ parts e = [e] := by
    intro e he
    obtain ⟨e₀, he₀, hpart⟩ := List.mem_flatMap.mp he
    exact mem_parts_block hpart (hl e₀ he₀)
  obtain ⟨labs, todo, m, hlab⟩ := hp.labelled h₀ ⟨_, _, _, labelled_start hl hb⟩
  have hunder := hp.underway h₀ (underway_start kt dt blockDim hl)
  have hrun := hp.isRun h₀ (underway_start kt dt blockDim hl)
  have htrlen : tr.length < 2 ^ 32 - 1 := by
    have h1 := hp.length_le h₀
    have h2 := @work_start_le _ _ blockDim _ _ hl
    omega
  have hticks : ∀ p, (tr.filter fun x => x.pipe = p).length < 2 ^ 32 - 1 :=
    fun p => lt_of_le_of_lt (List.length_filter_le _ _) htrlen
  have hchecked : (replay kt dt blockDim events n).handler.checked = memEvents tr := by
    rw [← halg, hp.checked_eq h₀]
    rfl
  obtain ⟨pairs, hpairs, hrange, hscan⟩ := mem_scanSingleBlockFast hlab
    (fun e he => (hl' e he).1) hplain hdyn (fun e he => (hl' e he).2) hrun hticks (by omega)
  obtain ⟨result, hresult, hres⟩ := runAlgorithm_results hpairs
  have hexec : ∀ i, Runs (events.flatMap parts) i → .exec i ∈ labs := fun _ =>
    hlab.exec_of_runs (fun e he => (hl' e he).1) hunder (hp.fit h₀) hstuck
  refine ⟨result, by rw [results, hchecked, hresult], fun i j e1 e2 hr => ?_, fun r hr => ?_,
    hres.once⟩
  · obtain ⟨c, h, hc, hh, hne, hrace, heq⟩ :=
      exists_unordered hlab (fun e he => (hl' e he).1) hrun hexec hr
    exact heq ▸ hres.reported ((hscan c h hc hh hne).mpr hrace)
  · obtain ⟨c, h, hpair, rfl⟩ := hres.sound r hr
    obtain ⟨hc, hh, hne⟩ := hrange c h hpair
    obtain ⟨hu, hclash⟩ := (hscan c h hc hh hne).mp (.inl hpair)
    exact races_of_unordered hlab (fun e he => (hl' e he).1) hdyn hrun hu hclash

/-- An access to the first 32 bytes of the unified buffer. -/
def ubAccess (opType : AccessType) : EventInfo :=
  .mem { opType, memType := .ub, blockNum := 1, blockSize := 32, repeatTimes := 1 }

lemma fitsScan_ubAccess {opType : AccessType} {op : MemOpInfo} (h : ubAccess opType = .mem op) :
    FitsScan op := by
  cases h
  exact .inr ⟨⟨Nat.one_pos, by norm_num, Nat.one_pos, .inl rfl, by norm_num [OpExtent.extent]⟩,
    by norm_num [OpExtent.extent]⟩

/-- A copy in that sets a flag for the vector pipe, and a copy out that does not wait. The barrier
of the vector pipe does not order them. -/
def copyEvents : List SanEvent :=
  [{ pipe := .mte2, info := ubAccess .write },
    { pipe := .mte2, info := .sync { opType := .setFlag, srcPipe := .mte2, dstPipe := .v } },
    { pipe := .v, info := .sync { opType := .waitFlag, srcPipe := .mte2, dstPipe := .v } },
    { pipe := .v, info := ubAccess .write },
    { pipe := .v, info := .sync { opType := .pipeBarrier, srcPipe := .v, dstPipe := .v } },
    { pipe := .mte3, info := ubAccess .read }]

theorem reports_block_races_copy :
    (∃ n, Stopped (replay .aivec ⟨0⟩ 1 copyEvents n)) ∧
      ∀ n, Stopped (replay .aivec ⟨0⟩ 1 copyEvents n) →
        ∃ result, results .aivec ⟨0⟩ 1 copyEvents n = some result ∧
          (∀ i j e1 e2, Races (copyEvents.flatMap parts) i j e1 e2 →
            ∃ r ∈ result, errorEventEqual r (report e1 e2) = true) ∧
          (∀ r ∈ result, ∃ i j e1 e2, Races (copyEvents.flatMap parts) i j e1 e2 ∧
            r = report e1 e2) ∧
          result.Pairwise fun r r' => errorEventEqual r r' = false := by
  have hparts : copyEvents.flatMap parts = copyEvents := rfl
  refine reports_block_races (b := 0) ?_ (by decide) (by decide) ?_ ?_
  · simp only [copyEvents, List.mem_cons, List.not_mem_nil, or_false, forall_eq_or_imp, forall_eq]
    exact ⟨⟨rfl, .inl rfl⟩, ⟨rfl, .inr ⟨_, rfl, fun _ => rfl, nofun⟩⟩,
      ⟨rfl, .inr ⟨_, rfl, nofun, fun _ => rfl⟩⟩, ⟨rfl, .inl rfl⟩,
      ⟨rfl, .inr ⟨_, rfl, nofun, nofun⟩⟩, ⟨rfl, .inl rfl⟩⟩
  · rw [hparts]
    simp only [copyEvents, List.mem_cons, List.not_mem_nil, or_false, forall_eq_or_imp, forall_eq]
    exact ⟨fun _ => fitsScan_ubAccess, nofun, nofun, fun _ => fitsScan_ubAccess, nofun,
      fun _ => fitsScan_ubAccess⟩
  · rw [hparts]
    simp [copyEvents, ubAccess]

end MsSanitizer.BlockReplay
