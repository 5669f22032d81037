import MsSanitizer.PipeLine
import Mathlib.Logic.Function.Iterate

/-!
# Why the replay of one device stops

`Run` takes a device for stuck when a whole round over its blocks popped no event. The
invariant (`Rounds`) says what the counters know: as long as the round popped nothing, every
queue before the current position has been seen empty, or its front event has been offered and
has stalled since the last event that was processed.

Two things can spoil it, and `StepOk` excludes them at each step: a handler that stalls and
still pushes into a queue that was empty, since the round may have passed that queue, and a
round of `2 ^ 32` pops, after which the 32-bit counter reads `0` again.
-/

namespace MsSanitizer.PipeLine

open RecordDefs EventDef

variable {σ : Type*} {func : EventFunc σ}

/-! ## The container -/

namespace EventContainer

/-- Pushes change the queues and nothing else, and only append to them. -/
lemma foldl_push_eq (pushes : List Push) (c : EventContainer) :
    ∃ ques, pushes.foldl push c = { c with ques := ques } ∧ ∀ q, c.ques q <+: ques q := by
  induction pushes generalizing c with
  | nil => exact ⟨c.ques, rfl, fun q => List.prefix_rfl⟩
  | cons p pushes ih =>
    have hpush : ∃ ques, push c p = { c with ques := ques } ∧ ∀ q, c.ques q <+: ques q := by
      unfold push
      split_ifs
      · exact ⟨c.ques, rfl, fun q => List.prefix_rfl⟩
      · refine ⟨_, rfl, fun q => ?_⟩
        rw [Function.update_apply]
        split_ifs with hq
        · rw [hq]
          exact List.prefix_append _ _
        · exact List.prefix_rfl
    obtain ⟨ques, heq, hpre⟩ := hpush
    obtain ⟨ques', heq', hpre'⟩ := ih (push c p)
    refine ⟨ques', ?_, fun q => ?_⟩
    · rw [List.foldl_cons, heq', heq]
    · refine (hpre q).trans ?_
      have h := hpre' q
      rwa [heq] at h

lemma emptyFrom_iff {c : EventContainer} {start n : ℕ} :
    c.emptyFrom start n = true ↔ ∀ i < n, c.ques (start + i) = [] := by
  simp [emptyFrom]

lemma switchToNextPipe_ques (c : EventContainer) : c.switchToNextPipe.ques = c.ques := by
  unfold switchToNextPipe
  split_ifs <;> rfl

lemma switchToNextBlock_ques (c : EventContainer) : c.switchToNextBlock.ques = c.ques := by
  unfold switchToNextBlock
  split_ifs <;> rfl

end EventContainer

lemma run_succ (p : PipeLine σ) (n : ℕ) : run func p (n + 1) = step func (run func p n) :=
  Function.iterate_succ_apply' _ _ _

/-! ## Offers -/

/-- The next round of the loop processes the front event. -/
def Processes (func : EventFunc σ) (p : PipeLine σ) : Prop :=
  p.pipeState = .processEvent ∧ ∃ r, reply func p = some r ∧ r.ret = .processOk

/-- The next round of the loop offers `e`, the front of queue `q`, and the handler stalls. -/
def StallsOn (func : EventFunc σ) (p : PipeLine σ) (q : ℕ) (e : SanEvent) : Prop :=
  p.pipeState = .processEvent ∧ p.events.getQueIndex = q ∧ (p.events.ques q).head? = some e ∧
    ∃ r, reply func p = some r ∧ r.ret = .processStalled

/-- The event that is the front of queue `q` after `n` rounds has been offered and has stalled
since the last event that was processed. -/
def Offered (func : EventFunc σ) (p : PipeLine σ) (n q : ℕ) : Prop :=
  ∃ i < n, ∃ e, StallsOn func (run func p i) q e ∧
    ((run func p n).events.ques q).head? = some e ∧
    ∀ j, i ≤ j → j < n → ¬ Processes func (run func p j)

/-- A step that neither pushes into an empty queue while it stalls nor wraps the counter of
popped events. -/
def StepOk (func : EventFunc σ) (p : PipeLine σ) : Prop :=
  p.pipeState = .processEvent → ∀ r, reply func p = some r →
    (r.ret = .processStalled →
      ∀ q, p.events.ques q = [] → (r.pushes.foldl .push p.events).ques q = []) ∧
    (r.ret = .processOk → p.events.devicePopCount + 1 < 2 ^ 32)

/-- A queue is empty, or its front has been offered. -/
def Handled (func : EventFunc σ) (p : PipeLine σ) (n q : ℕ) : Prop :=
  (run func p n).events.ques q = [] ∨ Offered func p n q

/-- A step that processes nothing only appends to queues that are not empty. -/
lemma step_ques {p : PipeLine σ} (hok : StepOk func p) (hp : ¬ Processes func p) (q : ℕ) :
    p.events.ques q <+: (step func p).events.ques q ∧
      (p.events.ques q = [] → (step func p).events.ques q = []) := by
  have hsame : ∀ {p' : PipeLine σ}, p'.events.ques = p.events.ques →
      p.events.ques q <+: p'.events.ques q ∧ (p.events.ques q = [] → p'.events.ques q = []) :=
    fun h => by rw [h]; exact ⟨List.prefix_rfl, id⟩
  unfold step
  cases hs : p.pipeState with
  | checkAllDevice => exact hsame rfl
  | checkCurDevice =>
    refine hsame ?_
    unfold checkCurDevice EventContainer.checkCurDeviceStuck
    split_ifs <;> rfl
  | checkCurBlock =>
    refine hsame ?_
    unfold checkCurBlock
    split_ifs
    · exact p.events.switchToNextBlock_ques
    · rfl
  | checkCurPipe =>
    refine hsame ?_
    unfold checkCurPipe
    split_ifs
    · exact p.events.switchToNextPipe_ques
    · rfl
  | processEvent =>
    cases hr : reply func p with
    | none =>
      refine hsame ?_
      simp only [process, hr]
    | some r =>
      cases hret : r.ret with
      | processOk => exact absurd ⟨hs, r, hr, hret⟩ hp
      | processStalled =>
        simp only [process, hr, hret, EventContainer.switchToNextPipe_ques]
        obtain ⟨ques, heq, hpre⟩ := p.events.foldl_push_eq r.pushes
        refine ⟨?_, (hok hs r hr).1 hret q⟩
        rw [heq]
        exact hpre q
  | exit => exact hsame rfl
  | exception => exact hsame rfl

/-- What is handled stays handled until an event is processed. -/
lemma Handled.succ {p : PipeLine σ} {n q : ℕ} (h : Handled func p n q)
    (hok : StepOk func (run func p n)) (hp : ¬ Processes func (run func p n)) :
    Handled func p (n + 1) q := by
  obtain ⟨hpre, hempty⟩ := step_ques hok hp q
  rw [← run_succ] at hpre hempty
  rcases h with h | ⟨i, hi, e, hst, hfront, hnone⟩
  · exact .inl (hempty h)
  · refine .inr ⟨i, by omega, e, hst, ?_, fun j hij hj => ?_⟩
    · obtain ⟨tail, htail⟩ := hpre
      rw [← htail, List.head?_append, hfront]
      rfl
    · rcases Nat.lt_succ_iff_lt_or_eq.mp hj with hj | rfl
      · exact hnone j hij hj
      · exact hp

lemma handled_of_stall {p : PipeLine σ} {n q : ℕ} {e : SanEvent}
    (h : StallsOn func (run func p n) q e) (hok : StepOk func (run func p n)) :
    Handled func p (n + 1) q := by
  have hp : ¬ Processes func (run func p n) := by
    rintro ⟨-, r, hr, hret⟩
    obtain ⟨-, -, -, r', hr', hret'⟩ := h
    rw [hr] at hr'
    cases hr'
    rw [hret] at hret'
    cases hret'
  obtain ⟨hpre, -⟩ := step_ques hok hp q
  rw [← run_succ] at hpre
  refine .inr ⟨n, by omega, e, h, ?_, fun j hij hj => ?_⟩
  · obtain ⟨tail, htail⟩ := hpre
    rw [← htail, List.head?_append, h.2.2.1]
    rfl
  · obtain rfl : j = n := by omega
    exact hp

/-! ## The rounds -/

/-- What the counters and flags of one device know, for a set `H` of handled queues: before the
position all are in it while the round has popped nothing, in a stuck block and in a stuck
device all are. -/
structure Rounds (c : EventContainer) (s : PipeState) (blockNum : ℕ) (H : ℕ → Prop) : Prop where
  device : c.deviceNum = 1 ∧ c.deviceIndex = 0 ∧ c.maxBlockNum = blockNum
  range : c.pipeIndex < pipeSize ∧ (0 < blockNum → c.blockIndex < blockNum)
  count : s ≠ .exception → c.stuckDeviceNum = 0
  passed : c.devicePopCount = 0 → ∀ q < c.blockIndex * pipeSize + c.pipeIndex, H q
  block : c.isBlockStuck = true → c.devicePopCount = 0 → ∀ q < (c.blockIndex + 1) * pipeSize, H q
  stuck : c.isDeviceStuck = true →
    (s = .checkCurDevice ∨ s = .exception) ∧ ∀ q < blockNum * pipeSize, H q
  reported : s = .exception → c.isDeviceStuck = true

lemma pipeSize_pos : 0 < pipeSize := by decide

lemma getQueIndex_eq {c : EventContainer} (h : c.deviceIndex = 0) :
    c.getQueIndex = c.blockIndex * pipeSize + c.pipeIndex := by
  simp [EventContainer.getQueIndex, EventContainer.flattenPipeIdx, h]

variable {c : EventContainer} {s : PipeState} {blockNum : ℕ} {H H' : ℕ → Prop}

/-- A move of the machine that changes neither position nor counters. -/
lemma Rounds.stay (h : Rounds c s blockNum H) (hH : ∀ q, H q → H' q) {s' : PipeState}
    (hs : s' ≠ .exception) (hs' : s ≠ .exception)
    (hd : c.isDeviceStuck = true → s' = .checkCurDevice) : Rounds c s' blockNum H' := by
  refine ⟨h.device, h.range, fun _ => h.count hs', fun h0 q hq => hH q (h.passed h0 q hq),
    fun hb h0 q hq => hH q (h.block hb h0 q hq), fun hst => ⟨.inl (hd hst), fun q hq => ?_⟩,
    fun he => absurd he hs⟩
  exact hH q ((h.stuck hst).2 q hq)

lemma Rounds.nextPipe (h : Rounds c s blockNum H) (hs : s ≠ .exception)
    (hnot : c.isDeviceStuck = false) (ques : ℕ → List SanEvent) (hH : ∀ q, H q → H' q)
    (hcur : H' c.getQueIndex) :
    Rounds ({ c with ques := ques } : EventContainer).switchToNextPipe .checkCurBlock blockNum H'
    := by
  obtain ⟨hdn, hdi, hmb⟩ := h.device
  obtain ⟨hpi, hbi⟩ := h.range
  have hupto : c.devicePopCount = 0 → ∀ q ≤ c.blockIndex * pipeSize + c.pipeIndex, H' q := by
    intro h0 q hq
    rcases hq.lt_or_eq with hq | rfl
    · exact hH q (h.passed h0 q hq)
    · rw [← getQueIndex_eq hdi]
      exact hcur
  have hd : c.isDeviceStuck = true → ∀ {P : Prop}, P := by
    intro hd
    rw [hnot] at hd
    cases hd
  unfold EventContainer.switchToNextPipe
  by_cases hwrap : (c.pipeIndex + 1) % pipeSize = PipeType.s.idx
  · -- back at the scalar pipe: every queue of the block has been passed
    have hlast : c.pipeIndex + 1 = pipeSize := by
      simp only [pipeSize, PipeType.idx] at hwrap hpi ⊢
      omega
    rw [if_pos hwrap]
    refine ⟨⟨hdn, hdi, hmb⟩, ⟨PipeType.s.idx_lt, hbi⟩, fun _ => h.count hs, fun h0 q hq => ?_,
      fun _ h0 q hq => ?_, fun h => hd h, fun he => by cases he⟩
    · refine hupto h0 q ?_
      simp only [PipeType.idx] at hq
      omega
    · refine hupto h0 q ?_
      simp only [Nat.add_mul, Nat.one_mul] at hq
      omega
  · have hnext : c.pipeIndex + 1 < pipeSize := by
      simp only [pipeSize, PipeType.idx] at hwrap hpi ⊢
      omega
    rw [if_neg hwrap]
    simp only [Nat.mod_eq_of_lt hnext]
    refine ⟨⟨hdn, hdi, hmb⟩, ⟨hnext, hbi⟩, fun _ => h.count hs, fun h0 q hq => ?_,
      fun hb h0 q hq => hH q (h.block hb h0 q hq), fun h => hd h, fun he => by cases he⟩
    refine hupto h0 q ?_
    simp only at hq
    omega

/-- Moving on to the next block, from one that is stuck or empty. -/
lemma Rounds.nextBlock (h : Rounds c s blockNum H) (hs : s ≠ .exception)
    (hnot : c.isDeviceStuck = false) (hH : ∀ q, H q → H' q) (hpos : 0 < blockNum)
    (hblock : c.devicePopCount = 0 → ∀ q, c.blockIndex * pipeSize ≤ q →
      q < (c.blockIndex + 1) * pipeSize → H' q) :
    Rounds c.switchToNextBlock .checkCurDevice blockNum H' := by
  obtain ⟨hdn, hdi, rfl⟩ := h.device
  obtain ⟨hpi, hbi⟩ := h.range
  have hbi := hbi hpos
  have hupto : c.devicePopCount = 0 → ∀ q < (c.blockIndex + 1) * pipeSize, H' q := by
    intro h0 q hq
    rcases lt_or_ge q (c.blockIndex * pipeSize) with hlt | hge
    · exact hH q (h.passed h0 q (by omega))
    · exact hblock h0 q hge hq
  unfold EventContainer.switchToNextBlock
  by_cases hwrap : (c.blockIndex + 1) % c.maxBlockNum = 0
  · -- the round is over: the device is stuck when it popped nothing
    have hlast : c.blockIndex + 1 = c.maxBlockNum := by
      rcases Nat.lt_or_ge (c.blockIndex + 1) c.maxBlockNum with hlt | hge
      · rw [Nat.mod_eq_of_lt hlt] at hwrap
        omega
      · omega
    rw [if_pos hwrap]
    refine ⟨⟨hdn, hdi, rfl⟩, ⟨pipeSize_pos, fun _ => hpos⟩, fun _ => ?_,
      fun _ q hq => (by simp at hq), fun hb => (by cases hb), fun hst => ⟨.inl rfl, ?_⟩,
      fun he => by cases he⟩
    · simp only [h.count hs, ite_self]
    · rw [← hlast]
      exact hupto (by simpa using hst)
  · have hnext : c.blockIndex + 1 < c.maxBlockNum := by
      rcases Nat.lt_or_ge (c.blockIndex + 1) c.maxBlockNum with hlt | hge
      · exact hlt
      · rw [show c.blockIndex + 1 = c.maxBlockNum by omega, Nat.mod_self] at hwrap
        exact absurd rfl hwrap
    rw [if_neg hwrap]
    simp only [Nat.mod_eq_of_lt hnext]
    refine ⟨⟨hdn, hdi, rfl⟩, ⟨pipeSize_pos, fun _ => hnext⟩, fun _ => h.count hs,
      fun h0 q hq => hupto h0 q (by simpa using hq), fun hb => (by cases hb), fun hst => ?_,
      fun he => by cases he⟩
    rw [hnot] at hst
    cases hst

/-- Processing an event restarts the round's knowledge. -/
lemma Rounds.pop (h : Rounds c s blockNum H) (hs : s ≠ .exception)
    (hnot : c.isDeviceStuck = false) (ques : ℕ → List SanEvent)
    (hwrap : c.devicePopCount + 1 < 2 ^ 32) :
    Rounds ({ c with ques := ques } : EventContainer).pop .checkCurPipe blockNum H' := by
  have hne : (c.devicePopCount + 1) % 2 ^ 32 ≠ 0 := by
    rw [Nat.mod_eq_of_lt hwrap]
    omega
  refine ⟨h.device, h.range, fun _ => h.count hs, fun h0 => absurd h0 hne,
    fun _ h0 => absurd h0 hne, fun hst => ?_, fun he => by cases he⟩
  have hst : c.isDeviceStuck = true := hst
  rw [hnot] at hst
  cases hst

/-- The flag of a stuck device is only seen where the device is left. -/
lemma Rounds.notStuck (h : Rounds c s blockNum H) (h1 : s ≠ .checkCurDevice)
    (h2 : s ≠ .exception) : c.isDeviceStuck = false := by
  cases hd : c.isDeviceStuck with
  | false => rfl
  | true => exact absurd (h.stuck hd).1 (by simp [h1, h2])

/-- Where the device is not left, a move keeps what is known. -/
lemma Rounds.stay_of_ne (h : Rounds c s blockNum H) (hH : ∀ q, H q → H' q) {s' : PipeState}
    (hs' : s' ≠ .exception) (h1 : s ≠ .checkCurDevice) (h2 : s ≠ .exception) :
    Rounds c s' blockNum H' :=
  h.stay hH hs' h2 fun hd => by rw [h.notStuck h1 h2] at hd; cases hd

/-! ### One lemma for each state -/

section
variable {p : PipeLine σ}

/-- `CheckCurDevice`: the device is reported when it is stuck, and else the round begins anew. -/
lemma Rounds.curDevice (h : Rounds p.events .checkCurDevice blockNum H) (hH : ∀ q, H q → H' q) :
    Rounds p.checkCurDevice.events p.checkCurDevice.pipeState blockNum H' := by
  obtain ⟨hdn, hdi, hmb⟩ := h.device
  have hcount := h.count (by simp)
  unfold checkCurDevice
  cases hd : p.events.isDeviceStuck with
  | true =>
    -- the one device is stuck, so all of them are
    have hall : p.events.checkCurDeviceStuck.isAllDeviceStuck = true := by
      simp [EventContainer.checkCurDeviceStuck, EventContainer.isAllDeviceStuck, hd, hdn, hcount]
    rw [if_pos (by simp [EventContainer.isNeedSwitchNextDevice, hd]), if_pos hall]
    simp only [EventContainer.checkCurDeviceStuck, hd, if_true]
    exact ⟨h.device, h.range, fun he => absurd rfl he, fun h0 q hq => hH q (h.passed h0 q hq),
      fun hb h0 q hq => hH q (h.block hb h0 q hq),
      fun _ => ⟨.inr rfl, fun q hq => hH q ((h.stuck hd).2 q hq)⟩, fun _ => rfl⟩
  | false =>
    by_cases hn : p.events.isNeedSwitchNextDevice = true
    · have hall : ¬ p.events.checkCurDeviceStuck.isAllDeviceStuck = true := by
        simp [EventContainer.checkCurDeviceStuck, EventContainer.isAllDeviceStuck, hd, hdn]
      rw [if_pos hn, if_neg hall]
      simp only [EventContainer.checkCurDeviceStuck, hd, EventContainer.switchToNextDevice]
      refine ⟨⟨hdn, ?_, hmb⟩, ⟨pipeSize_pos, fun h => h⟩, fun _ => rfl,
        fun _ q hq => (by simp at hq), fun hb => (by cases hb), fun hst => (by cases hst),
        fun he => by cases he⟩
      simp [hdn, Nat.mod_one]
    · rw [if_neg hn]
      exact h.stay hH (by simp) (by simp) fun h' => by rw [hd] at h'; cases h'

/-- `CheckCurBlock`: a block is left when it is stuck or has no events. -/
lemma Rounds.curBlock (h : Rounds p.events .checkCurBlock blockNum H) (hpos : 0 < blockNum)
    (hH : ∀ q, H q → H' q) (hempty : ∀ q, p.events.ques q = [] → H' q) :
    Rounds p.checkCurBlock.events p.checkCurBlock.pipeState blockNum H' := by
  obtain ⟨-, hdi, -⟩ := h.device
  unfold checkCurBlock
  by_cases hn : p.events.isNeedSwitchNextBlock = true
  · rw [if_pos hn]
    refine h.nextBlock (by simp) (h.notStuck (by simp) (by simp)) hH hpos fun h0 q hlo hhi => ?_
    rw [EventContainer.isNeedSwitchNextBlock, Bool.or_eq_true] at hn
    rcases hn with hb | he
    · exact hH q (h.block hb h0 q hhi)
    · rw [EventContainer.isCurBlockEmpty, EventContainer.emptyFrom_iff] at he
      have hq := he (q - p.events.blockIndex * pipeSize) (by
        rw [Nat.add_mul, Nat.one_mul] at hhi
        omega)
      have hidx : p.events.flattenPipeIdx 0 p.events.blockIndex p.events.deviceIndex +
          (q - p.events.blockIndex * pipeSize) = q := by
        simp [EventContainer.flattenPipeIdx, hdi]
        omega
      rw [hidx] at hq
      exact hempty q hq
  · rw [if_neg hn]
    exact h.stay_of_ne hH (by simp) (by simp) (by simp)

/-- `CheckCurPipe`: an empty queue is passed. -/
lemma Rounds.curPipe (h : Rounds p.events .checkCurPipe blockNum H) (hH : ∀ q, H q → H' q)
    (hempty : ∀ q, p.events.ques q = [] → H' q) :
    Rounds p.checkCurPipe.events p.checkCurPipe.pipeState blockNum H' := by
  unfold checkCurPipe
  by_cases hn : p.events.isCurQueEmpty = true
  · rw [if_pos hn]
    exact h.nextPipe (by simp) (h.notStuck (by simp) (by simp)) _ hH
      (hempty _ (by simpa [EventContainer.isCurQueEmpty] using hn))
  · rw [if_neg hn]
    exact h.stay_of_ne hH (by simp) (by simp) (by simp)

/-- `Process`: the event is popped, or its queue is passed for it stalls. -/
lemma Rounds.processed (h : Rounds p.events .processEvent blockNum H)
    (hs : p.pipeState = .processEvent) (hok : StepOk func p)
    (hH : ¬ Processes func p → ∀ q, H q → H' q)
    (hstall : ∀ q e, StallsOn func p q e → H' q) :
    Rounds (p.process func).events (p.process func).pipeState blockNum H' := by
  have hnot := h.notStuck (by simp) (by simp)
  unfold process
  cases hr : reply func p with
  | none =>
    have hp : ¬ Processes func p := fun ⟨_, r, hr', _⟩ => by rw [hr] at hr'; cases hr'
    simp only [hs]
    exact h.stay_of_ne (hH hp) (by simp) (by simp) (by simp)
  | some r =>
    obtain ⟨ques, heq, -⟩ := p.events.foldl_push_eq r.pushes
    simp only [heq]
    cases hret : r.ret with
    | processOk => exact h.pop (by simp) hnot ques ((hok hs r hr).2 hret)
    | processStalled =>
      have hp : ¬ Processes func p := fun ⟨_, r', hr', hret'⟩ => by
        rw [hr] at hr'
        cases hr'
        rw [hret] at hret'
        cases hret'
      -- the front that the handler was offered
      obtain ⟨e, he, -⟩ := Option.map_eq_some_iff.mp hr
      exact h.nextPipe (by simp) hnot ques (hH hp) (hstall _ e ⟨hs, rfl, he, r, hr, hret⟩)

end

/-- **One step of the machine.** -/
lemma Rounds.step {p : PipeLine σ} {n : ℕ} (hpos : 0 < blockNum)
    (h : Rounds (run func p n).events (run func p n).pipeState blockNum (Handled func p n))
    (hok : StepOk func (run func p n)) :
    Rounds (run func p (n + 1)).events (run func p (n + 1)).pipeState blockNum
      (Handled func p (n + 1)) := by
  have hH : ¬ Processes func (run func p n) → ∀ q, Handled func p n q → Handled func p (n + 1) q :=
    fun hp q hq => hq.succ hok hp
  have hquiet : (run func p n).pipeState ≠ .processEvent →
      ∀ q, Handled func p n q → Handled func p (n + 1) q := fun hs => hH fun hp => hs hp.1
  have hempty : (run func p n).pipeState ≠ .processEvent →
      ∀ q, (run func p n).events.ques q = [] → Handled func p (n + 1) q :=
    fun hs q hq => hquiet hs q (.inl hq)
  have hstep : run func p (n + 1) = PipeLine.step func (run func p n) := run_succ p n
  cases hs : (run func p n).pipeState with
  | checkAllDevice =>
    rw [hs] at h
    simp only [PipeLine.step, hs, checkAllDevice] at hstep
    rw [hstep]
    refine h.stay_of_ne (hquiet (by simp [hs])) ?_ (by simp) (by simp)
    simp only
    split_ifs <;> simp
  | checkCurDevice =>
    rw [hs] at h
    simp only [PipeLine.step, hs] at hstep
    rw [hstep]
    exact h.curDevice (hquiet (by simp [hs]))
  | checkCurBlock =>
    rw [hs] at h
    simp only [PipeLine.step, hs] at hstep
    rw [hstep]
    exact h.curBlock hpos (hquiet (by simp [hs])) (hempty (by simp [hs]))
  | checkCurPipe =>
    rw [hs] at h
    simp only [PipeLine.step, hs] at hstep
    rw [hstep]
    exact h.curPipe (hquiet (by simp [hs])) (hempty (by simp [hs]))
  | processEvent =>
    rw [hs] at h
    simp only [PipeLine.step, hs] at hstep
    rw [hstep]
    exact h.processed hs hok hH fun q e hstall => handled_of_stall hstall hok
  | exit =>
    rw [hs] at h
    simp only [PipeLine.step, hs] at hstep
    rw [hstep, hs]
    exact h.stay_of_ne (hquiet (by simp [hs])) (by simp) (by simp) (by simp)
  | exception =>
    have hH := hquiet (by simp [hs])
    rw [hs] at h
    simp only [PipeLine.step, hs] at hstep
    rw [hstep, hs]
    exact ⟨h.device, h.range, h.count, fun h0 q hq => hH q (h.passed h0 q hq),
      fun hb h0 q hq => hH q (h.block hb h0 q hq),
      fun hst => ⟨.inr rfl, fun q hq => hH q ((h.stuck hst).2 q hq)⟩, h.reported⟩

lemma rounds_run (hpos : 0 < blockNum) (pushes : List Push) (handler : σ) {n : ℕ}
    (hok : ∀ j < n, StepOk func (run func (start blockNum 1 pushes handler) j)) :
    Rounds (run func (start blockNum 1 pushes handler) n).events
      (run func (start blockNum 1 pushes handler) n).pipeState blockNum
      (Handled func (start blockNum 1 pushes handler) n) := by
  induction n with
  | zero =>
    obtain ⟨ques, heq, -⟩ := (EventContainer.init blockNum 1).foldl_push_eq pushes
    simp only [run, Function.iterate_zero, id_eq, start]
    rw [heq]
    exact ⟨⟨rfl, rfl, rfl⟩, ⟨pipeSize_pos, fun h => h⟩, fun _ => rfl,
      fun _ q hq => (by simp [EventContainer.init] at hq), fun hb => (by cases hb),
      fun hst => (by cases hst), fun he => by cases he⟩
  | succ n ih => exact (ih fun j hj => hok j (by omega)).step hpos (hok n (by omega))

/-- `Run` ends normally only from the test that all queues are empty. -/
lemma exit_isEmpty {p : PipeLine σ} (h0 : p.pipeState ≠ .exit) {n : ℕ}
    (h : (run func p n).pipeState = .exit) : (run func p n).events.isEmpty = true := by
  induction n with
  | zero => exact absurd h h0
  | succ n ih =>
    rw [run_succ] at h ⊢
    cases hs : (run func p n).pipeState with
    | checkAllDevice =>
      simp only [step, hs, checkAllDevice] at h ⊢
      split_ifs at h with he
      exact he
    | checkCurDevice =>
      simp only [step, hs, checkCurDevice] at h
      split_ifs at h
    | checkCurBlock =>
      simp only [step, hs, checkCurBlock] at h
      split_ifs at h
    | checkCurPipe =>
      simp only [step, hs, checkCurPipe] at h
      split_ifs at h
    | processEvent =>
      simp only [step, hs, process] at h
      cases hr : reply func (run func p n) with
      | none =>
        rw [hr] at h
        rw [hs] at h
        cases h
      | some r =>
        rw [hr] at h
        cases hret : r.ret with
        | processOk => simp only [hret] at h; cases h
        | processStalled => simp only [hret] at h; cases h
    | exit =>
      simp only [step, hs]
      exact ih hs
    | exception =>
      simp only [step, hs] at h
      cases h

/-- **Run stops for the right reason**, on one device and for every handler: it ends normally
only with every queue empty, and it reports that it is stuck only when the front event of every
queue that is not empty has been offered since the last event that was processed, and has
stalled. -/
theorem run_stops_rightly (blockNum : ℕ) (pushes : List Push) (handler : σ) (n : ℕ)
    (hok : ∀ j < n, StepOk func (run func (start blockNum 1 pushes handler) j)) :
    ((run func (start blockNum 1 pushes handler) n).pipeState = .exit →
      ∀ q < blockNum * pipeSize, (run func (start blockNum 1 pushes handler) n).events.ques q = [])
    ∧ ((run func (start blockNum 1 pushes handler) n).pipeState = .exception →
      ∀ q < blockNum * pipeSize,
        (run func (start blockNum 1 pushes handler) n).events.ques q ≠ [] →
        Offered func (start blockNum 1 pushes handler) n q) := by
  rcases Nat.eq_zero_or_pos blockNum with rfl | hpos
  · exact ⟨fun _ q hq => by omega, fun _ q hq => by omega⟩
  have h := rounds_run hpos pushes handler hok
  obtain ⟨hdn, -, hmb⟩ := h.device
  refine ⟨fun hs q hq => ?_, fun hs q hq hne => ?_⟩
  · have he := exit_isEmpty (by simp [start]) hs
    rw [EventContainer.isEmpty, EventContainer.emptyFrom_iff] at he
    have hq := he q (by rw [EventContainer.queNum, hdn, hmb, Nat.one_mul]; exact hq)
    rwa [Nat.zero_add] at hq
  · exact ((h.stuck (h.reported hs)).2 q hq).resolve_left hne

/-- A memory event on the vector pipe of block `0`. -/
def vectorPush : Push := { event := { info := .mem {}, pipe := .v }, pipe := .v, blockIdx := 0 }

def stallAlways : EventFunc Unit := fun _ _ _ => { ret := .processStalled, state := () }

theorem run_stops_rightly_at :
    (run stallAlways (start 1 1 [vectorPush] ()) 29).pipeState = .exception ∧
      Offered stallAlways (start 1 1 [vectorPush] ()) 29 1 := by
  have hexc : (run stallAlways (start 1 1 [vectorPush] ()) 29).pipeState = .exception := by
    decide
  have hok : ∀ p : PipeLine Unit, StepOk stallAlways p := by
    intro p _ r hr
    obtain ⟨e, -, rfl⟩ := Option.map_eq_some_iff.mp hr
    exact ⟨fun _ q hq => hq, fun h => by cases h⟩
  exact ⟨hexc, (run_stops_rightly 1 [vectorPush] () 29 fun j _ => hok _).2 hexc 1 (by decide)
    (by decide)⟩

/-- A handler that stalls and pushes an event to the scalar pipe each time. -/
def stallPushing : EventFunc Unit := fun _ _ e =>
  { ret := .processStalled, state := (), pushes := [{ event := e, pipe := .s, blockIdx := 0 }] }

/-- A memory event on the scalar pipe of block `0`. -/
def scalarPush : Push := { event := { info := .mem {}, pipe := .s }, pipe := .s, blockIdx := 0 }

/-- A handler that processes every event; one of the vector pipe makes it push an event to the
scalar pipe. -/
def okPushing : EventFunc Unit := fun _ _ e =>
  { ret := .processOk, state := (), pushes := if e.pipe = .v then [scalarPush] else [] }

/-- The pipeline with `k` events left on the scalar pipe and one on the vector pipe, after
`m` pops in the first round. -/
def draining (k m : ℕ) (s : PipeState) : PipeLine Unit :=
  { events :=
      { ques := fun q => if q = 0 then List.replicate k scalarPush.event
          else if q = 1 then [vectorPush.event] else []
        deviceNum := 1, maxBlockNum := 1, blockPopCount := m, devicePopCount := m }
    handler := ()
    pipeState := s }

lemma draining_check (k m : ℕ) :
    step okPushing (draining (k + 1) m .checkCurPipe) = draining (k + 1) m .processEvent := rfl

lemma draining_process (k : ℕ) {m : ℕ} (hm : (m + 1) % 2 ^ 32 = m + 1) :
    step okPushing (draining (k + 1) m .processEvent) = draining k (m + 1) .checkCurPipe := by
  have hstep : step okPushing (draining (k + 1) m .processEvent)
      = { draining (k + 1) m .checkCurPipe with
          events := (draining (k + 1) m .checkCurPipe).events.pop } := rfl
  have hques : Function.update (draining (k + 1) m .checkCurPipe).events.ques 0
      (List.replicate k scalarPush.event) = (draining k m .checkCurPipe).events.ques := by
    funext q
    rw [Function.update_apply]
    by_cases hq : q = 0 <;> simp [draining, hq]
  rw [hstep]
  simp only [EventContainer.pop]
  have hidx : (draining (k + 1) m .checkCurPipe).events.getQueIndex = 0 := rfl
  have htail : ((draining (k + 1) m .checkCurPipe).events.ques 0).tail
      = List.replicate k scalarPush.event := rfl
  rw [hidx, htail, hques]
  simp only [draining, hm]

lemma draining_run (k : ℕ) {m : ℕ} (hm : m + k < 2 ^ 32) :
    run okPushing (draining k m .checkCurPipe) (2 * k) = draining 0 (m + k) .checkCurPipe := by
  induction k generalizing m with
  | zero => rfl
  | succ k ih =>
    have hmod : (m + 1) % 2 ^ 32 = m + 1 := Nat.mod_eq_of_lt (by omega)
    rw [show 2 * (k + 1) = 2 * k + 1 + 1 by omega, run, Function.iterate_succ_apply,
      Function.iterate_succ_apply, draining_check, draining_process k hmod]
    have ih := ih (m := m + 1) (by omega)
    rw [run] at ih
    rw [ih, show m + 1 + k = m + (k + 1) by omega]

lemma start_draining (k : ℕ) :
    start 1 1 (List.replicate k scalarPush ++ [vectorPush]) ()
      = draining k 0 .checkAllDevice := by
  have hscalar : (List.replicate k scalarPush).foldl .push (EventContainer.init 1 1)
      = { EventContainer.init 1 1 with
          ques := fun q => if q = 0 then List.replicate k scalarPush.event else [] } := by
    induction k with
    | zero => simp [EventContainer.init]
    | succ k ih =>
      rw [List.replicate_succ', List.foldl_append, ih]
      refine congrArg (fun ques => { EventContainer.init 1 1 with ques := ques }) ?_
      funext q
      rw [Function.update_apply]
      by_cases hq : q = 0
      · simp [hq, List.replicate_succ', EventContainer.parts, scalarPush,
          EventContainer.flattenPipeIdx, PipeType.idx]
      · simp [hq, scalarPush, EventContainer.flattenPipeIdx, PipeType.idx]
  unfold start
  rw [List.foldl_append, hscalar]
  refine congrArg (fun ques => { draining k 0 .checkAllDevice with
    events := { EventContainer.init 1 1 with ques := ques } }) ?_
  funext q
  rw [Function.update_apply]
  by_cases hq : q = 1
  · simp [hq, EventContainer.parts, vectorPush, EventContainer.flattenPipeIdx, PipeType.idx]
  · simp [hq, vectorPush, EventContainer.flattenPipeIdx, PipeType.idx]

/-- The vector pipe has an event: nothing is skipped on the way to the first pipe. -/
lemma run_three (k : ℕ) :
    run okPushing (draining k 0 .checkAllDevice) 3 = draining k 0 .checkCurPipe := by
  have hne : ∀ s n, 1 < n → (draining k 0 s).events.emptyFrom 0 n = false := by
    intro s n hn
    rw [Bool.eq_false_iff]
    intro h
    rw [EventContainer.emptyFrom_iff] at h
    have h1 := h 1 hn
    simp [draining] at h1
  have h1 : step okPushing (draining k 0 .checkAllDevice) = draining k 0 .checkCurDevice := by
    have h : (draining k 0 .checkAllDevice).events.isEmpty = false :=
      hne _ _ (by show 1 < 1 * 1 * pipeSize; decide)
    rw [step, draining, ← draining, checkAllDevice, h]
    rfl
  have h2 : step okPushing (draining k 0 .checkCurDevice) = draining k 0 .checkCurBlock := by
    have h : (draining k 0 .checkCurDevice).events.isNeedSwitchNextDevice = false :=
      hne _ _ (by show 1 < 1 * pipeSize; decide)
    rw [step, draining, ← draining, checkCurDevice, h]
    rfl
  have h3 : step okPushing (draining k 0 .checkCurBlock) = draining k 0 .checkCurPipe := by
    have h : (draining k 0 .checkCurBlock).events.isNeedSwitchNextBlock = false :=
      hne _ _ (by decide)
    rw [step, draining, ← draining, checkCurBlock, h]
    rfl
  rw [run_succ, run_succ, run_succ]
  exact (congrArg _ ((congrArg _ h1).trans h2)).trans h3

/-- Both conditions are needed. An event pushed by a call that stalls lands in a queue that the
round has passed, and after `2 ^ 32` pops in one round the counter reads `0`: the stuck state is
reported while the scalar pipe holds an event that has never been offered. -/
theorem reports_unoffered :
    ((run stallPushing (start 1 1 [vectorPush] ()) 29).pipeState = .exception ∧
      (run stallPushing (start 1 1 [vectorPush] ()) 29).events.ques 0 ≠ [] ∧
      ¬ Offered stallPushing (start 1 1 [vectorPush] ()) 29 0) ∧
    ∃ n, (run okPushing (start 1 1 (List.replicate (2 ^ 32 - 1) scalarPush ++ [vectorPush]) ())
        n).pipeState = .exception ∧
      (run okPushing (start 1 1 (List.replicate (2 ^ 32 - 1) scalarPush ++ [vectorPush]) ())
        n).events.ques 0 ≠ [] ∧
      ¬ Offered okPushing (start 1 1 (List.replicate (2 ^ 32 - 1) scalarPush ++ [vectorPush]) ())
        n 0 := by
  refine ⟨⟨by decide, by decide, ?_⟩, ?_⟩
  · rintro ⟨i, hi, e, ⟨hs, hq, -⟩, -⟩
    have hnever : ∀ i < 29, (run stallPushing (start 1 1 [vectorPush] ()) i).pipeState
        = .processEvent →
          (run stallPushing (start 1 1 [vectorPush] ()) i).events.getQueIndex ≠ 0 := by decide
    exact hnever i hi hs hq
  · have hrun : run okPushing (start 1 1 (List.replicate (2 ^ 32 - 1) scalarPush ++ [vectorPush])
        ()) (29 + 2 * (2 ^ 32 - 1) + 3)
        = run okPushing (draining 0 (2 ^ 32 - 1) .checkCurPipe) 29 := by
      rw [start_draining]
      generalize hk : 2 ^ 32 - 1 = k
      have hlt : 0 + k < 2 ^ 32 := by omega
      have h1 := run_three k
      have h2 := draining_run k hlt
      rw [Nat.zero_add] at h2
      unfold run at h1 h2 ⊢
      rw [Function.iterate_add_apply, h1, Function.iterate_add_apply, h2]
    refine ⟨29 + 2 * (2 ^ 32 - 1) + 3, ?_, ?_, ?_⟩
    · rw [hrun]
      decide +kernel
    · rw [hrun]
      decide +kernel
    · -- this handler never stalls
      rintro ⟨i, -, e, ⟨-, -, -, r, hr, hret⟩, -⟩
      obtain ⟨e', -, rfl⟩ := Option.map_eq_some_iff.mp hr
      cases hret

end MsSanitizer.PipeLine
