import MsSanitizer.PipeLineEnds
import MsSanitizer.PipeLineSteps

/-!
# A rule for the replay of one device

For a handler that does nothing when it stalls, and whose processed events leave less to do, the
loop ends, and it ends only with queues that are empty or whose front event stalls (`Settles`).
-/

namespace MsSanitizer.PipeLine

open RecordDefs EventDef

variable {σ : Type*} {func : EventFunc σ}

/-- The container stands at a queue whose front event is `e`. -/
structure AtFront (c : EventContainer) (e : SanEvent) (rest : List SanEvent) : Prop where
  pipe : c.pipeIndex < pipeSize
  block : c.blockIndex < c.maxBlockNum
  device : c.deviceIndex < c.deviceNum
  front : c.ques c.getQueIndex = e :: rest

/-- A handler with an invariant of queues and state, and with a measure of what is left to do. -/
structure Settles (func : EventFunc σ) (I : EventContainer → σ → Prop)
    (W : (ℕ → List SanEvent) → ℕ) : Prop where
  same : ∀ {c c' s}, SameQueues c c' → I c s → I c' s
  keeps : ∀ {c s e rest}, I c s → AtFront c e rest →
    I (afterOffer c (func c s e)) (func c s e).state
  stalls : ∀ {c s e rest}, I c s → AtFront c e rest → (func c s e).ret = .processStalled →
    (func c s e).state = s ∧ (func c s e).pushes = []
  works : ∀ {c s e rest}, I c s → AtFront c e rest → (func c s e).ret = .processOk →
    W (afterOffer c (func c s e)).ques < W c.ques

lemma step_popCount (p : PipeLine σ) : (step func p).events.devicePopCount ≤
    p.events.devicePopCount + if p.pipeState = .processEvent ∧
      ((reply func p).map Reply.ret) = some .processOk then 1 else 0 := by
  have hpipe : ∀ c : EventContainer, c.switchToNextPipe.devicePopCount = c.devicePopCount := by
    intro c
    unfold EventContainer.switchToNextPipe
    split_ifs <;> rfl
  unfold step
  cases hs : p.pipeState with
  | checkAllDevice | exit | exception => exact Nat.le_add_right _ _
  | checkCurDevice =>
    simp only [checkCurDevice, EventContainer.checkCurDeviceStuck_eq]
    split_ifs <;> simp [EventContainer.switchToNextDevice]
  | checkCurBlock =>
    simp only [checkCurBlock, EventContainer.switchToNextBlock]
    split_ifs <;> simp
  | checkCurPipe =>
    simp only [checkCurPipe]
    split_ifs <;> simp [hpipe]
  | processEvent =>
    simp only [process]
    cases hr : reply func p with
    | none => exact Nat.le_add_right _ _
    | some r =>
      obtain ⟨ques, heq, -⟩ := p.events.foldl_push_eq r.pushes
      cases hret : r.ret with
      | processOk => simpa [heq, EventContainer.pop, hret] using Nat.mod_le _ _
      | processStalled => simp [heq, hpipe, hret]

namespace Settles

variable {I : EventContainer → σ → Prop} {W : (ℕ → List SanEvent) → ℕ} (h : Settles func I W)
  {p : PipeLine σ}
include h

lemma step_cases (hp : Placed p) (hI : I p.events p.handler) :
    I (step func p).events (step func p).handler ∧
      (Processes func p ∧ W (step func p).events.ques < W p.events.ques ∨
        ¬ Processes func p ∧ SameQueues p.events (step func p).events ∧
          (step func p).handler = p.handler ∧ ¬ Moves func p) := by
  rcases PipeLine.step_cases func p with ⟨hq, hh, hempty⟩ | ⟨e, rest, hs, hfront, hq, hh⟩
  · have hnone : p.pipeState = .processEvent → reply func p = none := by
      intro hs
      rw [reply, hempty hs]
      rfl
    refine ⟨hh ▸ h.same hq hI, .inr ⟨?_, hq, hh, ?_⟩⟩
    · rintro ⟨hs, r, hr, -⟩
      rw [hnone hs] at hr
      cases hr
    · rintro ⟨hs, r, hr, -⟩
      rw [hnone hs] at hr
      cases hr
  · have hat : AtFront p.events e rest := ⟨hp.pipe, hp.block, hp.device, hfront⟩
    have hr : reply func p = some (func p.events p.handler e) := by
      rw [reply, hfront]
      rfl
    refine ⟨hh ▸ h.same hq (h.keeps hI hat), ?_⟩
    cases hret : (func p.events p.handler e).ret with
    | processOk => exact .inl ⟨⟨hs, _, hr, hret⟩, hq.ques ▸ h.works hI hat hret⟩
    | processStalled =>
      obtain ⟨hstate, hpushes⟩ := h.stalls hI hat hret
      refine .inr ⟨?_, ?_, hh.trans hstate, ?_⟩
      · rintro ⟨-, r, hr', hok⟩
        rw [hr, Option.some_inj] at hr'
        rw [← hr', hret] at hok
        cases hok
      · have hsame : afterOffer p.events (func p.events p.handler e) = p.events := by
          simp only [afterOffer, hret, hpushes, List.foldl_nil]
        rwa [hsame] at hq
      · rintro ⟨-, r, hr', hok⟩
        rw [hr, Option.some_inj] at hr'
        subst hr'
        rcases hok with hok | hok
        · rw [hret] at hok
          cases hok
        · exact hok hpushes

section Run

variable (hp : Placed p) (hI : I p.events p.handler)
include hp hI

lemma run (n : ℕ) : I (run func p n).events (run func p n).handler := by
  induction n with
  | zero => exact hI
  | succ n ih =>
    rw [run_succ]
    exact (h.step_cases (hp.run n) ih).1

lemma weight_le (n : ℕ) : W (PipeLine.run func p (n + 1)).events.ques ≤
    W (PipeLine.run func p n).events.ques := by
  rw [run_succ]
  rcases (h.step_cases (hp.run n) (h.run hp hI n)).2 with ⟨-, hlt⟩ | ⟨-, hq, -⟩
  · exact hlt.le
  · exact (congrArg W hq.ques).le

/-- After finitely many rounds nothing is processed or pushed. -/
lemma exists_quiet : ∃ N, ∀ n ≥ N, ¬ Moves func (PipeLine.run func p n) := by
  have hanti : Antitone fun n => W (PipeLine.run func p n).events.ques :=
    antitone_nat_of_succ_le (h.weight_le hp hI)
  set weight := fun n => W (PipeLine.run func p n).events.ques
  refine ⟨Function.argmin weight, fun n hn hm => ?_⟩
  have hmin : weight (Function.argmin weight) ≤ weight (n + 1) := Function.argmin_le weight _
  have hle : weight n ≤ weight (Function.argmin weight) := hanti hn
  rcases (h.step_cases (hp.run n) (h.run hp hI n)).2 with ⟨-, hlt⟩ | ⟨-, -, -, hno⟩
  · rw [← run_succ] at hlt
    exact absurd (hlt.trans_le (hle.trans hmin)) (lt_irrefl _)
  · exact hno hm

lemma exists_stopped (hd : p.events.deviceNum = 1) : ∃ n, Stopped (PipeLine.run func p n) := by
  obtain ⟨N, hN⟩ := h.exists_quiet hp hI
  have hone : ∀ n, (PipeLine.run func p n).events.deviceNum = 1 := by
    intro n
    induction n with
    | zero => exact hd
    | succ n ih =>
      rw [run_succ]
      rcases PipeLine.step_cases func (PipeLine.run func p n) with ⟨hq, -⟩ | ⟨e, rest, -, -, hq, -⟩
      · exact hq.devices.trans ih
      · exact (hq.devices.trans (afterOffer_blocks _ _).2).trans ih
  refine PipeLine.exists_stopped hp hN fun n _ hl => ?_
  -- there is no other device
  obtain ⟨-, hempty, -, hrest⟩ := hl
  have hdev : (PipeLine.run func p n).events.deviceIndex < _ := (hp.run n).device
  rw [hone n, Nat.lt_one_iff] at hdev
  have hall : (PipeLine.run func p n).events.isEmpty = true := by
    rw [EventContainer.isCurDeviceEmpty, EventContainer.isDeviceEmpty,
      EventContainer.emptyFrom_iff, hdev] at hempty
    rw [EventContainer.isEmpty, EventContainer.emptyFrom_iff]
    intro i hi
    rw [EventContainer.queNum, hone n, Nat.one_mul] at hi
    simpa [EventContainer.flattenPipeIdx] using hempty i hi
  rw [hall] at hrest
  cases hrest

/-- The counter of popped events does not wrap when there is less to do than it can count. -/
lemma popCount_le (hc : p.events.devicePopCount = 0) (n : ℕ) :
    (PipeLine.run func p n).events.devicePopCount + W (PipeLine.run func p n).events.ques ≤
      W p.events.ques := by
  induction n with
  | zero => simp [PipeLine.run, hc]
  | succ n ih =>
    have hpop := @step_popCount _ func (PipeLine.run func p n)
    rw [run_succ]
    rcases (h.step_cases (hp.run n) (h.run hp hI n)).2 with ⟨-, hlt⟩ | ⟨hnot, hq, -⟩
    · split_ifs at hpop <;> omega
    · rw [if_neg] at hpop
      · have := congrArg W hq.ques
        omega
      · rintro ⟨hs, hr⟩
        obtain ⟨r, hr, hret⟩ := Option.map_eq_some_iff.mp hr
        exact hnot ⟨hs, r, hr, hret⟩

lemma stepOk (hc : p.events.devicePopCount = 0) (hW : W p.events.ques < 2 ^ 32) (n : ℕ) :
    StepOk func (PipeLine.run func p n) := by
  intro hs r hr
  obtain ⟨e, he, rfl⟩ := Option.map_eq_some_iff.mp hr
  obtain ⟨rest, hfront⟩ := List.head?_eq_some_iff.mp he
  have hplaced : Placed (PipeLine.run func p n) := hp.run n
  have hat : AtFront (PipeLine.run func p n).events e rest :=
    ⟨hplaced.pipe, hplaced.block, hplaced.device, hfront⟩
  refine ⟨fun hret q hq => ?_, fun hret => ?_⟩
  · rw [(h.stalls (h.run hp hI n) hat hret).2]
    exact hq
  · have := h.popCount_le hp hI hc n
    have := h.works (h.run hp hI n) hat hret
    omega

end Run

/-- **A stopped loop.** Every queue is empty, or its front event stalls. -/
lemma front_of_stopped {blockNum : ℕ} {pushes : List Push} {handler : σ}
    (hI : I (start blockNum 1 pushes handler).events handler)
    (hW : W (start blockNum 1 pushes handler).events.ques < 2 ^ 32) {n : ℕ}
    (hs : Stopped (PipeLine.run func (start blockNum 1 pushes handler) n)) {q : ℕ}
    (hq : q < blockNum * pipeSize)
    (hne : (PipeLine.run func (start blockNum 1 pushes handler) n).events.ques q ≠ []) :
    ∃ c e rest, SameQueues (PipeLine.run func (start blockNum 1 pushes handler) n).events c ∧
      c.getQueIndex = q ∧ AtFront c e rest ∧
      (func c (PipeLine.run func (start blockNum 1 pushes handler) n).handler e).ret =
        .processStalled := by
  have hpos : 0 < blockNum := by
    by_contra h0
    rw [Nat.eq_zero_of_not_pos h0, Nat.zero_mul] at hq
    exact absurd hq (Nat.not_lt_zero q)
  have hp := placed_start hpos Nat.one_pos pushes handler
  have hc : (start blockNum 1 pushes handler).events.devicePopCount = 0 := by
    obtain ⟨ques, heq, -⟩ := (EventContainer.init blockNum 1).foldl_push_eq pushes
    simp only [start, heq]
    rfl
  have hrounds := rounds_run hpos pushes handler (n := n) fun j _ => h.stepOk hp hI hc hW j
  obtain ⟨hdn, -, hmb⟩ := hrounds.device
  rcases hs with hs | hs
  · have he := exit_isEmpty (by simp [start]) hs
    rw [EventContainer.isEmpty, EventContainer.emptyFrom_iff] at he
    have hq := he q (by rw [EventContainer.queNum, hdn, hmb, Nat.one_mul]; exact hq)
    rw [Nat.zero_add] at hq
    exact absurd hq hne
  · obtain ⟨i, hi, e, ⟨hsi, hidx, hfront, r, hr, hret⟩, -, hquiet⟩ :=
      ((hrounds.stuck (hrounds.reported hs)).2 q hq).resolve_left hne
    -- since then neither queues nor handler have changed
    have hkeep : ∀ k, i + k ≤ n → SameQueues (PipeLine.run func (start blockNum 1 pushes handler)
          (i + k)).events (PipeLine.run func (start blockNum 1 pushes handler) i).events ∧
        (PipeLine.run func (start blockNum 1 pushes handler) (i + k)).handler =
          (PipeLine.run func (start blockNum 1 pushes handler) i).handler := by
      intro k
      induction k with
      | zero => exact fun _ => ⟨⟨rfl, rfl, rfl⟩, rfl⟩
      | succ k ih =>
        intro hk
        obtain ⟨hq', hh⟩ := ih (by omega)
        rw [← Nat.add_assoc, run_succ]
        rcases (h.step_cases (hp.run (i + k)) (h.run hp hI (i + k))).2 with
          ⟨hproc, -⟩ | ⟨-, hsame, hh', -⟩
        · exact absurd hproc (hquiet (i + k) (by omega) (by omega))
        · exact ⟨⟨hq'.ques.trans hsame.ques.symm, hq'.blocks.trans hsame.blocks.symm,
            hq'.devices.trans hsame.devices.symm⟩, hh'.trans hh⟩
    obtain ⟨hsame, hh⟩ := hkeep (n - i) (by omega)
    rw [Nat.add_sub_cancel' hi.le] at hsame hh
    obtain ⟨e', he', rfl⟩ := Option.map_eq_some_iff.mp hr
    obtain ⟨rest, hfront'⟩ := List.head?_eq_some_iff.mp he'
    have hplaced : Placed (PipeLine.run func _ i) := hp.run i
    refine ⟨_, e', rest, hsame, hidx, ⟨hplaced.pipe, hplaced.block, hplaced.device, hfront'⟩, ?_⟩
    rw [hh]
    exact hret

end Settles

end MsSanitizer.PipeLine
