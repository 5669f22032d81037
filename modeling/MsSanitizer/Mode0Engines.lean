import MsSanitizer.CrossNpuRaceAlg
import MsSanitizer.CrossCoreRounds

/-!
# All cores of a class synchronise

Every core of a class sets a flag in mode 0 some times and then waits as often. The engines hand
these events to a container; they differ in the block that an event belongs to, in the number of
blocks of the container and in whether the container learns how many vector cores a group has. A
core whose wait fails stays where it is, as the loop over the queues leaves it.

The events of a block stand in one queue, in the order in which they came. A run is any sequence
of blocks whose turn it is; it has halted when no block can go on.
-/

namespace MsSanitizer.Mode0

open RecordDefs EventDef VectorTime CrossCoreSync PipeLine Rendezvous

/-- The engines: the replay, the check of a single block, that between cores and that between
devices. -/
inductive Engine
  | replayer
  | raceAlg
  | crossCore
  | crossNpu
  deriving DecidableEq

/-- A kernel in which the cube cores or the vector cores synchronise: each sets the flag `rounds`
times and then waits as often. Only devices with sub-blocks run mix kernels. -/
structure AllCoreSync where
  kernelType : KernelType
  deviceType : DeviceType
  blockDim : ℕ
  vecSubBlockDim : ℕ
  cube : Bool
  flagId : ℕ
  rounds : ℕ
  dim : vecSubBlockDim = 1 ∨ vecSubBlockDim = 2
  subBlocks : kernelType = .mix → hasSubBlocks deviceType = true
  flag : flagId < maxFlagId

/-- A set or a wait of a core. -/
structure Ev where
  core : ℕ
  set : Bool
  pipe : PipeType

/-- What a run works on. -/
structure State where
  container : Container
  vc : ℕ → VectorTime := fun _ => {}
  queues : ℕ → List Ev

namespace AllCoreSync

variable (S : AllCoreSync) (E : Engine)

def coreNum : ℕ :=
  match S.kernelType with
  | .mix => if S.cube then S.blockDim else S.blockDim * S.vecSubBlockDim
  | .aicube => if S.cube then S.blockDim else 0
  | _ => if S.cube then 0 else S.blockDim

def loc (core : ℕ) : LocInfo :=
  { coreId := core, blockType := if S.cube then .aicube else .aivec }

/-- What the managers of the check between devices know. -/
def env : NpuEnv where
  devices :=
    [{ deviceId := 0, deviceType := S.deviceType, kernels := [⟨S.kernelType, S.blockDim⟩] }]
  shared := fun _ _ _ => false

def blockIndex (core : ℕ) : ℕ :=
  match E with
  | .raceAlg => getEventBlockIndex (S.loc core) S.kernelType S.deviceType
  | _ => getEventBlockIndexOf (S.loc core) S.kernelType S.deviceType

def blockNum : ℕ :=
  match E with
  | .raceAlg =>
    if needExpandBlockDim S.kernelType S.deviceType then S.blockDim * c220MixSubBlockDim else 1
  | _ => PipelineReplayer.totalBlockNum S.kernelType S.deviceType S.blockDim

def container : Container := .init (S.blockNum E) S.kernelType

/-- The event that the parser makes; that of a wait reports no sub-core count. -/
def info (e : Ev) : FftsSyncInfo :=
  if e.set then
    { opType := .fftsSync, dstPipe := e.pipe, flagId := S.flagId, mode := 0,
      vecSubBlockDim := S.vecSubBlockDim }
  else { opType := .waitFlagDev, dstPipe := e.pipe, flagId := S.flagId }

def event (e : Ev) : SanEvent :=
  { info := .crossCoreSync (S.info e), loc := S.loc e.core, pipe := e.pipe }

/-- The handler of an event, on the clock of its pipe and the container of the kernel. -/
def call (c : Container) (curPipe : ℕ) (t : VectorTime) (e : Ev) :
    ReturnType × VectorTime × Container :=
  match E with
  | .replayer =>
    let r : PipelineReplayer :=
      { kernelType := S.kernelType, deviceType := S.deviceType, container := c }
    let s := r.processBlockSyncEvent (S.event e) (S.info e)
    (s.1, {}, s.2.container)
  | .raceAlg =>
    RaceAlg.blockSync c (S.blockIndex .raceAlg e.core) curPipe t (S.event e) (S.info e)
  | .crossCore =>
    let a : CrossCoreRaceAlg :=
      { kernelType := S.kernelType, deviceType := S.deviceType, container := c, vc := fun _ => t }
    let s := a.dispatch curPipe (S.event e)
    (s.1, s.2.vc curPipe, s.2.container)
  | .crossNpu =>
    let a : CrossNpuRaceAlg := { container := fun _ _ => c, vc := fun _ => t }
    let s := a.dispatch S.env { pipeIndex := curPipe } (S.event e)
    (s.1, s.2.vc curPipe, s.2.container 0 0)

def pipeOf (b : ℕ) (e : Ev) : ℕ := b * pipeSize + e.pipe.idx

def answer (s : State) (b : ℕ) (e : Ev) : ReturnType × VectorTime × Container :=
  S.call E s.container (pipeOf b e) (s.vc (pipeOf b e)) e

def step (s : State) (b : ℕ) : State :=
  match s.queues b with
  | [] => s
  | e :: rest =>
    let r := S.answer E s b e
    { container := r.2.2
      vc := Function.update s.vc (pipeOf b e) r.2.1
      queues := if r.1 = .processOk then Function.update s.queues b rest else s.queues }

def start (order : List Ev) : State where
  container := S.container E
  queues b := order.filter fun e => decide (S.blockIndex E e.core = b)

def run (order : List Ev) (turns : List ℕ) : State :=
  turns.foldl (S.step E) (S.start E order)

/-- Each core of the class sets and then waits; the events of the cores come in any order. -/
structure Order (order : List Ev) : Prop where
  core : ∀ e ∈ order, e.core < S.coreNum
  program : ∀ core < S.coreNum, (order.filter fun e => decide (e.core = core)).map Ev.set =
    List.replicate S.rounds true ++ List.replicate S.rounds false

def Halted (s : State) : Prop :=
  ∀ b e rest, s.queues b = e :: rest → (S.answer E s b e).1 ≠ .processOk

/-- A run never gets stuck: when it has halted, no event is left. -/
def Completes : Prop :=
  ∀ order, S.Order order → ∀ turns, S.Halted E (S.run E order turns) →
    ∀ b, (S.run E order turns).queues b = []

/-- The container counts as many cores as there are. -/
def CountsCores : Prop :=
  S.kernelType ≠ .aicube ∧
    (S.kernelType = .mix → S.cube = false → E = .replayer ∨ S.vecSubBlockDim = 2)

/-! ## The handlers -/

/-- The sub-core count that the container works with. -/
def subCores : ℕ := if E = .replayer then S.vecSubBlockDim else c220VecSubBlockDim

def counting (c : Container) : Container := c.setVecSubBlockDim (S.subCores E)

variable {S E} {c : Container} {curPipe : ℕ} {t : VectorTime} {e : Ev}

lemma counting_self (hdim : E ≠ .replayer → c.vecSubBlockDim = c220VecSubBlockDim)
    (hE : E ≠ .replayer) : S.counting E c = c := by
  rw [counting, subCores, if_neg hE, ← hdim hE]
  rfl

lemma call_race (hE : E ≠ .replayer) : S.call E c curPipe t e =
    RaceAlg.blockSync c (S.blockIndex E e.core) curPipe t (S.event e) (S.info e) := by
  cases E with
  | replayer => exact absurd rfl hE
  | raceAlg => rfl
  | crossCore =>
    simp only [call, CrossCoreRaceAlg.dispatch, event, CrossCoreRaceAlg.setClock,
      Function.update_self]
    rfl
  | crossNpu =>
    have hqueue : ({ pipeIndex := curPipe } : EventContainer).getQueIndex = curPipe := by
      simp [EventContainer.getQueIndex, EventContainer.flattenPipeIdx]
    have hkernel : CrossNpuRaceAlg.kernelOf S.env (S.event e) =
        some (S.kernelType, S.deviceType) := rfl
    simp only [event] at hkernel
    simp only [call, CrossNpuRaceAlg.dispatch, event, hqueue, hkernel, CrossNpuRaceAlg.setClock,
      Function.update_self]
    rfl

/-- A set is handed to the container with the right count. -/
lemma call_set (curPipe : ℕ) (hdim : E ≠ .replayer → c.vecSubBlockDim = c220VecSubBlockDim)
    (he : e.set = true) (ht : Wf t) :
    ∃ t', Wf t' ∧ S.call E c curPipe t e = (.processOk, t',
      ((S.counting E c).setBlockSyncInfo S.flagId 0 (S.blockIndex E e.core) t' S.vecSubBlockDim
        (S.loc e.core) 0).getD (S.counting E c)) := by
  have hinfo : S.info e =
      { opType := .fftsSync, dstPipe := e.pipe, flagId := S.flagId, mode := 0,
        vecSubBlockDim := S.vecSubBlockDim } := if_pos he
  by_cases hE : E = .replayer
  · subst hE
    refine ⟨{}, wf_default, ?_⟩
    have hreport : PipelineReplayer.reportVecSubBlockDim c (S.info e) =
        S.counting .replayer c := by
      rw [PipelineReplayer.reportVecSubBlockDim, if_pos]
      · rw [hinfo]
        rfl
      · rw [hinfo]
        rcases S.dim with hd | hd <;> simp [hd, c220VecSubBlockDim]
    simp only [call, PipelineReplayer.processBlockSyncEvent, PipelineReplayer.blockSync, hreport]
    rw [hinfo]
    rfl
  · refine ⟨updateLogicTime t curPipe, ht.updateLogicTime _, ?_⟩
    rw [counting_self hdim hE, call_race hE, hinfo]
    rfl

lemma call_wait (curPipe : ℕ) (he : e.set = false) (ht : Wf t) :
    ∃ t', Wf t' ∧
      let r := (c.getBlockSyncInfo S.flagId (S.blockIndex E e.core) t').getD (none, c)
      (S.call E c curPipe t e).1 = PipelineReplayer.waited r.1 ∧
        ((S.call E c curPipe t e).2.1 = r.1.getD t' ∨ (S.call E c curPipe t e).2.1 = {}) ∧
        (S.call E c curPipe t e).2.2 = r.2 := by
  have hinfo : S.info e =
      { opType := .waitFlagDev, dstPipe := e.pipe, flagId := S.flagId } := by
    rw [info, he]
    rfl
  by_cases hE : E = .replayer
  · subst hE
    refine ⟨{}, wf_default, ?_, .inr rfl, ?_⟩ <;>
    · simp only [call, PipelineReplayer.processBlockSyncEvent, PipelineReplayer.blockSync, hinfo]
      rfl
  · have hwaited (r : Option VectorTime × Container) :
        RaceAlg.waited t r = (PipelineReplayer.waited r.1, r.1.getD t, r.2) := by
      rcases r with ⟨_ | u, c⟩ <;> rfl
    have hcall : S.call E c curPipe t e = RaceAlg.waited t
        ((c.getBlockSyncInfo S.flagId (S.blockIndex E e.core) t).getD (none, c)) := by
      rw [call_race hE, hinfo]
      rfl
    rw [hcall, hwaited]
    exact ⟨t, ht, rfl, .inl rfl, rfl⟩

/-! ## Runs of a container that counts right -/

/-- The events of each block that are not in its queue any more are in the trace. -/
def Done (S : AllCoreSync) (E : Engine) (order : List Ev) (tr : List CoreLabel)
    (queues : ℕ → List Ev) : Prop :=
  ∀ b, ∃ done, (order.filter fun e => decide (S.blockIndex E e.core = b)) = done ++ queues b ∧
    (sets (b, S.flagId) tr).length = done.countP (·.set) ∧
    (waits (b, S.flagId) tr).length = done.countP (!·.set)

section Done

variable {order : List Ev} {tr : List CoreLabel} {queues : ℕ → List Ev} {b : ℕ} {rest : List Ev}

lemma done_start : Done S E order [] (S.start E order).queues := fun _ => ⟨[], rfl, rfl, rfl⟩

lemma Done.set (h : Done S E order tr queues) (hq : queues b = e :: rest) (he : e.set = true)
    (t : VectorTime) :
    Done S E order (tr ++ [.set (b, S.flagId) t]) (Function.update queues b rest) := by
  intro b'
  obtain ⟨done, hdone, hsets, hwaits⟩ := h b'
  have hwaits' : waits (b', S.flagId) (tr ++ [.set (b, S.flagId) t]) = waits (b', S.flagId) tr := by
    rw [waits_concat, Label.waitOf, Option.toList_none, List.append_nil]
  by_cases hb : b' = b
  · subst hb
    refine ⟨done ++ [e], ?_, ?_, ?_⟩
    · rw [hdone, hq, Function.update_self, List.append_assoc, List.singleton_append]
    · rw [sets_concat, Label.setOf, if_pos rfl, List.length_append, hsets, List.countP_append,
        List.countP_singleton, if_pos he]
      rfl
    · rw [hwaits', hwaits, List.countP_append, List.countP_singleton, he, Bool.not_true,
        if_neg Bool.false_ne_true, Nat.add_zero]
  · refine ⟨done, ?_, ?_, ?_⟩
    · rw [Function.update_of_ne hb, hdone]
    · rw [sets_concat, Label.setOf, if_neg fun hc => hb (Prod.ext_iff.1 hc).1.symm,
        Option.toList_none, List.append_nil, hsets]
    · rw [hwaits', hwaits]

lemma Done.wait (h : Done S E order tr queues) (hq : queues b = e :: rest) (he : e.set = false)
    (t : VectorTime) :
    Done S E order (tr ++ [.wait (b, S.flagId) (some t)]) (Function.update queues b rest) := by
  intro b'
  obtain ⟨done, hdone, hsets, hwaits⟩ := h b'
  have hsets' : sets (b', S.flagId) (tr ++ [.wait (b, S.flagId) (some t)]) =
      sets (b', S.flagId) tr := by
    rw [sets_concat, Label.setOf, Option.toList_none, List.append_nil]
  by_cases hb : b' = b
  · subst hb
    refine ⟨done ++ [e], ?_, ?_, ?_⟩
    · rw [hdone, hq, Function.update_self, List.append_assoc, List.singleton_append]
    · rw [hsets', hsets, List.countP_append, List.countP_singleton, he,
        if_neg Bool.false_ne_true, Nat.add_zero]
    · rw [waits_concat, Label.waitOf, if_pos rfl, List.length_append, hwaits, List.countP_append,
        List.countP_singleton, he, Bool.not_false, if_pos rfl]
      rfl
  · refine ⟨done, ?_, ?_, ?_⟩
    · rw [Function.update_of_ne hb, hdone]
    · rw [hsets', hsets]
    · rw [waits_concat, Label.waitOf, if_neg fun hc => hb (Prod.ext_iff.1 hc).1.symm,
        Option.toList_none, List.append_nil, hwaits]

lemma Done.fails (h : Done S E order tr queues) :
    Done S E order (tr ++ [.wait (b, S.flagId) none]) queues := by
  intro b'
  obtain ⟨done, hdone, hsets, hwaits⟩ := h b'
  refine ⟨done, hdone, ?_, ?_⟩
  · rw [sets_concat, Label.setOf, Option.toList_none, List.append_nil, hsets]
  · rw [waits_concat, Label.waitOf, ite_self, Option.toList_none, List.append_nil, hwaits]

end Done

/-- A run as one of the machine of rounds. -/
structure Good (P : Participants (S.blockNum E) S.kernelType (S.subCores E)) (order : List Ev)
    (tr : List CoreLabel) (s : State) : Prop where
  times : ∀ p, Wf (s.vc p)
  cont : Good0 P (S.counting E s.container)
  dim : E ≠ .replayer → s.container.vecSubBlockDim = c220VecSubBlockDim
  run : Run (net0 P) tr (abs (·.setVec0) (·.waitVec) s.container)
  done : Done S E order tr s.queues

section Good

variable {P : Participants (S.blockNum E) S.kernelType (S.subCores E)} {order : List Ev}
  {tr : List CoreLabel} {s : State} {b : ℕ} {rest : List Ev}

lemma good_start : Good P order [] (S.start E order) :=
  ⟨fun _ => wf_default, good0_init P, fun _ => rfl, .start, done_start⟩

/-- The first event of a queue is one of a core of its block. -/
lemma Done.head (h : Done S E order tr s.queues) (horder : S.Order order)
    (hq : s.queues b = e :: rest) : e.core < S.coreNum ∧ S.blockIndex E e.core = b := by
  obtain ⟨done, hdone, -⟩ := h b
  have hmem : e ∈ order.filter fun e => decide (S.blockIndex E e.core = b) := by
    rw [hdone, hq]
    exact List.mem_append_right _ List.mem_cons_self
  rw [List.mem_filter, decide_eq_true_eq] at hmem
  exact ⟨horder.core e hmem.1, hmem.2⟩

lemma Good.answer_set (h : Good P order tr s) (hb : b ∈ P.of (isAIC b S.kernelType))
    (hblock : S.blockIndex E e.core = b) (he : e.set = true) :
    ∃ t c', S.answer E s b e = (.processOk, t, c') ∧ Wf t ∧ Good0 P (S.counting E c') ∧
      (E ≠ .replayer → c'.vecSubBlockDim = c220VecSubBlockDim) ∧
      Step (net0 P) (abs (·.setVec0) (·.waitVec) s.container) (.set (b, S.flagId) t)
        (abs (·.setVec0) (·.waitVec) c') := by
  obtain ⟨t, ht, hcall⟩ := call_set (S := S) (pipeOf b e) h.dim he
    (h.times (pipeOf b e))
  obtain ⟨c', hset, hstep, hgood⟩ := h.cont.step_set hb S.flag ht S.vecSubBlockDim (S.loc e.core) 0
  rw [hblock, hset, Option.getD_some] at hcall
  have hdim : c'.vecSubBlockDim = S.subCores E := hgood.vecSub
  have hself : S.counting E c' = c' := by
    rw [counting, ← hdim]
    rfl
  refine ⟨t, c', hcall, ht, ?_, fun hE => ?_, hstep⟩
  · rw [hself]
    exact hgood
  · rw [hdim, subCores, if_neg hE]

lemma Good.answer_wait (h : Good P order tr s) (hb : b < S.blockNum E)
    (hblock : S.blockIndex E e.core = b) (he : e.set = false) :
    ∃ r t c', S.answer E s b e = (PipelineReplayer.waited r, t, c') ∧ Wf t ∧
      Good0 P (S.counting E c') ∧
      (E ≠ .replayer → c'.vecSubBlockDim = c220VecSubBlockDim) ∧
      Step (net0 P) (abs (·.setVec0) (·.waitVec) s.container) (.wait (b, S.flagId) r)
        (abs (·.setVec0) (·.waitVec) c') := by
  obtain ⟨t, ht, hret, hclock, hcont⟩ := call_wait (S := S) (E := E) (c := s.container)
    (pipeOf b e) he (h.times (pipeOf b e))
  have hb' : b < s.container.maxBlockNum := by
    rw [show s.container.maxBlockNum = S.blockNum E from h.cont.blocks]
    exact hb
  rw [hblock, getBlockSyncInfo_eq hb' S.flag, Option.getD_some] at hret hclock hcont
  obtain ⟨hstep, htimes⟩ := step_waitOn (N := net0 P) (b := b) (f := S.flagId) (c := s.container)
    h.cont.times .popWait (fun x => rfl) (fun x => rfl) ht
  -- the count plays no part in a wait
  have hsame : waitOn (·.waitVec) .popWait (S.counting E s.container) b S.flagId t =
      ((waitOn (·.waitVec) .popWait s.container b S.flagId t).1,
        S.counting E (waitOn (·.waitVec) .popWait s.container b S.flagId t).2) := by
    rw [waitOn, waitOn]
    cases hq : (s.container.blockSyncEvent b S.flagId).waitVec with
    | nil => simp only [counting, Container.setVecSubBlockDim, hq]
    | cons v vs =>
      simp only [counting, Container.setVecSubBlockDim, hq]
      rfl
  obtain ⟨r, c', hget, -, hgood⟩ := h.cont.step_wait hb S.flag ht
  rw [getBlockSyncInfo_eq (c := S.counting E s.container) hb' S.flag, hsame, Option.some_inj,
    Prod.mk.injEq] at hget
  refine ⟨(waitOn (·.waitVec) .popWait s.container b S.flagId t).1,
    (S.call E s.container (pipeOf b e) (s.vc (pipeOf b e)) e).2.1,
    (waitOn (·.waitVec) .popWait s.container b S.flagId t).2,
    Prod.ext hret (Prod.ext rfl hcont), ?_, ?_, fun hE => ?_, hstep⟩
  · rcases hclock with hclock | hclock
    · rw [hclock, waitOn]
      cases hq : (s.container.blockSyncEvent b S.flagId).waitVec with
      | nil => exact ht
      | cons v vs =>
        have hmem : v ∈ (s.container.blockSyncEvent b S.flagId).waitVec := by
          rw [hq]
          exact List.mem_cons_self
        have hv : Wf v := (h.cont.times b S.flagId).2 v hmem
        exact (hv.updateVectorTime ht).1
    · rw [hclock]
      exact wf_default
  · rw [hget.2]
    exact hgood
  · rw [← h.dim hE, waitOn]
    split <;> rfl

lemma Good.step (h : Good P order tr s) (horder : S.Order order)
    (hP : ∀ core < S.coreNum, S.blockIndex E core ∈ P.of (isAIC (S.blockIndex E core) S.kernelType))
    (b : ℕ) : ∃ tr', Good P order tr' (S.step E s b) := by
  rw [AllCoreSync.step]
  cases hq : s.queues b with
  | nil => exact ⟨tr, h⟩
  | cons e rest =>
    obtain ⟨hcore, hblock⟩ := h.done.head horder hq
    have hb : b ∈ P.of (isAIC b S.kernelType) := hblock ▸ hP e.core hcore
    have htimes {t : VectorTime} (ht : Wf t) (p : ℕ) :
        Wf (Function.update s.vc (pipeOf b e) t p) := by
      rw [Function.update_apply]
      split_ifs
      · exact ht
      · exact h.times p
    cases he : e.set with
    | true =>
      obtain ⟨t, c', hans, ht, hcont, hdim, hstep⟩ := h.answer_set hb hblock he
      refine ⟨tr ++ [.set (b, S.flagId) t], ?_, ?_, ?_, ?_, ?_⟩ <;> simp only [hans]
      · exact htimes ht
      · exact hcont
      · exact hdim
      · exact h.run.step hstep
      · rw [if_pos trivial]
        exact h.done.set hq he t
    | false =>
      obtain ⟨r, t, c', hans, ht, hcont, hdim, hstep⟩ := h.answer_wait (P.mem hb).1 hblock he
      refine ⟨tr ++ [.wait (b, S.flagId) r], ?_, ?_, ?_, ?_, ?_⟩ <;> simp only [hans]
      · exact htimes ht
      · exact hcont
      · exact hdim
      · exact h.run.step hstep
      · cases r with
        | none =>
          rw [if_neg (by simp [PipelineReplayer.waited])]
          exact h.done.fails
        | some t' =>
          rw [if_pos (show PipelineReplayer.waited (some t') = .processOk from rfl)]
          exact h.done.wait hq he t'

lemma good_run (horder : S.Order order)
    (hP : ∀ core < S.coreNum, S.blockIndex E core ∈ P.of (isAIC (S.blockIndex E core) S.kernelType))
    (turns : List ℕ) : ∃ tr, Good P order tr (S.run E order turns) := by
  induction turns using List.reverseRecOn with
  | nil => exact ⟨[], good_start⟩
  | append_singleton turns b ih =>
    obtain ⟨tr, h⟩ := ih
    rw [AllCoreSync.run, List.foldl_append]
    exact h.step horder hP b

end Good

/-! ### Counting sets and waits -/

lemma count_program {k : ℕ} {l r : List Bool}
    (h : List.replicate k true ++ List.replicate k false = l ++ r) :
    l.count true = min l.length k ∧ l.count false = l.length - k ∧
      (r.head? = some false → k ≤ l.length ∧ l.length < k + k) := by
  have hlen := congrArg List.length h
  rw [List.length_append, List.length_append, List.length_replicate, List.length_replicate] at hlen
  have hl : l = List.replicate (min l.length k) true ++ List.replicate (l.length - k) false := by
    have htake : l = (List.replicate k true ++ List.replicate k false).take l.length := by
      rw [h, List.take_left' rfl]
    rw [List.take_append, List.take_replicate, List.take_replicate, List.length_replicate] at htake
    have hmin : min (l.length - k) k = l.length - k := by omega
    rw [hmin] at htake
    exact htake
  refine ⟨?_, ?_, fun hr => ?_⟩
  · conv_lhs => rw [hl]
    simp [List.count_replicate]
  · conv_lhs => rw [hl]
    simp [List.count_replicate]
  · have hget : (List.replicate k true ++ List.replicate k false)[l.length]? = some false := by
      rw [h, List.getElem?_append_right le_rfl, Nat.sub_self, ← List.head?_eq_getElem?, hr]
    have hlt := (List.getElem?_eq_some_iff.1 hget).1
    rw [List.length_append, List.length_replicate, List.length_replicate] at hlt
    refine ⟨?_, hlt⟩
    by_contra hk
    rw [List.getElem?_append_left (by rw [List.length_replicate]; omega),
      List.getElem?_replicate_of_lt (by omega)] at hget
    cases hget

lemma countP_set (l : List Ev) : l.countP (·.set) = (l.map Ev.set).count true := by
  rw [List.count, List.countP_map]
  congr 1
  funext e
  cases he : e.set <;> simp [he]

lemma countP_wait (l : List Ev) : l.countP (!·.set) = (l.map Ev.set).count false := by
  rw [List.count, List.countP_map]
  congr 1
  funext e
  cases he : e.set <;> simp [he]

/-- A queue that holds the events of one core, when it is empty or begins with a wait. -/
lemma count_single {k : ℕ} {done rest : List Ev}
    (h : (done ++ rest).map Ev.set = List.replicate k true ++ List.replicate k false)
    (hrest : ∀ e ∈ rest.head?, e.set = false) :
    done.countP (·.set) = k ∧ (rest ≠ [] → done.countP (!·.set) < k) := by
  rw [List.map_append] at h
  obtain ⟨htrue, hfalse, hhead⟩ := count_program h.symm
  have hlen := congrArg List.length h
  rw [List.length_append, List.length_append, List.length_replicate, List.length_replicate] at hlen
  rw [countP_set, countP_wait, htrue, hfalse]
  cases rest with
  | nil =>
    rw [List.map_nil, List.length_nil] at hlen
    refine ⟨by omega, fun hne => absurd rfl hne⟩
  | cons e rest =>
    have he : e.set = false := hrest e rfl
    have hbounds := hhead (by rw [List.map_cons, List.head?_cons, he])
    exact ⟨by omega, fun _ => by omega⟩

lemma countP_cores {n : ℕ} (p : Ev → Bool) {l : List Ev} (hl : ∀ e ∈ l, e.core < n) :
    l.countP p = ∑ core ∈ Finset.range n, (l.filter fun e => decide (e.core = core)).countP p := by
  induction l with
  | nil => simp
  | cons e l ih =>
    have hstep (core : ℕ) : ((e :: l).filter fun e => decide (e.core = core)).countP p =
        (l.filter fun e => decide (e.core = core)).countP p +
          if core = e.core then (if p e then 1 else 0) else 0 := by
      by_cases hc : core = e.core
      · rw [List.filter_cons_of_pos (by rw [hc]; exact decide_eq_true rfl), List.countP_cons,
          if_pos hc]
      · rw [List.filter_cons_of_neg (by simpa using Ne.symm hc), if_neg hc, Nat.add_zero]
    have hmem : e.core ∈ Finset.range n := Finset.mem_range.2 (hl e List.mem_cons_self)
    simp only [hstep]
    rw [List.countP_cons, ih fun e' he' => hl e' (List.mem_cons_of_mem _ he'),
      Finset.sum_add_distrib, Finset.sum_ite_eq_of_mem' _ _ _ hmem]

/-- A single queue of all cores, when it begins with a wait. -/
lemma count_shared {order done rest : List Ev} (horder : S.Order order)
    (h : order = done ++ e :: rest) (he : e.set = false) :
    done.countP (!·.set) < done.countP (·.set) := by
  have hcores : ∀ e' ∈ done, e'.core < S.coreNum := fun e' he' =>
    horder.core e' (by rw [h]; exact List.mem_append_left _ he')
  have hcore : e.core < S.coreNum := horder.core e (by simp [h])
  rw [countP_cores _ hcores, countP_cores _ hcores]
  have hprog (core : ℕ) (hlt : core < S.coreNum) :
      List.replicate S.rounds true ++ List.replicate S.rounds false =
        (done.filter fun e => decide (e.core = core)).map Ev.set ++
          ((e :: rest).filter fun e => decide (e.core = core)).map Ev.set := by
    rw [← horder.program core hlt, h, List.filter_append, List.map_append]
  refine Finset.sum_lt_sum (fun core hmem => ?_) ⟨e.core, Finset.mem_range.2 hcore, ?_⟩
  · obtain ⟨htrue, hfalse, -⟩ := count_program (hprog core (Finset.mem_range.1 hmem))
    have hlen := congrArg List.length (hprog core (Finset.mem_range.1 hmem))
    rw [List.length_append, List.length_append, List.length_replicate,
      List.length_replicate] at hlen
    rw [countP_set, countP_wait, htrue, hfalse]
    omega
  · obtain ⟨htrue, hfalse, hhead⟩ := count_program (hprog e.core hcore)
    have hbounds := hhead (by
      rw [List.filter_cons_of_pos (by simp), List.map_cons, List.head?_cons, he])
    rw [countP_set, countP_wait, htrue, hfalse]
    omega

/-! ### A halted run is over -/

section Halted

variable {P : Participants (S.blockNum E) S.kernelType (S.subCores E)} {order : List Ev}
  {tr : List CoreLabel} {s : State} {b : ℕ} {rest : List Ev}

lemma Good.head_wait (h : Good P order tr s) (horder : S.Order order)
    (hP : ∀ core < S.coreNum, S.blockIndex E core ∈ P.of (isAIC (S.blockIndex E core) S.kernelType))
    (hhalt : S.Halted E s) (hq : s.queues b = e :: rest) : e.set = false := by
  cases he : e.set with
  | false => rfl
  | true =>
    obtain ⟨hcore, hblock⟩ := h.done.head horder hq
    obtain ⟨t, c', hans, -⟩ := h.answer_set (hblock ▸ hP e.core hcore) hblock he
    exact absurd (by rw [hans]) (hhalt b e rest hq)

/-- In a halted run the block of a wait has used up its rounds. -/
lemma Good.waits_eq_rounds (h : Good P order tr s) (horder : S.Order order)
    (hP : ∀ core < S.coreNum, S.blockIndex E core ∈ P.of (isAIC (S.blockIndex E core) S.kernelType))
    (hhalt : S.Halted E s) (hq : s.queues b = e :: rest) :
    (waits (b, S.flagId) tr).length = Rendezvous.rounds ((net0 P).srcs (b, S.flagId)) tr := by
  obtain ⟨hcore, hblock⟩ := h.done.head horder hq
  have hb : b ∈ P.of (isAIC b S.kernelType) := hblock ▸ hP e.core hcore
  obtain ⟨r, t, c', hans, -, -, -, hstep⟩ := h.answer_wait (P.mem hb).1 hblock
    (h.head_wait horder hP hhalt hq)
  cases r with
  | some t' => exact absurd (by rw [hans]; rfl) (hhalt b e rest hq)
  | none => exact (h.run.step hstep).keepsRounds tr _ [] rfl

/-- The blocks of the cores are the participants of a class, and each core has a block of its own
or all have the same. -/
lemma completes_of_participants
    (P : Participants (S.blockNum E) S.kernelType (S.subCores E))
    (hmem : ∀ core < S.coreNum, S.blockIndex E core ∈ P.of S.cube)
    (honto : ∀ b ∈ P.of S.cube, ∃ core < S.coreNum, S.blockIndex E core = b)
    (hshare : (∀ c < S.coreNum, ∀ c' < S.coreNum, S.blockIndex E c = S.blockIndex E c' → c = c') ∨
      ∀ c < S.coreNum, ∀ c' < S.coreNum, S.blockIndex E c = S.blockIndex E c') :
    S.Completes E := by
  intro order horder turns hhalt b
  have hP : ∀ core < S.coreNum,
      S.blockIndex E core ∈ P.of (isAIC (S.blockIndex E core) S.kernelType) := by
    intro core hcore
    rw [(P.mem (hmem core hcore)).2]
    exact hmem core hcore
  obtain ⟨tr, h⟩ := good_run (P := P) horder hP turns
  by_contra hne
  obtain ⟨e, rest, hq⟩ := List.exists_cons_of_ne_nil hne
  obtain ⟨hcore, hblock⟩ := h.done.head horder hq
  have heq := h.waits_eq_rounds horder hP hhalt hq
  have hb : b ∈ P.of S.cube := hblock ▸ hmem e.core hcore
  have hsrcs (i : ℕ × ℕ) :
      i ∈ (net0 P).srcs (b, S.flagId) ↔ i.1 ∈ P.of S.cube ∧ i.2 = S.flagId := by
    have hcls : (net0 P).sinkCls (b, S.flagId) = some (S.cube, S.flagId) := by
      simp only [net0, if_pos (P.mem hb).1, (P.mem hb).2]
    rw [Net.srcs, hcls, mem_net0_sources]
  -- every block of the class has set more often than this one has waited
  have hlt : (waits (b, S.flagId) tr).length + 1 ≤
      Rendezvous.rounds ((net0 P).srcs (b, S.flagId)) tr := by
    refine le_rounds ⟨(b, S.flagId), (hsrcs _).2 ⟨hb, rfl⟩⟩ fun i hi => ?_
    obtain ⟨hi1, hi2⟩ := (hsrcs i).1 hi
    obtain ⟨core, hlt, hcoreblock⟩ := honto i.1 hi1
    obtain ⟨done, hdone, hsets, hwaits⟩ := h.done b
    obtain ⟨done', hdone', hsets', -⟩ := h.done i.1
    rw [← Prod.mk.eta (p := i), hi2, hsets', hwaits]
    rcases hshare with hinj | hsame
    · have hown (core : ℕ) (hlt : core < S.coreNum) :
          (order.filter fun e => decide (S.blockIndex E e.core = S.blockIndex E core)) =
            order.filter fun e => decide (e.core = core) := by
        refine List.filter_congr fun e' he' => ?_
        rw [decide_eq_decide]
        exact ⟨hinj e'.core (horder.core e' he') core hlt, fun hc => by rw [hc]⟩
      have hprog : (done ++ e :: rest).map Ev.set =
          List.replicate S.rounds true ++ List.replicate S.rounds false := by
        rw [← hq, ← hdone, ← hblock, hown e.core hcore, horder.program e.core hcore]
      have hprog' : (done' ++ (S.run E order turns).queues i.1).map Ev.set =
          List.replicate S.rounds true ++ List.replicate S.rounds false := by
        rw [← hdone', ← hcoreblock, hown core hlt, horder.program core hlt]
      have hwait := (count_single hprog fun e' he' => by
        rw [List.head?_cons, Option.mem_some_iff] at he'
        exact he' ▸ h.head_wait horder hP hhalt hq).2 (List.cons_ne_nil _ _)
      have hset := (count_single hprog' fun e' he' => by
        obtain ⟨rest', hrest'⟩ := List.head?_eq_some_iff.1 he'
        exact h.head_wait horder hP hhalt hrest').1
      omega
    · have hi : i.1 = b := by rw [← hcoreblock, ← hblock, hsame core hlt e.core hcore]
      have hall : (order.filter fun e => decide (S.blockIndex E e.core = b)) = order := by
        refine List.filter_eq_self.2 fun e' he' => decide_eq_true ?_
        rw [← hblock]
        exact hsame e'.core (horder.core e' he') e.core hcore
      rw [hall, hq] at hdone
      rw [hi, hall, hq] at hdone'
      rw [List.append_cancel_right (hdone'.symm.trans hdone)]
      exact count_shared horder hdone (h.head_wait horder hP hhalt hq)
  omega

end Halted

/-! ## The blocks of the cores -/

section Blocks

variable {core : ℕ}

lemma blockNum_mix (hk : S.kernelType = .mix) : S.blockNum E = S.blockDim * 3 := by
  have hexp : needExpandBlockDim S.kernelType S.deviceType = true := by
    simp [needExpandBlockDim, hk, S.subBlocks hk]
  cases E <;> simp only [blockNum, PipelineReplayer.totalBlockNum, if_pos hexp] <;> rfl

lemma blockIndex_mix (hk : S.kernelType = .mix) :
    S.blockIndex E core = if S.cube then core * 3 + 2 else core / 2 * 3 + core % 2 := by
  have hexp : needExpandBlockDim S.kernelType S.deviceType = true := by
    simp [needExpandBlockDim, hk, S.subBlocks hk]
  have hloc : getEventExpandBlockIndexByLoc (S.loc core) =
      if S.cube then core * 3 + 2 else core / 2 * 3 + core % 2 := by
    cases hc : S.cube <;> simp [getEventExpandBlockIndexByLoc, loc, hc, c220MixSubBlockDim,
      c220VecSubBlockDim]
  cases E <;> simp only [blockIndex, getEventBlockIndex, getEventBlockIndexOf, if_pos hexp, hloc]

lemma not_expand (hk : S.kernelType ≠ .mix) :
    needExpandBlockDim S.kernelType S.deviceType ≠ true := by
  simp [needExpandBlockDim, hk]

lemma blockNum_own (hk : S.kernelType ≠ .mix) (hE : E ≠ .raceAlg) :
    S.blockNum E = S.blockDim := by
  cases E <;> first
    | exact absurd rfl hE
    | exact if_neg (not_expand hk)

lemma blockIndex_own (hk : S.kernelType ≠ .mix) (hE : E ≠ .raceAlg) :
    S.blockIndex E core = core := by
  cases E <;> first
    | exact absurd rfl hE
    | exact if_neg (not_expand hk)

lemma blockNum_shared (hk : S.kernelType ≠ .mix) : S.blockNum .raceAlg = 1 :=
  if_neg (not_expand hk)

lemma blockIndex_shared (hk : S.kernelType ≠ .mix) : S.blockIndex .raceAlg core = 0 :=
  if_neg (not_expand hk)

lemma blockIndex_lt (hcore : core < S.coreNum) : S.blockIndex E core < S.blockNum E := by
  by_cases hk : S.kernelType = .mix
  · rw [blockIndex_mix hk, blockNum_mix hk]
    rw [coreNum, hk] at hcore
    have hd := S.dim
    cases hc : S.cube with
    | true =>
      simp only [hc, if_true] at hcore ⊢
      omega
    | false =>
      simp only [hc, Bool.false_eq_true, if_false] at hcore ⊢
      rcases hd with hd | hd <;> rw [hd] at hcore <;> omega
  · by_cases hE : E = .raceAlg
    · rw [hE, blockIndex_shared hk, blockNum_shared hk]
      exact Nat.zero_lt_one
    · rw [blockIndex_own hk hE, blockNum_own hk hE]
      rw [coreNum] at hcore
      cases hkt : S.kernelType with
      | mix => exact absurd hkt hk
      | _ =>
        simp only [hkt] at hcore
        split_ifs at hcore
        all_goals omega

lemma isAIC_blockIndex (hcore : core < S.coreNum) :
    isAIC (S.blockIndex E core) S.kernelType = S.cube := by
  cases hkt : S.kernelType with
  | mix =>
    rw [blockIndex_mix hkt, isAIC, c220MixSubBlockDim, c220VecSubBlockDim]
    cases S.cube with
    | true => simp
    | false =>
      simp only [Bool.false_eq_true, if_false, beq_eq_false_iff_ne]
      omega
  | _ =>
    rw [coreNum, hkt] at hcore
    cases hc : S.cube <;> simp_all [isAIC]

/-- Each core has a block of its own, or all have the same. -/
lemma blockIndex_shares :
    (∀ c < S.coreNum, ∀ c' < S.coreNum, S.blockIndex E c = S.blockIndex E c' → c = c') ∨
      ∀ c < S.coreNum, ∀ c' < S.coreNum, S.blockIndex E c = S.blockIndex E c' := by
  by_cases hk : S.kernelType = .mix
  · left
    intro c _ c' _ h
    rw [blockIndex_mix hk, blockIndex_mix hk] at h
    split_ifs at h <;> omega
  · by_cases hE : E = .raceAlg
    · right
      intro c _ c' _
      rw [hE, blockIndex_shared hk, blockIndex_shared hk]
    · left
      intro c _ c' _ h
      rwa [blockIndex_own hk hE, blockIndex_own hk hE] at h

variable (S E) in
def blocks : Finset ℕ := (Finset.range S.coreNum).image (S.blockIndex E)

lemma mem_blocks {b : ℕ} : b ∈ S.blocks E ↔ ∃ core < S.coreNum, S.blockIndex E core = b := by
  simp [blocks]

lemma card_blocks (h : S.CountsCores E) (hne : (S.blocks E).Nonempty) :
    (S.blocks E).card = needed0 (S.blockNum E) S.kernelType (S.subCores E) S.cube := by
  obtain ⟨b, hb⟩ := hne
  obtain ⟨core, hcore, -⟩ := mem_blocks.1 hb
  have hinj (hshare : ∀ c < S.coreNum, ∀ c' < S.coreNum,
      S.blockIndex E c = S.blockIndex E c' → c = c') : (S.blocks E).card = S.coreNum := by
    rw [blocks, Finset.card_image_of_injOn, Finset.card_range]
    intro c hc c' hc' heq
    exact hshare c (Finset.mem_range.1 hc) c' (Finset.mem_range.1 hc') heq
  by_cases hk : S.kernelType = .mix
  · have hown : ∀ c < S.coreNum, ∀ c' < S.coreNum,
        S.blockIndex E c = S.blockIndex E c' → c = c' := by
      intro c _ c' _ hc
      rw [blockIndex_mix hk, blockIndex_mix hk] at hc
      split_ifs at hc <;> omega
    rw [hinj hown, needed0, blockNum_mix hk, coreNum, hk, if_pos rfl, if_pos rfl]
    have hdiv : S.blockDim * 3 / c220MixSubBlockDim = S.blockDim := by
      simp [c220MixSubBlockDim, c220VecSubBlockDim]
    rw [hdiv]
    cases hc : S.cube with
    | true => rfl
    | false =>
      have hsub : S.subCores E = S.vecSubBlockDim := by
        rw [subCores]
        rcases h.2 hk hc with hE | hd
        · rw [if_pos hE]
        · rw [hd, c220VecSubBlockDim, ite_self]
      simp only [Bool.false_eq_true, if_false]
      rw [hsub]
  · have hcube : S.cube = false ∧ S.coreNum = S.blockDim := by
      have hcount := h.1
      rw [coreNum] at hcore ⊢
      cases hkt : S.kernelType <;> cases hc : S.cube <;> simp_all
    rw [needed0, if_neg hk, if_neg hk, ite_self]
    by_cases hE : E = .raceAlg
    · subst hE
      have hzero : S.blocks .raceAlg = {0} := by
        ext b
        rw [mem_blocks, Finset.mem_singleton]
        refine ⟨fun ⟨c, _, hc⟩ => ?_, fun hb => ⟨core, hcore, ?_⟩⟩
        · rw [← hc, blockIndex_shared hk]
        · rw [hb, blockIndex_shared hk]
      rw [hzero, Finset.card_singleton, blockNum_shared hk]
    · rw [hinj, hcube.2, blockNum_own hk hE]
      intro c _ c' _ hc
      rwa [blockIndex_own hk hE, blockIndex_own hk hE] at hc

def participants (h : S.CountsCores E) :
    Participants (S.blockNum E) S.kernelType (S.subCores E) where
  of c := if c = S.cube then S.blocks E else ∅
  mem := by
    intro c b hb
    split_ifs at hb with hc
    · obtain ⟨core, hcore, rfl⟩ := mem_blocks.1 hb
      exact ⟨blockIndex_lt hcore, by rw [hc, isAIC_blockIndex hcore]⟩
    · exact absurd hb (Finset.notMem_empty b)
  card := by
    intro c hne
    split_ifs at hne ⊢ with hc
    · rw [card_blocks h hne, hc]
    · exact absurd hne Finset.not_nonempty_empty
  notCube := h.1

/-- A container that counts as many cores as there are lets all of them through. -/
lemma completes_of_countsCores (h : S.CountsCores E) : S.Completes E := by
  have hof : (participants h).of S.cube = S.blocks E := if_pos rfl
  refine completes_of_participants (participants h) (fun core hcore => ?_) (fun b hb => ?_)
    blockIndex_shares
  · rw [hof]
    exact mem_blocks.2 ⟨core, hcore, rfl⟩
  · rw [hof] at hb
    exact mem_blocks.1 hb

end Blocks

/-! ## Runs of a container that counts wrong -/

section Closed

variable {order : List Ev} {s : State} {b : ℕ} {rest : List Ev}

/-- No round has been completed, and only the cores of the class have set. -/
structure Closed (S : AllCoreSync) (E : Engine) (c : Container) : Prop where
  blocks : c.maxBlockNum = S.blockNum E
  kernel : c.kernelType = S.kernelType
  dim : E ≠ .replayer → c.vecSubBlockDim = c220VecSubBlockDim
  tokens : ∀ b, (c.blockSyncEvent b S.flagId).waitVec = []
  only : ∀ b, (c.blockSyncEvent b S.flagId).setVec0 ≠ [] → b ∈ S.blocks E

lemma closed_start : Closed S E (S.container E) :=
  ⟨rfl, rfl, fun _ => rfl, fun _ => rfl, fun _ hne => absurd rfl hne⟩

lemma Closed.waiting_ne (h : Closed S E c) (hcount : ¬ S.CountsCores E) (hpos : 0 < S.coreNum) :
    (S.counting E c).waiting S.flagId S.cube ≠ (S.counting E c).needed S.cube := by
  have hneeded : (S.counting E c).needed S.cube =
      needed0 (S.blockNum E) S.kernelType (S.subCores E) S.cube := by
    rw [needed_eq]
    exact congrArg₂ (fun n k => needed0 n k (S.subCores E) S.cube) h.blocks h.kernel
  rw [hneeded, Container.waiting]
  by_cases hk : S.kernelType = .aicube
  · -- the loops visit every third block, the count is that of all blocks
    have hcube : S.cube = true := by
      by_contra hc
      simp [coreNum, hk, hc] at hpos
    have hnum : 0 < S.blockNum E := lt_of_le_of_lt (Nat.zero_le _) (blockIndex_lt (E := E) hpos)
    refine ne_of_lt ((List.countP_le_length).trans_lt ?_)
    rw [hcube, needed0, if_pos rfl, if_neg (by rw [hk]; decide), Container.classBlocks]
    refine (List.length_filter_lt_length_iff_exists.2 ⟨0, ?_, ?_⟩).trans_eq ?_
    · rw [List.mem_range]
      exact h.blocks ▸ hnum
    · rw [if_pos rfl]
      decide
    · rw [List.length_range]
      exact h.blocks
  · -- a group has one vector core, the count is that of two
    rw [CountsCores] at hcount
    push Not at hcount
    obtain ⟨hmix, hcube, hE, hd⟩ := hcount hk
    have hone : S.vecSubBlockDim = 1 := S.dim.resolve_right hd
    have hnum : S.coreNum = S.blockDim := by
      rw [coreNum, hmix, hcube, hone]
      simp
    have hle : (((S.counting E c).classBlocks S.cube).countP fun i =>
        !((S.counting E c).blockSyncEvent i S.flagId).setVec0.isEmpty) ≤ S.blockDim := by
      rw [List.countP_eq_length_filter, ← List.toFinset_card_of_nodup
        (((S.counting E c).classBlocks_nodup _).filter _), ← hnum]
      have hcard : (S.blocks E).card ≤ S.coreNum :=
        Finset.card_image_le.trans_eq (Finset.card_range _)
      refine (Finset.card_le_card (t := S.blocks E) fun i hi => ?_).trans hcard
      rw [List.mem_toFinset, List.mem_filter] at hi
      refine h.only i fun hnil => ?_
      have hset := hi.2
      rw [show (S.counting E c).blockSyncEvent = c.blockSyncEvent from rfl, hnil] at hset
      cases hset
    have hneed : needed0 (S.blockNum E) S.kernelType (S.subCores E) S.cube = S.blockDim * 2 := by
      rw [needed0, hcube, if_neg Bool.false_ne_true, if_pos hmix, blockNum_mix hmix, subCores,
        if_neg hE]
      simp [c220MixSubBlockDim, c220VecSubBlockDim]
    rw [hneed]
    omega

lemma Closed.answer_set (h : Closed S E s.container) (hcount : ¬ S.CountsCores E)
    (htimes : ∀ p, Wf (s.vc p)) (hcore : e.core < S.coreNum) (he : e.set = true) :
    ∃ t c', S.answer E s b e = (.processOk, t, c') ∧ Wf t ∧ Closed S E c' := by
  obtain ⟨t, ht, hcall⟩ := call_set (S := S) (pipeOf b e) h.dim he
    (htimes (pipeOf b e))
  have hlt : S.blockIndex E e.core < (S.counting E s.container).maxBlockNum := by
    rw [show (S.counting E s.container).maxBlockNum = S.blockNum E from h.blocks]
    exact blockIndex_lt hcore
  -- the container with the new set
  obtain ⟨c', hc'⟩ : ∃ c', c' = (S.counting E s.container).put (S.blockIndex E e.core) S.flagId
      (((S.counting E s.container).blockSyncEvent (S.blockIndex E e.core) S.flagId).pushSet0 t) :=
    ⟨_, rfl⟩
  have hclosed : Closed S E c' := by
    rw [hc']
    refine ⟨h.blocks, h.kernel, fun hE => if_neg hE, fun b => ?_, fun b hne => ?_⟩
    · rw [Container.put_blockSyncEvent]
      split_ifs with hb
      · exact h.tokens _
      · exact h.tokens b
    · rw [Container.put_blockSyncEvent] at hne
      split_ifs at hne with hb
      · exact mem_blocks.2 ⟨e.core, hcore, hb.1.symm⟩
      · exact h.only b hne
  have hsame : S.counting E c' = c' := by rw [hc']; rfl
  have hne := hclosed.waiting_ne hcount (lt_of_le_of_lt (Nat.zero_le _) hcore)
  rw [hsame] at hne
  have hset : (S.counting E s.container).setBlockSyncInfo S.flagId 0 (S.blockIndex E e.core) t
      S.vecSubBlockDim (S.loc e.core) 0 = some c' := by
    have hflag := S.flag
    have hmode : (S.counting E s.container).setBlockSyncInfo S.flagId 0 (S.blockIndex E e.core) t
        S.vecSubBlockDim (S.loc e.core) 0 =
          (S.counting E s.container).setMode0SyncInfo S.flagId (S.blockIndex E e.core) t := by
      rw [Container.setBlockSyncInfo, if_neg (by omega), if_neg (by omega)]
    rw [hmode, Container.setMode0SyncInfo_eq hlt S.flag]
    simp only [← hc', hclosed.kernel, isAIC_blockIndex hcore, if_neg hne]
  rw [hset, Option.getD_some] at hcall
  exact ⟨t, c', hcall, ht, hclosed⟩

lemma Closed.answer_wait (h : Closed S E s.container) (htimes : ∀ p, Wf (s.vc p))
    (hcore : e.core < S.coreNum) (he : e.set = false) :
    ∃ t, S.answer E s b e = (.processStalled, t, s.container) ∧ Wf t := by
  obtain ⟨t, ht, hret, hclock, hcont⟩ := call_wait (S := S) (E := E) (c := s.container)
    (pipeOf b e) he (htimes (pipeOf b e))
  have hlt : S.blockIndex E e.core < s.container.maxBlockNum := by
    rw [h.blocks]
    exact blockIndex_lt hcore
  have hwait : waitOn (·.waitVec) .popWait s.container (S.blockIndex E e.core) S.flagId t =
      (none, s.container) := by
    rw [waitOn]
    simp only [h.tokens]
  rw [getBlockSyncInfo_eq hlt S.flag, hwait, Option.getD_some] at hret hclock hcont
  refine ⟨(S.call E s.container (pipeOf b e) (s.vc (pipeOf b e)) e).2.1,
    Prod.ext hret (Prod.ext rfl hcont), ?_⟩
  rcases hclock with hclock | hclock
  · rw [hclock]
    exact ht
  · rw [hclock]
    exact wf_default

lemma step_queues (s : State) (b b' : ℕ) : (S.step E s b).queues b' ⊆ s.queues b' := by
  rw [AllCoreSync.step]
  cases hq : s.queues b with
  | nil => exact List.Subset.refl _
  | cons e rest =>
    dsimp only
    split_ifs with hok
    · rw [Function.update_apply]
      split_ifs with hb
      · rw [hb, hq]
        exact List.subset_cons_self e rest
      · exact List.Subset.refl _
    · exact List.Subset.refl _

lemma run_queues (order : List Ev) (turns : List ℕ) (b : ℕ) :
    (S.run E order turns).queues b ⊆ order := by
  induction turns using List.reverseRecOn with
  | nil => exact List.filter_subset_self _
  | append_singleton turns b' ih =>
    rw [AllCoreSync.run, List.foldl_append]
    exact List.Subset.trans (step_queues _ b' b) ih

/-- A run of such a container: no wait has left its queue. -/
structure Stuck (S : AllCoreSync) (E : Engine) (order : List Ev) (s : State) : Prop where
  times : ∀ p, Wf (s.vc p)
  cont : Closed S E s.container
  waits : ∀ e ∈ order, e.set = false → e ∈ s.queues (S.blockIndex E e.core)

lemma stuck_start : Stuck S E order (S.start E order) :=
  ⟨fun _ => wf_default, closed_start,
    fun _ he _ => List.mem_filter.2 ⟨he, decide_eq_true rfl⟩⟩

lemma Stuck.step (h : Stuck S E order s) (hcount : ¬ S.CountsCores E) {b : ℕ}
    (hsub : ∀ e ∈ s.queues b, e.core < S.coreNum) : Stuck S E order (S.step E s b) := by
  rw [AllCoreSync.step]
  cases hq : s.queues b with
  | nil => exact h
  | cons e rest =>
    have hcore : e.core < S.coreNum := hsub e (by rw [hq]; exact List.mem_cons_self)
    have htimes {t : VectorTime} (ht : Wf t) (p : ℕ) :
        Wf (Function.update s.vc (pipeOf b e) t p) := by
      rw [Function.update_apply]
      split_ifs
      · exact ht
      · exact h.times p
    cases he : e.set with
    | true =>
      obtain ⟨t, c', hans, ht, hcont⟩ := h.cont.answer_set (b := b) hcount h.times hcore he
      simp only [hans]
      refine ⟨htimes ht, hcont, fun e' he' hw => ?_⟩
      have hmem := h.waits e' he' hw
      rw [if_pos trivial]
      dsimp only
      rw [Function.update_apply]
      split_ifs with hb
      · rw [hb, hq] at hmem
        rcases List.mem_cons.1 hmem with rfl | hmem
        · rw [he] at hw
          cases hw
        · exact hmem
      · exact hmem
    | false =>
      obtain ⟨t, hans, ht⟩ := h.cont.answer_wait (b := b) h.times hcore he
      simp only [hans]
      refine ⟨htimes ht, h.cont, ?_⟩
      rw [if_neg (by simp)]
      exact h.waits

lemma stuck_run (horder : S.Order order) (hcount : ¬ S.CountsCores E) (turns : List ℕ) :
    Stuck S E order (S.run E order turns) := by
  induction turns using List.reverseRecOn with
  | nil => exact stuck_start
  | append_singleton turns b ih =>
    rw [AllCoreSync.run, List.foldl_append]
    exact ih.step hcount fun e he => horder.core e (run_queues order turns b he)

end Closed

/-! ## Runs halt -/

/-- The number of events that are left in some blocks. -/
def left (s : State) (bs : Finset ℕ) : ℕ := ∑ b ∈ bs, (s.queues b).length

lemma exists_halted (bs : Finset ℕ) (n : ℕ) :
    ∀ s : State, left s bs = n → (∀ b ∉ bs, s.queues b = []) →
      ∃ turns : List ℕ, S.Halted E (turns.foldl (S.step E) s) := by
  induction n using Nat.strong_induction_on with
  | _ n ih =>
    intro s hn hbs
    by_cases hhalt : S.Halted E s
    · exact ⟨[], hhalt⟩
    · rw [Halted] at hhalt
      push Not at hhalt
      obtain ⟨b, e, rest, hq, hok⟩ := hhalt
      have hb : b ∈ bs := by
        by_contra hb
        rw [hbs b hb] at hq
        cases hq
      have hstep : (S.step E s b).queues = Function.update s.queues b rest := by
        simp only [step, hq, if_pos hok]
      have hlt : left (S.step E s b) bs < n := by
        rw [← hn, left, left]
        refine Finset.sum_lt_sum (fun b' _ => ?_) ⟨b, hb, ?_⟩
        · rw [hstep, Function.update_apply]
          split_ifs with hb'
          · rw [hb', hq, List.length_cons]
            omega
          · exact le_rfl
        · rw [hstep, Function.update_self, hq, List.length_cons]
          omega
      obtain ⟨turns, hturns⟩ := ih _ hlt (S.step E s b) rfl fun b' hb' => by
        rw [hstep, Function.update_of_ne (by rintro rfl; exact hb' hb)]
        exact hbs b' hb'
      exact ⟨b :: turns, hturns⟩

def coreByCore (S : AllCoreSync) : List Ev :=
  (List.range S.coreNum).flatMap fun core =>
    List.replicate S.rounds ⟨core, true, .s⟩ ++ List.replicate S.rounds ⟨core, false, .s⟩

lemma filter_coreByCore (k core n : ℕ) :
    (((List.range n).flatMap fun c : ℕ => List.replicate k (⟨c, true, .s⟩ : Ev) ++
      List.replicate k ⟨c, false, .s⟩).filter fun e => decide (e.core = core)) =
      if core < n then List.replicate k ⟨core, true, .s⟩ ++ List.replicate k ⟨core, false, .s⟩
      else [] := by
  induction n with
  | zero => rfl
  | succ n ih =>
    rw [List.range_succ, List.flatMap_append, List.filter_append, ih, List.flatMap_singleton,
      List.filter_append, List.filter_replicate, List.filter_replicate]
    by_cases hc : core = n
    · subst hc
      simp
    · have hlt : core < n + 1 ↔ core < n := by omega
      simp [Ne.symm hc, hlt]

lemma order_coreByCore : S.Order S.coreByCore := by
  refine ⟨fun e he => ?_, fun core hcore => ?_⟩
  · rw [coreByCore, List.mem_flatMap] at he
    obtain ⟨core, hcore, he⟩ := he
    have hc : e.core = core := by
      rcases List.mem_append.1 he with he | he <;> rw [List.eq_of_mem_replicate he]
    rw [hc]
    exact List.mem_range.1 hcore
  · rw [coreByCore, filter_coreByCore, if_pos hcore, List.map_append, List.map_replicate,
      List.map_replicate]

/-- A container that counts more cores than there are lets none of them through. -/
lemma not_completes (hcore : 0 < S.coreNum) (hrounds : 0 < S.rounds)
    (hcount : ¬ S.CountsCores E) : ¬ S.Completes E := by
  intro h
  obtain ⟨turns, hhalt⟩ := exists_halted (S := S) (E := E) (S.blocks E) _
    (S.start E S.coreByCore) rfl fun b hb => by
      refine List.filter_eq_nil_iff.2 fun e he => ?_
      rw [decide_eq_true_eq]
      exact fun hc => hb (mem_blocks.2 ⟨e.core, order_coreByCore.core e he, hc⟩)
  have hwait : (⟨0, false, .s⟩ : Ev) ∈ S.coreByCore := by
    refine List.mem_flatMap.2 ⟨0, List.mem_range.2 hcore, List.mem_append_right _ ?_⟩
    exact List.mem_replicate.2 ⟨by omega, rfl⟩
  have hmem := (stuck_run (E := E) order_coreByCore hcount turns).waits _ hwait rfl
  rw [h S.coreByCore order_coreByCore turns hhalt] at hmem
  exact absurd hmem List.not_mem_nil

lemma completes_of_empty (hempty : S.coreNum = 0 ∨ S.rounds = 0) : S.Completes E := by
  intro order horder turns _ b
  refine List.eq_nil_iff_forall_not_mem.2 fun e he => ?_
  have he := run_queues order turns b he
  have hcore := horder.core e he
  rcases hempty with hzero | hzero
  · omega
  · have hprog := horder.program e.core hcore
    rw [hzero, List.replicate_zero, List.replicate_zero, List.append_nil, List.map_eq_nil_iff,
      List.filter_eq_nil_iff] at hprog
    exact hprog e he (decide_eq_true rfl)

/-- **When an engine lets all cores through.** -/
theorem completes_iff_countsCores :
    S.Completes E ↔ S.coreNum = 0 ∨ S.rounds = 0 ∨ S.CountsCores E := by
  refine ⟨fun h => ?_, ?_⟩
  · by_contra hnot
    push Not at hnot
    exact not_completes (by omega) (by omega) hnot.2.2 h
  · rintro (hzero | hzero | hcount)
    · exact completes_of_empty (.inl hzero)
    · exact completes_of_empty (.inr hzero)
    · exact completes_of_countsCores hcount

end AllCoreSync

/-- **When the synchronisation of all cores gets stuck nowhere.** All engines complete every run of
it, for every order of the events of the cores, exactly when there is nothing to wait for, or the
kernel is not a cube kernel and its groups, if it is the vector cores of a mix kernel that
synchronise, have two of them. -/
theorem completes_iff (S : AllCoreSync) :
    (∀ E, S.Completes E) ↔ S.coreNum = 0 ∨ S.rounds = 0 ∨
      (S.kernelType ≠ .aicube ∧
        (S.kernelType = .mix → S.cube = false → S.vecSubBlockDim = 2)) := by
  simp only [AllCoreSync.completes_iff_countsCores, AllCoreSync.CountsCores]
  constructor
  · intro h
    rcases h .crossCore with hzero | hzero | ⟨hk, hd⟩
    · exact .inl hzero
    · exact .inr (.inl hzero)
    · exact .inr (.inr ⟨hk, fun hm hc => (hd hm hc).resolve_left (by simp)⟩)
  · rintro (hzero | hzero | ⟨hk, hd⟩) E
    · exact .inl hzero
    · exact .inr (.inl hzero)
    · exact .inr (.inr ⟨hk, fun hm hc => .inr (hd hm hc)⟩)

/-- A cube kernel with one core, and a mix kernel whose only group has one vector core. -/
def oneCube : AllCoreSync where
  kernelType := .aicube
  deviceType := ⟨2⟩
  blockDim := 1
  vecSubBlockDim := 2
  cube := true
  flagId := 3
  rounds := 1
  dim := .inr rfl
  subBlocks := by simp
  flag := by decide

def oneVector : AllCoreSync :=
  { oneCube with
    kernelType := .mix
    vecSubBlockDim := 1
    cube := false
    dim := .inl rfl
    subBlocks := fun _ => rfl }

/-- The replay never lets the cube core through, and the check between cores never the vector
core. -/
theorem not_completes_one : ¬ oneCube.Completes .replayer ∧ ¬ oneVector.Completes .crossCore := by
  constructor <;> rw [AllCoreSync.completes_iff_countsCores] <;>
  · rintro (h | h | h)
    · exact absurd h (by decide)
    · exact absurd h (by decide)
    · simp [AllCoreSync.CountsCores, oneCube, oneVector] at h

end MsSanitizer.Mode0
