import MsSanitizer.CrossNpuRaceAlg
import MsSanitizer.CrossCoreRounds

/-!
# Soft synchronisation of cores

`IB_SET` stores the clock of a core under the index of its block and an event id; `IB_WAIT` names
a core and an event id. A block has one place for each event id, so a set is lost when the one
before it is still there; and a wait looks at the place whose index is the number of the core it
names, which in a mix kernel with sub-blocks is not where that core stores its sets.

A run that avoids both loses no signal and mixes up no cores (`softSync_keeps_signals`).
-/

namespace MsSanitizer.SoftSync

open RecordDefs EventDef VectorTime CrossCoreSync PipeLine Rendezvous

/-- The engines with soft synchronisation; the checks between cores and between devices run the
same statements on a container. -/
inductive Engine
  | replayer
  | race
  deriving DecidableEq

/-- An event, with the clock of the pipe it runs on; a wait may run on any core. -/
inductive Op
  | set (loc : LocInfo) (event : ℤ) (curPipe : ℕ) (t : VectorTime)
  | wait (core : ℕ) (event : ℤ) (curPipe : ℕ) (t : VectorTime)

/-- The clock of the pipe is one that the sanitizer built. -/
def Op.Fits : Op → Prop
  | .set _ _ _ t | .wait _ _ _ t => Wf t

/-- A kernel on a device. -/
structure Kernel where
  kernelType : KernelType
  deviceType : DeviceType
  blockDim : ℕ

namespace Kernel

variable (k : Kernel)

def container : Container :=
  .init (PipelineReplayer.totalBlockNum k.kernelType k.deviceType k.blockDim) k.kernelType

def blockIndex (loc : LocInfo) : ℕ := getEventBlockIndexOf loc k.kernelType k.deviceType

/-- The index of the block of vector core `core`. -/
def vectorBlock (core : ℕ) : ℕ := k.blockIndex { coreId := core, blockType := .aivec }

/-- The number of the core that runs an event, as a wait names it: in a mix kernel with sub-blocks
the number of a vector core, and none for a cube core. -/
def coreOf (loc : LocInfo) : Option ℕ :=
  if needExpandBlockDim k.kernelType k.deviceType ∧ loc.blockType ≠ .aivec then none
  else some loc.coreId

end Kernel

abbrev SoftLabel := Label (Option ℕ × ℤ) (ℕ × ℤ) VectorTime

/-- The handler of an event; the replayer keeps no clock. -/
def call (E : Engine) (c : Container) (blockIdx curPipe : ℕ) (t : VectorTime)
    (info : SoftSyncInfo) : ReturnType × VectorTime × Container :=
  match E with
  | .replayer =>
    let r := PipelineReplayer.blockSoftSync c blockIdx curPipe info
    (r.1, {}, r.2)
  | .race => RaceAlg.ibSync c blockIdx curPipe t info

def Op.exec (E : Engine) (k : Kernel) (c : Container) : Op → SoftLabel × Container
  | .set loc event curPipe t =>
    let r := call E c (k.blockIndex loc) curPipe t { opType := .ibSet, eventID := event }
    (.set (k.coreOf loc, event) r.2.1, r.2.2)
  | .wait core event curPipe t =>
    let r := call E c 0 curPipe t { opType := .ibWait, eventID := event, waitCoreID := core }
    (.wait (core, event) (if r.1 = .processOk then some r.2.1 else none), r.2.2)

/-- A run of events: the operations with their results, and the container. -/
def exec (E : Engine) (k : Kernel) (c : Container) (ops : List Op) :
    List SoftLabel × Container :=
  ops.foldl (fun p op => (p.1 ++ [(op.exec E k p.2).1], (op.exec E k p.2).2)) ([], c)

/-- A wait naming a core and an event succeeds exactly when the core has set the event more often
than waits naming both have succeeded, and then gets a clock that is at least that of the set it
stands for. -/
def KeepsSignals (tr : List SoftLabel) : Prop :=
  ∀ pre w r post, tr = pre ++ .wait w r :: post →
    (r.isSome = true ↔ (waits w pre).length < (sets (some w.1, w.2) pre).length) ∧
      ∀ t, r = some t → ∃ x, (sets (some w.1, w.2) pre)[(waits w pre).length]? = some x ∧ x ≤ t

/-! ## The steps that go well -/

def slot (c : Container) (b : ℕ) (event : ℤ) : Option VectorTime :=
  (c.blockSoftSyncInfo b).mapVectorTime event

/-- A core sets an event of a block of the kernel only when its place is free. A wait names a
core that stores its sets where the wait looks, or one that has no set to give while nothing is
stored where the wait looks. -/
def Meets (k : Kernel) (c : Container) : Op → Prop
  | .set loc event _ _ =>
    k.coreOf loc = none ∨
      (k.blockIndex loc < c.maxBlockNum ∧ slot c (k.blockIndex loc) event = none)
  | .wait core event _ _ =>
    k.vectorBlock core = core ∨
      (slot c (k.vectorBlock core) event = none ∧ slot c core event = none)

instance (k : Kernel) (c : Container) (op : Op) : Decidable (Meets k c op) :=
  match op with
  | .set _ _ _ _ => inferInstanceAs (Decidable (_ ∨ _ ∧ _))
  | .wait _ _ _ _ => inferInstanceAs (Decidable (_ ∨ _ ∧ _))

def RunMeets (E : Engine) (k : Kernel) (ops : List Op) : Prop :=
  ∀ i op, ops[i]? = some op → Meets k (exec E k k.container (ops.take i)).2 op

/-! ## Blocks and cores -/

section Cores

variable {k : Kernel} {loc : LocInfo} {core : ℕ}

lemma blockIndex_of_coreOf (h : k.coreOf loc = some core) :
    k.blockIndex loc = k.vectorBlock core := by
  simp only [Kernel.coreOf, Kernel.vectorBlock, Kernel.blockIndex, getEventBlockIndexOf,
    getEventExpandBlockIndexByLoc] at h ⊢
  split_ifs at h ⊢ <;> simp_all

lemma vectorBlock_injective (k : Kernel) : Function.Injective k.vectorBlock := by
  intro a b h
  simp only [Kernel.vectorBlock, Kernel.blockIndex, getEventBlockIndexOf,
    getEventExpandBlockIndexByLoc, c220MixSubBlockDim, c220VecSubBlockDim, if_true] at h
  split_ifs at h <;> omega

/-- A cube core of a mix kernel stores its sets where no vector core does. -/
lemma blockIndex_of_coreOf_none (h : k.coreOf loc = none) (core : ℕ) :
    k.vectorBlock core ≠ k.blockIndex loc := by
  simp only [Kernel.coreOf] at h
  split_ifs at h with hmix
  simp only [Kernel.vectorBlock, Kernel.blockIndex, getEventBlockIndexOf, hmix.1, if_true,
    getEventExpandBlockIndexByLoc, if_neg hmix.2, c220MixSubBlockDim, c220VecSubBlockDim]
  omega

end Cores

/-! ## The machine of a container -/

/-- Each core is alone in its class and releases the waits that name it. -/
def net : Net (Option ℕ × ℤ) (ℕ × ℤ) (Option ℕ × ℤ) where
  cls := id
  sources p := {p}
  sinkCls w := (some w.1, w.2)
  cls_of_mem := fun hi => Finset.mem_singleton.1 hi

def abs (k : Kernel) (c : Container) : State (Option ℕ × ℤ) (ℕ × ℤ) VectorTime where
  pending _ := []
  tokens w := (slot c (k.vectorBlock w.1) w.2).toList

/-- The container of the kernel between two events; the replayer stores empty clocks. -/
structure Good (E : Engine) (c : Container) : Prop where
  times : ∀ b event t, slot c b event = some t → Wf t
  range : ∀ b event t, slot c b event = some t → b < c.maxBlockNum
  plain : E = .replayer → ∀ b event t, slot c b event = some t → t = {}

section Steps

variable {E : Engine} {k : Kernel} {c : Container}

lemma slot_putSoft (b b' : ℕ) (m : ℤ → Option VectorTime) (event : ℤ) :
    slot (c.putSoft b m) b' event = if b' = b then m event else slot c b' event := by
  simp only [slot, Container.putSoft, Function.update_apply]
  split_ifs <;> rfl

lemma slot_set (b b' : ℕ) (event event' : ℤ) (t : VectorTime) :
    slot (c.setBlockSoftSyncInfo event b t) b' event' =
      if b < c.maxBlockNum ∧ b' = b ∧ event' = event then some t else slot c b' event' := by
  rw [Container.setBlockSoftSyncInfo]
  by_cases hb : c.maxBlockNum ≤ b
  · rw [if_pos hb, if_neg fun h => absurd h.1 (Nat.not_lt.2 hb)]
  · rw [if_neg hb, slot_putSoft]
    by_cases hb' : b' = b
    · subst hb'
      rw [if_pos rfl, Function.update_apply]
      simp only [Nat.not_le.1 hb, true_and]
      rfl
    · rw [if_neg hb', if_neg fun h => hb' h.2.1]

lemma setBlockSoftSyncInfo_maxBlockNum (b : ℕ) (event : ℤ) (t : VectorTime) :
    (c.setBlockSoftSyncInfo event b t).maxBlockNum = c.maxBlockNum := by
  rw [Container.setBlockSoftSyncInfo]
  split_ifs <;> rfl

lemma call_set (b : ℕ) (event : ℤ) (curPipe : ℕ) {t : VectorTime} (ht : Wf t) :
    ∃ t', Wf t' ∧ (E = .replayer → t' = {}) ∧
      call E c b curPipe t { opType := .ibSet, eventID := event } =
        (.processOk, t', c.setBlockSoftSyncInfo event b t') := by
  cases E with
  | replayer => exact ⟨{}, wf_default, fun _ => rfl, rfl⟩
  | race =>
    exact ⟨updateLogicTime t curPipe, ht.updateLogicTime curPipe, fun h => (by cases h), rfl⟩

lemma call_wait_none (h : Good E c) {core : ℕ} {event : ℤ} (hslot : slot c core event = none)
    (curPipe : ℕ) (t : VectorTime) :
    ∃ t', call E c 0 curPipe t { opType := .ibWait, eventID := event, waitCoreID := core } =
      (.processStalled, t', c) := by
  have hget (u : VectorTime) : c.getBlockSoftSyncInfo event core u = (none, c) := by
    rw [Container.getBlockSoftSyncInfo, if_pos (Int.natCast_nonneg core), Int.toNat_natCast]
    split_ifs
    · rfl
    · rw [Container.consumeBlockSoftSyncInfo]
      rw [slot] at hslot
      rw [hslot]
  cases E with
  | replayer =>
    refine ⟨{}, ?_⟩
    simp only [call, PipelineReplayer.blockSoftSync, hget]
    rfl
  | race =>
    refine ⟨t, ?_⟩
    simp only [call, RaceAlg.ibSync, hget]
    rfl

lemma call_wait_some (h : Good E c) {core : ℕ} {event : ℤ} {x : VectorTime}
    (hslot : slot c core event = some x) (curPipe : ℕ) {t : VectorTime} (ht : Wf t) :
    ∃ t' c', x ≤ t' ∧
      call E c 0 curPipe t { opType := .ibWait, eventID := event, waitCoreID := core } =
        (.processOk, t', c') ∧
      c'.maxBlockNum = c.maxBlockNum ∧
      ∀ b event', slot c' b event' =
        if b = core ∧ event' = event then none else slot c b event' := by
  have hlt := h.range core event x hslot
  have hx := h.times core event x hslot
  have hget (u : VectorTime) : c.getBlockSoftSyncInfo event core u =
      (some (updateVectorTime x u), c.putSoft core
        (Function.update (c.blockSoftSyncInfo core).mapVectorTime event none)) := by
    rw [Container.getBlockSoftSyncInfo, if_pos (Int.natCast_nonneg core), Int.toNat_natCast,
      if_neg (by omega), Container.consumeBlockSoftSyncInfo]
    rw [slot] at hslot
    rw [hslot]
  have hafter (b : ℕ) (event' : ℤ) : slot (c.putSoft core
      (Function.update (c.blockSoftSyncInfo core).mapVectorTime event none)) b event' =
      if b = core ∧ event' = event then none else slot c b event' := by
    rw [slot_putSoft]
    by_cases hb : b = core
    · subst hb
      rw [if_pos rfl, Function.update_apply]
      simp only [true_and]
      rfl
    · rw [if_neg hb, if_neg fun hc => hb hc.1]
  cases E with
  | replayer =>
    refine ⟨{},
      c.putSoft core (Function.update (c.blockSoftSyncInfo core).mapVectorTime event none),
      (h.plain rfl core event x hslot).le, ?_, rfl, hafter⟩
    simp only [call, PipelineReplayer.blockSoftSync, hget]
    rfl
  | race =>
    refine ⟨updateVectorTime x t,
      c.putSoft core (Function.update (c.blockSoftSyncInfo core).mapVectorTime event none),
      hx.le_updateVectorTime_left ht, ?_, rfl, hafter⟩
    simp only [call, RaceAlg.ibSync, hget]
    rfl

lemma step_set (h : Good E c) {loc : LocInfo} {event : ℤ} {curPipe : ℕ} {t : VectorTime}
    (ht : Wf t) (hm : Meets k c (.set loc event curPipe t)) :
    Step net (abs k c) ((Op.set loc event curPipe t).exec E k c).1
        (abs k ((Op.set loc event curPipe t).exec E k c).2) ∧
      Good E ((Op.set loc event curPipe t).exec E k c).2 := by
  obtain ⟨t', hwf, hplain, hcall⟩ := call_set (E := E) (c := c) (k.blockIndex loc) event curPipe ht
  rw [Op.exec, hcall]
  refine ⟨step_single rfl rfl rfl fun w => ?_, fun b event' u hu => ?_, fun b event' u hu => ?_,
    fun hE b event' u hu => ?_⟩
  · simp only [abs, slot_set]
    have hcls : net.sinkCls w = net.cls (k.coreOf loc, event) ↔
        k.coreOf loc = some w.1 ∧ w.2 = event := by
      simp only [net, id, Prod.mk.injEq, eq_comm]
    simp only [hcls]
    rcases hm with hnone | ⟨hlt, hfree⟩
    · rw [if_neg fun hc => blockIndex_of_coreOf_none hnone w.1 hc.2.1,
        if_neg fun hc => by rw [hnone] at hc; cases hc.1]
    · by_cases hw : k.coreOf loc = some w.1 ∧ w.2 = event
      · have hb := blockIndex_of_coreOf hw.1
        rw [if_pos hw, if_pos ⟨hlt, hb.symm, hw.2⟩, ← hb, hw.2, hfree]
        rfl
      · rw [if_neg hw, if_neg]
        rintro ⟨-, hb, hev⟩
        refine hw ⟨?_, hev⟩
        cases hcore : k.coreOf loc with
        | none => exact absurd hb (blockIndex_of_coreOf_none hcore w.1)
        | some core =>
          rw [blockIndex_of_coreOf hcore] at hb
          rw [vectorBlock_injective k hb]
  · rw [slot_set] at hu
    split_ifs at hu
    · cases hu
      exact hwf
    · exact h.times b event' u hu
  · rw [slot_set] at hu
    rw [setBlockSoftSyncInfo_maxBlockNum]
    split_ifs at hu with hc
    · rw [hc.2.1]
      exact hc.1
    · exact h.range b event' u hu
  · rw [slot_set] at hu
    split_ifs at hu
    · cases hu
      exact hplain hE
    · exact h.plain hE b event' u hu

/-- A wait that looks at the right place, or finds nothing, is a step of the machine. -/
lemma step_wait (h : Good E c) {core : ℕ} {event : ℤ} {curPipe : ℕ} {t : VectorTime}
    (ht : Wf t) (hm : Meets k c (.wait core event curPipe t)) :
    Step net (abs k c) ((Op.wait core event curPipe t).exec E k c).1
        (abs k ((Op.wait core event curPipe t).exec E k c).2) ∧
      Good E ((Op.wait core event curPipe t).exec E k c).2 := by
  cases hslot : slot c core event with
  | none =>
    obtain ⟨t', hcall⟩ := call_wait_none h hslot curPipe t
    rw [Op.exec, hcall]
    refine ⟨.fails ?_, h⟩
    have hown : slot c (k.vectorBlock core) event = none := by
      rcases hm with hb | ⟨hnone, -⟩
      · rw [hb, hslot]
      · exact hnone
    simp only [abs, hown, Option.toList_none]
  | some x =>
    have hb : k.vectorBlock core = core := by
      rcases hm with hb | ⟨-, hnone⟩
      · exact hb
      · rw [hslot] at hnone
        cases hnone
    obtain ⟨t', c', hle, hcall, hmax, hafter⟩ := call_wait_some h hslot curPipe ht
    rw [Op.exec, hcall]
    have hleft : ∀ b event' u, slot c' b event' = some u → slot c b event' = some u := by
      intro b event' u hu
      rw [hafter] at hu
      split_ifs at hu
      exact hu
    refine ⟨?_, fun b event' u hu => h.times b event' u (hleft b event' u hu),
      fun b event' u hu => ?_, fun hE b event' u hu => h.plain hE b event' u (hleft b event' u hu)⟩
    · have htok : (abs k c).tokens (core, event) = x :: [] := by
        simp only [abs, hb, hslot, Option.toList_some]
      have habs : abs k c' = { abs k c with
          tokens := Function.update (abs k c).tokens (core, event) [] } := by
        simp only [abs, State.mk.injEq, true_and]
        funext w
        rw [Function.update_apply, hafter]
        by_cases hw : w = (core, event)
        · rw [if_pos hw, hw, hb, if_pos ⟨rfl, rfl⟩, Option.toList_none]
        · rw [if_neg hw, if_neg]
          rintro ⟨h1, h2⟩
          refine hw (Prod.ext (vectorBlock_injective k ?_) h2)
          rw [h1, hb]
      rw [habs]
      exact .passes htok hle
    · rw [hmax]
      exact h.range b event' u (hleft b event' u hu)

end Steps

/-! ## Runs -/

lemma exec_concat (E : Engine) (k : Kernel) (c : Container) (ops : List Op) (op : Op) :
    exec E k c (ops ++ [op]) = ((exec E k c ops).1 ++ [(op.exec E k (exec E k c ops).2).1],
      (op.exec E k (exec E k c ops).2).2) := by
  rw [exec, List.foldl_append]
  rfl

/-- A run that meets the condition is a run of the machine. -/
lemma exec_run (E : Engine) (k : Kernel) {ops : List Op} (hfits : ∀ op ∈ ops, op.Fits)
    (hmeets : RunMeets E k ops) :
    Run net (exec E k k.container ops).1 (abs k (exec E k k.container ops).2) ∧
      Good E (exec E k k.container ops).2 := by
  induction ops using List.reverseRecOn with
  | nil =>
    have habs : abs k k.container = .start := rfl
    refine ⟨?_, fun b event t ht => (by cases ht), fun b event t ht => (by cases ht),
      fun _ b event t ht => (by cases ht)⟩
    change Run net [] (abs k k.container)
    rw [habs]
    exact .start
  | append_singleton ops op ih =>
    have hbefore : RunMeets E k ops := by
      intro i o hi
      have hlt := (List.getElem?_eq_some_iff.1 hi).1
      have hm := hmeets i o (by rw [List.getElem?_append_left hlt]; exact hi)
      rwa [List.take_append_of_le_length hlt.le] at hm
    obtain ⟨hrun, hgood⟩ := ih (fun o ho => hfits o (List.mem_append_left _ ho)) hbefore
    have hm := hmeets ops.length op (by rw [List.getElem?_concat_length])
    rw [List.take_left' rfl] at hm
    have hf := hfits op (List.mem_append_right _ (List.mem_singleton_self _))
    rw [exec_concat]
    cases op with
    | set loc event curPipe t =>
      obtain ⟨hs, hg⟩ := step_set hgood hf hm
      exact ⟨hrun.step hs, hg⟩
    | wait core event curPipe t =>
      obtain ⟨hs, hg⟩ := step_wait hgood hf hm
      exact ⟨hrun.step hs, hg⟩

lemma keepsSignals_of_keepsRounds {tr : List SoftLabel} (h : KeepsRounds net.srcs tr) :
    KeepsSignals tr := by
  intro pre w r post heq
  have hall := h pre _ post heq
  have hmem : ((some w.1, w.2) : Option ℕ × ℤ) ∈ net.srcs w := Finset.mem_singleton_self _
  have hrounds : rounds (net.srcs w) pre = (sets (some w.1, w.2) pre).length := by
    obtain ⟨i, hi, hlen⟩ : ∃ i ∈ net.srcs w, (sets i pre).length = _ := exists_eq_rounds ⟨_, hmem⟩
    rw [← hlen, Finset.mem_singleton.1 hi]
    rfl
  cases r with
  | none =>
    refine ⟨iff_of_false (by simp) ?_, fun t ht => by cases ht⟩
    have heq' : (waits w pre).length = rounds (net.srcs w) pre := hall
    rw [← hrounds, heq']
    exact lt_irrefl _
  | some t =>
    obtain ⟨hlt, hclock⟩ := hall
    refine ⟨iff_of_true rfl (hrounds ▸ hlt), fun t' ht' => ?_⟩
    cases ht'
    exact hclock _ hmem

/-- **Soft synchronisation keeps its signals.** In every run, in either engine and for every kernel
type, in which a core sets an event only when its last set of it has been consumed, and in which a
wait names a core that stores its sets under its own number (or one without a set to give, while
nothing is stored under the number the wait names): a wait naming a core and an event succeeds
exactly when the core has set the event more often than waits naming both have succeeded, and the
clock it gets is at least that of the set it stands for. -/
theorem softSync_keeps_signals (E : Engine) (k : Kernel) (ops : List Op)
    (hfits : ∀ op ∈ ops, op.Fits) (hmeets : RunMeets E k ops) :
    KeepsSignals (exec E k k.container ops).1 :=
  keepsSignals_of_keepsRounds (exec_run E k hfits hmeets).1.keepsRounds

/-- A vector kernel with two cores, and a mix kernel of a device with sub-blocks with two groups. -/
def vectorKernel : Kernel := { kernelType := .aivec, deviceType := ⟨2⟩, blockDim := 2 }

def mixKernel : Kernel := { kernelType := .mix, deviceType := ⟨2⟩, blockDim := 2 }

/-- Core 0 sets event 5, core 1 waits for it, twice in turn. -/
def inTurn : List Op :=
  [.set {} 5 0 {}, .wait 0 5 12 {}, .set {} 5 0 {}, .wait 0 5 12 {}]

theorem softSync_keeps_signals_inTurn :
    (waits (0, 5) (exec .race vectorKernel vectorKernel.container inTurn).1).length = 2 ∧
      KeepsSignals (exec .race vectorKernel vectorKernel.container inTurn).1 := by
  refine ⟨by decide +kernel, softSync_keeps_signals .race vectorKernel inTurn ?_ ?_⟩
  · simp [inTurn, Op.Fits, wf_default]
  · intro i op hi
    have hlt : i < 4 := (List.getElem?_eq_some_iff.1 hi).1
    interval_cases i <;> cases hi <;> decide +kernel

/-- Two sets of core 0 before the first wait count as one; and a wait for vector core 2 of a mix
kernel does not find the set of that core. -/
theorem softSync_loses_signals :
    ¬ KeepsSignals (exec .race vectorKernel vectorKernel.container
        [.set {} 5 0 {}, .set {} 5 0 {}, .wait 0 5 12 {}, .wait 0 5 12 {}]).1 ∧
      ¬ KeepsSignals (exec .replayer mixKernel mixKernel.container
        [.set { coreId := 2 } 5 36 {}, .wait 2 5 0 {}]).1 := by
  refine ⟨fun h => ?_, fun h => ?_⟩
  · obtain ⟨a, b, w, r, hexec, hcount⟩ : ∃ a b w, ∃ r : Option VectorTime,
        (exec .race vectorKernel vectorKernel.container
          [.set {} 5 0 {}, .set {} 5 0 {}, .wait 0 5 12 {}, .wait 0 5 12 {}]).1 =
            [a, b, w] ++ .wait (0, 5) r :: [] ∧ r.isSome = false ∧
          (waits (0, 5) [a, b, w]).length < (sets (some 0, 5) [a, b, w]).length :=
      ⟨_, _, _, _, rfl, by decide +kernel, by decide +kernel⟩
    have hiff := (h _ _ _ _ hexec).1.2 hcount.2
    rw [hcount.1] at hiff
    cases hiff
  · obtain ⟨a, r, hexec, hcount⟩ : ∃ a, ∃ r : Option VectorTime,
        (exec .replayer mixKernel mixKernel.container
          [.set { coreId := 2 } 5 36 {}, .wait 2 5 0 {}]).1 = [a] ++ .wait (2, 5) r :: [] ∧
          r.isSome = false ∧ (waits (2, 5) [a]).length < (sets (some 2, 5) [a]).length :=
      ⟨_, _, rfl, by decide +kernel, by decide +kernel⟩
    have hiff := (h _ _ _ _ hexec).1.2 hcount.2
    rw [hcount.1] at hiff
    cases hiff

end MsSanitizer.SoftSync
