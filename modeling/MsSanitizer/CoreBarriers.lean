import MsSanitizer.CrossNpuRaceAlg

/-!
# Barriers between the cores of a kernel

The three engines hand a barrier event of a core to the barrier of its configuration, with the
number of used cores as the rank and the number of the core as the worker. The barrier counts
core numbers, not cores; since a core has one number, as many cores have arrived as it counts. But
the rank `0`, by which all cores are meant, lets the first core through.

Beside the barriers a run keeps the cores that have arrived in the present round of each.
-/

namespace MsSanitizer.CoreBarriers

open RecordDefs EventDef VectorTime PipeLine

/-- The engines with barriers between cores. -/
inductive Engine
  | replayer
  | crossCore
  | crossNpu
  deriving DecidableEq

/-- A barrier event, with the pipe it runs on and its clock. -/
structure Arrival where
  loc : LocInfo := {}
  info : MstxCrossCoreBarrier
  curPipe : ℕ := 0
  time : VectorTime := {}

/-- A core: a cube core and a vector core may have the same number. -/
abbrev Core := BlockType × ℕ

namespace Arrival

variable (a : Arrival)

def core : Core := (a.loc.blockType, a.loc.coreId)

def conf : CrossNpuBarrierConf := PipelineReplayer.coreBarrierConf a.info

def event : SanEvent := { info := .mstxCrossCoreBarrier a.info, loc := a.loc }

end Arrival

/-- The handler of a barrier event, on the barriers of the kernel. -/
def call (E : Engine) (db : BarrierDatabase ℕ) (a : Arrival) : ReturnType × BarrierDatabase ℕ :=
  match E with
  | .replayer =>
    let r : PipelineReplayer :=
      { kernelType := .mix, deviceType := .invalid, container := {}, crossCoreBarrier := db }
    let s := r.processMstxCrossCoreBarrier a.event a.info
    (s.1, s.2.crossCoreBarrier)
  | .crossCore =>
    let r : CrossCoreRaceAlg :=
      { kernelType := .mix, deviceType := .invalid, container := {}, crossCoreBarrier := db,
        vc := fun _ => a.time }
    let s := r.processMstxCrossCoreBarrier a.curPipe a.event a.info
    (s.1, s.2.crossCoreBarrier)
  | .crossNpu =>
    let r : CrossNpuRaceAlg :=
      { container := fun _ _ => {}, crossCoreBarrier := fun _ _ => db, vc := fun _ => a.time }
    let s := r.dispatch { devices := [], shared := fun _ _ _ => false } { pipeIndex := a.curPipe }
      a.event
    (s.1, s.2.crossCoreBarrier a.loc.deviceIdx a.loc.kernelIdx)

/-- The barriers, and the cores that have arrived in the present round of each. -/
structure State where
  db : BarrierDatabase ℕ := fun _ => {}
  cores : CrossNpuBarrierConf → Finset Core := fun _ => ∅

/-- The cores that have arrived when an event is handled: its own core is one of them, unless the
barrier is letting cores through. -/
def arrivedNow (s : State) (a : Arrival) : Finset Core :=
  if (s.db a.conf).allReachBarrier then s.cores a.conf else insert a.core (s.cores a.conf)

/-- One event. The round is over when the last core has passed. -/
def step (E : Engine) (s : State) (a : Arrival) : State :=
  let r := call E s.db a
  { db := r.2
    cores := Function.update s.cores a.conf
      (if r.1 = .processOk ∧ (r.2 a.conf).reachedWorkers = ∅ then ∅ else arrivedNow s a) }

def run (E : Engine) (arrivals : List Arrival) : State := arrivals.foldl (step E) {}

/-! ## Passing together -/

/-- A kernel on a device. -/
structure Kernel where
  kernelType : KernelType
  deviceType : DeviceType
  blockDim : ℕ

namespace Kernel

variable (k : Kernel)

def coreNum : ℕ := PipelineReplayer.totalBlockNum k.kernelType k.deviceType k.blockDim

def HasCore (loc : LocInfo) : Prop :=
  getEventBlockIndexOf loc k.kernelType k.deviceType < k.coreNum

/-- The number of participants that an event asks for. -/
def participants (usedCoreNum : ℕ) : ℕ := if usedCoreNum = 0 then k.coreNum else usedCoreNum

end Kernel

/-- In every run, an event that asks for `usedCoreNum` cores passes only when as many cores have
arrived as it has participants. -/
def ReleasesLate (E : Engine) (k : Kernel) (usedCoreNum : ℕ) : Prop :=
  ∀ arrivals : List Arrival, (∀ a ∈ arrivals, k.HasCore a.loc) →
    ∀ a : Arrival, k.HasCore a.loc → a.info.usedCoreNum = usedCoreNum →
      (call E (run E arrivals).db a).1 = .processOk →
        k.participants usedCoreNum ≤ (arrivedNow (run E arrivals) a).card

/-! ## What an event does -/

section Step

variable {E : Engine} {s : State} {a : Arrival}

lemma call_eq (E : Engine) (db : BarrierDatabase ℕ) (a : Arrival) :
    ∃ t, call E db a =
      (if ((db a.conf).wait a.info.usedCoreNum a.loc.coreId t).1.isSome = true then .processOk
        else .processStalled,
        Function.update db a.conf ((db a.conf).wait a.info.usedCoreNum a.loc.coreId t).2) := by
  cases E with
  | replayer =>
    refine ⟨{}, ?_⟩
    have hconf : PipelineReplayer.coreBarrierConf a.info = a.conf := rfl
    have hnum : a.conf.usedCoreNum = a.info.usedCoreNum := rfl
    simp only [call, PipelineReplayer.processMstxCrossCoreBarrier, Arrival.event, hconf, hnum]
    rcases (db a.conf).wait a.info.usedCoreNum a.loc.coreId {} with ⟨_ | t, b⟩ <;> rfl
  | crossCore =>
    refine ⟨a.time, ?_⟩
    have hconf : PipelineReplayer.coreBarrierConf a.info = a.conf := rfl
    have hnum : a.conf.usedCoreNum = a.info.usedCoreNum := rfl
    simp only [call, CrossCoreRaceAlg.processMstxCrossCoreBarrier, RaceAlg.pollBarrier,
      Arrival.event, hconf, hnum]
    rcases (db a.conf).wait a.info.usedCoreNum a.loc.coreId a.time with ⟨_ | t, b⟩ <;> rfl
  | crossNpu =>
    refine ⟨a.time, ?_⟩
    have hconf : PipelineReplayer.coreBarrierConf a.info = a.conf := rfl
    have hnum : a.conf.usedCoreNum = a.info.usedCoreNum := rfl
    simp only [call, CrossNpuRaceAlg.dispatch, RaceAlg.pollBarrier, Arrival.event, hconf, hnum,
      update2, Function.update_self]
    rcases (db a.conf).wait a.info.usedCoreNum a.loc.coreId a.time with ⟨_ | t, b⟩ <;> rfl

variable {b : BarrierEvent ℕ} {rank w : ℕ} {t : VectorTime}

/-- A poll either leaves the barrier after the arrival of the worker, or lets the worker pass. -/
lemma wait_cases (b : BarrierEvent ℕ) (rank w : ℕ) (t : VectorTime) :
    b.wait rank w t = (none, b.arrive rank w t) ∨
      (b.arrive rank w t).allReachBarrier = true ∧
        (b.wait rank w t).1.isSome = true ∧
        ((b.wait rank w t).2 = {} ∨
          (b.wait rank w t).2.allReachBarrier = true ∧
            (b.wait rank w t).2.reachedWorkers ≠ ∅) := by
  rw [BarrierEvent.wait_eq]
  by_cases hall : (b.arrive rank w t).allReachBarrier = true
  · rw [if_pos hall]
    by_cases hw : w ∈ (b.arrive rank w t).reachedWorkers
    · rw [BarrierEvent.consume_of_mem hw]
      refine .inr ⟨hall, rfl, ?_⟩
      dsimp only
      split_ifs with hlast
      · exact .inl rfl
      · exact .inr ⟨hall, hlast⟩
    · rw [BarrierEvent.consume_of_notMem hw]
      exact .inl rfl
  · rw [if_neg hall]
    exact .inl rfl

/-- The barrier counts the numbers of the cores that have arrived. -/
structure Counts (b : BarrierEvent ℕ) (rank : ℕ) (cores : Finset Core) : Prop where
  gather : b.allReachBarrier = false → b.reachedWorkers = cores.image Prod.snd
  all : b.allReachBarrier = true → max rank 1 ≤ (cores.image Prod.snd).card

lemma Counts.arrive {cores : Finset Core} (h : Counts b rank cores) (core : Core)
    (t : VectorTime) :
    Counts (b.arrive rank core.2 t) rank
      (if b.allReachBarrier then cores else insert core cores) := by
  rw [BarrierEvent.arrive]
  by_cases hb : b.allReachBarrier = true
  · rw [if_pos hb, if_pos hb]
    exact h
  · rw [if_neg hb, if_neg hb]
    have hreached : (b.reach core.2 t).reachedWorkers = (insert core cores).image Prod.snd := by
      rw [Finset.image_insert, ← h.gather (Bool.eq_false_iff.2 hb)]
      rfl
    refine ⟨fun _ => hreached, fun hall => max_le ?_ ?_⟩
    · rw [← hreached]
      exact of_decide_eq_true hall
    · exact Finset.card_pos.2 ((Finset.insert_nonempty _ _).image _)

lemma Counts.call {cores : Finset Core} (h : Counts b rank cores) (core : Core) (t : VectorTime) :
    let now := if b.allReachBarrier then cores else insert core cores
    Counts (b.wait rank core.2 t).2 rank
        (if (b.wait rank core.2 t).1.isSome = true ∧
          (b.wait rank core.2 t).2.reachedWorkers = ∅ then ∅ else now) ∧
      ((b.wait rank core.2 t).1.isSome = true → max rank 1 ≤ now.card) := by
  have harrive := h.arrive core t
  intro now
  rcases wait_cases b rank core.2 t with heq | ⟨hall, hsome, hreset | ⟨hall', hne⟩⟩
  · rw [heq, if_neg (by simp)]
    exact ⟨harrive, fun hc => by cases hc⟩
  · have hle := harrive.all hall
    rw [hreset, if_pos ⟨hsome, rfl⟩]
    exact ⟨⟨fun _ => rfl, fun hc => by cases hc⟩, fun _ => hle.trans Finset.card_image_le⟩
  · have hle := harrive.all hall
    rw [if_neg fun hc => hne hc.2]
    refine ⟨⟨fun hc => ?_, fun _ => hle⟩, fun _ => hle.trans Finset.card_image_le⟩
    rw [hall'] at hc
    cases hc

end Step

def Inv (s : State) : Prop :=
  ∀ conf, Counts (s.db conf) conf.usedCoreNum (s.cores conf)

lemma Inv.step {E : Engine} {s : State} (h : Inv s) (a : Arrival) : Inv (step E s a) := by
  intro conf
  obtain ⟨t, hcall⟩ := call_eq E s.db a
  rw [CoreBarriers.step, hcall]
  by_cases hconf : conf = a.conf
  · subst hconf
    have hok : ((if ((s.db a.conf).wait a.info.usedCoreNum a.loc.coreId t).1.isSome = true then
        ReturnType.processOk else .processStalled) = .processOk) ↔
        ((s.db a.conf).wait a.info.usedCoreNum a.loc.coreId t).1.isSome = true := by
      split_ifs with hsome
      · exact iff_of_true rfl hsome
      · exact iff_of_false (by simp) hsome
    simp only [Function.update_self, hok]
    exact ((h a.conf).call a.core t).1
  · simp only [Function.update_of_ne hconf]
    exact h conf

lemma inv_run (E : Engine) (arrivals : List Arrival) : Inv (run E arrivals) := by
  induction arrivals using List.reverseRecOn with
  | nil => exact fun conf => ⟨fun _ => rfl, fun hc => by cases hc⟩
  | append_singleton arrivals a ih =>
    rw [run, List.foldl_append]
    exact ih.step a

/-- **When a barrier waits for its cores.** In each engine and for every kernel, the events that
ask for `usedCoreNum` cores pass only after as many different cores as they have participants have
arrived, in every run, exactly when they ask for a positive number or the kernel has no more than
one core. -/
theorem releasesLate_iff (E : Engine) (k : Kernel) (usedCoreNum : ℕ) :
    ReleasesLate E k usedCoreNum ↔ 0 < usedCoreNum ∨ k.coreNum ≤ 1 := by
  refine ⟨fun h => ?_, fun hcond arrivals _ a _ hnum hok => ?_⟩
  · by_contra hcond
    push Not at hcond
    obtain ⟨hzero, hcores⟩ := hcond
    -- the first core passes at once
    have hcore : k.HasCore {} := by
      have h0 : getEventBlockIndexOf {} k.kernelType k.deviceType = 0 := by
        simp [getEventBlockIndexOf, getEventExpandBlockIndexByLoc]
      rw [Kernel.HasCore, h0]
      omega
    have hlate := h [] (fun a ha => absurd ha List.not_mem_nil) { info := {} } hcore
      (Nat.le_zero.1 hzero).symm (by cases E <;> rfl)
    rw [Kernel.participants, if_pos (Nat.le_zero.1 hzero)] at hlate
    have hone : (arrivedNow (run E []) { info := {} }).card = 1 := rfl
    omega
  · obtain ⟨t, hcall⟩ := call_eq E (run E arrivals).db a
    rw [hcall] at hok
    have hsome : (((run E arrivals).db a.conf).wait a.info.usedCoreNum a.loc.coreId t).1.isSome =
        true := by
      by_contra hnone
      rw [if_neg hnone] at hok
      cases hok
    have hlate : max a.info.usedCoreNum 1 ≤ (arrivedNow (run E arrivals) a).card :=
      ((inv_run E arrivals a.conf).call a.core t).2 hsome
    rw [Kernel.participants]
    split_ifs with hzero
    · omega
    · omega

/-- A barrier of all cores, which has the number 0, lets the first of two cores through. -/
theorem not_releasesLate_all : ¬ ReleasesLate .crossCore ⟨.aivec, ⟨2⟩, 2⟩ 0 := by
  intro h
  have hlate := h [] (fun a ha => absurd ha List.not_mem_nil) { info := {} }
    (by decide : 0 < 2) rfl rfl
  have hone : (arrivedNow (run .crossCore []) { info := {} }).card = 1 := rfl
  rw [hone] at hlate
  exact absurd hlate (by decide)

end MsSanitizer.CoreBarriers
