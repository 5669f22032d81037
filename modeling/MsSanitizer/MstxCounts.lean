import MsSanitizer.CountedQueues
import MsSanitizer.RaceAlgImpl
import MsSanitizer.StoredClocks

/-!
# The counts of MSTX flags

Before a replay the sets of each MSTX flag are counted, and a wait that may stand for several sets
goes on without one when the count is zero. The engines take the events of a flag in any order;
whatever the order, the count stays the number of sets that are not executed yet or whose clock is
still in the container.
-/

namespace MsSanitizer

open RecordDefs EventDef VectorTime CrossCoreSync PipeLine CountedQueues

abbrev MstxKey := ℕ × ℕ

def EventDef.MstxCrossInfo.key (info : MstxCrossInfo) : MstxKey := (info.addr, info.flagId)

def setKey (event : SanEvent) : Option MstxKey :=
  match event.info with
  | .mstxCrossSync info => if info.opType = .mstxSetCross then some info.key else none
  | _ => none

def waitKey (event : SanEvent) : Option MstxKey :=
  match event.info with
  | .mstxCrossSync info => if info.opType = .mstxWaitCross then some info.key else none
  | _ => none

def setsFlag (key : MstxKey) (event : SanEvent) : Bool := setKey event == some key

def waitsForFlag (key : MstxKey) (event : SanEvent) : Bool := waitKey event == some key

/-- An engine that replays MSTX flags: its state when the events are collected, and the call for
an event on the clock of a pipe. -/
structure MstxEngine (σ : Type) where
  start : List SanEvent → σ
  call : ℕ → SanEvent → σ → ReturnType × σ
  container : σ → Container
  setCrossMap : σ → MstxSetCrossMap
  clock : ℕ → σ → VectorTime

namespace MstxEngine

def raceAlgImpl (kernelType : KernelType) (deviceType : DeviceType) (blockDim : ℕ) :
    MstxEngine RaceAlgImpl where
  start := (RaceAlgImpl.init kernelType deviceType blockDim).collect
  call p e a := a.dispatch p e
  container := RaceAlgImpl.container
  setCrossMap := RaceAlgImpl.mstxSetCrossMap
  clock p a := a.vc p

def crossCoreRaceAlg (kernelType : KernelType) (deviceType : DeviceType) (blockDim : ℕ) :
    MstxEngine CrossCoreRaceAlg where
  start events :=
    { CrossCoreRaceAlg.init kernelType deviceType blockDim with
      mstxSetCrossMap := events.foldl cacheMstxCrossSet fun _ => none }
  call p e a := a.dispatch p e
  container := CrossCoreRaceAlg.container
  setCrossMap := CrossCoreRaceAlg.mstxSetCrossMap
  clock p a := a.vc p

def pipelineReplayer (kernelType : KernelType) (deviceType : DeviceType) (blockDim : ℕ) :
    MstxEngine PipelineReplayer where
  start := (PipelineReplayer.init kernelType deviceType blockDim).collect
  call p e r := r.dispatch p e
  container := PipelineReplayer.container
  setCrossMap := PipelineReplayer.mstxSetCrossMap
  clock _ _ := {}

/-- An event that was executed, whether it was skipped, and the clock of its pipe afterwards. -/
structure Done where
  event : SanEvent
  skipped : Bool
  clock : VectorTime

variable {σ : Type} (E : MstxEngine σ)

def count (s : σ) (key : MstxKey) : ℕ := (E.setCrossMap s key).getD 0

/-- The clocks of a flag that are in the container. -/
def queued (s : σ) (key : MstxKey) : List VectorTime :=
  ((E.container s).mstxCrossSetMap key).getD []

/-- What a call for an MSTX event executes: nothing where the event stalls. -/
def done (p : ℕ) (e : SanEvent) (info : MstxCrossInfo) (s : σ) : List Done :=
  match (E.call p e s).1 with
  | .processStalled => []
  | .processOk =>
    [⟨e, decide (info.opType = .mstxWaitCross) && (E.setCrossMap s).skips info,
      E.clock p (E.call p e s).2⟩]

/-- The replays of the collected events: MSTX events are offered to the engine, in any order and
any number of times until they succeed. In between, the clocks of the pipes may change. -/
inductive Replays (events : List SanEvent) : List Done → σ → Prop
  | start : Replays events [] (E.start events)
  | offer {tr s} (p e info) (h : Replays events tr s) (he : e.info = .mstxCrossSync info) :
    Replays events (tr ++ done E p e info s) (E.call p e s).2
  | other {tr s s'} (h : Replays events tr s)
    (hcontainer : (E.container s').mstxCrossSetMap = (E.container s).mstxCrossSetMap)
    (hmap : E.setCrossMap s' = E.setCrossMap s) (hclock : ∀ p, Wf (E.clock p s')) :
    Replays events tr s'

def setsOf (key : MstxKey) (tr : List Done) : List Done := tr.filter fun d => setsFlag key d.event

def waitsOf (key : MstxKey) (tr : List Done) : List Done :=
  tr.filter fun d => waitsForFlag key d.event && !d.skipped

/-- The counts of an engine are right in every replay: the count of a flag is the number of its
sets that are not executed yet and of its clocks in the container, and a wait that succeeds lowers
it by one. A wait is skipped only when nothing is left of either, and the `i`-th wait that succeeds
gets at least the clock of the `i`-th set. -/
def CountsAgree (events : List SanEvent) : Prop :=
  ∀ (tr : List Done) (s : σ) (rest : List SanEvent), E.Replays events tr s →
    (tr.map Done.event ++ rest).Perm events → ∀ key : MstxKey,
    E.count s key = rest.countP (setsFlag key) + (E.queued s key).length ∧
    (∀ p e info, e.info = .mstxCrossSync info → info.opType = .mstxWaitCross → info.key = key →
      ((E.setCrossMap s).skips info = true →
        rest.countP (setsFlag key) = 0 ∧ E.queued s key = []) ∧
      ((E.setCrossMap s).skips info = false → (E.call p e s).1 = .processOk →
        E.count (E.call p e s).2 key + 1 = E.count s key)) ∧
    ∀ (i : ℕ) (w : Done), (waitsOf key tr)[i]? = some w →
      ∃ x : Done, (setsOf key tr)[i]? = some x ∧ x.clock ≤ w.clock

/-! ## One call -/

variable {E} {s s' : σ} {p : ℕ} {e : SanEvent} {info : MstxCrossInfo}

/-- The stored clocks are well formed and among those that the engine gives its pipes, and no queue
of the container is empty. -/
structure Good (E : MstxEngine σ) (stamp : VectorTime → Prop) (s : σ) : Prop where
  clock : ∀ p, Wf (E.clock p s)
  stored : ∀ key l, (E.container s).mstxCrossSetMap key = some l →
    l ≠ [] ∧ ∀ t ∈ l, Wf t ∧ stamp t

/-- What a call does to the counts and to the container. -/
inductive Outcome (E : MstxEngine σ) (p : ℕ) (info : MstxCrossInfo) (s s' : σ) : ReturnType → Prop
  | set (hop : info.opType = .mstxSetCross) (hmap : E.setCrossMap s' = E.setCrossMap s)
    (hqueue : (E.container s').mstxCrossSetMap = Function.update (E.container s).mstxCrossSetMap
      info.key (some (E.queued s info.key ++ [E.clock p s']))) : Outcome E p info s s' .processOk
  | skip (hop : info.opType = .mstxWaitCross) (hskip : (E.setCrossMap s).skips info = true)
    (hmap : E.setCrossMap s' = E.setCrossMap s)
    (hqueue : (E.container s').mstxCrossSetMap = (E.container s).mstxCrossSetMap) :
    Outcome E p info s s' .processOk
  | wait (t : VectorTime) (rest : List VectorTime) (hop : info.opType = .mstxWaitCross)
    (hskip : (E.setCrossMap s).skips info = false)
    (hfront : (E.container s).mstxCrossSetMap info.key = some (t :: rest))
    (hmap : E.setCrossMap s' = (E.setCrossMap s).matched info)
    (hqueue : (E.container s').mstxCrossSetMap = Function.update (E.container s).mstxCrossSetMap
      info.key (if rest.isEmpty then none else some rest))
    (hclock : t ≤ E.clock p s') : Outcome E p info s s' .processOk
  | stall (hmap : E.setCrossMap s' = E.setCrossMap s)
    (hqueue : (E.container s').mstxCrossSetMap = (E.container s).mstxCrossSetMap) :
    Outcome E p info s s' .processStalled

/-- What the engines have in common. -/
structure Follows (E : MstxEngine σ) (stamp : VectorTime → Prop) : Prop where
  start_queue : ∀ events key, (E.container (E.start events)).mstxCrossSetMap key = none
  start_map : ∀ events, E.setCrossMap (E.start events) =
    events.foldl cacheMstxCrossSet fun _ => none
  start_clock : ∀ events p, Wf (E.clock p (E.start events))
  stamp_clock : ∀ p s, stamp (E.clock p s)
  call : ∀ p e info s, Good E stamp s → e.info = .mstxCrossSync info →
    (∀ q, Wf (E.clock q (E.call p e s).2)) ∧
      Outcome E p info s (E.call p e s).2 (E.call p e s).1

lemma getMstxCrossInfo_cons {c : Container} {t : VectorTime} {rest : List VectorTime}
    (h : c.mstxCrossSetMap info.key = some (t :: rest)) (vt : VectorTime) :
    c.getMstxCrossInfo info vt = (some (updateVectorTime t vt),
      { c with
        mstxCrossSetMap := Function.update c.mstxCrossSetMap info.key
          (if rest.isEmpty then none else some rest) }) := by
  rw [MstxCrossInfo.key] at h
  simp only [Container.getMstxCrossInfo, h]
  rfl

lemma getMstxCrossInfo_none {c : Container} (h : c.mstxCrossSetMap info.key = none)
    (vt : VectorTime) : c.getMstxCrossInfo info vt = (none, c) := by
  rw [MstxCrossInfo.key] at h
  simp only [Container.getMstxCrossInfo, h]

lemma outcome_of_mstxCrossSync {stamp : VectorTime → Prop} (h : Good E stamp s)
    {r : ReturnType × VectorTime × Container × MstxSetCrossMap}
    (hr : RaceAlg.mstxCrossSync (E.container s) (E.setCrossMap s) p (E.clock p s) info = r)
    (hclock : ∀ q, E.clock q s' = Function.update (fun q => E.clock q s) p r.2.1 q)
    (hcontainer : E.container s' = r.2.2.1) (hmap : E.setCrossMap s' = r.2.2.2) :
    (∀ q, Wf (E.clock q s')) ∧ Outcome E p info s s' r.1 := by
  have hself : E.clock p s' = r.2.1 := by rw [hclock, Function.update_self]
  have hwf : Wf r.2.1 → ∀ q, Wf (E.clock q s') := by
    intro hp q
    rw [hclock]
    by_cases hq : q = p
    · rw [hq, Function.update_self]
      exact hp
    · rw [Function.update_of_ne hq]
      exact h.clock q
  unfold RaceAlg.mstxCrossSync at hr
  split_ifs at hr with hset hwait hskip
  · subst hr
    refine ⟨hwf ((h.clock p).updateLogicTime p), .set hset hmap ?_⟩
    rw [hcontainer, hself]
    rfl
  · subst hr
    exact ⟨hwf (h.clock p), .skip hwait hskip hmap (by rw [hcontainer])⟩
  · rw [Bool.not_eq_true] at hskip
    cases hfront : (E.container s).mstxCrossSetMap info.key with
    | none =>
      rw [getMstxCrossInfo_none hfront] at hr
      subst hr
      exact ⟨hwf (h.clock p), .stall hmap (by rw [hcontainer])⟩
    | some l =>
      cases l with
      | nil => exact absurd rfl (h.stored _ _ hfront).1
      | cons t rest =>
        rw [getMstxCrossInfo_cons hfront] at hr
        subst hr
        have ht := ((h.stored _ _ hfront).2 t List.mem_cons_self).1
        refine ⟨hwf (ht.updateVectorTime (h.clock p)).1,
          .wait t rest hwait hskip hfront hmap (by rw [hcontainer]) ?_⟩
        rw [hself]
        exact ht.le_updateVectorTime_left (h.clock p)
  · subst hr
    exact ⟨hwf (h.clock p), .stall hmap (by rw [hcontainer])⟩

variable (kernelType : KernelType) (deviceType : DeviceType) (blockDim : ℕ)

lemma raceAlgImpl_follows :
    Follows (raceAlgImpl kernelType deviceType blockDim) fun _ => True where
  start_queue _ _ := rfl
  start_map _ := rfl
  start_clock _ _ := wf_default
  stamp_clock _ _ := trivial
  call p e info s h he := by
    have hcall : (raceAlgImpl kernelType deviceType blockDim).call p e s =
        s.dispatch p e := rfl
    rw [hcall]
    simp only [RaceAlgImpl.dispatch, he]
    exact outcome_of_mstxCrossSync h rfl (fun _ => rfl) rfl rfl

lemma crossCoreRaceAlg_follows :
    Follows (crossCoreRaceAlg kernelType deviceType blockDim) fun _ => True where
  start_queue _ _ := rfl
  start_map _ := rfl
  start_clock _ _ := wf_default
  stamp_clock _ _ := trivial
  call p e info s h he := by
    have hcall : (crossCoreRaceAlg kernelType deviceType blockDim).call p e s =
        s.dispatch p e := rfl
    rw [hcall]
    simp only [CrossCoreRaceAlg.dispatch, he]
    exact outcome_of_mstxCrossSync h rfl (fun _ => rfl) rfl rfl

lemma pipelineReplayer_follows :
    Follows (pipelineReplayer kernelType deviceType blockDim) fun t => t = {} where
  start_queue _ _ := rfl
  start_map _ := rfl
  start_clock _ _ := wf_default
  stamp_clock _ _ := rfl
  call p e info s h he := by
    refine ⟨fun _ => wf_default, ?_⟩
    have hcall : (pipelineReplayer kernelType deviceType blockDim).call p e s =
        s.processMstxCrossSyncEvent info := by
      simp only [pipelineReplayer, PipelineReplayer.dispatch, he]
    rw [hcall]
    unfold PipelineReplayer.processMstxCrossSyncEvent
    split_ifs with hset hwait hskip
    · exact .set hset rfl rfl
    · exact .skip hwait hskip rfl rfl
    · rw [Bool.not_eq_true] at hskip
      cases hfront : s.container.mstxCrossSetMap info.key with
      | none =>
        rw [getMstxCrossInfo_none hfront]
        exact .stall rfl rfl
      | some l =>
        cases l with
        | nil => exact absurd rfl (h.stored _ _ hfront).1
        | cons t rest =>
          rw [getMstxCrossInfo_cons hfront]
          have ht := ((h.stored _ _ hfront).2 t List.mem_cons_self).2
          exact .wait t rest hwait hskip hfront rfl rfl (by rw [ht]; exact le_refl _)
    · exact .stall rfl rfl

/-! ## Replays as runs of counted queues -/

def counted (E : MstxEngine σ) (s : σ) : CountedQueues.State MstxKey VectorTime :=
  ⟨E.count s, E.queued s⟩

/-- An executed event as an operation on counted queues. -/
def Matches (d : Done) : Op MstxKey VectorTime → Prop
  | .put key t => setKey d.event = some key ∧ d.clock = t
  | .skip key => waitKey d.event = some key ∧ d.skipped = true
  | .take key t => waitKey d.event = some key ∧ d.skipped = false ∧ t ≤ d.clock

variable {stamp : VectorTime → Prop} {kernelType deviceType blockDim}

lemma setKey_eq (he : e.info = .mstxCrossSync info) (hop : info.opType = .mstxSetCross) :
    setKey e = some info.key := by
  simp only [setKey, he, if_pos hop]

lemma waitKey_eq (he : e.info = .mstxCrossSync info) (hop : info.opType = .mstxWaitCross) :
    waitKey e = some info.key := by
  simp only [waitKey, he, if_pos hop]

lemma waitKey_of_setKey {key : MstxKey} (h : setKey e = some key) : waitKey e = none := by
  unfold setKey at h
  unfold waitKey
  cases hinfo : e.info with
  | mstxCrossSync info =>
    simp only [hinfo] at h
    split_ifs at h with hop
    dsimp only
    rw [if_neg (by rw [hop]; decide)]
  | _ => rfl

lemma setKey_of_waitKey {key : MstxKey} (h : waitKey e = some key) : setKey e = none := by
  cases hset : setKey e with
  | none => rfl
  | some k =>
    rw [waitKey_of_setKey hset] at h
    cases h

lemma getD_cacheMstxCrossSet (m : MstxSetCrossMap) (e : SanEvent) (key : MstxKey)
    (h : (m key).getD 0 + 1 < 2 ^ 64) :
    (cacheMstxCrossSet m e key).getD 0 = (m key).getD 0 + if setsFlag key e then 1 else 0 := by
  unfold cacheMstxCrossSet setsFlag setKey
  cases e.info with
  | mstxCrossSync info =>
    change ((if info.opType = .mstxSetCross then
        Function.update m info.key (some (((m info.key).getD 0 + 1) % 2 ^ 64)) else m) key).getD 0 =
      (m key).getD 0 + if ((if info.opType = .mstxSetCross then some info.key else none) ==
        some key) = true then 1 else 0
    by_cases hop : info.opType = .mstxSetCross
    · by_cases hkey : info.key = key
      · subst hkey
        rw [if_pos hop, Function.update_self, Option.getD_some, Nat.mod_eq_of_lt h]
        simp [hop]
      · rw [if_pos hop, Function.update_of_ne (Ne.symm hkey)]
        simp [hkey]
    · rw [if_neg hop]
      simp [hop]
  | _ => simp

lemma getD_foldl_cacheMstxCrossSet (events : List SanEvent) (m : MstxSetCrossMap) (key : MstxKey)
    (h : (m key).getD 0 + events.length < 2 ^ 64) :
    (events.foldl cacheMstxCrossSet m key).getD 0 =
      (m key).getD 0 + events.countP (setsFlag key) := by
  induction events generalizing m with
  | nil => rfl
  | cons e events ih =>
    rw [List.length_cons] at h
    have hstep := getD_cacheMstxCrossSet m e key (by omega)
    have hle : (cacheMstxCrossSet m e key).getD 0 + events.length < 2 ^ 64 := by
      rw [hstep]
      split_ifs <;> omega
    rw [List.foldl_cons, ih _ hle, hstep, List.countP_cons]
    omega

lemma Outcome.good (h : Good E stamp s) (hstamp : ∀ p s, stamp (E.clock p s))
    (hclock : ∀ q, Wf (E.clock q s')) {ret : ReturnType} (hout : Outcome E p info s s' ret) :
    Good E stamp s' := by
  refine ⟨hclock, fun key l hl => ?_⟩
  cases hout with
  | set hop hmap hqueue =>
    rw [hqueue] at hl
    by_cases hkey : key = info.key
    · subst hkey
      rw [Function.update_self, Option.some_inj] at hl
      subst hl
      refine ⟨by simp, fun t ht => ?_⟩
      rcases List.mem_append.mp ht with ht | ht
      · cases hold : (E.container s).mstxCrossSetMap info.key with
        | none =>
          rw [queued, hold] at ht
          cases ht
        | some l =>
          rw [queued, hold] at ht
          exact (h.stored _ _ hold).2 t ht
      · rw [List.mem_singleton.mp ht]
        exact ⟨hclock p, hstamp p s'⟩
    · rw [Function.update_of_ne hkey] at hl
      exact h.stored key l hl
  | skip hop hskip hmap hqueue => exact h.stored key l (hqueue ▸ hl)
  | wait t rest hop hskip hfront hmap hqueue hle =>
    rw [hqueue] at hl
    by_cases hkey : key = info.key
    · subst hkey
      rw [Function.update_self] at hl
      split_ifs at hl with hrest
      cases hl
      refine ⟨fun hnil => hrest (by rw [hnil]; rfl), fun u hu => ?_⟩
      exact (h.stored _ _ hfront).2 u (List.mem_cons_of_mem _ hu)
    · rw [Function.update_of_ne hkey] at hl
      exact h.stored key l hl
  | stall hmap hqueue => exact h.stored key l (hqueue ▸ hl)

lemma count_of_skips (h : (E.setCrossMap s).skips info = true) : E.count s info.key = 0 := by
  simp only [MstxSetCrossMap.skips, Bool.and_eq_true, beq_iff_eq] at h
  exact h.2

lemma matched_getD {m : MstxSetCrossMap} (hpos : 0 < (m info.key).getD 0)
    (hlt : (m info.key).getD 0 < 2 ^ 64) :
    (m.matched info info.key).getD 0 = (m info.key).getD 0 - 1 := by
  have hself : m.matched info info.key = (m info.key).map fun n => (n + 2 ^ 64 - 1) % 2 ^ 64 :=
    Function.update_self _ _ _
  rw [hself]
  cases hm : m info.key with
  | none =>
    rw [hm] at hpos
    cases hpos
  | some n =>
    rw [hm, Option.getD_some] at hpos hlt
    rw [Option.map_some, Option.getD_some, Option.getD_some]
    omega

lemma matched_of_ne {m : MstxSetCrossMap} {key : MstxKey} (hkey : key ≠ info.key) :
    m.matched info key = m key := Function.update_of_ne hkey _ _

lemma counted_congr (hmap : E.setCrossMap s' = E.setCrossMap s)
    (hqueue : (E.container s').mstxCrossSetMap = (E.container s).mstxCrossSetMap) :
    counted E s' = counted E s := by
  have hcount : E.count s' = E.count s := funext fun key => by rw [count, count, hmap]
  have hqueued : E.queued s' = E.queued s := funext fun key => by rw [queued, queued, hqueue]
  rw [counted, counted, hcount, hqueued]

/-- A call that executes an event is a step of counted queues. -/
lemma Outcome.step (he : e.info = .mstxCrossSync info)
    (hpos : E.queued s info.key ≠ [] → 0 < E.count s info.key)
    (hlt : E.count s info.key < 2 ^ 64) (hout : Outcome E p info s s' .processOk) :
    ∃ op, Step (counted E s) op (counted E s') ∧
      Matches ⟨e, decide (info.opType = .mstxWaitCross) && (E.setCrossMap s).skips info,
        E.clock p s'⟩ op := by
  cases hout with
  | set hop hmap hqueue =>
    have hcount : E.count s' = E.count s := funext fun key => by rw [count, count, hmap]
    have hqueued : E.queued s' = Function.update (E.queued s) info.key
        (E.queued s info.key ++ [E.clock p s']) := by
      funext key
      by_cases hkey : key = info.key
      · rw [hkey, queued, hqueue, Function.update_self, Function.update_self, Option.getD_some]
      · rw [queued, hqueue, Function.update_of_ne hkey, Function.update_of_ne hkey, queued]
    refine ⟨.put info.key (E.clock p s'), ?_, setKey_eq he hop, rfl⟩
    rw [counted, counted, hcount, hqueued]
    exact .put _ _
  | skip hop hskip hmap hqueue =>
    refine ⟨.skip info.key, ?_, waitKey_eq he hop, by simp [hop, hskip]⟩
    rw [counted_congr hmap hqueue]
    exact .skip _ (count_of_skips hskip)
  | wait t rest hop hskip hfront hmap hqueue hle =>
    have hold : E.queued s info.key = t :: rest := by rw [queued, hfront, Option.getD_some]
    have hcount : E.count s' =
        Function.update (E.count s) info.key (E.count s info.key - 1) := by
      funext key
      by_cases hkey : key = info.key
      · rw [hkey, count, hmap, Function.update_self,
          matched_getD (hpos (by rw [hold]; simp)) hlt]
        rfl
      · rw [count, hmap, matched_of_ne hkey, Function.update_of_ne hkey, count]
    have hqueued : E.queued s' = Function.update (E.queued s) info.key rest := by
      funext key
      by_cases hkey : key = info.key
      · rw [hkey, queued, hqueue, Function.update_self, Function.update_self]
        cases rest <;> rfl
      · rw [queued, hqueue, Function.update_of_ne hkey, Function.update_of_ne hkey, queued]
    refine ⟨.take info.key t, ?_, waitKey_eq he hop, by simp [hskip], hle⟩
    rw [counted, counted, hcount, hqueued]
    exact .take _ _ _ hold

/-- The sets of a trace are the puts of its operations. -/
lemma puts_of_matches {tr : List Done} {ops : List (Op MstxKey VectorTime)}
    (h : List.Forall₂ Matches tr ops) (key : MstxKey) :
    puts key ops = (setsOf key tr).map Done.clock := by
  induction h with
  | nil => rfl
  | @cons d op tr ops hd _ ih =>
    rw [setsOf] at ih
    rw [puts_cons, ih, setsOf, List.filter_cons, setsFlag]
    cases op with
    | put k t =>
      obtain ⟨hkey, rfl⟩ := hd
      by_cases hk : k = key <;> simp [Op.putAt, hkey, hk]
    | skip k => simp [Op.putAt, setKey_of_waitKey hd.1]
    | take k t => simp [Op.putAt, setKey_of_waitKey hd.1]

/-- The waits of a trace that get a clock are the takes of its operations. -/
lemma takes_of_matches {tr : List Done} {ops : List (Op MstxKey VectorTime)}
    (h : List.Forall₂ Matches tr ops) (key : MstxKey) :
    List.Forall₂ (fun (t : VectorTime) (w : Done) => t ≤ w.clock) (takes key ops)
      (waitsOf key tr) := by
  induction h with
  | nil => exact .nil
  | @cons d op tr ops hd _ ih =>
    rw [waitsOf] at ih
    rw [takes_cons, waitsOf, List.filter_cons, waitsForFlag]
    cases op with
    | put k t => simpa [Op.takeAt, waitKey_of_setKey hd.1] using ih
    | skip k => simpa [Op.takeAt, hd.2] using ih
    | take k t =>
      obtain ⟨hkey, hskip, hle⟩ := hd
      by_cases hk : k = key
      · simpa [Op.takeAt, hkey, hk, hskip] using ⟨hle, ih⟩
      · simpa [Op.takeAt, hkey, hk] using ih

lemma length_setsOf (key : MstxKey) (tr : List Done) :
    (setsOf key tr).length = (tr.map Done.event).countP (setsFlag key) := by
  rw [setsOf, ← List.countP_eq_length_filter, List.countP_map]
  rfl

/-- A call that changes nothing, or executes its event. -/
lemma done_cases (E : MstxEngine σ) (p : ℕ) (e : SanEvent) (info : MstxCrossInfo) (s : σ) :
    (E.call p e s).1 = .processStalled ∧ done E p e info s = [] ∨
      (E.call p e s).1 = .processOk ∧ done E p e info s =
        [⟨e, decide (info.opType = .mstxWaitCross) && (E.setCrossMap s).skips info,
          E.clock p (E.call p e s).2⟩] := by
  unfold done
  cases (E.call p e s).1 with
  | processStalled => exact .inl ⟨rfl, rfl⟩
  | processOk => exact .inr ⟨rfl, rfl⟩

/-- The number of sets of each flag among some events. -/
def setCount (events : List SanEvent) (key : MstxKey) : ℕ := events.countP (setsFlag key)

lemma length_puts {tr : List Done} {ops : List (Op MstxKey VectorTime)}
    (h : List.Forall₂ Matches tr ops) (key : MstxKey) :
    (puts key ops).length = setCount (tr.map Done.event) key := by
  rw [puts_of_matches h, List.length_map, length_setsOf, setCount]

lemma clock_le_of_waitsOf {tr : List Done} {ops : List (Op MstxKey VectorTime)} {n : MstxKey → ℕ}
    (hruns : Runs n ops (counted E s)) (hmatch : List.Forall₂ Matches tr ops) {key : MstxKey}
    {i : ℕ} {w : Done} (hw : (waitsOf key tr)[i]? = some w) :
    ∃ x : Done, (setsOf key tr)[i]? = some x ∧ x.clock ≤ w.clock := by
  have htakes := takes_of_matches hmatch key
  obtain ⟨hi, hw⟩ := List.getElem?_eq_some_iff.mp hw
  have hi' : i < (takes key ops).length := by rw [htakes.length_eq]; exact hi
  have hle := htakes.get hi' hi
  rw [List.get_eq_getElem, List.get_eq_getElem, hw] at hle
  -- what was taken is a prefix of what was put
  have hputs := hruns.puts_eq key
  rw [puts_of_matches hmatch] at hputs
  have hget : ((setsOf key tr).map Done.clock)[i]? = some (takes key ops)[i] := by
    rw [hputs, List.getElem?_append_left hi', List.getElem?_eq_getElem hi']
  rw [List.getElem?_map, Option.map_eq_some_iff] at hget
  obtain ⟨x, hx, hclock⟩ := hget
  exact ⟨x, hx, hclock ▸ hle⟩

lemma count_lt {events : List SanEvent} (hlen : events.length < 2 ^ 64)
    {ops : List (Op MstxKey VectorTime)} (h : Runs (setCount events) ops (counted E s))
    {key : MstxKey} (hput : (puts key ops).length ≤ setCount events key) :
    E.count s key < 2 ^ 64 := by
  have hcount : E.count s key + (takes key ops).length = setCount events key := h.count_eq hput
  have hsets : setCount events key ≤ events.length := List.countP_le_length
  omega

lemma Follows.runs_start (F : Follows E stamp) {events : List SanEvent}
    (hlen : events.length < 2 ^ 64) : Good E stamp (E.start events) ∧
      Runs (setCount events) [] (counted E (E.start events)) := by
  refine ⟨⟨F.start_clock events, fun key l hl => ?_⟩, ?_⟩
  · rw [F.start_queue] at hl
    cases hl
  · have hcount : E.count (E.start events) = setCount events := by
      funext key
      rw [count, F.start_map, getD_foldl_cacheMstxCrossSet _ _ _ (by simpa using hlen)]
      exact Nat.zero_add _
    have hqueued : E.queued (E.start events) = fun _ => [] := by
      funext key
      rw [queued, F.start_queue]
      rfl
    rw [counted, hcount, hqueued]
    exact .nil

/-- **Replays are runs of counted queues.** -/
lemma Replays.runs (F : Follows E stamp) {events : List SanEvent} (hlen : events.length < 2 ^ 64)
    {tr : List Done} (h : E.Replays events tr s)
    (hle : ∀ key, setCount (tr.map Done.event) key ≤ setCount events key) :
    Good E stamp s ∧ ∃ ops, Runs (setCount events) ops (counted E s) ∧
      List.Forall₂ Matches tr ops := by
  induction h with
  | start =>
    obtain ⟨hgood, hruns⟩ := F.runs_start hlen
    exact ⟨hgood, [], hruns, .nil⟩
  | @offer tr s p e info h he ih =>
    have hbefore : ∀ key, setCount (tr.map Done.event) key ≤ setCount events key := by
      intro key
      refine le_trans ?_ (hle key)
      rw [setCount, setCount, List.map_append, List.countP_append]
      exact Nat.le_add_right _ _
    obtain ⟨hgood, ops, hruns, hmatch⟩ := ih hbefore
    obtain ⟨hclock, hout⟩ := F.call p e info s hgood he
    refine ⟨hout.good hgood F.stamp_clock hclock, ?_⟩
    rcases done_cases E p e info s with ⟨hret, hdone⟩ | ⟨hret, hdone⟩
    · rw [hdone, List.append_nil]
      rw [hret] at hout
      cases hout with
      | stall hmap hqueue =>
        refine ⟨ops, ?_, hmatch⟩
        rw [counted_congr hmap hqueue]
        exact hruns
    · rw [hret] at hout
      have hput : ∀ key, (puts key ops).length ≤ setCount events key := by
        intro key
        rw [length_puts hmatch]
        exact hbefore key
      have hpos : E.queued s info.key ≠ [] → 0 < E.count s info.key := by
        intro hne
        have hcount := hruns.count_eq_add (hput info.key)
        have hlength := List.length_pos_iff.mpr hne
        change E.count s info.key = _ + (E.queued s info.key).length at hcount
        omega
      have hlt := count_lt hlen hruns (hput info.key)
      obtain ⟨op, hstep, hd⟩ := hout.step he hpos hlt
      rw [hdone]
      exact ⟨ops ++ [op], hruns.concat hstep, List.rel_append hmatch (.cons hd .nil)⟩
  | @other tr s s' h hcontainer hmap hclock ih =>
    obtain ⟨hgood, ops, hruns, hmatch⟩ := ih hle
    refine ⟨⟨hclock, fun key l hl => hgood.stored key l (hcontainer ▸ hl)⟩, ops, ?_, hmatch⟩
    rw [counted_congr hmap hcontainer]
    exact hruns

/-- **The counts of an engine are right in every replay.** -/
lemma Follows.countsAgree (F : Follows E stamp) {events : List SanEvent}
    (hlen : events.length < 2 ^ 64) : E.CountsAgree events := by
  intro tr s rest h hperm key
  have hsplit : ∀ key, setCount (tr.map Done.event) key + setCount rest key =
      setCount events key := by
    intro key
    rw [setCount, setCount, setCount, ← List.countP_append]
    exact hperm.countP_eq _
  obtain ⟨hgood, ops, hruns, hmatch⟩ := h.runs F hlen fun key => by
    rw [← hsplit key]
    exact Nat.le_add_right _ _
  have hsets := length_puts hmatch key
  have hput : (puts key ops).length ≤ setCount events key := by
    have := hsplit key
    omega
  have hcount : E.count s key = setCount rest key + (E.queued s key).length := by
    have hadd : E.count s key = (setCount events key - (puts key ops).length) +
        (E.queued s key).length := hruns.count_eq_add hput
    have := hsplit key
    omega
  refine ⟨hcount, fun p e info he hop hkey => ⟨fun hskip => ?_, fun hskip hret => ?_⟩,
    fun i w hw => ?_⟩
  · have hzero := count_of_skips hskip
    rw [hkey, hcount] at hzero
    obtain ⟨hrest, hqueue⟩ := Nat.add_eq_zero_iff.mp hzero
    exact ⟨hrest, List.length_eq_zero_iff.mp hqueue⟩
  · subst hkey
    have hout := (F.call p e info s hgood he).2
    rw [hret] at hout
    cases hout with
    | set hop' => rw [hop] at hop'; cases hop'
    | skip hop' hskip' => rw [hskip] at hskip'; cases hskip'
    | wait t rest' hop' hskip' hfront hmap =>
      have hqueued : E.queued s info.key = t :: rest' := by rw [queued, hfront, Option.getD_some]
      have hpos : 0 < E.count s info.key := by
        rw [hcount, hqueued, List.length_cons]
        omega
      rw [count, hmap, matched_getD hpos (count_lt hlen hruns hput)]
      exact Nat.sub_add_cancel hpos
  · exact clock_le_of_waitsOf hruns hmatch hw

end MstxEngine

/-- **The counts of MSTX flags.** In the race checks and in the replay without clocks, whatever the
order in which the collected events are executed, the count of each flag is the number of its sets
that are not executed yet and of its clocks in the container; a wait that succeeds lowers it by
one; a wait is skipped only when both are zero, and the `i`-th wait that succeeds gets at least the
clock of the `i`-th set. -/
theorem mstx_cross_counts_agree (kernelType : KernelType) (deviceType : DeviceType)
    (blockDim : ℕ) (events : List SanEvent) (hlen : events.length < 2 ^ 64) :
    (MstxEngine.raceAlgImpl kernelType deviceType blockDim).CountsAgree events ∧
      (MstxEngine.crossCoreRaceAlg kernelType deviceType blockDim).CountsAgree events ∧
      (MstxEngine.pipelineReplayer kernelType deviceType blockDim).CountsAgree events :=
  ⟨(MstxEngine.raceAlgImpl_follows _ _ _).countsAgree hlen,
    (MstxEngine.crossCoreRaceAlg_follows _ _ _).countsAgree hlen,
    (MstxEngine.pipelineReplayer_follows _ _ _).countsAgree hlen⟩

/-- A set and a wait that have been collected. -/
theorem mstx_cross_counts_agree_two :
    (MstxEngine.raceAlgImpl .aivec .invalid 1).CountsAgree
      [{ info := .mstxCrossSync { opType := .mstxSetCross, pipe := .v } },
        { info := .mstxCrossSync { opType := .mstxWaitCross, pipe := .mte2, isMore := true } }] :=
  (mstx_cross_counts_agree .aivec .invalid 1 _ (by decide)).1

end MsSanitizer
