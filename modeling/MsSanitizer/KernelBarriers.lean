import MsSanitizer.NpuQueues

/-!
# Kernel boundaries order a device

Between two kernels of a device every pipe of every block polls one barrier. The invariant of the
barrier of a kernel (`BarrierInv`) relates its state to the offers made so far: who is counted has
nothing of the kernel left and his clocks are in the global time; while the barrier gathers nobody
has passed, or all have; once it is open all are drained, and everyone is counted or has passed.
-/

namespace MsSanitizer.NpuReplay

open RecordDefs EventDef VectorTime PipeLine

/-! ## Polls of the barrier of a kernel -/

/-- The event is one at the end of kernel `k` of device `d`. -/
def IsBarrier (d k : ℕ) (e : SanEvent) : Prop :=
  isFinish e = true ∧ e.loc.deviceIdx = d ∧ e.loc.kernelIdx = k

def worker (e : SanEvent) : KernelBarrierWorker := (blockOf e, e.pipe)

def Reached (os : List Offer) (d k : ℕ) (w : KernelBarrierWorker) : Prop :=
  ∃ o ∈ os, IsBarrier d k o.event ∧ worker o.event = w

def Passed (os : List Offer) (d k : ℕ) (w : KernelBarrierWorker) : Prop :=
  ∃ o ∈ os, o.ok = true ∧ IsBarrier d k o.event ∧ worker o.event = w

/-- Nothing of kernel `k` is left for the worker. -/
def Drained (N : ℕ) (ques : ℕ → List SanEvent) (d k : ℕ) (w : KernelBarrierWorker) : Prop :=
  ∀ e ∈ left N ques d w.1 w.2, ofKernel d k e = false

/-- The executed events of kernel `k` that satisfy `P` have a clock of at most `t`. -/
def Below (os : List Offer) (d k : ℕ) (P : KernelBarrierWorker → Prop) (t : VectorTime) : Prop :=
  ∀ o ∈ os, o.ok = true → ofKernel d k o.event = true → P (worker o.event) → o.clock ≤ t

/-- The state of the barrier after the offers `os`. -/
structure BarrierInv (N : ℕ) (ques : ℕ → List SanEvent) (os : List Offer) (vc : ℕ → VectorTime)
    (d k : ℕ) (kb : BarrierEvent KernelBarrierWorker) : Prop where
  wf : Wf kb.vtGlobal
  place : ∀ w ∈ kb.reachedWorkers, w.1 < N
  arrived : ∀ w ∈ kb.reachedWorkers, Drained N ques d k w ∧ Below os d k (· = w) kb.vtGlobal
  polled : ∀ w, Reached os d k w → w ∈ kb.reachedWorkers ∨ Passed os d k w
  gather : kb.allReachBarrier = false → kb.reachedWorkers.card < N * pipeSize ∧
    ((∀ w, ¬ Passed os d k w) ∨ ∀ w : KernelBarrierWorker, w.1 < N → Passed os d k w)
  released : kb.allReachBarrier = true →
    (∀ w : KernelBarrierWorker, w.1 < N → w ∈ kb.reachedWorkers ∨ Passed os d k w) ∧
    (∀ w : KernelBarrierWorker, w.1 < N → Drained N ques d k w) ∧
    Below os d k (fun _ => True) kb.vtGlobal
  passed : ∀ w, Passed os d k w →
    (∀ w' : KernelBarrierWorker, w'.1 < N → Drained N ques d k w') ∧
    Below os d k (fun _ => True) (vc (que N d w.1 w.2))

lemma reached_concat {os : List Offer} {o : Offer} {d k : ℕ} {w : KernelBarrierWorker} :
    Reached (os ++ [o]) d k w ↔
      Reached os d k w ∨ IsBarrier d k o.event ∧ worker o.event = w := by
  simp [Reached, or_and_right, exists_or]

lemma passed_concat {os : List Offer} {o : Offer} {d k : ℕ} {w : KernelBarrierWorker} :
    Passed (os ++ [o]) d k w ↔
      Passed os d k w ∨ o.ok = true ∧ IsBarrier d k o.event ∧ worker o.event = w := by
  simp [Passed, or_and_right, exists_or]

lemma not_ofKernel_of_isBarrier {d k d' k' : ℕ} {e : SanEvent} (h : IsBarrier d k e) :
    ofKernel d' k' e = false := by
  rw [Bool.eq_false_iff]
  intro hk
  have hf := isFinish_of_isWork (ofKernel_iff.1 hk).1
  rw [h.1] at hf
  cases hf

lemma Below.mono {os : List Offer} {d k : ℕ} {P : KernelBarrierWorker → Prop} {t t' : VectorTime}
    (h : Below os d k P t) (ht : t ≤ t') : Below os d k P t' :=
  fun o ho hok hk hP => (h o ho hok hk hP).trans ht

lemma Below.concat {os : List Offer} {o : Offer} {d k : ℕ} {P : KernelBarrierWorker → Prop}
    {t : VectorTime} (h : Below os d k P t)
    (ho : ¬ (o.ok = true ∧ ofKernel d k o.event = true ∧ P (worker o.event))) :
    Below (os ++ [o]) d k P t := by
  intro x hx hok hk hP
  rcases List.mem_append.1 hx with hx | hx
  · exact h x hx hok hk hP
  · rw [List.mem_singleton.1 hx] at hok hk hP
    exact absurd ⟨hok, hk, hP⟩ ho

def workers (N : ℕ) : Finset KernelBarrierWorker :=
  Finset.range N ×ˢ CrossNpuRaceAlg.barrierPipes.toFinset

lemma mem_workers {N : ℕ} {w : KernelBarrierWorker} : w ∈ workers N ↔ w.1 < N := by
  have hall : ∀ p : PipeType, p ∈ CrossNpuRaceAlg.barrierPipes := by
    intro p
    cases p <;> decide
  simp [workers, hall]

lemma card_workers (N : ℕ) : (workers N).card = N * pipeSize := by
  rw [workers, Finset.card_product, Finset.card_range]
  rfl

section BarrierSteps

variable {N : ℕ} {ques ques' : ℕ → List SanEvent} {os : List Offer} {vc vc' : ℕ → VectorTime}
  {d k : ℕ} {kb : BarrierEvent KernelBarrierWorker} {w : KernelBarrierWorker} {o : Offer}

lemma Drained.mono (h : Drained N ques d k w)
    (hsub : ∀ e ∈ left N ques' d w.1 w.2, e ∈ left N ques d w.1 w.2) : Drained N ques' d k w :=
  fun e he => h e (hsub e he)

/-- What becomes of the barrier when queues shrink and clocks grow. -/
lemma BarrierInv.frame (h : BarrierInv N ques os vc d k kb)
    (hsub : ∀ w : KernelBarrierWorker, w.1 < N →
      ∀ e ∈ left N ques' d w.1 w.2, e ∈ left N ques d w.1 w.2)
    (hvc : AllLater vc vc') : BarrierInv N ques' os vc' d k kb := by
  refine ⟨h.wf, h.place, fun w hw => ?_, h.polled, h.gather, fun hr => ?_, fun w hw => ?_⟩
  · obtain ⟨hdrained, hbelow⟩ := h.arrived w hw
    exact ⟨hdrained.mono (hsub w (h.place w hw)), hbelow⟩
  · obtain ⟨hall, hdrained, hbelow⟩ := h.released hr
    exact ⟨hall, fun w hw => (hdrained w hw).mono (hsub w hw), hbelow⟩
  · obtain ⟨hdrained, hbelow⟩ := h.passed w hw
    exact ⟨fun w' hw' => (hdrained w' hw').mono (hsub w' hw'), hbelow.mono (hvc _).le⟩

lemma BarrierInv.other (h : BarrierInv N ques os vc d k kb) (ho : ¬ IsBarrier d k o.event)
    (hleft : o.ok = true → ofKernel d k o.event = true →
      blockOf o.event < N ∧ ¬ Drained N ques d k (worker o.event)) :
    BarrierInv N ques (os ++ [o]) vc d k kb := by
  have hreached (w : KernelBarrierWorker) : Reached (os ++ [o]) d k w ↔ Reached os d k w := by
    rw [reached_concat, or_iff_left fun hc => ho hc.1]
  have hpassed (w : KernelBarrierWorker) : Passed (os ++ [o]) d k w ↔ Passed os d k w := by
    rw [passed_concat, or_iff_left fun hc => ho hc.2.1]
  refine ⟨h.wf, h.place, fun w hw => ?_, fun w hw => ?_, fun hg => ?_, fun hr => ?_,
    fun w hw => ?_⟩
  · obtain ⟨hdrained, hbelow⟩ := h.arrived w hw
    refine ⟨hdrained, hbelow.concat fun hc => ?_⟩
    rw [← hc.2.2] at hdrained
    exact (hleft hc.1 hc.2.1).2 hdrained
  · rw [hpassed]
    exact h.polled w ((hreached w).1 hw)
  · simp only [hpassed]
    exact h.gather hg
  · obtain ⟨hall, hdrained, hbelow⟩ := h.released hr
    simp only [hpassed]
    refine ⟨hall, hdrained, hbelow.concat fun hc => ?_⟩
    obtain ⟨hlt, hnot⟩ := hleft hc.1 hc.2.1
    exact hnot (hdrained _ hlt)
  · obtain ⟨hdrained, hbelow⟩ := h.passed w ((hpassed w).1 hw)
    refine ⟨hdrained, hbelow.concat fun hc => ?_⟩
    obtain ⟨hlt, hnot⟩ := hleft hc.1 hc.2.1
    exact hnot (hdrained _ hlt)

lemma BarrierInv.all_of_card (h : ∀ w ∈ kb.reachedWorkers, w.1 < N)
    (hcard : N * pipeSize ≤ kb.reachedWorkers.card) (hw : w.1 < N) : w ∈ kb.reachedWorkers := by
  have heq : kb.reachedWorkers = workers N := by
    refine Finset.eq_of_subset_of_card_le (fun x hx => mem_workers.2 (h x hx)) ?_
    rw [card_workers]
    exact hcard
  rw [heq]
  exact mem_workers.2 hw

lemma BarrierInv.arrive (h : BarrierInv N ques os vc d k kb) (hw : w.1 < N)
    (hnot : ¬ Passed os d k w) (hdrained : Drained N ques d k w) {t : VectorTime} (ht : Wf t)
    (hbelow : Below os d k (· = w) t)
    (hplace : ∀ o ∈ os, o.ok = true → ofKernel d k o.event = true → blockOf o.event < N) :
    BarrierInv N ques os vc d k (kb.arrive (N * pipeSize) w t) ∧
      w ∈ (kb.arrive (N * pipeSize) w t).reachedWorkers := by
  by_cases hall : kb.allReachBarrier = true
  · rw [BarrierEvent.arrive, if_pos hall]
    exact ⟨h, ((h.released hall).1 w hw).resolve_right hnot⟩
  · rw [Bool.not_eq_true] at hall
    -- nobody has passed, since this worker has not
    have hnone : ∀ w, ¬ Passed os d k w := by
      rcases (h.gather hall).2 with hnone | hdone
      · exact hnone
      · exact absurd (hdone w hw) hnot
    obtain ⟨hwf, htime⟩ := BarrierEvent.reach_time h.wf w ht
    have hold : kb.vtGlobal ≤ (kb.reach w t).vtGlobal := fun i => by
      rw [htime i]
      exact le_max_left _ _
    have hnew : t ≤ (kb.reach w t).vtGlobal := fun i => by
      rw [htime i]
      exact le_max_right _ _
    have hmem (w' : KernelBarrierWorker) :
        w' ∈ (kb.reach w t).reachedWorkers ↔ w' = w ∨ w' ∈ kb.reachedWorkers :=
      Finset.mem_insert
    have hplace' : ∀ w' ∈ (kb.reach w t).reachedWorkers, w'.1 < N := by
      intro w' hw'
      rcases (hmem w').1 hw' with rfl | hw'
      · exact hw
      · exact h.place w' hw'
    have harrived : ∀ w' ∈ (kb.reach w t).reachedWorkers,
        Drained N ques d k w' ∧ Below os d k (· = w') (kb.reach w t).vtGlobal := by
      intro w' hw'
      rcases (hmem w').1 hw' with rfl | hw'
      · exact ⟨hdrained, hbelow.mono hnew⟩
      · exact ⟨(h.arrived w' hw').1, (h.arrived w' hw').2.mono hold⟩
    rw [BarrierEvent.arrive, if_neg (by rw [hall]; exact Bool.false_ne_true)]
    refine ⟨⟨hwf, hplace', harrived, fun w' hw' => ?_, fun hfew => ⟨?_, .inl hnone⟩,
      fun hmany => ?_, fun w' hw' => absurd hw' (hnone w')⟩, (hmem w).2 (.inl rfl)⟩
    · rcases h.polled w' hw' with hw' | hw'
      · exact .inl ((hmem w').2 (.inr hw'))
      · exact .inr hw'
    · rw [BarrierEvent.isAllReachBarrier, decide_eq_false_iff_not, not_le] at hfew
      exact hfew
    · rw [BarrierEvent.isAllReachBarrier, decide_eq_true_eq] at hmany
      have hthere (w' : KernelBarrierWorker) (hw' : w'.1 < N) :=
        BarrierInv.all_of_card hplace' hmany hw'
      refine ⟨fun w' hw' => .inl (hthere w' hw'), fun w' hw' => (harrived w' (hthere w' hw')).1,
        fun o ho hok hk _ => ?_⟩
      exact (harrived _ (hthere (worker o.event) (hplace o ho hok hk))).2 o ho hok hk rfl

lemma BarrierInv.stall (h : BarrierInv N ques os vc d k kb) (hok : o.ok = false)
    (hw : worker o.event ∈ kb.reachedWorkers) :
    BarrierInv N ques (os ++ [o]) vc d k kb := by
  have hnot : ¬ o.ok = true := by rw [hok]; exact Bool.false_ne_true
  have hpassed (w : KernelBarrierWorker) : Passed (os ++ [o]) d k w ↔ Passed os d k w := by
    rw [passed_concat, or_iff_left fun hc => hnot hc.1]
  refine ⟨h.wf, h.place, fun w hw => ?_, fun w hw' => ?_, fun hg => ?_, fun hr => ?_,
    fun w hw => ?_⟩
  · exact ⟨(h.arrived w hw).1, (h.arrived w hw).2.concat fun hc => hnot hc.1⟩
  · rw [hpassed]
    rcases reached_concat.1 hw' with hw' | ⟨-, rfl⟩
    · exact h.polled w hw'
    · exact .inl hw
  · simp only [hpassed]
    exact h.gather hg
  · obtain ⟨hall, hdrained, hbelow⟩ := h.released hr
    simp only [hpassed]
    exact ⟨hall, hdrained, hbelow.concat fun hc => hnot hc.1⟩
  · obtain ⟨hdrained, hbelow⟩ := h.passed w ((hpassed w).1 hw)
    exact ⟨hdrained, hbelow.concat fun hc => hnot hc.1⟩

lemma BarrierInv.pass (h : BarrierInv N ques os vc d k kb) (ho : IsBarrier d k o.event)
    (hok : o.ok = true) (hall : kb.allReachBarrier = true) (hw : worker o.event ∈ kb.reachedWorkers)
    (hvc : kb.vtGlobal ≤ vc (que N d (worker o.event).1 (worker o.event).2)) :
    BarrierInv N ques (os ++ [o]) vc d k (kb.consume (worker o.event)).2 := by
  obtain ⟨hthere, hdrained, hbelow⟩ := h.released hall
  have hconcat {P : KernelBarrierWorker → Prop} {t : VectorTime} (hP : Below os d k P t) :
      Below (os ++ [o]) d k P t := by
    refine hP.concat fun hc => ?_
    rw [not_ofKernel_of_isBarrier ho] at hc
    cases hc.2.1
  have hpassed (w : KernelBarrierWorker) :
      Passed (os ++ [o]) d k w ↔ Passed os d k w ∨ worker o.event = w := by
    rw [passed_concat]
    simp [hok, ho]
  have hthere' (w : KernelBarrierWorker) (hw' : w ∈ kb.reachedWorkers ∨ Passed os d k w) :
      w ∈ kb.reachedWorkers.erase (worker o.event) ∨ Passed (os ++ [o]) d k w := by
    rw [hpassed, Finset.mem_erase]
    by_cases hcase : worker o.event = w
    · exact .inr (.inr hcase)
    · rcases hw' with hw' | hw'
      · exact .inl ⟨Ne.symm hcase, hw'⟩
      · exact .inr (.inl hw')
  have hpolled (w : KernelBarrierWorker) (hw' : Reached (os ++ [o]) d k w) :
      w ∈ kb.reachedWorkers.erase (worker o.event) ∨ Passed (os ++ [o]) d k w := by
    rcases reached_concat.1 hw' with hw' | ⟨-, rfl⟩
    · exact hthere' w (h.polled w hw')
    · exact .inr ((hpassed _).2 (.inr rfl))
  have hpast (w : KernelBarrierWorker) (hw' : Passed (os ++ [o]) d k w) :
      (∀ w' : KernelBarrierWorker, w'.1 < N → Drained N ques d k w') ∧
        Below (os ++ [o]) d k (fun _ => True) (vc (que N d w.1 w.2)) := by
    rcases (hpassed w).1 hw' with hw' | rfl
    · exact ⟨(h.passed w hw').1, hconcat (h.passed w hw').2⟩
    · exact ⟨hdrained, hconcat (hbelow.mono hvc)⟩
  rw [BarrierEvent.consume_of_mem hw]
  by_cases hlast : kb.reachedWorkers.erase (worker o.event) = ∅
  · -- the last one to pass puts the barrier back
    simp only [hlast, if_true]
    rw [hlast] at hthere' hpolled
    refine ⟨wf_default, fun w hw' => absurd hw' (Finset.notMem_empty w),
      fun w hw' => absurd hw' (Finset.notMem_empty w), hpolled, fun _ => ⟨?_, .inr fun w hw' => ?_⟩,
      fun hr => (by cases hr), hpast⟩
    · have hpos : 0 < N := lt_of_le_of_lt (Nat.zero_le _) (h.place _ hw)
      exact Nat.mul_pos hpos pipeSize_pos
    · exact (hthere' w (hthere w hw')).resolve_left (Finset.notMem_empty w)
  · simp only [hlast, if_false]
    refine ⟨h.wf, fun w hw' => h.place w (Finset.mem_of_mem_erase hw'), fun w hw' => ?_, hpolled,
      fun hg => ?_, fun _ => ⟨fun w hw' => hthere' w (hthere w hw'), hdrained, hconcat hbelow⟩,
      hpast⟩
    · obtain ⟨hd, hb⟩ := h.arrived w (Finset.mem_of_mem_erase hw')
      exact ⟨hd, hconcat hb⟩
    · rw [hall] at hg
      cases hg

/-- A poll by a worker that has not passed succeeds once all have been offered the barrier. -/
lemma BarrierInv.opens (h : BarrierInv N ques os vc d k kb) (hw : w.1 < N)
    (hnot : ¬ Passed os d k w)
    (hall : ∀ w : KernelBarrierWorker, w.1 < N → Reached os d k w) :
    kb.allReachBarrier = true := by
  by_contra hc
  rw [Bool.not_eq_true] at hc
  obtain ⟨hcard, hnone | hdone⟩ := h.gather hc
  · have hsub : workers N ⊆ kb.reachedWorkers := fun w' hw' =>
      (h.polled w' (hall w' (mem_workers.1 hw'))).resolve_right (hnone w')
    have hle := Finset.card_le_card hsub
    rw [card_workers] at hle
    omega
  · exact hnot (hdone w hw)

end BarrierSteps

/-! ## What a call of the handler does to the barriers -/

section Dispatch

variable {env : NpuEnv} {a : CrossNpuRaceAlg} {c : EventContainer} {e : SanEvent}

/-- Only the end of a kernel polls a barrier of kernels. -/
lemma dispatch_kernelBarrier (hf : isFinish e = false) :
    (a.dispatch env c e).2.kernelBarrier = a.kernelBarrier := by
  unfold isFinish at hf
  unfold CrossNpuRaceAlg.dispatch
  cases hinfo : e.info with
  | sanitizerControl info =>
    cases info with
    | finish => rfl
    | kernelFinish => simp [hinfo] at hf
  | mem info =>
    unfold CrossNpuRaceAlg.processMemEvent
    dsimp only
    split_ifs <;> rfl
  | crossCoreSync info =>
    dsimp only
    split <;> rfl
  | crossCoreSoftSync info =>
    dsimp only
    split <;> rfl
  | _ => rfl

lemma dispatch_of_isFinish (hf : isFinish e = true) :
    a.dispatch env c e = a.processKernelFinish env c.getQueIndex e := by
  unfold isFinish at hf
  unfold CrossNpuRaceAlg.dispatch
  split at hf
  · rename_i hinfo
    rw [hinfo]
  · cases hf

/-- An event is checked with the clock that its pipe has after it. -/
lemma dispatch_checked (env : NpuEnv) (a : CrossNpuRaceAlg) (c : EventContainer) (e : SanEvent) :
    (a.dispatch env c e).2.checked = a.checked ∨
      (a.dispatch env c e).1 = .processOk ∧ (a.dispatch env c e).2.checked =
        a.checked ++ [(e, (a.dispatch env c e).2.vc c.getQueIndex)] := by
  unfold CrossNpuRaceAlg.dispatch
  cases hinfo : e.info with
  | sanitizerControl info => cases info <;> exact .inl rfl
  | mem info =>
    unfold CrossNpuRaceAlg.processMemEvent
    dsimp only
    split_ifs
    · refine .inr ⟨rfl, ?_⟩
      simp [CrossNpuRaceAlg.setClock]
    · exact .inl rfl
  | crossCoreSync info =>
    refine .inl ?_
    dsimp only
    split <;> rfl
  | crossCoreSoftSync info =>
    refine .inl ?_
    dsimp only
    split <;> rfl
  | _ => exact .inl rfl

end Dispatch

/-! ## Heads of queues -/

section Heads

variable {env : NpuEnv} {R : Recording env} {ques ques' : ℕ → List SanEvent} {os new : List Offer}
  {d b : ℕ} {p : PipeType} {e : SanEvent} {rest l : List SanEvent}

lemma mem_executed {x : SanEvent} :
    x ∈ executed os d b p ↔ ∃ o ∈ os, o.ok = true ∧ o.event = x ∧ isTime x = false ∧
      x.loc.deviceIdx = d ∧ blockOf x = b ∧ x.pipe = p := by
  simp only [executed, List.mem_filter, List.mem_map, Bool.and_eq_true, Bool.not_eq_true',
    decide_eq_true_eq]
  constructor
  · rintro ⟨⟨o, ⟨ho, hok⟩, rfl⟩, ⟨⟨ht, hd⟩, hb⟩, hp⟩
    exact ⟨o, ho, hok, rfl, ht, hd, hb, hp⟩
  · rintro ⟨o, ho, hok, rfl, ht, hd, hb, hp⟩
    exact ⟨⟨o, ⟨ho, hok⟩, rfl⟩, ⟨⟨ht, hd⟩, hb⟩, hp⟩

/-- The front event of a queue, on its own pipe, is the first that is left. -/
lemma head_left {N : ℕ} (hq : ques (que N d b p) = e :: rest) (hp : e.pipe = p)
    (ht : isTime e = false) : ∃ l, left N ques d b p = e :: l := by
  by_cases hs : p = .s
  · subst hs
    rw [left, if_pos rfl, List.nil_append, hq, List.filter_cons_of_pos (by simp [hp])]
    exact ⟨_, rfl⟩
  · rw [left, if_neg hs, hq, List.filter_cons_of_pos (by simp [ht])]
    exact ⟨_, rfl⟩

lemma Queued.left_eq (h : Queued R ques os) (h' : Queued R ques' (os ++ new))
    (hd : d < env.devices.length) (hb : b < env.totalBlockNum) :
    left env.totalBlockNum ques d b p =
      executed new d b p ++ left env.totalBlockNum ques' d b p := by
  have happend : executed (os ++ new) d b p = executed os d b p ++ executed new d b p := by
    rw [executed, List.filter_append, List.map_append, List.filter_append]
    rfl
  have hwhole := (h.whole d hd b hb p).trans (h'.whole d hd b hb p).symm
  rw [happend, List.append_assoc] at hwhole
  exact List.append_cancel_left hwhole

/-- The executed events precede the next one, and that one those after it. -/
lemma Queued.order (h : Queued R ques os) (hd : d < env.devices.length)
    (hb : b < env.totalBlockNum) (hl : left env.totalBlockNum ques d b p = e :: l) :
    (∀ x ∈ executed os d b p, Precedes x e) ∧ ∀ x ∈ l, Precedes e x := by
  have hpair : (R.prog d b p).Pairwise Precedes := R.prog_order
  rw [← h.whole d hd b hb p, hl, List.pairwise_append] at hpair
  exact ⟨fun x hx => hpair.2.2 x hx e List.mem_cons_self, (List.pairwise_cons.1 hpair.2.1).1⟩

lemma stage_isBarrier {k : ℕ} (h : IsBarrier d k e) : stage e = 2 * k + 1 :=
  stage_finish h.1 h.2.2

variable {k : ℕ}

/-- A pipe at the barrier of a kernel has nothing of the kernel left and has not passed. -/
lemma Queued.at_barrier (h : Queued R ques os) (hd : d < env.devices.length)
    (hb : b < env.totalBlockNum) (hl : left env.totalBlockNum ques d b p = e :: l)
    (he : IsBarrier d k e) :
    Drained env.totalBlockNum ques d k (b, p) ∧ ¬ Passed os d k (b, p) := by
  obtain ⟨hbefore, hafter⟩ := h.order hd hb hl
  refine ⟨fun x hx => ?_, ?_⟩
  · rw [Bool.eq_false_iff]
    intro hk
    rw [hl] at hx
    rcases List.mem_cons.1 hx with rfl | hx
    · rw [not_ofKernel_of_isBarrier he] at hk
      cases hk
    · have hlt := (hafter x hx).2 he.1
      rw [stage_isBarrier he, stage_ofKernel hk] at hlt
      omega
  · rintro ⟨o, ho, hok, hbar, hw⟩
    obtain ⟨hblock, hpipe⟩ := Prod.mk.inj hw
    have hnt : isTime o.event = false := by
      have := hbar.1
      unfold isFinish at this
      unfold isTime
      split at this
      · rename_i hinfo
        rw [hinfo]
      · cases this
    have hmem : o.event ∈ executed os d b p :=
      mem_executed.2 ⟨o, ho, hok, rfl, hnt, hbar.2.1, hblock, hpipe⟩
    have hlt := (hbefore _ hmem).2 hbar.1
    rw [stage_isBarrier hbar, stage_isBarrier he] at hlt
    omega

/-- Where nothing that is left precedes an event of the next kernel, the pipe has passed the
barrier. -/
lemma Queued.passed_of_precedes (h : Queued R ques os) (hd : d < env.devices.length)
    (hb : b < env.totalBlockNum) (hmem : e ∈ R.prog d b p)
    (hleft : ∀ x ∈ left env.totalBlockNum ques d b p, x = e ∨ Precedes e x)
    (he : ofKernel d (k + 1) e = true) : Passed os d k (b, p) := by
  obtain ⟨f, hf, hfin, hdev, hker, hblock, hpipe⟩ := R.finish_mem hmem he b p
  rw [← h.whole d hd b hb p] at hf
  have hbar : IsBarrier d k f := ⟨hfin, hdev, hker⟩
  rcases List.mem_append.1 hf with hf | hf
  · obtain ⟨o, ho, hok, rfl, -⟩ := mem_executed.1 hf
    exact ⟨o, ho, hok, hbar, Prod.ext hblock hpipe⟩
  · exfalso
    rcases hleft f hf with rfl | hle
    · rw [not_ofKernel_of_isBarrier hbar] at he
      cases he
    · have := hle.1
      rw [stage_ofKernel he, stage_isBarrier hbar] at this
      omega

/-- A pipe at an event of the next kernel has passed the barrier. -/
lemma Queued.after_barrier (h : Queued R ques os) (hd : d < env.devices.length)
    (hb : b < env.totalBlockNum) (hl : left env.totalBlockNum ques d b p = e :: l)
    (he : ofKernel d (k + 1) e = true) : Passed os d k (b, p) := by
  refine h.passed_of_precedes hd hb ?_ (fun x hx => ?_) he
  · rw [← h.whole d hd b hb p, hl]
    exact List.mem_append_right _ List.mem_cons_self
  · rw [hl] at hx
    exact (List.mem_cons.1 hx).imp_right ((h.order hd hb hl).2 x)

lemma Queued.passed_of_executed (h : Queued R ques os) (hd : d < env.devices.length)
    (hb : b < env.totalBlockNum) (hx : e ∈ executed os d b p)
    (he : ofKernel d (k + 1) e = true) : Passed os d k (b, p) := by
  have hpair : (R.prog d b p).Pairwise Precedes := R.prog_order
  rw [← h.whole d hd b hb p, List.pairwise_append] at hpair
  refine h.passed_of_precedes hd hb ?_ (fun x hx' => .inr (hpair.2.2 e hx x hx')) he
  rw [← h.whole d hd b hb p]
  exact List.mem_append_left _ hx

end Heads

/-! ## A poll -/

section Poll

variable {kb : BarrierEvent KernelBarrierWorker} {rank : ℕ} {w : KernelBarrierWorker}
  {t : VectorTime} (curPipe : ℕ)

lemma poll_open (hall : (kb.arrive rank w t).allReachBarrier = true)
    (hw : w ∈ (kb.arrive rank w t).reachedWorkers) :
    RaceAlg.pollBarrier kb rank w curPipe t =
      (.processOk, updateLogicTime (updateVectorTime (kb.arrive rank w t).vtGlobal t) curPipe,
        ((kb.arrive rank w t).consume w).2) := by
  rw [RaceAlg.pollBarrier, BarrierEvent.wait_eq, if_pos hall, BarrierEvent.consume_of_mem hw]

lemma poll_closed (hall : (kb.arrive rank w t).allReachBarrier = false) :
    RaceAlg.pollBarrier kb rank w curPipe t = (.processStalled, t, kb.arrive rank w t) := by
  rw [RaceAlg.pollBarrier, BarrierEvent.wait_eq, if_neg (by rw [hall]; exact Bool.false_ne_true)]

end Poll

/-! ## The invariant of the replay -/

/-- The index of the queue of the pipe of an event. -/
def queOf (N : ℕ) (e : SanEvent) : ℕ := que N e.loc.deviceIdx (blockOf e) e.pipe

/-- What the offers `os` have made of the queues and of the handler. -/
structure Ordered {env : NpuEnv} (R : Recording env) (ques : ℕ → List SanEvent)
    (a : CrossNpuRaceAlg) (os : List Offer) : Prop where
  queued : Queued R ques os
  clocks : CrossNpuRaceAlg.ClocksWf a
  place : ∀ o ∈ os, isTime o.event = false →
    o.event.loc.deviceIdx < env.devices.length ∧ blockOf o.event < env.totalBlockNum
  past : ∀ o ∈ os, o.ok = true → isTime o.event = false →
    o.clock ≤ a.vc (queOf env.totalBlockNum o.event)
  barrier : ∀ d < env.devices.length, ∀ k,
    BarrierInv env.totalBlockNum ques os a.vc d k (a.kernelBarrier d k)
  between : ∀ d < env.devices.length, ∀ k, ∀ o ∈ os, ∀ o' ∈ os, o.ok = true → o'.ok = true →
    ofKernel d k o.event = true → ofKernel d (k + 1) o'.event = true → o.clock ≤ o'.clock
  checked : ∀ x ∈ a.checked, ∃ o ∈ os, o.ok = true ∧ o.event = x.1 ∧ o.clock = x.2

lemma isTime_of_isWork {e : SanEvent} (h : isWork e = true) : isTime e = false := by
  unfold isWork at h
  unfold isTime
  cases hinfo : e.info <;> simp_all

lemma isTime_of_isFinish {e : SanEvent} (h : isFinish e = true) : isTime e = false := by
  unfold isFinish at h
  unfold isTime
  split at h
  · rename_i hinfo
    rw [hinfo]
  · cases h

def offerOf (env : NpuEnv) (c : EventContainer) (a : CrossNpuRaceAlg) (e : SanEvent) : Offer where
  event := e
  ok := decide ((a.dispatch env c e).1 = .processOk)
  clock := (a.dispatch env c e).2.vc c.getQueIndex

section Steps

variable {env : NpuEnv} {R : Recording env} {c : EventContainer} {a : CrossNpuRaceAlg}
  {os : List Offer} {d b k : ℕ} {p : PipeType} {e : SanEvent} {rest : List SanEvent}

lemma processEvent_own (hp : c.pipeIndex = e.pipe.idx) :
    CrossNpuRaceAlg.processEvent env c a e =
      { ret := (a.dispatch env c e).1, state := (a.dispatch env c e).2, pushes := [] } := by
  rw [CrossNpuRaceAlg.processEvent, if_neg (by simpa using hp)]

/-- The front event of the queue of the loop. -/
structure Front (env : NpuEnv) (c : EventContainer) (d b : ℕ) (p : PipeType) (e : SanEvent)
    (rest : List SanEvent) : Prop where
  isAt : IsAt env c d b p
  front : c.ques c.getQueIndex = e :: rest
  own : c.pipeIndex = e.pipe.idx

lemma Front.pipe (hf : Front env c d b p e rest) : e.pipe = p :=
  PipeType.idx_injective (by rw [← hf.own, hf.isAt.pipe])

lemma Front.home (hf : Front env c d b p e rest) (h : Queued R c.ques os) : Home d b p e :=
  h.home d hf.isAt.device_lt b hf.isAt.block_lt p e (by
    rw [← hf.isAt.getQueIndex, hf.front]
    exact List.mem_cons_self)

lemma Front.queOf (hf : Front env c d b p e rest) (h : Queued R c.ques os)
    (ht : isTime e = false) : queOf env.totalBlockNum e = c.getQueIndex := by
  obtain ⟨hdev, hblock⟩ := (hf.home h).place ht
  rw [NpuReplay.queOf, hdev, hblock, hf.pipe, hf.isAt.getQueIndex]

lemma Front.worker (hf : Front env c d b p e rest) (h : Queued R c.ques os)
    (ht : isTime e = false) : worker e = (b, p) :=
  Prod.ext ((hf.home h).place ht).2 hf.pipe

lemma Front.head (hf : Front env c d b p e rest) (ht : isTime e = false) :
    ∃ l, left env.totalBlockNum c.ques d b p = e :: l := by
  have hfront := hf.front
  rw [hf.isAt.getQueIndex] at hfront
  exact head_left hfront hf.pipe ht

lemma Front.queued (hf : Front env c d b p e rest) (h : Queued R c.ques os) :
    Queued R (afterOffer c (CrossNpuRaceAlg.processEvent env c a e)).ques
      (os ++ [offerOf env c a e]) := by
  refine h.offer_process hf.isAt hf.front hf.own rfl ?_
  rw [processEvent_own hf.own]
  rfl

lemma Front.grows (hf : Front env c d b p e rest) (h : Queued R c.ques os)
    (ha : CrossNpuRaceAlg.ClocksWf a) : CrossNpuRaceAlg.Grows a (a.dispatch env c e).2 :=
  CrossNpuRaceAlg.dispatch_grows ha env c e (hf.home h).time

lemma Front.left_sub (hf : Front env c d b p e rest) (h : Queued R c.ques os) {d' : ℕ}
    (hd' : d' < env.devices.length) {w : KernelBarrierWorker} (hw : w.1 < env.totalBlockNum) :
    ∀ x ∈ left env.totalBlockNum
        (afterOffer c (CrossNpuRaceAlg.processEvent env c a e)).ques d' w.1 w.2,
      x ∈ left env.totalBlockNum c.ques d' w.1 w.2 := by
  intro x hx
  rw [h.left_eq (hf.queued h) hd' hw]
  exact List.mem_append_right _ hx

lemma dispatch_poll (env : NpuEnv) (a : CrossNpuRaceAlg) (c : EventContainer)
    (he : IsBarrier d k e) :
    let r := RaceAlg.pollBarrier (a.kernelBarrier d k) (env.totalBlockNum * pipeSize) (worker e)
      c.getQueIndex (a.vc c.getQueIndex)
    (a.dispatch env c e).1 = r.1 ∧ (a.dispatch env c e).2.vc c.getQueIndex = r.2.1 ∧
      (a.dispatch env c e).2.kernelBarrier d k = r.2.2 := by
  obtain ⟨hfin, rfl, rfl⟩ := he
  rw [dispatch_of_isFinish hfin]
  refine ⟨rfl, ?_, ?_⟩
  · simp only [CrossNpuRaceAlg.processKernelFinish, CrossNpuRaceAlg.setClock, Function.update_self]
    rfl
  · simp only [CrossNpuRaceAlg.processKernelFinish, update2_apply, and_self, if_true]
    rfl

/-- The barrier once the worker that polls it is counted. -/
lemma Ordered.arrive (h : Ordered R c.ques a os) (hf : Front env c d b p e rest)
    (he : IsBarrier d k e) :
    BarrierInv env.totalBlockNum c.ques os a.vc d k ((a.kernelBarrier d k).arrive
        (env.totalBlockNum * pipeSize) (worker e) (a.vc c.getQueIndex)) ∧
      worker e ∈ ((a.kernelBarrier d k).arrive (env.totalBlockNum * pipeSize) (worker e)
        (a.vc c.getQueIndex)).reachedWorkers := by
  have ht := isTime_of_isFinish he.1
  obtain ⟨l, hl⟩ := hf.head ht
  obtain ⟨hdrained, hnot⟩ := h.queued.at_barrier hf.isAt.device_lt hf.isAt.block_lt hl he
  rw [hf.worker h.queued ht]
  refine (h.barrier d hf.isAt.device_lt k).arrive hf.isAt.block_lt hnot hdrained
    (h.clocks.vc c.getQueIndex) (fun o ho hok hk hwo => ?_) fun o ho _ hk =>
      (h.place o ho (isTime_of_isWork (ofKernel_iff.1 hk).1)).2
  obtain ⟨hwork, hdev, -⟩ := ofKernel_iff.1 hk
  have hpast := h.past o ho hok (isTime_of_isWork hwork)
  obtain ⟨hblock, hpipe⟩ := Prod.mk.inj hwo
  rwa [NpuReplay.queOf, hdev, hblock, hpipe, ← hf.isAt.getQueIndex] at hpast

lemma Ordered.poll (h : Ordered R c.ques a os) (hf : Front env c d b p e rest)
    (he : IsBarrier d k e) :
    BarrierInv env.totalBlockNum (afterOffer c (CrossNpuRaceAlg.processEvent env c a e)).ques
      (os ++ [offerOf env c a e]) (a.dispatch env c e).2.vc d k
      ((a.dispatch env c e).2.kernelBarrier d k) := by
  obtain ⟨hinv, hmem⟩ := h.arrive hf he
  have hframe := hinv.frame (fun w hw => hf.left_sub (a := a) h.queued hf.isAt.device_lt hw)
    (hf.grows h.queued h.clocks).2
  obtain ⟨hret, hvc, hkb⟩ := dispatch_poll env a c he
  cases hall : ((a.kernelBarrier d k).arrive (env.totalBlockNum * pipeSize) (worker e)
      (a.vc c.getQueIndex)).allReachBarrier with
  | false =>
    rw [poll_closed _ hall] at hret hkb
    rw [hkb]
    exact hframe.stall (by rw [offerOf, hret]; rfl) hmem
  | true =>
    rw [poll_open _ hall hmem] at hret hvc hkb
    rw [hkb]
    refine hframe.pass he (by rw [offerOf, hret]; rfl) hall hmem ?_
    have hcur := h.clocks.vc c.getQueIndex
    have hque : que env.totalBlockNum d (worker e).1 (worker e).2 = c.getQueIndex := by
      rw [hf.worker h.queued (isTime_of_isFinish he.1), hf.isAt.getQueIndex]
    rw [show que env.totalBlockNum d (worker (offerOf env c a e).event).1
      (worker (offerOf env c a e).event).2 = c.getQueIndex from hque, hvc]
    exact (hinv.wf.le_updateVectorTime_left hcur).trans
      ((hinv.wf.updateVectorTime hcur).1.le_updateLogicTime _)

/-- A poll succeeds once every worker has been offered the barrier. -/
lemma Ordered.poll_ok (h : Ordered R c.ques a os) (hf : Front env c d b p e rest)
    (he : IsBarrier d k e)
    (hall : ∀ w : KernelBarrierWorker, w.1 < env.totalBlockNum → Reached os d k w) :
    (offerOf env c a e).ok = true := by
  have ht := isTime_of_isFinish he.1
  obtain ⟨l, hl⟩ := hf.head ht
  obtain ⟨-, hnot⟩ := h.queued.at_barrier hf.isAt.device_lt hf.isAt.block_lt hl he
  obtain ⟨hinv, hmem⟩ := h.arrive hf he
  obtain ⟨hret, -⟩ := dispatch_poll env a c he
  have hopen := hinv.opens (w := (b, p)) hf.isAt.block_lt hnot hall
  rw [poll_open _ hopen hmem] at hret
  rw [offerOf, hret]
  rfl

lemma Ordered.other (h : Ordered R c.ques a os) (hf : Front env c d b p e rest) {d' : ℕ}
    (hd' : d' < env.devices.length) (he : ¬ IsBarrier d' k e) :
    BarrierInv env.totalBlockNum (afterOffer c (CrossNpuRaceAlg.processEvent env c a e)).ques
      (os ++ [offerOf env c a e]) (a.dispatch env c e).2.vc d' k
      ((a.dispatch env c e).2.kernelBarrier d' k) := by
  have hkb : (a.dispatch env c e).2.kernelBarrier d' k = a.kernelBarrier d' k := by
    by_cases hfin : isFinish e = true
    · rw [dispatch_of_isFinish hfin]
      simp only [CrossNpuRaceAlg.processKernelFinish, update2_apply]
      exact if_neg fun hc => he ⟨hfin, hc.1.symm, hc.2.symm⟩
    · rw [dispatch_kernelBarrier (Bool.eq_false_iff.2 hfin)]
  rw [hkb]
  refine ((h.barrier d' hd' k).other he fun _ hk => ?_).frame
    (fun w hw => hf.left_sub h.queued hd' hw) (hf.grows h.queued h.clocks).2
  obtain ⟨hwork, hdev, -⟩ := ofKernel_iff.1 hk
  have ht : isTime e = false := isTime_of_isWork hwork
  obtain ⟨hdev', hblock⟩ := (hf.home h.queued).place ht
  obtain ⟨l, hl⟩ := hf.head ht
  have hdd : d' = d := hdev.symm.trans hdev'
  refine ⟨lt_of_eq_of_lt hblock hf.isAt.block_lt, fun hdrained => ?_⟩
  have hnot := hdrained e (by
    rw [show worker (offerOf env c a e).event = (b, p) from hf.worker h.queued ht, hdd, hl]
    exact List.mem_cons_self)
  rw [show ofKernel d' k e = true from hk] at hnot
  cases hnot

/-- An event of the next kernel finds everything of the kernel done. -/
lemma Ordered.drained (h : Ordered R c.ques a os) (hf : Front env c d b p e rest)
    (he : ofKernel d (k + 1) e = true) :
    (∀ w : KernelBarrierWorker, w.1 < env.totalBlockNum → Drained env.totalBlockNum c.ques d k w) ∧
      Below os d k (fun _ => True) (a.vc c.getQueIndex) := by
  obtain ⟨l, hl⟩ := hf.head (isTime_of_isWork (ofKernel_iff.1 he).1)
  have hpassed := h.queued.after_barrier hf.isAt.device_lt hf.isAt.block_lt hl he
  rw [hf.isAt.getQueIndex]
  exact (h.barrier d hf.isAt.device_lt k).passed (b, p) hpassed

lemma Ordered.offer_between (h : Ordered R c.ques a os) (hf : Front env c d b p e rest) {d' : ℕ}
    (hd' : d' < env.devices.length) :
    ∀ o ∈ os ++ [offerOf env c a e], ∀ o' ∈ os ++ [offerOf env c a e], o.ok = true →
      o'.ok = true → ofKernel d' k o.event = true → ofKernel d' (k + 1) o'.event = true →
      o.clock ≤ o'.clock := by
  intro o ho o' ho' hok hok' hk hk'
  rcases List.mem_append.1 ho' with ho' | ho'
  · rcases List.mem_append.1 ho with ho | ho
    · exact h.between d' hd' k o ho o' ho' hok hok' hk hk'
    · -- the kernel was done before the event of the next one
      exfalso
      rw [List.mem_singleton.1 ho] at hk
      obtain ⟨hwork, hdev, -⟩ := ofKernel_iff.1 hk
      have ht : isTime e = false := isTime_of_isWork hwork
      obtain ⟨hdev', -⟩ := (hf.home h.queued).place ht
      obtain rfl : d' = d := hdev.symm.trans hdev'
      obtain ⟨l, hl⟩ := hf.head ht
      obtain ⟨hwork', hdev'', -⟩ := ofKernel_iff.1 hk'
      have ht' := isTime_of_isWork hwork'
      have hblock' := (h.place o' ho' ht').2
      have hmem : o'.event ∈ executed os d' (blockOf o'.event) o'.event.pipe :=
        mem_executed.2 ⟨o', ho', hok', rfl, ht', hdev'', rfl, rfl⟩
      have hpassed := h.queued.passed_of_executed hd' hblock' hmem hk'
      have hdrained := ((h.barrier d' hd' k).passed _ hpassed).1 (b, p) hf.isAt.block_lt
      have hnot := hdrained e (by rw [hl]; exact List.mem_cons_self)
      rw [show ofKernel d' k e = true from hk] at hnot
      cases hnot
  · rw [List.mem_singleton.1 ho'] at hk' ⊢
    obtain ⟨hwork, hdev, -⟩ := ofKernel_iff.1 hk'
    obtain ⟨hdev', -⟩ := (hf.home h.queued).place (isTime_of_isWork hwork)
    obtain rfl : d' = d := hdev.symm.trans hdev'
    rcases List.mem_append.1 ho with ho | ho
    · exact ((h.drained hf hk').2 o ho hok hk trivial).trans
        ((hf.grows h.queued h.clocks).2 _).le
    · rw [List.mem_singleton.1 ho] at hk
      have h1 := stage_ofKernel hk
      have h2 := stage_ofKernel hk'
      omega

lemma Ordered.offer (h : Ordered R c.ques a os) (hf : Front env c d b p e rest) :
    Ordered R (afterOffer c (CrossNpuRaceAlg.processEvent env c a e)).ques
      (a.dispatch env c e).2 (os ++ [offerOf env c a e]) := by
  obtain ⟨hclocks, hlater⟩ := hf.grows h.queued h.clocks
  refine ⟨hf.queued h.queued, hclocks, fun o ho ht => ?_, fun o ho hok ht => ?_,
    fun d' hd' k => ?_, fun d' hd' k => h.offer_between hf hd', fun x hx => ?_⟩
  · rcases List.mem_append.1 ho with ho | ho
    · exact h.place o ho ht
    · rw [List.mem_singleton.1 ho] at ht ⊢
      obtain ⟨hdev, hblock⟩ := (hf.home h.queued).place ht
      exact ⟨lt_of_eq_of_lt hdev hf.isAt.device_lt, lt_of_eq_of_lt hblock hf.isAt.block_lt⟩
  · rcases List.mem_append.1 ho with ho | ho
    · exact (h.past o ho hok ht).trans (hlater _).le
    · rw [List.mem_singleton.1 ho] at ht ⊢
      rw [show queOf env.totalBlockNum (offerOf env c a e).event = c.getQueIndex from
        hf.queOf h.queued ht]
      exact le_rfl
  · by_cases he : IsBarrier d' k e
    · obtain ⟨hdev, -⟩ := (hf.home h.queued).place (isTime_of_isFinish he.1)
      obtain rfl : d' = d := he.2.1.symm.trans hdev
      exact h.poll hf he
    · exact h.other hf hd' he
  · rcases dispatch_checked env a c e with hsame | ⟨hret, hnew⟩
    · rw [hsame] at hx
      obtain ⟨o, ho, hrest⟩ := h.checked x hx
      exact ⟨o, List.mem_append_left _ ho, hrest⟩
    · rw [hnew] at hx
      rcases List.mem_append.1 hx with hx | hx
      · obtain ⟨o, ho, hrest⟩ := h.checked x hx
        exact ⟨o, List.mem_append_left _ ho, hrest⟩
      · rw [List.mem_singleton.1 hx]
        exact ⟨_, List.mem_append_right _ (List.mem_singleton_self _), decide_eq_true hret, rfl,
          rfl⟩

lemma Ordered.issue (h : Ordered R c.ques a os) (hat : IsAt env c d b p)
    (hq : c.ques c.getQueIndex = e :: rest) (hne : c.pipeIndex ≠ e.pipe.idx) :
    Ordered R (afterOffer c (CrossNpuRaceAlg.processEvent env c a e)).ques
      (CrossNpuRaceAlg.processEvent env c a e).state os := by
  have hqueued := h.queued.offer_issue hat hq hne h.clocks.vc
  have hstate : (CrossNpuRaceAlg.processEvent env c a e).state =
      a.setClock c.getQueIndex (updateLogicTime (a.vc c.getQueIndex) c.getQueIndex) := by
    rw [CrossNpuRaceAlg.processEvent, if_pos hne]
  obtain ⟨hclocks, hlater⟩ := h.clocks.setClock
    ((Later.refl (h.clocks.vc c.getQueIndex)).tick c.getQueIndex)
  rw [hstate]
  refine ⟨hqueued, hclocks, h.place, fun o ho hok ht => ?_, fun d' hd' k => ?_, h.between,
    h.checked⟩
  · exact (h.past o ho hok ht).trans (hlater _).le
  · refine (h.barrier d' hd' k).frame (fun w hw x hx => ?_) hlater
    rw [h.queued.left_eq (by rw [List.append_nil]; exact hqueued) hd' hw]
    exact List.mem_append_right _ hx

end Steps

/-! ## Runs -/

section Runs

variable {env : NpuEnv} {R : Recording env} {events : List SanEvent} {d k : ℕ}

lemma blockDim_le {d k : ℕ} {x : KernelSummary} (h : kernel? env d k = some x) :
    x.blockDim ≤ env.maxBlockDim := by
  obtain ⟨device, hdevice, hk⟩ := Option.bind_eq_some_iff.1 h
  have hmem : x ∈ env.allKernels :=
    List.mem_flatMap.2 ⟨device, List.mem_of_getElem? hdevice, List.mem_of_getElem? hk⟩
  have hdim : x.blockDim ∈ env.allKernels.map KernelSummary.blockDim := List.mem_map_of_mem hmem
  rw [NpuEnv.maxBlockDim, List.foldl_max_eq_max (List.ne_nil_of_mem hdim)]
  exact le_max_of_le_right (List.le_max_of_mem hdim)

lemma totalBlockNum_pos (env : NpuEnv) : 0 < env.totalBlockNum := by
  refine Nat.mul_pos ?_ (by decide)
  rw [NpuEnv.maxBlockDim]
  exact (foldl_invariant (I := fun n => 0 < n) (fun s n hs => lt_max_of_lt_left hs) _ 1 one_pos)

lemma npuReplay_dims (env : NpuEnv) (events : List SanEvent) (n : ℕ) :
    (npuReplay env events n).events.maxBlockNum = env.totalBlockNum ∧
      (npuReplay env events n).events.deviceNum = env.devices.length := by
  refine run_induction (I := fun c _ => c.maxBlockNum = env.totalBlockNum ∧
    c.deviceNum = env.devices.length) (fun hsame h => ?_) (fun h _ => ?_) ?_ n
  · rw [hsame.blocks, hsame.devices]
    exact h
  · rw [(afterOffer_blocks _ _).1, (afterOffer_blocks _ _).2]
    exact h
  · obtain ⟨hb, hd, -⟩ := EventContainer.foldl_push_blocks
      (events.flatMap (CrossNpuRaceAlg.doPushes env))
      (.init env.totalBlockNum env.devices.length)
    exact ⟨hb, hd⟩

lemma exists_isAt (events : List SanEvent) (hD : 0 < env.devices.length) (n : ℕ) :
    ∃ d b p, IsAt env (npuReplay env events n).events d b p := by
  obtain ⟨hb, hd⟩ := npuReplay_dims env events n
  have hplaced : Placed (npuReplay env events n) :=
    (placed_start (totalBlockNum_pos env) hD _ _).run n
  obtain ⟨p, hp⟩ := PipeType.exists_idx hplaced.pipe
  exact ⟨_, _, p, hb, hd, rfl, rfl, hp.symm, lt_of_lt_of_eq hplaced.device hd,
    lt_of_lt_of_eq hplaced.block hb⟩

lemma start_handler (env : NpuEnv) (events : List SanEvent) :
    CrossNpuRaceAlg.ClocksWf (npuReplay env events 0).handler ∧
      (npuReplay env events 0).handler.checked = [] ∧
      ∀ d k, (npuReplay env events 0).handler.kernelBarrier d k = {} := by
  refine foldl_invariant (I := fun a : CrossNpuRaceAlg => CrossNpuRaceAlg.ClocksWf a ∧
    a.checked = [] ∧ ∀ d k, a.kernelBarrier d k = {}) (fun a e h => ?_) events _
    ⟨CrossNpuRaceAlg.clocksWf_init env, rfl, fun _ _ => rfl⟩
  refine ⟨CrossNpuRaceAlg.clocksWf_cache h.1 e, ?_⟩
  unfold CrossNpuRaceAlg.cache
  split <;> exact h.2

lemma ordered_start (hR : R.Interleaves events) :
    Ordered R (npuReplay env events 0).events.ques (npuReplay env events 0).handler [] := by
  obtain ⟨hclocks, hchecked, hkernel⟩ := start_handler env events
  refine ⟨queued_start hR, hclocks, fun o ho => absurd ho List.not_mem_nil,
    fun o ho => absurd ho List.not_mem_nil, fun d hd k => ?_,
    fun d hd k o ho => absurd ho List.not_mem_nil, fun x hx => ?_⟩
  · rw [hkernel]
    have hnone (w : KernelBarrierWorker) : ¬ Passed [] d k w :=
      fun ⟨o, ho, _⟩ => absurd ho List.not_mem_nil
    refine ⟨wf_default, fun w hw => absurd hw (Finset.notMem_empty w),
      fun w hw => absurd hw (Finset.notMem_empty w), fun w ⟨o, ho, _⟩ => absurd ho List.not_mem_nil,
      fun _ => ⟨Nat.mul_pos (totalBlockNum_pos env) pipeSize_pos, .inl hnone⟩,
      fun hr => (by cases hr), fun w hw => absurd hw (hnone w)⟩
  · rw [hchecked] at hx
    exact absurd hx List.not_mem_nil

/-- The offer of a round that has an event of the pipe at the front. -/
lemma offerAt_front {q : PipeLine CrossNpuRaceAlg} {e : SanEvent} {rest : List SanEvent}
    (hs : q.pipeState = .processEvent) (hq : q.events.ques q.events.getQueIndex = e :: rest) :
    offerAt env q = if q.events.pipeIndex = e.pipe.idx then
      some (offerOf env q.events q.handler e) else none := by
  rw [offerAt, if_pos hs, hq]
  by_cases hp : q.events.pipeIndex = e.pipe.idx
  · simp only [if_pos hp, processEvent_own hp]
    rfl
  · simp only [if_neg hp]

/-- **The invariant of the replay.** -/
lemma ordered_run (hR : R.Interleaves events) (hD : 0 < env.devices.length) (n : ℕ) :
    Ordered R (npuReplay env events n).events.ques (npuReplay env events n).handler
      (offers env events n) := by
  induction n with
  | zero => exact ordered_start hR
  | succ n ih =>
    have hnext : npuReplay env events (n + 1) =
        step (CrossNpuRaceAlg.processEvent env) (npuReplay env events n) := run_succ _ _
    rw [offers_succ, hnext]
    rcases step_cases (CrossNpuRaceAlg.processEvent env) (npuReplay env events n) with
      ⟨hsame, hhandler, hempty⟩ | ⟨e, rest, hs, hq, hsame, hhandler⟩
    · have hnone : offerAt env (npuReplay env events n) = none := by
        rw [offerAt]
        by_cases hs : (npuReplay env events n).pipeState = .processEvent
        · rw [if_pos hs, hempty hs]
        · rw [if_neg hs]
      rw [hsame.ques, hhandler, hnone]
      simpa using ih
    · rw [hsame.ques, hhandler, offerAt_front hs hq]
      obtain ⟨d, b, p, hat⟩ := exists_isAt events hD n
      by_cases hp : (npuReplay env events n).events.pipeIndex = e.pipe.idx
      · rw [if_pos hp, processEvent_own hp]
        have hstep := ih.offer ⟨hat, hq, hp⟩
        rw [processEvent_own hp] at hstep
        exact hstep
      · rw [if_neg hp]
        simpa using ih.issue hat hq hp

lemma front_of_offerAt (hD : 0 < env.devices.length) {n : ℕ} {o : Offer}
    (ho : offerAt env (npuReplay env events n) = some o) :
    ∃ d b p rest, Front env (npuReplay env events n).events d b p o.event rest ∧
      o = offerOf env (npuReplay env events n).events (npuReplay env events n).handler
        o.event := by
  by_cases hs : (npuReplay env events n).pipeState = .processEvent
  · cases hq : (npuReplay env events n).events.ques
        (npuReplay env events n).events.getQueIndex with
    | nil =>
      rw [offerAt, if_pos hs, hq] at ho
      cases ho
    | cons e rest =>
      rw [offerAt_front hs hq] at ho
      split_ifs at ho with hp
      rw [← Option.some_inj.1 ho]
      obtain ⟨d, b, p, hat⟩ := exists_isAt events hD n
      exact ⟨d, b, p, rest, ⟨hat, hq, hp⟩, rfl⟩
  · rw [offerAt, if_neg hs] at ho
    cases ho

/-- The events of kernel `k` of device `d` that were recorded for pipe `p` of block `b`. -/
def recorded (events : List SanEvent) (d k b : ℕ) (p : PipeType) : List SanEvent :=
  (events.filter fun e =>
    decide (ofKernel d k e = true ∧ blockOf e = b ∧ e.pipe = p)).flatMap EventContainer.parts

lemma filter_prog (hR : R.Interleaves events) (b : ℕ) (p : PipeType) :
    (R.prog d b p).filter (ofKernel d k) = recorded events d k b p := by
  have hone (e : SanEvent) : (onPipe b p e).filter (ofKernel d k) =
      if ofKernel d k e = true ∧ blockOf e = b ∧ e.pipe = p then EventContainer.parts e
      else [] := by
    unfold onPipe
    by_cases hf : isFinish e = true
    · have hnot (x : SanEvent) (hx : isFinish x = true) : ¬ ofKernel d k x = true := by
        intro hk
        have := isFinish_of_isWork (ofKernel_iff.1 hk).1
        rw [hx] at this
        cases this
      rw [if_pos hf, if_neg fun hc => hnot e hf hc.1,
        List.filter_cons_of_neg (hnot (barrierEvent e b p) hf), List.filter_nil]
    · rw [if_neg hf]
      have hparts (x : SanEvent) (hx : x ∈ EventContainer.parts e) :
          ofKernel d k x = ofKernel d k e := by
        obtain ⟨hloc, -, -, -, hwork, -⟩ := mem_parts hx
        rw [ofKernel, ofKernel, hloc, hwork]
      by_cases hb : blockOf e = b ∧ e.pipe = p
      · rw [if_pos hb]
        by_cases hk : ofKernel d k e = true
        · rw [if_pos ⟨hk, hb⟩, List.filter_eq_self]
          exact fun x hx => (hparts x hx).trans hk
        · rw [if_neg fun hc => hk hc.1, List.filter_eq_nil_iff]
          exact fun x hx hc => hk ((hparts x hx).symm.trans hc)
      · rw [if_neg hb, if_neg fun hc => hb hc.2, List.filter_nil]
  rw [Recording.prog, prog, List.filter_flatMap, ← hR d]
  simp only [hone]
  rw [flatMap_ite, List.filter_filter, recorded]
  congr 1
  refine List.filter_congr fun e _ => ?_
  rw [← Bool.decide_and, decide_eq_decide]
  exact and_iff_left_of_imp fun hc => (ofKernel_iff.1 hc.1).2.1

/-- The events of a kernel are on the blocks of the replay. -/
lemma recorded_out (hR : R.Interleaves events) {b : ℕ} (hb : env.totalBlockNum ≤ b)
    (p : PipeType) : recorded events d k b p = [] := by
  rw [recorded, List.flatMap_eq_nil_iff]
  intro e he
  exfalso
  obtain ⟨hmem, hcond⟩ := List.mem_filter.1 he
  obtain ⟨hk, hblock, -⟩ := of_decide_eq_true hcond
  obtain ⟨hwork, hdev, -⟩ := ofKernel_iff.1 hk
  have hstream : e ∈ stream (R.kernels d) := by
    rw [← hR d]
    exact List.mem_filter.2 ⟨hmem, decide_eq_true hdev⟩
  obtain ⟨x, hx, hex⟩ := List.mem_flatMap.1 hstream
  obtain ⟨i, hi⟩ := List.getElem?_of_mem hx
  have hfits := R.fits d i x hi
  rcases List.mem_append.1 hex with hw | hw
  · obtain ⟨summary, hsummary, hcore⟩ := hfits.core
    have hlt := hcore e hw
    have hle := Nat.mul_le_mul_right c220MixSubBlockDim (blockDim_le hsummary)
    rw [NpuEnv.totalBlockNum] at hb
    omega
  · rw [List.mem_singleton.1 hw] at hwork
    have := isFinish_of_isWork hwork
    rw [hfits.finish.1] at this
    cases this

/-- The events of a kernel have been executed when those of the next one are. -/
lemma executed_eq_recorded (hR : R.Interleaves events) (hd : d < env.devices.length) {n : ℕ}
    {o : Offer} (ho : offerAt env (npuReplay env events n) = some o)
    (hk : ofKernel d (k + 1) o.event = true) (b : ℕ) (p : PipeType) :
    (executed (offers env events n) d b p).filter (ofKernel d k) = recorded events d k b p := by
  have hD : 0 < env.devices.length := lt_of_le_of_lt (Nat.zero_le _) hd
  have hinv := ordered_run hR hD n
  by_cases hb : b < env.totalBlockNum
  · obtain ⟨d', b', p', rest, hf, -⟩ := front_of_offerAt hD ho
    obtain ⟨hwork, hdev, -⟩ := ofKernel_iff.1 hk
    obtain ⟨hdev', -⟩ := (hf.home hinv.queued).place (isTime_of_isWork hwork)
    obtain rfl : d = d' := hdev.symm.trans hdev'
    have hdrained := (hinv.drained hf hk).1 (b, p) hb
    have hleft : (left env.totalBlockNum (npuReplay env events n).events.ques d b p).filter
        (ofKernel d k) = [] := by
      rw [List.filter_eq_nil_iff]
      intro x hx
      rw [hdrained x hx]
      exact Bool.false_ne_true
    have hwhole := congrArg (List.filter (ofKernel d k)) (hinv.queued.whole d hd b hb p)
    rwa [List.filter_append, hleft, List.append_nil, filter_prog hR] at hwhole
  · rw [recorded_out hR (not_lt.1 hb), List.filter_eq_nil_iff]
    intro x hx
    exfalso
    obtain ⟨o', ho', -, rfl, ht, -, hblock, -⟩ := mem_executed.1 hx
    have := (hinv.place o' ho' ht).2
    omega

/-- **Kernel boundaries order a device.** In every replay of recordings of any devices and kernels:
when an event of a kernel is executed, all events of the kernel before it have been, on every pipe
of every block; no executed event of a kernel has an earlier clock than one of the kernel before
it, and the events that are checked are checked with these clocks; and once every pipe of every
block has been offered the barrier, every further poll of it succeeds. -/
theorem kernel_order (hR : R.Interleaves events) (hd : d < env.devices.length) (k n : ℕ) :
    (∀ o, offerAt env (npuReplay env events n) = some o → o.ok = true →
      ofKernel d (k + 1) o.event = true → ∀ b p,
        (executed (offers env events n) d b p).filter (ofKernel d k) =
          recorded events d k b p) ∧
    (∀ o ∈ offers env events n, ∀ o' ∈ offers env events n, o.ok = true → o'.ok = true →
      ofKernel d k o.event = true → ofKernel d (k + 1) o'.event = true → o.clock ≤ o'.clock) ∧
    (∀ x ∈ (npuReplay env events n).handler.checked,
      ∀ x' ∈ (npuReplay env events n).handler.checked, ofKernel d k x.1 = true →
      ofKernel d (k + 1) x'.1 = true → x.2 ≤ x'.2) ∧
    ((∀ b < env.totalBlockNum, ∀ p, Reached (offers env events n) d k (b, p)) →
      ∀ o, offerAt env (npuReplay env events n) = some o → IsBarrier d k o.event →
        o.ok = true) := by
  have hD : 0 < env.devices.length := lt_of_le_of_lt (Nat.zero_le _) hd
  have hinv := ordered_run hR hD n
  refine ⟨fun o ho _ hk b p => executed_eq_recorded hR hd ho hk b p, hinv.between d hd k,
    fun x hx x' hx' hk hk' => ?_, fun hall o ho he => ?_⟩
  · obtain ⟨o, ho, hok, hevent, hclock⟩ := hinv.checked x hx
    obtain ⟨o', ho', hok', hevent', hclock'⟩ := hinv.checked x' hx'
    rw [← hevent] at hk
    rw [← hevent'] at hk'
    rw [← hclock, ← hclock']
    exact hinv.between d hd k o ho o' ho' hok hok' hk hk'
  · obtain ⟨d', b, p, rest, hf, heq⟩ := front_of_offerAt hD ho
    obtain ⟨hdev, -⟩ := (hf.home hinv.queued).place (isTime_of_isFinish he.1)
    obtain rfl : d = d' := he.2.1.symm.trans hdev
    rw [heq]
    exact hinv.poll_ok hf he fun w hw => hall w.1 hw w.2

end Runs

/-! ## Two kernels -/

def twoKernels : NpuEnv where
  devices := [{ deviceId := 0, deviceType := ⟨2⟩,
                kernels := [{ kernelType := .mix, blockDim := 1 },
                  { kernelType := .mix, blockDim := 1 }] }]
  shared := fun _ _ _ => true

/-- A memory event of a kernel and the end of the kernel. -/
def oneAccess (k : ℕ) : KernelEvents where
  works := [{ pipe := .mte2, info := .mem { memType := .gm, addr := 64 },
              loc := { kernelIdx := k } }]
  finish := { info := .sanitizerControl .kernelFinish, loc := { kernelIdx := k } }

lemma fits_oneAccess {k : ℕ} (hk : k < 2) : Fits twoKernels 0 k (oneAccess k) := by
  refine ⟨⟨{ kernelType := .mix, blockDim := 1 }, ?_, fun e he => ?_⟩, fun e he => ?_,
    rfl, rfl, rfl⟩
  · rcases Nat.le_one_iff_eq_zero_or_eq_one.1 (Nat.le_of_lt_succ hk) with rfl | rfl <;> rfl
  · rw [List.mem_singleton.1 he]
    simp [blockOf, getEventExpandBlockIndexByLoc, c220MixSubBlockDim]
  · rw [List.mem_singleton.1 he]
    simp [ofKernel, isWork]

def twoAccesses : Recording twoKernels where
  kernels := fun d => if d = 0 then [oneAccess 0, oneAccess 1] else []
  fits := by
    intro d k x hx
    by_cases hd : d = 0
    · rw [if_pos hd] at hx
      rcases k with _ | _ | k
      · rw [hd, ← Option.some_inj.1 hx]
        exact fits_oneAccess (by decide)
      · rw [hd, ← Option.some_inj.1 hx]
        exact fits_oneAccess (by decide)
      · cases hx
    · rw [if_neg hd] at hx
      cases hx

theorem kernel_order_two :
    twoAccesses.Interleaves (stream [oneAccess 0, oneAccess 1]) ∧
      ∀ n, ∀ x ∈ (npuReplay twoKernels (stream [oneAccess 0, oneAccess 1]) n).handler.checked,
        ∀ x' ∈ (npuReplay twoKernels (stream [oneAccess 0, oneAccess 1]) n).handler.checked,
          ofKernel 0 0 x.1 = true → ofKernel 0 1 x'.1 = true → x.2 ≤ x'.2 := by
  have hR : twoAccesses.Interleaves (stream [oneAccess 0, oneAccess 1]) := by
    intro d
    rcases d with _ | d
    · rfl
    · rfl
  exact ⟨hR, fun n => (kernel_order hR (by decide) 0 n).2.2.1⟩

end MsSanitizer.NpuReplay
