import MsSanitizer.PipeLineStop

/-!
# What one round of the replay loop does

A round either moves the position and leaves the queues and the handler as they are, or offers
the front event of the current queue to the handler; then the pushes of the handler go to the
queues, and the event leaves its queue when the handler has processed it. An invariant about
queues and handler is proved from this alone (`run_induction`).
-/

namespace MsSanitizer.PipeLine

open RecordDefs EventDef

variable {σ : Type*} {func : EventFunc σ}

/-- The same queues, for the same blocks and devices. -/
structure SameQueues (c c' : EventContainer) : Prop where
  ques : c'.ques = c.ques
  blocks : c'.maxBlockNum = c.maxBlockNum
  devices : c'.deviceNum = c.deviceNum

/-- The queues after the answer of the handler to the front event. -/
def afterOffer (c : EventContainer) (r : Reply σ) : EventContainer :=
  match r.ret with
  | .processOk => (r.pushes.foldl .push c).pop
  | .processStalled => r.pushes.foldl .push c

lemma switchToNextPipe_sameQueues (c : EventContainer) : SameQueues c c.switchToNextPipe := by
  unfold EventContainer.switchToNextPipe
  split_ifs <;> exact ⟨rfl, rfl, rfl⟩

lemma switchToNextBlock_sameQueues (c : EventContainer) : SameQueues c c.switchToNextBlock := by
  unfold EventContainer.switchToNextBlock
  split_ifs <;> exact ⟨rfl, rfl, rfl⟩

lemma step_cases (func : EventFunc σ) (p : PipeLine σ) :
    (SameQueues p.events (step func p).events ∧ (step func p).handler = p.handler ∧
        (p.pipeState = .processEvent → p.events.ques p.events.getQueIndex = [])) ∨
      ∃ e rest, p.pipeState = .processEvent ∧ p.events.ques p.events.getQueIndex = e :: rest ∧
        SameQueues (afterOffer p.events (func p.events p.handler e)) (step func p).events ∧
        (step func p).handler = (func p.events p.handler e).state := by
  unfold step
  cases hs : p.pipeState with
  | checkAllDevice => exact .inl ⟨⟨rfl, rfl, rfl⟩, rfl, fun hc => by cases hc⟩
  | checkCurDevice =>
    refine .inl ?_
    unfold checkCurDevice EventContainer.checkCurDeviceStuck
    split_ifs <;> exact ⟨⟨rfl, rfl, rfl⟩, rfl, fun hc => by cases hc⟩
  | checkCurBlock =>
    refine .inl ?_
    unfold checkCurBlock
    split_ifs
    · exact ⟨switchToNextBlock_sameQueues _, rfl, fun hc => by cases hc⟩
    · exact ⟨⟨rfl, rfl, rfl⟩, rfl, fun hc => by cases hc⟩
  | checkCurPipe =>
    refine .inl ?_
    unfold checkCurPipe
    split_ifs
    · exact ⟨switchToNextPipe_sameQueues _, rfl, fun hc => by cases hc⟩
    · exact ⟨⟨rfl, rfl, rfl⟩, rfl, fun hc => by cases hc⟩
  | processEvent =>
    cases hq : p.events.ques p.events.getQueIndex with
    | nil =>
      refine .inl ?_
      have hr : reply func p = none := by rw [reply, hq]; rfl
      have hp : process func p = p := by rw [process, hr]
      dsimp only
      rw [hp]
      exact ⟨⟨rfl, rfl, rfl⟩, rfl, fun _ => rfl⟩
    | cons e rest =>
      refine .inr ⟨e, rest, rfl, rfl, ?_⟩
      have hr : reply func p = some (func p.events p.handler e) := by rw [reply, hq]; rfl
      simp only [process, hr, afterOffer]
      cases (func p.events p.handler e).ret with
      | processOk => exact ⟨⟨rfl, rfl, rfl⟩, rfl⟩
      | processStalled => exact ⟨switchToNextPipe_sameQueues _, rfl⟩
  | exit => exact .inl ⟨⟨rfl, rfl, rfl⟩, rfl, fun hc => by cases hc⟩
  | exception => exact .inl ⟨⟨rfl, rfl, rfl⟩, rfl, fun hc => by cases hc⟩

/-- An invariant of runs: it looks at the queues and the handler only, and every offer to the
handler keeps it. -/
lemma run_induction {I : EventContainer → σ → Prop} {p : PipeLine σ}
    (hsame : ∀ {c c' s}, SameQueues c c' → I c s → I c' s)
    (hoffer : ∀ {c s e rest}, I c s → c.ques c.getQueIndex = e :: rest →
      I (afterOffer c (func c s e)) (func c s e).state)
    (h0 : I p.events p.handler) (n : ℕ) :
    I (run func p n).events (run func p n).handler := by
  induction n with
  | zero => exact h0
  | succ n ih =>
    rw [run_succ]
    rcases step_cases func (run func p n) with ⟨hq, hh, -⟩ | ⟨e, rest, -, hfront, hq, hh⟩
    · rw [hh]
      exact hsame hq ih
    · rw [hh]
      exact hsame hq (hoffer ih hfront)

/-! ## Pushes -/

namespace EventContainer

variable {c : EventContainer} {q : ℕ}

lemma foldl_push_blocks (pushes : List Push) (c : EventContainer) :
    (pushes.foldl push c).maxBlockNum = c.maxBlockNum ∧
      (pushes.foldl push c).deviceNum = c.deviceNum ∧
      (pushes.foldl push c).getQueIndex = c.getQueIndex := by
  obtain ⟨ques, heq, -⟩ := c.foldl_push_eq pushes
  rw [heq]
  exact ⟨rfl, rfl, rfl⟩

/-- The queue in which a push ends up, if it is one of the container. -/
def target (c : EventContainer) (p : Push) : Option ℕ :=
  if c.maxBlockNum ≤ p.blockIdx ∨ c.deviceNum ≤ p.deviceIdx then none
  else some (c.flattenPipeIdx p.pipe.idx p.blockIdx p.deviceIdx)

lemma push_ques (c : EventContainer) (p : Push) (q : ℕ) :
    (c.push p).ques q = c.ques q ++ if c.target p = some q then parts p.event else [] := by
  unfold push target
  by_cases hout : c.maxBlockNum ≤ p.blockIdx ∨ c.deviceNum ≤ p.deviceIdx
  · rw [if_pos hout, if_pos hout, if_neg (Option.some_ne_none q).symm, List.append_nil]
  · rw [if_neg hout, if_neg hout]
    by_cases hq : c.flattenPipeIdx p.pipe.idx p.blockIdx p.deviceIdx = q
    · rw [if_pos (congrArg some hq), ← hq]
      exact Function.update_self _ _ _
    · rw [if_neg fun h => hq (Option.some_inj.1 h), List.append_nil]
      exact Function.update_of_ne (Ne.symm hq) _ _

lemma foldl_push_ques (pushes : List Push) (c : EventContainer) (q : ℕ) :
    (pushes.foldl push c).ques q =
      c.ques q ++ (pushes.filter fun p => c.target p = some q).flatMap fun p => parts p.event := by
  induction pushes generalizing c with
  | nil => exact (List.append_nil _).symm
  | cons p pushes ih =>
    have htarget : ∀ p', (c.push p).target p' = c.target p' := by
      intro p'
      obtain ⟨ques, heq, -⟩ := c.foldl_push_eq [p]
      rw [List.foldl_cons, List.foldl_nil] at heq
      rw [heq]
      rfl
    rw [List.foldl_cons, ih, push_ques, List.filter_cons]
    simp only [htarget, decide_eq_true_eq]
    split_ifs with h
    · rw [List.flatMap_cons, List.append_assoc]
    · rw [List.append_nil]

lemma pop_ques (c : EventContainer) (q : ℕ) :
    c.pop.ques q = if q = c.getQueIndex then (c.ques q).tail else c.ques q := by
  simp only [pop, Function.update_apply]
  split_ifs with h
  · rw [h]
  · rfl

end EventContainer

/-- The queues after an offer: the pushes at their ends, and the front event gone when it was
processed. -/
lemma afterOffer_ques (c : EventContainer) (r : Reply σ) (q : ℕ) :
    (afterOffer c r).ques q =
      if r.ret = .processOk ∧ q = c.getQueIndex then ((r.pushes.foldl .push c).ques q).tail
      else (r.pushes.foldl .push c).ques q := by
  unfold afterOffer
  cases r.ret with
  | processOk =>
    simp only [EventContainer.pop_ques, (EventContainer.foldl_push_blocks r.pushes c).2.2,
      true_and]
  | processStalled => simp

lemma afterOffer_blocks (c : EventContainer) (r : Reply σ) :
    (afterOffer c r).maxBlockNum = c.maxBlockNum ∧ (afterOffer c r).deviceNum = c.deviceNum := by
  obtain ⟨hb, hd, -⟩ := EventContainer.foldl_push_blocks r.pushes c
  unfold afterOffer
  cases r.ret with
  | processOk => exact ⟨hb, hd⟩
  | processStalled => exact ⟨hb, hd⟩

lemma SameQueues.trans {c c' c'' : EventContainer} (h : SameQueues c c')
    (h' : SameQueues c' c'') : SameQueues c c'' :=
  ⟨h'.ques.trans h.ques, h'.blocks.trans h.blocks, h'.devices.trans h.devices⟩

/-- The queues after an offer, at the same place of the same queues. -/
lemma SameQueues.afterOffer {c c' : EventContainer} (h : SameQueues c c')
    (hidx : c'.getQueIndex = c.getQueIndex) (r : Reply σ) :
    SameQueues (PipeLine.afterOffer c r) (PipeLine.afterOffer c' r) := by
  refine ⟨funext fun i => ?_, ?_, ?_⟩
  · have htarget : ∀ push, c'.target push = c.target push := by
      intro push
      simp only [EventContainer.target, EventContainer.flattenPipeIdx, h.blocks, h.devices]
    simp only [afterOffer_ques, EventContainer.foldl_push_ques, h.ques, hidx, htarget]
  · rw [(afterOffer_blocks c' r).1, (afterOffer_blocks c r).1, h.blocks]
  · rw [(afterOffer_blocks c' r).2, (afterOffer_blocks c r).2, h.devices]

end MsSanitizer.PipeLine
