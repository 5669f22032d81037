import MsSanitizer.CheckerFinish
import MsSanitizer.RankedRuns

/-!
# Waiting for the tools

A tool is done when its thread finds `finishProduce_` set after its last work. A thread that was
faster than the dispatch has read the flag before, and nobody wakes it up again: then the dispatch
waits forever. In every other case the wait ends. The steps of the threads take from a weight, in
which an entry on its way through the pipeline counts more than what becomes of it in the queues.
-/

namespace MsSanitizer.CheckerQueues

open MsSanitizer.ParsePipeline

variable {W Record Event Info ε : Type*} {config : Config} {kinds : Kinds Record}
variable {b b' : Board (WorkArgs Record Event Info)} {d d' : Dispatch (WorkArgs Record Event Info)}
variable {args : WorkArgs Record Event Info} {t : ToolType} {out : ParseOut Record Event}
variable {finishProduce : Bool} {tool tool' : Tool (WorkArgs Record Event Info)}

/-! ### Threads that were too fast -/

/-- The thread of a tool has read `finishProduce_` after its last work and has not found it set. -/
structure Tool.Missed (tool : Tool (WorkArgs Record Event Info)) : Prop where
  done : tool.done = false
  clear : tool.Clear
  thread : tool.thread ≠ .consumed ∧ tool.thread ≠ .marking

/-- Such a thread goes on with what is not work, and then with nothing. -/
lemma Consume.missed (h : Consume finishProduce tool tool') (hm : tool.Missed) : tool'.Missed := by
  obtain ⟨hdone, hclear, hconsumed, hmarking⟩ := hm
  cases h with
  | pop args rest ht hq =>
    refine ⟨hdone, ?_, by simp, by simp⟩
    simpa [Tool.Clear, Consumer.hand, ht, hq] using hclear
  | handle args ht =>
    have hw : args.isWork = false := hclear args (by simp [Consumer.hand, ht])
    refine ⟨hdone, fun a ha => hclear a (List.mem_append_right _ ?_), ?_, ?_⟩
    · simpa [Consumer.hand, hw] using ha
    · simp [hw]
    · simp [hw]
  | readFinishProduce ht => exact absurd ht hconsumed
  | waitAfterConsumed ht => exact absurd ht hmarking

/-- While `finishProduce_` is set a thread with work to do is not too fast. -/
lemma Consume.not_missed (h : Consume true tool tool')
    (htail : ∀ a, tool.workerArgs.getLast? = some a → a.isWork = true) (hn : ¬ tool.Missed) :
    ¬ tool'.Missed := by
  rintro ⟨hdone, hclear, hconsumed, hmarking⟩
  cases h with
  | pop args rest ht hq =>
    refine hn ⟨hdone, ?_, by simp [ht], by simp [ht]⟩
    simpa [Tool.Clear, Consumer.hand, ht, hq] using hclear
  | handle args ht =>
    cases hw : args.isWork with
    | true => simp [hw] at hconsumed
    | false =>
      refine hn ⟨hdone, fun a ha => ?_, by simp [ht], by simp [ht]⟩
      rcases List.mem_append.mp ha with ha | ha
      · rw [ht] at ha
        rw [List.mem_singleton.mp ha]
        exact hw
      · exact hclear a (List.mem_append_right _ ha)
  | readFinishProduce ht => exact absurd rfl hmarking
  | waitAfterConsumed ht =>
    obtain ⟨-, hempty⟩ := Bool.or_eq_false_iff.mp hdone
    cases hlast : tool.workerArgs.getLast? with
    | none =>
      rw [List.getLast?_eq_none_iff.mp hlast] at hempty
      cases hempty
    | some a =>
      have hwork := htail a hlast
      rw [hclear a (List.mem_append_right _ (List.mem_of_getLast? hlast))] at hwork
      cases hwork

/-- A tool that is not done and whose thread was not too fast has a step to do. -/
lemma consume_of_not_missed (finishProduce : Bool) (hn : ¬ tool.Missed) (hd : tool.done = false) :
    ∃ tool', Consume finishProduce tool tool' := by
  cases ht : tool.thread with
  | handling args => exact ⟨_, .handle args ht⟩
  | consumed => exact ⟨_, .readFinishProduce ht⟩
  | marking => exact ⟨_, .waitAfterConsumed ht⟩
  | ready =>
    cases hq : tool.workerArgs with
    | cons args rest => exact ⟨_, .pop args rest ht hq⟩
    | nil =>
      refine absurd ⟨hd, fun a ha => ?_, by simp [ht], by simp [ht]⟩ hn
      simp [ht, hq, Consumer.hand] at ha

/-! ### The wait for a tool -/

variable {s s' : Checker W Record Event Info ε} {active rest : List ToolType}

/-- `DispatchParsed` waits for the tool `t`, and nobody takes `finishProduce_` back. -/
structure Waits (s : Checker W Record Event Info ε) (t : ToolType) (active rest : List ToolType) :
    Prop where
  committer : s.pipeline.committer = .committing
  dispatch : s.dispatch = .waiting active (t :: rest)
  direct : s.direct = .idle
  finishProduce : s.board.finishProduce = true

lemma Waits.tail (h : Waits s t active rest) (hf : Finishes config kinds s) :
    ∀ a, (s.board.tools t).workerArgs.getLast? = some a → a.isWork = true := by
  obtain ⟨out, -, hserves⟩ := hf.serves h.committer
  rw [h.dispatch] at hserves
  obtain ⟨-, hsub, hserved⟩ := hserves
  exact (hserved t (hsub List.mem_cons_self)).1.tail

variable [DecidableEq W] {parse : List Record → Except ε (List (List Event)) → Prop} {cap : ℕ}

/-- Until the wait is over nothing but the thread of the tool changes the tool. -/
lemma Waits.internal (h : Waits s t active rest) (hs : Internal config kinds parse s s') :
    (Waits s' t active rest ∧ (s'.board.tools t = s.board.tools t ∨
        Consume true (s.board.tools t) (s'.board.tools t))) ∨
      ((s.board.tools t).done = true ∧ s'.dispatch = .waiting active rest) := by
  obtain ⟨hcommitter, hdispatch, hdirect, hfinish⟩ := h
  cases hs with
  | pipeline p hp hc => exact .inl ⟨⟨hc.mp hcommitter, hdispatch, hdirect, hfinish⟩, .inl rfl⟩
  | commit ticket out hc hr =>
    rw [hcommitter] at hc
    cases hc
  | commitReturn waited hc hd =>
    rw [hdispatch] at hd
    cases hd
  | advance board dispatch ha =>
    rw [hdispatch] at ha
    cases ha with
    | pass active t rest hd => exact .inr ⟨hd, rfl⟩
  | advanceDirect board direct ha =>
    rw [hdirect] at ha
    cases ha
  | directReturn waited hd => exact .inl ⟨⟨hcommitter, hdispatch, rfl, hfinish⟩, .inl rfl⟩
  | consume u tool hc =>
    refine .inl ⟨⟨hcommitter, hdispatch, hdirect, hfinish⟩, ?_⟩
    by_cases hu : u = t
    · subst hu
      rw [hfinish] at hc
      rw [setTool_self]
      exact .inr hc
    · exact .inl (setTool_of_ne s.board (Ne.symm hu) tool)

/-- The clients do nothing to the tools while the pipeline is not drained. -/
lemma Waits.step (h : Waits s t active rest) (hno : s.pipeline.drains = false)
    (hs : Step config kinds parse cap s s') :
    Internal config kinds parse s s' ∨ (Waits s' t active rest ∧ s'.board = s.board) := by
  obtain ⟨hcommitter, hdispatch, hdirect, hfinish⟩ := h
  have hnot : s.pipeline.drains ≠ true := by simp [hno]
  cases hs with
  | internal hi => exact .inl hi
  | submit rs hne hstop hroom => exact .inr ⟨⟨hcommitter, hdispatch, hdirect, hfinish⟩, rfl⟩
  | capture hm hstop hroom => exact .inr ⟨⟨hcommitter, hdispatch, hdirect, hfinish⟩, rfl⟩
  | doRecord record events hd hp he => exact absurd hp hnot
  | setDeviceInfo type hp => exact absurd hp hnot
  | setKernelInfo dbi hp => exact absurd hp hnot
  | update u info hc hp => exact absurd hp hnot

/-- Nobody gets the dispatch out of the wait for a thread that was too fast. -/
lemma Waits.steps_missed (h : Waits s t active rest) (hm : (s.board.tools t).Missed)
    (hcap : cap < 2 ^ 32) (hinit : Steps config kinds parse cap {} s)
    (hs : Steps config kinds parse cap s s') :
    Waits s' t active rest ∧ (s'.board.tools t).Missed := by
  induction hs with
  | refl => exact ⟨h, hm⟩
  | @tail x y hrun hstep ih =>
    obtain ⟨hwaits, hmissed⟩ := ih
    have hno := not_drains (inv_of_steps (hinit.trans hrun)) hcap hwaits.committer
    rcases hwaits.step hno hstep with hi | ⟨hwaits', hboard⟩
    · rcases hwaits.internal hi with ⟨hwaits', heq | hc⟩ | ⟨hdone, -⟩
      · exact ⟨hwaits', heq ▸ hmissed⟩
      · exact ⟨hwaits', hc.missed hmissed⟩
      · rw [hmissed.done] at hdone
        cases hdone
    · exact ⟨hwaits', hboard ▸ hmissed⟩

/-! ### The steps that are left -/

def Consumer.weight {A : Type*} : Consumer A → ℕ
  | .ready => 0
  | .handling _ => 3
  | .consumed => 2
  | .marking => 1

def Tool.weight {A : Type*} (tool : Tool A) : ℕ :=
  4 * tool.workerArgs.length + tool.thread.weight

/-- An entry that is put into a queue counts five. -/
def Dispatch.weight {A : Type*} : Dispatch A → ℕ
  | .idle => 0
  | .starting _ _ active => 6 * active.length + 6
  | .pushing _ _ active rest => 5 * rest.length + active.length + 3
  | .waiting _ rest => rest.length + 2
  | .returning _ => 1

def Board.weight {A : Type*} (b : Board A) : ℕ :=
  (b.tools .memcheck).weight + (b.tools .racecheck).weight + (b.tools .synccheck).weight +
    (b.tools .registercheck).weight

/-- An output on its way through the pipeline counts as much as its entries for four tools. -/
def Checker.weight [Fintype W] (s : Checker W Record Event Info ε) : ℕ :=
  31 * ParsePipeline.weight s.pipeline + s.dispatch.weight + s.direct.weight + s.board.weight

lemma Consume.weight_lt (h : Consume finishProduce tool tool') : tool'.weight < tool.weight := by
  cases h with
  | pop args rest ht hq =>
    simp only [Tool.weight, Consumer.weight, ht, hq, List.length_cons]
    omega
  | handle args ht => cases args.isWork <;> simp [Tool.weight, Consumer.weight, ht]
  | readFinishProduce ht => cases finishProduce <;> simp [Tool.weight, Consumer.weight, ht]
  | waitAfterConsumed ht => simp [Tool.weight, Consumer.weight, ht]

lemma weight_setTool (b : Board (WorkArgs Record Event Info)) (t : ToolType) (tool) :
    (b.setTool t tool).weight + (b.tools t).weight = b.weight + tool.weight := by
  cases t <;> simp only [Board.weight, Board.setTool, Function.update_self, ne_eq, reduceCtorEq,
    not_false_eq_true, Function.update_of_ne] <;> omega

lemma weight_push (b : Board (WorkArgs Record Event Info)) (t : ToolType) (args) :
    (b.push t args).weight = b.weight + 4 := by
  unfold Board.push
  have hsum := weight_setTool b t
    { b.tools t with
      done := (b.tools t).done && !args.isWork
      workerArgs := (b.tools t).workerArgs ++ [args] }
  generalize b.setTool t _ = b' at hsum ⊢
  simp only [Tool.weight, List.length_append, List.length_singleton] at hsum
  omega

lemma Advance.weight_lt (h : Advance b d b' d') : d'.weight + b'.weight < d.weight + b.weight := by
  cases h with
  | completion promise fin active =>
    rw [weight_push]
    simp only [Dispatch.weight]
    omega
  | start args fin active hw =>
    simp only [Dispatch.weight, Board.weight]
    omega
  | push args fin active t rest =>
    rw [weight_push]
    simp only [Dispatch.weight, List.length_cons]
    omega
  | pushed args active =>
    simp only [Dispatch.weight]
    omega
  | finish args active =>
    simp only [Dispatch.weight, Board.weight, List.length_nil]
    omega
  | pass active t rest hd =>
    simp only [Dispatch.weight, List.length_cons]
    omega
  | passed active =>
    simp only [Dispatch.weight, List.length_nil]
    omega

lemma Internal.weight_lt [Fintype W] (h : Internal config kinds parse s s') :
    s'.weight < s.weight := by
  cases h with
  | pipeline p hp hc =>
    have hlt := ParsePipeline.weight_lt hp
    simp only [Checker.weight]
    omega
  | commit ticket out hc hr =>
    have hstep : ParsePipeline.Internal (Parses parse) s.pipeline (s.pipeline.commit out) :=
      .commit ticket out hc hr
    have hlt := ParsePipeline.weight_lt hstep
    have hle := length_active_le config s
    simp only [Checker.weight, Dispatch.weight]
    omega
  | commitReturn waited hc hd =>
    have hstep : ParsePipeline.Internal (Parses parse) s.pipeline
      { s.pipeline with committer := .counting } := .commitReturn hc
    have hlt := ParsePipeline.weight_lt hstep
    dsimp only at hlt
    simp only [Checker.weight, Dispatch.weight]
    omega
  | advance board dispatch ha =>
    have hlt := ha.weight_lt
    simp only [Checker.weight]
    omega
  | advanceDirect board direct ha =>
    have hlt := ha.weight_lt
    simp only [Checker.weight]
    omega
  | directReturn waited hd =>
    simp only [Checker.weight, hd, Dispatch.weight]
    omega
  | consume t tool hc =>
    have hlt := hc.weight_lt
    have hsum := weight_setTool s.board t tool
    simp only [Checker.weight]
    omega

/-! ### Runs -/

lemma steps_of_internal
    (h : Relation.ReflTransGen (Internal config kinds parse) s s') :
    Steps config kinds parse cap s s' :=
  Relation.ReflTransGen.mono (fun _ _ => .internal) _ _ h

/-- **The wait at the end of a kernel.** In every run in which `DispatchParsed` waits for a tool,
while `finishProduce_` is set and no other call of `Do` is under way: if the thread of the tool has
read the flag after its last work before it was set, then the dispatch never gets out of this wait,
whatever the threads and the clients do. Otherwise it does: the threads come to rest after a bounded
number of steps, and every run of theirs that is at rest at its end has passed the wait. -/
theorem wait_ends [Fintype W] (hcap : cap < 2 ^ 32) (hs : Steps config kinds parse cap {} s)
    (hwait : s.dispatch = .waiting active (t :: rest)) (hdirect : s.direct = .idle)
    (hfinish : s.board.finishProduce = true) :
    ((s.board.tools t).Missed →
      ∀ s', Steps config kinds parse cap s s' → s'.dispatch = .waiting active (t :: rest)) ∧
    (¬ (s.board.tools t).Missed →
      (∃ bound, ∀ l, List.IsChain (Internal config kinds parse) (s :: l) → l.length ≤ bound) ∧
      ∀ s', Relation.ReflTransGen (Internal config kinds parse) s s' →
        (∀ s'', ¬ Internal config kinds parse s' s'') →
        ∃ m, Relation.ReflTransGen (Internal config kinds parse) s m ∧
          Relation.ReflTransGen (Internal config kinds parse) m s' ∧
          m.dispatch = .waiting active rest) := by
  have hcommitter : s.pipeline.committer = .committing := by
    by_contra hno
    rw [(told_init.steps hs).idle hno] at hwait
    cases hwait
  have hwaits : Waits s t active rest := ⟨hcommitter, hwait, hdirect, hfinish⟩
  refine ⟨fun hm s' hs' => (hwaits.steps_missed hm hcap hs hs').1.dispatch, fun hn => ⟨?_, ?_⟩⟩
  · exact ⟨s.weight, fun l hl =>
      RankedRuns.length_le_of_isChain Checker.weight (fun _ _ h => h.weight_lt) hl⟩
  · intro s' hs' hrest
    refine RankedRuns.reaches_of_rest
      (fun x => Waits x t active rest ∧ ¬ (x.board.tools t).Missed)
      (fun x => x.dispatch = .waiting active rest)
      (fun x y hx hwx hxy => ?_) (fun x _ hwx => ?_) ⟨hwaits, hn⟩ hs' hrest
    · obtain ⟨hwx, hnx⟩ := hwx
      rcases hwx.internal hxy with ⟨hwy, heq | hc⟩ | ⟨-, hpassed⟩
      · exact .inl ⟨hwy, heq ▸ hnx⟩
      · have htail := hwx.tail (finishes_run hcap (hs.trans (steps_of_internal hx)))
        exact .inl ⟨hwy, hc.not_missed htail hnx⟩
      · exact .inr hpassed
    · obtain ⟨hwx, hnx⟩ := hwx
      cases hd : (x.board.tools t).done with
      | true =>
        refine ⟨_, .advance x.board (.waiting active rest) ?_⟩
        rw [hwx.dispatch]
        exact .pass active t rest hd
      | false =>
        obtain ⟨tool, htool⟩ := consume_of_not_missed x.board.finishProduce hnx hd
        exact ⟨_, .consume t tool htool⟩

/-- The thread of the only tool is done with the last block before `finishProduce_` is set. -/
theorem wait_ends_lastBlock : ∃ s : Checker (Fin 1) ℕ ℕ Unit String,
    Steps {} numberKinds parsesNothing 1 {} s ∧
      ∀ s', Steps {} numberKinds parsesNothing 1 s s' →
        s'.dispatch = .waiting [.memcheck] [.memcheck] := by
  obtain ⟨s, hs, hwait, hdirect, hfinish, hm⟩ : ∃ s : Checker (Fin 1) ℕ ℕ Unit String,
      Steps {} numberKinds parsesNothing 1 {} s ∧
        s.dispatch = .waiting [.memcheck] [.memcheck] ∧ s.direct = .idle ∧
        s.board.finishProduce = true ∧ (s.board.tools .memcheck).Missed :=
    ⟨_, .tail (.tail (.tail (.tail steps_lastBlock
      (.internal (.consume .memcheck _ (.pop (.kernelBlockArrived [0] [[]]) [] rfl rfl))))
      (.internal (.consume .memcheck _ (.handle (.kernelBlockArrived [0] [[]]) rfl))))
      (.internal (.consume .memcheck _ (.readFinishProduce rfl))))
      (.internal (.advance _ _ (.finish (.kernelBlockArrived [0] [[]]) [.memcheck]))),
      rfl, rfl, rfl, ⟨rfl, fun a ha => (by cases ha), (by rintro ⟨⟩), (by rintro ⟨⟩)⟩⟩
  exact ⟨s, hs, (wait_ends (by norm_num) hs hwait hdirect hfinish).1 hm⟩

end MsSanitizer.CheckerQueues
