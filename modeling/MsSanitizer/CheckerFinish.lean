import MsSanitizer.CheckerOrder

/-!
# The end of a kernel

With the last block of a kernel `DispatchParsed` waits until every tool has emptied its queue. What
it waits for is a flag that the thread of the tool sets, if it finds `finishProduce_` set after its
work. So the wait is not left too early, and it is left at all if no thread was too early.
-/

namespace MsSanitizer.CheckerQueues

open MsSanitizer.ParsePipeline

variable {W Record Event Info ε : Type*} {config : Config} {kinds : Kinds Record}
variable {b b' : Board (WorkArgs Record Event Info)} {d d' : Dispatch (WorkArgs Record Event Info)}
variable {args : WorkArgs Record Event Info} {t : ToolType} {out : ParseOut Record Event}
variable {finishProduce : Bool} {tool tool' : Tool (WorkArgs Record Event Info)}

/-! ### Tools without work -/

/-- Nothing in the queue or the hand of a tool is work. -/
def Tool.Clear (tool : Tool (WorkArgs Record Event Info)) : Prop :=
  ∀ a ∈ tool.thread.hand ++ tool.workerArgs, a.isWork = false

def DoneClear (b : Board (WorkArgs Record Event Info)) : Prop :=
  ∀ t, (b.tools t).done = true → (b.tools t).Clear

lemma Consume.doneClear (h : Consume finishProduce tool tool')
    (hd : tool.done = true → tool.Clear) : tool'.done = true → tool'.Clear := by
  intro hdone
  cases h with
  | pop args rest ht hq =>
    have hclear := hd hdone
    simpa [Tool.Clear, Consumer.hand, ht, hq] using hclear
  | handle args ht =>
    intro a ha
    refine hd hdone a (List.mem_append_right _ ?_)
    cases hw : args.isWork <;> simpa [Consumer.hand, hw] using ha
  | readFinishProduce ht =>
    intro a ha
    refine hd hdone a (List.mem_append_right _ ?_)
    cases finishProduce <;> simpa [Consumer.hand] using ha
  | waitAfterConsumed ht =>
    intro a ha
    have hmem : a ∈ tool.workerArgs := by simpa [Consumer.hand] using ha
    rcases Bool.or_eq_true_iff.mp hdone with hold | hempty
    · exact hd hold a (List.mem_append_right _ hmem)
    · rw [List.isEmpty_iff.mp hempty] at hmem
      cases hmem

lemma DoneClear.setTool (h : DoneClear b) (hd : tool.done = true → tool.Clear) :
    DoneClear (b.setTool t tool) := by
  intro u
  by_cases hu : u = t
  · subst hu
    rwa [setTool_self]
  · rw [setTool_of_ne b hu]
    exact h u

lemma DoneClear.push (h : DoneClear b) : DoneClear (b.push t args) := by
  refine h.setTool fun hd a ha => ?_
  obtain ⟨hdone, hw⟩ := Bool.and_eq_true_iff.mp hd
  rw [← List.append_assoc] at ha
  rcases List.mem_append.mp ha with ha | ha
  · exact h t hdone a ha
  · rw [List.mem_singleton.mp ha]
    simpa using hw

lemma DoneClear.advance (h : DoneClear b) (ha : Advance b d b' d') : DoneClear b' := by
  cases ha with
  | completion promise => exact h.push
  | push args fin active u rest => exact h.push
  | _ => exact h

/-! ### Blocks -/

def WorkArgs.block : WorkArgs Record Event Info → Option (List Record × List (List Event))
  | .kernelBlockArrived rs events => some (rs, events)
  | _ => none

def ParseOut.block : ParseOut Record Event → Option (List Record × List (List Event))
  | .records rs events => some (rs, events)
  | .completion _ => none

@[simp] lemma block_workArgs (out : ParseOut Record Event) :
    (out.workArgs : WorkArgs Record Event Info).block = out.block := by
  cases out <;> rfl

lemma block_of_not_isWork (h : args.isWork = false) : args.block = none := by
  cases args <;> first | rfl | cases h

lemma block_of_parsed (h : args.parsed = none) : args.block = none := by
  cases args <;> first | rfl | cases h

def blocks (l : List (WorkArgs Record Event Info)) : List (List Record × List (List Event)) :=
  l.filterMap WorkArgs.block

lemma blocks_append (l l' : List (WorkArgs Record Event Info)) :
    blocks (l ++ l') = blocks l ++ blocks l' := List.filterMap_append

lemma blocks_concat (l : List (WorkArgs Record Event Info)) (args) :
    blocks (l ++ [args]) = blocks l ++ args.block.toList := by
  rw [blocks_append]
  cases h : args.block <;> simp [blocks, h]

def Tool.AllHandled (tool : Tool (WorkArgs Record Event Info)) : Prop :=
  blocks tool.handled = blocks tool.delivered

lemma Tool.Clear.allHandled (h : tool.Clear) : tool.AllHandled := by
  have hnil : blocks (tool.thread.hand ++ tool.workerArgs) = [] := by
    rw [blocks, List.filterMap_eq_nil_iff]
    exact fun a ha => block_of_not_isWork (h a ha)
  rw [Tool.AllHandled, Tool.delivered, List.append_assoc, blocks_append, hnil, List.append_nil]

/-- A tool has got the block of an output, and nothing but work since. -/
structure Served (tool : Tool (WorkArgs Record Event Info)) (out : ParseOut Record Event) :
    Prop where
  last : (blocks tool.delivered).getLast? = out.block
  tail : ∀ a, tool.workerArgs.getLast? = some a → a.isWork = true

lemma Consume.served (h : Consume finishProduce tool tool') (hs : Served tool out) :
    Served tool' out := by
  refine ⟨by rw [h.spec.1]; exact hs.last, fun a ha => ?_⟩
  cases h with
  | pop args rest ht hq =>
    refine hs.tail a ?_
    rw [hq, List.getLast?_cons]
    rw [show rest.getLast? = some a from ha]
    rfl
  | handle args ht => exact hs.tail a ha
  | readFinishProduce ht => exact hs.tail a ha
  | waitAfterConsumed ht => exact hs.tail a ha

lemma Consume.allHandled (h : Consume finishProduce tool tool') (hs : tool.AllHandled) :
    tool'.AllHandled := by
  have hle := (h.spec.2.filterMap WorkArgs.block).length_le
  have hpre := (handled_prefix_delivered tool').filterMap WorkArgs.block
  refine hpre.eq_of_length (le_antisymm hpre.length_le ?_)
  rw [h.spec.1]
  exact (congrArg List.length hs).ge.trans hle

lemma served_push (hw : args.isWork = true) (hp : args.parsed = none) {u : ToolType}
    (hs : Served (b.tools u) out) : Served ((b.push t args).tools u) out := by
  refine ⟨?_, fun a ha => ?_⟩
  · rw [push_delivered]
    split_ifs
    · rw [blocks_concat, block_of_parsed hp, Option.toList_none, List.append_nil]
      exact hs.last
    · rw [List.append_nil]
      exact hs.last
  · unfold Board.push at ha
    by_cases hu : u = t
    · subst hu
      rw [setTool_self] at ha
      rw [List.getLast?_concat] at ha
      cases ha
      exact hw
    · rw [setTool_of_ne b hu] at ha
      exact hs.tail a ha

lemma allHandled_push (hp : args.parsed = none) {u : ToolType}
    (hs : (b.tools u).AllHandled) : ((b.push t args).tools u).AllHandled := by
  rw [Tool.AllHandled, (push_frame b t args u).1, push_delivered]
  split_ifs
  · rw [blocks_concat, block_of_parsed hp, Option.toList_none, List.append_nil]
    exact hs
  · rw [List.append_nil]
    exact hs

/-- A dispatch of a record leaves what the tools were given of blocks. -/
lemma Advance.ofRecord_frame (h : Advance b d b' d') (hr : d.OfRecord) (u : ToolType) :
    (∀ out, Served (b.tools u) out → Served (b'.tools u) out) ∧
      ((b.tools u).AllHandled → (b'.tools u).AllHandled) := by
  cases h with
  | completion promise fin active => exact absurd hr.2 (by simp [WorkArgs.parsed])
  | push args fin active v rest => exact ⟨fun _ => served_push hr.1 hr.2, allHandled_push hr.2⟩
  | _ => exact ⟨fun _ => id, id⟩

/-! ### The dispatch of a block -/

/-- What the dispatch of an output has done so far. The wait at the end of a kernel is for the tools
in `active`. -/
def Serves (kinds : Kinds Record) (b : Board (WorkArgs Record Event Info)) (active : List ToolType)
    (out : ParseOut Record Event) : Dispatch (WorkArgs Record Event Info) → Prop
  | .idle => True
  | .starting args fin tools =>
    args = out.workArgs ∧ fin = out.isKernelFinish kinds ∧ tools = active
  | .pushing args fin tools rest =>
    args = out.workArgs ∧ args.isWork = true ∧ fin = out.isKernelFinish kinds ∧ tools = active ∧
      ∀ t ∈ active, t ∉ rest → Served (b.tools t) out
  | .waiting tools rest =>
    tools = active ∧ rest ⊆ active ∧
      ∀ t ∈ active, Served (b.tools t) out ∧ (t ∉ rest → (b.tools t).AllHandled)
  | .returning waited =>
    (out.isKernelFinish kinds = true → waited = active) ∧
      ∀ t ∈ waited, Served (b.tools t) out ∧ (b.tools t).AllHandled

variable {active : List ToolType}

lemma Serves.frame (h : Serves kinds b active out d)
    (hs : ∀ t, Served (b.tools t) out → Served (b'.tools t) out)
    (ha : ∀ t, (b.tools t).AllHandled → (b'.tools t).AllHandled) :
    Serves kinds b' active out d := by
  cases d with
  | idle => trivial
  | starting args fin tools => exact h
  | pushing args fin tools rest =>
    obtain ⟨hargs, hw, hfin, htools, hserved⟩ := h
    exact ⟨hargs, hw, hfin, htools, fun t ht hrest => hs t (hserved t ht hrest)⟩
  | waiting tools rest =>
    obtain ⟨htools, hsub, hserved⟩ := h
    exact ⟨htools, hsub, fun t ht =>
      ⟨hs t (hserved t ht).1, fun hrest => ha t ((hserved t ht).2 hrest)⟩⟩
  | returning waited =>
    exact ⟨h.1, fun t ht => ⟨hs t (h.2 t ht).1, ha t (h.2 t ht).2⟩⟩

lemma served_push_block (hargs : args = out.workArgs) (hw : args.isWork = true) :
    Served ((b.push t args).tools t) out := by
  refine ⟨?_, fun a ha => ?_⟩
  · rw [push_delivered, if_pos rfl, blocks_concat, hargs, block_workArgs]
    rw [hargs] at hw
    cases out with
    | records rs events => simp [ParseOut.block]
    | completion promise => cases hw
  · unfold Board.push at ha
    rw [setTool_self, List.getLast?_concat] at ha
    cases ha
    exact hw

lemma Serves.advance (h : Serves kinds b active out d) (hd : DoneClear b)
    (ha : Advance b d b' d') : Serves kinds b' active out d' := by
  cases ha with
  | completion promise fin tools =>
    refine ⟨fun hfin => ?_, fun t ht => by cases ht⟩
    obtain ⟨hargs, -⟩ := h
    cases out with
    | records rs events => cases hargs
    | completion promise => cases hfin
  | start args fin tools hw =>
    obtain ⟨hargs, hfin, htools⟩ := h
    exact ⟨hargs, hw, hfin, htools, fun t ht hno => absurd (htools ▸ ht) hno⟩
  | push args fin tools u rest =>
    obtain ⟨hargs, hw, hfin, htools, hserved⟩ := h
    refine ⟨hargs, hw, hfin, htools, fun t ht hrest => ?_⟩
    by_cases htu : t = u
    · subst htu
      exact served_push_block hargs hw
    · have hold := hserved t ht (by simp [htu, hrest])
      unfold Board.push
      rwa [setTool_of_ne b htu]
  | pushed args tools =>
    obtain ⟨-, -, hfin, -, -⟩ := h
    refine ⟨fun hyes => ?_, fun t ht => by cases ht⟩
    rw [← hfin] at hyes
    cases hyes
  | finish args tools =>
    obtain ⟨-, -, -, rfl, hserved⟩ := h
    exact ⟨rfl, List.Subset.refl _, fun t ht =>
      ⟨hserved t ht List.not_mem_nil, fun hno => absurd ht hno⟩⟩
  | pass tools u rest hdone =>
    obtain ⟨htools, hsub, hserved⟩ := h
    refine ⟨htools, fun t ht => hsub (List.mem_cons_of_mem _ ht), fun t ht =>
      ⟨(hserved t ht).1, fun hrest => ?_⟩⟩
    by_cases htu : t = u
    · subst htu
      exact (hd t hdone).allHandled
    · exact (hserved t ht).2 (by simp [htu, hrest])
  | passed tools =>
    obtain ⟨rfl, -, hserved⟩ := h
    exact ⟨fun _ => rfl, fun t ht => ⟨(hserved t ht).1, (hserved t ht).2 List.not_mem_nil⟩⟩

/-! ### Runs -/

section

variable {s s' : Checker W Record Event Info ε}

/-- While the committer is in `DispatchParsed` the pipeline is not drained. -/
lemma not_drains {Parses : ParseTask Record → Except ε (ParseOut Record Event) → Prop} {cap : ℕ}
    {p : Pipeline W (ParseTask Record) (ParseOut Record Event) ε} (h : Inv Parses cap p)
    (hcap : cap < 2 ^ 32) (hc : p.committer = .committing) : p.drains = false := by
  obtain ⟨-, n, hord⟩ := h
  obtain ⟨c, hcn, hcom⟩ := hord.committed
  have htot := hord.total
  have hroom := hord.room
  simp only [hc, Committer.held] at hcn
  unfold Pipeline.drains
  rw [hcom, hord.submitted, beq_eq_false_iff_ne]
  omega

/-- What holds of the last output while the committer hands it on, and afterwards. -/
structure Finishes (config : Config) (kinds : Kinds Record) (s : Checker W Record Event Info ε) :
    Prop where
  done : DoneClear s.board
  serves : s.pipeline.committer = .committing →
    ∃ out, s.pipeline.log.getLast? = some out ∧
      Serves kinds s.board (s.active config) out s.dispatch
  settled : s.pipeline.committer ≠ .committing → config.creates .memcheck = true →
    ∀ out, s.pipeline.log.getLast? = some out → out.isKernelFinish kinds = true →
      (s.board.tools .memcheck).AllHandled

lemma finishes_init : Finishes config kinds ({} : Checker W Record Event Info ε) where
  done := fun _ _ a ha => by cases ha
  serves := fun hc => by cases hc
  settled := fun _ _ out hout => by cases hout

lemma Finishes.frame (h : Finishes config kinds s) (hdone : DoneClear s'.board)
    (hlog : s'.pipeline.log = s.pipeline.log)
    (hc : s'.pipeline.committer = .committing ↔ s.pipeline.committer = .committing)
    (hall : ∀ t, (s.board.tools t).AllHandled → (s'.board.tools t).AllHandled)
    (hserved : s.pipeline.committer = .committing → s'.active config = s.active config ∧
      s'.dispatch = s.dispatch ∧
      ∀ t out, Served (s.board.tools t) out → Served (s'.board.tools t) out) :
    Finishes config kinds s' where
  done := hdone
  serves := by
    intro hcommitting
    obtain ⟨out, hout, hserves⟩ := h.serves (hc.mp hcommitting)
    obtain ⟨hactive, hdispatch, hkept⟩ := hserved (hc.mp hcommitting)
    refine ⟨out, hlog ▸ hout, ?_⟩
    rw [hactive, hdispatch]
    exact hserves.frame (fun t => hkept t out) hall
  settled := fun hno hm out hout hfin =>
    hall _ (h.settled (hc.not.mp hno) hm out (hlog ▸ hout) hfin)

lemma block_of_parsed_eq (args : WorkArgs Record Event Info) :
    args.block = args.parsed.bind ParseOut.block := by
  cases args <;> rfl

/-- The memory check was given the blocks that the pipeline has handed on. -/
lemma blocks_delivered (htold : Told config s) (hm : config.creates .memcheck = true)
    (hd : s.dispatch.pending .memcheck = []) : blocks (s.board.tools .memcheck).delivered =
      s.pipeline.log.filterMap ParseOut.block := by
  rw [← htold.memcheck hm, hd, List.append_nil, List.filterMap_filterMap, blocks]
  simp only [block_of_parsed_eq]

variable [DecidableEq W] {parse : List Record → Except ε (List (List Event)) → Prop} {cap : ℕ}

lemma Finishes.internal (h : Finishes config kinds s) (htold : Told config s)
    (hs : Internal config kinds parse s s') : Finishes config kinds s' := by
  cases hs with
  | pipeline p hp hc =>
    exact h.frame h.done (quiet_frame hp hc).1 hc.symm (fun _ => id)
      fun _ => ⟨rfl, rfl, fun _ _ => id⟩
  | commit ticket out hc hr =>
    refine ⟨h.done, fun _ => ⟨out, ?_, rfl, rfl, rfl⟩, fun hno => absurd rfl hno⟩
    exact List.getLast?_concat
  | commitReturn waited hc hd =>
    refine ⟨h.done, fun hcom => (by cases hcom), fun _ hm out hout hfin => ?_⟩
    obtain ⟨out', hout', hserves⟩ := h.serves hc
    obtain rfl : out' = out := Option.some.inj (hout'.symm.trans hout)
    rw [hd] at hserves
    have hmem : ToolType.memcheck ∈ waited := hserves.1 hfin ▸ memcheck_mem_active s hm
    exact (hserves.2 _ hmem).2
  | advance board dispatch ha =>
    have hcom : s.pipeline.committer = .committing := by
      by_contra hno
      rw [htold.idle hno] at ha
      cases ha
    obtain ⟨out, hout, hserves⟩ := h.serves hcom
    exact ⟨h.done.advance ha, fun _ => ⟨out, hout, hserves.advance h.done ha⟩,
      fun hno => absurd hcom hno⟩
  | advanceDirect board direct ha =>
    exact h.frame (h.done.advance ha) rfl Iff.rfl
      (fun t => (ha.ofRecord_frame htold.direct.2 t).2)
      fun _ => ⟨rfl, rfl, fun t => (ha.ofRecord_frame htold.direct.2 t).1⟩
  | directReturn waited hd =>
    exact h.frame h.done rfl Iff.rfl (fun _ => id) fun _ => ⟨rfl, rfl, fun _ _ => id⟩
  | consume t tool hc =>
    refine h.frame (h.done.setTool (hc.doneClear (h.done t))) rfl Iff.rfl (fun u hall => ?_)
      fun _ => ⟨rfl, rfl, fun u out hserved => ?_⟩
    · by_cases hu : u = t
      · subst hu
        rw [setTool_self]
        exact hc.allHandled hall
      · rwa [setTool_of_ne s.board hu]
    · by_cases hu : u = t
      · subst hu
        rw [setTool_self]
        exact hc.served hserved
      · rwa [setTool_of_ne s.board hu]

lemma Finishes.step (h : Finishes config kinds s) (htold : Told config s)
    (hinv : Inv (Parses parse) cap s.pipeline) (hcap : cap < 2 ^ 32)
    (hs : Step config kinds parse cap s s') : Finishes config kinds s' := by
  have hno : s.pipeline.drains = true → s.pipeline.committer ≠ .committing := by
    intro hp hc
    rw [not_drains hinv hcap hc] at hp
    cases hp
  cases hs with
  | internal hi => exact h.internal htold hi
  | submit rs hne hstop hroom =>
    exact h.frame h.done rfl Iff.rfl (fun _ => id) fun _ => ⟨rfl, rfl, fun _ _ => id⟩
  | capture hm hstop hroom =>
    exact h.frame h.done rfl Iff.rfl (fun _ => id) fun _ => ⟨rfl, rfl, fun _ _ => id⟩
  | doRecord record events hd hp he =>
    exact h.frame h.done rfl Iff.rfl (fun _ => id) fun _ => ⟨rfl, rfl, fun _ _ => id⟩
  | setDeviceInfo type hp =>
    exact h.frame h.done rfl Iff.rfl (fun _ => id) fun hc => absurd hc (hno hp)
  | setKernelInfo dbi hp =>
    exact h.frame h.done rfl Iff.rfl (fun _ => id) fun hc => absurd hc (hno hp)
  | update t info hc hp =>
    exact h.frame h.done.push rfl Iff.rfl (fun _ => allHandled_push rfl)
      fun hc => absurd hc (hno hp)

lemma finishes_run (hcap : cap < 2 ^ 32) (hs : Steps config kinds parse cap {} s) :
    Finishes config kinds s := by
  induction hs with
  | refl => exact finishes_init
  | tail hrun hstep ih => exact ih.step (told_init.steps hrun) (inv_of_steps hrun) hcap hstep

/-- **No check of a kernel is outstanding at its end.** In every run, whatever the threads and the
clients do: when `DispatchParsed` returns with the last block of a kernel, it has waited for all
tools that take part, and each of them has this block and has handled it and every block before.
From then on until the committer hands on something else, and so when a caller of `Do` comes back
from `Drain`, the memory check has handled every block that came out of the pipeline. -/
theorem finish_after_checks (hcap : cap < 2 ^ 32) (hs : Steps config kinds parse cap {} s)
    (hout : s.pipeline.log.getLast? = some out) (hfin : out.isKernelFinish kinds = true) :
    (∀ waited, s.dispatch = .returning waited → waited = s.active config ∧ ∀ t ∈ waited,
      (blocks (s.board.tools t).handled).getLast? = out.block ∧
        blocks (s.board.tools t).handled = blocks (s.board.tools t).delivered) ∧
    (config.creates .memcheck = true →
      (∃ waited, s.dispatch = .returning waited) ∨ s.pipeline.committer ≠ .committing →
        blocks (s.board.tools .memcheck).handled = s.pipeline.log.filterMap ParseOut.block) ∧
    (s.pipeline.drains = true → s.pipeline.committer ≠ .committing) := by
  have htold := told_init.steps hs
  have hfinishes := finishes_run hcap hs
  have hreturn : ∀ waited, s.dispatch = .returning waited → waited = s.active config ∧
      ∀ t ∈ waited, Served (s.board.tools t) out ∧ (s.board.tools t).AllHandled := by
    intro waited hd
    have hcom : s.pipeline.committer = .committing := by
      by_contra hno
      rw [htold.idle hno] at hd
      cases hd
    obtain ⟨out', hout', hserves⟩ := hfinishes.serves hcom
    obtain rfl : out' = out := Option.some.inj (hout'.symm.trans hout)
    rw [hd] at hserves
    exact ⟨hserves.1 hfin, hserves.2⟩
  refine ⟨fun waited hd => ?_, fun hm hwhen => ?_, fun hdrains hc => ?_⟩
  · obtain ⟨hwaited, htools⟩ := hreturn waited hd
    refine ⟨hwaited, fun t ht => ?_⟩
    obtain ⟨hserved, hall⟩ := htools t ht
    exact ⟨hall ▸ hserved.last, hall⟩
  · rcases hwhen with ⟨waited, hd⟩ | hno
    · obtain ⟨rfl, htools⟩ := hreturn waited hd
      have hall := (htools _ (memcheck_mem_active s hm)).2
      exact hall.trans (blocks_delivered htold hm (by rw [hd]; rfl))
    · have hall := hfinishes.settled hno hm out hout hfin
      exact hall.trans (blocks_delivered htold hm (by rw [htold.idle hno]; rfl))
  · rw [not_drains (inv_of_steps hs) hcap hc] at hdrains
    cases hdrains

end

/-! ### The end of a kernel of one block -/

/-- One tool has got the last block of a kernel, and `finishProduce_` is not set yet. -/
def lastBlock : Checker (Fin 1) ℕ ℕ Unit String where
  pipeline :=
    (((Pipeline.submit {} (.records [0])).takeJob w₀ (0, .records [0]) []).runJob w₀ 0
      (.ok (.records [0] [[]]))).takeFuture 0 [] |>.commit (.records [0] [[]])
  board := Board.push {} .memcheck (.kernelBlockArrived [0] [[]])
  dispatch := .pushing (.kernelBlockArrived [0] [[]]) true [.memcheck] []

lemma steps_lastBlock : Steps {} numberKinds parsesNothing 1 {} lastBlock := by
  refine .tail (.tail (.tail (.tail (.tail (.tail (.tail .refl
    (.submit [0] (by decide) rfl (by decide)))
    (.internal (.pipeline _ (.takeJob w₀ (0, ParseTask.records [0]) [] rfl rfl) Iff.rfl)))
    (.internal (.pipeline _ (.runJob w₀ 0 (ParseTask.records [0]) _ rfl
      (.records [0] (.ok [[]]) rfl)) Iff.rfl)))
    (.internal (.pipeline _ (.takeFuture 0 [] rfl rfl) (by constructor <;> rintro ⟨⟩))))
    (.internal (.commit 0 (.records [0] [[]]) rfl rfl)))
    (.internal (.advance _ _ (.start (.kernelBlockArrived [0] [[]]) true [.memcheck] rfl))))
    (.internal (.advance _ _ (.push (.kernelBlockArrived [0] [[]]) true [.memcheck]
      .memcheck [])))

theorem finish_after_checks_lastBlock : ∃ s : Checker (Fin 1) ℕ ℕ Unit String,
    s.dispatch = .returning [.memcheck] ∧
      blocks (s.board.tools .memcheck).handled = [([0], [[]])] := by
  obtain ⟨s, hs, hd, hlog⟩ : ∃ s : Checker (Fin 1) ℕ ℕ Unit String,
      Steps {} numberKinds parsesNothing 1 {} s ∧ s.dispatch = .returning [.memcheck] ∧
        s.pipeline.log = [.records [0] [[]]] :=
    ⟨_, .tail (.tail (.tail (.tail (.tail (.tail (.tail steps_lastBlock
      (.internal (.advance _ _ (.finish (.kernelBlockArrived [0] [[]]) [.memcheck]))))
      (.internal (.consume .memcheck _ (.pop (.kernelBlockArrived [0] [[]]) [] rfl rfl))))
      (.internal (.consume .memcheck _ (.handle (.kernelBlockArrived [0] [[]]) rfl))))
      (.internal (.consume .memcheck _ (.readFinishProduce rfl))))
      (.internal (.consume .memcheck _ (.waitAfterConsumed rfl))))
      (.internal (.advance _ _ (.pass [.memcheck] .memcheck [] rfl))))
      (.internal (.advance _ _ (.passed [.memcheck]))), rfl, rfl⟩
  have hall := (finish_after_checks (by norm_num) hs (by rw [hlog]; rfl) rfl).2.1 rfl
    (.inl ⟨_, hd⟩)
  exact ⟨s, hd, by rw [hall, hlog]; rfl⟩

end MsSanitizer.CheckerQueues
