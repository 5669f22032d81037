import MsSanitizer.CheckerQueues

/-!
# The order in which tools are told

Whatever the threads do, a tool handles a part of what the pipeline has handed on, in its order, and
the memory check all of it. So a completion is reached when everything before it has been checked.
-/

namespace MsSanitizer.CheckerQueues

open MsSanitizer.ParsePipeline

variable {W Record Event Info ε : Type*} {config : Config} {kinds : Kinds Record}
variable {b b' : Board (WorkArgs Record Event Info)} {d d' : Dispatch (WorkArgs Record Event Info)}
variable {args : WorkArgs Record Event Info} {t : ToolType}

/-! ### Queues -/

section

variable {A : Type*} (b : Board A)

@[simp] lemma setTool_self (t : ToolType) (tool : Tool A) : (b.setTool t tool).tools t = tool :=
  Function.update_self _ _ _

lemma setTool_of_ne {t u : ToolType} (h : u ≠ t) (tool : Tool A) :
    (b.setTool t tool).tools u = b.tools u := Function.update_of_ne h _ _

lemma handled_prefix_delivered (tool : Tool A) : tool.handled <+: tool.delivered :=
  (List.prefix_append _ _).trans (List.prefix_append _ _)

end

lemma push_delivered (b : Board (WorkArgs Record Event Info)) (t : ToolType)
    (args : WorkArgs Record Event Info) (u : ToolType) :
    ((b.push t args).tools u).delivered =
      (b.tools u).delivered ++ if u = t then [args] else [] := by
  unfold Board.push
  by_cases h : u = t
  · subst h
    simp [Tool.delivered]
  · rw [setTool_of_ne b h, if_neg h, List.append_nil]

lemma push_frame (b : Board (WorkArgs Record Event Info)) (t : ToolType)
    (args : WorkArgs Record Event Info) (u : ToolType) :
    ((b.push t args).tools u).handled = (b.tools u).handled ∧
      ((b.push t args).tools u).thread = (b.tools u).thread := by
  unfold Board.push
  by_cases h : u = t
  · subst h
    simp
  · rw [setTool_of_ne b h]
    exact ⟨rfl, rfl⟩

/-- A thread moves what was delivered along and handles more of it. -/
lemma Consume.spec {finishProduce : Bool} {tool tool' : Tool (WorkArgs Record Event Info)}
    (h : Consume finishProduce tool tool') :
    tool'.delivered = tool.delivered ∧ tool.handled <+: tool'.handled := by
  cases h with
  | pop args rest ht hq => simp [Tool.delivered, Consumer.hand, ht, hq]
  | handle args ht => cases args.isWork <;> simp [Tool.delivered, Consumer.hand, ht]
  | readFinishProduce ht => cases finishProduce <;> simp [Tool.delivered, Consumer.hand, ht]
  | waitAfterConsumed ht => simp [Tool.delivered, Consumer.hand, ht]

lemma Consume.grows {tool : Tool (WorkArgs Record Event Info)}
    (h : Consume b.finishProduce (b.tools t) tool) (u : ToolType) :
    ((b.setTool t tool).tools u).delivered = (b.tools u).delivered ∧
      (b.tools u).handled <+: ((b.setTool t tool).tools u).handled := by
  by_cases hu : u = t
  · subst hu
    rw [setTool_self]
    exact h.spec
  · rw [setTool_of_ne b hu]
    exact ⟨rfl, List.prefix_rfl⟩

lemma Advance.frame (h : Advance b d b' d') (u : ToolType) :
    (b'.tools u).handled = (b.tools u).handled ∧ (b'.tools u).thread = (b.tools u).thread := by
  cases h with
  | completion promise => exact push_frame b _ _ u
  | push args fin active t rest => exact push_frame b t args u
  | _ => exact ⟨rfl, rfl⟩

lemma Advance.delivered_prefix (h : Advance b d b' d') (u : ToolType) :
    (b.tools u).delivered <+: (b'.tools u).delivered := by
  cases h with
  | completion promise =>
    rw [push_delivered]
    exact List.prefix_append _ _
  | push args fin active t rest =>
    rw [push_delivered]
    exact List.prefix_append _ _
  | _ => exact List.prefix_rfl

/-! ### Dispatches -/

/-- What a dispatch has still to put into the queue of a tool, of what came out of the pipeline. -/
def Dispatch.pending (t : ToolType) :
    Dispatch (WorkArgs Record Event Info) → List (ParseOut Record Event)
  | .starting (.memcheckCompletion promise) _ _ =>
    if t = .memcheck then [.completion promise] else []
  | .starting args _ active => if t ∈ active then args.parsed.toList else []
  | .pushing args _ _ rest => if t ∈ rest then args.parsed.toList else []
  | _ => []

@[simp] lemma pending_idle (t : ToolType) :
    (.idle : Dispatch (WorkArgs Record Event Info)).pending t = [] := rfl

def Dispatch.Distinct {A : Type*} : Dispatch A → Prop
  | .starting _ _ active => active.Nodup
  | .pushing _ _ active rest => active.Nodup ∧ rest.Nodup
  | .waiting active rest => active.Nodup ∧ rest.Nodup
  | _ => True

/-- A dispatch of a record does not come out of the pipeline. -/
def Dispatch.OfRecord : Dispatch (WorkArgs Record Event Info) → Prop
  | .starting args _ _ | .pushing args _ _ _ => args.isWork = true ∧ args.parsed = none
  | _ => True

lemma pending_of_isWork (hw : args.isWork = true) (fin : Bool) (active : List ToolType)
    (t : ToolType) : (Dispatch.starting args fin active).pending t =
      if t ∈ active then args.parsed.toList else [] := by
  cases args <;> first | rfl | cases hw

lemma pending_ofRecord (h : d.OfRecord) (t : ToolType) : d.pending t = [] := by
  cases d with
  | starting args fin active =>
    cases args <;> simp_all [Dispatch.OfRecord, Dispatch.pending, WorkArgs.parsed]
  | pushing args fin active rest =>
    have hnone : args.parsed = none := h.2
    simp [Dispatch.pending, hnone]
  | _ => rfl

lemma filterMap_parsed (l : List (WorkArgs Record Event Info)) (args) :
    (l ++ [args]).filterMap WorkArgs.parsed =
      l.filterMap WorkArgs.parsed ++ args.parsed.toList := by
  rw [List.filterMap_append]
  cases h : args.parsed <;> simp [h]

/-- **A dispatch** keeps what a tool was given and what it has still to be given. -/
lemma Advance.parsed (h : Advance b d b' d') (hd : d.Distinct) (t : ToolType) :
    (b'.tools t).delivered.filterMap WorkArgs.parsed ++ d'.pending t =
        (b.tools t).delivered.filterMap WorkArgs.parsed ++ d.pending t ∧ d'.Distinct := by
  cases h with
  | completion promise fin active =>
    refine ⟨?_, trivial⟩
    rw [push_delivered]
    by_cases ht : t = .memcheck
    · rw [if_pos ht, filterMap_parsed]
      simp [Dispatch.pending, WorkArgs.parsed, ht]
    · simp [Dispatch.pending, ht]
  | start args fin active hw =>
    exact ⟨by rw [pending_of_isWork hw]; rfl, hd, hd⟩
  | push args fin active u rest =>
    obtain ⟨hactive, hrest⟩ := hd
    obtain ⟨hu, hrest⟩ := List.nodup_cons.mp hrest
    refine ⟨?_, hactive, hrest⟩
    rw [push_delivered]
    by_cases ht : t = u
    · subst ht
      rw [if_pos rfl, filterMap_parsed]
      simp [Dispatch.pending, hu]
    · simp [Dispatch.pending, ht]
  | pushed args active => exact ⟨by simp [Dispatch.pending], trivial⟩
  | finish args active => exact ⟨by simp [Dispatch.pending], hd.1, hd.1⟩
  | pass active u rest hdone => exact ⟨rfl, hd.1, (List.nodup_cons.mp hd.2).2⟩
  | passed active => exact ⟨rfl, trivial⟩

lemma Advance.ofRecord (h : Advance b d b' d') (hr : d.OfRecord) : d'.OfRecord := by
  cases h <;> trivial

/-! ### The pipeline -/

section

variable {s s' : Checker W Record Event Info ε}

lemma all_nodup : ToolType.all.Nodup := by decide

lemma active_nodup (s : Checker W Record Event Info ε) : (s.active config).Nodup :=
  all_nodup.filter _

lemma length_active_le (config : Config) (s : Checker W Record Event Info ε) :
    (s.active config).length ≤ 4 :=
  List.length_filter_le _ ToolType.all

lemma memcheck_mem_active (s : Checker W Record Event Info ε)
    (hm : config.creates .memcheck = true) : ToolType.memcheck ∈ s.active config := by
  have hno : isNeedFilterDbi config s.isKernelWithDBI s.deviceType .memcheck = false := by
    unfold isNeedFilterDbi
    split_ifs <;> rfl
  exact List.mem_filter.mpr ⟨ToolType.mem_all _, by rw [hm, hno]; rfl⟩

/-! ### What the tools are told -/

def Numbered (history : List (ParseTask Record)) : Prop :=
  ∀ k p : ℕ, history[k]? = some (ParseTask.completion p) → p = k

/-- What the queues hold of what the pipeline has handed on. -/
structure Told (config : Config) (s : Checker W Record Event Info ε) : Prop where
  memcheck : config.creates .memcheck = true →
    (s.board.tools .memcheck).delivered.filterMap WorkArgs.parsed ++
      s.dispatch.pending .memcheck = s.pipeline.log
  tools : ∀ t, ((s.board.tools t).delivered.filterMap WorkArgs.parsed ++
    s.dispatch.pending t).Sublist s.pipeline.log
  distinct : s.dispatch.Distinct
  idle : s.pipeline.committer ≠ .committing → s.dispatch = .idle
  direct : s.direct.Distinct ∧ s.direct.OfRecord
  numbered : Numbered s.pipeline.history

lemma told_init : Told config ({} : Checker W Record Event Info ε) where
  memcheck := fun _ => rfl
  tools := fun _ => List.Sublist.slnil
  distinct := trivial
  idle := fun _ => rfl
  direct := ⟨trivial, trivial⟩
  numbered := fun k p h => by simp at h

lemma Told.congr (h : Told config s) (hb : ∀ t, (s'.board.tools t).delivered.filterMap
      WorkArgs.parsed = (s.board.tools t).delivered.filterMap WorkArgs.parsed)
    (hd : s'.dispatch = s.dispatch) (hlog : s'.pipeline.log = s.pipeline.log)
    (hc : s'.pipeline.committer = .committing ↔ s.pipeline.committer = .committing)
    (hdirect : s'.direct.Distinct ∧ s'.direct.OfRecord)
    (hn : Numbered s'.pipeline.history) : Told config s' where
  memcheck := by
    rw [hb, hd, hlog]
    exact h.memcheck
  tools := by
    intro t
    rw [hb, hd, hlog]
    exact h.tools t
  distinct := hd ▸ h.distinct
  idle := fun hne => by rw [hd, h.idle (hc.not.mp hne)]
  direct := hdirect
  numbered := hn

lemma push_parsed (ha : args.parsed = none) (u : ToolType) :
    ((b.push t args).tools u).delivered.filterMap WorkArgs.parsed =
      (b.tools u).delivered.filterMap WorkArgs.parsed := by
  rw [push_delivered]
  split_ifs
  · rw [filterMap_parsed, ha, Option.toList_none, List.append_nil]
  · rw [List.append_nil]

lemma Numbered.concat {history : List (ParseTask Record)} (h : Numbered history)
    {task : ParseTask Record} (ht : ∀ p, task = .completion p → p = history.length) :
    Numbered (history ++ [task]) := by
  intro k p hk
  rw [List.getElem?_append] at hk
  split_ifs at hk with hlt
  · exact h k p hk
  · obtain ⟨hlen, heq⟩ := List.getElem?_eq_some_iff.mp hk
    rw [List.length_singleton] at hlen
    have hp := ht p (by simpa using heq)
    omega

lemma Told.commit (h : Told config s) {ticket : ℕ} {out : ParseOut Record Event}
    (hc : s.pipeline.committer = .getting ticket) (fin : Bool) :
    Told config
      { s with
        pipeline := s.pipeline.commit out
        dispatch := .starting out.workArgs fin (s.active config) } := by
  have hidle := h.idle (by rw [hc]; rintro ⟨⟩)
  have hpending : ∀ t, (Dispatch.starting (out.workArgs : WorkArgs Record Event Info) fin
      (s.active config)).pending t = [] ∨ (Dispatch.starting
        (out.workArgs : WorkArgs Record Event Info) fin (s.active config)).pending t = [out] := by
    intro t
    cases out <;> simp only [ParseOut.workArgs, Dispatch.pending, WorkArgs.parsed] <;> split_ifs <;>
      simp
  refine ⟨fun hm => ?_, fun t => ?_, active_nodup s, fun hne => absurd rfl hne, h.direct,
    h.numbered⟩
  · have hall := h.memcheck hm
    rw [hidle, pending_idle, List.append_nil] at hall
    have hmem : (Dispatch.starting (out.workArgs : WorkArgs Record Event Info) fin
        (s.active config)).pending .memcheck = [out] := by
      cases out with
      | completion promise => rfl
      | records rs events =>
        exact if_pos (memcheck_mem_active s hm)
    rw [hmem]
    exact congrArg (· ++ [out]) hall
  · have hsub := h.tools t
    rw [hidle, pending_idle, List.append_nil] at hsub
    rcases hpending t with hp | hp
    · rw [hp, List.append_nil]
      exact hsub.trans (List.sublist_append_left _ _)
    · rw [hp]
      exact hsub.append (List.Sublist.refl _)

/-- The memory check has been given a part of the log from its beginning. -/
lemma Told.handled_prefix (h : Told config s) (hm : config.creates .memcheck = true) :
    (s.board.tools .memcheck).handled.filterMap WorkArgs.parsed <+: s.pipeline.log := by
  rw [← h.memcheck hm]
  exact ((handled_prefix_delivered _).filterMap _).trans (List.prefix_append _ _)

/-! ### Steps -/

variable [DecidableEq W] {parse : List Record → Except ε (List (List Event)) → Prop} {cap : ℕ}

/-- Steps of the pipeline outside of `DispatchParsed`. -/
lemma quiet_frame {p p' : Pipeline W (ParseTask Record) (ParseOut Record Event) ε}
    (h : ParsePipeline.Internal (Parses parse) p p')
    (hc : p.committer = .committing ↔ p'.committer = .committing) :
    p'.log = p.log ∧ p'.history = p.history := by
  cases h with
  | commit ticket out hget hr => simp [Pipeline.commit, hget] at hc
  | _ => exact ⟨rfl, rfl⟩

lemma Step.pipeline (h : Step config kinds parse cap s s') :
    s'.pipeline = s.pipeline ∨ ParsePipeline.Step (Parses parse) cap s.pipeline s'.pipeline := by
  cases h with
  | internal h =>
    cases h with
    | pipeline p hp hc => exact .inr (.internal hp)
    | commit ticket out hc hr => exact .inr (.internal (.commit ticket out hc hr))
    | commitReturn waited hc hd => exact .inr (.internal (.commitReturn hc))
    | _ => exact .inl rfl
  | submit rs hne hs hroom => exact .inr (.submit _ hs hroom)
  | capture hm hs hroom => exact .inr (.submit _ hs hroom)
  | _ => exact .inl rfl

lemma Steps.pipeline (h : Steps config kinds parse cap s s') :
    ParsePipeline.Steps (Parses parse) cap s.pipeline s'.pipeline := by
  induction h with
  | refl => exact .refl
  | tail _ hstep ih =>
    rcases hstep.pipeline with heq | hp
    · rwa [heq]
    · exact ih.tail hp

lemma Told.internal (h : Told config s) (hs : Internal config kinds parse s s') :
    Told config s' := by
  cases hs with
  | pipeline p hp hc =>
    obtain ⟨hlog, hhistory⟩ := quiet_frame hp hc
    exact h.congr (fun _ => rfl) rfl hlog hc.symm h.direct (by rw [hhistory]; exact h.numbered)
  | commit ticket out hc hr => exact h.commit hc _
  | commitReturn waited hc hd =>
    have hpending : ∀ t, s.dispatch.pending t = [] := fun t => by rw [hd]; rfl
    refine ⟨fun hm => ?_, fun t => ?_, trivial, fun _ => rfl, h.direct, h.numbered⟩
    · simpa only [hpending, pending_idle] using h.memcheck hm
    · simpa only [hpending, pending_idle] using h.tools t
  | advance board dispatch ha =>
    have hp := ha.parsed h.distinct
    refine ⟨fun hm => (hp .memcheck).1.trans (h.memcheck hm), fun t => ?_, (hp .memcheck).2,
      fun hne => ?_, h.direct, h.numbered⟩
    · exact (hp t).1.symm ▸ h.tools t
    · have hidle := h.idle hne
      rw [hidle] at ha
      cases ha
  | advanceDirect board direct ha =>
    refine h.congr (fun t => ?_) rfl rfl Iff.rfl
      ⟨(ha.parsed h.direct.1 .memcheck).2, ha.ofRecord h.direct.2⟩ h.numbered
    simpa [pending_ofRecord h.direct.2, pending_ofRecord (ha.ofRecord h.direct.2)] using
      (ha.parsed h.direct.1 t).1
  | directReturn waited hd =>
    exact h.congr (fun _ => rfl) rfl rfl Iff.rfl ⟨trivial, trivial⟩ h.numbered
  | consume t tool hc =>
    exact h.congr (fun u => by rw [(hc.grows u).1]) rfl rfl Iff.rfl h.direct h.numbered

lemma Told.step (h : Told config s) (hs : Step config kinds parse cap s s') : Told config s' := by
  cases hs with
  | internal hi => exact h.internal hi
  | submit rs hne hstop hroom =>
    exact h.congr (fun _ => rfl) rfl rfl Iff.rfl h.direct
      (h.numbered.concat fun p hp => by cases hp)
  | capture hm hstop hroom =>
    exact h.congr (fun _ => rfl) rfl rfl Iff.rfl h.direct
      (h.numbered.concat fun p hp => by cases hp; rfl)
  | doRecord record events hd hp he =>
    exact h.congr (fun _ => rfl) rfl rfl Iff.rfl ⟨all_nodup.filter _, rfl, rfl⟩ h.numbered
  | setDeviceInfo type hp => exact h.congr (fun _ => rfl) rfl rfl Iff.rfl h.direct h.numbered
  | setKernelInfo dbi hp => exact h.congr (fun _ => rfl) rfl rfl Iff.rfl h.direct h.numbered
  | update t info hc hp =>
    exact h.congr (push_parsed rfl) rfl rfl Iff.rfl h.direct h.numbered

lemma Told.steps (h : Told config s) (hs : Steps config kinds parse cap s s') : Told config s' := by
  induction hs with
  | refl => exact h
  | tail _ hstep ih => exact ih.step hstep

/-! ### Histories only grow -/

lemma Step.grows (h : Step config kinds parse cap s s') (t : ToolType) :
    (s.board.tools t).delivered <+: (s'.board.tools t).delivered ∧
      (s.board.tools t).handled <+: (s'.board.tools t).handled := by
  have hrfl : (s.board.tools t).delivered <+: (s.board.tools t).delivered ∧
      (s.board.tools t).handled <+: (s.board.tools t).handled :=
    ⟨List.prefix_rfl, List.prefix_rfl⟩
  cases h with
  | internal h =>
    cases h with
    | advance board dispatch ha =>
      exact ⟨ha.delivered_prefix t, by rw [(ha.frame t).1]⟩
    | advanceDirect board direct ha =>
      exact ⟨ha.delivered_prefix t, by rw [(ha.frame t).1]⟩
    | consume u tool hc => exact ⟨by rw [(hc.grows t).1], (hc.grows t).2⟩
    | _ => exact hrfl
  | update u info hc hp =>
    refine ⟨?_, ?_⟩
    · rw [push_delivered]
      exact List.prefix_append _ _
    · rw [(push_frame s.board u _ t).1]
  | _ => exact hrfl

lemma Steps.grows (h : Steps config kinds parse cap s s') (t : ToolType) :
    (s.board.tools t).delivered <+: (s'.board.tools t).delivered ∧
      (s.board.tools t).handled <+: (s'.board.tools t).handled := by
  induction h with
  | refl => exact ⟨List.prefix_rfl, List.prefix_rfl⟩
  | tail _ hstep ih =>
    obtain ⟨hdel, hhan⟩ := hstep.grows t
    exact ⟨ih.1.trans hdel, ih.2.trans hhan⟩

/-! ### Completions -/

lemma task_of_completion {task : ParseTask Record} {r : Except ε (ParseOut Record Event)}
    (h : Parses parse task r) {p : ℕ} (hr : r = .ok (.completion p)) : task = .completion p := by
  cases h with
  | records rs r h => cases r <;> cases hr
  | completion promise =>
    cases hr
    rfl

lemma Numbered.lt {history : List (ParseTask Record)} (h : Numbered history) {p : ℕ}
    (hp : .completion p ∈ history) : p < history.length := by
  obtain ⟨k, hk⟩ := List.getElem?_of_mem hp
  rw [h k p hk]
  exact (List.getElem?_eq_some_iff.mp hk).1

lemma completion_mem {tasks : List (ParseTask Record)}
    {rs : List (Except ε (ParseOut Record Event))} (h : List.Forall₂ (Parses parse) tasks rs)
    {p : ℕ} (hp : .completion p ∈ outputs rs) : .completion p ∈ tasks := by
  induction h with
  | nil => cases hp
  | @cons task r tasks rs hr _ ih =>
    cases r with
    | error e => exact List.mem_cons_of_mem _ (ih hp)
    | ok out =>
      rcases List.mem_cons.mp (show .completion p ∈ out :: outputs rs from hp) with heq | hp
      · rw [task_of_completion hr (by rw [heq])]
        exact List.mem_cons_self
      · exact List.mem_cons_of_mem _ (ih hp)

lemma outputs_split {before after : List (ParseTask Record)} {p : ℕ}
    {rs : List (Except ε (ParseOut Record Event))}
    (h : List.Forall₂ (Parses parse) (before ++ .completion p :: after) rs) :
    ∃ rs₁ rs₂ : List (Except ε (ParseOut Record Event)), List.Forall₂ (Parses parse) before rs₁ ∧
      outputs rs = outputs rs₁ ++ .completion p :: outputs rs₂ := by
  induction before generalizing rs with
  | nil =>
    cases h with
    | cons hr htail =>
      cases hr with
      | completion => exact ⟨[], _, .nil, rfl⟩
  | cons task before ih =>
    cases h with
    | @cons _ r _ rs hr htail =>
      obtain ⟨rs₁, rs₂, hbefore, heq⟩ := ih htail
      refine ⟨r :: rs₁, rs₂, .cons hr hbefore, ?_⟩
      cases r with
      | error e => exact heq
      | ok out => exact congrArg (out :: ·) heq

lemma inv_of_steps (hs : Steps config kinds parse cap {} s) : Inv (Parses parse) cap s.pipeline :=
  Inv.steps ⟨Fed.init, 0, InOrder.init⟩ hs.pipeline

lemma completion_not_delivered (hs : Steps config kinds parse cap {} s)
    (hm : config.creates .memcheck = true) :
    .memcheckCompletion s.pipeline.history.length ∉ (s.board.tools .memcheck).delivered := by
  intro hmem
  have htold := told_init.steps hs
  obtain ⟨m, rs, hle, hrs, hlog⟩ := (inv_of_steps hs).log
  have hin : ParseOut.completion s.pipeline.history.length ∈ s.pipeline.log := by
    rw [← htold.memcheck hm]
    exact List.mem_append_left _ (List.mem_filterMap.mpr ⟨_, hmem, rfl⟩)
  rw [hlog] at hin
  have hlt := htold.numbered.lt (List.mem_of_mem_take (completion_mem hrs hin))
  omega

/-- **Everything is checked in order, and a completion comes after everything before it.** In every
run of a checker, whatever its threads and clients do and in whatever order: what a tool has handled
of the blocks are outputs of the tasks in the order of their submission, and the memory check has
handled all of them up to some point. When the memory check reaches the promise of
`CaptureMemcheckCompletion`, it has handled everything that was in its queue when the promise was
made, and every task submitted before, whether it was parsed by then or not. -/
theorem completion_after_checks (hs : Steps config kinds parse cap {} s) :
    (∃ m rs, m ≤ s.pipeline.history.length ∧
      List.Forall₂ (Parses parse) (s.pipeline.history.take m) rs ∧
      (∀ t, ((s.board.tools t).handled.filterMap WorkArgs.parsed).Sublist (outputs rs)) ∧
      (config.creates .memcheck = true →
        (s.board.tools .memcheck).handled.filterMap WorkArgs.parsed <+: outputs rs)) ∧
    (config.creates .memcheck = true → s.pipeline.stop = false →
      s.pipeline.ordered.length < cap → ∀ s', Steps config kinds parse cap s.capture s' →
      .memcheckCompletion s.pipeline.history.length ∈ (s'.board.tools .memcheck).handled →
      (s.board.tools .memcheck).delivered <+: (s'.board.tools .memcheck).handled ∧
        ∃ rs, List.Forall₂ (Parses parse) s.pipeline.history rs ∧
          outputs rs ++ [.completion s.pipeline.history.length] <+:
            (s'.board.tools .memcheck).handled.filterMap WorkArgs.parsed) := by
  have htold := told_init.steps hs
  refine ⟨?_, fun hm hstop hroom s' hs' hready => ?_⟩
  · obtain ⟨m, rs, hle, hrs, hlog⟩ := (inv_of_steps hs).log
    refine ⟨m, rs, hle, hrs, fun t => ?_, fun hm => hlog ▸ htold.handled_prefix hm⟩
    rw [← hlog]
    exact (((handled_prefix_delivered _).filterMap _).sublist.trans
      (List.sublist_append_left _ _)).trans (htold.tools t)
  have hsteps : Steps config kinds parse cap s s' :=
    (Relation.ReflTransGen.single (.capture hm hstop hroom)).trans hs'
  have htold' := htold.steps hsteps
  have hgrows := hsteps.grows .memcheck
  refine ⟨?_, ?_⟩
  · rcases List.prefix_or_prefix_of_prefix hgrows.1 (handled_prefix_delivered _) with hp | hp
    · exact hp
    · exact absurd (hp.subset hready) (completion_not_delivered hs hm)
  · obtain ⟨m, rs, hle, hrs, hlog⟩ := (inv_of_steps (hs.trans hsteps)).log
    have hpre := htold'.handled_prefix hm
    have hmem : ParseOut.completion s.pipeline.history.length ∈
        (s'.board.tools .memcheck).handled.filterMap WorkArgs.parsed :=
      List.mem_filterMap.mpr ⟨_, hready, rfl⟩
    -- the tasks parsed by now begin with those before the promise, and the promise
    obtain ⟨after, hafter⟩ : ∃ after, s.pipeline.history ++
        .completion s.pipeline.history.length :: after = s'.pipeline.history.take m := by
      have hhistory : s.pipeline.history ++ [.completion s.pipeline.history.length] <+:
          s'.pipeline.history := history_extends hs'.pipeline
      have hin := completion_mem hrs (hlog ▸ hpre.subset hmem)
      obtain ⟨k, hk⟩ := List.getElem?_of_mem hin
      obtain ⟨hlt, -⟩ := List.getElem?_eq_some_iff.mp hk
      rw [List.getElem?_take] at hk
      split_ifs at hk
      have hkn := htold'.numbered k _ hk
      obtain ⟨after, hafter⟩ := List.prefix_of_prefix_length_le hhistory (List.take_prefix m _)
        (by simp only [List.length_append, List.length_singleton]; omega)
      exact ⟨after, by rw [← hafter]; simp⟩
    rw [← hafter] at hrs
    obtain ⟨rs₁, rs₂, hbefore, heq⟩ := outputs_split hrs
    refine ⟨rs₁, hbefore, ?_⟩
    have hwhole : outputs rs₁ ++ [.completion s.pipeline.history.length] <+: s'.pipeline.log := by
      rw [hlog, heq]
      exact ⟨outputs rs₂, by simp⟩
    rcases List.prefix_or_prefix_of_prefix hwhole hpre with hp | hp
    · exact hp
    · rcases List.prefix_concat_iff.mp hp with hp | hp
      · rw [hp]
      · have hin := completion_mem hbefore (hp.subset hmem)
        exact absurd (htold.numbered.lt hin) (lt_irrefl _)

end

/-! ### A promise that is kept -/

/-- Records are numbers; 0 is the end of a kernel. -/
def numberKinds : Kinds ℕ := ⟨fun _ => false, fun record => record == 0⟩

def parsesNothing (records : List ℕ) (r : Except String (List (List ℕ))) : Prop :=
  r = .ok (records.map fun _ => [])

/-- The one worker of the pool. -/
abbrev w₀ : Fin 1 := 0

/-- The memory check has a block in its queue, and another block is submitted. -/
def queuedBlock : Checker (Fin 1) ℕ ℕ Unit String where
  pipeline :=
    (Pipeline.count
      { (((Pipeline.submit {} (.records [1])).takeJob w₀ (0, .records [1]) []).runJob w₀ 0
          (.ok (.records [1] [[]]))).takeFuture 0 [] |>.commit (.records [1] [[]]) with
        committer := .counting }).submit (.records [2])
  board := Board.push {} .memcheck (.kernelBlockArrived [1] [[]])

lemma steps_queuedBlock : Steps {} numberKinds parsesNothing 2 {} queuedBlock := by
  refine .tail (.tail (.tail (.tail (.tail (.tail (.tail (.tail (.tail (.tail (.tail .refl
    (.submit [1] (by decide) rfl (by decide)))
    (.internal (.pipeline _ (.takeJob w₀ (0, ParseTask.records [1]) [] rfl rfl) Iff.rfl)))
    (.internal (.pipeline _ (.runJob w₀ 0 (ParseTask.records [1]) _ rfl
      (.records [1] (.ok [[]]) rfl)) Iff.rfl)))
    (.internal (.pipeline _ (.takeFuture 0 [] rfl rfl) (by constructor <;> rintro ⟨⟩))))
    (.internal (.commit 0 (.records [1] [[]]) rfl rfl)))
    (.internal (.advance _ _ (.start (.kernelBlockArrived [1] [[]]) false [.memcheck] rfl))))
    (.internal (.advance _ _ (.push (.kernelBlockArrived [1] [[]]) false [.memcheck]
      .memcheck []))))
    (.internal (.advance _ _ (.pushed (.kernelBlockArrived [1] [[]]) [.memcheck]))))
    (.internal (.commitReturn [] rfl rfl)))
    (.internal (.pipeline _ (.count rfl) (by constructor <;> rintro ⟨⟩))))
    (.submit [2] (by decide) rfl (by decide))

/-- The second block and the promise go through the pipeline. -/
def promiseQueued : Checker (Fin 1) ℕ ℕ Unit String where
  pipeline :=
    (Pipeline.count
      { ((((queuedBlock.capture.pipeline.takeJob w₀ (1, .records [2])
          [(2, .completion 2)]).runJob w₀ 1 (.ok (.records [2] [[]]))).takeJob w₀ (2, .completion 2)
          []).runJob w₀ 2 (.ok (.completion 2))).takeFuture 1 [2] |>.commit (.records [2] [[]]) with
        committer := .counting }).takeFuture 2 [] |>.commit (.completion 2)
  board := (queuedBlock.board.push .memcheck (.kernelBlockArrived [2] [[]])).push .memcheck
    (.memcheckCompletion 2)
  dispatch := .returning []

lemma steps_promiseQueued :
    Steps {} numberKinds parsesNothing 2 queuedBlock.capture promiseQueued := by
  refine .tail (.tail (.tail (.tail (.tail (.tail (.tail (.tail (.tail (.tail (.tail (.tail (.tail
    (.tail .refl
    (.internal (.pipeline _ (.takeJob w₀ (1, ParseTask.records [2]) [(2, .completion 2)] rfl rfl)
      Iff.rfl)))
    (.internal (.pipeline _ (.runJob w₀ 1 (ParseTask.records [2]) _ rfl
      (.records [2] (.ok [[]]) rfl)) Iff.rfl)))
    (.internal (.pipeline _ (.takeJob w₀ (2, ParseTask.completion 2) [] rfl rfl) Iff.rfl)))
    (.internal (.pipeline _ (.runJob w₀ 2 (ParseTask.completion 2) _ rfl (.completion 2)) Iff.rfl)))
    (.internal (.pipeline _ (.takeFuture 1 [2] rfl rfl) (by constructor <;> rintro ⟨⟩))))
    (.internal (.commit 1 (.records [2] [[]]) rfl rfl)))
    (.internal (.advance _ _ (.start (.kernelBlockArrived [2] [[]]) false [.memcheck] rfl))))
    (.internal (.advance _ _ (.push (.kernelBlockArrived [2] [[]]) false [.memcheck]
      .memcheck []))))
    (.internal (.advance _ _ (.pushed (.kernelBlockArrived [2] [[]]) [.memcheck]))))
    (.internal (.commitReturn [] rfl rfl)))
    (.internal (.pipeline _ (.count rfl) (by constructor <;> rintro ⟨⟩))))
    (.internal (.pipeline _ (.takeFuture 2 [] rfl rfl) (by constructor <;> rintro ⟨⟩))))
    (.internal (.commit 2 (.completion 2) rfl rfl)))
    (.internal (.advance _ _ (.completion 2 false [.memcheck])))

/-- A promise that is reached behind a block that was in the queue and one that was not parsed. -/
theorem completion_after_checks_queued : ∃ s' : Checker (Fin 1) ℕ ℕ Unit String,
    Steps {} numberKinds parsesNothing 2 queuedBlock.capture s' ∧
      (queuedBlock.board.tools .memcheck).delivered = [.kernelBlockArrived [1] [[]]] ∧
      [.kernelBlockArrived [1] [[]]] <+: (s'.board.tools .memcheck).handled ∧
      ∃ rs : List (Except String (ParseOut ℕ ℕ)),
        List.Forall₂ (Parses parsesNothing) [.records [1], .records [2]] rs ∧
        outputs rs ++ [.completion 2] <+:
          (s'.board.tools .memcheck).handled.filterMap WorkArgs.parsed := by
  obtain ⟨s', hs', hhandled⟩ : ∃ s', Steps {} numberKinds parsesNothing 2 promiseQueued s' ∧
      (s'.board.tools .memcheck).handled =
        [.kernelBlockArrived [1] [[]], .kernelBlockArrived [2] [[]], .memcheckCompletion 2] :=
    ⟨_, .tail (.tail (.tail (.tail (.tail (.tail (.tail (.tail .refl
      (.internal (.consume .memcheck _ (.pop (.kernelBlockArrived [1] [[]]) _ rfl rfl))))
      (.internal (.consume .memcheck _ (.handle (.kernelBlockArrived [1] [[]]) rfl))))
      (.internal (.consume .memcheck _ (.readFinishProduce rfl))))
      (.internal (.consume .memcheck _ (.pop (.kernelBlockArrived [2] [[]]) _ rfl rfl))))
      (.internal (.consume .memcheck _ (.handle (.kernelBlockArrived [2] [[]]) rfl))))
      (.internal (.consume .memcheck _ (.readFinishProduce rfl))))
      (.internal (.consume .memcheck _ (.pop (.memcheckCompletion 2) [] rfl rfl))))
      (.internal (.consume .memcheck _ (.handle (.memcheckCompletion 2) rfl))), rfl⟩
  have hrun := steps_promiseQueued.trans hs'
  have hnumber : queuedBlock.pipeline.history.length = 2 := rfl
  obtain ⟨hqueue, hparsed⟩ := (completion_after_checks steps_queuedBlock).2 rfl rfl (by decide) s'
    hrun (by rw [hhandled, hnumber]; simp)
  exact ⟨s', hrun, rfl, hqueue, hparsed⟩

end MsSanitizer.CheckerQueues
