import MsSanitizer.BlockClocks
import MsSanitizer.PollOrder

/-!
# Happens-before of the events of a block

What a replay executes, and what happens before what, is said here of the list of events alone. A
run is compared with the list step by step: each step of the run issues an event of the list,
executes the time event that goes ahead of one, or executes one (`Labelled`). The steps of a pipe
follow the order of the list, and so the order that the clocks of a run are exact for is the order
of the list.
-/

namespace MsSanitizer.BlockReplay

open RecordDefs EventDef VectorTime PipeLine EventContainer FifoTrace

/-! ## The order of a list -/

def setKey (e : SanEvent) : Option SyncEvent :=
  match e.info with
  | .sync info => if info.opType = .setFlag then some (.ofInfo info) else none
  | _ => none

def waitKey (e : SanEvent) : Option SyncEvent :=
  match e.info with
  | .sync info => if info.opType = .waitFlag then some (.ofInfo info) else none
  | _ => none

def pipeOf (l : List SanEvent) (i : ℕ) : PipeType := (l[i]?.map SanEvent.pipe).getD .s

/-- An event comes before the later events of its pipe. An event of the scalar pipe comes before
all later events, since they are issued from there. The set of a flag comes before its wait, the
`n`-th set of a flag before the `n`-th wait for it. -/
inductive Before (l : List SanEvent) (i j : ℕ) : Prop
  | pipe (hij : i < j) (hj : j < l.length) (h : pipeOf l i = pipeOf l j)
  | issue (hij : i < j) (hj : j < l.length) (h : pipeOf l i = .s)
  | flag (h : Matched setKey waitKey l i j)

/-- An event happens before another one, or is the same. -/
def HappensBefore (l : List SanEvent) : ℕ → ℕ → Prop := Relation.ReflTransGen (Before l)

/-- The events that get through: all events before them do, and a wait has its set. -/
inductive Runs (l : List SanEvent) : ℕ → Prop
  | intro {i} (hi : i < l.length) (hbefore : ∀ j, Before l j i → Runs l j)
      (hset : ∀ k, HasKey waitKey l k i → ∃ j, Matched setKey waitKey l j i) : Runs l i

variable {b : ℕ} {p q : PipeType} {s s' s₀ : BlockReplay} {tr : List Exec} {x : Exec}
  {e : SanEvent} {l : List SanEvent} {i j m n n' : ℕ}

lemma pipeOf_eq (h : l[i]? = some e) : pipeOf l i = e.pipe := by rw [pipeOf, h]; rfl

lemma Runs.lt_length (h : Runs l i) : i < l.length := by
  cases h
  assumption

/-! ## The steps of a run -/

/-- What a step does with the event at a position of the list. -/
inductive Label
  | issue (i : ℕ)
  | time (i : ℕ)
  | exec (i : ℕ)
  deriving DecidableEq

namespace Label

def pos : Label → ℕ
  | issue i | time i | exec i => i

def pipe (l : List SanEvent) : Label → PipeType
  | issue _ => .s
  | time i | exec i => pipeOf l i

/-- The steps of a pipe are in the order of their ranks. -/
def rank : Label → ℕ
  | issue i => 2 * i + 1
  | time i => 2 * i
  | exec i => 2 * i + 1

def scalar (l : List SanEvent) (i : ℕ) : Label := if pipeOf l i = .s then exec i else issue i

/-- The entries that an issue adds to the queue of a pipe. -/
def adds (l : List SanEvent) (q : PipeType) : Label → List Label
  | issue i => if q = pipeOf l i then [time i, exec i] else []
  | _ => []

end Label

/-- The event of a step of `p`, or of an entry of its queue. -/
inductive Names (l : List SanEvent) (p : PipeType) : Label → SanEvent → Prop
  | issue {i : ℕ} {e : SanEvent} (h : l[i]? = some e) (hp : p = .s) (hne : e.pipe ≠ .s) :
      Names l p (.issue i) e
  | time {i : ℕ} {e : SanEvent} (h : l[i]? = some e) (hp : e.pipe = p) (hne : p ≠ .s)
      (t : VectorTime) : Names l p (.time i) (RaceAlgImpl.timeEventOf e t)
  | exec {i : ℕ} {e : SanEvent} (h : l[i]? = some e) (hp : e.pipe = p) : Names l p (.exec i) e

/-- The steps that a pipe is to do once `m` events have left the scalar queue. -/
def plan (l : List SanEvent) (m : ℕ) (p : PipeType) : List Label :=
  if p = .s then (List.range l.length).map (Label.scalar l)
  else (List.range m).flatMap fun i => (Label.scalar l i).adds l p

/-- A run and its queues, with the labels of the steps done and of those to do. -/
structure Labelled (l : List SanEvent) (b : ℕ) (tr : List Exec) (s : BlockReplay)
    (labs : List Label) (todo : PipeType → List Label) (m : ℕ) : Prop where
  steps : List.Forall₂ (fun lab x => Names l x.pipe lab x.event) labs tr
  queued : ∀ p, List.Forall₂ (Names l p) (todo p) (s.que b p)
  order : ∀ p, (labs.filter fun lab => lab.pipe l = p) ++ todo p = plan l m p
  issued : (labs.filter fun lab => lab.pipe l = .s).length = m

variable {lab lab' : Label} {labs : List Label} {todo : PipeType → List Label}

lemma Names.pipe (h : Names l p lab e) : lab.pipe l = p := by
  cases h with
  | issue h hp => exact hp.symm
  | time h hp => exact (pipeOf_eq h).trans hp
  | exec h hp => exact (pipeOf_eq h).trans hp

/-- An entry of the scalar queue is what the scalar pipe does with its event. -/
lemma Names.scalar (h : Names l .s lab e) : lab = .scalar l lab.pos := by
  cases h with
  | issue h _ hne => rw [Label.scalar, Label.pos, pipeOf_eq h, if_neg hne]
  | time h _ hne => exact absurd rfl hne
  | exec h hp => rw [Label.scalar, Label.pos, pipeOf_eq h, if_pos hp]

/-- What a poll adds to the queues has the labels of an issue. -/
lemma Names.adds {vt : VectorTime} {adds : PipeType → List SanEvent}
    {db : SyncEventDataBase} {checked : List (SanEvent × VectorTime)} (h : Names l p lab e)
    (hd : Does b s p e vt adds db checked) (q : PipeType) :
    List.Forall₂ (Names l q) (lab.adds l q) (adds q) := by
  have hnone : e.pipe = p → ∀ {lab}, Names l p lab e → lab.adds l q = [] := by
    intro hp lab h
    cases h with
    | issue _ hs hne => exact absurd (hp.trans hs) hne
    | time | exec => rfl
  cases hd with
  | issue hp hne =>
    cases h with
    | issue h _ hs =>
      simp only [Label.adds, pipeOf_eq h]
      split_ifs with hq
      · exact .cons (.time h hq.symm (hq ▸ hs) _) (.cons (.exec h hq.symm) .nil)
      · exact .nil
    | time h hp' => exact absurd hp' hne
    | exec h hp' => exact absurd hp' hne
  | mem hp | time hp | set hp | wait hp | pass hp =>
    rw [hnone hp h]
    exact .nil

lemma plan_succ (hq : q ≠ .s) :
    plan l (m + 1) q = plan l m q ++ (Label.scalar l m).adds l q := by
  simp only [plan, if_neg hq, List.range_succ, List.flatMap_append, List.flatMap_singleton]

lemma Names.adds_own (h : Names l p lab e) : lab.adds l p = [] := by
  cases h with
  | issue h hp hne => rw [Label.adds, pipeOf_eq h, hp, if_neg (Ne.symm hne)]
  | time | exec => rfl

lemma Names.adds_of_ne (h : Names l p lab e) (hp : p ≠ .s) : lab.adds l q = [] := by
  cases h with
  | issue _ hc => exact absurd hc hp
  | time | exec => rfl

/-- The label at the front of the scalar queue is that of the next event of the list. -/
lemma Labelled.front_scalar (h : Labelled l b tr s labs todo m) {rest : List Label}
    (ht : todo .s = lab :: rest) : lab = .scalar l m ∧ m < l.length := by
  have hord := h.order .s
  rw [ht, plan, if_pos rfl] at hord
  have hat := congrArg (fun k : List Label => k[m]?) hord
  rw [List.getElem?_append_right h.issued.le, h.issued, Nat.sub_self, List.getElem?_cons_zero,
    List.getElem?_map, eq_comm, Option.map_eq_some_iff] at hat
  obtain ⟨k, hk, rfl⟩ := hat
  obtain ⟨hlt, rfl⟩ := List.getElem?_eq_some_iff.mp hk
  rw [List.getElem_range] at *
  rw [List.length_range] at hlt
  exact ⟨rfl, hlt⟩

lemma Labelled.poll (h : Labelled l b tr s labs todo m) (hfit : Fit b s)
    (hpoll : poll b p s = some (x, s')) :
    ∃ labs' todo' m', Labelled l b (tr ++ [x]) s' labs' todo' m' := by
  obtain ⟨rest, adds, db, checked, rfl, hq, hdoes, ha⟩ := poll_inv hfit hpoll
  have hqueued := h.queued x.pipe
  rw [hq] at hqueued
  obtain ⟨lab, labrest, hname, hrest, ht⟩ := List.forall₂_cons_right_iff.mp hqueued
  refine ⟨labs ++ [lab], fun q => (if q = x.pipe then (todo q).tail else todo q) ++ lab.adds l q,
    if x.pipe = .s then m + 1 else m, ?_, fun q => ?_, fun q => ?_, ?_⟩
  · exact List.rel_append h.steps (.cons hname .nil)
  · rw [ha.que]
    refine List.rel_append ?_ (hname.adds hdoes q)
    by_cases hqp : q = x.pipe
    · rw [if_pos hqp, if_pos hqp, hqp, ht, hq]
      exact hrest
    · rw [if_neg hqp, if_neg hqp]
      exact h.queued q
  · have hord := h.order q
    rw [List.filter_append, List.filter_singleton, hname.pipe, ← List.append_assoc]
    by_cases hqp : q = x.pipe
    · have hplan : plan l (if x.pipe = .s then m + 1 else m) q = plan l m q := by
        by_cases hs : q = .s
        · rw [plan, plan, if_pos hs, if_pos hs]
        · rw [if_neg (hqp ▸ hs)]
      subst hqp
      rw [ht] at hord
      rw [hplan, hname.adds_own, if_pos rfl, ht, ← hord]
      simp
    · rw [if_neg hqp, decide_eq_false (Ne.symm hqp), cond_false, List.append_nil, hord]
      by_cases hs : x.pipe = .s
      · have hfront : todo .s = lab :: labrest := hs ▸ ht
        rw [if_pos hs, plan_succ (hs ▸ hqp), (h.front_scalar hfront).1]
      · rw [if_neg hs, hname.adds_of_ne hs, List.append_nil]
  · rw [List.filter_append, List.filter_singleton, hname.pipe, List.length_append, h.issued]
    split_ifs <;> simp_all

/-- The start of the replay, when the block is one of the container. -/
lemma labelled_start {kt : KernelType} {dt : DeviceType} {blockDim : ℕ} {events : List SanEvent}
    (hl : ∀ e ∈ events, InBlock kt dt b e)
    (hb : b < RaceAlgImpl.totalBlockNum kt dt blockDim) :
    Labelled (events.flatMap parts) b [] (start kt dt blockDim events) []
      (fun p => plan (events.flatMap parts) 0 p) 0 := by
  refine ⟨.nil, fun p => ?_, fun p => rfl, rfl⟩
  rw [start_que blockDim fun e he => (hl e he).1]
  by_cases hp : p = .s
  · rw [if_pos ⟨hp, hb⟩, plan, if_pos hp, List.forall₂_iff_get]
    refine ⟨by simp, fun i h1 h2 => ?_⟩
    have hi := List.getElem?_eq_getElem h2
    simp only [List.get_eq_getElem, List.getElem_map, List.getElem_range]
    rw [Label.scalar, pipeOf_eq hi]
    split_ifs with hs
    · exact .exec hi (hs.trans hp.symm)
    · exact .issue hi hp hs
  · rw [if_neg fun h => hp h.1, plan, if_neg hp]
    exact .nil

lemma Polls.labelled (h : Polls b s₀ tr s) (h₀ : Fit b s₀)
    (hstart : ∃ labs todo m, Labelled l b [] s₀ labs todo m) :
    ∃ labs todo m, Labelled l b tr s labs todo m := by
  induction h with
  | nil => exact hstart
  | concat h hpoll ih =>
    obtain ⟨labs, todo, m, hlab⟩ := ih
    exact hlab.poll (h.fit h₀) hpoll

/-! ## The order of the steps -/

lemma mem_adds {a : Label} (ha : a ∈ lab.adds l q) :
    lab = .issue lab.pos ∧ q = pipeOf l lab.pos ∧ (a = .time lab.pos ∨ a = .exec lab.pos) := by
  cases lab with
  | issue i =>
    simp only [Label.adds] at ha
    split_ifs at ha with hq
    · simp only [List.mem_cons, List.not_mem_nil, or_false] at ha
      exact ⟨rfl, hq, ha⟩
    · cases ha
  | time | exec => cases ha

lemma Label.pos_scalar (l : List SanEvent) (i : ℕ) : (Label.scalar l i).pos = i := by
  unfold Label.scalar
  split_ifs <;> rfl

/-- The steps of a pipe are planned in the order of their ranks. -/
lemma plan_sorted (l : List SanEvent) (m : ℕ) (p : PipeType) :
    (plan l m p).Pairwise fun a c => a.rank < c.rank := by
  unfold plan
  split_ifs
  · refine List.pairwise_lt_range.map _ fun a c hac => ?_
    unfold Label.scalar
    split_ifs <;> simp only [Label.rank] <;> omega
  · refine List.pairwise_flatMap.mpr ⟨fun i _ => ?_, List.pairwise_lt_range.imp ?_⟩
    · cases Label.scalar l i with
      | issue k =>
        simp only [Label.adds]
        split_ifs <;> simp [Label.rank]
      | time | exec => exact .nil
    · intro i k hik a ha c hc
      obtain ⟨-, -, ha⟩ := mem_adds ha
      obtain ⟨-, -, hc⟩ := mem_adds hc
      rw [Label.pos_scalar] at ha hc
      rcases ha with rfl | rfl <;> rcases hc with rfl | rfl <;> simp only [Label.rank] <;> omega

lemma mem_plan_of_lt (hq : q ≠ .s) (hi : pipeOf l i = q) (hlt : i < m) :
    .time i ∈ plan l m q ∧ .exec i ∈ plan l m q := by
  have hadds : (Label.scalar l i).adds l q = [.time i, .exec i] := by
    rw [Label.scalar, if_neg (hi ▸ hq), Label.adds, if_pos hi.symm]
  simp only [plan, if_neg hq, List.mem_flatMap, List.mem_range]
  exact ⟨⟨i, hlt, by simp [hadds]⟩, ⟨i, hlt, by simp [hadds]⟩⟩

section Labelled

variable (h : Labelled l b tr s labs todo m)
include h

/-- The steps done of a pipe are the first ones of its plan. -/
lemma Labelled.sorted (p : PipeType) :
    (labs.filter fun lab => lab.pipe l = p).Pairwise fun a c => a.rank < c.rank := by
  have hplan := plan_sorted l m p
  rw [← h.order p] at hplan
  exact (List.pairwise_append.mp hplan).1

/-- A planned step with a smaller rank than one that was done has been done. -/
lemma Labelled.mem_of_rank (hlab : lab ∈ labs) (hplan : lab' ∈ plan l m (lab.pipe l))
    (hr : lab'.rank < lab.rank) : lab' ∈ labs := by
  have hsorted := plan_sorted l m (lab.pipe l)
  rw [← h.order] at hsorted hplan
  rcases List.mem_append.mp hplan with hmem | hmem
  · exact List.mem_of_mem_filter hmem
  · have := (List.pairwise_append.mp hsorted).2.2 lab (List.mem_filter.mpr ⟨hlab, by simp⟩)
      lab' hmem
    omega

lemma Labelled.lt_iff_rank (hn : labs[n]? = some lab) (hn' : labs[n']? = some lab')
    (hp : lab.pipe l = lab'.pipe l) : n < n' ↔ lab.rank < lab'.rank := by
  have hpair : labs.Pairwise fun a c => a.pipe l = c.pipe l → a.rank < c.rank := by
    rw [List.pairwise_iff_getElem]
    intro i k hi hk hik hpipe
    have hsorted := List.pairwise_filter.mp (h.sorted (labs[i].pipe l))
    exact List.pairwise_iff_getElem.mp hsorted i k hi hk hik (by simp) (by simpa using hpipe.symm)
  have hlt : ∀ {n n' : ℕ} {lab lab' : Label}, labs[n]? = some lab → labs[n']? = some lab' →
      lab.pipe l = lab'.pipe l → n < n' → lab.rank < lab'.rank := by
    intro n n' lab lab' hn hn' hp hlt
    obtain ⟨h1, rfl⟩ := List.getElem?_eq_some_iff.mp hn
    obtain ⟨h2, rfl⟩ := List.getElem?_eq_some_iff.mp hn'
    exact List.pairwise_iff_getElem.mp hpair n n' h1 h2 hlt hp
  refine ⟨hlt hn hn' hp, fun hr => ?_⟩
  rcases Nat.lt_trichotomy n n' with hlt' | rfl | hgt
  · exact hlt'
  · rw [hn, Option.some_inj] at hn'
    rw [hn'] at hr
    exact absurd hr (lt_irrefl _)
  · have := hlt hn' hn hp.symm hgt
    omega

lemma Labelled.eq_of_label (hn : labs[n]? = some lab) (hn' : labs[n']? = some lab) : n = n' := by
  have h1 := h.lt_iff_rank hn hn' rfl
  have h2 := h.lt_iff_rank hn' hn rfl
  omega

lemma Labelled.names (hn : labs[n]? = some lab) :
    ∃ x, tr[n]? = some x ∧ Names l x.pipe lab x.event := by
  obtain ⟨hlt, rfl⟩ := List.getElem?_eq_some_iff.mp hn
  have hlen := h.steps.length_eq
  refine ⟨tr[n], List.getElem?_eq_getElem (by omega), ?_⟩
  exact (List.forall₂_iff_get.mp h.steps).2 n hlt (by omega)

lemma Labelled.exists_label (hx : tr[n]? = some x) :
    ∃ lab, labs[n]? = some lab ∧ Names l x.pipe lab x.event := by
  obtain ⟨hlt, rfl⟩ := List.getElem?_eq_some_iff.mp hx
  have hlen := h.steps.length_eq
  refine ⟨labs[n], List.getElem?_eq_getElem (by omega), ?_⟩
  exact (List.forall₂_iff_get.mp h.steps).2 n (by omega) hlt

/-! ### What has been done -/

lemma Labelled.mem_plan (hlab : lab ∈ labs) : lab ∈ plan l m (lab.pipe l) := by
  rw [← h.order]
  exact List.mem_append_left _ (List.mem_filter.mpr ⟨hlab, by simp⟩)

/-- The scalar pipe has done its first `m` steps. -/
lemma Labelled.scalar_mem_iff : Label.scalar l i ∈ labs ↔ i < m := by
  have hpipe : ∀ i, (Label.scalar l i).pipe l = .s := by
    intro i
    unfold Label.scalar
    split_ifs with hs
    · exact hs
    · rfl
  have hord := h.order .s
  rw [plan, if_pos rfl] at hord
  have hm := h.issued
  have hle := congrArg List.length hord
  rw [List.length_append, hm, List.length_map, List.length_range] at hle
  have hfilter : (labs.filter fun lab => lab.pipe l = .s) =
      (List.range m).map (Label.scalar l) := by
    have htake := congrArg (List.take m) hord
    rwa [List.take_append_of_le_length hm.ge, List.take_of_length_le hm.le, ← List.map_take,
      List.take_range, Nat.min_eq_left (by omega)] at htake
  have hmem : Label.scalar l i ∈ labs ↔ Label.scalar l i ∈ (List.range m).map (Label.scalar l) := by
    rw [← hfilter, List.mem_filter, hpipe]
    simp
  rw [hmem, List.mem_map]
  constructor
  · rintro ⟨k, hk, heq⟩
    have := congrArg Label.pos heq
    rw [Label.pos_scalar, Label.pos_scalar] at this
    exact this ▸ List.mem_range.mp hk
  · exact fun hi => ⟨i, List.mem_range.mpr hi, rfl⟩

/-- The scalar pipe has done its step about the event of every step that was done. -/
lemma Labelled.lt_issued (hlab : lab ∈ labs) : lab.pos < m := by
  have hplan := h.mem_plan hlab
  by_cases hs : lab.pipe l = .s
  · rw [plan, if_pos hs] at hplan
    obtain ⟨k, -, rfl⟩ := List.mem_map.mp hplan
    rw [Label.pos_scalar]
    exact h.scalar_mem_iff.mp hlab
  · rw [plan, if_neg hs] at hplan
    obtain ⟨k, hk, ha⟩ := List.mem_flatMap.mp hplan
    obtain ⟨-, -, ha⟩ := mem_adds ha
    rw [Label.pos_scalar] at ha
    rcases ha with rfl | rfl <;> exact List.mem_range.mp hk

/-- Before an event the earlier ones of its pipe and of the scalar pipe have been executed. -/
lemma Labelled.exec_mem (hi : .exec i ∈ labs) (hij : j < i)
    (hp : pipeOf l j = pipeOf l i ∨ pipeOf l j = .s) : .exec j ∈ labs := by
  have him : i < m := h.lt_issued hi
  by_cases hs : pipeOf l j = .s
  · have := h.scalar_mem_iff.mpr (hij.trans him)
    rwa [Label.scalar, if_pos hs] at this
  · have hpi := hp.resolve_right hs
    refine h.mem_of_rank hi ?_ (show 2 * j + 1 < 2 * i + 1 by omega)
    exact (mem_plan_of_lt (hpi ▸ hs) hpi (hij.trans him)).2

/-- An event of another pipe has been issued, and its time event executed. -/
lemma Labelled.issue_mem (hi : .exec i ∈ labs) (hs : pipeOf l i ≠ .s) :
    .issue i ∈ labs ∧ .time i ∈ labs := by
  have him : i < m := h.lt_issued hi
  refine ⟨?_, h.mem_of_rank hi (mem_plan_of_lt hs rfl him).1 (show 2 * i < 2 * i + 1 by omega)⟩
  have := h.scalar_mem_iff.mpr him
  rwa [Label.scalar, if_neg hs] at this

/-- Steps of the run and events of the list are counted alike. -/
lemma Labelled.count_eq {P Q : ℕ → Prop} [DecidablePred P] [DecidablePred Q] (mk : ℕ → Label)
    (hmk : ∀ i, (mk i).pos = i) (hP : ∀ n, P n ↔ ∃ i, labs[n]? = some (mk i) ∧ Q i)
    (hlt : ∀ k, Q k → ∀ {n'}, labs[n']? = some (mk k) → (n' < n ↔ k < i))
    (hdone : ∀ k < i, Q k → mk k ∈ labs) : Nat.count P n = Nat.count Q i := by
  rw [Nat.count_eq_card_filter_range, Nat.count_eq_card_filter_range]
  refine Finset.card_bij (fun n' _ => (labs[n']?.map Label.pos).getD 0) ?_ ?_ ?_
  · intro n' hn'
    rw [Finset.mem_filter, Finset.mem_range] at hn'
    obtain ⟨k, hk, hQ⟩ := (hP n').mp hn'.2
    rw [hk, Option.map_some, Option.getD_some, hmk, Finset.mem_filter, Finset.mem_range]
    exact ⟨(hlt k hQ hk).mp hn'.1, hQ⟩
  · intro n₁ h₁ n₂ h₂ heq
    obtain ⟨k₁, hk₁, -⟩ := (hP n₁).mp (Finset.mem_filter.mp h₁).2
    obtain ⟨k₂, hk₂, -⟩ := (hP n₂).mp (Finset.mem_filter.mp h₂).2
    rw [hk₁, hk₂, Option.map_some, Option.map_some, Option.getD_some, Option.getD_some, hmk,
      hmk] at heq
    subst heq
    exact h.eq_of_label hk₁ hk₂
  · intro k hk
    rw [Finset.mem_filter, Finset.mem_range] at hk
    obtain ⟨n', hn'⟩ := List.getElem?_of_mem (hdone k hk.1 hk.2)
    refine ⟨n', Finset.mem_filter.mpr ⟨Finset.mem_range.mpr ?_, ?_⟩, ?_⟩
    · exact (hlt k hk.2 hn').mpr hk.1
    · exact (hP n').mpr ⟨k, hn', hk.2⟩
    · rw [hn', Option.map_some, Option.getD_some, hmk]

end Labelled

/-! ## Matched steps -/

lemma hasKey_iff {f : SanEvent → Option SyncEvent} {k : SyncEvent} :
    HasKey f l k i ↔ ∃ e, l[i]? = some e ∧ f e = some k := by
  rw [HasKey, Option.bind_eq_some_iff]

/-- A flag is set on its source pipe and waited for on its destination pipe. -/
lemma pipe_of_key {kt : KernelType} {dt : DeviceType} (he : InBlock kt dt b e)
    {k : SyncEvent} :
    (setKey e = some k → e.pipe = k.srcPipe) ∧ (waitKey e = some k → e.pipe = k.dstPipe) := by
  unfold setKey waitKey
  rcases he.2 with hm | ⟨info, hi, hsrc, hdst⟩
  · unfold PipelineReplayer.isMemEvent at hm
    split at hm <;> simp_all
  · simp only [hi]
    refine ⟨fun h => ?_, fun h => ?_⟩ <;> split_ifs at h with hop <;> rw [Option.some_inj] at h
    · exact (hsrc hop).trans (congrArg SyncEvent.srcPipe h)
    · exact (hdst hop).trans (congrArg SyncEvent.dstPipe h)

/-- The link through which a step sends, by its label. -/
def Label.sends (l : List SanEvent) (e : SanEvent) : Label → Option Link
  | issue i => some (.issue (pipeOf l i))
  | time _ => none
  | exec _ => (setKey e).map .flag

/-- The link through which a step gets a clock, by its label. -/
def Label.recvs (l : List SanEvent) (e : SanEvent) : Label → Option Link
  | issue _ => none
  | time i => some (.issue (pipeOf l i))
  | exec _ => (waitKey e).map .flag

lemma Names.sendOf (h : Names l x.pipe lab x.event) : sendOf x = lab.sends l x.event := by
  have hexec : x.event.pipe = x.pipe → BlockReplay.sendOf x = (setKey x.event).map .flag := by
    intro hp
    rw [BlockReplay.sendOf, if_neg (not_not_intro hp), setKey]
    cases x.event.info with
    | sync info =>
      dsimp only
      split_ifs <;> rfl
    | _ => rfl
  generalize he : x.event = e at h
  cases h with
  | issue h hp hne =>
    rw [BlockReplay.sendOf, if_pos (by rw [he, hp]; exact hne), he, Label.sends, pipeOf_eq h]
  | time h hp hne t =>
    rw [hexec (by rw [he]; exact hp), he]
    rfl
  | exec h hp =>
    rw [hexec (by rw [he]; exact hp), he]
    rfl

lemma Names.recvOf {kt : KernelType} {dt : DeviceType} (hl : ∀ e ∈ l, InBlock kt dt b e)
    (h : Names l x.pipe lab x.event) : recvOf x = lab.recvs l x.event := by
  generalize he : x.event = e at h
  cases h with
  | issue h hp hne =>
    rw [BlockReplay.recvOf, if_pos (by rw [he, hp]; exact hne)]
    rfl
  | time h hp hne t =>
    rw [BlockReplay.recvOf, if_neg (by rw [he]; exact not_not_intro hp), he, Label.recvs,
      pipeOf_eq h, hp]
    rfl
  | exec h hp =>
    rw [BlockReplay.recvOf, if_neg (by rw [he]; exact not_not_intro hp), he, Label.recvs, waitKey]
    -- no event of the list is a time event
    rcases (hl e (List.mem_of_getElem? h)).2 with hm | ⟨info, hi, -⟩
    · unfold PipelineReplayer.isMemEvent at hm
      split at hm <;> simp_all
    · simp only [hi]
      split_ifs <;> rfl

lemma Names.getElem?_exec (h : Names l p (.exec i) e) : l[i]? = some e := by
  cases h
  assumption

/-- The flags that steps send or get are those of the events they execute, and one pipe has all
events of a flag. -/
structure FlagsOf (l : List SanEvent) (linkOf : Exec → Option Link)
    (keyOf : SanEvent → Option SyncEvent) : Prop where
  exec : ∀ {x i}, Names l x.pipe (.exec i) x.event → linkOf x = (keyOf x.event).map .flag
  isExec : ∀ {x lab k}, Names l x.pipe lab x.event → linkOf x = some (.flag k) → ∃ i, lab = .exec i
  pipe : ∀ {k i i'}, HasKey keyOf l k i → HasKey keyOf l k i' → pipeOf l i' = pipeOf l i

lemma flagsOf_sets {kt : KernelType} {dt : DeviceType} (hl : ∀ e ∈ l, InBlock kt dt b e) :
    FlagsOf l sendOf setKey where
  exec := fun h => h.sendOf
  isExec {x lab k} h hk := by
    rw [h.sendOf] at hk
    cases lab with
    | exec i => exact ⟨i, rfl⟩
    | issue | time => simp [Label.sends] at hk
  pipe hk hk' := by
    obtain ⟨e, he, hk⟩ := hasKey_iff.mp hk
    obtain ⟨e', he', hk'⟩ := hasKey_iff.mp hk'
    rw [pipeOf_eq he, pipeOf_eq he', (pipe_of_key (hl e (List.mem_of_getElem? he))).1 hk,
      (pipe_of_key (hl e' (List.mem_of_getElem? he'))).1 hk']

lemma flagsOf_waits {kt : KernelType} {dt : DeviceType} (hl : ∀ e ∈ l, InBlock kt dt b e) :
    FlagsOf l recvOf waitKey where
  exec := fun h => h.recvOf hl
  isExec {x lab k} h hk := by
    rw [h.recvOf hl] at hk
    cases lab with
    | exec i => exact ⟨i, rfl⟩
    | issue | time => simp [Label.recvs] at hk
  pipe hk hk' := by
    obtain ⟨e, he, hk⟩ := hasKey_iff.mp hk
    obtain ⟨e', he', hk'⟩ := hasKey_iff.mp hk'
    rw [pipeOf_eq he, pipeOf_eq he', (pipe_of_key (hl e (List.mem_of_getElem? he))).2 hk,
      (pipe_of_key (hl e' (List.mem_of_getElem? he'))).2 hk']

section Matched

variable (h : Labelled l b tr s labs todo m)
include h

section

variable {linkOf : Exec → Option Link} {keyOf : SanEvent → Option SyncEvent}
  (hf : FlagsOf l linkOf keyOf) {k : SyncEvent}
include hf

lemma Labelled.hasKey_flag :
    HasKey linkOf tr (.flag k) n ↔ ∃ i, labs[n]? = some (.exec i) ∧ HasKey keyOf l k i := by
  constructor
  · intro hk
    obtain ⟨x, hx, hk⟩ := Option.bind_eq_some_iff.mp hk
    obtain ⟨lab, hlab, hname⟩ := h.exists_label hx
    obtain ⟨i, rfl⟩ := hf.isExec hname hk
    rw [hf.exec hname] at hk
    obtain ⟨k', hk', heq⟩ := Option.map_eq_some_iff.mp hk
    cases heq
    exact ⟨i, hlab, hasKey_iff.mpr ⟨_, hname.getElem?_exec, hk'⟩⟩
  · rintro ⟨i, hlab, hk⟩
    obtain ⟨x, hx, hname⟩ := h.names hlab
    obtain ⟨e, he, hk⟩ := hasKey_iff.mp hk
    rw [hname.getElem?_exec, Option.some_inj] at he
    rw [HasKey, hx, Option.bind_some, hf.exec hname, he, hk, Option.map_some]

/-- A set or wait has the same number in the run and in the list. -/
lemma Labelled.before_flag (hn : labs[n]? = some (.exec i)) (hk : HasKey keyOf l k i) :
    before linkOf tr (.flag k) n = before keyOf l k i := by
  refine h.count_eq .exec (fun _ => rfl) (fun n => h.hasKey_flag hf) (fun k' hk' n' hn' => ?_)
    fun k' hlt hk' => h.exec_mem (List.mem_of_getElem? hn) hlt (.inl (hf.pipe hk hk'))
  rw [h.lt_iff_rank hn' hn (hf.pipe hk hk'), Label.rank, Label.rank]
  omega

end

lemma Labelled.hasKey_issue :
    HasKey sendOf tr (.issue q) n ↔ ∃ i, labs[n]? = some (.issue i) ∧ pipeOf l i = q := by
  constructor
  · intro hk
    obtain ⟨x, hx, hk⟩ := Option.bind_eq_some_iff.mp hk
    obtain ⟨lab, hlab, hname⟩ := h.exists_label hx
    rw [hname.sendOf] at hk
    cases lab with
    | issue i =>
      cases hk
      exact ⟨i, hlab, rfl⟩
    | time => cases hk
    | exec => simp [Label.sends] at hk
  · rintro ⟨i, hlab, rfl⟩
    obtain ⟨x, hx, hname⟩ := h.names hlab
    rw [HasKey, hx, Option.bind_some, hname.sendOf, Label.sends]

variable {kt : KernelType} {dt : DeviceType} (hl : ∀ e ∈ l, InBlock kt dt b e)
include hl

lemma Labelled.hasKey_time :
    HasKey recvOf tr (.issue q) n ↔ ∃ i, labs[n]? = some (.time i) ∧ pipeOf l i = q := by
  constructor
  · intro hk
    obtain ⟨x, hx, hk⟩ := Option.bind_eq_some_iff.mp hk
    obtain ⟨lab, hlab, hname⟩ := h.exists_label hx
    rw [hname.recvOf hl] at hk
    cases lab with
    | time i =>
      cases hk
      exact ⟨i, hlab, rfl⟩
    | issue => cases hk
    | exec => simp [Label.recvs] at hk
  · rintro ⟨i, hlab, rfl⟩
    obtain ⟨x, hx, hname⟩ := h.names hlab
    rw [HasKey, hx, Option.bind_some, hname.recvOf hl, Label.recvs]

/-- **Flags are matched in a run as in the list.** -/
lemma Labelled.matched_flag (hn : labs[n]? = some (.exec i)) (hn' : labs[n']? = some (.exec j)) :
    (∃ k, HasKey sendOf tr (.flag k) n ∧ HasKey recvOf tr (.flag k) n' ∧
      before sendOf tr (.flag k) n = before recvOf tr (.flag k) n') ↔
      Matched setKey waitKey l i j := by
  refine exists_congr fun k => ?_
  have hset : HasKey sendOf tr (.flag k) n ↔ HasKey setKey l k i := by
    rw [h.hasKey_flag (flagsOf_sets hl)]
    constructor
    · rintro ⟨i', hi', hk⟩
      rw [hn, Option.some_inj, Label.exec.injEq] at hi'
      exact hi' ▸ hk
    · exact fun hk => ⟨i, hn, hk⟩
  have hwait : HasKey recvOf tr (.flag k) n' ↔ HasKey waitKey l k j := by
    rw [h.hasKey_flag (flagsOf_waits hl)]
    constructor
    · rintro ⟨i', hi', hk⟩
      rw [hn', Option.some_inj, Label.exec.injEq] at hi'
      exact hi' ▸ hk
    · exact fun hk => ⟨j, hn', hk⟩
  rw [hset, hwait]
  refine and_congr_right fun hks => and_congr_right fun hkw => ?_
  rw [h.before_flag (flagsOf_sets hl) hn hks, h.before_flag (flagsOf_waits hl) hn' hkw]

omit hl in
/-- An issue has the number of its event among the events of the pipe. -/
lemma Labelled.before_issue (hn : labs[n]? = some (.issue i)) :
    before sendOf tr (.issue (pipeOf l i)) n =
      Nat.count (fun k => pipeOf l k = pipeOf l i) i := by
  obtain ⟨x, -, hname⟩ := h.names hn
  have hs : pipeOf l i ≠ .s := by
    cases hname with
    | issue he _ hne => rwa [pipeOf_eq he]
  refine h.count_eq .issue (fun _ => rfl) (fun n => h.hasKey_issue) (fun k hk n' hn' => ?_)
    fun k hlt hk => ?_
  · rw [h.lt_iff_rank hn' hn rfl, Label.rank, Label.rank]
    omega
  · have him : i < m := h.lt_issued (List.mem_of_getElem? hn)
    have := h.scalar_mem_iff.mpr (hlt.trans him)
    rwa [Label.scalar, if_neg (hk ▸ hs)] at this

lemma Labelled.before_time (hn : labs[n]? = some (.time i)) :
    before recvOf tr (.issue (pipeOf l i)) n =
      Nat.count (fun k => pipeOf l k = pipeOf l i) i := by
  obtain ⟨x, -, hname⟩ := h.names hn
  have hs : pipeOf l i ≠ .s := by
    have hpipe : pipeOf l i = x.pipe := hname.pipe
    generalize x.event = e at hname
    cases hname with
    | time _ _ hne => rwa [hpipe]
  refine h.count_eq .time (fun _ => rfl) (fun n => h.hasKey_time hl) (fun k hk n' hn' => ?_)
    fun k hlt hk => ?_
  · rw [h.lt_iff_rank hn' hn hk, Label.rank, Label.rank]
    omega
  · have him : i < m := h.lt_issued (List.mem_of_getElem? hn)
    exact h.mem_of_rank (List.mem_of_getElem? hn) (mem_plan_of_lt hs hk (hlt.trans him)).1
      (show 2 * k < 2 * i by omega)

/-- **An issue is matched with the time event that it pushes.** -/
lemma Labelled.matched_issue (hn : labs[n]? = some (.issue i)) (hn' : labs[n']? = some (.time j)) :
    Matched sendOf recvOf tr n n' ↔ i = j := by
  have hsend := h.hasKey_issue.mpr ⟨i, hn, rfl⟩
  have hrecv := (h.hasKey_time hl).mpr ⟨j, hn', rfl⟩
  constructor
  · rintro ⟨k, hs, hr, heq⟩
    rw [HasKey] at hs hr hsend hrecv
    obtain rfl := Option.some_inj.mp (hs.symm.trans hsend)
    have hpipe := Option.some_inj.mp (hr.symm.trans hrecv)
    rw [Link.issue.injEq] at hpipe
    rw [h.before_issue hn, hpipe, h.before_time hl hn'] at heq
    exact Nat.count_injective (p := fun k => pipeOf l k = pipeOf l j) hpipe rfl heq
  · rintro rfl
    exact ⟨_, hsend, hrecv, by rw [h.before_issue hn, h.before_time hl hn']⟩

/-! ## Both orders -/

omit h hl in
lemma Labelled.edge (h : Labelled l b tr s labs todo m) (hn : labs[n]? = some lab)
    (hn' : labs[n']? = some lab') (hp : lab.pipe l = lab'.pipe l) (hr : lab.rank < lab'.rank) :
    Edge tr n n' := by
  obtain ⟨x, hx, hname⟩ := h.names hn
  obtain ⟨y, hy, hname'⟩ := h.names hn'
  refine .inl ⟨(h.lt_iff_rank hn hn' hp).mpr hr, x, y, hx, hy, ?_⟩
  rw [← hname.pipe, hp, hname'.pipe]

/-- A wait that was executed took the clock of its set. -/
lemma Labelled.set_of_wait (hrun : IsRun b tr) (hn' : labs[n']? = some (.exec j)) {k : SyncEvent}
    (hk : HasKey waitKey l k j) : ∃ i n, labs[n]? = some (.exec i) ∧
      Matched setKey waitKey l i j ∧ Edge tr n n' := by
  have hwait := (h.hasKey_flag (flagsOf_waits hl)).mpr ⟨j, hn', hk⟩
  obtain ⟨x, hx, hrecv⟩ := Option.bind_eq_some_iff.mp hwait
  obtain ⟨n, -, hm, -⟩ := hrun.merged hx hrecv
  obtain ⟨k', hs, hw, heq⟩ := id hm
  obtain rfl : k' = .flag k := by
    rw [HasKey, hx, Option.bind_some, hrecv, Option.some_inj] at hw
    exact hw.symm
  obtain ⟨i, hn, -⟩ := (h.hasKey_flag (flagsOf_sets hl)).mp hs
  exact ⟨i, n, hn, (h.matched_flag hl hn hn').mp ⟨k, hs, hw, heq⟩, .inr hm⟩

/-- What comes before an event that was executed was executed, and reaches it. -/
lemma Labelled.reaches_of_before (hrun : IsRun b tr) (hn' : labs[n']? = some (.exec j))
    (hb : Before l i j) :
    ∃ n, labs[n]? = some (.exec i) ∧ Relation.TransGen (Edge tr) n n' := by
  have hmem := List.mem_of_getElem? hn'
  cases hb with
  | pipe hij _ hp =>
    obtain ⟨n, hn⟩ := List.getElem?_of_mem (h.exec_mem hmem hij (.inl hp))
    exact ⟨n, hn, .single (h.edge hn hn' hp (show 2 * i + 1 < 2 * j + 1 by omega))⟩
  | issue hij _ hs =>
    obtain ⟨n, hn⟩ := List.getElem?_of_mem (h.exec_mem hmem hij (.inr hs))
    refine ⟨n, hn, ?_⟩
    by_cases hj : pipeOf l j = .s
    · exact .single (h.edge hn hn' (hs.trans hj.symm) (show 2 * i + 1 < 2 * j + 1 by omega))
    · obtain ⟨hissue, htime⟩ := h.issue_mem hmem hj
      obtain ⟨n₁, hn₁⟩ := List.getElem?_of_mem hissue
      obtain ⟨n₂, hn₂⟩ := List.getElem?_of_mem htime
      have h1 : Edge tr n n₁ := h.edge hn hn₁ hs (show 2 * i + 1 < 2 * j + 1 by omega)
      have h2 : Edge tr n₁ n₂ := .inr ((h.matched_issue hl hn₁ hn₂).mpr rfl)
      have h3 : Edge tr n₂ n' := h.edge hn₂ hn' rfl (show 2 * j < 2 * j + 1 by omega)
      exact ((Relation.TransGen.single h1).tail h2).tail h3
  | flag hm =>
    obtain ⟨k, -, hw, -⟩ := id hm
    obtain ⟨i', n, hn, hm', hedge⟩ := h.set_of_wait hl hrun hn' hw
    obtain rfl := hm'.unique hm
    exact ⟨n, hn, .single hedge⟩

omit h hl in
/-- An event that happens after `i` is the event of the step, or comes before it. -/
def Reached (l : List SanEvent) (i : ℕ) (lab : Label) : Prop :=
  ∃ i', HappensBefore l i i' ∧ (lab = .exec i' ∨
    i' < lab.pos ∧ (pipeOf l i' = .s ∨ pipeOf l i' = lab.pipe l))

omit h hl in
lemma Reached.happensBefore (h : Reached l i (.exec j)) (hj : j < l.length) :
    HappensBefore l i j := by
  obtain ⟨i', hi', heq | ⟨hlt, hs | hp⟩⟩ := h
  · rw [Label.exec.injEq] at heq
    exact heq ▸ hi'
  · exact hi'.tail (.issue hlt hj hs)
  · exact hi'.tail (.pipe hlt hj hp)

omit h hl in
/-- On its way along a pipe a path stays behind the same event. -/
lemma Reached.along (h : Reached l i lab) (hp : lab.pipe l = lab'.pipe l)
    (hr : lab.rank < lab'.rank) : Reached l i lab' := by
  have hrank : ∀ lab : Label, 2 * lab.pos ≤ lab.rank ∧ lab.rank ≤ 2 * lab.pos + 1 := by
    intro lab
    cases lab <;> simp [Label.pos, Label.rank]
  have h1 := hrank lab
  have h2 := hrank lab'
  obtain ⟨i', hi', rfl | ⟨hlt, hbefore⟩⟩ := h
  · have hr : 2 * i' + 1 < lab'.rank := hr
    exact ⟨i', hi', .inr ⟨by omega, .inr hp⟩⟩
  · exact ⟨i', hi', .inr ⟨by omega, hp ▸ hbefore⟩⟩

/-- Every step that a path reaches is behind an event of the list. -/
lemma Labelled.reached (hn : labs[n]? = some (.exec i)) (hr : Reaches tr n n')
    (hn' : labs[n']? = some lab') : Reached l i lab' := by
  induction hr generalizing lab' with
  | refl =>
    rw [hn, Option.some_inj] at hn'
    exact ⟨i, .refl, .inl hn'.symm⟩
  | @tail n₁ n₂ _ hedge ih =>
    rcases hedge with ⟨hlt, x, y, hx, hy, hp⟩ | hm
    · obtain ⟨lab, hlab, hname⟩ := h.exists_label hx
      obtain ⟨y', hy', hname'⟩ := h.names hn'
      rw [hy, Option.some_inj] at hy'
      have hpipe : lab.pipe l = lab'.pipe l := by
        rw [hname.pipe, hp, hy', hname'.pipe]
      exact (ih hlab).along hpipe ((h.lt_iff_rank hlab hn' hpipe).mp hlt)
    · obtain ⟨k, hs, hw, heq⟩ := id hm
      cases k with
      | flag k =>
        obtain ⟨i₁, hi₁, -⟩ := (h.hasKey_flag (flagsOf_sets hl)).mp hs
        obtain ⟨i₂, hi₂, -⟩ := (h.hasKey_flag (flagsOf_waits hl)).mp hw
        rw [hn', Option.some_inj] at hi₂
        subst hi₂
        obtain ⟨x, -, hname⟩ := h.names hi₁
        have hlt := (List.getElem?_eq_some_iff.mp hname.getElem?_exec).1
        refine ⟨i₂, ((ih hi₁).happensBefore hlt).tail (.flag ?_), .inl rfl⟩
        exact (h.matched_flag hl hi₁ hn').mp ⟨k, hs, hw, heq⟩
      | issue q =>
        obtain ⟨i₁, hi₁, -⟩ := h.hasKey_issue.mp hs
        obtain ⟨i₂, hi₂, -⟩ := (h.hasKey_time hl).mp hw
        obtain rfl := (h.matched_issue hl hi₁ hi₂).mp hm
        rw [hn', Option.some_inj] at hi₂
        subst hi₂
        obtain ⟨i', hi', hc | ⟨hlt, hbefore⟩⟩ := ih hi₁
        · cases hc
        · exact ⟨i', hi', .inr ⟨hlt, .inl (hbefore.elim id id)⟩⟩

/-- **The order of a run is the order of the list.** -/
theorem Labelled.reaches_iff (hrun : IsRun b tr) (hn : labs[n]? = some (.exec i))
    (hn' : labs[n']? = some (.exec j)) : Reaches tr n n' ↔ HappensBefore l i j := by
  constructor
  · intro hr
    obtain ⟨x, -, hname⟩ := h.names hn'
    exact (h.reached hl hn hr hn').happensBefore
      (List.getElem?_eq_some_iff.mp hname.getElem?_exec).1
  · intro hb
    induction hb generalizing n' with
    | refl => exact h.eq_of_label hn hn' ▸ .refl
    | tail _ hb ih =>
      obtain ⟨n₁, hn₁, hr⟩ := h.reaches_of_before hl hrun hn' hb
      exact (ih hn₁).trans hr.to_reflTransGen

/-! ## What is executed -/

omit h hl in
lemma IsRun.edge_lt (hrun : IsRun b tr) (he : Edge tr n n') : n < n' := by
  rcases he with ⟨hlt, -⟩ | hm
  · exact hlt
  · exact hrun.matched_lt hm

lemma Labelled.runs (hrun : IsRun b tr) (hn : labs[n]? = some (.exec i)) : Runs l i := by
  induction n using Nat.strong_induction_on generalizing i with
  | _ n ih =>
    obtain ⟨x, hx, hname⟩ := h.names hn
    refine .intro (List.getElem?_eq_some_iff.mp hname.getElem?_exec).1 (fun j hj => ?_)
      fun k hk => ?_
    · obtain ⟨n', hn', hedges⟩ := h.reaches_of_before hl hrun hn hj
      have hle : Edge tr ≤ (· < ·) := fun _ _ => hrun.edge_lt
      exact ih n' (Relation.transGen_minimal hle n' n hedges) hn'
    · obtain ⟨j, -, -, hm, -⟩ := h.set_of_wait hl hrun hn hk
      exact ⟨j, hm⟩

omit hl in
/-- A step that is to be done was not done, and none after it on its pipe. -/
lemma Labelled.rank_lt_todo (hlab : lab ∈ labs) (htodo : lab' ∈ todo (lab.pipe l)) :
    lab.rank < lab'.rank := by
  have hsorted := plan_sorted l m (lab.pipe l)
  rw [← h.order] at hsorted
  exact (List.pairwise_append.mp hsorted).2.2 lab (List.mem_filter.mpr ⟨hlab, by simp⟩) lab' htodo

omit hl in
/-- When all queues are stuck, the front of a queue is a wait for a flag that is not set. -/
lemma Labelled.front_of_stuck (hfit : Fit b s) (hs : Stuck b s) {rest : List Label}
    (ht : todo p = lab :: rest) : ∃ i e k, lab = .exec i ∧ l[i]? = some e ∧ waitKey e = some k ∧
      e.pipe = p ∧ s.alg.syncDB k = [] := by
  have hqueued := h.queued p
  rw [ht] at hqueued
  obtain ⟨e, erest, hname, -, hq⟩ := List.forall₂_cons_left_iff.mp hqueued
  rcases poll_cons hfit hq with ⟨⟨hp, info, hi, hop, -, hdb⟩, -⟩ | ⟨_, _, _, _, _, -, hsome, -⟩
  · have hkey : waitKey e = some (.ofInfo info) := by
      simp only [waitKey, hi, hop, if_true]
    cases hname with
    | issue _ hp' hne => exact absurd (hp.trans hp') hne
    | time => cases hi
    | exec he _ => exact ⟨_, e, _, rfl, he, hkey, hp, hdb⟩
  · rw [hs p] at hsome
    cases hsome

/-- A wait at the front of its queue finds its flag, when the set of the flag was executed and the
waits before it were. -/
lemma Labelled.flag_of_set (hu : Underway b tr s) {k : SyncEvent}
    (hfront : .exec i ∈ todo (pipeOf l i)) (hk : HasKey waitKey l k i)
    (hm : Matched setKey waitKey l j i) (hj : .exec j ∈ labs)
    (hdone : ∀ i' < i, HasKey waitKey l k i' → .exec i' ∈ labs) : s.alg.syncDB k ≠ [] := by
  obtain ⟨k', hset, hwait, heq⟩ := hm
  obtain rfl : k' = k := Option.some_inj.mp (hwait.symm.trans hk)
  have hwaits : tally recvOf tr (.flag k') = before waitKey l k' i := by
    rw [← List.take_length (l := tr), tally_take le_rfl]
    refine h.count_eq .exec (fun _ => rfl) (fun n => h.hasKey_flag (flagsOf_waits hl))
      (fun i' hk' n' hn' => ?_) hdone
    have hpipe : pipeOf l i' = pipeOf l i := (flagsOf_waits hl).pipe hk hk'
    have hrank : 2 * i' + 1 < 2 * i + 1 :=
      h.rank_lt_todo (List.mem_of_getElem? hn') (show Label.exec i ∈ todo (pipeOf l i') from
        hpipe ▸ hfront)
    have hlen := h.steps.length_eq
    have := (List.getElem?_eq_some_iff.mp hn').1
    omega
  have hsets : before setKey l k' j < (sent sendOf Exec.clock tr (.flag k')).length := by
    obtain ⟨n, hn⟩ := List.getElem?_of_mem hj
    have hlt : n < tr.length := by
      have hlen := h.steps.length_eq
      have := (List.getElem?_eq_some_iff.mp hn).1
      omega
    rw [sent, List.length_map, ← List.countP_eq_length_filter]
    have htally : tally sendOf tr (.flag k') = before sendOf tr (.flag k') tr.length := by
      conv_lhs => rw [← List.take_length (l := tr)]
      exact tally_take le_rfl _
    have hmono : before sendOf tr (.flag k') (n + 1) ≤ before sendOf tr (.flag k') tr.length :=
      Nat.count_monotone _ hlt
    have hsucc : before sendOf tr (.flag k') (n + 1) = before sendOf tr (.flag k') n + 1 := by
      have hkey := (h.hasKey_flag (flagsOf_sets hl)).mpr ⟨j, hn, hset⟩
      rw [before, Nat.count_succ, if_pos hkey, before]
    rw [h.before_flag (flagsOf_sets hl) hn hset] at hsucc
    rw [tally] at htally
    omega
  intro hnil
  have hpending : pending b s (.flag k') = [] := hnil
  rw [hu.pending, List.drop_eq_nil_iff] at hpending
  omega

/-- **When all queues are stuck, the events that get through have been executed.** -/
lemma Labelled.exec_of_runs (hu : Underway b tr s) (hfit : Fit b s) (hs : Stuck b s)
    (hi : Runs l i) : .exec i ∈ labs := by
  induction hi with
  | @intro i hlen _ hset ih =>
    by_contra hnot
    have hpipe : ∀ j < i, pipeOf l j = pipeOf l i ∨ pipeOf l j = .s → .exec j ∈ labs := by
      intro j hj hp
      exact ih j (hp.elim (.pipe hj hlen) (.issue hj hlen))
    -- it has left the scalar queue, unless it is executed from there
    have him : i < m ∨ pipeOf l i = .s := by
      by_contra hc
      rw [not_or, not_lt] at hc
      have hms : Label.scalar l m ∉ labs := fun hc => lt_irrefl m (h.scalar_mem_iff.mp hc)
      have hmem : Label.scalar l m ∈ todo .s := by
        have hplan : Label.scalar l m ∈ plan l m .s := by
          rw [plan, if_pos rfl]
          exact List.mem_map.mpr ⟨m, List.mem_range.mpr (by omega), rfl⟩
        rw [← h.order] at hplan
        exact (List.mem_append.mp hplan).resolve_left fun hc => hms (List.mem_of_mem_filter hc)
      obtain ⟨lab, rest, ht⟩ := List.exists_cons_of_ne_nil (List.ne_nil_of_mem hmem)
      obtain ⟨i', e, k, heq, -⟩ := h.front_of_stuck hfit hs ht
      obtain ⟨hlab, -⟩ := h.front_scalar ht
      have hpm : pipeOf l m = .s := by
        by_contra hne
        rw [hlab, Label.scalar, if_neg hne] at heq
        cases heq
      rw [Label.scalar, if_pos hpm] at hms
      rcases Nat.lt_or_ge m i with hlt | hge
      · exact hms (hpipe m hlt (.inr hpm))
      · exact hc.2 (le_antisymm hc.1 hge ▸ hpm)
    have htodo : .exec i ∈ todo (pipeOf l i) := by
      have hplan : Label.exec i ∈ plan l m (pipeOf l i) := by
        by_cases hps : pipeOf l i = .s
        · rw [plan, if_pos hps, List.mem_map]
          exact ⟨i, List.mem_range.mpr hlen, by rw [Label.scalar, if_pos hps]⟩
        · exact (mem_plan_of_lt hps rfl (him.resolve_right hps)).2
      rw [← h.order] at hplan
      exact (List.mem_append.mp hplan).resolve_left fun hc => hnot (List.mem_of_mem_filter hc)
    -- and it is the front of that queue
    obtain ⟨lab, rest, ht⟩ := List.exists_cons_of_ne_nil (List.ne_nil_of_mem htodo)
    obtain ⟨i', e, k, rfl, he, hkey, hp, hdb⟩ := h.front_of_stuck hfit hs ht
    have hpi : pipeOf l i' = pipeOf l i := (pipeOf_eq he).trans hp
    have hle : i' ≤ i := by
      have hsorted := plan_sorted l m (pipeOf l i)
      rw [← h.order, ht] at hsorted
      have hhead := List.pairwise_cons.mp (List.pairwise_append.mp hsorted).2.1
      rw [ht] at htodo
      rcases List.mem_cons.mp htodo with heq | hmem
      · rw [Label.exec.injEq] at heq
        exact heq.ge
      · have := hhead.1 _ hmem
        simp only [Label.rank] at this
        omega
    obtain rfl : i' = i := by
      by_contra hne
      have hdone := hpipe i' (lt_of_le_of_ne hle hne) (.inl hpi)
      have hmem : Label.exec i' ∈ todo (Label.pipe l (.exec i')) := by
        rw [show Label.pipe l (.exec i') = pipeOf l i from hpi, ht]
        exact List.mem_cons_self
      exact lt_irrefl _ (h.rank_lt_todo hdone hmem)
    have hk : HasKey waitKey l k i' := hasKey_iff.mpr ⟨e, he, hkey⟩
    obtain ⟨j, hm⟩ := hset k hk
    refine h.flag_of_set hl hu htodo hk hm (ih j (.flag hm)) (fun j' hj' hk' => ?_) hdb
    exact hpipe j' hj' (.inl ((flagsOf_waits hl).pipe hk hk'))

end Matched

end MsSanitizer.BlockReplay
