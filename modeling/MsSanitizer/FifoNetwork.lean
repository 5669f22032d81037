import Mathlib.Logic.Relation
import Mathlib.Tactic

/-!
# Processes that talk through queues

A network has processes and queues; one process writes to a queue and one reads from it. A process
takes a step when the messages that it needs are at the fronts of its queues. No other process can
take these messages away, and messages added at the ends do not change what the step does, so two
steps of different processes can be taken in either order. A network that is run until no process
can take a step therefore ends in one state, whatever the order of the steps.
-/

namespace MsSanitizer.FifoNetwork

variable {P K M σ : Type*}

/-- What a step does: the new state of its process, the queues from which it takes a message, and
the messages that it adds. -/
structure Effect (K M σ : Type*) where
  state : σ
  takes : K → Bool
  adds : K → List M

/-- The queues with their two ends, and the step of a process at the fronts of the queues. A step
needs nothing but the messages it sees at the fronts of its own queues. -/
structure Net (P K M σ : Type*) where
  writer : K → P
  reader : K → P
  next : P → σ → (K → Option M) → Option (Effect K M σ)
  stable : ∀ {p l h h' r}, next p l h = some r →
    (∀ k, reader k = p → ∀ m, h k = some m → h' k = some m) → next p l h' = some r
  takes_own : ∀ {p l h r k}, next p l h = some r → r.takes k = true → reader k = p ∧ h k ≠ none
  adds_own : ∀ {p l h r k}, next p l h = some r → r.adds k ≠ [] → writer k = p

@[ext]
structure State (P K M σ : Type*) where
  loc : P → σ
  queue : K → List M

def State.fronts (s : State P K M σ) (k : K) : Option M := (s.queue k).head?

variable [DecidableEq P]

/-- A state after a step of `p`. -/
def State.apply (s : State P K M σ) (p : P) (r : Effect K M σ) : State P K M σ where
  loc := Function.update s.loc p r.state
  queue k := (if r.takes k then (s.queue k).tail else s.queue k) ++ r.adds k

namespace Net

variable (N : Net P K M σ)

def step (p : P) (s : State P K M σ) : Option (State P K M σ) :=
  (N.next p (s.loc p) s.fronts).map (s.apply p)

def Moves (s s' : State P K M σ) : Prop := ∃ p, N.step p s = some s'

def Stuck (s : State P K M σ) : Prop := ∀ p, N.step p s = none

variable {N} {s s₁ s₂ : State P K M σ} {p p' : P}

lemma step_eq_some (h : N.step p s = some s₁) :
    ∃ r, N.next p (s.loc p) s.fronts = some r ∧ s₁ = s.apply p r := by
  obtain ⟨r, hr, heq⟩ := Option.map_eq_some_iff.mp h
  exact ⟨r, hr, heq.symm⟩

lemma next_apply (hne : p ≠ p') {r r' : Effect K M σ} (hr : N.next p (s.loc p) s.fronts = some r)
    (hr' : N.next p' (s.loc p') s.fronts = some r') :
    N.next p' ((s.apply p r).loc p') (s.apply p r).fronts = some r' := by
  have hloc : (s.apply p r).loc p' = s.loc p' := Function.update_of_ne hne.symm _ _
  rw [hloc]
  refine N.stable hr' fun k hk m hm => ?_
  have htake : r.takes k = false := by
    by_contra hc
    exact hne ((N.takes_own hr (by simpa using hc)).1.symm.trans hk)
  simp only [State.fronts, State.apply, htake, Bool.false_eq_true, if_false] at hm ⊢
  rw [List.head?_append, hm, Option.some_or]

/-- A queue after two steps that do not both take from it and do not both add to it. -/
lemma queue_comm {q a a' : List M} {t t' : Bool} (ha : a = [] ∨ a' = [])
    (ht : t = false ∨ t' = false) (hq : t = true ∨ t' = true → q ≠ []) :
    (if t' then ((if t then q.tail else q) ++ a).tail else (if t then q.tail else q) ++ a) ++ a' =
      (if t then ((if t' then q.tail else q) ++ a').tail else (if t' then q.tail else q) ++ a') ++
        a := by
  cases t <;> cases t'
  · rcases ha with rfl | rfl <;> simp
  · obtain ⟨m, l, rfl⟩ := List.exists_cons_of_ne_nil (hq (Or.inr rfl))
    rcases ha with rfl | rfl <;> simp
  · obtain ⟨m, l, rfl⟩ := List.exists_cons_of_ne_nil (hq (Or.inl rfl))
    rcases ha with rfl | rfl <;> simp
  · rcases ht with h | h <;> cases h

/-- **Two steps of different processes can be taken in either order.** -/
lemma step_comm (hne : p ≠ p') (h₁ : N.step p s = some s₁) (h₂ : N.step p' s = some s₂) :
    ∃ t, N.step p' s₁ = some t ∧ N.step p s₂ = some t := by
  obtain ⟨r, hr, rfl⟩ := step_eq_some h₁
  obtain ⟨r', hr', rfl⟩ := step_eq_some h₂
  refine ⟨(s.apply p r).apply p' r', ?_, ?_⟩
  · rw [step, next_apply hne hr hr', Option.map_some]
  · rw [step, next_apply hne.symm hr' hr, Option.map_some]
    congr 1
    refine State.ext (Function.update_comm hne _ _ _).symm (funext fun k => ?_)
    have hadds : r.adds k = [] ∨ r'.adds k = [] := by
      by_contra hc
      rw [not_or] at hc
      exact hne ((N.adds_own hr hc.1).symm.trans (N.adds_own hr' hc.2))
    have htakes : r.takes k = false ∨ r'.takes k = false := by
      by_contra hc
      simp only [not_or, Bool.not_eq_false] at hc
      exact hne ((N.takes_own hr hc.1).1.symm.trans (N.takes_own hr' hc.2).1)
    have hfront : r.takes k = true ∨ r'.takes k = true → s.queue k ≠ [] := by
      rintro (hc | hc) hnil
      · exact (N.takes_own hr hc).2 (by rw [State.fronts, hnil]; rfl)
      · exact (N.takes_own hr' hc).2 (by rw [State.fronts, hnil]; rfl)
    exact (queue_comm hadds htakes hfront).symm

/-- **The order of the steps does not matter.** Two runs from one state that go on until no process
can take a step end in the same state. -/
theorem eq_of_stuck {t₁ t₂ : State P K M σ} (h₁ : Relation.ReflTransGen N.Moves s t₁)
    (hs₁ : N.Stuck t₁) (h₂ : Relation.ReflTransGen N.Moves s t₂) (hs₂ : N.Stuck t₂) : t₁ = t₂ := by
  have hdiamond : ∀ a b c, N.Moves a b → N.Moves a c →
      ∃ d, Relation.ReflGen N.Moves b d ∧ Relation.ReflTransGen N.Moves c d := by
    rintro a b c ⟨p, hb⟩ ⟨p', hc⟩
    by_cases hpp : p = p'
    · subst hpp
      have hbc : b = c := Option.some_injective _ (hb.symm.trans hc)
      exact ⟨c, hbc ▸ Relation.ReflGen.refl, Relation.ReflTransGen.refl⟩
    · obtain ⟨d, hbd, hcd⟩ := step_comm hpp hb hc
      exact ⟨d, Relation.ReflGen.single ⟨p', hbd⟩, Relation.ReflTransGen.single ⟨p, hcd⟩⟩
  have hend : ∀ {t d}, N.Stuck t → Relation.ReflTransGen N.Moves t d → t = d := by
    intro t d ht htd
    rcases htd.cases_head with heq | ⟨u, ⟨p, hp⟩, -⟩
    · exact heq
    · rw [ht p] at hp
      cases hp
  obtain ⟨d, hd₁, hd₂⟩ := Relation.church_rosser hdiamond h₁ h₂
  exact (hend hs₁ hd₁).trans (hend hs₂ hd₂).symm

end Net

end MsSanitizer.FifoNetwork
