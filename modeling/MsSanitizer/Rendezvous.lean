import Mathlib.Data.Finset.Max
import Mathlib.Data.Finset.Lattice.Fold
import Mathlib.Tactic

/-!
# Rounds of sets and waits

A net has sources, which set, and sinks, which wait. The sources come in classes: a round of a
class is complete when each of its sources has set once more than in the rounds before, and it
releases each sink of the class for one wait. The machine keeps the sets of a source that wait
for their round, and for each sink the times it was released with; such a time is at least the
times of the sets of its round.

The specification speaks of a trace only: it counts the sets of the sources of a sink and the
waits of the sink.
-/

namespace MsSanitizer.Rendezvous

variable {ι ω κ τ : Type*}

/-- An operation with its result: the time that a wait ends with, if it succeeds. -/
inductive Label (ι ω τ : Type*)
  | set (i : ι) (t : τ)
  | wait (w : ω) (t : Option τ)

section Sets

variable [DecidableEq ι]

/-- The time of a set by `i`. -/
def Label.setOf (i : ι) : Label ι ω τ → Option τ
  | .set j t => if j = i then some t else none
  | .wait _ _ => none

/-- The times of the sets by `i`. -/
def sets (i : ι) (tr : List (Label ι ω τ)) : List τ := tr.filterMap (Label.setOf i)

/-- The number of complete rounds of some sources. -/
def rounds (srcs : Finset ι) (tr : List (Label ι ω τ)) : ℕ :=
  if h : srcs.Nonempty then srcs.inf' h fun i => (sets i tr).length else 0

lemma sets_concat (i : ι) (tr : List (Label ι ω τ)) (l : Label ι ω τ) :
    sets i (tr ++ [l]) = sets i tr ++ (l.setOf i).toList := by
  rw [sets, List.filterMap_append, List.filterMap_cons]
  cases l.setOf i <;> rfl

variable {srcs : Finset ι} {tr : List (Label ι ω τ)}

lemma rounds_le {i : ι} (hi : i ∈ srcs) : rounds srcs tr ≤ (sets i tr).length := by
  rw [rounds, dif_pos ⟨i, hi⟩]
  exact Finset.inf'_le _ hi

lemma exists_eq_rounds (h : srcs.Nonempty) : ∃ i ∈ srcs, (sets i tr).length = rounds srcs tr := by
  rw [rounds, dif_pos h]
  obtain ⟨i, hi, heq⟩ := Finset.exists_mem_eq_inf' h fun i => (sets i tr).length
  exact ⟨i, hi, heq.symm⟩

lemma le_rounds {n : ℕ} (h : srcs.Nonempty) (hn : ∀ i ∈ srcs, n ≤ (sets i tr).length) :
    n ≤ rounds srcs tr := by
  rw [rounds, dif_pos h, Finset.le_inf'_iff]
  exact hn

lemma rounds_concat_of_none {l : Label ι ω τ} (h : ∀ i ∈ srcs, l.setOf i = none) :
    rounds srcs (tr ++ [l]) = rounds srcs tr := by
  rw [rounds, rounds]
  congr 1
  funext hne
  refine Finset.inf'_congr hne rfl fun i hi => ?_
  rw [sets_concat, h i hi, Option.toList_none, List.append_nil]

end Sets

section Waits

variable [DecidableEq ω]

/-- The time of a wait of `w` that succeeds. -/
def Label.waitOf (w : ω) : Label ι ω τ → Option τ
  | .set _ _ => none
  | .wait w' t => if w' = w then t else none

/-- The times of the waits of `w` that have succeeded. -/
def waits (w : ω) (tr : List (Label ι ω τ)) : List τ := tr.filterMap (Label.waitOf w)

lemma waits_concat (w : ω) (tr : List (Label ι ω τ)) (l : Label ι ω τ) :
    waits w (tr ++ [l]) = waits w tr ++ (l.waitOf w).toList := by
  rw [waits, List.filterMap_append, List.filterMap_cons]
  cases l.waitOf w <;> rfl

end Waits

/-- A wait succeeds exactly when its sink has not used up the complete rounds of its sources,
and then ends with a time that is at least those of the sets of the round it uses. -/
def Allowed [DecidableEq ι] [DecidableEq ω] [LE τ] (srcs : ω → Finset ι)
    (tr : List (Label ι ω τ)) : Label ι ω τ → Prop
  | .set _ _ => True
  | .wait w none => (waits w tr).length = rounds (srcs w) tr
  | .wait w (some t) => (waits w tr).length < rounds (srcs w) tr ∧
      ∀ i ∈ srcs w, ∃ x, (sets i tr)[(waits w tr).length]? = some x ∧ x ≤ t

/-- Every operation of the trace is allowed after those before it. -/
def KeepsRounds [DecidableEq ι] [DecidableEq ω] [LE τ] (srcs : ω → Finset ι)
    (tr : List (Label ι ω τ)) : Prop :=
  ∀ pre l post, tr = pre ++ l :: post → Allowed srcs pre l

/-! ## The machine -/

/-- Sources, each in a class, and for each sink the class that releases it. -/
structure Net (ι ω κ : Type*) where
  cls : ι → κ
  sources : κ → Finset ι
  sinkCls : ω → κ
  cls_of_mem : ∀ {k i}, i ∈ sources k → cls i = k

def Net.srcs (N : Net ι ω κ) (w : ω) : Finset ι := N.sources (N.sinkCls w)

/-- The sets that wait for their round, and the times that waits may take. -/
structure State (ι ω τ : Type*) where
  pending : ι → List τ
  tokens : ω → List τ

section Give

variable [DecidableEq ω]

def State.give (s : State ι ω τ) (w : ω) (v : τ) : State ι ω τ :=
  { s with tokens := Function.update s.tokens w (s.tokens w ++ [v]) }

@[simp] lemma State.give_pending (s : State ι ω τ) (w : ω) (v : τ) :
    (s.give w v).pending = s.pending := rfl

lemma State.give_tokens (s : State ι ω τ) (w : ω) (v : τ) (w' : ω) :
    (s.give w v).tokens w' = if w' = w then s.tokens w ++ [v] else s.tokens w' :=
  Function.update_apply _ _ _ _

end Give

section Machine

variable [DecidableEq ι]

def State.push (s : State ι ω τ) (i : ι) (t : τ) : State ι ω τ :=
  { s with pending := Function.update s.pending i (s.pending i ++ [t]) }

def State.take (s : State ι ω τ) (i : ι) : State ι ω τ :=
  { s with pending := Function.update s.pending i (s.pending i).tail }

/-- A round of class `k` is complete: each source gives a set, each sink gets the time `v`. -/
def State.release [DecidableEq κ] (N : Net ι ω κ) (s : State ι ω τ) (k : κ) (v : τ) :
    State ι ω τ where
  pending := fun j => if j ∈ N.sources k then (s.pending j).tail else s.pending j
  tokens := fun w => if N.sinkCls w = k then s.tokens w ++ [v] else s.tokens w

lemma State.push_pending (s : State ι ω τ) (i : ι) (t : τ) (j : ι) :
    (s.push i t).pending j = if j = i then s.pending i ++ [t] else s.pending j :=
  Function.update_apply _ _ _ _

@[simp] lemma State.push_tokens (s : State ι ω τ) (i : ι) (t : τ) :
    (s.push i t).tokens = s.tokens := rfl

lemma State.take_pending (s : State ι ω τ) (i j : ι) :
    (s.take i).pending j = if j = i then (s.pending i).tail else s.pending j :=
  Function.update_apply _ _ _ _

@[simp] lemma State.take_tokens (s : State ι ω τ) (i : ι) : (s.take i).tokens = s.tokens := rfl

lemma State.release_pending [DecidableEq κ] (N : Net ι ω κ) (s : State ι ω τ) (k : κ) (v : τ)
    (j : ι) : (s.release N k v).pending j =
      if j ∈ N.sources k then (s.pending j).tail else s.pending j := rfl

lemma State.release_tokens [DecidableEq κ] (N : Net ι ω κ) (s : State ι ω τ) (k : κ) (v : τ)
    (w : ω) : (s.release N k v).tokens w =
      if N.sinkCls w = k then s.tokens w ++ [v] else s.tokens w := rfl

/-- A set in one class completes no round of another class. -/
lemma rounds_set_of_ne {N : Net ι ω κ} {tr : List (Label ι ω τ)} {i : ι} {t : τ} {k : κ}
    (hk : k ≠ N.cls i) :
    rounds (N.sources k) (tr ++ [.set i t]) = rounds (N.sources k) tr := by
  refine rounds_concat_of_none fun j hj => ?_
  rw [Label.setOf, if_neg]
  rintro rfl
  exact hk (N.cls_of_mem hj).symm

lemma sets_set_prefix {tr : List (Label ι ω τ)} (i j : ι) (t : τ) {n : ℕ} {x : τ}
    (h : (sets j tr)[n]? = some x) : (sets j (tr ++ [.set i t]))[n]? = some x := by
  rw [sets_concat, List.getElem?_append_left (List.getElem?_eq_some_iff.1 h).1]
  exact h

variable [DecidableEq ω] [Preorder τ]

/-- One operation. -/
inductive Step [DecidableEq κ] (N : Net ι ω κ) (s : State ι ω τ) :
    Label ι ω τ → State ι ω τ → Prop
  /-- A set that is none of any class is ignored. -/
  | ignored {i : ι} {t : τ} (hi : i ∉ N.sources (N.cls i)) : Step N s (.set i t) s
  | gathers {i : ι} {t : τ} (hi : i ∈ N.sources (N.cls i)) {j : ι}
      (hj : j ∈ N.sources (N.cls i)) (he : (s.push i t).pending j = []) :
      Step N s (.set i t) (s.push i t)
  | completes {i : ι} {t : τ} (hi : i ∈ N.sources (N.cls i)) {v : τ}
      (hv : ∀ j ∈ N.sources (N.cls i), ∃ x rest, (s.push i t).pending j = x :: rest ∧ x ≤ v) :
      Step N s (.set i t) ((s.push i t).release N (N.cls i) v)
  | fails {w : ω} (he : s.tokens w = []) : Step N s (.wait w none) s
  | passes {w : ω} {v t : τ} {rest : List τ} (hw : s.tokens w = v :: rest) (hv : v ≤ t) :
      Step N s (.wait w (some t)) { s with tokens := Function.update s.tokens w rest }

def State.start : State ι ω τ where
  pending := fun _ => []
  tokens := fun _ => []

/-- A run of the machine from the start. -/
inductive Run [DecidableEq κ] (N : Net ι ω κ) : List (Label ι ω τ) → State ι ω τ → Prop
  | start : Run N [] .start
  | step {tr : List (Label ι ω τ)} {l : Label ι ω τ} {s s' : State ι ω τ} (hr : Run N tr s)
      (hs : Step N s l s') : Run N (tr ++ [l]) s'

/-- What a run has made of the machine: `released k` are the times given out in class `k`. -/
structure Inv (N : Net ι ω κ) (tr : List (Label ι ω τ)) (s : State ι ω τ)
    (released : κ → List τ) : Prop where
  length : ∀ k, (released k).length = rounds (N.sources k) tr
  join : ∀ k (n : ℕ) (v : τ), (released k)[n]? = some v →
    ∀ i ∈ N.sources k, ∃ x, (sets i tr)[n]? = some x ∧ x ≤ v
  pending : ∀ k, ∀ i ∈ N.sources k, s.pending i = (sets i tr).drop (rounds (N.sources k) tr)
  tokens : ∀ w, s.tokens w = (released (N.sinkCls w)).drop (waits w tr).length
  waits_le : ∀ w, (waits w tr).length ≤ (released (N.sinkCls w)).length

lemma inv_start (N : Net ι ω κ) :
    Inv N [] (.start : State ι ω τ) fun _ => [] := by
  refine ⟨fun k => ?_, fun k n v h => ?_, fun k i _ => ?_, fun w => rfl, fun w => le_rfl⟩
  · by_cases h : (N.sources k).Nonempty
    · obtain ⟨i, _, hi⟩ : ∃ i ∈ N.sources k, (sets i ([] : List (Label ι ω τ))).length = _ :=
        exists_eq_rounds h
      exact hi
    · rw [rounds, dif_neg h]
      rfl
  · simp at h
  · exact (List.drop_nil).symm

variable {N : Net ι ω κ} {tr : List (Label ι ω τ)} {s s' : State ι ω τ} {released : κ → List τ}

/-- An operation that changes neither the sets of any class nor the waits of any sink. -/
lemma Inv.same (h : Inv N tr s released) {l : Label ι ω τ}
    (hset : ∀ k, ∀ i ∈ N.sources k, l.setOf i = none) (hwait : ∀ w, l.waitOf w = none) :
    Inv N (tr ++ [l]) s released := by
  have hsets : ∀ k, ∀ i ∈ N.sources k, sets i (tr ++ [l]) = sets i tr := by
    intro k i hi
    rw [sets_concat, hset k i hi, Option.toList_none, List.append_nil]
  have hwaits (w : ω) : waits w (tr ++ [l]) = waits w tr := by
    rw [waits_concat, hwait w, Option.toList_none, List.append_nil]
  refine ⟨fun k => ?_, fun k n v hv i hi => ?_, fun k i hi => ?_, fun w => ?_, fun w => ?_⟩
  · rw [rounds_concat_of_none (hset k)]
    exact h.length k
  · rw [hsets k i hi]
    exact h.join k n v hv i hi
  · rw [hsets k i hi, rounds_concat_of_none (hset k)]
    exact h.pending k i hi
  · rw [hwaits]
    exact h.tokens w
  · rw [hwaits]
    exact h.waits_le w

/-- The sets after a set, in the queue that waits for its round. -/
lemma Inv.push_pending (h : Inv N tr s released) {i : ι} {t : τ} {k : κ} {j : ι}
    (hj : j ∈ N.sources k) :
    (s.push i t).pending j = (sets j (tr ++ [.set i t])).drop (rounds (N.sources k) tr) := by
  rw [sets_concat, State.push_pending]
  by_cases hji : j = i
  · subst hji
    rw [if_pos rfl, h.pending k j hj, Label.setOf, if_pos rfl, Option.toList_some,
      List.drop_append_of_le_length (rounds_le hj)]
  · rw [if_neg hji, h.pending k j hj, Label.setOf, if_neg (Ne.symm hji),
      Option.toList_none, List.append_nil]

lemma Inv.gathers (h : Inv N tr s released) {i : ι} {t : τ}
    (hi : i ∈ N.sources (N.cls i)) {j : ι} (hj : j ∈ N.sources (N.cls i))
    (he : (s.push i t).pending j = []) : Inv N (tr ++ [.set i t]) (s.push i t) released := by
  have hrounds (k : κ) : rounds (N.sources k) (tr ++ [.set i t]) = rounds (N.sources k) tr := by
    by_cases hk : k = N.cls i
    · subst hk
      rw [h.push_pending hj, List.drop_eq_nil_iff] at he
      refine le_antisymm ((rounds_le hj).trans he) (le_rounds ⟨i, hi⟩ fun a ha => ?_)
      rw [sets_concat, List.length_append]
      exact (rounds_le ha).trans (Nat.le_add_right _ _)
    · exact rounds_set_of_ne hk
  have hwaits (w : ω) : waits w (tr ++ [.set i t]) = waits w tr := by
    rw [waits_concat, Label.waitOf, Option.toList_none, List.append_nil]
  refine ⟨fun k => ?_, fun k n v hv a ha => ?_, fun k a ha => ?_, fun w => ?_, fun w => ?_⟩
  · rw [hrounds]
    exact h.length k
  · obtain ⟨x, hx, hle⟩ := h.join k n v hv a ha
    exact ⟨x, sets_set_prefix i a t hx, hle⟩
  · rw [hrounds]
    exact h.push_pending ha
  · rw [hwaits]
    exact h.tokens w
  · rw [hwaits]
    exact h.waits_le w

lemma Inv.passes (h : Inv N tr s released) {w : ω} {v t : τ} {rest : List τ}
    (hw : s.tokens w = v :: rest) :
    Inv N (tr ++ [.wait w (some t)]) { s with tokens := Function.update s.tokens w rest }
      released := by
  have hset (k : κ) : ∀ i ∈ N.sources k, (Label.wait w (some t) : Label ι ω τ).setOf i = none :=
    fun i _ => rfl
  have hsets (i : ι) : sets i (tr ++ [.wait w (some t)]) = sets i tr := by
    rw [sets_concat, Label.setOf, Option.toList_none, List.append_nil]
  have htok := h.tokens w
  rw [hw] at htok
  have hlt : (waits w tr).length < (released (N.sinkCls w)).length := by
    by_contra hge
    rw [List.drop_eq_nil_of_le (by omega)] at htok
    cases htok
  refine ⟨fun k => ?_, fun k n x hx i hi => ?_, fun k i hi => ?_, fun w' => ?_, fun w' => ?_⟩
  · rw [rounds_concat_of_none (hset k)]
    exact h.length k
  · rw [hsets]
    exact h.join k n x hx i hi
  · rw [hsets, rounds_concat_of_none (hset k)]
    exact h.pending k i hi
  · rw [waits_concat, Label.waitOf]
    dsimp only
    by_cases hw' : w = w'
    · subst hw'
      rw [Function.update_self, if_pos rfl, List.length_append, Option.toList_some,
        List.length_singleton, ← List.tail_drop, ← htok, List.tail_cons]
    · rw [Function.update_of_ne (Ne.symm hw'), if_neg hw', Option.toList_none, List.append_nil]
      exact h.tokens w'
  · rw [waits_concat, Label.waitOf]
    by_cases hw' : w = w'
    · subst hw'
      rw [if_pos rfl, List.length_append, Option.toList_some, List.length_singleton]
      exact hlt
    · rw [if_neg hw', Option.toList_none, List.append_nil]
      exact h.waits_le w'

variable [DecidableEq κ]

lemma Inv.completes (h : Inv N tr s released) {i : ι} {t : τ}
    (hi : i ∈ N.sources (N.cls i)) {v : τ}
    (hv : ∀ j ∈ N.sources (N.cls i), ∃ x rest, (s.push i t).pending j = x :: rest ∧ x ≤ v) :
    Inv N (tr ++ [.set i t]) ((s.push i t).release N (N.cls i) v)
      (Function.update released (N.cls i) (released (N.cls i) ++ [v])) := by
  have hwaits (w : ω) : waits w (tr ++ [.set i t]) = waits w tr := by
    rw [waits_concat, Label.waitOf, Option.toList_none, List.append_nil]
  -- the first set of each source that was left is the one of the new round
  have hfront : ∀ j ∈ N.sources (N.cls i), ∃ x,
      (sets j (tr ++ [.set i t]))[rounds (N.sources (N.cls i)) tr]? = some x ∧ x ≤ v := by
    intro j hj
    obtain ⟨x, rest, hx, hle⟩ := hv j hj
    rw [h.push_pending hj] at hx
    refine ⟨x, ?_, hle⟩
    rw [← List.head?_drop, hx, List.head?_cons]
  have hrounds : rounds (N.sources (N.cls i)) (tr ++ [.set i t]) =
      rounds (N.sources (N.cls i)) tr + 1 := by
    refine le_antisymm ?_ (le_rounds ⟨i, hi⟩ fun j hj => ?_)
    · obtain ⟨j, hj, heq⟩ : ∃ j ∈ N.sources (N.cls i), (sets j tr).length = _ :=
        exists_eq_rounds ⟨i, hi⟩
      refine (rounds_le hj).trans ?_
      rw [sets_concat, List.length_append, heq]
      refine Nat.add_le_add_left ?_ _
      rw [Label.setOf]
      split_ifs <;> simp
    · obtain ⟨x, hx, -⟩ := hfront j hj
      exact (List.getElem?_eq_some_iff.1 hx).1
  have hother {k : κ} (hk : k ≠ N.cls i) :
      rounds (N.sources k) (tr ++ [.set i t]) = rounds (N.sources k) tr := rounds_set_of_ne hk
  refine ⟨fun k => ?_, fun k n x hx a ha => ?_, fun k a ha => ?_, fun w => ?_, fun w => ?_⟩
  · by_cases hk : k = N.cls i
    · subst hk
      rw [Function.update_self, List.length_append, h.length, hrounds, List.length_singleton]
    · rw [Function.update_of_ne hk, hother hk]
      exact h.length k
  · by_cases hk : k = N.cls i
    · subst hk
      rw [Function.update_self] at hx
      by_cases hn : n < (released (N.cls i)).length
      · rw [List.getElem?_append_left hn] at hx
        obtain ⟨y, hy, hle⟩ := h.join _ n x hx a ha
        exact ⟨y, sets_set_prefix i a t hy, hle⟩
      · have hlen := (List.getElem?_eq_some_iff.1 hx).1
        rw [List.length_append, List.length_singleton] at hlen
        have hn' : n = (released (N.cls i)).length := by omega
        subst hn'
        rw [List.getElem?_append_right le_rfl, Nat.sub_self] at hx
        obtain rfl : v = x := by simpa using hx
        rw [h.length]
        exact hfront a ha
    · rw [Function.update_of_ne hk] at hx
      obtain ⟨y, hy, hle⟩ := h.join k n x hx a ha
      exact ⟨y, sets_set_prefix i a t hy, hle⟩
  · by_cases hk : k = N.cls i
    · subst hk
      rw [State.release_pending, if_pos ha, h.push_pending ha, hrounds, List.tail_drop]
    · have hmem : a ∉ N.sources (N.cls i) := fun hm =>
        hk ((N.cls_of_mem ha).symm.trans (N.cls_of_mem hm))
      rw [State.release_pending, if_neg hmem, hother hk]
      exact h.push_pending ha
  · rw [hwaits, State.release_tokens]
    by_cases hk : N.sinkCls w = N.cls i
    · rw [if_pos hk, ← hk, Function.update_self, List.drop_append_of_le_length (h.waits_le w),
        ← h.tokens w]
      rfl
    · rw [if_neg hk, Function.update_of_ne hk]
      exact h.tokens w
  · rw [hwaits]
    refine (h.waits_le w).trans ?_
    by_cases hk : N.sinkCls w = N.cls i
    · rw [← hk, Function.update_self, List.length_append]
      exact Nat.le_add_right _ _
    · rw [Function.update_of_ne hk]

lemma Inv.step (h : Inv N tr s released) {l : Label ι ω τ} (hs : Step N s l s') :
    (∃ released', Inv N (tr ++ [l]) s' released') ∧ Allowed N.srcs tr l := by
  cases hs with
  | ignored hi =>
    refine ⟨⟨released, h.same (fun k j hj => ?_) fun w => rfl⟩, trivial⟩
    rw [Label.setOf, if_neg]
    rintro rfl
    rw [← N.cls_of_mem hj] at hj
    exact hi hj
  | gathers hi hj he => exact ⟨⟨released, h.gathers hi hj he⟩, trivial⟩
  | completes hi hv => exact ⟨⟨_, h.completes hi hv⟩, trivial⟩
  | @fails w he =>
    refine ⟨⟨released, h.same (fun k j _ => rfl) fun w' => ?_⟩, ?_⟩
    · rw [Label.waitOf]
      exact ite_self _
    · rw [h.tokens w, List.drop_eq_nil_iff] at he
      rw [Allowed, Net.srcs, ← h.length]
      exact le_antisymm (h.waits_le w) he
  | @passes w v t rest hw hv =>
    refine ⟨⟨released, h.passes hw⟩, ?_⟩
    have hget : (released (N.sinkCls w))[(waits w tr).length]? = some v := by
      rw [← List.head?_drop, ← h.tokens w, hw, List.head?_cons]
    refine ⟨?_, fun i hi => ?_⟩
    · rw [Net.srcs, ← h.length]
      exact (List.getElem?_eq_some_iff.1 hget).1
    · obtain ⟨x, hx, hle⟩ := h.join _ _ v hget i hi
      exact ⟨x, hx, hle.trans hv⟩

lemma Run.inv (hr : Run N tr s) : ∃ released, Inv N tr s released := by
  induction hr with
  | start => exact ⟨_, inv_start N⟩
  | step _ hs ih =>
    obtain ⟨released, h⟩ := ih
    exact (h.step hs).1

/-- **A run of the machine keeps the rounds.** -/
theorem Run.keepsRounds (hr : Run N tr s) : KeepsRounds N.srcs tr := by
  induction hr with
  | start =>
    intro pre l post h
    exact absurd h.symm (List.append_ne_nil_of_right_ne_nil _ (List.cons_ne_nil _ _))
  | @step tr l s s' hr hs ih =>
    intro pre l' post heq
    obtain ⟨released, h⟩ := hr.inv
    rcases List.eq_nil_or_concat post with rfl | ⟨post', a, rfl⟩
    · obtain ⟨rfl, hl⟩ := List.append_inj' heq rfl
      rw [List.cons.injEq] at hl
      rw [← hl.1]
      exact (h.step hs).2
    · rw [List.concat_eq_append, ← List.cons_append, ← List.append_assoc] at heq
      exact ih pre l' post' (List.append_inj' heq rfl).1

/-! ### Classes with one or two sources -/

/-- A set of the only source of its class completes a round at once. -/
lemma step_single {i : ι} {t : τ} (hsrc : N.sources (N.cls i) = {i}) (hi : s.pending i = [])
    (hp : s'.pending = s.pending)
    (ht : ∀ w, s'.tokens w = if N.sinkCls w = N.cls i then s.tokens w ++ [t] else s.tokens w) :
    Step N s (.set i t) s' := by
  have hself : (s.push i t).pending i = [t] := by
    rw [State.push_pending, if_pos rfl, hi, List.nil_append]
  have heq : s' = (s.push i t).release N (N.cls i) t := by
    obtain ⟨p, k⟩ := s'
    rw [State.release, State.mk.injEq]
    refine ⟨funext fun j => (congrFun hp j).trans ?_, funext ht⟩
    by_cases hj : j = i
    · rw [if_pos (by rw [hsrc, hj]; exact Finset.mem_singleton_self i), hj, hself, hi,
        List.tail_cons]
    · rw [if_neg (by rwa [hsrc, Finset.mem_singleton]), State.push_pending, if_neg hj]
  rw [heq]
  refine .completes (by rw [hsrc]; exact Finset.mem_singleton_self i) fun j hj => ?_
  rw [hsrc, Finset.mem_singleton] at hj
  rw [hj]
  exact ⟨t, [], hself, le_rfl⟩

/-- A set of one of two sources waits while the other one has not set. -/
lemma step_pair_gathers {i o : ι} {t : τ} (hsrc : N.sources (N.cls i) = {i, o}) (hne : o ≠ i)
    (ho : s.pending o = []) (hs : s' = s.push i t) : Step N s (.set i t) s' := by
  rw [hs]
  refine .gathers (j := o) ?_ ?_ ?_
  · rw [hsrc]
    exact Finset.mem_insert_self _ _
  · rw [hsrc]
    exact Finset.mem_insert_of_mem (Finset.mem_singleton_self _)
  · rw [State.push_pending, if_neg hne, ho]

/-- A set of one of two sources completes a round when the other one has set before. -/
lemma step_pair_completes {i o : ι} {t x v : τ} {rest : List τ}
    (hsrc : N.sources (N.cls i) = {i, o}) (hne : o ≠ i) (hi : s.pending i = [])
    (ho : s.pending o = x :: rest) (hx : x ≤ v) (htv : t ≤ v)
    (hp : s'.pending = Function.update s.pending o rest)
    (ht : ∀ w, s'.tokens w = if N.sinkCls w = N.cls i then s.tokens w ++ [v] else s.tokens w) :
    Step N s (.set i t) s' := by
  have hself : (s.push i t).pending i = [t] := by
    rw [State.push_pending, if_pos rfl, hi, List.nil_append]
  have hother : (s.push i t).pending o = x :: rest := by
    rw [State.push_pending, if_neg hne, ho]
  have heq : s' = (s.push i t).release N (N.cls i) v := by
    obtain ⟨p, k⟩ := s'
    rw [State.release, State.mk.injEq]
    refine ⟨funext fun j => (congrFun hp j).trans ?_, funext ht⟩
    have hmem : j ∈ N.sources (N.cls i) ↔ j = i ∨ j = o := by
      rw [hsrc, Finset.mem_insert, Finset.mem_singleton]
    by_cases hji : j = i
    · rw [if_pos (hmem.2 (Or.inl hji)), hji, hself, Function.update_of_ne (Ne.symm hne), hi,
        List.tail_cons]
    · by_cases hjo : j = o
      · rw [if_pos (hmem.2 (Or.inr hjo)), hjo, hother, Function.update_self, List.tail_cons]
      · rw [if_neg (mt hmem.1 (not_or.2 ⟨hji, hjo⟩)), Function.update_of_ne hjo,
          State.push_pending, if_neg hji]
  rw [heq]
  refine .completes (by rw [hsrc]; exact Finset.mem_insert_self _ _) fun j hj => ?_
  rw [hsrc, Finset.mem_insert, Finset.mem_singleton] at hj
  rcases hj with rfl | rfl
  · exact ⟨t, [], hself, htv⟩
  · exact ⟨x, rest, hother, hx⟩

end Machine

/-- A sink never waits more often than there are complete rounds. -/
lemma KeepsRounds.waits_le [DecidableEq ι] [DecidableEq ω] [LE τ] {srcs : ω → Finset ι}
    {tr : List (Label ι ω τ)} (h : KeepsRounds srcs tr) (w : ω) :
    (waits w tr).length ≤ rounds (srcs w) tr := by
  induction tr using List.reverseRecOn with
  | nil => exact Nat.zero_le _
  | append_singleton tr l ih =>
    have hih := ih fun pre a post heq => h pre a (post ++ [l]) (by rw [heq]; simp)
    have hmono : rounds (srcs w) tr ≤ rounds (srcs w) (tr ++ [l]) := by
      by_cases hne : (srcs w).Nonempty
      · refine le_rounds hne fun i hi => ?_
        rw [sets_concat, List.length_append]
        exact (rounds_le hi).trans (Nat.le_add_right _ _)
      · rw [rounds, dif_neg hne]
        exact Nat.zero_le _
    have hl := h tr l [] rfl
    rw [waits_concat]
    cases l with
    | set i t =>
      rw [Label.waitOf, Option.toList_none, List.append_nil]
      exact hih.trans hmono
    | wait w' t =>
      rw [Label.waitOf]
      by_cases hw : w' = w
      · subst hw
        cases t with
        | none =>
          rw [ite_self, Option.toList_none, List.append_nil]
          exact hih.trans hmono
        | some t =>
          rw [if_pos rfl, Option.toList_some, List.length_append, List.length_singleton]
          exact (Nat.succ_le_of_lt hl.1).trans hmono
      · rw [if_neg hw, Option.toList_none, List.append_nil]
        exact hih.trans hmono

end MsSanitizer.Rendezvous
