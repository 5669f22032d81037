import Mathlib.Data.Nat.Count
import Mathlib.Logic.Relation
import Mathlib.Tactic

/-!
# Vector clocks and causality

The steps of some processes are numbered in the order in which they were taken. A step may receive
a message that an earlier step has sent. A step causes the later ones of its process and the one
that receives its message, and so on from there.

Each process has a clock with a component for every process. A step merges the clock that comes
with its message into the clock of its process and then counts itself; a message carries the clock
of its sender after the step. A silent step does not count itself. Such clocks are exact: a step
that counts has caused another one just when the clock of the other knows the step.
-/

namespace MsSanitizer.CausalClocks

variable {P : Type*}

/-- The process of each step, whether the step counts itself, and the messages, from sender to
receiver. -/
structure History (P : Type*) where
  proc : ℕ → P
  ticks : ℕ → Bool
  msg : ℕ → ℕ → Prop
  msg_lt : ∀ {i j}, msg i j → i < j
  msg_unique : ∀ {i i' j}, msg i j → msg i' j → i = i'

namespace History

variable (H : History P)

/-- A step is followed by the later steps of its process and by the receiver of its message. -/
def Edge (i j : ℕ) : Prop := (i < j ∧ H.proc i = H.proc j) ∨ H.msg i j

def Reaches : ℕ → ℕ → Prop := Relation.ReflTransGen H.Edge

/-- The step of a process before `j`. -/
def IsPrev (i j : ℕ) : Prop :=
  i < j ∧ H.proc i = H.proc j ∧ ∀ k, i < k → k < j → H.proc k ≠ H.proc j

variable {H} {i j k : ℕ}

lemma Edge.lt (h : H.Edge i j) : i < j := by
  rcases h with h | h
  · exact h.1
  · exact H.msg_lt h

lemma Reaches.le (h : H.Reaches i j) : i ≤ j := by
  induction h with
  | refl => exact le_rfl
  | tail _ hedge ih => exact ih.trans hedge.lt.le

lemma Reaches.tail (h : H.Reaches i j) (hedge : H.Edge j k) : H.Reaches i k :=
  Relation.ReflTransGen.tail h hedge

lemma reaches_of_le (hp : H.proc i = H.proc j) (h : i ≤ j) : H.Reaches i j := by
  rcases h.eq_or_lt with rfl | hlt
  · exact Relation.ReflTransGen.refl
  · exact Relation.ReflTransGen.single (Or.inl ⟨hlt, hp⟩)

lemma Reaches.antisymm (h : H.Reaches i j) (h' : H.Reaches j i) : i = j := le_antisymm h.le h'.le

/-- What causes a step comes through the step before it or through its message. -/
lemma reaches_cases (h : H.Reaches k j) :
    k = j ∨ (∃ i, H.Reaches k i ∧ i < j ∧ H.proc i = H.proc j) ∨
      ∃ i, H.Reaches k i ∧ H.msg i j := by
  rcases Relation.ReflTransGen.cases_tail h with heq | ⟨i, hki, hedge⟩
  · exact Or.inl heq.symm
  · rcases hedge with ⟨hlt, hp⟩ | hm
    · exact Or.inr (Or.inl ⟨i, hki, hlt, hp⟩)
    · exact Or.inr (Or.inr ⟨i, hki, hm⟩)

/-! ## Counting steps -/

variable [DecidableEq P]

variable (H) in
/-- The number of steps that count in the process of a step, up to this step, counted from `2`. -/
def own (k : ℕ) : ℕ := Nat.count (fun i => H.ticks i = true ∧ H.proc i = H.proc k) (k + 1) + 1

lemma own_mono (hp : H.proc i = H.proc j) (h : i ≤ j) : H.own i ≤ H.own j := by
  unfold own
  rw [hp, Nat.add_le_add_iff_right]
  exact Nat.count_monotone _ (Nat.succ_le_succ h)

lemma own_lt (hj : H.ticks j = true) (hp : H.proc i = H.proc j) (h : i < j) :
    H.own i < H.own j := by
  unfold own
  rw [hp, Nat.add_lt_add_iff_right, Nat.count_succ _ j, if_pos ⟨hj, rfl⟩]
  exact Nat.lt_succ_of_le (Nat.count_monotone _ h)

lemma own_le_iff (hi : H.ticks i = true) (hp : H.proc i = H.proc j) :
    H.own i ≤ H.own j ↔ i ≤ j := by
  refine ⟨fun h => ?_, own_mono hp⟩
  by_contra hlt
  have := own_lt hi hp.symm (not_le.mp hlt)
  omega

lemma two_le_own (hk : H.ticks k = true) : 2 ≤ H.own k := by
  unfold own
  rw [Nat.count_succ, if_pos ⟨hk, rfl⟩]
  omega

/-- A step that counts is one ahead of its process. -/
lemma own_of_isPrev (h : H.IsPrev i j) : H.own j = H.own i + if H.ticks j then 1 else 0 := by
  obtain ⟨hlt, hp, hno⟩ := h
  have hle : Nat.count (fun k => H.ticks k = true ∧ H.proc k = H.proc j) j ≤
      Nat.count (fun k => H.ticks k = true ∧ H.proc k = H.proc j) (i + 1) := by
    by_contra hc
    obtain ⟨k, ⟨hik, hkj⟩, hk⟩ := Nat.exists_of_count_lt_count (not_le.mp hc)
    exact hno k hik hkj hk.2
  have hge : Nat.count (fun k => H.ticks k = true ∧ H.proc k = H.proc j) (i + 1) ≤
      Nat.count (fun k => H.ticks k = true ∧ H.proc k = H.proc j) j := Nat.count_monotone _ hlt
  unfold own
  rw [hp, Nat.count_succ _ j]
  simp only [and_true]
  omega

lemma own_of_first (h : ∀ i < j, H.proc i ≠ H.proc j) :
    H.own j = 1 + if H.ticks j then 1 else 0 := by
  unfold own
  rw [Nat.count_succ, Nat.count_iff_forall_not.mpr fun i hi hc => h i hi hc.2]
  simp only [and_true]
  omega

end History

open History

variable [DecidableEq P] {H : History P} {clock : ℕ → P → ℕ} {j : ℕ}

/-- What a step starts from: what its process knew, and what came with its message. -/
structure Sources (H : History P) (clock : ℕ → P → ℕ) (j : ℕ) (base rcv : P → ℕ) : Prop where
  base_eq : (∃ i, H.IsPrev i j ∧ base = clock i) ∨
    (∀ i < j, H.proc i ≠ H.proc j) ∧ base = fun _ => 1
  rcv_eq : (∃ i, H.msg i j ∧ rcv = clock i) ∨ (∀ i, ¬ H.msg i j) ∧ rcv = fun _ => 1

/-- The clock of a step knows which steps that count have caused it, and nothing else. -/
structure Exact (H : History P) (clock : ℕ → P → ℕ) (j : ℕ) : Prop where
  own_clock : clock j (H.proc j) = H.own j
  knows : ∀ k, H.ticks k = true → (H.own k ≤ clock j (H.proc k) ↔ H.Reaches k j)
  origin : ∀ q, clock j q = 1 ∨
    ∃ k, H.ticks k = true ∧ H.Reaches k j ∧ H.proc k = q ∧ clock j q = H.own k

section

variable {base rcv : P → ℕ}

lemma Sources.base_spec (h : Sources H clock j base rcv) (hex : ∀ i < j, Exact H clock i) {k : ℕ}
    (ht : H.ticks k = true) :
    H.own k ≤ base (H.proc k) ↔ ∃ i, H.Reaches k i ∧ i < j ∧ H.proc i = H.proc j := by
  rcases h.base_eq with ⟨i, ⟨hlt, hp, hno⟩, rfl⟩ | ⟨hfirst, rfl⟩
  · rw [(hex i hlt).knows k ht]
    refine ⟨fun hk => ⟨i, hk, hlt, hp⟩, fun ⟨i', hk, hlt', hp'⟩ => ?_⟩
    have hle : i' ≤ i := by
      by_contra hc
      exact hno i' (not_le.mp hc) hlt' hp'
    exact Relation.ReflTransGen.trans hk (reaches_of_le (hp'.trans hp.symm) hle)
  · have := two_le_own ht
    dsimp only
    refine ⟨fun hk => by omega, fun ⟨i, _, hlt, hp⟩ => absurd hp (hfirst i hlt)⟩

lemma Sources.rcv_spec (h : Sources H clock j base rcv) (hex : ∀ i < j, Exact H clock i) {k : ℕ}
    (ht : H.ticks k = true) :
    H.own k ≤ rcv (H.proc k) ↔ ∃ i, H.Reaches k i ∧ H.msg i j := by
  rcases h.rcv_eq with ⟨i, hm, rfl⟩ | ⟨hno, rfl⟩
  · rw [(hex i (H.msg_lt hm)).knows k ht]
    refine ⟨fun hk => ⟨i, hk, hm⟩, fun ⟨i', hk, hm'⟩ => ?_⟩
    rw [H.msg_unique hm hm']
    exact hk
  · have := two_le_own ht
    dsimp only
    refine ⟨fun hk => by omega, fun ⟨i, _, hm⟩ => absurd hm (hno i)⟩

lemma Sources.base_origin (h : Sources H clock j base rcv) (hex : ∀ i < j, Exact H clock i)
    (q : P) : base q = 1 ∨
      ∃ k < j, H.ticks k = true ∧ H.Reaches k j ∧ H.proc k = q ∧ base q = H.own k := by
  rcases h.base_eq with ⟨i, ⟨hlt, hp, -⟩, rfl⟩ | ⟨-, rfl⟩
  · rcases (hex i hlt).origin q with hone | ⟨k, ht, hki, hk, heq⟩
    · exact Or.inl hone
    · exact Or.inr ⟨k, hki.le.trans_lt hlt, ht, hki.tail (Or.inl ⟨hlt, hp⟩), hk, heq⟩
  · exact Or.inl rfl

lemma Sources.rcv_origin (h : Sources H clock j base rcv) (hex : ∀ i < j, Exact H clock i)
    (q : P) : rcv q = 1 ∨
      ∃ k < j, H.ticks k = true ∧ H.Reaches k j ∧ H.proc k = q ∧ rcv q = H.own k := by
  rcases h.rcv_eq with ⟨i, hm, rfl⟩ | ⟨-, rfl⟩
  · rcases (hex i (H.msg_lt hm)).origin q with hone | ⟨k, ht, hki, hk, heq⟩
    · exact Or.inl hone
    · exact Or.inr ⟨k, hki.le.trans_lt (H.msg_lt hm), ht, hki.tail (Or.inr hm), hk, heq⟩
  · exact Or.inl rfl

/-- Nothing that a step receives is ahead of its own process. -/
lemma Sources.own_eq (h : Sources H clock j base rcv) (hex : ∀ i < j, Exact H clock i) :
    max (base (H.proc j)) (rcv (H.proc j)) + (if H.ticks j then 1 else 0) = H.own j := by
  have hbase : base (H.proc j) + (if H.ticks j then 1 else 0) = H.own j := by
    rcases h.base_eq with ⟨i, hprev, rfl⟩ | ⟨hfirst, rfl⟩
    · rw [own_of_isPrev hprev, ← hprev.2.1, (hex i hprev.1).own_clock]
    · rw [own_of_first hfirst]
  have hrcv : rcv (H.proc j) ≤ base (H.proc j) := by
    rcases h.rcv_origin hex (H.proc j) with hone | ⟨k, hkj, ht, -, hk, heq⟩
    · rw [hone]
      rcases h.base_origin hex (H.proc j) with hone' | ⟨k', -, ht', -, -, heq'⟩
      · exact hone'.ge
      · have := two_le_own ht'
        omega
    · rw [heq, ← hk, h.base_spec hex ht]
      rcases h.base_eq with ⟨i, ⟨hlt, hp, hno⟩, -⟩ | ⟨hfirst, -⟩
      · refine ⟨k, Relation.ReflTransGen.refl, hkj, hk⟩
      · exact absurd hk (hfirst k hkj)
  rw [max_eq_left hrcv]
  exact hbase

/-- **A step keeps the clocks exact**: its clock merges what it starts from, and counts the step
unless it is silent. -/
lemma Sources.exact (h : Sources H clock j base rcv) (hex : ∀ i < j, Exact H clock i)
    (hclock : ∀ q, clock j q =
      max (base q) (rcv q) + if q = H.proc j ∧ H.ticks j = true then 1 else 0) :
    Exact H clock j := by
  have hown : clock j (H.proc j) = H.own j := by
    rw [hclock, ← h.own_eq hex]
    simp only [true_and]
  have hother : ∀ {q}, ¬ (q = H.proc j ∧ H.ticks j = true) → clock j q = max (base q) (rcv q) := by
    intro q hq
    rw [hclock, if_neg hq, Nat.add_zero]
  refine ⟨hown, fun k ht => ?_, fun q => ?_⟩
  · by_cases hk : H.proc k = H.proc j
    · rw [hk, hown, own_le_iff ht hk]
      exact ⟨reaches_of_le hk, Reaches.le⟩
    · rw [hother fun hc => hk hc.1, le_max_iff, h.base_spec hex ht, h.rcv_spec hex ht]
      constructor
      · rintro (⟨i, hki, hlt, hp⟩ | ⟨i, hki, hm⟩)
        · exact hki.tail (Or.inl ⟨hlt, hp⟩)
        · exact hki.tail (Or.inr hm)
      · intro hkj
        rcases reaches_cases hkj with rfl | hkj
        · exact absurd rfl hk
        · exact hkj
  · by_cases hq : q = H.proc j ∧ H.ticks j = true
    · obtain ⟨rfl, ht⟩ := hq
      exact Or.inr ⟨j, ht, Relation.ReflTransGen.refl, rfl, hown⟩
    · rw [hother hq]
      rcases max_choice (base q) (rcv q) with hm | hm <;> rw [hm]
      · rcases h.base_origin hex q with hone | ⟨k, -, hk⟩
        · exact Or.inl hone
        · exact Or.inr ⟨k, hk⟩
      · rcases h.rcv_origin hex q with hone | ⟨k, -, hk⟩
        · exact Or.inl hone
        · exact Or.inr ⟨k, hk⟩

end

/-- **Vector clocks are exact.** A step that counts has caused another one just when the clock of
the other has come as far in the component of the step's process. -/
theorem Exact.le_iff {i j : ℕ} (hi : Exact H clock i) (hj : Exact H clock j)
    (ht : H.ticks i = true) :
    clock i (H.proc i) ≤ clock j (H.proc i) ↔ H.Reaches i j := by
  rw [hi.own_clock, hj.knows i ht]

end MsSanitizer.CausalClocks
