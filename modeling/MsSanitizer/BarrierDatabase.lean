import MsSanitizer.VectorTimeDense
import Mathlib.Data.Finset.Lattice.Fold
import Mathlib.Data.Nat.Count
import Mathlib.Order.Lattice.Nat

/-!
# Barriers

The model of `barrier_database.h` and `barrier_database.hpp`. Workers poll a `BarrierEvent`:
while too few of them have arrived a poll records the worker and its time and fails; once `rank`
workers are there each of them passes at its next poll and takes the global time with it; when
all have passed the barrier is as it was at the start. The unordered set of workers is a finite
set.

A run is a sequence of polls. With a fixed rank a round has `rank` passes, so the round of a
poll is read off the number of passes before it, and the arrivals of a round are the polls made
before the first pass of that round.
-/

namespace MsSanitizer

structure BarrierEvent (Worker : Type*) where
  allReachBarrier : Bool := false
  vtGlobal : VectorTime := {}
  reachedWorkers : Finset Worker := ∅

namespace BarrierEvent

open VectorTime

variable {Worker : Type*} [DecidableEq Worker]

def isAllReachBarrier (b : BarrierEvent Worker) (rank : ℕ) : Bool :=
  decide (rank ≤ b.reachedWorkers.card)

/-- The first part of `Wait`: the worker and its time are recorded. -/
def reach (b : BarrierEvent Worker) (worker : Worker) (vtSelf : VectorTime) :
    BarrierEvent Worker :=
  { b with
    reachedWorkers := insert worker b.reachedWorkers
    vtGlobal := if b.vtGlobal.empty then vtSelf else updateVectorTime vtSelf b.vtGlobal }

/-- The rest of `Wait`, once all have arrived. -/
def consume (b : BarrierEvent Worker) (worker : Worker) :
    Option VectorTime × BarrierEvent Worker :=
  if worker ∈ b.reachedWorkers then
    let left := b.reachedWorkers.erase worker
    (some b.vtGlobal,
      if left = ∅ then { allReachBarrier := false, vtGlobal := {}, reachedWorkers := ∅ }
      else { b with reachedWorkers := left })
  else (none, b)

/-- `Wait`: the global time where it returns `true`, and the barrier after the call. -/
def wait (rank : ℕ) (worker : Worker) (vtSelf : VectorTime) (b : BarrierEvent Worker) :
    Option VectorTime × BarrierEvent Worker :=
  if b.allReachBarrier then b.consume worker
  else
    let b := b.reach worker vtSelf
    if b.isAllReachBarrier rank then { b with allReachBarrier := true }.consume worker
    else (none, b)

/-! ## Runs of polls -/

/-- A call of `Wait`. -/
structure Poll (Worker : Type*) where
  worker : Worker
  time : VectorTime

section Run

variable (rank : ℕ) (polls : ℕ → Poll Worker)

/-- The barrier after the first `n` polls. -/
def after : ℕ → BarrierEvent Worker
  | 0 => {}
  | n + 1 => (wait rank (polls n).worker (polls n).time (after n)).2

/-- What the `n`-th poll returns. -/
def answer (n : ℕ) : Option VectorTime :=
  (wait rank (polls n).worker (polls n).time (after rank polls n)).1

/-- The `n`-th poll returns `true`. -/
def Passes (n : ℕ) : Prop := (answer rank polls n).isSome = true

instance : DecidablePred (Passes rank polls) := fun _ => inferInstanceAs (Decidable (_ = _))

/-- The number of passes before the `n`-th poll. -/
def passCount (n : ℕ) : ℕ := Nat.count (Passes rank polls) n

/-- The round in which the `n`-th poll is made. -/
def round (n : ℕ) : ℕ := passCount rank polls n / rank

/-- The arrivals in round `k` among the first `n` polls. -/
def arrivals (k n : ℕ) : Finset ℕ :=
  (Finset.range n).filter fun m => passCount rank polls m = k * rank

/-- The workers that have arrived in round `k` within the first `n` polls. -/
def arrived (k n : ℕ) : Finset Worker :=
  (arrivals rank polls k n).image fun m => (polls m).worker

/-- The passes in round `k` among the first `n` polls. -/
def passings (k n : ℕ) : Finset ℕ :=
  (Finset.range n).filter fun m => round rank polls m = k ∧ Passes rank polls m

/-- The workers that have passed in round `k` within the first `n` polls. -/
def passed (k n : ℕ) : Finset Worker :=
  (passings rank polls k n).image fun m => (polls m).worker

/-- The component `i` of the join of the times at the arrivals of round `k`. -/
def joinTime (k n i : ℕ) : ℕ :=
  (arrivals rank polls k n).sup fun m => (polls m).time.get i

end Run

/-! ## Counting rounds -/

variable {rank : ℕ} {polls : ℕ → Poll Worker}

lemma passCount_succ (n : ℕ) :
    passCount rank polls (n + 1) =
      passCount rank polls n + if Passes rank polls n then 1 else 0 :=
  Nat.count_succ _ n

lemma passCount_mono {m n : ℕ} (h : m ≤ n) : passCount rank polls m ≤ passCount rank polls n :=
  Nat.count_monotone _ h

lemma round_eq_iff (hr : 1 ≤ rank) {n k : ℕ} :
    round rank polls n = k ↔
      k * rank ≤ passCount rank polls n ∧ passCount rank polls n < k * rank + rank := by
  rw [round, Nat.div_eq_iff (by omega)]
  omega

lemma passCount_eq (n : ℕ) :
    passCount rank polls n = round rank polls n * rank + passCount rank polls n % rank := by
  rw [round]
  exact (Nat.div_add_mod' _ _).symm

lemma mem_arrivals {k n m : ℕ} :
    m ∈ arrivals rank polls k n ↔ m < n ∧ passCount rank polls m = k * rank := by
  simp [arrivals]

lemma mem_passings {k n m : ℕ} :
    m ∈ passings rank polls k n ↔
      m < n ∧ round rank polls m = k ∧ Passes rank polls m := by
  simp [passings]

lemma arrivals_succ (k n : ℕ) :
    arrivals rank polls k (n + 1) =
      if passCount rank polls n = k * rank then insert n (arrivals rank polls k n)
      else arrivals rank polls k n := by
  rw [arrivals, Finset.range_add_one, Finset.filter_insert]
  rfl

lemma passings_succ (k n : ℕ) :
    passings rank polls k (n + 1) =
      if round rank polls n = k ∧ Passes rank polls n then insert n (passings rank polls k n)
      else passings rank polls k n := by
  rw [passings, Finset.range_add_one, Finset.filter_insert]
  rfl

lemma arrivals_of_lt {k n : ℕ} (h : passCount rank polls n < k * rank) :
    arrivals rank polls k n = ∅ := by
  rw [Finset.eq_empty_iff_forall_notMem]
  intro m hm
  obtain ⟨hlt, heq⟩ := mem_arrivals.1 hm
  have : passCount rank polls m ≤ passCount rank polls n := passCount_mono hlt.le
  omega

lemma card_passings (hr : 1 ≤ rank) (k n : ℕ) :
    (passings rank polls k n).card = min rank (passCount rank polls n - k * rank) := by
  induction n with
  | zero => simp [passings, passCount]
  | succ n ih =>
    have hmem : n ∉ passings rank polls k n := fun h => by
      have := (mem_passings.1 h).1
      omega
    rw [passings_succ, passCount_succ]
    by_cases hp : Passes rank polls n
    · by_cases hk : round rank polls n = k
      · rw [if_pos ⟨hk, hp⟩, if_pos hp, Finset.card_insert_of_notMem hmem, ih]
        have := (round_eq_iff hr).1 hk
        omega
      · rw [if_neg fun h => hk h.1, if_pos hp, ih]
        have : ¬ (k * rank ≤ passCount rank polls n ∧ passCount rank polls n < k * rank + rank) :=
          mt (round_eq_iff hr).2 hk
        omega
    · rw [if_neg fun h => hp h.2, if_neg hp, ih, Nat.add_zero]

/-! ## The invariant -/

/-- What the first `n` polls have made of the barrier. -/
structure Inv (rank : ℕ) (polls : ℕ → Poll Worker) (n : ℕ) : Prop where
  wf : Wf (after rank polls n).vtGlobal
  time : ∀ i, (after rank polls n).vtGlobal.get i =
    max 1 (joinTime rank polls (round rank polls n) n i)
  phase : (after rank polls n).allReachBarrier = true ↔ passCount rank polls n % rank ≠ 0
  reached : (after rank polls n).reachedWorkers =
    arrived rank polls (round rank polls n) n \ passed rank polls (round rank polls n) n
  few : passCount rank polls n % rank = 0 →
    (arrived rank polls (round rank polls n) n).card < rank
  all : passCount rank polls n % rank ≠ 0 →
    (arrived rank polls (round rank polls n) n).card = rank
  /-- In every round the workers that pass have arrived, and none of them passes twice. -/
  sub : ∀ k, passed rank polls k n ⊆ arrived rank polls k n
  inj : ∀ k, Set.InjOn (fun m => (polls m).worker) (passings rank polls k n)
  closed : ∀ k < round rank polls n, (arrived rank polls k n).card = rank

lemma Inv.card_passed (hr : 1 ≤ rank) {n : ℕ} (h : Inv rank polls n) (k : ℕ) :
    (passed rank polls k n).card = min rank (passCount rank polls n - k * rank) := by
  rw [passed, Finset.card_image_of_injOn (h.inj k), card_passings hr]

lemma after_succ (n : ℕ) :
    after rank polls (n + 1) =
      (wait rank (polls n).worker (polls n).time (after rank polls n)).2 := rfl

lemma arrived_succ (k n : ℕ) :
    arrived rank polls k (n + 1) =
      if passCount rank polls n = k * rank then
        insert (polls n).worker (arrived rank polls k n)
      else arrived rank polls k n := by
  rw [arrived, arrivals_succ]
  split_ifs
  · exact Finset.image_insert _ _ _
  · rfl

lemma passed_succ (k n : ℕ) :
    passed rank polls k (n + 1) =
      if round rank polls n = k ∧ Passes rank polls n then
        insert (polls n).worker (passed rank polls k n)
      else passed rank polls k n := by
  rw [passed, passings_succ]
  split_ifs
  · exact Finset.image_insert _ _ _
  · rfl

lemma joinTime_succ (k n i : ℕ) :
    joinTime rank polls k (n + 1) i =
      if passCount rank polls n = k * rank then
        max ((polls n).time.get i) (joinTime rank polls k n i)
      else joinTime rank polls k n i := by
  rw [joinTime, arrivals_succ]
  split_ifs
  · exact Finset.sup_insert
  · rfl

lemma reach_time {b : BarrierEvent Worker} (hb : Wf b.vtGlobal) (w : Worker) {t : VectorTime}
    (ht : Wf t) :
    Wf (b.reach w t).vtGlobal ∧
      ∀ i, (b.reach w t).vtGlobal.get i = max (b.vtGlobal.get i) (t.get i) := by
  rw [reach]
  by_cases he : b.vtGlobal.empty = true
  · rw [if_pos he]
    have hentries : b.vtGlobal.entries = [] := by
      simp only [VectorTime.empty, Bool.and_eq_true, List.isEmpty_iff] at he
      rw [entries, he.1, he.2, ite_self]
    refine ⟨ht, fun i => ?_⟩
    rw [hb.get_eq, hentries, SortedEntries.look]
    exact (max_eq_right (ht.one_le_get i)).symm
  · rw [if_neg he]
    exact ht.updateVectorTime hb

/-- The barrier between the two parts of `Wait`. -/
def arrive (rank : ℕ) (worker : Worker) (vtSelf : VectorTime) (b : BarrierEvent Worker) :
    BarrierEvent Worker :=
  if b.allReachBarrier then b
  else
    { b.reach worker vtSelf with
      allReachBarrier := (b.reach worker vtSelf).isAllReachBarrier rank }

lemma wait_eq (w : Worker) (t : VectorTime) (b : BarrierEvent Worker) :
    wait rank w t b =
      if (b.arrive rank w t).allReachBarrier then (b.arrive rank w t).consume w
      else (none, b.arrive rank w t) := by
  by_cases hb : b.allReachBarrier = true
  · simp only [wait, arrive, hb, if_true]
  · simp only [wait, arrive, hb, Bool.false_eq_true, if_false]
    by_cases hall : (b.reach w t).isAllReachBarrier rank = true
    · rw [if_pos hall, if_pos hall, hall]
    · rw [if_neg hall, if_neg hall]
      have : (b.reach w t).allReachBarrier = (b.reach w t).isAllReachBarrier rank := by
        rw [Bool.eq_false_iff.2 hall]
        exact Bool.eq_false_iff.2 hb
      rw [← this]

/-- What the barrier holds after the arrival of the `n`-th poll, in the round `k` of it. -/
structure Mid (rank : ℕ) (polls : ℕ → Poll Worker) (n k : ℕ) (b : BarrierEvent Worker) :
    Prop where
  wf : Wf b.vtGlobal
  time : ∀ i, b.vtGlobal.get i = max 1 (joinTime rank polls k (n + 1) i)
  reached : b.reachedWorkers = arrived rank polls k (n + 1) \ passed rank polls k n
  le : (arrived rank polls k (n + 1)).card ≤ rank
  phase : b.allReachBarrier = true ↔ (arrived rank polls k (n + 1)).card = rank

lemma Inv.mid (hr : 1 ≤ rank) {n : ℕ} (ht : Wf (polls n).time) (h : Inv rank polls n) :
    Mid rank polls n (round rank polls n)
      ((after rank polls n).arrive rank (polls n).worker (polls n).time) := by
  have hP : passCount rank polls n = _ := passCount_eq n
  by_cases hmod : passCount rank polls n % rank = 0
  · -- the workers still gather
    have hk : passCount rank polls n = round rank polls n * rank := by omega
    have hb : ¬ (after rank polls n).allReachBarrier = true := fun hb => h.phase.1 hb hmod
    have hpassed : passed rank polls (round rank polls n) n = ∅ := by
      rw [← Finset.card_eq_zero, h.card_passed hr]
      omega
    have hreached : ((after rank polls n).reach (polls n).worker (polls n).time).reachedWorkers =
        arrived rank polls (round rank polls n) (n + 1) := by
      rw [arrived_succ, if_pos hk]
      simp only [reach, h.reached, hpassed, Finset.sdiff_empty]
    have hcard := h.few hmod
    have hle : (arrived rank polls (round rank polls n) (n + 1)).card ≤ rank := by
      rw [arrived_succ, if_pos hk]
      exact (Finset.card_insert_le _ _).trans (by omega)
    obtain ⟨hwf, htime⟩ := reach_time h.wf (polls n).worker ht
    rw [arrive, if_neg hb]
    refine ⟨hwf, fun i => ?_, ?_, hle, ?_⟩
    · rw [htime i, h.time i, joinTime_succ, if_pos hk]
      omega
    · rw [hpassed, Finset.sdiff_empty]
      exact hreached
    · simp only [isAllReachBarrier, hreached, decide_eq_true_eq]
      omega
  · -- all have arrived before, and the poll is no arrival
    have hk : passCount rank polls n ≠ round rank polls n * rank := by omega
    have hb : (after rank polls n).allReachBarrier = true := h.phase.2 hmod
    have harr : arrived rank polls (round rank polls n) (n + 1) =
        arrived rank polls (round rank polls n) n := by
      rw [arrived_succ, if_neg hk]
    rw [arrive, if_pos hb]
    refine ⟨h.wf, fun i => ?_, ?_, ?_, ?_⟩
    · rw [h.time i, joinTime_succ, if_neg hk]
    · rw [harr, h.reached]
    · rw [harr, h.all hmod]
    · rw [harr, h.all hmod]
      exact iff_of_true hb rfl

lemma consume_of_mem {b : BarrierEvent Worker} {w : Worker} (h : w ∈ b.reachedWorkers) :
    b.consume w = (some b.vtGlobal,
      if b.reachedWorkers.erase w = ∅ then {}
      else { b with reachedWorkers := b.reachedWorkers.erase w }) := by
  rw [consume, if_pos h]

lemma consume_of_notMem {b : BarrierEvent Worker} {w : Worker} (h : w ∉ b.reachedWorkers) :
    b.consume w = (none, b) := by
  rw [consume, if_neg h]

section Step

variable {n k : ℕ} {b : BarrierEvent Worker}

/-- A poll passes when all have arrived and its worker has, and did not pass before. -/
lemma Mid.passes_iff (hm : Mid rank polls n k b)
    (hb : b = (after rank polls n).arrive rank (polls n).worker (polls n).time) :
    Passes rank polls n ↔ (arrived rank polls k (n + 1)).card = rank ∧
      (polls n).worker ∈ arrived rank polls k (n + 1) ∧
      (polls n).worker ∉ passed rank polls k n := by
  rw [Passes, answer, wait_eq, ← hb, ← hm.phase, ← Finset.mem_sdiff, ← hm.reached]
  by_cases hall : b.allReachBarrier = true
  · rw [if_pos hall]
    by_cases hw : (polls n).worker ∈ b.reachedWorkers
    · rw [consume_of_mem hw]
      exact iff_of_true rfl ⟨hall, hw⟩
    · rw [consume_of_notMem hw]
      exact iff_of_false (by simp) fun h => hw h.2
  · rw [if_neg hall]
    exact iff_of_false (by simp) fun h => hall h.1

lemma Mid.answer_eq (hm : Mid rank polls n k b)
    (hb : b = (after rank polls n).arrive rank (polls n).worker (polls n).time)
    (hp : Passes rank polls n) :
    answer rank polls n = some b.vtGlobal ∧
      after rank polls (n + 1) =
        if b.reachedWorkers.erase (polls n).worker = ∅ then {}
        else { b with reachedWorkers := b.reachedWorkers.erase (polls n).worker } := by
  obtain ⟨hall, hw⟩ := (hm.passes_iff hb).1 hp
  have hmem : (polls n).worker ∈ b.reachedWorkers := by rwa [hm.reached, Finset.mem_sdiff]
  rw [after_succ, answer, wait_eq, ← hb, if_pos (hm.phase.2 hall), consume_of_mem hmem]
  exact ⟨rfl, rfl⟩

lemma Mid.after_eq (hm : Mid rank polls n k b)
    (hb : b = (after rank polls n).arrive rank (polls n).worker (polls n).time)
    (hp : ¬ Passes rank polls n) : after rank polls (n + 1) = b := by
  rw [after_succ, wait_eq, ← hb]
  split_ifs with hall
  · have hw : (polls n).worker ∉ b.reachedWorkers := by
      intro hw
      rw [hm.reached, Finset.mem_sdiff] at hw
      exact hp ((hm.passes_iff hb).2 ⟨hm.phase.1 hall, hw⟩)
    rw [consume_of_notMem hw]
  · rfl

/-- The rounds other than the one of the poll are as they were. -/
lemma rounds_succ (hr : 1 ≤ rank) {j : ℕ} (hj : j ≠ round rank polls n) :
    arrived rank polls j (n + 1) = arrived rank polls j n ∧
      passings rank polls j (n + 1) = passings rank polls j n := by
  refine ⟨?_, ?_⟩
  · rw [arrived_succ, if_neg]
    intro heq
    exact hj ((round_eq_iff hr).2 ⟨by omega, by omega⟩).symm
  · rw [passings_succ, if_neg fun hk => hj hk.1.symm]

lemma Inv.succ_of_not_passes (hr : 1 ≤ rank) (h : Inv rank polls n)
    (hm : Mid rank polls n (round rank polls n) b)
    (hb : b = (after rank polls n).arrive rank (polls n).worker (polls n).time)
    (hp : ¬ Passes rank polls n) : Inv rank polls (n + 1) := by
  have hP : passCount rank polls (n + 1) = passCount rank polls n := by
    rw [passCount_succ, if_neg hp, Nat.add_zero]
  have hround : round rank polls (n + 1) = round rank polls n := by rw [round, hP, round]
  have hpass (k : ℕ) : passings rank polls k (n + 1) = passings rank polls k n := by
    rw [passings_succ, if_neg fun hk => hp hk.2]
  have hpassed (k : ℕ) : passed rank polls k (n + 1) = passed rank polls k n := by
    rw [passed, hpass, passed]
  have hgather : passCount rank polls n % rank = 0 →
      (arrived rank polls (round rank polls n) (n + 1)).card ≠ rank := by
    -- in a round that gathers, the poll that completes it passes at once
    intro hmod hcard
    have hk : passCount rank polls n = round rank polls n * rank := by
      have : passCount rank polls n = _ := passCount_eq n
      omega
    refine hp ((hm.passes_iff hb).2 ⟨hcard, ?_, ?_⟩)
    · rw [arrived_succ, if_pos hk]
      exact Finset.mem_insert_self _ _
    · have hempty : passed rank polls (round rank polls n) n = ∅ := by
        rw [← Finset.card_eq_zero, h.card_passed hr]
        omega
      rw [hempty]
      exact Finset.notMem_empty _
  have hall : passCount rank polls n % rank ≠ 0 →
      (arrived rank polls (round rank polls n) (n + 1)).card = rank := by
    intro hmod
    have hk : passCount rank polls n ≠ round rank polls n * rank := by
      have : passCount rank polls n = _ := passCount_eq n
      omega
    rw [arrived_succ, if_neg hk]
    exact h.all hmod
  refine ⟨?_, ?_, ?_, ?_, ?_, ?_, fun k => ?_, fun k => ?_, fun k hk => ?_⟩
  · rw [hm.after_eq hb hp]
    exact hm.wf
  · rw [hm.after_eq hb hp, hround]
    exact hm.time
  · rw [hm.after_eq hb hp, hP, hm.phase]
    exact ⟨fun hc hmod => hgather hmod hc, hall⟩
  · rw [hm.after_eq hb hp, hround, hpassed]
    exact hm.reached
  · intro hmod
    rw [hP] at hmod
    rw [hround]
    exact lt_of_le_of_ne hm.le (hgather hmod)
  · intro hmod
    rw [hP] at hmod
    rw [hround]
    exact hall hmod
  · rw [hpassed, arrived_succ]
    split_ifs
    · exact (h.sub k).trans (Finset.subset_insert _ _)
    · exact h.sub k
  · rw [hpass]
    exact h.inj k
  · rw [hround] at hk
    rw [(rounds_succ hr hk.ne).1]
    exact h.closed k hk

/-! ### A poll that passes -/

lemma passed_of_passes (hp : Passes rank polls n) :
    passed rank polls (round rank polls n) (n + 1) =
      insert (polls n).worker (passed rank polls (round rank polls n) n) := by
  rw [passed_succ, if_pos ⟨rfl, hp⟩]

lemma Inv.sub_of_passes (hr : 1 ≤ rank) (h : Inv rank polls n)
    (hm : Mid rank polls n (round rank polls n) b)
    (hb : b = (after rank polls n).arrive rank (polls n).worker (polls n).time)
    (hp : Passes rank polls n) (k : ℕ) :
    passed rank polls k (n + 1) ⊆ arrived rank polls k (n + 1) := by
  obtain ⟨-, hmem, -⟩ := (hm.passes_iff hb).1 hp
  by_cases hk : k = round rank polls n
  · subst hk
    rw [passed_of_passes hp]
    refine Finset.insert_subset hmem ((h.sub _).trans ?_)
    rw [arrived_succ]
    split_ifs
    · exact Finset.subset_insert _ _
    · rfl
  · rw [passed, (rounds_succ hr hk).1, (rounds_succ hr hk).2]
    exact h.sub k

lemma Inv.inj_of_passes (hr : 1 ≤ rank) (h : Inv rank polls n)
    (hm : Mid rank polls n (round rank polls n) b)
    (hb : b = (after rank polls n).arrive rank (polls n).worker (polls n).time)
    (hp : Passes rank polls n) (k : ℕ) :
    Set.InjOn (fun m => (polls m).worker) (passings rank polls k (n + 1)) := by
  obtain ⟨-, -, hnew⟩ := (hm.passes_iff hb).1 hp
  by_cases hk : k = round rank polls n
  · rw [hk, passings_succ, if_pos ⟨rfl, hp⟩, Finset.coe_insert]
    refine (Set.injOn_insert ?_).2 ⟨h.inj _, ?_⟩
    · exact fun hn => absurd (mem_passings.1 (Finset.mem_coe.1 hn)).1 (lt_irrefl n)
    · rintro ⟨m, hmn, heq⟩
      exact hnew (Finset.mem_image.2 ⟨m, hmn, heq⟩)
  · rw [(rounds_succ hr hk).2]
    exact h.inj k

/-- The workers that are left once this one has passed. -/
lemma Mid.left (hm : Mid rank polls n (round rank polls n) b) (hp : Passes rank polls n) :
    b.reachedWorkers.erase (polls n).worker =
      arrived rank polls (round rank polls n) (n + 1) \
        passed rank polls (round rank polls n) (n + 1) := by
  rw [hm.reached, passed_of_passes hp, Finset.sdiff_insert]

lemma Inv.card_left (hr : 1 ≤ rank) (h : Inv rank polls n)
    (hm : Mid rank polls n (round rank polls n) b)
    (hb : b = (after rank polls n).arrive rank (polls n).worker (polls n).time)
    (hp : Passes rank polls n) :
    (b.reachedWorkers.erase (polls n).worker).card =
      rank - (passCount rank polls n % rank + 1) := by
  obtain ⟨hcard, -, hnew⟩ := (hm.passes_iff hb).1 hp
  rw [hm.left hp, Finset.card_sdiff_of_subset (h.sub_of_passes hr hm hb hp _), hcard,
    passed_of_passes hp, Finset.card_insert_of_notMem hnew, h.card_passed hr]
  have hdiv : passCount rank polls n = _ := passCount_eq n
  have := Nat.mod_lt (passCount rank polls n) (show 0 < rank by omega)
  omega

/-- The last worker of the round: the barrier is as at the start. -/
lemma Inv.succ_last (hr : 1 ≤ rank) (h : Inv rank polls n)
    (hm : Mid rank polls n (round rank polls n) b)
    (hb : b = (after rank polls n).arrive rank (polls n).worker (polls n).time)
    (hp : Passes rank polls n) (hlast : passCount rank polls n % rank + 1 = rank) :
    Inv rank polls (n + 1) := by
  obtain ⟨hcard, -, -⟩ := (hm.passes_iff hb).1 hp
  have hP : passCount rank polls (n + 1) = passCount rank polls n + 1 := by
    rw [passCount_succ, if_pos hp]
  have hdiv : passCount rank polls n = _ := passCount_eq n
  have hround : round rank polls (n + 1) = round rank polls n + 1 := by
    rw [round_eq_iff hr, Nat.add_one_mul]
    omega
  have hmod : passCount rank polls (n + 1) % rank = 0 := by
    have hdiv' : passCount rank polls (n + 1) = _ := passCount_eq (n + 1)
    rw [hround, Nat.add_one_mul] at hdiv'
    omega
  have harrivals : arrivals rank polls (round rank polls n + 1) (n + 1) = ∅ := by
    rw [arrivals_succ, if_neg (by rw [Nat.add_one_mul]; omega)]
    exact arrivals_of_lt (by rw [Nat.add_one_mul]; omega)
  have harrived : arrived rank polls (round rank polls n + 1) (n + 1) = ∅ := by
    rw [arrived, harrivals, Finset.image_empty]
  have hempty : b.reachedWorkers.erase (polls n).worker = ∅ := by
    rw [← Finset.card_eq_zero, h.card_left hr hm hb hp]
    omega
  have hafter := (hm.answer_eq hb hp).2
  rw [if_pos hempty] at hafter
  refine ⟨?_, ?_, ?_, ?_, ?_, ?_, h.sub_of_passes hr hm hb hp, h.inj_of_passes hr hm hb hp,
    fun k hk => ?_⟩
  · rw [hafter]
    exact wf_default
  · intro i
    rw [hafter, hround, joinTime, harrivals, wf_default.get_eq]
    rfl
  · rw [hafter, hmod]
    simp
  · rw [hafter, hround, harrived]
    simp
  · intro _
    rw [hround, harrived]
    exact hr
  · intro hne
    exact absurd hmod hne
  · rw [hround] at hk
    rcases Nat.lt_succ_iff_lt_or_eq.1 hk with hk | rfl
    · rw [(rounds_succ hr hk.ne).1]
      exact h.closed k hk
    · exact hcard

lemma Inv.succ_inside (hr : 1 ≤ rank) (h : Inv rank polls n)
    (hm : Mid rank polls n (round rank polls n) b)
    (hb : b = (after rank polls n).arrive rank (polls n).worker (polls n).time)
    (hp : Passes rank polls n) (hlast : passCount rank polls n % rank + 1 < rank) :
    Inv rank polls (n + 1) := by
  obtain ⟨hcard, -, -⟩ := (hm.passes_iff hb).1 hp
  have hP : passCount rank polls (n + 1) = passCount rank polls n + 1 := by
    rw [passCount_succ, if_pos hp]
  have hdiv : passCount rank polls n = _ := passCount_eq n
  have hround : round rank polls (n + 1) = round rank polls n := by
    rw [round_eq_iff hr]
    omega
  have hmod : passCount rank polls (n + 1) % rank = passCount rank polls n % rank + 1 := by
    have hdiv' : passCount rank polls (n + 1) = _ := passCount_eq (n + 1)
    rw [hround] at hdiv'
    omega
  have hne : b.reachedWorkers.erase (polls n).worker ≠ ∅ := by
    rw [ne_eq, ← Finset.card_eq_zero, h.card_left hr hm hb hp]
    omega
  have hafter := (hm.answer_eq hb hp).2
  rw [if_neg hne] at hafter
  refine ⟨?_, ?_, ?_, ?_, ?_, ?_, h.sub_of_passes hr hm hb hp, h.inj_of_passes hr hm hb hp,
    fun k hk => ?_⟩
  · rw [hafter]
    exact hm.wf
  · rw [hafter, hround]
    exact hm.time
  · rw [hafter, hmod]
    exact iff_of_true (hm.phase.2 hcard) (by omega)
  · rw [hafter, hround]
    exact hm.left hp
  · intro h0
    omega
  · intro _
    rw [hround]
    exact hcard
  · rw [hround] at hk
    rw [(rounds_succ hr hk.ne).1]
    exact h.closed k hk

lemma Inv.succ_of_passes (hr : 1 ≤ rank) (h : Inv rank polls n)
    (hm : Mid rank polls n (round rank polls n) b)
    (hb : b = (after rank polls n).arrive rank (polls n).worker (polls n).time)
    (hp : Passes rank polls n) : Inv rank polls (n + 1) := by
  have hlt := Nat.mod_lt (passCount rank polls n) (show 0 < rank by omega)
  rcases (Nat.succ_le_of_lt hlt).eq_or_lt with hlast | hlast
  · exact h.succ_last hr hm hb hp hlast
  · exact h.succ_inside hr hm hb hp hlast

end Step

lemma inv_after (hr : 1 ≤ rank) (ht : ∀ n, Wf (polls n).time) (n : ℕ) : Inv rank polls n := by
  induction n with
  | zero =>
    have hround : round rank polls 0 = 0 := by simp [round, passCount]
    refine ⟨wf_default, fun i => ?_, ?_, ?_, ?_, ?_, fun k => ?_, fun k => ?_, fun k hk => ?_⟩
    · rw [joinTime, arrivals, after, wf_default.get_eq]
      rfl
    · simp [after, passCount]
    · simp [after, arrived, arrivals]
    · simp only [arrived, arrivals, Finset.range_zero, Finset.filter_empty, Finset.image_empty,
        Finset.card_empty]
      omega
    · simp [passCount]
    · simp [passed, passings]
    · simp [passings]
    · omega
  | succ n ih =>
    by_cases hp : Passes rank polls n
    · exact ih.succ_of_passes hr (ih.mid hr (ht n)) rfl hp
    · exact ih.succ_of_not_passes hr (ih.mid hr (ht n)) rfl hp

/-- The join at an arrival is at least the initial time. -/
lemma one_le_joinTime (ht : ∀ n, Wf (polls n).time) {k n : ℕ}
    (h : (arrived rank polls k n).Nonempty) (i : ℕ) : 1 ≤ joinTime rank polls k n i := by
  obtain ⟨w, hw⟩ := h
  obtain ⟨m, hm, -⟩ := Finset.mem_image.1 hw
  calc 1 ≤ (polls m).time.get i := (ht m).one_le_get i
    _ ≤ joinTime rank polls k n i :=
      Finset.le_sup (s := arrivals rank polls k n) (f := fun m => (polls m).time.get i) hm

/-- Once a round is over, each worker that arrived in it has passed once. -/
lemma Inv.existsUnique_passing (hr : 1 ≤ rank) {n : ℕ} (h : Inv rank polls n) {k : ℕ}
    (hk : k < round rank polls n) {w : Worker} (hw : w ∈ arrived rank polls k n) :
    ∃! m, m ∈ passings rank polls k n ∧ (polls m).worker = w := by
  have hcount : k * rank + rank ≤ passCount rank polls n := by
    have hdiv : passCount rank polls n = _ := passCount_eq n
    have := Nat.mul_le_mul_right rank (Nat.succ_le_of_lt hk)
    rw [Nat.succ_mul] at this
    omega
  have hall : passed rank polls k n = arrived rank polls k n := by
    refine Finset.eq_of_subset_of_card_le (h.sub k) ?_
    rw [h.closed k hk, h.card_passed hr]
    omega
  rw [← hall] at hw
  obtain ⟨m, hm, hmw⟩ := Finset.mem_image.1 hw
  refine ⟨m, ⟨hm, hmw⟩, ?_⟩
  rintro m' ⟨hm', hmw'⟩
  exact h.inj k hm' hm (hmw'.trans hmw.symm)

/-- **The barrier keeps its rounds apart.** In any sequence of polls, by any workers: a poll that
passes does so in a round in which `rank` workers have arrived, its own among them, passes for
the first time in that round, and gets the join of the times at the arrivals of that round. A
poll fails only while workers are missing, or when its worker did not arrive in the round that
is being released or passed it before; in the last case the poll is no arrival of that round.
When a round is over each worker that arrived in it has passed once. -/
theorem wait_keeps_rounds (hr : 1 ≤ rank) (ht : ∀ n, Wf (polls n).time) (n : ℕ) :
    (∀ t, answer rank polls n = some t →
      (arrived rank polls (round rank polls n) (n + 1)).card = rank ∧
        (polls n).worker ∈ arrived rank polls (round rank polls n) (n + 1) ∧
        (polls n).worker ∉ passed rank polls (round rank polls n) n ∧
        ∀ i, t.get i = joinTime rank polls (round rank polls n) (n + 1) i) ∧
      (answer rank polls n = none →
        (arrived rank polls (round rank polls n) (n + 1)).card < rank ∨
          (polls n).worker ∉ arrived rank polls (round rank polls n) (n + 1) ∨
          (polls n).worker ∈ passed rank polls (round rank polls n) n) ∧
      ((polls n).worker ∈ passed rank polls (round rank polls n) n →
        answer rank polls n = none ∧ n ∉ arrivals rank polls (round rank polls n) (n + 1)) ∧
      ∀ k < round rank polls n, ∀ w ∈ arrived rank polls k n,
        ∃! m, m ∈ passings rank polls k n ∧ (polls m).worker = w := by
  have h := inv_after hr ht n
  have hm := h.mid hr (ht n)
  refine ⟨fun t hans => ?_, fun hans => ?_, fun hpassed => ⟨?_, fun hn => ?_⟩,
    fun k hk w hw => h.existsUnique_passing hr hk hw⟩
  · have hp : Passes rank polls n := by rw [Passes, hans]; rfl
    obtain ⟨hcard, hmem, hnew⟩ := (hm.passes_iff rfl).1 hp
    refine ⟨hcard, hmem, hnew, fun i => ?_⟩
    have heq := (hm.answer_eq rfl hp).1
    rw [hans, Option.some_inj] at heq
    rw [heq, hm.time i]
    exact max_eq_right (one_le_joinTime ht ⟨_, hmem⟩ i)
  · by_contra hne
    push Not at hne
    obtain ⟨hcard, hmem, hnew⟩ := hne
    have hp := (hm.passes_iff rfl).2 ⟨le_antisymm hm.le hcard, hmem, hnew⟩
    rw [Passes, hans] at hp
    cases hp
  · have hp : ¬ Passes rank polls n := fun hp => ((hm.passes_iff rfl).1 hp).2.2 hpassed
    rw [Passes, Bool.not_eq_true, Option.isSome_eq_false_iff, Option.isNone_iff_eq_none] at hp
    exact hp
  · have hpos := Finset.card_pos.2 ⟨_, hpassed⟩
    rw [h.card_passed hr] at hpos
    have := (mem_arrivals.1 hn).2
    omega

def inTurn (n : ℕ) : Poll ℕ := { worker := n % 2, time := {} }

theorem wait_keeps_rounds_inTurn :
    answer 2 inTurn 1 = some {} ∧
      (arrived 2 inTurn (round 2 inTurn 1) 2).card = 2 :=
  ⟨by decide, ((wait_keeps_rounds (by decide) (fun _ => wf_default) 1).1 {} (by decide)).1⟩

end BarrierEvent

end MsSanitizer
