import Mathlib.Data.List.Basic
import Mathlib.Logic.Function.Basic

/-!
# Queues with a count of what is to come

Items are put into the queues of their keys and taken out at the front. Each key has a count, that
starts with the number of items that will be put there. A take lowers it, so it stays the number
of items that are not taken yet, and who sees the count zero need not wait for another item.
-/

namespace MsSanitizer.CountedQueues

variable {K α : Type*}

structure State (K α : Type*) where
  count : K → ℕ
  queue : K → List α

inductive Op (K α : Type*)
  | put (k : K) (x : α)
  | skip (k : K)
  | take (k : K) (x : α)

variable [DecidableEq K]

inductive Step (s : State K α) : Op K α → State K α → Prop
  | put (k : K) (x : α) :
    Step s (.put k x) { s with queue := Function.update s.queue k (s.queue k ++ [x]) }
  | skip (k : K) (h : s.count k = 0) : Step s (.skip k) s
  | take (k : K) (x : α) (rest : List α) (h : s.queue k = x :: rest) :
    Step s (.take k x)
      { count := Function.update s.count k (s.count k - 1)
        queue := Function.update s.queue k rest }

/-- The runs from the counts `n` and empty queues. -/
inductive Runs (n : K → ℕ) : List (Op K α) → State K α → Prop
  | nil : Runs n [] ⟨n, fun _ => []⟩
  | concat {l s op s'} (h : Runs n l s) (hstep : Step s op s') : Runs n (l ++ [op]) s'

/-- The item that an operation puts into the queue of `k`. -/
def Op.putAt (k : K) : Op K α → Option α
  | .put k' x => if k' = k then some x else none
  | _ => none

/-- The item that an operation takes from the queue of `k`. -/
def Op.takeAt (k : K) : Op K α → Option α
  | .take k' x => if k' = k then some x else none
  | _ => none

/-- The items that were put into the queue of `k`. -/
def puts (k : K) (l : List (Op K α)) : List α := l.filterMap (Op.putAt k)

/-- The items that were taken from the queue of `k`. -/
def takes (k : K) (l : List (Op K α)) : List α := l.filterMap (Op.takeAt k)

variable {n : K → ℕ} {l : List (Op K α)} {s : State K α} {k : K}

lemma puts_cons (op : Op K α) (l : List (Op K α)) (k : K) :
    puts k (op :: l) = (op.putAt k).toList ++ puts k l := by
  rw [puts, List.filterMap_cons]
  cases op.putAt k <;> rfl

lemma takes_cons (op : Op K α) (l : List (Op K α)) (k : K) :
    takes k (op :: l) = (op.takeAt k).toList ++ takes k l := by
  rw [takes, List.filterMap_cons]
  cases op.takeAt k <;> rfl

lemma puts_concat (l : List (Op K α)) (op : Op K α) (k : K) :
    puts k (l ++ [op]) = puts k l ++ (op.putAt k).toList := by
  rw [puts, List.filterMap_append, ← puts, ← puts, puts_cons]
  exact congrArg _ (List.append_nil _)

lemma takes_concat (l : List (Op K α)) (op : Op K α) (k : K) :
    takes k (l ++ [op]) = takes k l ++ (op.takeAt k).toList := by
  rw [takes, List.filterMap_append, ← takes, ← takes, takes_cons]
  exact congrArg _ (List.append_nil _)

lemma Step.at {op : Op K α} {s' : State K α} (h : Step s op s') (k : K) :
    s.queue k ++ (op.putAt k).toList = (op.takeAt k).toList ++ s'.queue k ∧
      s'.count k = s.count k - (op.takeAt k).toList.length := by
  cases h with
  | put k' x =>
    by_cases hk : k' = k
    · subst hk
      simp [Op.putAt, Op.takeAt]
    · simp [Op.putAt, Op.takeAt, hk, Function.update_of_ne (Ne.symm hk)]
  | skip k' h => simp [Op.putAt, Op.takeAt]
  | take k' x rest h =>
    by_cases hk : k' = k
    · subst hk
      simp [Op.putAt, Op.takeAt, h]
    · simp [Op.putAt, Op.takeAt, hk, Function.update_of_ne (Ne.symm hk)]

/-- **First in, first out.** What was put into a queue is what was taken, and then what is left. -/
lemma Runs.puts_eq (h : Runs n l s) (k : K) : puts k l = takes k l ++ s.queue k := by
  induction h with
  | nil => rfl
  | @concat l s op s' _ hstep ih =>
    rw [puts_concat, takes_concat, ih, List.append_assoc, (hstep.at k).1, List.append_assoc]

/-- **The count is what is not taken yet**, as long as no more is put than was announced. -/
lemma Runs.count_eq (h : Runs n l s) (hput : (puts k l).length ≤ n k) :
    s.count k + (takes k l).length = n k := by
  induction h with
  | nil => rfl
  | @concat l s op s' hrun hstep ih =>
    have hqueue := (hrun.concat hstep).puts_eq k
    have hlength := congrArg List.length hqueue
    rw [puts_concat] at hput
    rw [List.length_append] at hput hlength
    have hcount := ih (by omega)
    have hstart := congrArg List.length (hrun.puts_eq k)
    rw [List.length_append] at hstart
    rw [puts_concat, List.length_append] at hlength
    rw [(hstep.at k).2]
    rw [takes_concat, List.length_append] at hlength ⊢
    omega

lemma Runs.count_eq_add (h : Runs n l s) (hput : (puts k l).length ≤ n k) :
    s.count k = (n k - (puts k l).length) + (s.queue k).length := by
  have hcount := h.count_eq hput
  have hlength := congrArg List.length (h.puts_eq k)
  rw [List.length_append] at hlength
  omega

end MsSanitizer.CountedQueues
