import Mathlib.Data.List.Induction
import Mathlib.Data.List.Perm.Basic
import Mathlib.Tactic

/-!
# Insertion sort in place

An element is brought to its place by moving the elements before it up by one, as long as they may
not stand before it. When the elements before it are in order, they are in order with it
afterwards, and from an ordered first part on the whole list is sorted.
-/

namespace MsSanitizer.InPlaceInsertion

variable {α : Type*}

/-- The loop that moves elements up, and puts `x` where it ends. -/
def shift (above : α → Bool) (x d : α) : ℕ → List α → List α
  | 0, l => l.set 0 x
  | j + 1, l =>
    if above (l.getD j d) then shift above x d j (l.set (j + 1) (l.getD j d)) else l.set (j + 1) x

/-- What the loop does to the elements before `y`. -/
lemma shift_spec (above : α → Bool) (x d y : α) (pre post : List α) :
    ∃ a b, pre = a ++ b ∧
      shift above x d pre.length (pre ++ y :: post) = a ++ x :: (b ++ post) ∧
      (∀ z ∈ b, above z = true) ∧ ∀ z, a.getLast? = some z → above z = false := by
  induction pre using List.reverseRecOn generalizing y post with
  | nil => exact ⟨[], [], rfl, rfl, fun _ h => (by cases h), fun _ h => (by cases h)⟩
  | append_singleton init z ih =>
    have hget : (init ++ [z] ++ y :: post).getD init.length d = z := by simp
    have hset : ∀ w, (init ++ [z] ++ y :: post).set (init.length + 1) w =
        init ++ z :: (w :: post) := fun w => by
      rw [List.append_assoc, List.singleton_append, List.set_append_right _ _ (Nat.le_succ _),
        Nat.succ_sub (Nat.le_refl _), Nat.sub_self]
      rfl
    rw [List.length_append, List.length_singleton, shift, hget, hset, hset]
    cases habove : above z with
    | true =>
      obtain ⟨a, b, rfl, hshift, hb, ha⟩ := ih z (z :: post)
      refine ⟨a, b ++ [z], by rw [List.append_assoc], ?_, ?_, ha⟩
      · rw [if_pos rfl, hshift, List.append_assoc b]
        rfl
      · intro w hw
        rcases List.mem_append.mp hw with hw | hw
        · exact hb w hw
        · rw [List.mem_singleton.mp hw]
          exact habove
    | false =>
      refine ⟨init ++ [z], [], by rw [List.append_nil], ?_, fun _ h => (by cases h), ?_⟩
      · rw [if_neg Bool.false_ne_true, List.append_assoc]
        rfl
      · intro w hw
        rw [List.getLast?_concat, Option.some_inj] at hw
        rw [← hw]
        exact habove

variable (r : α → α → Prop) [DecidableRel r] (d : α)

/-- The element at `i` is brought to its place among those before it. -/
def step (l : List α) (i : ℕ) : List α :=
  shift (fun z => !decide (r z (l.getD i d))) (l.getD i d) d i l

/-- The elements from `n` on are brought to their places. -/
def sortFrom (n : ℕ) (l : List α) : List α :=
  (List.range' n (l.length - n)).foldl (step r d) l

variable {r}

lemma step_of_last {l : List α} {i : ℕ} (hi : i < l.length) (h : ∀ z, r z (l.getD i d)) :
    step r d l i = l := by
  have hset : l.set i (l.getD i d) = l := by
    rw [List.getD_eq_getElem?_getD, List.getElem?_eq_getElem hi, Option.getD_some,
      List.set_getElem_self]
  unfold step
  cases i with
  | zero => exact hset
  | succ j => rw [shift, decide_eq_true (h _), Bool.not_true, if_neg Bool.false_ne_true, hset]

section Order

variable (htotal : ∀ a b, r a b ∨ r b a) (htrans : ∀ a b c, r a b → r b c → r a c)

include htotal htrans

lemma step_spec {pre : List α} (x : α) (post : List α) (hpre : pre.Pairwise r) :
    ∃ pre', step r d (pre ++ x :: post) pre.length = pre' ++ post ∧ pre'.Perm (pre ++ [x]) ∧
      pre'.Pairwise r := by
  have hget : (pre ++ x :: post).getD pre.length d = x := by simp
  obtain ⟨a, b, rfl, hshift, hb, ha⟩ := shift_spec (fun z => !decide (r z x)) x d x pre post
  obtain ⟨hpa, hpb, hab⟩ := List.pairwise_append.mp hpre
  have hxb : ∀ z ∈ b, r x z := by
    intro z hz
    have hz' := hb z hz
    rw [Bool.not_eq_true', decide_eq_false_iff_not] at hz'
    exact (htotal x z).resolve_right hz'
  have hax : ∀ z ∈ a, r z x := by
    intro z hz
    obtain ⟨init, last, rfl⟩ := a.eq_nil_or_concat'.resolve_left (List.ne_nil_of_mem hz)
    have hlast := ha last List.getLast?_concat
    rw [Bool.not_eq_false', decide_eq_true_iff] at hlast
    rcases List.mem_append.mp hz with hz | hz
    · exact htrans z last x ((List.pairwise_append.mp hpa).2.2 z hz last List.mem_cons_self) hlast
    · rw [List.mem_singleton.mp hz]
      exact hlast
  refine ⟨a ++ x :: b, ?_, ?_, ?_⟩
  · rw [step, hget, hshift, List.append_assoc]
    rfl
  · rw [List.append_assoc]
    exact (List.perm_append_singleton x b).symm.append_left a
  · refine List.pairwise_append.mpr ⟨hpa, List.pairwise_cons.mpr ⟨hxb, hpb⟩, fun z hz w hw => ?_⟩
    rcases List.mem_cons.mp hw with rfl | hw
    · exact hax z hz
    · exact hab z hz w hw

lemma foldl_step_spec {l : List α} {n : ℕ} (h : (l.take n).Pairwise r) {k : ℕ}
    (hk : n + k ≤ l.length) :
    ∃ pre, (List.range' n k).foldl (step r d) l = pre ++ l.drop (n + k) ∧
      pre.Perm (l.take (n + k)) ∧ pre.Pairwise r := by
  induction k with
  | zero => exact ⟨l.take n, (List.take_append_drop n l).symm, List.Perm.refl _, h⟩
  | succ k ih =>
    obtain ⟨pre, hfold, hperm, hpre⟩ := ih (by omega)
    have hlt : n + k < l.length := by omega
    have hlength : pre.length = n + k := by
      rw [hperm.length_eq, List.length_take, Nat.min_eq_left hlt.le]
    rw [List.range'_concat, List.foldl_append, hfold, List.foldl_cons, List.foldl_nil, one_mul,
      ← hlength, hlength, List.drop_eq_getElem_cons hlt]
    obtain ⟨pre', hstep, hperm', hpre'⟩ :=
      step_spec d htotal htrans l[n + k] (l.drop (n + k + 1)) hpre
    rw [hlength] at hstep
    refine ⟨pre', hstep, hperm'.trans ?_, hpre'⟩
    rw [← Nat.add_assoc, List.take_succ_eq_append_getElem hlt]
    exact hperm.append_right _

/-- **The whole list is sorted from an ordered first part on.** -/
theorem sortFrom_spec {l : List α} {n : ℕ} (hn : n ≤ l.length) (h : (l.take n).Pairwise r) :
    (sortFrom r d n l).Perm l ∧ (sortFrom r d n l).Pairwise r := by
  obtain ⟨pre, hfold, hperm, hpre⟩ :=
    foldl_step_spec d htotal htrans h (k := l.length - n) (by omega)
  rw [Nat.add_sub_cancel' hn, List.drop_length, List.append_nil] at hfold
  rw [Nat.add_sub_cancel' hn, List.take_length] at hperm
  rw [sortFrom, hfold]
  exact ⟨hperm, hpre⟩

end Order

end MsSanitizer.InPlaceInsertion
