import Mathlib.Data.List.TakeWhile
import Mathlib.Tactic

/-!
Ordered lists of tagged half-open segments, as partial functions.

A list of segments is read as a partial function: a point is sent to the tag of the first
segment that holds it. A list is laid out when every segment ends no earlier than it
starts and every segment ends before the later ones start; empty segments are allowed and
hold no point. In a laid out list the points before a segment and the points after it are
looked up in different parts of the list, which is all that the proofs about cutting,
growing and replacing segments use.
-/

namespace MsSanitizer.Segs

/-- A type of segments `[lo, hi)` that carry a tag. -/
class Segment (S : Type*) (α τ : outParam Type*) where
  lo : S → α
  hi : S → α
  tag : S → τ

open Segment

variable {S α τ : Type*} [LinearOrder α] [Segment S α τ]

def look : List S → α → Option τ
  | [], _ => none
  | s :: l, x => if lo s ≤ x ∧ x < hi s then some (tag s) else look l x

/-- Segments in order, none reaching into a later one. -/
@[mk_iff] structure Laid (l : List S) : Prop where
  wf : ∀ s ∈ l, lo s ≤ hi s
  ord : l.Pairwise fun s t => hi s ≤ lo t

@[simp] lemma look_nil (x : α) : look ([] : List S) x = none := rfl

lemma look_cons (s : S) (l : List S) (x : α) :
    look (s :: l) x = if lo s ≤ x ∧ x < hi s then some (tag s) else look l x := rfl

lemma look_append (l m : List S) (x : α) : look (l ++ m) x = (look l x).or (look m x) := by
  induction l with
  | nil => simp
  | cons s l ih =>
    rw [List.cons_append, look_cons, look_cons, ih]
    split_ifs <;> simp

lemma look_eq_none_of_lt {l : List S} {x : α} (h : ∀ s ∈ l, x < lo s) : look l x = none := by
  induction l with
  | nil => rfl
  | cons s l ih =>
    have hs : x < lo s := h s (by simp)
    rw [look_cons, if_neg (fun hx => absurd hx.1 (not_le.mpr hs)),
      ih fun t ht => h t (by simp [ht])]

lemma look_eq_none_of_ge {l : List S} {x : α} (h : ∀ s ∈ l, hi s ≤ x) : look l x = none := by
  induction l with
  | nil => rfl
  | cons s l ih =>
    have hs : hi s ≤ x := h s (by simp)
    rw [look_cons, if_neg (fun hx => absurd hx.2 (not_lt.mpr hs)),
      ih fun t ht => h t (by simp [ht])]

@[simp] lemma laid_nil : Laid ([] : List S) := ⟨by simp, by simp⟩

section

variable {β : Type*} {p : β → Prop} {r : β → β → Prop}

lemma ordered_cons {s : β} {l : List β} :
    ((∀ t ∈ s :: l, p t) ∧ (s :: l).Pairwise r) ↔
      p s ∧ (∀ t ∈ l, r s t) ∧ (∀ t ∈ l, p t) ∧ l.Pairwise r := by
  rw [List.forall_mem_cons, List.pairwise_cons, and_assoc, and_left_comm (a := ∀ t ∈ l, p t)]

lemma ordered_append {l m : List β} :
    ((∀ t ∈ l ++ m, p t) ∧ (l ++ m).Pairwise r) ↔
      ((∀ t ∈ l, p t) ∧ l.Pairwise r) ∧ ((∀ t ∈ m, p t) ∧ m.Pairwise r) ∧
        ∀ s ∈ l, ∀ t ∈ m, r s t := by
  rw [List.forall_mem_append, List.pairwise_append, and_assoc, and_assoc, and_assoc,
    and_left_comm (a := ∀ t ∈ m, p t)]

end

lemma laid_cons {s : S} {l : List S} :
    Laid (s :: l) ↔ lo s ≤ hi s ∧ (∀ t ∈ l, hi s ≤ lo t) ∧ Laid l := by
  simp only [laid_iff, ordered_cons]

lemma laid_append {l m : List S} :
    Laid (l ++ m) ↔ Laid l ∧ Laid m ∧ ∀ s ∈ l, ∀ t ∈ m, hi s ≤ lo t := by
  simp only [laid_iff, ordered_append]

lemma laid_singleton {s : S} : Laid [s] ↔ lo s ≤ hi s := by simp [laid_cons]

lemma Laid.pairwise_lo {l : List S} (h : Laid l) : l.Pairwise fun s t => lo s ≤ lo t := by
  refine List.Pairwise.imp_of_mem (fun hs _ hst => ?_) h.ord
  exact (h.wf _ hs).trans hst

lemma Laid.pairwise_hi {l : List S} (h : Laid l) : l.Pairwise fun s t => hi s ≤ hi t := by
  refine List.Pairwise.imp_of_mem (fun _ ht hst => ?_) h.ord
  exact hst.trans (h.wf _ ht)

/-- In a laid out list the segment that holds a point decides its tag. -/
lemma Laid.look_eq {l : List S} (h : Laid l) {s : S} (hs : s ∈ l) {x : α}
    (hx : lo s ≤ x ∧ x < hi s) : look l x = some (tag s) := by
  induction l with
  | nil => simp at hs
  | cons t l ih =>
    obtain ⟨-, hto, hl⟩ := laid_cons.mp h
    rw [look_cons]
    rcases List.mem_cons.mp hs with rfl | hs'
    · rw [if_pos hx]
    · rw [if_neg fun ht => absurd (lt_of_lt_of_le ht.2 ((hto s hs').trans hx.1)) (lt_irrefl _),
        ih hl hs']

/-! ### Splitting at a partition point -/

/-- The part of a list before the first element that satisfies `p`, and the rest: the
position a search for the partition point of `p` returns. -/
def splitAtFirst (p : S → Bool) (l : List S) : List S × List S := l.span fun s => !p s

lemma splitAtFirst_append (p : S → Bool) (l : List S) :
    (splitAtFirst p l).1 ++ (splitAtFirst p l).2 = l := by
  simp [splitAtFirst, List.span_eq_takeWhile_dropWhile]

lemma splitAtFirst_left {p : S → Bool} {l : List S} {s : S} (hs : s ∈ (splitAtFirst p l).1) :
    p s = false := by
  simp only [splitAtFirst, List.span_eq_takeWhile_dropWhile] at hs
  simpa using List.mem_takeWhile_imp hs

/-- When `p` is upward closed along the list, everything after the split satisfies it. -/
lemma splitAtFirst_right {p : S → Bool} {l : List S} (hp : l.Pairwise fun s t => p s → p t)
    {s : S} (hs : s ∈ (splitAtFirst p l).2) : p s = true := by
  induction l with
  | nil => simp [splitAtFirst] at hs
  | cons t l ih =>
    rw [List.pairwise_cons] at hp
    simp only [splitAtFirst, List.span_eq_takeWhile_dropWhile, List.dropWhile_cons] at hs ih
    split_ifs at hs with ht
    · exact ih hp.2 hs
    · have ht' : p t = true := by simpa using ht
      rcases List.mem_cons.mp hs with rfl | hs'
      · exact ht'
      · exact hp.1 s hs' ht'

/-- Splitting a list before the first segment whose bound `f` lies after `x`, when `f`
increases weakly along the list. -/
lemma split_mono {l : List S} (f : S → α) (hf : l.Pairwise fun s t => f s ≤ f t) (x : α) :
    ∃ before after, splitAtFirst (fun s => decide (x < f s)) l = (before, after) ∧
      l = before ++ after ∧ (∀ s ∈ before, f s ≤ x) ∧ ∀ s ∈ after, x < f s := by
  refine ⟨_, _, rfl, (splitAtFirst_append _ l).symm, fun s hs => ?_, fun s hs => ?_⟩
  · simpa using splitAtFirst_left hs
  · have hp : l.Pairwise fun s t : S => decide (x < f s) = true → decide (x < f t) = true :=
      hf.imp fun hst hx => decide_eq_true (lt_of_lt_of_le (of_decide_eq_true hx) hst)
    simpa using splitAtFirst_right hp hs

lemma Laid.split_lo {l : List S} (h : Laid l) (x : α) :
    ∃ before after, splitAtFirst (fun s => decide (x < lo s)) l = (before, after) ∧
      l = before ++ after ∧ (∀ s ∈ before, lo s ≤ x) ∧ ∀ s ∈ after, x < lo s :=
  split_mono lo h.pairwise_lo x

lemma Laid.split_hi {l : List S} (h : Laid l) (x : α) :
    ∃ before after, splitAtFirst (fun s => decide (x < hi s)) l = (before, after) ∧
      l = before ++ after ∧ (∀ s ∈ before, hi s ≤ x) ∧ ∀ s ∈ after, x < hi s :=
  split_mono hi h.pairwise_hi x

end MsSanitizer.Segs
