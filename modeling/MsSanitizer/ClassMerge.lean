import Mathlib.Data.List.Basic
import Mathlib.Data.List.Nodup

/-!
# One entry for each class

The elements of a list are merged one after the other: an element updates the first entry that it
is the same as, and becomes an entry of its own where there is none. When to be the same is to be
of one class, there is one entry for each class in the end, and it is the first element of its
class, updated with the others in their order.
-/

namespace MsSanitizer.ClassMerge

variable {α κ : Type*} (same : α → α → Bool) (update : α → α → α)

/-- `x` updates the first entry that it is the same as. -/
def mergeInto (x : α) : List α → List α
  | [] => [x]
  | e :: es => if same x e then update e x :: es else e :: mergeInto x es

def mergeAll (l : List α) : List α := l.foldl (fun es x => mergeInto same update x es) []

/-- Two elements are the same when they are of one class, and an update stays in its class. -/
structure Classes (cls : α → κ) : Prop where
  same_iff : ∀ x e, same x e = true ↔ cls x = cls e
  cls_update : ∀ e x, cls x = cls e → cls (update e x) = cls e

variable {same update} {cls : α → κ}

/-- The first entry that an element is the same as is looked up first, and then updated. -/
lemma mergeInto_eq (x : α) (es : List α) : mergeInto same update x es =
    match es.findIdx? (same x) with
    | none => es ++ [x]
    | some i => es.modify i fun e => update e x := by
  induction es with
  | nil => rfl
  | cons e es ih =>
    rw [mergeInto, List.findIdx?_cons]
    by_cases hsame : same x e = true
    · simp only [hsame, if_true, List.modify_zero_cons]
    · simp only [hsame, Bool.false_eq_true, if_false, ih]
      cases es.findIdx? (same x) with
      | none => rfl
      | some i => rfl

/-- The entries after a step: all others, with one that is updated or new. -/
lemma mem_mergeInto (h : Classes same update cls) {x y : α} {es : List α}
    (hnodup : (es.map cls).Nodup) (hy : y ∈ mergeInto same update x es) :
    (y ∈ es ∧ cls x ≠ cls y) ∨ (∃ e ∈ es, cls x = cls e ∧ y = update e x) ∨
      (y = x ∧ ∀ e ∈ es, cls x ≠ cls e) := by
  induction es with
  | nil => exact .inr (.inr ⟨List.mem_singleton.mp hy, fun e he => by cases he⟩)
  | cons e es ih =>
    rw [List.map_cons, List.nodup_cons] at hnodup
    rw [mergeInto] at hy
    by_cases hsame : same x e = true
    · rw [if_pos hsame] at hy
      have hcls := (h.same_iff x e).mp hsame
      rcases List.mem_cons.mp hy with rfl | hy
      · exact .inr (.inl ⟨e, List.mem_cons_self, hcls, rfl⟩)
      · refine .inl ⟨List.mem_cons_of_mem _ hy, fun hc => hnodup.1 ?_⟩
        rw [← hcls, hc]
        exact List.mem_map_of_mem hy
    · rw [if_neg hsame] at hy
      have hcls : cls x ≠ cls e := fun hc => hsame ((h.same_iff x e).mpr hc)
      rcases List.mem_cons.mp hy with rfl | hy
      · exact .inl ⟨List.mem_cons_self, hcls⟩
      · rcases ih hnodup.2 hy with ⟨hy, hne⟩ | ⟨e', he', hc, rfl⟩ | ⟨rfl, hne⟩
        · exact .inl ⟨List.mem_cons_of_mem _ hy, hne⟩
        · exact .inr (.inl ⟨e', List.mem_cons_of_mem _ he', hc, rfl⟩)
        · refine .inr (.inr ⟨rfl, fun e' he' => ?_⟩)
          rcases List.mem_cons.mp he' with rfl | he'
          · exact hcls
          · exact hne e' he'

/-- A step adds the class of its element, where it is new. -/
lemma map_mergeInto (h : Classes same update cls) (x : α) (es : List α) :
    (cls x ∈ es.map cls ∧ (mergeInto same update x es).map cls = es.map cls) ∨
      (cls x ∉ es.map cls ∧ (mergeInto same update x es).map cls = es.map cls ++ [cls x]) := by
  induction es with
  | nil => exact .inr ⟨List.not_mem_nil, rfl⟩
  | cons e es ih =>
    rw [mergeInto, List.map_cons]
    by_cases hsame : same x e = true
    · have hcls := (h.same_iff x e).mp hsame
      rw [if_pos hsame, List.map_cons, h.cls_update e x hcls]
      exact .inl ⟨hcls ▸ List.mem_cons_self, rfl⟩
    · have hcls : cls x ≠ cls e := fun hc => hsame ((h.same_iff x e).mpr hc)
      rw [if_neg hsame, List.map_cons]
      rcases ih with ⟨hmem, heq⟩ | ⟨hmem, heq⟩
      · exact .inl ⟨List.mem_cons_of_mem _ hmem, by rw [heq]⟩
      · exact .inr ⟨List.not_mem_cons_of_ne_of_not_mem hcls hmem, by rw [heq, List.cons_append]⟩

/-- `es` are the entries of the elements `l`. -/
structure Merged (same : α → α → Bool) (update : α → α → α) (cls : α → κ) (l es : List α) :
    Prop where
  nodup : (es.map cls).Nodup
  mem : ∀ k, k ∈ es.map cls ↔ k ∈ l.map cls
  entry : ∀ e ∈ es, ∃ a rest, l.filter (same e) = a :: rest ∧ e = rest.foldl update a

lemma Merged.step (h : Classes same update cls) {l es : List α} {x : α}
    (hm : Merged same update cls l es) :
    Merged same update cls (l ++ [x]) (mergeInto same update x es) := by
  have hsame : ∀ {e e' : α}, cls e = cls e' → same e = same e' := by
    intro e e' hc
    funext y
    rw [Bool.eq_iff_iff, h.same_iff, h.same_iff, hc]
  refine ⟨?_, fun k => ?_, fun y hy => ?_⟩
  · rcases map_mergeInto h x es with ⟨-, heq⟩ | ⟨hnew, heq⟩
    · rw [heq]
      exact hm.nodup
    · rw [heq]
      exact List.nodup_append.mpr ⟨hm.nodup, List.nodup_singleton _, fun a ha b hb hab => by
        rw [List.mem_singleton] at hb
        exact hnew (hb ▸ hab ▸ ha)⟩
  · rw [List.map_append, List.mem_append, List.map_singleton, List.mem_singleton, ← hm.mem k]
    rcases map_mergeInto h x es with ⟨hold, heq⟩ | ⟨-, heq⟩
    · rw [heq]
      exact ⟨.inl, fun hk => hk.elim id fun hk => hk ▸ hold⟩
    · rw [heq, List.mem_append, List.mem_singleton]
  · rcases mem_mergeInto h hm.nodup hy with ⟨hy, hne⟩ | ⟨e, he, hc, rfl⟩ | ⟨rfl, hne⟩
    · obtain ⟨a, rest, hfilter, hfold⟩ := hm.entry y hy
      have hx : same y x = false := by
        rw [← Bool.not_eq_true, h.same_iff]
        exact fun hc => hne hc.symm
      refine ⟨a, rest, ?_, hfold⟩
      rw [List.filter_append, hfilter, List.filter_singleton, hx]
      exact List.append_nil _
    · obtain ⟨a, rest, hfilter, hfold⟩ := hm.entry e he
      have hx : same (update e x) x = true := by
        rw [h.same_iff, h.cls_update e x hc, hc]
      refine ⟨a, rest ++ [x], ?_, ?_⟩
      · rw [List.filter_append, List.filter_singleton, hx, hsame (h.cls_update e x hc), hfilter]
        rfl
      · rw [List.foldl_append, ← hfold]
        rfl
    · have hnone : l.filter (same y) = [] := by
        rw [List.filter_eq_nil_iff]
        intro z hz hc
        rw [h.same_iff] at hc
        have hmem : cls y ∈ es.map cls := (hm.mem _).mpr (hc ▸ List.mem_map_of_mem hz)
        obtain ⟨e, he, hec⟩ := List.mem_map.mp hmem
        exact hne e he hec.symm
      refine ⟨y, [], ?_, rfl⟩
      rw [List.filter_append, hnone, List.filter_singleton, (h.same_iff y y).mpr rfl]
      rfl

/-- **One entry for each class**, which is its first element updated with the others. -/
theorem merged_mergeAll (h : Classes same update cls) (l : List α) :
    Merged same update cls l (mergeAll same update l) := by
  have hrun : ∀ (more l es : List α), Merged same update cls l es →
      Merged same update cls (l ++ more)
        (more.foldl (fun es x => mergeInto same update x es) es) := by
    intro more
    induction more with
    | nil =>
      intro l es hm
      rw [List.append_nil]
      exact hm
    | cons x more ih =>
      intro l es hm
      have := ih (l ++ [x]) _ (hm.step h)
      rwa [List.append_assoc, List.singleton_append] at this
  exact hrun l [] [] ⟨List.nodup_nil, fun k => Iff.rfl, fun e he => by cases he⟩

end MsSanitizer.ClassMerge
