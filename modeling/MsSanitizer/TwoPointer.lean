import Mathlib.Tactic

/-!
# Walks over two sorted sides

Two lists are searched for a related pair with one pointer into each. The pointer of an item may
move on when the item is related to nothing behind the other pointer; the rules here say which
pairs are then left. What shows that a pointer may move is the order of the other side, which is
up to the user.
-/

namespace MsSanitizer.TwoPointer

variable {A B : Type*} {R : A → B → Prop}

/-- Some item of one side is related to some item of the other. -/
def Meet (R : A → B → Prop) (l : List A) (m : List B) : Prop := ∃ a ∈ l, ∃ b ∈ m, R a b

@[simp] lemma not_meet_nil_left (m : List B) : ¬ Meet R [] m := by simp [Meet]

@[simp] lemma not_meet_nil_right (l : List A) : ¬ Meet R l [] := by simp [Meet]

/-- Related pairs do not depend on the order of the sides. -/
lemma meet_perm {l l' : List A} {m m' : List B} (hl : l.Perm l') (hm : m.Perm m') :
    Meet R l m ↔ Meet R l' m' := by
  simp only [Meet, hl.mem_iff, hm.mem_iff]

lemma meet_map_left {C : Type*} {f : C → A} {l : List C} {m : List B} :
    Meet R (l.map f) m ↔ Meet (fun c b => R (f c) b) l m := by
  simp [Meet]

lemma meet_map_right {C : Type*} {f : C → B} {l : List A} {m : List C} :
    Meet R l (m.map f) ↔ Meet (fun a c => R a (f c)) l m := by
  simp [Meet]

lemma meet_congr {R' : A → B → Prop} {l : List A} {m : List B}
    (h : ∀ a ∈ l, ∀ b ∈ m, R a b ↔ R' a b) : Meet R l m ↔ Meet R' l m := by
  constructor
  · rintro ⟨a, ha, b, hb, hR⟩
    exact ⟨a, ha, b, hb, (h a ha b hb).mp hR⟩
  · rintro ⟨a, ha, b, hb, hR⟩
    exact ⟨a, ha, b, hb, (h a ha b hb).mpr hR⟩

lemma meet_swap {l : List A} {m : List B} : Meet R l m ↔ Meet (fun b a => R a b) m l := by
  constructor
  · rintro ⟨a, ha, b, hb, hR⟩
    exact ⟨b, hb, a, ha, hR⟩
  · rintro ⟨b, hb, a, ha, hR⟩
    exact ⟨a, ha, b, hb, hR⟩

variable {a : A} {b : B} {l : List A} {m : List B}

lemma meet_advance_left (h : ∀ x ∈ m, ¬ R a x) :
    Meet R (a :: l) (b :: m) ↔ R a b ∨ Meet R l (b :: m) := by
  constructor
  · rintro ⟨x, hx, y, hy, hR⟩
    rcases List.mem_cons.mp hx with rfl | hx
    · rcases List.mem_cons.mp hy with rfl | hy
      · exact Or.inl hR
      · exact absurd hR (h y hy)
    · exact Or.inr ⟨x, hx, y, hy, hR⟩
  · rintro (hR | ⟨x, hx, y, hy, hR⟩)
    · exact ⟨a, List.mem_cons_self, b, List.mem_cons_self, hR⟩
    · exact ⟨x, List.mem_cons_of_mem _ hx, y, hy, hR⟩

lemma meet_advance_right (h : ∀ x ∈ l, ¬ R x b) :
    Meet R (a :: l) (b :: m) ↔ R a b ∨ Meet R (a :: l) m := by
  rw [meet_swap, meet_advance_left h, meet_swap]

lemma meet_advance_both (hl : ∀ x ∈ l, ¬ R x b) (hm : ∀ x ∈ m, ¬ R a x) :
    Meet R (a :: l) (b :: m) ↔ R a b ∨ Meet R l m := by
  rw [meet_advance_left hm]
  refine or_congr_right ?_
  constructor
  · rintro ⟨x, hx, y, hy, hR⟩
    rcases List.mem_cons.mp hy with rfl | hy
    · exact absurd hR (hl x hx)
    · exact ⟨x, hx, y, hy, hR⟩
  · rintro ⟨x, hx, y, hy, hR⟩
    exact ⟨x, hx, y, List.mem_cons_of_mem _ hy, hR⟩

end MsSanitizer.TwoPointer
