import MsSanitizer.SortedEntries

/-!
# Ordered maps as sorted entries

The insertion into a sorted list of entries and the removal from it, and what is read afterwards.
-/

namespace MsSanitizer.SortedEntries

variable {κ ν : Type*} [LinearOrder κ] {d : ν} {l : List (κ × ν)} {k k' : κ} {v : ν}

/-- The entry of key `k` becomes `v`. -/
def put (k : κ) (v : ν) : List (κ × ν) → List (κ × ν)
  | [] => [(k, v)]
  | e :: l =>
    if e.1 < k then e :: put k v l else if e.1 = k then (k, v) :: l else (k, v) :: e :: l

/-- The entry of key `k` is removed. -/
def erase (k : κ) (l : List (κ × ν)) : List (κ × ν) := l.filter fun e => e.1 ≠ k

lemma look_put : look d (put k v l) k' = if k' = k then v else look d l k' := by
  induction l with
  | nil => simp only [put, look_cons, look_nil, eq_comm]
  | cons e l ih =>
    rw [put]
    by_cases hlt : e.1 < k
    · rw [if_pos hlt, look_cons, look_cons, ih]
      by_cases hk : k' = k
      · rw [if_pos hk, if_neg (by rw [hk]; exact hlt.ne), if_pos hk]
      · rw [if_neg hk, if_neg hk]
    · rw [if_neg hlt]
      by_cases heq : e.1 = k
      · rw [if_pos heq, look_cons, look_cons, heq]
        by_cases hk : k' = k
        · rw [if_pos hk.symm, if_pos hk]
        · rw [if_neg (Ne.symm hk), if_neg hk, if_neg (Ne.symm hk)]
      · rw [if_neg heq, look_cons]
        by_cases hk : k' = k
        · rw [if_pos hk.symm, if_pos hk]
        · rw [if_neg (Ne.symm hk), if_neg hk]

lemma mem_put {e : κ × ν} (hs : Sorted l) : e ∈ put k v l ↔ e = (k, v) ∨ e ∈ l ∧ e.1 ≠ k := by
  induction l with
  | nil => simp [put]
  | cons x l ih =>
    obtain ⟨hx, hl⟩ := sorted_cons.mp hs
    rw [put]
    split_ifs with hlt heq
    · rw [List.mem_cons, List.mem_cons, ih hl]
      constructor
      · rintro (rfl | rfl | ⟨he, hne⟩)
        · exact .inr ⟨.inl rfl, hlt.ne⟩
        · exact .inl rfl
        · exact .inr ⟨.inr he, hne⟩
      · rintro (rfl | ⟨rfl | he, hne⟩)
        · exact .inr (.inl rfl)
        · exact .inl rfl
        · exact .inr (.inr ⟨he, hne⟩)
    · rw [List.mem_cons, List.mem_cons]
      constructor
      · rintro (rfl | he)
        · exact .inl rfl
        · exact .inr ⟨.inr he, heq ▸ (hx e he).ne'⟩
      · rintro (rfl | ⟨rfl | he, hne⟩)
        · exact .inl rfl
        · exact absurd heq hne
        · exact .inr he
    · rw [List.mem_cons, List.mem_cons]
      constructor
      · rintro (rfl | rfl | he)
        · exact .inl rfl
        · exact .inr ⟨.inl rfl, heq⟩
        · exact .inr ⟨.inr he, fun hc => hlt (hc ▸ hx e he)⟩
      · rintro (rfl | ⟨rfl | he, hne⟩)
        · exact .inl rfl
        · exact .inr (.inl rfl)
        · exact .inr (.inr he)

lemma sorted_put (hs : Sorted l) : Sorted (put k v l) := by
  induction l with
  | nil => exact sorted_cons.mpr ⟨fun _ h => (by cases h), sorted_nil⟩
  | cons e l ih =>
    obtain ⟨he, hl⟩ := sorted_cons.mp hs
    rw [put]
    split_ifs with hlt heq
    · refine sorted_cons.mpr ⟨fun x hx => ?_, ih hl⟩
      rcases (mem_put hl).mp hx with rfl | ⟨hx, -⟩
      · exact hlt
      · exact he x hx
    · exact sorted_cons.mpr ⟨fun x hx => heq ▸ he x hx, hl⟩
    · have hgt : k < e.1 := lt_of_le_of_ne (not_lt.mp hlt) (Ne.symm heq)
      refine sorted_cons.mpr ⟨fun x hx => ?_, hs⟩
      rcases List.mem_cons.mp hx with rfl | hx
      · exact hgt
      · exact hgt.trans (he x hx)

lemma look_erase : look d (erase k l) k' = if k' = k then d else look d l k' := by
  induction l with
  | nil => simp [erase]
  | cons e l ih =>
    rw [erase, List.filter_cons, ← erase]
    by_cases he : e.1 = k
    · rw [if_neg (by simp [he]), ih]
      split_ifs with hk
      · rfl
      · rw [look_cons, if_neg (by rw [he]; exact Ne.symm hk)]
    · rw [if_pos (by simp [he]), look_cons, look_cons, ih]
      split_ifs with h₁ h₂
      · exact absurd (h₁.trans h₂) he
      · rfl
      · rfl
      · rfl

lemma sorted_erase (hs : Sorted l) : Sorted (erase k l) := List.Pairwise.filter _ hs

lemma mem_erase {e : κ × ν} : e ∈ erase k l ↔ e ∈ l ∧ e.1 ≠ k := by
  rw [erase, List.mem_filter, decide_eq_true_eq]

end MsSanitizer.SortedEntries
