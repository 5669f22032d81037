import Mathlib.Tactic

/-!
# Reorder buffers

Items numbered from 1 on arrive in any order, some of them twice, and are released in the order
of their numbers. The buffer holds what has arrived and is not yet due. After any number of
offers and releases its whole content is a function of the offers made and of the number that
is due: that is the invariant `Follows`, and all else is read off it.
-/

namespace MsSanitizer.ReorderBuffer

variable {α : Type*}

/-- What waits, the number that is due, and what has been released so far. -/
structure Buffer (α : Type*) where
  pending : List (ℕ × α) := []
  next : ℕ := 1
  released : List (ℕ × α) := []

/-- An item is turned away under the number 0, a released number and a number that waits. -/
def Buffer.offer (b : Buffer α) (id : ℕ) (a : α) : Option (Buffer α) :=
  if id = 0 ∨ id < b.next ∨ (b.pending.lookup id).isSome then none
  else some { b with pending := b.pending ++ [(id, a)] }

/-- The item that is due leaves the buffer, if it is there. -/
def Buffer.release (b : Buffer α) : Option (Buffer α) :=
  (b.pending.lookup b.next).map fun a =>
    { pending := b.pending.filter fun e => e.1 != b.next
      next := b.next + 1
      released := b.released ++ [(b.next, a)] }

/-- The buffer is the one left by the offers of the history, at whatever pace it released. -/
structure Follows (hist : List (ℕ × α)) (b : Buffer α) : Prop where
  pos : 1 ≤ b.next
  waits : ∀ id, b.pending.lookup id = if b.next ≤ id then hist.lookup id else none
  numbers : b.released.map Prod.fst = List.range' 1 (b.next - 1)
  first : ∀ e ∈ b.released, hist.lookup e.1 = some e.2

lemma lookup_append (l r : List (ℕ × α)) (id : ℕ) :
    (l ++ r).lookup id = (l.lookup id).or (r.lookup id) := by
  induction l with
  | nil => rfl
  | cons e l ih =>
    rcases e with ⟨k, a⟩
    by_cases hk : id = k
    · subst hk; simp
    · have hne : (id == k) = false := by simpa using hk
      simp [List.lookup_cons, hne, ih]

lemma lookup_concat (l : List (ℕ × α)) (k : ℕ) (a : α) (id : ℕ) :
    (l ++ [(k, a)]).lookup id = (l.lookup id).or (if id = k then some a else none) := by
  rw [lookup_append]
  by_cases hk : id = k
  · subst hk; simp
  · have hne : (id == k) = false := by simpa using hk
    simp [List.lookup_cons, hne, hk]

lemma lookup_filter_ne (l : List (ℕ × α)) (k id : ℕ) :
    (l.filter fun e => e.1 != k).lookup id = if id = k then none else l.lookup id := by
  induction l with
  | nil => simp
  | cons e l ih =>
    rcases e with ⟨j, a⟩
    by_cases hj : j = k
    · subst hj
      rw [List.filter_cons_of_neg (by simp), ih]
      by_cases hid : id = j
      · simp [hid]
      · have hne : (id == j) = false := by simpa using hid
        simp [List.lookup_cons, hne, hid]
    · rw [List.filter_cons_of_pos (by simpa using hj)]
      by_cases hid : id = j
      · subst hid
        simp [hj]
      · have hne : (id == j) = false := by simpa using hid
        simp [List.lookup_cons, hne, ih]

lemma follows_empty : Follows ([] : List (ℕ × α)) {} where
  pos := le_rfl
  waits id := by simp
  numbers := rfl
  first e he := by cases he

variable {hist : List (ℕ × α)} {b b' : Buffer α} {id : ℕ} {a : α}

lemma offer_eq_none :
    b.offer id a = none ↔ id = 0 ∨ id < b.next ∨ (b.pending.lookup id).isSome := by
  unfold Buffer.offer
  split_ifs with h
  · exact ⟨fun _ => h, fun _ => rfl⟩
  · exact ⟨fun hn => (by cases hn), fun hc => absurd hc h⟩

lemma offer_eq_some (h : b.offer id a = some b') :
    b.next ≤ id ∧ b.pending.lookup id = none ∧
      b' = { b with pending := b.pending ++ [(id, a)] } := by
  unfold Buffer.offer at h
  split_ifs at h with hc
  push Not at hc
  exact ⟨hc.2.1, Option.not_isSome_iff_eq_none.1 hc.2.2, (Option.some.inj h).symm⟩

/-- **An offer**, accepted or turned away, adds to the history. -/
lemma Follows.offer (hf : Follows hist b) (id : ℕ) (a : α) :
    Follows (hist ++ [(id, a)]) ((b.offer id a).getD b) := by
  have hfirst : ∀ e ∈ b.released, (hist ++ [(id, a)]).lookup e.1 = some e.2 := by
    intro e he
    rw [lookup_concat, hf.first e he]
    rfl
  cases ho : b.offer id a with
  | none =>
    refine ⟨hf.pos, fun j => ?_, hf.numbers, hfirst⟩
    simp only [Option.getD_none]
    rw [hf.waits, lookup_concat]
    split_ifs with hle hj
    · -- the number offered already waits, as it is neither 0 nor released
      subst hj
      rcases offer_eq_none.1 ho with h0 | hlt | hin
      · have := hf.pos; omega
      · omega
      · rw [hf.waits, if_pos hle] at hin
        obtain ⟨c, hc⟩ := Option.isSome_iff_exists.1 hin
        simp [hc]
    · simp
    · rfl
  | some b' =>
    obtain ⟨hle, hnone, rfl⟩ := offer_eq_some ho
    refine ⟨hf.pos, fun j => ?_, hf.numbers, hfirst⟩
    simp only [Option.getD_some]
    rw [lookup_concat, lookup_concat, hf.waits]
    by_cases hj : b.next ≤ j
    · simp [hj]
    · have hne : j ≠ id := by omega
      simp [hj, hne]

lemma release_isSome : (b.release).isSome ↔ (b.pending.lookup b.next).isSome := by
  unfold Buffer.release
  simp

lemma release_eq_some (h : b.release = some b') :
    ∃ a, b.pending.lookup b.next = some a ∧ b'.next = b.next + 1 ∧
      b'.released = b.released ++ [(b.next, a)] ∧
      b'.pending = b.pending.filter fun e => e.1 != b.next := by
  unfold Buffer.release at h
  obtain ⟨a, ha, rfl⟩ := Option.map_eq_some_iff.1 h
  exact ⟨a, ha, rfl, rfl, rfl⟩

/-- **A release** keeps the history and moves the number that is due. -/
lemma Follows.release (hf : Follows hist b) (h : b.release = some b') : Follows hist b' := by
  obtain ⟨a, ha, hnext, hrel, hpend⟩ := release_eq_some h
  have hpos := hf.pos
  have hlook : hist.lookup b.next = some a := by
    rwa [hf.waits, if_pos le_rfl] at ha
  constructor
  · omega
  · intro id
    rw [hpend, lookup_filter_ne, hf.waits, hnext]
    by_cases hid : id = b.next
    · simp [hid]
    · by_cases hle : b.next ≤ id
      · have hle' : b.next + 1 ≤ id := by omega
        simp [hid, hle, hle']
      · have hle' : ¬ b.next + 1 ≤ id := by omega
        simp [hle, hle']
  · obtain ⟨m, hm⟩ : ∃ m, b.next = m + 1 := ⟨b.next - 1, by omega⟩
    rw [hrel, List.map_append, hf.numbers, hnext, hm]
    simp only [Nat.add_sub_cancel, List.map_cons, List.map_nil]
    rw [List.range'_concat]
    congr 2
    omega
  · intro e he
    rw [hrel] at he
    rcases List.mem_append.1 he with he | he
    · exact hf.first e he
    · obtain rfl := List.mem_singleton.1 he
      exact hlook

/-- The numbers released are those below the one that is due. -/
lemma Follows.mem_numbers (hf : Follows hist b) (id : ℕ) :
    id ∈ b.released.map Prod.fst ↔ 1 ≤ id ∧ id < b.next := by
  rw [hf.numbers, List.mem_range'_1]
  have := hf.pos
  omega

/-- An offer is turned away exactly under 0, a released number and a number that waits. -/
lemma Follows.offer_none_iff (hf : Follows hist b) (id : ℕ) (a : α) :
    b.offer id a = none ↔
      id = 0 ∨ id ∈ b.released.map Prod.fst ∨ (b.pending.lookup id).isSome := by
  rw [offer_eq_none, hf.mem_numbers]
  have := hf.pos
  constructor
  · rintro (h | h | h)
    · exact Or.inl h
    · rcases Nat.eq_zero_or_pos id with h0 | h0
      · exact Or.inl h0
      · exact Or.inr (Or.inl ⟨h0, h⟩)
    · exact Or.inr (Or.inr h)
  · rintro (h | h | h)
    · exact Or.inl h
    · exact Or.inr (Or.inl h.2)
    · exact Or.inr (Or.inr h)

/-- While a number up to which all have been offered is not released, something is due. -/
lemma Follows.due (hf : Follows hist b) (id : ℕ)
    (hall : ∀ i, 1 ≤ i → i ≤ id → (hist.lookup i).isSome) (hid : b.next ≤ id) :
    (b.pending.lookup b.next).isSome := by
  rw [hf.waits, if_pos le_rfl]
  exact hall b.next hf.pos hid

end MsSanitizer.ReorderBuffer
