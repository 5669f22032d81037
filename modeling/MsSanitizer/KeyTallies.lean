import Mathlib.Data.List.Nodup
import Mathlib.Logic.Function.Basic
import Mathlib.Tactic

/-!
# Tallies under keys

Amounts are kept in an array of a fixed size, in the order of a list of keys that grows: the place
of a key holds its amount, and the places behind the last key are zero. Writing at the place of a
key, and at the first free place together with a new key, changes the amount of this key only. Keys
without an amount can be added without writing.
-/

namespace MsSanitizer.KeyTallies

variable {κ : Type*}

def pad {α : Type*} (n : ℕ) (d : α) (l : List α) : List α := l ++ List.replicate (n - l.length) d

section Pad

variable {α β : Type*} {n : ℕ} {d : α} {l : List α}

lemma set_pad_of_lt {j : ℕ} (h : j < l.length) (x : α) :
    (pad n d l).set j x = pad n d (l.set j x) := by
  rw [pad, pad, List.set_append_left _ _ h, List.length_set]

lemma set_pad_length (h : l.length < n) (x : α) :
    (pad n d l).set l.length x = pad n d (l ++ [x]) := by
  have hsub : n - l.length = n - (l.length + 1) + 1 := by omega
  rw [pad, pad, List.set_append_right _ _ le_rfl, Nat.sub_self, hsub, List.replicate_succ,
    List.set_cons_zero, List.append_assoc, List.length_append, List.length_singleton]
  rfl

lemma getElem?_pad_of_lt {j : ℕ} (h : j < l.length) : (pad n d l)[j]? = l[j]? :=
  List.getElem?_append_left h

lemma getD_pad_of_le {j : ℕ} (h : l.length ≤ j) : (pad n d l).getD j d = d := by
  rw [pad, List.getD_eq_getElem?_getD, List.getElem?_append_right h, List.getElem?_replicate]
  split_ifs
  · rfl
  · rfl

lemma take_pad : (pad n d l).take l.length = l := by
  rw [pad, List.take_left]

lemma drop_pad {k : ℕ} (h : l.length ≤ k) : (pad n d l).drop k = List.replicate (n - k) d := by
  rw [pad, List.drop_append, List.drop_eq_nil_of_le h, List.nil_append, List.drop_replicate]
  congr 1
  omega

/-- Emptying the first places empties the array, when there are no others. -/
lemma clear_pad {k : ℕ} (h : l.length ≤ k) (hk : k ≤ n) :
    List.replicate k d ++ (pad n d l).drop k = pad n d [] := by
  rw [drop_pad h, pad, List.replicate_append_replicate, List.nil_append, List.length_nil,
    Nat.add_sub_cancel' hk, Nat.sub_zero]

end Pad

variable {n : ℕ} {keys more : List κ} {f : κ → ℕ} {vals : List ℕ} {k : κ} {j : ℕ}

/-- The array `vals` holds the amounts `f` under the keys. -/
structure Tally (n : ℕ) (keys : List κ) (f : κ → ℕ) (vals : List ℕ) : Prop where
  nodup : keys.Nodup
  length_le : keys.length ≤ n
  vals_eq : vals = pad n 0 (keys.map f)
  zero : ∀ k, k ∉ keys → f k = 0

lemma Tally.getD (h : Tally n keys f vals) (hj : keys[j]? = some k) : vals.getD j 0 = f k := by
  obtain ⟨hlt, -⟩ := List.getElem?_eq_some_iff.mp hj
  rw [h.vals_eq, List.getD_eq_getElem?_getD, getElem?_pad_of_lt (by rwa [List.length_map]),
    List.getElem?_map, hj]
  rfl

lemma tally_zero (hkeys : keys.Nodup) (hn : keys.length ≤ n) :
    Tally n keys (fun _ => 0) (pad n 0 []) := by
  refine ⟨hkeys, hn, ?_, fun _ _ => rfl⟩
  rw [List.map_const', pad, pad, List.length_replicate, List.replicate_append_replicate,
    Nat.add_sub_cancel' hn, List.length_nil, Nat.sub_zero, List.nil_append]

lemma Tally.append (h : Tally n keys f vals) (hmore : (keys ++ more).Nodup)
    (hn : (keys ++ more).length ≤ n) : Tally n (keys ++ more) f vals := by
  have hdisjoint := (List.nodup_append'.mp hmore).2.2
  refine ⟨hmore, hn, ?_, fun k hk => h.zero k fun hc => hk (List.mem_append_left _ hc)⟩
  have hzero : more.map f = List.replicate more.length 0 := by
    rw [List.eq_replicate_iff, List.length_map]
    refine ⟨rfl, fun x hx => ?_⟩
    obtain ⟨k, hk, rfl⟩ := List.mem_map.mp hx
    exact h.zero k fun hc => hdisjoint hc hk
  rw [List.length_append] at hn
  rw [h.vals_eq, pad, pad, List.map_append, hzero, List.append_assoc,
    List.replicate_append_replicate, List.length_append, List.length_replicate, List.length_map]
  congr 2
  omega

variable [DecidableEq κ]

lemma Tally.set (h : Tally n keys f vals) (hj : keys[j]? = some k) (v : ℕ) :
    Tally n keys (Function.update f k v) (vals.set j v) := by
  obtain ⟨hlt, hget⟩ := List.getElem?_eq_some_iff.mp hj
  refine ⟨h.nodup, h.length_le, ?_, fun k' hk' => ?_⟩
  · rw [h.vals_eq, set_pad_of_lt (by rwa [List.length_map])]
    congr 1
    refine List.ext_getElem? fun i => ?_
    rw [List.getElem?_set, List.getElem?_map, List.getElem?_map, List.length_map]
    by_cases hij : j = i
    · subst hij
      rw [if_pos rfl, if_pos hlt, hj, Option.map_some, Function.update_self]
    · rw [if_neg hij]
      cases hi : keys[i]? with
      | none => rfl
      | some k' =>
        have hne : k' ≠ k := by
          rintro rfl
          exact hij ((List.getElem?_inj hlt h.nodup).mp (hj.trans hi.symm))
        rw [Option.map_some, Option.map_some, Function.update_of_ne hne]
  · have hne : k' ≠ k := fun hc => hk' (hc ▸ List.mem_of_getElem? hj)
    rw [Function.update_of_ne hne, h.zero k' hk']

/-- Writing at the first free place, together with a new key. -/
lemma Tally.push (h : Tally n keys f vals) (hk : k ∉ keys) (hn : keys.length < n) (v : ℕ) :
    Tally n (keys ++ [k]) (Function.update f k v) (vals.set keys.length v) := by
  have hnodup : (keys ++ [k]).Nodup :=
    List.nodup_append'.mpr ⟨h.nodup, List.nodup_singleton k, by simpa using hk⟩
  have hlen : (keys ++ [k]).length ≤ n := by
    rw [List.length_append, List.length_singleton]
    exact hn
  exact (h.append hnodup hlen).set (by simp) v

end MsSanitizer.KeyTallies
