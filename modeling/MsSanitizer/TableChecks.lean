import MsSanitizer.BoundsCheck
import MsSanitizer.BoundsUpdate

/-!
# Tables without empty ranges

A block without bytes leaves an empty range in the table, which no later call takes out and which
counts as met by any access around it. Where no block is empty the table has no such range, and
meeting a range is meeting one of its bytes.
-/

namespace MsSanitizer.BoundsUpdate

open MsSanitizer.RecordDefs MsSanitizer.Segs MsSanitizer.Words MsSanitizer.Bounds
open MsSanitizer.BoundsCheck

/-- No range is empty, and all end in the address space of a device. -/
def Filled (ranges : List Range) : Prop :=
  ∀ r ∈ ranges, r.addrL < r.addrR ∧ r.addrR ≤ globalMemMask

variable {addr size : ℕ} {ranges : List Range} {accessType : AccessType}

lemma Filled.lt (h : Filled ranges) {r : Range} (hr : r ∈ ranges) : r.addrR < 2 ^ 64 :=
  lt_of_le_of_lt (h r hr).2 (by decide)

lemma Filled.look_addrL (h : Filled ranges) (hl : Laid ranges) {r : Range} (hr : r ∈ ranges) :
    look ranges r.addrL = some r.permission := hl.look_eq hr ⟨le_rfl, (h r hr).1⟩

lemma exists_of_look {x p : ℕ} (h : look ranges x = some p) :
    ∃ r ∈ ranges, r.permission = p ∧ r.addrL ≤ x ∧ x < r.addrR := by
  induction ranges with
  | nil => cases h
  | cons s l ih =>
    rw [look_cons] at h
    split_ifs at h with hx
    · exact ⟨s, List.mem_cons_self, Option.some.inj h, hx⟩
    · obtain ⟨r, hr, hp⟩ := ih h
      exact ⟨r, List.mem_cons_of_mem _ hr, hp⟩

/-! ### Updates -/

lemma absorb_filled {permission : ℕ} {it : Range} {after : List Range}
    (hit : it.addrL < it.addrR ∧ it.addrR ≤ globalMemMask) (h : Filled after) :
    Filled (absorb permission it after) := by
  induction after generalizing it with
  | nil => simpa [absorb, Filled] using hit
  | cons next rest ih =>
    obtain ⟨hnext, hrest⟩ := List.forall_mem_cons.mp h
    unfold absorb
    split_ifs with h1 h2
    · exact List.forall_mem_cons.mpr ⟨hit, h⟩
    · exact List.forall_mem_cons.mpr ⟨hit, List.forall_mem_cons.mpr ⟨⟨h2.1, hnext.2⟩, hrest⟩⟩
    · exact ih ⟨lt_max_of_lt_left hit.1, max_le hit.2 hnext.2⟩ hrest

/-- An admitted `Add` of bytes to a table of one permission. -/
lemma add_filled {permission : ℕ} (hl : Laid ranges) (h : Filled ranges)
    (hperm : ∀ r ∈ ranges, r.permission = permission) (hpos : 0 < size)
    (hend : addr + size ≤ globalMemMask) :
    Filled (add addr size permission ranges).2 := by
  have hM : globalMemMask < 2 ^ 64 := by decide
  have hc : (checkOverflow addr size).isError = false :=
    (checkOverflow_ok (by omega)).mpr (.inl hend)
  obtain ⟨before, after, rfl, hsp, heq⟩ := add_eq permission hl (by omega) (by omega) hc
  obtain ⟨hbefore, hafter⟩ := List.forall_mem_append.mp h
  rw [heq]
  unfold addTo
  rcases List.eq_nil_or_concat' before with rfl | ⟨init, prev, rfl⟩
  · exact absorb_filled ⟨by simpa using hpos, hend⟩ hafter
  · obtain ⟨hinit, hprev⟩ := List.forall_mem_append.mp hbefore
    have hp := hprev prev (by simp)
    simp only [List.getLast?_append, List.getLast?_singleton, Option.some_or, List.dropLast_concat,
      hperm prev (by simp), if_true]
    split_ifs with hle
    · refine List.forall_mem_append.mpr ⟨hinit, absorb_filled ⟨?_, ?_⟩ hafter⟩
      · exact lt_max_of_lt_left hp.1
      · exact max_le hp.2 hend
    · refine List.forall_mem_append.mpr ⟨by simpa using hbefore, absorb_filled ⟨?_, hend⟩ hafter⟩
      simpa using hpos

lemma eraseUpTo_filled {e : ℕ} {l : List Range} (h : Filled l) : Filled (eraseUpTo e l) := by
  induction l with
  | nil => exact h
  | cons next rest ih =>
    obtain ⟨hnext, hrest⟩ := List.forall_mem_cons.mp h
    unfold eraseUpTo
    split_ifs with h1 h2
    · exact h
    · exact List.forall_mem_cons.mpr ⟨⟨h2, hnext.2⟩, hrest⟩
    · exact ih hrest

lemma remove_filled (hl : Laid ranges) (h : Filled ranges) :
    Filled (remove addr size ranges).2 := by
  obtain ⟨before, after, hsp, rfl, hr⟩ := SplitR.of_laid hl addr
  obtain ⟨hbefore, hafter⟩ := List.forall_mem_append.mp h
  unfold remove
  simp only [hsp]
  rcases after with _ | ⟨it, rest⟩
  · split_ifs
    · exact h
    · exact hbefore
  · have hit := hafter it List.mem_cons_self
    have hgt : addr < it.addrR := hr.gt it List.mem_cons_self
    have herase : Filled (eraseUpTo (add64 addr size) (it :: rest)) := eraseUpTo_filled hafter
    by_cases hc : (checkOverflow addr size).isError = true
    · rw [if_pos hc]
      exact h
    rw [if_neg hc]
    dsimp only
    split_ifs with hlt
    · exact List.forall_mem_append.mpr ⟨hbefore, List.forall_mem_cons.mpr
        ⟨⟨hlt, hgt.le.trans hit.2⟩, herase⟩⟩
    · exact List.forall_mem_append.mpr ⟨hbefore, herase⟩

/-! ### Checks -/

lemma mem_takeWhile_lt {e : ℕ} {r : Range} (hl : Laid ranges) :
    r ∈ ranges.takeWhile (fun r => r.addrL < e) ↔ r ∈ ranges ∧ r.addrL < e := by
  induction ranges with
  | nil => simp
  | cons s l ih =>
    have hlo : ∀ t ∈ l, s.addrL ≤ t.addrL := (List.pairwise_cons.mp hl.pairwise_lo).1
    have hl' : Laid l := (laid_cons.mp hl).2.2
    rw [List.takeWhile_cons]
    by_cases hs : s.addrL < e
    · rw [if_pos (decide_eq_true hs), List.mem_cons, ih hl', List.mem_cons]
      constructor
      · rintro (rfl | ⟨hr, hlt⟩)
        · exact ⟨.inl rfl, hs⟩
        · exact ⟨.inr hr, hlt⟩
      · rintro ⟨rfl | hr, hlt⟩
        · exact .inl rfl
        · exact .inr ⟨hr, hlt⟩
    · rw [if_neg (by simpa using hs)]
      refine iff_of_false List.not_mem_nil ?_
      rintro ⟨hr, hlt⟩
      rcases List.mem_cons.mp hr with rfl | hr
      · exact hs hlt
      · exact hs (lt_of_le_of_lt (hlo r hr) hlt)

/-- **An access meets a table when one of its bytes lies in it.** -/
lemma hasOverlap_iff (hl : Laid ranges) (h : Filled ranges) (hpos : 0 < size)
    (hend : addr + size < 2 ^ 64) :
    hasOverlap addr size ranges = true ↔
      ∃ x, addr ≤ x ∧ x < addr + size ∧ (look ranges x).isSome := by
  unfold hasOverlap
  rw [sub64_eq (by omega) (by omega), if_neg (by omega), add64_eq hend, List.any_eq_true]
  simp only [mem_takeWhile_lt hl, decide_eq_true_eq]
  constructor
  · rintro ⟨r, ⟨hr, hlt⟩, hgt⟩
    have hr' := (h r hr).1
    refine ⟨max addr r.addrL, le_max_left _ _, by omega, ?_⟩
    have hlook := hl.look_eq hr (x := max addr r.addrL) ⟨le_max_right _ _, max_lt hgt hr'⟩
    rw [hlook]
    rfl
  · rintro ⟨x, h1, h2, hx⟩
    obtain ⟨p, hp⟩ := Option.isSome_iff_exists.mp hx
    obtain ⟨r, hr, -, h3, h4⟩ := exists_of_look hp
    exact ⟨r, ⟨hr, by omega⟩, by omega⟩

lemma checkAddrOnly_eq (hl : Laid ranges) (addr : ℕ) :
    checkAddrOnly addr ranges = if (look ranges addr).isSome then {} else badAccess addr 1 := by
  obtain ⟨before, after, hsp, rfl, hr⟩ := SplitR.of_laid hl addr
  unfold checkAddrOnly
  rw [hsp, look_append, hr.look_before le_rfl, Option.none_or]
  rcases after with _ | ⟨it, rest⟩
  · rfl
  · have hgt : addr < it.addrR := hr.gt it List.mem_cons_self
    dsimp only
    rw [look_cons]
    simp only [lo_eq, hi_eq, tag_eq]
    by_cases hlt : addr < it.addrL
    · -- the next range begins behind the address
      have hrest : look rest addr = none := look_eq_none_of_lt fun t ht => by
        have hle := hr.head.2.2.2.2 t ht
        simp only [lo_eq]
        omega
      simp [hlt, not_le.mpr hlt, hrest]
    · simp [hlt, not_lt.mp hlt, hgt]

end MsSanitizer.BoundsUpdate
