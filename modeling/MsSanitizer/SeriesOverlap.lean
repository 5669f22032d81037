import MsSanitizer.OpExtent
import MsSanitizer.TwoPointer

/-!
# The intervals of a memory operation

All blocks of an operation have one size, and the blocks of a row never go back. So the priority
queue with the next block of each row gives the blocks by ascending ends, and `GetNextItv` joins
those that touch or overlap into the maximal intervals of the bytes of the operation.

The state of a series is described by a list of pairs, a row in the queue with the block it is at.
-/

namespace MsSanitizer.MemSeries

open RecordDefs EventDef Words OpExtent TwoPointer

/-- The extent of an operation fits the integers that the series computes with: the stride of the
rows those of 32 bits, all addresses those of 64 bits. -/
structure FitsSeries (op : MemOpInfo) : Prop where
  blockNum : 0 < op.blockNum
  blockSize : 0 < op.blockSize
  repeatTimes : 0 < op.repeatTimes
  stride : op.repeatTimes = 1 ∨ op.repeatStride * op.blockSize < 2 ^ 32
  last : op.addr + extent op < 2 ^ 64

section

variable (op : MemOpInfo)

/-- The first byte of block `p.2` of row `p.1`. -/
def first (p : ℕ × ℕ) : ℕ :=
  op.addr + (p.1 * op.repeatStride + p.2 * op.blockStride) * op.blockSize

/-- The row `p.1`, at its block `p.2`. -/
def row (p : ℕ × ℕ) : BlkSeries where
  addr := add64 op.addr (p.1 * (op.repeatStride * op.blockSize % 2 ^ 32))
  blockSize := op.blockSize
  lastBlockSize := op.blockSize
  blockStride := op.blockStride
  blockNum := op.blockNum
  curBlockIdx := p.2

def entry (p : ℕ × ℕ) : IndexedInterval := ⟨p.1, ⟨first op p, first op p + op.blockSize⟩⟩

/-- A series whose queue has the rows and blocks of a list. -/
structure Queue (Q : List (ℕ × ℕ)) (s : MemSeries) : Prop where
  entries : s.leftMostIntervals = Q.map (entry op)
  rows : ∀ p ∈ Q, s.repeatSeries[p.1]? = some (row op p)
  nodup : (Q.map Prod.fst).Nodup
  bound : ∀ p ∈ Q, p.1 < op.repeatTimes ∧ p.2 < op.blockNum
  blocks : s.repeatSeries.map BlkSeries.blockNum = List.replicate op.repeatTimes op.blockNum

/-- The first bytes of the blocks that are still to come. -/
def starts (Q : List (ℕ × ℕ)) : Set ℕ :=
  {x | ∃ p ∈ Q, ∃ b, p.2 ≤ b ∧ b < op.blockNum ∧ x = first op (p.1, b)}

def left (Q : List (ℕ × ℕ)) : ℕ := (Q.map fun p => op.blockNum - p.2).sum

/-- The bytes of the blocks with these first bytes. -/
def cover (X : Set ℕ) : Set ℕ := {y | ∃ x ∈ X, x ≤ y ∧ y < x + op.blockSize}

end

variable {op : MemOpInfo} {Q : List (ℕ × ℕ)} {s : MemSeries}

/-! ## Blocks -/

lemma first_mono {i b c : ℕ} (h : b ≤ c) : first op (i, b) ≤ first op (i, c) := by
  unfold first
  gcongr

lemma first_lt (h : FitsSeries op) {p : ℕ × ℕ} (hp : p.1 < op.repeatTimes ∧ p.2 < op.blockNum) :
    first op p + op.blockSize < 2 ^ 64 := by
  have := block_end_le hp.1 hp.2
  have := h.last
  unfold first
  omega

/-- A row is at the interval that the queue has for it. -/
lemma curItv_row (h : FitsSeries op) {p : ℕ × ℕ} (hp : p.1 < op.repeatTimes ∧ p.2 < op.blockNum) :
    (row op p).curItv = (entry op p).interval := by
  have hlt := first_lt h hp
  have hstride : p.1 * (op.repeatStride * op.blockSize % 2 ^ 32) =
      p.1 * (op.repeatStride * op.blockSize) := by
    rcases h.stride with h1 | h1
    · rw [show p.1 = 0 by omega, zero_mul, zero_mul]
    · rw [Nat.mod_eq_of_lt h1]
  have hstart : add64 (row op p).addr (p.2 * op.blockSize * op.blockStride) = first op p := by
    simp only [row, hstride, add64, Nat.mod_add_mod]
    rw [Nat.mod_eq_of_lt]
    · unfold first
      ring
    · have : op.addr + p.1 * (op.repeatStride * op.blockSize) +
          p.2 * op.blockSize * op.blockStride = first op p := by
        unfold first
        ring
      omega
  have hif : (if p.2 + 1 = op.blockNum then op.blockSize else op.blockSize) = op.blockSize :=
    ite_self _
  simp only [BlkSeries.curItv, entry, Interval.mk.injEq]
  refine ⟨hstart, ?_⟩
  change add64 (add64 (row op p).addr (p.2 * op.blockSize * op.blockStride))
    (if p.2 + 1 = op.blockNum then op.blockSize else op.blockSize) = _
  rw [hstart, hif, add64_eq hlt]

/-! ## The top of the queue -/

lemma top_eq_none {queue : List IndexedInterval} : top queue = none ↔ queue = [] := by
  cases queue with
  | nil => simp [top]
  | cons x queue =>
    simp only [top]
    split
    · simp
    · split <;> simp

lemma top_spec {queue : List IndexedInterval} {x : IndexedInterval} (h : top queue = some x) :
    x ∈ queue ∧ ∀ y ∈ queue, x.interval.start ≤ y.interval.start := by
  induction queue generalizing x with
  | nil => simp [top] at h
  | cons a queue ih =>
    rw [top] at h
    cases htop : top queue with
    | none =>
      rw [htop] at h
      obtain rfl : a = x := Option.some.inj h
      rw [top_eq_none.mp htop]
      simp
    | some y =>
      obtain ⟨hmem, hmin⟩ := ih htop
      simp only [htop] at h
      by_cases hg : greater a y = true
      · rw [if_pos hg] at h
        obtain rfl : y = x := Option.some.inj h
        refine ⟨List.mem_cons_of_mem _ hmem, fun z hz => ?_⟩
        rcases List.mem_cons.mp hz with rfl | hz
        · simp only [greater, Bool.or_eq_true, decide_eq_true_eq, Bool.and_eq_true,
            beq_iff_eq] at hg
          omega
        · exact hmin z hz
      · rw [if_neg hg] at h
        obtain rfl : a = x := Option.some.inj h
        refine ⟨List.mem_cons_self, fun z hz => ?_⟩
        rcases List.mem_cons.mp hz with rfl | hz
        · exact le_rfl
        · refine le_trans ?_ (hmin z hz)
          simp only [greater, Bool.or_eq_true, decide_eq_true_eq, not_or, not_lt] at hg
          exact hg.1

lemma map_erase_entry {p : ℕ × ℕ} (hp : p ∈ Q) (hnd : (Q.map Prod.fst).Nodup) :
    (Q.map (entry op)).erase (entry op p) = (Q.erase p).map (entry op) := by
  induction Q with
  | nil => rfl
  | cons q Q ih =>
    rw [List.map_cons, List.nodup_cons] at hnd
    by_cases hq : q = p
    · subst hq
      simp
    · have hp' : p ∈ Q := (List.mem_cons.mp hp).resolve_left fun h => hq h.symm
      have hne : entry op q ≠ entry op p := by
        intro heq
        have hidx : q.1 = p.1 := congrArg IndexedInterval.idx heq
        exact hnd.1 (hidx ▸ List.mem_map_of_mem hp')
      rw [List.map_cons, List.erase_cons_tail (by simpa using hne),
        List.erase_cons_tail (by simpa using hq), List.map_cons, ih hp' hnd.2]

/-! ## One pop -/

/-- The body of the loop of `GetNextItv`: the top is taken and its row moves on. -/
def pop (s : MemSeries) (cur : IndexedInterval) : MemSeries :=
  match (s.repeatSeries[cur.idx]?).bind BlkSeries.move2NextItv with
  | some b =>
    { repeatSeries := s.repeatSeries.set cur.idx b
      leftMostIntervals := s.leftMostIntervals.erase cur ++ [⟨cur.idx, b.curItv⟩] }
  | none => { s with leftMostIntervals := s.leftMostIntervals.erase cur }

lemma extend_none {k e : ℕ} (h : top s.leftMostIntervals = none) : extend k s e = (s, e) := by
  cases k with
  | zero => rfl
  | succ k => rw [extend, h]

lemma extend_stop {k e : ℕ} {cur : IndexedInterval} (h : top s.leftMostIntervals = some cur)
    (hlt : e < cur.interval.start) : extend k s e = (s, e) := by
  cases k with
  | zero => rfl
  | succ k =>
    rw [extend]
    simp only [h, if_neg (not_le.mpr hlt)]

lemma extend_pop {k e : ℕ} {cur : IndexedInterval} (h : top s.leftMostIntervals = some cur)
    (hle : cur.interval.start ≤ e) :
    extend (k + 1) s e = extend k (pop s cur) cur.interval.stop := by
  rw [extend]
  simp only [h, if_pos hle, pop]
  cases (s.repeatSeries[cur.idx]?).bind BlkSeries.move2NextItv with
  | none => rfl
  | some b => rfl

def popped (op : MemOpInfo) (Q : List (ℕ × ℕ)) (p : ℕ × ℕ) : List (ℕ × ℕ) :=
  if p.2 + 1 < op.blockNum then Q.erase p ++ [(p.1, p.2 + 1)] else Q.erase p

lemma fst_ne_of_mem_erase {p q : ℕ × ℕ} (hp : p ∈ Q) (hnd : (Q.map Prod.fst).Nodup)
    (hq : q ∈ Q.erase p) : q.1 ≠ p.1 := by
  have hperm : (Q.map Prod.fst).Perm (p.1 :: (Q.erase p).map Prod.fst) :=
    (List.perm_cons_erase hp).map Prod.fst
  have hnd' := (List.nodup_cons.mp (hperm.nodup_iff.mp hnd)).1
  exact fun heq => hnd' (heq ▸ List.mem_map_of_mem hq)

lemma Queue.erase (hq : Queue op Q s) {p : ℕ × ℕ} (hp : p ∈ Q) :
    Queue op (Q.erase p)
      { s with leftMostIntervals := s.leftMostIntervals.erase (entry op p) } where
  entries := by
    rw [hq.entries]
    exact map_erase_entry hp hq.nodup
  rows := fun q hqm => hq.rows q (List.mem_of_mem_erase hqm)
  nodup := hq.nodup.sublist (List.erase_sublist.map Prod.fst)
  bound := fun q hqm => hq.bound q (List.mem_of_mem_erase hqm)
  blocks := hq.blocks

lemma move2NextItv_row (p : ℕ × ℕ) : (row op p).move2NextItv =
    if op.blockNum ≤ p.2 + 1 then none else some (row op (p.1, p.2 + 1)) := rfl

lemma pop_last (hq : Queue op Q s) {p : ℕ × ℕ} (hp : p ∈ Q) (hge : op.blockNum ≤ p.2 + 1) :
    pop s (entry op p) =
      { s with leftMostIntervals := s.leftMostIntervals.erase (entry op p) } := by
  have hrow : s.repeatSeries[(entry op p).idx]? = some (row op p) := hq.rows p hp
  simp only [pop, hrow, Option.bind_some, move2NextItv_row, if_pos hge]

lemma pop_next (h : FitsSeries op) (hq : Queue op Q s) {p : ℕ × ℕ} (hp : p ∈ Q)
    (hlt : p.2 + 1 < op.blockNum) :
    pop s (entry op p) =
      { repeatSeries := s.repeatSeries.set p.1 (row op (p.1, p.2 + 1))
        leftMostIntervals :=
          s.leftMostIntervals.erase (entry op p) ++ [entry op (p.1, p.2 + 1)] } := by
  have hrow : s.repeatSeries[(entry op p).idx]? = some (row op p) := hq.rows p hp
  have hitv : (row op (p.1, p.2 + 1)).curItv = (entry op (p.1, p.2 + 1)).interval :=
    curItv_row h ⟨(hq.bound p hp).1, hlt⟩
  simp only [pop, hrow, Option.bind_some, move2NextItv_row, if_neg (not_le.mpr hlt), hitv]
  rfl

lemma Queue.advance (hq : Queue op Q s) {p : ℕ × ℕ} (hp : p ∈ Q) (hlt : p.2 + 1 < op.blockNum) :
    Queue op (Q.erase p ++ [(p.1, p.2 + 1)])
      { repeatSeries := s.repeatSeries.set p.1 (row op (p.1, p.2 + 1))
        leftMostIntervals :=
          s.leftMostIntervals.erase (entry op p) ++ [entry op (p.1, p.2 + 1)] } := by
  have herase := hq.erase hp
  have hlen : p.1 < s.repeatSeries.length :=
    (List.getElem?_eq_some_iff.mp (hq.rows p hp)).1
  refine ⟨?_, fun q hqm => ?_, ?_, fun q hqm => ?_, ?_⟩
  · rw [List.map_append, ← herase.entries]
    rfl
  · rcases List.mem_append.mp hqm with hqm | hqm
    · have hne := fst_ne_of_mem_erase hp hq.nodup hqm
      rw [List.getElem?_set_ne hne.symm]
      exact herase.rows q hqm
    · rw [List.mem_singleton.mp hqm]
      exact List.getElem?_set_self hlen
  · rw [List.map_append, List.map_singleton]
    refine List.nodup_append.mpr ⟨herase.nodup, List.nodup_singleton _, ?_⟩
    intro a ha b hb heq
    obtain ⟨q, hqm, rfl⟩ := List.mem_map.mp ha
    rw [List.mem_singleton.mp hb] at heq
    exact fst_ne_of_mem_erase hp hq.nodup hqm heq
  · rcases List.mem_append.mp hqm with hqm | hqm
    · exact herase.bound q hqm
    · rw [List.mem_singleton.mp hqm]
      exact ⟨(hq.bound p hp).1, hlt⟩
  · have hnum : (s.repeatSeries.map BlkSeries.blockNum)[p.1]? =
        some (row op (p.1, p.2 + 1)).blockNum := by
      rw [List.getElem?_map, hq.rows p hp]
      rfl
    obtain ⟨hi, heq⟩ := List.getElem?_eq_some_iff.mp hnum
    rw [List.map_set, ← heq, List.set_getElem_self hi, hq.blocks]

lemma Queue.pop (h : FitsSeries op) (hq : Queue op Q s) {p : ℕ × ℕ} (hp : p ∈ Q) :
    Queue op (popped op Q p) (pop s (entry op p)) := by
  unfold popped
  split_ifs with hlt
  · rw [pop_next h hq hp hlt]
    exact hq.advance hp hlt
  · rw [pop_last hq hp (not_lt.mp hlt)]
    exact hq.erase hp

/-! ## The blocks that are left -/

lemma starts_cons (p : ℕ × ℕ) (Q : List (ℕ × ℕ)) : starts op (p :: Q) =
    {x | ∃ b, p.2 ≤ b ∧ b < op.blockNum ∧ x = first op (p.1, b)} ∪ starts op Q := by
  ext x
  simp [starts]

lemma starts_perm {Q' : List (ℕ × ℕ)} (hp : Q.Perm Q') : starts op Q = starts op Q' := by
  ext x
  simp only [starts, hp.mem_iff]

lemma starts_popped {p : ℕ × ℕ} (hp : p ∈ Q) (hb : p.2 < op.blockNum) :
    starts op Q = insert (first op p) (starts op (popped op Q p)) := by
  rw [starts_perm (List.perm_cons_erase hp), starts_cons]
  unfold popped
  split_ifs with hlt
  · rw [starts_perm List.perm_append_comm, List.singleton_append, starts_cons]
    ext x
    simp only [Set.mem_union, Set.mem_insert_iff, Set.mem_ofPred_eq]
    constructor
    · rintro (⟨b, hle, hbn, rfl⟩ | hx)
      · rcases Nat.eq_or_lt_of_le hle with rfl | hlt'
        · exact Or.inl rfl
        · exact Or.inr (Or.inl ⟨b, hlt', hbn, rfl⟩)
      · exact Or.inr (Or.inr hx)
    · rintro (rfl | ⟨b, hle, hbn, rfl⟩ | hx)
      · exact Or.inl ⟨p.2, le_rfl, hb, rfl⟩
      · exact Or.inl ⟨b, by omega, hbn, rfl⟩
      · exact Or.inr hx
  · ext x
    simp only [Set.mem_union, Set.mem_insert_iff, Set.mem_ofPred_eq]
    refine or_congr_left ⟨?_, ?_⟩
    · rintro ⟨b, hle, hbn, rfl⟩
      rw [show b = p.2 by omega]
    · rintro rfl
      exact ⟨p.2, le_rfl, hb, rfl⟩

lemma left_popped {p : ℕ × ℕ} (hp : p ∈ Q) (hb : p.2 < op.blockNum) :
    left op (popped op Q p) + 1 = left op Q := by
  have hperm := ((List.perm_cons_erase hp).map fun p : ℕ × ℕ => op.blockNum - p.2).sum_eq
  rw [List.map_cons, List.sum_cons] at hperm
  unfold left popped
  rw [hperm]
  split_ifs with hlt
  · rw [List.map_append, List.sum_append, List.map_singleton, List.sum_singleton]
    omega
  · omega

/-- Every block that is left starts no earlier than the one its row is at. -/
lemma le_of_mem_starts {m : ℕ} (hm : ∀ p ∈ Q, m ≤ first op p) {x : ℕ} (hx : x ∈ starts op Q) :
    m ≤ x := by
  obtain ⟨p, hp, b, hle, -, rfl⟩ := hx
  exact (hm p hp).trans (first_mono hle)

lemma Queue.top (hq : Queue op Q s) {cur : IndexedInterval}
    (htop : top s.leftMostIntervals = some cur) :
    ∃ p ∈ Q, cur = entry op p ∧ first op p ∈ starts op Q ∧ ∀ x ∈ starts op Q, first op p ≤ x := by
  obtain ⟨hmem, hmin⟩ := top_spec htop
  rw [hq.entries] at hmem hmin
  obtain ⟨p, hp, rfl⟩ := List.mem_map.mp hmem
  refine ⟨p, hp, rfl, ⟨p, hp, p.2, le_rfl, (hq.bound p hp).2, rfl⟩, fun x hx => ?_⟩
  exact le_of_mem_starts (fun q hqm => hmin _ (List.mem_map_of_mem hqm)) hx

lemma Queue.top_none_iff (hq : Queue op Q s) :
    MemSeries.top s.leftMostIntervals = none ↔ Q = [] := by
  rw [top_eq_none, hq.entries, List.map_eq_nil_iff]

/-! ## The loop -/

lemma left_pos (hq : Queue op Q s) (hne : Q ≠ []) : 0 < left op Q := by
  obtain ⟨p, hp⟩ := List.exists_mem_of_ne_nil Q hne
  have hlt := (hq.bound p hp).2
  rw [← left_popped hp hlt]
  exact Nat.succ_pos _

/-- A block that starts in the interval or at its end, and ends no earlier, extends it. -/
lemma cover_insert {m e x : ℕ} {X : Set ℕ} (hm : m ≤ x) (hxe : x ≤ e)
    (hex : e ≤ x + op.blockSize) :
    Set.Ico m e ∪ cover op (insert x X) = Set.Ico m (x + op.blockSize) ∪ cover op X := by
  ext y
  simp only [cover, Set.mem_union, Set.mem_Ico, Set.mem_ofPred_eq, Set.exists_mem_insert]
  constructor
  · rintro (h | h | h)
    · exact Or.inl (by omega)
    · exact Or.inl (by omega)
    · exact Or.inr h
  · rintro (h | h)
    · rcases lt_or_ge y e with hy | hy
      · exact Or.inl ⟨h.1, hy⟩
      · exact Or.inr (Or.inl (by omega))
    · exact Or.inr (Or.inr h)

/-- What the loop of `GetNextItv` leaves: the interval and the blocks in the queue have the bytes
they had, and no block in the queue touches the interval. -/
structure Extended (op : MemOpInfo) (m e : ℕ) (Q : List (ℕ × ℕ)) (r : MemSeries × ℕ)
    (Q' : List (ℕ × ℕ)) : Prop where
  queue : Queue op Q' r.1
  grows : e ≤ r.2
  left : left op Q' ≤ left op Q
  cover : Set.Ico m e ∪ cover op (starts op Q) = Set.Ico m r.2 ∪ cover op (starts op Q')
  sub : starts op Q' ⊆ starts op Q
  apart : ∀ x ∈ starts op Q', r.2 < x

/-- With fuel for all blocks that are left the loop comes to its own end. -/
lemma extend_spec (h : FitsSeries op) {k m e : ℕ} (hq : Queue op Q s) (hk : left op Q ≤ k)
    (hm : ∀ x ∈ starts op Q, m ≤ x) (he : ∀ x ∈ starts op Q, e ≤ x + op.blockSize) :
    ∃ Q', Extended op m e Q (extend k s e) Q' := by
  induction k generalizing Q s e with
  | zero =>
    have hnil : Q = [] := by
      by_contra hne
      have := left_pos hq hne
      omega
    subst hnil
    exact ⟨[], hq, le_rfl, le_rfl, rfl, le_rfl, by simp [starts]⟩
  | succ k ih =>
    cases htop : MemSeries.top s.leftMostIntervals with
    | none =>
      obtain rfl := hq.top_none_iff.mp htop
      rw [extend_none htop]
      exact ⟨[], hq, le_rfl, le_rfl, rfl, le_rfl, by simp [starts]⟩
    | some cur =>
      obtain ⟨p, hp, rfl, hmem, hmin⟩ := hq.top htop
      rcases lt_or_ge e (first op p) with hlt | hge
      · -- the next block begins behind the interval
        rw [extend_stop htop hlt]
        exact ⟨Q, hq, le_rfl, le_rfl, rfl, le_rfl, fun x hx => hlt.trans_le (hmin x hx)⟩
      · have hb := (hq.bound p hp).2
        have hstarts := starts_popped hp hb
        have hsub : starts op (popped op Q p) ⊆ starts op Q := by
          rw [hstarts]
          exact Set.subset_insert _ _
        have hleft := left_popped hp hb
        have hstop := he _ hmem
        -- ends ascend with starts, because all blocks have one size
        obtain ⟨Q', hext⟩ := @ih (popped op Q p) (MemSeries.pop s (entry op p))
          (first op p + op.blockSize) (hq.pop h hp) (by omega) (fun x hx => hm x (hsub hx))
          fun x hx => Nat.add_le_add_right (hmin x (hsub hx)) _
        rw [extend_pop htop hge]
        refine ⟨Q', hext.queue, hstop.trans hext.grows, by have := hext.left; omega, ?_,
          hext.sub.trans hsub, hext.apart⟩
        rw [hstarts, cover_insert (hm _ hmem) hge hstop]
        exact hext.cover

lemma left_le_fuel (hq : Queue op Q s) : left op Q ≤ s.fuel := by
  have hlen : Q.length ≤ op.repeatTimes := by
    have hsub : Q.map Prod.fst ⊆ List.range op.repeatTimes := by
      intro i hi
      obtain ⟨p, hp, rfl⟩ := List.mem_map.mp hi
      exact List.mem_range.mpr (hq.bound p hp).1
    simpa using (List.subperm_of_subset hq.nodup hsub).length_le
  calc left op Q ≤ (Q.map fun p => op.blockNum - p.2).length • op.blockNum :=
        List.sum_le_card_nsmul _ _ fun x hx => by
          obtain ⟨p, -, rfl⟩ := List.mem_map.mp hx
          exact Nat.sub_le _ _
    _ ≤ op.repeatTimes * op.blockNum := by
        rw [List.length_map, smul_eq_mul]
        exact Nat.mul_le_mul_right _ hlen
    _ ≤ s.fuel := by
        rw [fuel, hq.blocks, List.sum_replicate, smul_eq_mul]
        exact Nat.le_add_right _ _

/-- What `GetNextItv` returns. -/
structure Next (op : MemOpInfo) (Q : List (ℕ × ℕ)) (i : Interval) (s' : MemSeries)
    (Q' : List (ℕ × ℕ)) : Prop where
  queue : Queue op Q' s'
  left : left op Q' < left op Q
  pos : i.start < i.stop
  start : i.start ∈ starts op Q
  cover : cover op (starts op Q) = Set.Ico i.start i.stop ∪ cover op (starts op Q')
  sub : starts op Q' ⊆ starts op Q
  apart : ∀ x ∈ starts op Q', i.stop < x

lemma getNextItv_spec (h : FitsSeries op) (hq : Queue op Q s) :
    Q = [] ∧ s.getNextItv = none ∨
      ∃ i s' Q', s.getNextItv = some (i, s') ∧ Next op Q i s' Q' := by
  cases htop : MemSeries.top s.leftMostIntervals with
  | none => exact Or.inl ⟨hq.top_none_iff.mp htop, by simp only [getNextItv, htop]⟩
  | some cur =>
    obtain ⟨p, hp, rfl, hmem, hmin⟩ := hq.top htop
    have hb := (hq.bound p hp).2
    have hstarts := starts_popped hp hb
    have hsub : starts op (popped op Q p) ⊆ starts op Q := by
      rw [hstarts]
      exact Set.subset_insert _ _
    have hleft := left_popped hp hb
    obtain ⟨k, hk⟩ : ∃ k, s.fuel = k + 1 :=
      Nat.exists_eq_succ_of_ne_zero (by have := left_le_fuel hq; omega)
    -- the first block is always taken
    have hfirst : extend s.fuel s (first op p) =
        extend k (MemSeries.pop s (entry op p)) (first op p + op.blockSize) := by
      rw [hk]
      exact extend_pop htop le_rfl
    obtain ⟨Q', hext⟩ := @extend_spec op _ _ h k (first op p) (first op p + op.blockSize)
      (hq.pop h hp) (by have := left_le_fuel hq; omega) (fun x hx => hmin x (hsub hx))
      fun x hx => Nat.add_le_add_right (hmin x (hsub hx)) _
    refine Or.inr ⟨_, _, Q', by simp only [getNextItv, htop]; rfl, ?_⟩
    change Next op Q ⟨first op p, (extend s.fuel s (first op p)).2⟩
      (extend s.fuel s (first op p)).1 Q'
    rw [hfirst]
    have hgrows := hext.grows
    have hz := h.blockSize
    refine ⟨hext.queue, by have := hext.left; omega, by dsimp only; omega, hmem, ?_,
      hext.sub.trans hsub, hext.apart⟩
    have hins := @cover_insert op (first op p) (first op p) (first op p)
      (starts op (popped op Q p)) le_rfl le_rfl (Nat.le_add_right _ _)
    rw [Set.Ico_self, Set.empty_union, ← hstarts] at hins
    rw [hins]
    exact hext.cover

/-! ## The intervals of an operation -/

/-- The intervals that calls of `GetNextItv` return until one returns `false`. -/
inductive Enumerates : MemSeries → List Interval → Prop
  | done {s : MemSeries} (h : s.getNextItv = none) : Enumerates s []
  | next {s s' : MemSeries} {i : Interval} {l : List Interval} (h : s.getNextItv = some (i, s'))
      (hl : Enumerates s' l) : Enumerates s (i :: l)

/-- Intervals that are not empty, in ascending order, with a gap before each next one. -/
structure Separate (l : List Interval) : Prop where
  pos : ∀ i ∈ l, i.start < i.stop
  gaps : l.Pairwise fun i j => i.stop < j.start

def itvBytes (l : List Interval) : Set ℕ := {x | ∃ i ∈ l, i.start ≤ x ∧ x < i.stop}

lemma itvBytes_cons (i : Interval) (l : List Interval) :
    itvBytes (i :: l) = Set.Ico i.start i.stop ∪ itvBytes l := by
  ext x
  simp [itvBytes]

lemma separate_cons {i : Interval} {l : List Interval} :
    Separate (i :: l) ↔ i.start < i.stop ∧ (∀ j ∈ l, i.stop < j.start) ∧ Separate l := by
  constructor
  · rintro ⟨hpos, hgaps⟩
    rw [List.pairwise_cons] at hgaps
    exact ⟨hpos i (by simp), hgaps.1, fun j hj => hpos j (by simp [hj]), hgaps.2⟩
  · rintro ⟨hi, hl, hpos, hgaps⟩
    refine ⟨fun j hj => ?_, List.pairwise_cons.mpr ⟨hl, hgaps⟩⟩
    rcases List.mem_cons.mp hj with rfl | hj
    · exact hi
    · exact hpos j hj

/-- A series gives the bytes of its blocks as separate intervals, and comes to an end. -/
lemma exists_enumerates (h : FitsSeries op) (hq : Queue op Q s) :
    ∃ l, Enumerates s l ∧ l.length ≤ left op Q ∧ Separate l ∧ (∀ i ∈ l, i.start ∈ starts op Q) ∧
      itvBytes l = cover op (starts op Q) := by
  induction hn : left op Q using Nat.strong_induction_on generalizing Q s with
  | _ n ih =>
  rcases getNextItv_spec h hq with ⟨rfl, hnone⟩ | ⟨i, s', Q', hsome, hnext⟩
  · refine ⟨[], .done hnone, by simp, ⟨by simp, List.Pairwise.nil⟩, by simp, ?_⟩
    simp [itvBytes, cover, starts]
  · obtain ⟨l, hl, hlen, hsep, hmem, hbytes⟩ := ih _ (hn ▸ hnext.left) hnext.queue rfl
    have hlt := hnext.left
    refine ⟨i :: l, .next hsome hl, by simp only [List.length_cons]; omega, ?_, ?_, ?_⟩
    · exact separate_cons.mpr ⟨hnext.pos, fun j hj => hnext.apart _ (hmem j hj), hsep⟩
    · intro j hj
      rcases List.mem_cons.mp hj with rfl | hj
      · exact hnext.start
      · exact hnext.sub (hmem j hj)
    · rw [itvBytes_cons, hbytes, hnext.cover]

def rows (op : MemOpInfo) : List (ℕ × ℕ) := (List.range op.repeatTimes).map fun r => (r, 0)

lemma repeatSeriesOf_eq (h : FitsSeries op) : repeatSeriesOf op = (rows op).map (row op) := by
  rw [repeatSeriesOf, max_eq_left h.repeatTimes, rows, List.map_map]
  rfl

lemma getElem?_rows {r : ℕ} (hr : r < op.repeatTimes) : (rows op)[r]? = some (r, 0) := by
  simp [rows, hr]

lemma queue_new (h : FitsSeries op) : Queue op (rows op) (new op) where
  entries := by
    have hlen : (rows op).length = op.repeatTimes := by simp [rows]
    simp only [new, repeatSeriesOf_eq h]
    rw [List.take_of_length_le (by simp [hlen])]
    refine List.ext_getElem? fun r => ?_
    rw [List.getElem?_mapIdx, List.getElem?_map, List.getElem?_map]
    rcases Nat.lt_or_ge r op.repeatTimes with hr | hr
    · rw [getElem?_rows hr, Option.map_some, Option.map_some, Option.map_some,
        curItv_row h ⟨hr, h.blockNum⟩]
      rfl
    · rw [List.getElem?_eq_none (by omega)]
      rfl
  rows := by
    intro p hp
    obtain ⟨r, hr, rfl⟩ := List.mem_map.mp hp
    simp only [new, repeatSeriesOf_eq h]
    rw [List.getElem?_map, getElem?_rows (List.mem_range.mp hr)]
    rfl
  nodup := by
    rw [MemSeries.rows, List.map_map]
    exact (List.map_id _).symm ▸ List.nodup_range
  bound := by
    intro p hp
    obtain ⟨r, hr, rfl⟩ := List.mem_map.mp hp
    exact ⟨List.mem_range.mp hr, h.blockNum⟩
  blocks := by
    simp only [new, repeatSeriesOf_eq h, MemSeries.rows, List.map_map]
    refine List.eq_replicate_iff.mpr ⟨by simp, fun b hb => ?_⟩
    obtain ⟨r, -, rfl⟩ := List.mem_map.mp hb
    rfl

lemma cover_new (op : MemOpInfo) : cover op (starts op (rows op)) = bytes op := by
  ext y
  constructor
  · rintro ⟨x, ⟨p, hp, b, -, hb, rfl⟩, hlo, hhi⟩
    obtain ⟨r, hr, rfl⟩ := List.mem_map.mp hp
    exact ⟨r, List.mem_range.mp hr, b, hb, hlo, hhi⟩
  · rintro ⟨r, hr, b, hb, hlo, hhi⟩
    exact ⟨_, ⟨(r, 0), List.mem_map_of_mem (List.mem_range.mpr hr), b, Nat.zero_le _, hb, rfl⟩,
      hlo, hhi⟩

/-- The calls of `GetNextItv` on an operation. -/
lemma exists_enumerates_new (h : FitsSeries op) :
    ∃ l, Enumerates (new op) l ∧ l.length ≤ (new op).fuel ∧ Separate l ∧
      itvBytes l = bytes op := by
  obtain ⟨l, hl, hlen, hsep, -, hbytes⟩ := exists_enumerates h (queue_new h)
  exact ⟨l, hl, hlen.trans (left_le_fuel (queue_new h)), hsep, hbytes.trans (cover_new op)⟩

/-! ## The walk over two series -/

/-- The test of `IsMemoryOverlap`. -/
def Touch (i j : Interval) : Prop := i.start < j.stop ∧ j.start < i.stop

lemma overlapLoop_iff {k : ℕ} {i1 i2 : Interval} {s1 s2 : MemSeries} {l1 l2 : List Interval}
    (h1 : Enumerates s1 l1) (h2 : Enumerates s2 l2) (hsep1 : Separate (i1 :: l1))
    (hsep2 : Separate (i2 :: l2)) (hk : l1.length + l2.length < k) :
    overlapLoop k i1 s1 i2 s2 = true ↔ Meet Touch (i1 :: l1) (i2 :: l2) := by
  induction k generalizing i1 i2 s1 s2 l1 l2 with
  | zero => omega
  | succ k ih =>
    obtain ⟨-, hgap1, hsep1'⟩ := separate_cons.mp hsep1
    obtain ⟨-, hgap2, hsep2'⟩ := separate_cons.mp hsep2
    rw [overlapLoop]
    by_cases htouch : i1.start < i2.stop ∧ i2.start < i1.stop
    · rw [if_pos htouch]
      exact iff_of_true rfl ⟨i1, by simp, i2, by simp, htouch⟩
    have hno : ¬ Touch i1 i2 := htouch
    rw [if_neg htouch]
    split_ifs with hlt
    · have hdone : ∀ j ∈ l2, ¬ Touch i1 j := by
        intro j hj ht
        have := hgap2 j hj
        have := ht.2
        omega
      rw [meet_advance_left hdone, or_iff_right hno]
      cases h1 with
      | done hnone => simp [hnone]
      | next hsome hl =>
        simp only [hsome]
        exact ih hl h2 hsep1' hsep2 (by simp only [List.length_cons] at hk; omega)
    · have hdone : ∀ j ∈ l1, ¬ Touch j i2 := by
        intro j hj ht
        have := hgap1 j hj
        have := ht.1
        omega
      rw [meet_advance_right hdone, or_iff_right hno]
      cases h2 with
      | done hnone => simp [hnone]
      | next hsome hl =>
        simp only [hsome]
        exact ih h1 hl hsep1 hsep2' (by simp only [List.length_cons] at hk; omega)

lemma meet_touch_iff {l1 l2 : List Interval} (h1 : Separate l1) (h2 : Separate l2) :
    Meet Touch l1 l2 ↔ (itvBytes l1 ∩ itvBytes l2).Nonempty := by
  constructor
  · rintro ⟨i, hi, j, hj, hij⟩
    have hpi := h1.pos i hi
    have hpj := h2.pos j hj
    refine ⟨max i.start j.start, ⟨i, hi, le_max_left _ _, max_lt hpi hij.2⟩,
      ⟨j, hj, le_max_right _ _, max_lt hij.1 hpj⟩⟩
  · rintro ⟨x, ⟨i, hi, hx1, hx2⟩, ⟨j, hj, hx3, hx4⟩⟩
    exact ⟨i, hi, j, hj, hx1.trans_lt hx4, hx3.trans_lt hx2⟩

lemma overlap_iff_bytes {op1 op2 : MemOpInfo} (h1 : FitsSeries op1) (h2 : FitsSeries op2)
    (hty : op1.memType = op2.memType) :
    isMemoryOverlap op1 op2 = true ↔ (bytes op1 ∩ bytes op2).Nonempty := by
  obtain ⟨l1, hl1, hlen1, hsep1, hbytes1⟩ := exists_enumerates_new h1
  obtain ⟨l2, hl2, hlen2, hsep2, hbytes2⟩ := exists_enumerates_new h2
  rw [← hbytes1, ← hbytes2, ← meet_touch_iff hsep1 hsep2, isMemoryOverlap, if_neg (by simp [hty])]
  cases hl1 with
  | done hnone => simp [hnone]
  | next hsome1 hl1 =>
    cases hl2 with
    | done hnone => simp [hsome1, hnone]
    | next hsome2 hl2 =>
      simp only [hsome1, hsome2]
      simp only [List.length_cons] at hlen1 hlen2
      exact overlapLoop_iff hl1 hl2 hsep1 hsep2 (by omega)

/-- **Overlap of two memory operations.** Two operations of one memory type overlap iff they share
a byte; the calls of `GetNextItv` on an operation return its bytes as separate intervals in
ascending order and come to an end. -/
theorem isMemoryOverlap_iff {op1 op2 : MemOpInfo} (h1 : FitsSeries op1) (h2 : FitsSeries op2)
    (hty : op1.memType = op2.memType) :
    (isMemoryOverlap op1 op2 = true ↔ (bytes op1 ∩ bytes op2).Nonempty) ∧
      ∃ l, Enumerates (new op1) l ∧ Separate l ∧ itvBytes l = bytes op1 := by
  refine ⟨overlap_iff_bytes h1 h2 hty, ?_⟩
  obtain ⟨l, hl, -, hsep, hbytes⟩ := exists_enumerates_new h1
  exact ⟨l, hl, hsep, hbytes⟩

/-- Rows of three blocks with a gap, each row shifted by half the gap. -/
def interleaved : MemOpInfo where
  addr := 0x100
  blockNum := 3
  blockSize := 32
  blockStride := 4
  repeatTimes := 2
  repeatStride := 1

def inGap : MemOpInfo where
  addr := 0x140
  blockNum := 1
  blockSize := 64
  blockStride := 1
  repeatTimes := 1
  repeatStride := 1

theorem isMemoryOverlap_iff_gap :
    ¬ (bytes interleaved ∩ bytes inGap).Nonempty ∧ isMemoryOverlap interleaved inGap = false := by
  have h1 : FitsSeries interleaved :=
    ⟨by decide, by decide, by decide, Or.inr (by decide), by decide⟩
  have h2 : FitsSeries inGap := ⟨by decide, by decide, by decide, Or.inl rfl, by decide⟩
  have hno : isMemoryOverlap interleaved inGap = false := by decide +kernel
  refine ⟨fun hne => ?_, hno⟩
  rw [(isMemoryOverlap_iff h1 h2 rfl).1.mpr hne] at hno
  cases hno

end MsSanitizer.MemSeries
