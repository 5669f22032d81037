import Mathlib
import MsSanitizer.MemEventChecker
import MsSanitizer.TwoPointer

/-!
# Overlaps with a dynamic event

A dynamic event carries the entries of a snapshot of the shadow table of the SIMT threads. The
check against another event sorts both sides by address and walks over them with two pointers. An
entry is dropped when the other side has passed its end; entries that are both reads are no
conflict, and dropping one of them loses none.
-/

namespace MsSanitizer.MemEventChecker

open RecordDefs EventDef Words TwoPointer

/-- An entry of a dynamic event or a block of a memory operation. -/
structure Access where
  start : ℕ
  size : ℕ
  opType : AccessType
  deriving DecidableEq, Repr

def Access.bytes (a : Access) : Set ℕ := Set.Ico a.start (a.start + a.size)

/-- Two accesses that share a byte and are not both reads. -/
def Conflict (a b : Access) : Prop :=
  (a.bytes ∩ b.bytes).Nonempty ∧ ¬ (a.opType = .read ∧ b.opType = .read)

def entriesOf (op : DynamicOpInfo) : List ShadowMemoryRecord := (op.buffer.getD []).take op.count

def entryAccess (r : ShadowMemoryRecord) : Access := ⟨r.addr, r.size, r.accessType⟩

/-- The blocks of an operation; a block starts at an address of 64 bits. -/
def blocksOf (op : MemOpInfo) : List Access :=
  (List.range op.repeatTimes).flatMap fun r => (List.range op.blockNum).map fun b =>
    ⟨add64 op.addr (r * op.repeatStride * op.blockSize + b * op.blockStride * op.blockSize),
      op.blockSize, op.opType⟩

def accesses (e : MemEvent) : List Access :=
  if e.isDynamic then (entriesOf e.dynamicMemInfo).map entryAccess else blocksOf e.memInfo

/-- The entries of one snapshot: none is empty, no two share a byte, and their addresses are those
of the shadow table, which has 48 bits and dumps a byte at most one table further up. -/
structure Snapshot (op : DynamicOpInfo) : Prop where
  simt : op.dynamicType = simtEntry
  pos : ∀ r ∈ entriesOf op, 0 < r.size
  disjoint : (entriesOf op).Pairwise fun r s =>
    Disjoint (entryAccess r).bytes (entryAccess s).bytes
  below : ∀ r ∈ entriesOf op, r.addr + r.size ≤ 2 ^ 49

/-- The events that the scan compares: an operation with an empty block has no length and is left
out, and the size of a block has 32 bits. -/
def Comparable (e : MemEvent) : Prop :=
  if e.isDynamic then Snapshot e.dynamicMemInfo
  else 0 < e.memInfo.blockSize ∧ e.memInfo.blockSize < 2 ^ 32

/-! ## Ranges -/

lemma inter_nonempty_iff {a b : Access} (ha : 0 < a.size) (hb : 0 < b.size) :
    (a.bytes ∩ b.bytes).Nonempty ↔ a.start < b.start + b.size ∧ b.start < a.start + a.size := by
  rw [Access.bytes, Access.bytes, Set.Ico_inter_Ico, Set.nonempty_Ico, sup_lt_iff, lt_inf_iff,
    lt_inf_iff]
  omega

/-- Of two disjoint ranges the one that starts first ends before the other starts. -/
lemma stop_le_of_disjoint {r s : ShadowMemoryRecord} (hs : 0 < s.size) (hle : r.addr ≤ s.addr)
    (h : Disjoint (entryAccess r).bytes (entryAccess s).bytes) : r.addr + r.size ≤ s.addr := by
  by_contra hlt
  have hr : s.addr ∈ (entryAccess r).bytes := ⟨hle, not_le.mp hlt⟩
  have hs' : s.addr ∈ (entryAccess s).bytes := ⟨le_rfl, Nat.lt_add_of_pos_right hs⟩
  exact Set.disjoint_left.mp h hr hs'

/-! ## Sorted sides -/

def stop (r : ShadowMemoryRecord × ℕ) : ℕ := add64 r.1.addr r.1.size

/-- Records of which each ends before the later ones start. -/
def Ahead (l : List (ShadowMemoryRecord × ℕ)) : Prop := l.Pairwise fun x y => stop x ≤ y.1.addr

variable {op : DynamicOpInfo}

lemma recordsOf_eq (h : op.dynamicType = simtEntry) :
    recordsOf op = none ∧ entriesOf op = [] ∨
      ∃ records, recordsOf op = some records ∧ records.Perm (entriesOf op).zipIdx ∧
        records.Pairwise fun x y => x.1.addr ≤ y.1.addr := by
  cases hb : op.buffer with
  | none => exact Or.inl ⟨by simp [recordsOf, hb], by simp [entriesOf, hb]⟩
  | some buffer =>
    rcases Nat.eq_zero_or_pos op.count with hc | hc
    · exact Or.inl ⟨by simp [recordsOf, hb, hc], by simp [entriesOf, hc]⟩
    · have hrec : recordsOf op = some (transToRecords buffer op.count) := by
        simp only [recordsOf, hb, if_pos (And.intro h hc)]
      have hent : entriesOf op = buffer.take op.count := by simp [entriesOf, hb]
      refine Or.inr ⟨_, hrec, hent ▸ List.mergeSort_perm _ _, ?_⟩
      refine (List.pairwise_mergeSort ?_ ?_ _).imp ?_
      · intro x y z hxy hyz
        split_ifs at * <;> simp only [decide_eq_true_eq] at * <;> omega
      · intro x y
        split_ifs <;> simp only [Bool.or_eq_true, decide_eq_true_eq] <;> omega
      · intro x y hxy
        split_ifs at hxy <;> simp only [decide_eq_true_eq] at hxy <;> omega

lemma stop_eq (h : Snapshot op) {x : ShadowMemoryRecord × ℕ} (hx : x ∈ (entriesOf op).zipIdx) :
    stop x = x.1.addr + x.1.size := by
  have := h.below x.1 (List.fst_mem_of_mem_zipIdx hx)
  exact add64_eq (by omega)

/-- The records of a snapshot, sorted by address, lie one behind the other. -/
lemma ahead_of_sorted (h : Snapshot op) {records : List (ShadowMemoryRecord × ℕ)}
    (hp : records.Perm (entriesOf op).zipIdx)
    (hs : records.Pairwise fun x y => x.1.addr ≤ y.1.addr) : Ahead records := by
  have hdis : (entriesOf op).zipIdx.Pairwise fun x y =>
      Disjoint (entryAccess x.1).bytes (entryAccess y.1).bytes := by
    have hmap := h.disjoint
    rw [← List.zipIdx_map_fst 0 (entriesOf op), List.pairwise_map] at hmap
    exact hmap
  have hdis' := (hp.pairwise_iff fun hxy => hxy.symm).mpr hdis
  refine List.Pairwise.imp_of_mem (fun {x y} hx hy hxy => ?_) (hs.and hdis')
  have hy' := List.fst_mem_of_mem_zipIdx (hp.mem_iff.mp hy)
  rw [stop_eq h (hp.mem_iff.mp hx)]
  exact stop_le_of_disjoint (h.pos _ hy') hxy.1 hxy.2

/-! ## The walk over two dynamic events -/

def Hit (r1 r2 : ShadowMemoryRecord × ℕ) : Prop :=
  r1.1.addr < stop r2 ∧ r2.1.addr < stop r1 ∧
    ¬ (r1.1.accessType = .read ∧ r2.1.accessType = .read)

instance (r1 r2 : ShadowMemoryRecord × ℕ) : Decidable (Hit r1 r2) :=
  inferInstanceAs (Decidable (_ ∧ _ ∧ ¬ (_ ∧ _)))

lemma not_hit_of_passed {r1 r2 : ShadowMemoryRecord × ℕ} {l : List (ShadowMemoryRecord × ℕ)}
    (hl : ∀ y ∈ l, stop r2 ≤ y.1.addr) (hle : stop r1 ≤ stop r2) : ∀ y ∈ l, ¬ Hit r1 y := by
  intro y hy hhit
  have := hl y hy
  have := hhit.2.1
  omega

lemma hit_comm (r1 r2 : ShadowMemoryRecord × ℕ) : Hit r1 r2 ↔ Hit r2 r1 := by
  unfold Hit
  tauto

lemma dynamicLoop_cons (r1 r2 : ShadowMemoryRecord × ℕ) (l1 l2 : List (ShadowMemoryRecord × ℕ))
    (v : Verdict) : ∃ v' : Verdict, (v'.race = true ↔ v.race = true ∨ Hit r1 r2) ∧
      dynamicLoop (r1 :: l1) (r2 :: l2) v =
        if Hit r1 r2 ∧ r1.1.pc ≠ r2.1.pc then v'
        else if stop r1 < stop r2 then dynamicLoop l1 (r2 :: l2) v'
        else if stop r1 = stop r2 then dynamicLoop l1 l2 v'
        else dynamicLoop (r1 :: l1) l2 v' := by
  refine ⟨if Hit r1 r2 then ⟨true, some r1.2, some r2.2⟩ else v, ?_, ?_⟩
  · by_cases hhit : Hit r1 r2
    · simp [hhit]
    · simp [hhit]
  · rw [dynamicLoop]
    rfl

lemma dynamicLoop_race {l1 l2 : List (ShadowMemoryRecord × ℕ)} (h1 : Ahead l1) (h2 : Ahead l2)
    (v : Verdict) : (dynamicLoop l1 l2 v).race = true ↔ v.race = true ∨ Meet Hit l1 l2 := by
  induction hn : l1.length + l2.length using Nat.strong_induction_on generalizing l1 l2 v with
  | _ n ih =>
  match l1, l2 with
  | [], _ => simp [dynamicLoop]
  | r1 :: l1, [] => simp [dynamicLoop]
  | r1 :: l1, r2 :: l2 =>
    obtain ⟨v', hv', heq⟩ := dynamicLoop_cons r1 r2 l1 l2 v
    obtain ⟨hl1, h1'⟩ := List.pairwise_cons.mp h1
    obtain ⟨hl2, h2'⟩ := List.pairwise_cons.mp h2
    have hright : stop r2 ≤ stop r1 → ∀ x ∈ l1, ¬ Hit x r2 := fun hle x hx hhit =>
      not_hit_of_passed hl1 hle x hx ((hit_comm _ _).mp hhit)
    rw [heq]
    simp only [List.length_cons] at hn
    split_ifs with hpc hlt heq'
    · exact iff_of_true (hv'.mpr (Or.inr hpc.1))
        (Or.inr ⟨r1, by simp, r2, by simp, hpc.1⟩)
    · rw [ih _ (by simp only [List.length_cons]; omega) h1' h2 v' rfl, hv', or_assoc,
        meet_advance_left (not_hit_of_passed hl2 hlt.le)]
    · rw [ih _ (by omega) h1' h2' v' rfl, hv', or_assoc,
        meet_advance_both (hright heq'.ge) (not_hit_of_passed hl2 heq'.le)]
    · rw [ih _ (by simp only [List.length_cons]; omega) h1 h2' v' rfl, hv', or_assoc,
        meet_advance_right (hright (by omega))]

/-! ## The walk over an operation and a dynamic event -/

/-- The test of the loop for a range of an operation and a record. -/
def HitBlock (opType : AccessType) (r1 : ℕ × ℕ) (r2 : ShadowMemoryRecord × ℕ) : Prop :=
  r1.1 < stop r2 ∧ r2.1.addr < r1.2 ∧ ¬ (r2.1.accessType = .read ∧ opType = .read)

instance (opType : AccessType) (r1 : ℕ × ℕ) (r2 : ShadowMemoryRecord × ℕ) :
    Decidable (HitBlock opType r1 r2) :=
  inferInstanceAs (Decidable (_ ∧ _ ∧ ¬ (_ ∧ _)))

/-- The ranges of an operation may overlap. But a record that ends no later than the first of them
and does not conflict with it conflicts with none: a range that starts later and meets the record
would meet it where the first one does, with the same type of access. -/
lemma not_hitBlock_of_passed {opType : AccessType} {r1 : ℕ × ℕ} {r2 : ShadowMemoryRecord × ℕ}
    {l : List (ℕ × ℕ)} (hl : ∀ y ∈ l, r1.1 ≤ y.1) (hpos : r2.1.addr < stop r2)
    (hle : stop r2 ≤ r1.2) (hno : ¬ HitBlock opType r1 r2) : ∀ y ∈ l, ¬ HitBlock opType y r2 := by
  intro y hy hhit
  have hstart : r1.1 < stop r2 := lt_of_le_of_lt (hl y hy) hhit.1
  exact hno ⟨hstart, hpos.trans_le hle, hhit.2.2⟩

lemma memDynamicLoop_isSome (opType : AccessType) {l1 : List (ℕ × ℕ)}
    {l2 : List (ShadowMemoryRecord × ℕ)} (h1 : l1.Pairwise fun x y => x.1 ≤ y.1) (h2 : Ahead l2)
    (hpos : ∀ r ∈ l2, r.1.addr < stop r) :
    (memDynamicLoop opType l1 l2).isSome = true ↔ Meet (HitBlock opType) l1 l2 := by
  induction hn : l1.length + l2.length using Nat.strong_induction_on generalizing l1 l2 with
  | _ n ih =>
  match l1, l2 with
  | [], _ => simp [memDynamicLoop]
  | r1 :: l1, [] => simp [memDynamicLoop]
  | r1 :: l1, r2 :: l2 =>
    obtain ⟨hl1, h1'⟩ := List.pairwise_cons.mp h1
    obtain ⟨hl2, h2'⟩ := List.pairwise_cons.mp h2
    have hpos' : ∀ r ∈ l2, r.1.addr < stop r := fun r hr => hpos r (List.mem_cons_of_mem _ hr)
    have heq : memDynamicLoop opType (r1 :: l1) (r2 :: l2) =
        if HitBlock opType r1 r2 then some r2.2
        else if r1.2 < stop r2 then memDynamicLoop opType l1 (r2 :: l2)
        else if r1.2 = stop r2 then memDynamicLoop opType l1 l2
        else memDynamicLoop opType (r1 :: l1) l2 := by
      rw [memDynamicLoop]
      rfl
    have hleft : r1.2 ≤ stop r2 → ∀ x ∈ l2, ¬ HitBlock opType r1 x := by
      intro hle x hx hhit
      have := hl2 x hx
      have := hhit.2.1
      omega
    rw [heq]
    simp only [List.length_cons] at hn
    by_cases hhit : HitBlock opType r1 r2
    · rw [if_pos hhit]
      exact iff_of_true rfl ⟨r1, by simp, r2, by simp, hhit⟩
    have hright := fun hle => not_hitBlock_of_passed hl1 (hpos r2 (by simp)) hle hhit
    rw [if_neg hhit]
    split_ifs with hlt heq'
    · rw [ih _ (by simp only [List.length_cons]; omega) h1' h2 hpos rfl,
        meet_advance_left (hleft hlt.le), or_iff_right hhit]
    · rw [ih _ (by omega) h1' h2' hpos' rfl,
        meet_advance_both (hright heq'.ge) (hleft heq'.le), or_iff_right hhit]
    · rw [ih _ (by simp only [List.length_cons]; omega) h1 h2' hpos' rfl,
        meet_advance_right (hright (by omega)), or_iff_right hhit]

/-! ## Conflicts -/

lemma mem_blocksOf {op : MemOpInfo} {a : Access} (ha : a ∈ blocksOf op) :
    a.start < 2 ^ 64 ∧ a.size = op.blockSize ∧ a.opType = op.opType := by
  simp only [blocksOf, List.mem_flatMap, List.mem_map, List.mem_range] at ha
  obtain ⟨r, -, b, -, rfl⟩ := ha
  exact ⟨Nat.mod_lt _ (by norm_num), rfl, rfl⟩

lemma map_entryAccess (d : DynamicOpInfo) :
    (entriesOf d).map entryAccess = (entriesOf d).zipIdx.map fun r => entryAccess r.1 := by
  nth_rewrite 1 [← List.zipIdx_map_fst 0 (entriesOf d)]
  rw [List.map_map]
  rfl

lemma splitMem_eq (op : MemOpInfo) :
    splitMem op = (blocksOf op).map fun a => (a.start, add64 a.start a.size) := by
  simp only [splitMem, blocksOf, List.map_flatMap, List.map_map]
  rfl

/-- A snapshot lies far below the end of the address space, so that a block that runs past the end
meets none of its entries, as the wrapped end says. -/
lemma hitBlock_iff {op : MemOpInfo} {d : DynamicOpInfo} (h : Snapshot d)
    (hsize : 0 < op.blockSize ∧ op.blockSize < 2 ^ 32) {a : Access} (ha : a ∈ blocksOf op)
    {r : ShadowMemoryRecord × ℕ} (hr : r ∈ (entriesOf d).zipIdx) :
    HitBlock op.opType (a.start, add64 a.start a.size) r ↔ Conflict a (entryAccess r.1) := by
  obtain ⟨hlt, hsz, hty⟩ := mem_blocksOf ha
  have hr' := List.fst_mem_of_mem_zipIdx hr
  have hbelow := h.below _ hr'
  have hpos := h.pos _ hr'
  rw [Conflict, inter_nonempty_iff (by omega) hpos, HitBlock, stop_eq h hr, hty, and_assoc,
    and_comm (a := r.1.accessType = .read)]
  rcases lt_or_ge (a.start + a.size) (2 ^ 64) with hfit | hwrap
  · rw [add64_eq hfit]
    rfl
  · have hfar : ¬ a.start < r.1.addr + r.1.size := by omega
    exact iff_of_false (fun hx => hfar hx.1) fun hx => hfar hx.1

/-- The ranges of an operation in the order of `std::sort`. -/
lemma sorted_ranges (l : List (ℕ × ℕ)) :
    (l.mergeSort fun x y => if x.1 = y.1 then decide (x.2 ≤ y.2) else decide (x.1 ≤ y.1)).Pairwise
      fun x y => x.1 ≤ y.1 := by
  refine (List.pairwise_mergeSort ?_ ?_ _).imp ?_
  · intro x y z hxy hyz
    split_ifs at * <;> simp only [decide_eq_true_eq] at * <;> omega
  · intro x y
    split_ifs <;> simp only [Bool.or_eq_true, decide_eq_true_eq] <;> omega
  · intro x y hxy
    split_ifs at hxy <;> simp only [decide_eq_true_eq] at hxy <;> omega

lemma isMemDynamicOverlap_iff {op : MemOpInfo} {d : DynamicOpInfo} (h : Snapshot d)
    (hsize : 0 < op.blockSize ∧ op.blockSize < 2 ^ 32) :
    (isMemDynamicOverlap op d).isSome = true ↔
      Meet Conflict (blocksOf op) ((entriesOf d).map entryAccess) := by
  rcases recordsOf_eq h.simt with ⟨hnone, hnil⟩ | ⟨records, hrec, hp, hs⟩
  · simp [isMemDynamicOverlap, hnone, hnil]
  have hpos : ∀ r ∈ records, r.1.addr < stop r := by
    intro r hr
    have hr' := hp.mem_iff.mp hr
    rw [stop_eq h hr']
    exact Nat.lt_add_of_pos_right (h.pos _ (List.fst_mem_of_mem_zipIdx hr'))
  simp only [isMemDynamicOverlap, hrec]
  rw [memDynamicLoop_isSome op.opType (sorted_ranges _) (ahead_of_sorted h hp hs) hpos,
    meet_perm (List.mergeSort_perm _ _) hp, splitMem_eq, map_entryAccess, meet_map_left,
    meet_map_right]
  exact meet_congr fun a ha r hr => hitBlock_iff h hsize ha hr

lemma hit_iff {d1 d2 : DynamicOpInfo} (h1 : Snapshot d1) (h2 : Snapshot d2)
    {r1 r2 : ShadowMemoryRecord × ℕ} (hr1 : r1 ∈ (entriesOf d1).zipIdx)
    (hr2 : r2 ∈ (entriesOf d2).zipIdx) :
    Hit r1 r2 ↔ Conflict (entryAccess r1.1) (entryAccess r2.1) := by
  have hpos1 := h1.pos _ (List.fst_mem_of_mem_zipIdx hr1)
  have hpos2 := h2.pos _ (List.fst_mem_of_mem_zipIdx hr2)
  rw [Conflict, inter_nonempty_iff hpos1 hpos2, Hit, stop_eq h1 hr1, stop_eq h2 hr2, and_assoc]
  rfl

lemma dynamicOverlap_iff {d1 d2 : DynamicOpInfo} (h1 : Snapshot d1) (h2 : Snapshot d2) :
    (match recordsOf d1, recordsOf d2 with
      | some l1, some l2 => dynamicLoop l1 l2 { race := false }
      | _, _ => { race := false }).race = true ↔
      Meet Conflict ((entriesOf d1).map entryAccess) ((entriesOf d2).map entryAccess) := by
  rcases recordsOf_eq h1.simt with ⟨hnone, hnil⟩ | ⟨l1, hrec1, hp1, hs1⟩
  · simp [hnone, hnil]
  rcases recordsOf_eq h2.simt with ⟨hnone, hnil⟩ | ⟨l2, hrec2, hp2, hs2⟩
  · simp [hrec1, hnone, hnil]
  simp only [hrec1, hrec2]
  rw [dynamicLoop_race (ahead_of_sorted h1 hp1 hs1) (ahead_of_sorted h2 hp2 hs2),
    or_iff_right (by simp), meet_perm hp1 hp2, map_entryAccess, map_entryAccess, meet_map_left,
    meet_map_right]
  exact meet_congr fun r1 hr1 r2 hr2 => hit_iff h1 h2 hr1 hr2

lemma conflict_comm (a b : Access) : Conflict a b ↔ Conflict b a := by
  rw [Conflict, Conflict, Set.inter_comm, and_comm (a := a.opType = .read)]

/-- **Overlaps with a dynamic event.** Two events of which one is dynamic overlap iff an access of
the one and an access of the other share a byte and are not both reads. -/
theorem isMemSpaceOverlap_iff {e1 e2 : MemEvent} (h1 : Comparable e1) (h2 : Comparable e2)
    (hdyn : e1.isDynamic = true ∨ e2.isDynamic = true) :
    (isMemSpaceOverlap e1 e2).race = true ↔
      ∃ a ∈ accesses e1, ∃ b ∈ accesses e2, Conflict a b := by
  change _ ↔ Meet Conflict (accesses e1) (accesses e2)
  unfold isMemSpaceOverlap
  cases hd1 : e1.isDynamic <;> cases hd2 : e2.isDynamic <;>
    simp only [Comparable, accesses, hd1, hd2, Bool.false_eq_true, if_true, if_false] at h1 h2 ⊢
  · simp [hd1, hd2] at hdyn
  · exact isMemDynamicOverlap_iff h2 h1
  · rw [isMemDynamicOverlap_iff h1 h2, meet_swap]
    exact meet_congr fun a _ b _ => conflict_comm b a
  · exact dynamicOverlap_iff h1 h2

def readTwoBlocks : MemEvent where
  memInfo :=
    { opType := .read
      blockNum := 2
      blockSize := 32
      blockStride := 1
      repeatTimes := 1 }

/-- Entries out of order, of which one ends where a block does. -/
def twoEntries : MemEvent where
  isDynamic := true
  dynamicMemInfo :=
    { count := 2
      dynamicType := simtEntry
      buffer := some [⟨32, 8, 0, .write, 0, 0⟩, ⟨0, 32, 0, .read, 0, 0⟩] }

theorem isMemSpaceOverlap_iff_entries :
    (isMemSpaceOverlap readTwoBlocks twoEntries).race = true := by
  have hsnap : Comparable twoEntries := by
    refine ⟨rfl, by decide, ?_, by decide⟩
    refine List.pairwise_pair.mpr (Set.disjoint_left.mpr fun x hx hy => ?_)
    have h1 := hx.1
    have h2 := hy.2
    simp only [entryAccess] at h1 h2
    omega
  have hblock : Comparable readTwoBlocks := ⟨by decide, by decide⟩
  refine (isMemSpaceOverlap_iff hblock hsnap (Or.inr rfl)).mpr ?_
  refine ⟨⟨32, 32, .read⟩, by decide, ⟨32, 8, .write⟩, by decide, ⟨32, ?_, ?_⟩, by decide⟩
  · exact ⟨by decide, by decide⟩
  · exact ⟨by decide, by decide⟩

end MsSanitizer.MemEventChecker
