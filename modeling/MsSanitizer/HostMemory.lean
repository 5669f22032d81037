import MsSanitizer.Bounds
import MsSanitizer.InPlaceInsertion
import MsSanitizer.SpanRuns

/-!
# The host memory of the online check

The model of the table of host memory in `online_check.h`. The addresses of the parameters are
written behind the allocations, the table is sorted by address, ranges that touch are merged, and
accesses are checked against what is left. Sorting and merging move the address and the size of an
entry, while its permission stays in its slot.
-/

namespace MsSanitizer

open RecordDefs Words Spans

structure HostMemoryInfo where
  addr : ℕ
  size : ℕ
  permission : ℕ
  deriving DecidableEq, Repr

structure PeerMemoryInfo where
  addr : ℕ
  size : ℕ
  permission : ℕ
  deviceId : ℤ
  deriving DecidableEq, Repr

/-- `AddrInfo`, with the fields that the check of GM reads. -/
structure AddrInfo where
  addr : ℕ
  size : ℕ
  opType : AccessType
  space : AddressSpace := .gm
  deriving DecidableEq, Repr

namespace OnlineCheck

open Bounds (hasPermission)

def noMemory : HostMemoryInfo := ⟨0, 0, 0⟩

/-- The address and the size of a slot are written. -/
def setRange (table : List HostMemoryInfo) (i addr size : ℕ) : List HostMemoryInfo :=
  table.modify i fun e => { e with addr, size }

/-- `WriteParaBaseAddr`: the addresses of the parameters, and how many slots are sorted. -/
def writeParaBaseAddr (table : List HostMemoryInfo) (params : List ℕ) :
    List HostMemoryInfo × ℕ :=
  let extraIndex := table.findIdx fun e => e.addr == 0
  (table.mapIdx fun i e =>
    if extraIndex ≤ i then { e with addr := params.getD (i - extraIndex) e.addr } else e,
    extraIndex)

def moveUp (keyAddr keySize : ℕ) : ℕ → List HostMemoryInfo → List HostMemoryInfo
  | 0, table => setRange table 0 keyAddr keySize
  | j + 1, table =>
    let e := table.getD j noMemory
    if keyAddr < e.addr ∨ e.addr = 0 then
      moveUp keyAddr keySize j (setRange table (j + 1) e.addr e.size)
    else setRange table (j + 1) keyAddr keySize

/-- The body of the loop of `InsertionSortMemory`. -/
def insertMemory (table : List HostMemoryInfo) (i : ℕ) : List HostMemoryInfo :=
  let key := table.getD i noMemory
  if key.addr = 0 ∨ i = 0 then table else moveUp key.addr key.size i table

def insertionSortMemory (sortedLen : ℕ) (table : List HostMemoryInfo) : List HostMemoryInfo :=
  (List.range' sortedLen (table.length - sortedLen)).foldl insertMemory table

/-- The body of the loop of `MergeMemory`, with the index of the last range. -/
def mergeStep (s : List HostMemoryInfo × ℕ) (i : ℕ) : List HostMemoryInfo × ℕ :=
  let (table, index) := s
  let curr := table.getD i noMemory
  let last := table.getD index noMemory
  let currEnd := add64 curr.addr curr.size
  let lastEnd := add64 last.addr last.size
  if curr.addr ≤ lastEnd then
    let newEnd := if currEnd < lastEnd then lastEnd else currEnd
    (setRange table index last.addr (sub64 newEnd last.addr), index)
  else (setRange table (index + 1) curr.addr curr.size, index + 1)

def mergeMemory (table : List HostMemoryInfo) : List HostMemoryInfo :=
  if table.length ≤ 1 then table
  else
    let (merged, index) := (List.range' 1 (table.length - 1)).foldl mergeStep (table, 0)
    merged.mapIdx fun i e => if index < i then { e with addr := 0, size := 0 } else e

/-- `ProcessParaBaseAddr`, in the block that writes the parameters. -/
def processParaBaseAddr (table : List HostMemoryInfo) (params : List ℕ) : List HostMemoryInfo :=
  let (written, sortedLen) := writeParaBaseAddr table params
  mergeMemory (insertionSortMemory sortedLen written)

def calIntersectionSize (addr size thresholdAddr thresholdSize : ℕ) : ℕ :=
  if addr < thresholdAddr then
    let pre := thresholdAddr - addr
    if size ≤ pre then 0
    else
      let remaining := size - pre
      if remaining < thresholdSize then remaining else thresholdSize
  else
    let offset := addr - thresholdAddr
    if thresholdSize ≤ offset then 0
    else
      let remaining := thresholdSize - offset
      if size < remaining then size else remaining

/-- How far the range `memory` of a device reaches from the address `covered`, if it is further
than `far`. -/
def reach (opType : AccessType) (device : ℤ) (covered far : ℕ) (memory : PeerMemoryInfo) : ℕ :=
  if memory.deviceId ≠ device ∨ 2 ^ 64 - 1 - memory.addr < memory.size ∨
      hasPermission memory.permission opType = false then far
  else if memory.addr ≤ covered ∧ covered < memory.addr + memory.size ∧
      far < memory.addr + memory.size then memory.addr + memory.size
  else far

/-- A round of the loop of `PeerCovers`. -/
def furthest (peers : List PeerMemoryInfo) (opType : AccessType) (device : ℤ) (covered : ℕ) : ℕ :=
  peers.foldl (reach opType device covered) covered

lemma le_reach (opType : AccessType) (device : ℤ) (covered far : ℕ) (memory : PeerMemoryInfo) :
    far ≤ reach opType device covered far memory := by
  unfold reach
  split_ifs with _ h
  · exact le_rfl
  · exact h.2.2.le
  · exact le_rfl

lemma le_furthest (peers : List PeerMemoryInfo) (opType : AccessType) (device : ℤ) (covered : ℕ) :
    covered ≤ furthest peers opType device covered := by
  have hfold : ∀ far, far ≤ peers.foldl (reach opType device covered) far := by
    induction peers with
    | nil => exact fun _ => le_rfl
    | cons memory peers ih => exact fun far => (le_reach _ _ _ _ memory).trans (ih _)
  exact hfold covered

/-- The loop of `PeerCovers` for a device: how far its ranges cover the access without a gap. -/
def coveredUpTo (peers : List PeerMemoryInfo) (opType : AccessType) (device : ℤ)
    (endAddr covered : ℕ) : ℕ :=
  if covered < endAddr then
    let far := furthest peers opType device covered
    if far = covered then covered else coveredUpTo peers opType device endAddr far
  else covered
termination_by endAddr - covered
decreasing_by
  have hle := le_furthest peers opType device covered
  omega

/-- `PeerCovers`; there are no ranges when the pointer to them is null. -/
def peerCovers (peers : List PeerMemoryInfo) (access : AddrInfo) : Bool :=
  if access.size = 0 ∨ 2 ^ 64 - 1 - access.addr < access.size then false
  else
    let endAddr := access.addr + access.size
    peers.any fun candidate =>
      endAddr ≤ coveredUpTo peers access.opType candidate.deviceId endAddr access.addr

/-- The body of the loop of `GmReadWriteCheck`, with `overlapsLocal` and `intersectionSize`. -/
def countOverlap (access : AddrInfo) (s : Bool × ℕ) (mallocInfo : HostMemoryInfo) : Bool × ℕ :=
  let overlap := calIntersectionSize access.addr access.size mallocInfo.addr mallocInfo.size
  let overlapsLocal := s.1 || decide (0 < overlap)
  if hasPermission mallocInfo.permission access.opType then (overlapsLocal, add64 s.2 overlap)
  else (overlapsLocal, s.2)

/-- The `intersectionSize` of `GmReadWriteCheck`. -/
def intersectionSize (table : List HostMemoryInfo) (access : AddrInfo) : ℕ :=
  (table.foldl (countOverlap access) (false, 0)).2

/-- The `illegalSize` of `GmReadWriteCheck`, which is reported if it is positive. -/
def gmReadWriteCheck (table : List HostMemoryInfo) (peers : List PeerMemoryInfo)
    (access : AddrInfo) : ℕ :=
  if access.space ≠ .gm then 0
  else
    let illegalSize := sub64 access.size (intersectionSize table access)
    let overlapsLocal := (table.foldl (countOverlap access) (false, 0)).1
    if 0 < illegalSize ∧ overlapsLocal = false ∧ peerCovers peers access = true then 0
    else illegalSize

/-! ## What the table says -/

def Holds (e : HostMemoryInfo) (x : ℕ) : Prop := e.addr ≤ x ∧ x < e.addr + e.size

instance (e : HostMemoryInfo) : DecidablePred (Holds e) :=
  fun _ => inferInstanceAs (Decidable (_ ∧ _))

/-- The ranges of a table; a slot of address zero holds none. -/
def ranges (table : List HostMemoryInfo) : List HostMemoryInfo := table.filter fun e => e.addr ≠ 0

def bytes (access : AddrInfo) : Finset ℕ := Finset.Ico access.addr (access.addr + access.size)

/-- A byte that an access may use: a range holds it with the permission, or no range holds a byte
of the access and the other devices grant it. -/
def Allowed (rs : List HostMemoryInfo) (peers : List PeerMemoryInfo) (access : AddrInfo) (x : ℕ) :
    Prop :=
  (∃ e ∈ rs, Holds e x ∧ hasPermission e.permission access.opType = true) ∨
    (∀ y ∈ bytes access, ∀ e ∈ rs, ¬ Holds e y) ∧ peerCovers peers access = true

instance (rs : List HostMemoryInfo) (peers : List PeerMemoryInfo) (access : AddrInfo) :
    DecidablePred (Allowed rs peers access) := fun _ => inferInstanceAs (Decidable (_ ∨ _))

/-- An entry and a later one, which is behind it or empty. -/
def Parted (e f : HostMemoryInfo) : Prop :=
  (f.addr = 0 ∧ f.size = 0) ∨ e.addr + e.size ≤ f.addr

/-- A table `after` is right about the ranges of the table `before`. -/
structure TableRight (before after : List HostMemoryInfo) : Prop where
  disjoint : after.Pairwise Parted
  covered : ∀ x, (∃ e ∈ after, Holds e x) ↔ ∃ e ∈ ranges before, Holds e x
  permitted : ∀ x permission, (∃ e ∈ after, Holds e x ∧ e.permission = permission) ↔
    ∃ e ∈ ranges before, Holds e x ∧ e.permission = permission
  /-- what is subtracted from the size of an access is no more than that -/
  le_size : ∀ access, access.addr < 2 ^ 64 → access.size < 2 ^ 64 →
    intersectionSize after access ≤ access.size
  illegal : ∀ access peers, access.addr < 2 ^ 64 → access.size < 2 ^ 64 → access.space = .gm →
    gmReadWriteCheck after peers access =
      ((bytes access).filter fun x => ¬ Allowed (ranges before) peers access x).card

def spans (table : List HostMemoryInfo) : List (Span ℕ) :=
  table.map fun e => ⟨e.addr, e.addr + e.size⟩

/-- When the permissions are in their places: every range that is not empty has the permission of
the slot that its run comes to, and no empty slot has a size beyond the end of the ranges. -/
structure SlotsAgree (table : List HostMemoryInfo) : Prop where
  permission : ∀ e ∈ ranges table, 0 < e.size →
    (table[place (spans (ranges table)) e.addr]?).map HostMemoryInfo.permission = some e.permission
  size : ∀ e ∈ table, e.addr = 0 → e.size ≤ ((spans (ranges table)).map Span.vmax).foldl max 0

/-- The slots up to the first of address zero are in order and disjoint. -/
def Filled (table : List HostMemoryInfo) : Prop :=
  (table.take (table.findIdx fun e => e.addr == 0)).Pairwise fun e f => e.addr + e.size ≤ f.addr

/-! ## The bytes that are subtracted -/

section Bytes

variable {access : AddrInfo} {table : List HostMemoryInfo}

/-- `CalIntersectionSize` counts the bytes of the access in the range. -/
lemma calIntersectionSize_eq (access : AddrInfo) (e : HostMemoryInfo) :
    calIntersectionSize access.addr access.size e.addr e.size =
      ((bytes access).filter (Holds e)).card := by
  have hfilter : (bytes access).filter (Holds e) =
      Finset.Ico (max access.addr e.addr) (min (access.addr + access.size) (e.addr + e.size)) := by
    ext x
    simp only [bytes, Holds, Finset.mem_filter, Finset.mem_Ico, max_le_iff, lt_min_iff]
    tauto
  rw [hfilter, Nat.card_Ico]
  unfold calIntersectionSize
  dsimp only
  split_ifs <;> omega

def permittedSizes (access : AddrInfo) (table : List HostMemoryInfo) : List ℕ :=
  (table.filter fun e => hasPermission e.permission access.opType).map fun e =>
    calIntersectionSize access.addr access.size e.addr e.size

lemma permittedSizes_cons (access : AddrInfo) (e : HostMemoryInfo) (table : List HostMemoryInfo) :
    permittedSizes access (e :: table) =
      if hasPermission e.permission access.opType = true then
        calIntersectionSize access.addr access.size e.addr e.size :: permittedSizes access table
      else permittedSizes access table := by
  rw [permittedSizes, List.filter_cons]
  split_ifs
  · rfl
  · rfl

lemma foldl_countOverlap (o : Bool) {n : ℕ} (h : n + (permittedSizes access table).sum < 2 ^ 64) :
    table.foldl (countOverlap access) (o, n) =
      (o || table.any fun e =>
          decide (0 < calIntersectionSize access.addr access.size e.addr e.size),
        n + (permittedSizes access table).sum) := by
  induction table generalizing o n with
  | nil => simp [permittedSizes]
  | cons e table ih =>
    rw [List.foldl_cons, countOverlap]
    rw [permittedSizes_cons] at h ⊢
    dsimp only
    by_cases hp : hasPermission e.permission access.opType = true
    · rw [if_pos hp, List.sum_cons] at h
      rw [if_pos hp, if_pos hp, add64_eq (by omega), ih _ (by omega), List.any_cons, Bool.or_assoc,
        List.sum_cons, Nat.add_assoc]
    · rw [if_neg hp] at h
      rw [if_neg hp, if_neg hp, ih _ h, List.any_cons, Bool.or_assoc]

lemma Parted.not_holds {e f : HostMemoryInfo} (h : Parted e f) {x : ℕ} (he : Holds e x) :
    ¬ Holds f x := by
  unfold Holds at he ⊢
  rcases h with h | h <;> omega

/-- The bytes of the access that the table permits. -/
def permittedBytes (access : AddrInfo) (table : List HostMemoryInfo) : Finset ℕ :=
  (bytes access).filter fun x =>
    ∃ e ∈ table, Holds e x ∧ hasPermission e.permission access.opType = true

lemma sum_permittedSizes (h : table.Pairwise Parted) :
    (permittedSizes access table).sum = (permittedBytes access table).card := by
  induction table with
  | nil => simp [permittedSizes, permittedBytes]
  | cons e table ih =>
    obtain ⟨he, htable⟩ := List.pairwise_cons.mp h
    have hrest := ih htable
    rw [permittedSizes_cons]
    cases hp : hasPermission e.permission access.opType with
    | true =>
      have hunion : permittedBytes access (e :: table) =
          (bytes access).filter (Holds e) ∪ permittedBytes access table := by
        ext x
        simp only [permittedBytes, Finset.mem_union, Finset.mem_filter, List.exists_mem_cons_iff,
          hp, and_true]
        tauto
      have hdisjoint : Disjoint ((bytes access).filter (Holds e))
          (permittedBytes access table) := by
        rw [Finset.disjoint_left]
        intro x hx hx'
        obtain ⟨-, f, hf, hfx, -⟩ := Finset.mem_filter.mp hx'
        exact (he f hf).not_holds (Finset.mem_filter.mp hx).2 hfx
      rw [if_pos rfl, List.sum_cons, hrest, hunion, Finset.card_union_of_disjoint hdisjoint,
        calIntersectionSize_eq]
    | false =>
      have hsame : permittedBytes access (e :: table) = permittedBytes access table := by
        refine Finset.filter_congr fun x _ => ?_
        rw [List.exists_mem_cons_iff, hp]
        simp
      rw [if_neg Bool.false_ne_true, hrest, hsame]

/-- The check of an access to GM, when the table is in order. -/
lemma gmReadWriteCheck_eq (h : table.Pairwise Parted) (peers : List PeerMemoryInfo)
    (hsize : access.size < 2 ^ 64) (hgm : access.space = .gm) :
    intersectionSize table access ≤ access.size ∧
      gmReadWriteCheck table peers access =
        ((bytes access).filter fun x => ¬ Allowed table peers access x).card := by
  have hbytes : (bytes access).card = access.size := by
    rw [bytes, Nat.card_Ico, Nat.add_sub_cancel_left]
  have hle : (permittedBytes access table).card ≤ access.size :=
    (Finset.card_filter_le _ _).trans_eq hbytes
  have hfold := @foldl_countOverlap access table false 0 (by
    rw [sum_permittedSizes h]
    omega)
  rw [sum_permittedSizes h, Nat.zero_add, Bool.false_or] at hfold
  have hsub : intersectionSize table access = (permittedBytes access table).card := by
    rw [intersectionSize, hfold]
  rw [hsub]
  refine ⟨hle, ?_⟩
  have hillegal : access.size - (permittedBytes access table).card =
      ((bytes access).filter fun x =>
        ¬ ∃ e ∈ table, Holds e x ∧ hasPermission e.permission access.opType = true).card := by
    rw [← hbytes, permittedBytes, Finset.filter_not, Finset.card_sdiff_of_subset
      (Finset.filter_subset _ _)]
  have hoverlap : (table.any fun e =>
      decide (0 < calIntersectionSize access.addr access.size e.addr e.size)) = false ↔
      ∀ y ∈ bytes access, ∀ e ∈ table, ¬ Holds e y := by
    rw [List.any_eq_false]
    simp only [calIntersectionSize_eq, decide_eq_true_eq, Finset.card_pos,
      Finset.not_nonempty_iff_eq_empty, Finset.filter_eq_empty_iff]
    exact ⟨fun h y hy e he => h e he hy, fun h e he y hy => h y hy e he⟩
  rw [gmReadWriteCheck, if_neg (not_not.mpr hgm), hsub, sub64_eq hle hsize, hfold]
  dsimp only
  rw [hillegal]
  by_cases hpeer : (∀ y ∈ bytes access, ∀ e ∈ table, ¬ Holds e y) ∧ peerCovers peers access = true
  · have hnone : ((bytes access).filter fun x => ¬ Allowed table peers access x) = ∅ := by
      rw [Finset.filter_eq_empty_iff]
      exact fun x _ hx => hx (.inr hpeer)
    rw [hnone, Finset.card_empty]
    split_ifs with hpos
    · rfl
    · by_contra hne
      exact hpos ⟨Nat.pos_of_ne_zero hne, hoverlap.mpr hpeer.1, hpeer.2⟩
  · rw [if_neg fun hc => hpeer ⟨hoverlap.mp hc.2.1, hc.2.2⟩]
    congr 1
    refine Finset.filter_congr fun x _ => ?_
    rw [Allowed, or_iff_left hpeer]

end Bytes

lemma tableRight_of {before after : List HostMemoryInfo} (hdisjoint : after.Pairwise Parted)
    (hpermitted : ∀ x permission, (∃ e ∈ after, Holds e x ∧ e.permission = permission) ↔
      ∃ e ∈ ranges before, Holds e x ∧ e.permission = permission) :
    TableRight before after := by
  have hiff : ∀ x (P : ℕ → Prop), (∃ e ∈ after, Holds e x ∧ P e.permission) ↔
      ∃ e ∈ ranges before, Holds e x ∧ P e.permission := by
    intro x P
    constructor
    · rintro ⟨e, he, hx, hp⟩
      obtain ⟨f, hf, hfx, hfe⟩ := (hpermitted x e.permission).mp ⟨e, he, hx, rfl⟩
      exact ⟨f, hf, hfx, hfe ▸ hp⟩
    · rintro ⟨e, he, hx, hp⟩
      obtain ⟨f, hf, hfx, hfe⟩ := (hpermitted x e.permission).mpr ⟨e, he, hx, rfl⟩
      exact ⟨f, hf, hfx, hfe ▸ hp⟩
  have hcovered : ∀ x, (∃ e ∈ after, Holds e x) ↔ ∃ e ∈ ranges before, Holds e x := by
    intro x
    simpa only [and_true] using hiff x fun _ => True
  have hallowed : ∀ peers access x,
      Allowed after peers access x ↔ Allowed (ranges before) peers access x := by
    intro peers access x
    have hnone : (∀ y ∈ bytes access, ∀ e ∈ after, ¬ Holds e y) ↔
        ∀ y ∈ bytes access, ∀ e ∈ ranges before, ¬ Holds e y := by
      refine forall₂_congr fun y _ => ?_
      have := hcovered y
      simpa only [not_exists, not_and] using not_congr this
    rw [Allowed, Allowed, hiff x fun p => hasPermission p access.opType = true, hnone]
  refine ⟨hdisjoint, hcovered, hpermitted, fun access _ hsize => ?_,
    fun access peers _ hsize hgm => ?_⟩
  · exact (@gmReadWriteCheck_eq { access with space := .gm } after hdisjoint [] hsize rfl).1
  · rw [(gmReadWriteCheck_eq hdisjoint peers hsize hgm).2]
    congr 1
    exact Finset.filter_congr fun x _ => not_congr (hallowed peers access x)

/-! ## Slots -/

section Slots

variable {table : List HostMemoryInfo} {i addr size : ℕ}

def permissions (table : List HostMemoryInfo) : List ℕ := table.map HostMemoryInfo.permission

@[simp] lemma length_setRange : (setRange table i addr size).length = table.length := by
  rw [setRange, List.length_modify]

lemma getElem?_setRange (k : ℕ) : (setRange table i addr size)[k]? =
    (table[k]?).map fun e => if i = k then { e with addr, size } else e := by
  rw [setRange, List.getElem?_modify]
  rfl

@[simp] lemma permissions_setRange :
    permissions (setRange table i addr size) = permissions table := by
  refine List.ext_getElem? fun k => ?_
  rw [permissions, permissions, List.getElem?_map, List.getElem?_map, getElem?_setRange]
  cases table[k]? with
  | none => rfl
  | some e =>
    rw [Option.map_some, Option.map_some, Option.map_some]
    split_ifs
    · rfl
    · rfl

@[simp] lemma spans_setRange :
    spans (setRange table i addr size) = (spans table).set i ⟨addr, addr + size⟩ := by
  refine List.ext_getElem? fun k => ?_
  rw [spans, spans, List.getElem?_map, getElem?_setRange, List.getElem?_set', List.getElem?_map]
  cases table[k]? with
  | none => simp
  | some e =>
    by_cases hik : i = k
    · simp [hik]
    · simp [hik]

@[simp] lemma length_spans : (spans table).length = table.length := List.length_map _

lemma getD_spans (table : List HostMemoryInfo) (i : ℕ) :
    (spans table).getD i ⟨0, 0⟩ = ⟨(table.getD i noMemory).addr,
      (table.getD i noMemory).addr + (table.getD i noMemory).size⟩ := by
  rw [spans, List.getD_eq_getElem?_getD, List.getD_eq_getElem?_getD, List.getElem?_map]
  cases table[i]? <;> rfl

/-- The order of the slots: ranges by address, then the empty slots. -/
def Before (x y : Span ℕ) : Prop := y.vmin = 0 ∨ x.vmin ≠ 0 ∧ x.vmin ≤ y.vmin

instance : DecidableRel Before := fun _ _ => inferInstanceAs (Decidable (_ ∨ _))

lemma before_total (x y : Span ℕ) : Before x y ∨ Before y x := by
  unfold Before
  omega

lemma before_trans (x y z : Span ℕ) (hxy : Before x y) (hyz : Before y z) : Before x z := by
  unfold Before at *
  omega

lemma moveUp_spec (haddr : addr ≠ 0) :
    spans (moveUp addr size i table) = InPlaceInsertion.shift
        (fun z => !decide (Before z ⟨addr, addr + size⟩)) ⟨addr, addr + size⟩ ⟨0, 0⟩ i
        (spans table) ∧
      permissions (moveUp addr size i table) = permissions table := by
  induction i generalizing table with
  | zero => exact ⟨spans_setRange, permissions_setRange⟩
  | succ j ih =>
    have habove : (!decide (Before ((spans table).getD j ⟨0, 0⟩) ⟨addr, addr + size⟩)) = true ↔
        addr < (table.getD j noMemory).addr ∨ (table.getD j noMemory).addr = 0 := by
      rw [getD_spans, Bool.not_eq_true', decide_eq_false_iff_not, Before]
      dsimp only
      omega
    rw [moveUp, InPlaceInsertion.shift]
    by_cases hup : addr < (table.getD j noMemory).addr ∨ (table.getD j noMemory).addr = 0
    · rw [if_pos hup, if_pos (habove.mpr hup), getD_spans, ← spans_setRange,
        ← @permissions_setRange table (j + 1)]
      exact ih
    · rw [if_neg hup, if_neg fun hc => hup (habove.mp hc)]
      exact ⟨spans_setRange, permissions_setRange⟩

lemma insertMemory_spec (hi : i < table.length) :
    spans (insertMemory table i) = InPlaceInsertion.step Before ⟨0, 0⟩ (spans table) i ∧
      permissions (insertMemory table i) = permissions table := by
  unfold insertMemory
  dsimp only
  have hget := getD_spans table i
  by_cases hkey : (table.getD i noMemory).addr = 0
  · rw [if_pos (.inl hkey), InPlaceInsertion.step_of_last _ (by rwa [length_spans])]
    · exact ⟨rfl, rfl⟩
    · intro z
      left
      rw [hget, hkey]
  · by_cases hzero : i = 0
    · subst hzero
      rw [if_pos (.inr rfl), InPlaceInsertion.step, InPlaceInsertion.shift]
      refine ⟨?_, rfl⟩
      rw [List.getD_eq_getElem?_getD, List.getElem?_eq_getElem (by rwa [length_spans]),
        Option.getD_some, List.set_getElem_self]
    · rw [if_neg (not_or.mpr ⟨hkey, hzero⟩), InPlaceInsertion.step, hget]
      exact moveUp_spec hkey

lemma insertionSortMemory_spec {sortedLen : ℕ} :
    spans (insertionSortMemory sortedLen table) =
        InPlaceInsertion.sortFrom Before ⟨0, 0⟩ sortedLen (spans table) ∧
      permissions (insertionSortMemory sortedLen table) = permissions table := by
  have hfold : ∀ k, sortedLen + k ≤ table.length ∨ k = 0 →
      spans ((List.range' sortedLen k).foldl insertMemory table) =
        (List.range' sortedLen k).foldl (InPlaceInsertion.step Before ⟨0, 0⟩) (spans table) ∧
      permissions ((List.range' sortedLen k).foldl insertMemory table) = permissions table := by
    intro k
    induction k with
    | zero => exact fun _ => ⟨rfl, rfl⟩
    | succ k ih =>
      intro hk
      obtain ⟨hspans, hpermissions⟩ := ih (by omega)
      have hlength : ((List.range' sortedLen k).foldl insertMemory table).length =
          table.length := by
        have := congrArg List.length hpermissions
        rwa [permissions, permissions, List.length_map, List.length_map] at this
      rw [List.range'_concat, List.foldl_append, List.foldl_append, List.foldl_cons,
        List.foldl_nil, List.foldl_cons, List.foldl_nil, ← hspans, ← hpermissions, one_mul]
      exact insertMemory_spec (by omega)
  have := hfold (table.length - sortedLen) (by omega)
  rwa [insertionSortMemory, InPlaceInsertion.sortFrom, length_spans]

def Fit (l : List (Span ℕ)) : Prop := ∀ s ∈ l, s.vmin ≤ s.vmax ∧ s.vmax < 2 ^ 64

lemma Fit.getD {l : List (Span ℕ)} (h : Fit l) (i : ℕ) :
    (l.getD i ⟨0, 0⟩).vmin ≤ (l.getD i ⟨0, 0⟩).vmax ∧ (l.getD i ⟨0, 0⟩).vmax < 2 ^ 64 := by
  rw [List.getD_eq_getElem?_getD]
  rcases hi : l[i]? with _ | s
  · exact ⟨le_rfl, by decide⟩
  · exact h s (List.mem_of_getElem? hi)

lemma Fit.set {l : List (Span ℕ)} (h : Fit l) {i : ℕ} {s : Span ℕ}
    (hs : s.vmin ≤ s.vmax ∧ s.vmax < 2 ^ 64) : Fit (l.set i s) := by
  intro t ht
  rcases List.mem_or_eq_of_mem_set ht with ht | rfl
  · exact h t ht
  · exact hs

lemma mergeStep_spec (h : Fit (spans table)) (index i : ℕ) :
    (spans (mergeStep (table, index) i).1, (mergeStep (table, index) i).2) =
        Compaction.step touches join ⟨0, 0⟩ (spans table, index) i ∧
      permissions (mergeStep (table, index) i).1 = permissions table ∧
      Fit (spans (mergeStep (table, index) i).1) := by
  have hcurr := h.getD i
  have hlast := h.getD index
  have hends : ∀ k, add64 (table.getD k noMemory).addr (table.getD k noMemory).size =
      ((spans table).getD k ⟨0, 0⟩).vmax := fun k => by
    have := (h.getD k).2
    rw [getD_spans] at this ⊢
    exact add64_eq this
  have hstart : ∀ k, (table.getD k noMemory).addr = ((spans table).getD k ⟨0, 0⟩).vmin :=
    fun k => by rw [getD_spans]
  unfold mergeStep Compaction.step
  dsimp only
  rw [hends, hends, hstart, hstart, touches]
  by_cases htouch : ((spans table).getD i ⟨0, 0⟩).vmin ≤ ((spans table).getD index ⟨0, 0⟩).vmax
  · have hmax : (if ((spans table).getD i ⟨0, 0⟩).vmax < ((spans table).getD index ⟨0, 0⟩).vmax then
        ((spans table).getD index ⟨0, 0⟩).vmax else ((spans table).getD i ⟨0, 0⟩).vmax) =
        max ((spans table).getD index ⟨0, 0⟩).vmax ((spans table).getD i ⟨0, 0⟩).vmax := by
      split_ifs <;> omega
    rw [if_pos htouch, decide_eq_true htouch, if_pos rfl, hmax, sub64_eq (by omega) (by omega)]
    dsimp only
    rw [spans_setRange, Nat.add_sub_cancel' (by omega), permissions_setRange]
    refine ⟨rfl, rfl, h.set ⟨?_, ?_⟩⟩
    · dsimp only
      omega
    · dsimp only
      omega
  · rw [if_neg htouch, decide_eq_false htouch, if_neg Bool.false_ne_true]
    dsimp only
    have hcurr' : (⟨((spans table).getD i ⟨0, 0⟩).vmin, ((spans table).getD i ⟨0, 0⟩).vmin +
        (table.getD i noMemory).size⟩ : Span ℕ) = (spans table).getD i ⟨0, 0⟩ := by
      rw [getD_spans]
    rw [spans_setRange, permissions_setRange, hcurr']
    exact ⟨rfl, rfl, h.set hcurr⟩

lemma foldl_mergeStep_spec (h : Fit (spans table)) (is : List ℕ) (index : ℕ) :
    (spans (is.foldl mergeStep (table, index)).1, (is.foldl mergeStep (table, index)).2) =
        is.foldl (Compaction.step touches join ⟨0, 0⟩) (spans table, index) ∧
      permissions (is.foldl mergeStep (table, index)).1 = permissions table := by
  induction is generalizing table index with
  | nil => exact ⟨rfl, rfl⟩
  | cons i is ih =>
    obtain ⟨hstep, hpermissions, hfit⟩ := mergeStep_spec h index i
    obtain ⟨hrest, hrest'⟩ := ih hfit (mergeStep (table, index) i).2
    rw [List.foldl_cons, List.foldl_cons, ← hstep]
    exact ⟨hrest, hrest'.trans hpermissions⟩

lemma clear_spec (table : List HostMemoryInfo) (index : ℕ) :
    spans (table.mapIdx fun i e => if index < i then { e with addr := 0, size := 0 } else e) =
        (spans table).take (index + 1) ++
          List.replicate (table.length - ((spans table).take (index + 1)).length) ⟨0, 0⟩ ∧
      permissions (table.mapIdx fun i e =>
        if index < i then { e with addr := 0, size := 0 } else e) = permissions table := by
  constructor
  · refine List.ext_getElem? fun k => ?_
    rw [List.length_take, length_spans]
    by_cases hk : k < table.length
    · rw [spans, List.getElem?_map, List.getElem?_mapIdx, List.getElem?_eq_getElem hk]
      by_cases hle : k < index + 1
      · rw [List.getElem?_append_left (by rw [List.length_take, length_spans]; omega),
          List.getElem?_take_of_lt hle, spans, List.getElem?_map, List.getElem?_eq_getElem hk,
          Option.map_some, if_neg (by omega)]
      · rw [List.getElem?_append_right (by rw [List.length_take, length_spans]; omega),
          List.getElem?_replicate, if_pos (by rw [List.length_take, length_spans]; omega),
          Option.map_some, if_pos (by omega)]
        rfl
    · rw [List.getElem?_eq_none (by rw [length_spans, List.length_mapIdx]; omega),
        List.getElem?_eq_none]
      rw [List.length_append, List.length_take, List.length_replicate, length_spans]
      omega
  · refine List.ext_getElem? fun k => ?_
    rw [permissions, permissions, List.getElem?_map, List.getElem?_map, List.getElem?_mapIdx]
    cases table[k]? with
    | none => rfl
    | some e =>
      rw [Option.map_some, Option.map_some, Option.map_some]
      split_ifs
      · rfl
      · rfl

lemma mergeMemory_spec (h : Fit (spans table)) :
    spans (mergeMemory table) = runs (spans table) ++
        List.replicate (table.length - (runs (spans table)).length) ⟨0, 0⟩ ∧
      permissions (mergeMemory table) = permissions table := by
  have hcompact := @Compaction.compact_eq_foldl _ touches join ⟨0, 0⟩ (spans table)
  change _ = runs (spans table) at hcompact
  rw [← hcompact, mergeMemory]
  rcases table with _ | ⟨e, table⟩
  · exact ⟨rfl, rfl⟩
  by_cases hlength : (e :: table).length ≤ 1
  · obtain rfl : table = [] := List.length_eq_zero_iff.mp (by simpa using hlength)
    exact ⟨rfl, rfl⟩
  · rw [if_neg hlength, Compaction.compact, if_neg (by simp [spans]), length_spans]
    obtain ⟨hspans, hpermissions⟩ :=
      foldl_mergeStep_spec h (List.range' 1 ((e :: table).length - 1)) 0
    have hlen := congrArg List.length hpermissions
    rw [permissions, permissions, List.length_map, List.length_map] at hlen
    obtain ⟨hclear, hclear'⟩ := clear_spec
      ((List.range' 1 ((e :: table).length - 1)).foldl mergeStep (e :: table, 0)).1
      ((List.range' 1 ((e :: table).length - 1)).foldl mergeStep (e :: table, 0)).2
    rw [← hspans]
    dsimp only
    rw [hlen] at hclear
    exact ⟨hclear, hclear'.trans hpermissions⟩

/-! ## The table that is left -/

/-- Slots in order: first the ranges, then the empty slots. -/
lemma split_of_before {l : List (Span ℕ)} (h : l.Pairwise Before) :
    l = l.filter (fun s => s.vmin ≠ 0) ++ l.filter fun s => s.vmin = 0 := by
  induction l with
  | nil => rfl
  | cons s l ih =>
    obtain ⟨hs, hl⟩ := List.pairwise_cons.mp h
    rw [List.filter_cons, List.filter_cons]
    by_cases hzero : s.vmin = 0
    · have hall : ∀ t ∈ l, t.vmin = 0 := fun t ht => (hs t ht).resolve_right fun hc => hc.1 hzero
      rw [if_neg (by simp [hzero]), if_pos (by simp [hzero]), List.filter_eq_nil_iff.mpr
        fun t ht => by simp [hall t ht], List.filter_eq_self.mpr fun t ht => by simp [hall t ht]]
      rfl
    · rw [if_pos (by simp [hzero]), if_neg (by simp [hzero]), List.cons_append, ← ih hl]

lemma spans_ranges (table : List HostMemoryInfo) :
    spans (ranges table) = (spans table).filter fun s => s.vmin ≠ 0 := by
  rw [spans, spans, ranges, List.filter_map]
  rfl

section Holes

variable {l b m : List (Span ℕ)}

/-- Empty slots that are merged behind the runs: they come to one range of the largest size, which
starts at zero when there are no runs and makes the last run longer otherwise. -/
lemma foldl_push_holes (h : IsRuns l b) (hm : ∀ s ∈ m, s.vmin = 0) :
    (b = [] ∧ m = [] ∧ m.foldl (Compaction.push touches join) b = []) ∨
      ∃ init lo hi, m.foldl (Compaction.push touches join) b = init ++ [⟨lo, hi⟩] ∧
        lo ≤ (l.map Span.vmax).foldl max 0 ∧
        hi = (m.map Span.vmax).foldl max ((l.map Span.vmax).foldl max 0) ∧
        (b = init ++ [⟨lo, (l.map Span.vmax).foldl max 0⟩] ∨ b = [] ∧ init = [] ∧ lo = 0) := by
  rcases b.eq_nil_or_concat' with rfl | ⟨init, t, rfl⟩
  · obtain rfl := h.nil rfl
    cases m with
    | nil => exact .inl ⟨rfl, rfl, rfl⟩
    | cons s m =>
      have hs := hm s List.mem_cons_self
      have hlow := @foldl_push_low _ _ s m [] fun u hu => by
        rw [hm u (List.mem_cons_of_mem _ hu)]
        exact Nat.zero_le _
      right
      refine ⟨[], 0, _, ?_, le_rfl, rfl, .inr ⟨rfl, rfl, rfl⟩⟩
      rw [List.foldl_cons, Compaction.push_nil]
      refine hlow.trans ?_
      rw [hs, List.map_cons, List.foldl_cons, List.map_nil, List.foldl_nil, Nat.zero_max]
  · obtain ⟨⟨u, hu, hut⟩, hlast⟩ := h.last t List.getLast?_concat
    have hmax : (l.map Span.vmax).foldl max 0 = t.vmax := by
      refine le_antisymm (foldl_max_le_iff.mpr ⟨Nat.zero_le _, fun x hx => ?_⟩) ?_
      · obtain ⟨w, hw, rfl⟩ := List.mem_map.mp hx
        exact hlast w hw
      · rw [← hut]
        exact (foldl_max_le_iff.mp le_rfl).2 _ (List.mem_map.mpr ⟨u, hu, rfl⟩)
    have hlow := @foldl_push_low _ _ t m init fun u hu => by
      rw [hm u hu]
      exact Nat.zero_le _
    rw [hmax]
    exact .inr ⟨init, t.vmin, _, hlow, h.apart.wf t (by simp), rfl, .inl rfl⟩

lemma merged_eq_of_le (h : IsRuns l b) (hm : ∀ s ∈ m, s.vmin = 0)
    (hle : ∀ s ∈ m, s.vmax ≤ (l.map Span.vmax).foldl max 0) {n : ℕ} (hn : m.length ≤ n) :
    m.foldl (Compaction.push touches join) b ++
        List.replicate (n - (m.foldl (Compaction.push touches join) b).length) ⟨0, 0⟩ =
      b ++ List.replicate (n - b.length) ⟨0, 0⟩ := by
  rcases foldl_push_holes h hm with ⟨rfl, rfl, -⟩ | ⟨init, lo, hi, hfold, hlo, hhi, hb⟩
  · rfl
  have hmax : hi = (l.map Span.vmax).foldl max 0 := by
    rw [hhi]
    refine le_antisymm (foldl_max_le_iff.mpr ⟨le_rfl, fun x hx => ?_⟩)
      (foldl_max_le_iff.mp le_rfl).1
    obtain ⟨s, hs, rfl⟩ := List.mem_map.mp hx
    exact hle s hs
  rcases hb with hb | ⟨rfl, rfl, rfl⟩
  · rw [hfold, hmax, hb]
  · obtain rfl := h.nil rfl
    cases m with
    | nil => cases hfold
    | cons s m =>
      rw [List.length_cons] at hn
      have hreplicate : n = n - 1 + 1 := by omega
      rw [hfold, hmax, List.nil_append, List.nil_append, List.length_singleton, List.length_nil,
        Nat.sub_zero, List.singleton_append]
      conv_rhs => rw [hreplicate, List.replicate_succ]
      rfl

/-- An empty slot with a large size leaves bytes that no range had. -/
lemma exists_of_lt (h : IsRuns l b) (hm : ∀ s ∈ m, s.vmin = 0) {s : Span ℕ} (hs : s ∈ m)
    (hlt : (l.map Span.vmax).foldl max 0 < s.vmax) :
    ∃ t ∈ m.foldl (Compaction.push touches join) b, (l.map Span.vmax).foldl max 0 ∈ points t := by
  rcases foldl_push_holes h hm with ⟨-, rfl, -⟩ | ⟨init, lo, hi, hfold, hlo, hhi, -⟩
  · cases hs
  · rw [hfold]
    refine ⟨_, List.mem_append_right _ List.mem_cons_self, hlo, hlt.trans_le ?_⟩
    rw [hhi]
    exact (foldl_max_le_iff.mp le_rfl).2 _ (List.mem_map.mpr ⟨s, hs, rfl⟩)

end Holes

abbrev lastEnd (table : List HostMemoryInfo) : ℕ :=
  ((spans (ranges table)).map Span.vmax).foldl max 0

/-- What sorting and merging leave: the runs of the ranges, of which the last one takes in the
sizes of the empty slots, and empty slots. -/
structure Left (table : List HostMemoryInfo) (b : List (Span ℕ)) (after : List HostMemoryInfo) :
    Prop where
  isRuns : ∃ l, l.Perm (spans (ranges table)) ∧ IsRuns l b
  permissions_eq : permissions after = permissions table
  spans_eq : (∀ e ∈ table, e.addr = 0 → e.size ≤ lastEnd table) →
    spans after = b ++ List.replicate (table.length - b.length) ⟨0, 0⟩
  holds : ∀ e ∈ table, e.addr = 0 → lastEnd table < e.size → ∃ f ∈ after, Holds f (lastEnd table)

lemma lastEnd_eq {l : List (Span ℕ)} (h : l.Perm (spans (ranges table))) :
    (l.map Span.vmax).foldl max 0 = lastEnd table :=
  (h.map Span.vmax).foldl_eq 0

lemma exists_runs {t : List HostMemoryInfo} (hspans : (spans t).Perm (spans table))
    (hbefore : (spans t).Pairwise Before) :
    ∃ l b m : List (Span ℕ), l.Perm (spans (ranges table)) ∧ IsRuns l b ∧
      m.Perm ((spans table).filter fun s => s.vmin = 0) ∧
      runs (spans t) = m.foldl (Compaction.push touches join) b := by
  have hsplit := split_of_before hbefore
  have hrs : ((spans t).filter fun s => s.vmin ≠ 0).Perm (spans (ranges table)) := by
    rw [spans_ranges]
    exact hspans.filter _
  have hrun : runs (spans t) = ((spans t).filter fun s => s.vmin = 0).foldl
      (Compaction.push touches join) (runs ((spans t).filter fun s => s.vmin ≠ 0)) := by
    conv_lhs => rw [hsplit, runs, List.foldl_append]
    rfl
  refine ⟨_, _, _, hrs, isRuns_runs (fun s hs => ?_) ?_, hspans.filter _, hrun⟩
  · obtain ⟨e, -, rfl⟩ := List.mem_map.mp (List.mem_filter.mp hs).1
    exact Nat.le_add_right _ _
  · rw [List.pairwise_filter]
    refine hbefore.imp fun {s t} hst _ ht => ?_
    exact (hst.resolve_left (by simpa using ht)).2

/-- **What sorting and merging leave.** -/
lemma left_of_before {t : List HostMemoryInfo} (hspans : (spans t).Perm (spans table))
    (hbefore : (spans t).Pairwise Before) (hpermissions : permissions t = permissions table)
    (hfit : Fit (spans table)) : ∃ b, Left table b (mergeMemory t) := by
  have hlength : t.length = table.length := by simpa using hspans.length_eq
  obtain ⟨hmerged, hmerged'⟩ := mergeMemory_spec fun s hs => hfit s (hspans.mem_iff.mp hs)
  obtain ⟨l, b, m, hl, hruns, hm, hrun⟩ := exists_runs hspans hbefore
  have hlow : ∀ s ∈ m, s.vmin = 0 := fun s hs => by
    have := (List.mem_filter.mp (hm.mem_iff.mp hs)).2
    simpa using this
  rw [hrun, hlength] at hmerged
  refine ⟨b, ⟨l, hl, hruns⟩, hmerged'.trans hpermissions, fun hsize => ?_, fun e he hzero hlt => ?_⟩
  · rw [hmerged]
    refine merged_eq_of_le hruns hlow (fun s hs => ?_) ?_
    · obtain ⟨hmem, -⟩ := List.mem_filter.mp (hm.mem_iff.mp hs)
      obtain ⟨e, he, rfl⟩ := List.mem_map.mp hmem
      have hzero := hlow _ hs
      have hsmall := hsize e he hzero
      rw [lastEnd_eq hl]
      dsimp only at hzero ⊢
      omega
    · rw [hm.length_eq]
      exact (List.length_filter_le _ _).trans_eq length_spans
  · have hmem : (⟨e.addr, e.addr + e.size⟩ : Span ℕ) ∈ m := by
      rw [hm.mem_iff, List.mem_filter]
      exact ⟨List.mem_map.mpr ⟨e, he, rfl⟩, by simpa using hzero⟩
    obtain ⟨u, hu, hpoint⟩ := exists_of_lt hruns hlow hmem (by
      rw [lastEnd_eq hl]
      dsimp only
      omega)
    rw [lastEnd_eq hl] at hpoint
    have hafter : u ∈ spans (mergeMemory t) := by
      rw [hmerged]
      exact List.mem_append_left _ hu
    obtain ⟨f, hf, rfl⟩ := List.mem_map.mp hafter
    exact ⟨f, hf, hpoint⟩

section Left

variable {b : List (Span ℕ)} {after : List HostMemoryInfo} {x : ℕ}

lemma eq_of_holds (h : after.Pairwise Parted) {e f : HostMemoryInfo} (he : e ∈ after)
    (hf : f ∈ after) (hex : Holds e x) (hfx : Holds f x) : e = f := by
  obtain ⟨i, hi, rfl⟩ := List.getElem_of_mem he
  obtain ⟨j, hj, rfl⟩ := List.getElem_of_mem hf
  have hparted := List.pairwise_iff_getElem.mp h
  rcases lt_trichotomy i j with hij | rfl | hij
  · exact absurd hfx ((hparted i j hi hj hij).not_holds hex)
  · rfl
  · exact absurd hex ((hparted j i hj hi hij).not_holds hfx)

variable (h : Left table b after) (hsize : ∀ e ∈ table, e.addr = 0 → e.size ≤ lastEnd table)

include h hsize

lemma Left.parted : after.Pairwise Parted := by
  obtain ⟨l, -, hruns⟩ := h.isRuns
  have hspans : (spans after).Pairwise fun s t => (t.vmin = 0 ∧ t.vmax = 0) ∨ s.vmax ≤ t.vmin := by
    rw [h.spans_eq hsize, List.pairwise_append]
    refine ⟨hruns.apart.ord.imp fun {s t} hst => .inr hst.le, ?_, fun s _ t ht => .inl ?_⟩
    · exact List.pairwise_replicate.mpr (.inr (.inl ⟨rfl, rfl⟩))
    · rw [List.eq_of_mem_replicate ht]
      exact ⟨rfl, rfl⟩
  refine (List.pairwise_map.mp hspans).imp fun {e f} hef => hef.imp_left fun hc => ⟨hc.1, ?_⟩
  have := hc.2
  dsimp only at this
  omega

lemma Left.slot_of_range {r : HostMemoryInfo} (hr : r ∈ ranges table) (hx : Holds r x) :
    ∃ e, after[place (spans (ranges table)) r.addr]? = some e ∧ Holds e x := by
  obtain ⟨l, hl, hruns⟩ := h.isRuns
  obtain ⟨t, ht, hlo, hhi⟩ := hruns.within _ (hl.mem_iff.mpr (List.mem_map.mpr ⟨r, hr, rfl⟩))
  obtain ⟨before, rest, rfl⟩ := List.append_of_mem ht
  have hstart : r.addr ∈ points t := ⟨hlo, (hx.1.trans_lt hx.2).trans_le hhi⟩
  have hplace := hruns.place_eq hstart
  rw [place_perm hl] at hplace
  have hget : (spans after)[before.length]? = some t := by
    rw [h.spans_eq hsize]
    simp
  rw [spans, List.getElem?_map] at hget
  obtain ⟨e, he, rfl⟩ := Option.map_eq_some_iff.mp hget
  rw [hplace]
  exact ⟨e, he, hlo.trans hx.1, hx.2.trans_le hhi⟩

lemma Left.range_of_slot {e : HostMemoryInfo} (he : e ∈ after) (hx : Holds e x) :
    ∃ r ∈ ranges table, Holds r x := by
  obtain ⟨l, hl, hruns⟩ := h.isRuns
  have hmem : (⟨e.addr, e.addr + e.size⟩ : Span ℕ) ∈ spans after := List.mem_map.mpr ⟨e, he, rfl⟩
  rw [h.spans_eq hsize] at hmem
  rcases List.mem_append.mp hmem with hmem | hmem
  · have hcover : x ∈ cover b := ⟨_, hmem, hx⟩
    rw [hruns.cover_eq, cover_perm hl] at hcover
    obtain ⟨s, hs, hsx⟩ := hcover
    obtain ⟨r, hr, rfl⟩ := List.mem_map.mp hs
    exact ⟨r, hr, hsx⟩
  · have hempty := List.eq_of_mem_replicate hmem
    obtain ⟨hlo, hhi⟩ := Span.mk.inj hempty
    obtain ⟨-, hlt⟩ := hx
    omega

omit hsize in
lemma Left.permission_eq {k : ℕ} {e : HostMemoryInfo} (he : after[k]? = some e) :
    (table[k]?).map HostMemoryInfo.permission = some e.permission := by
  rw [← List.getElem?_map]
  change (permissions table)[k]? = _
  rw [← h.permissions_eq, permissions, List.getElem?_map, he]
  rfl

end Left

/-- The table is right exactly when the permissions are in their places. -/
lemma Left.tableRight_iff {b : List (Span ℕ)} {after : List HostMemoryInfo}
    (h : Left table b after) : TableRight table after ↔ SlotsAgree table := by
  constructor
  · intro hright
    have hsize : ∀ e ∈ table, e.addr = 0 → e.size ≤ lastEnd table := by
      intro e he hzero
      by_contra hlt
      rw [not_le] at hlt
      obtain ⟨r, hr, -, hend⟩ := (hright.covered _).mp (h.holds e he hzero hlt)
      refine absurd hend (not_lt.mpr ((foldl_max_le_iff.mp (le_refl (lastEnd table))).2 _ ?_))
      exact List.mem_map.mpr ⟨_, List.mem_map.mpr ⟨r, hr, rfl⟩, rfl⟩
    refine ⟨fun r hr hpos => ?_, hsize⟩
    have hx : Holds r r.addr := ⟨le_rfl, by omega⟩
    obtain ⟨e, he, hex⟩ := h.slot_of_range hsize hr hx
    obtain ⟨f, hf, hfx, hpermission⟩ := (hright.permitted r.addr r.permission).mpr ⟨r, hr, hx, rfl⟩
    obtain rfl := eq_of_holds hright.disjoint hf (List.mem_of_getElem? he) hfx hex
    rw [h.permission_eq he, hpermission]
  · rintro ⟨hpermission, hsize⟩
    refine tableRight_of (h.parted hsize) fun x permission => ?_
    constructor
    · rintro ⟨e, he, hex, rfl⟩
      obtain ⟨r, hr, hrx⟩ := h.range_of_slot hsize he hex
      obtain ⟨f, hf, hfx⟩ := h.slot_of_range hsize hr hrx
      obtain rfl := eq_of_holds (h.parted hsize) (List.mem_of_getElem? hf) he hfx hex
      have hslot := hpermission r hr (by
        obtain ⟨hlo, hhi⟩ := hrx
        omega)
      rw [h.permission_eq hf, Option.some_inj] at hslot
      exact ⟨r, hr, hrx, hslot.symm⟩
    · rintro ⟨r, hr, hrx, rfl⟩
      obtain ⟨f, hf, hfx⟩ := h.slot_of_range hsize hr hrx
      have hslot := hpermission r hr (by
        obtain ⟨hlo, hhi⟩ := hrx
        omega)
      rw [h.permission_eq hf, Option.some_inj] at hslot
      exact ⟨f, List.mem_of_getElem? hf, hfx, hslot⟩

lemma filled_written (params : List ℕ) (h : Filled table) :
    (writeParaBaseAddr table params).2 ≤ (spans (writeParaBaseAddr table params).1).length ∧
      ((spans (writeParaBaseAddr table params).1).take
        (writeParaBaseAddr table params).2).Pairwise Before := by
  unfold writeParaBaseAddr
  unfold Filled at h
  have hnonzero : ∀ i (hi : i < table.length), i < (table.findIdx fun e => e.addr == 0) →
      table[i].addr ≠ 0 := by
    intro i hi hlt hzero
    have := List.not_of_lt_findIdx hlt
    simp [hzero] at this
  dsimp only
  generalize hn : (table.findIdx fun e => e.addr == 0) = n at *
  have hle : n ≤ table.length := hn ▸ List.findIdx_le_length
  rw [length_spans, List.length_mapIdx]
  refine ⟨hle, ?_⟩
  have htake : (spans (table.mapIdx fun i e =>
      if n ≤ i then { e with addr := params.getD (i - n) e.addr } else e)).take n =
      spans (table.take n) := by
    refine List.ext_getElem? fun k => ?_
    by_cases hk : k < n
    · rw [List.getElem?_take_of_lt hk, spans, spans, List.getElem?_map, List.getElem?_mapIdx,
        List.getElem?_map, List.getElem?_take_of_lt hk]
      cases table[k]? with
      | none => rfl
      | some e => rw [Option.map_some, if_neg (not_le.mpr hk)]
    · rw [List.getElem?_take_eq_none (not_lt.mp hk), spans, List.getElem?_map,
        List.getElem?_take_eq_none (not_lt.mp hk), Option.map_none]
  rw [htake, spans, List.pairwise_map]
  refine h.imp_of_mem fun {e f} he _ hef => .inr ⟨?_, (Nat.le_add_right _ _).trans hef⟩
  obtain ⟨i, hi, rfl⟩ := List.getElem_of_mem he
  rw [List.getElem_take]
  rw [List.length_take] at hi
  exact hnonzero i (by omega) (by omega)

end Slots

end OnlineCheck

open OnlineCheck in
/-- **Sorting and merging the host memory is right exactly when the permissions are in their
places.** After the addresses of the parameters have been written behind a table whose filled slots
are in order, the table is sorted and merged so that it holds the same bytes with the same
permissions in disjoint slots, and accesses are checked against them, if and only if every range has
the permission of the slot that its run is moved to, and no empty slot has a size beyond the end of
the ranges. -/
theorem processParaBaseAddr_right_iff (table : List HostMemoryInfo) (params : List ℕ)
    (hfilled : Filled table)
    (hfit : ∀ e ∈ (writeParaBaseAddr table params).1, e.addr + e.size < 2 ^ 64) :
    TableRight (writeParaBaseAddr table params).1 (processParaBaseAddr table params) ↔
      SlotsAgree (writeParaBaseAddr table params).1 := by
  obtain ⟨hlength, hprefix⟩ := filled_written params hfilled
  obtain ⟨hperm, hbefore⟩ :=
    InPlaceInsertion.sortFrom_spec ⟨0, 0⟩ before_total before_trans hlength hprefix
  obtain ⟨hspans, hpermissions⟩ := @insertionSortMemory_spec (writeParaBaseAddr table params).1
    (writeParaBaseAddr table params).2
  rw [← hspans] at hperm hbefore
  obtain ⟨b, hleft⟩ := left_of_before hperm hbefore hpermissions fun s hs => by
    obtain ⟨e, he, rfl⟩ := List.mem_map.mp hs
    exact ⟨Nat.le_add_right _ _, hfit e he⟩
  exact hleft.tableRight_iff

open OnlineCheck in
/-- A parameter below an allocation, with the permission of the allocation. -/
theorem processParaBaseAddr_right_iff_read :
    TableRight [⟨16, 8, 1⟩, ⟨8, 4, 1⟩] (processParaBaseAddr [⟨16, 8, 1⟩, ⟨0, 4, 1⟩] [8]) :=
  (processParaBaseAddr_right_iff [⟨16, 8, 1⟩, ⟨0, 4, 1⟩] [8] (by unfold Filled; decide)
    (by decide)).mpr ⟨by decide, by decide⟩

open OnlineCheck in
/-- A parameter below an allocation that is only read, with both permissions: they are exchanged. -/
theorem processParaBaseAddr_exchanged :
    ¬ ∀ table params, Filled table →
      (∀ e ∈ (writeParaBaseAddr table params).1, e.addr + e.size < 2 ^ 64) →
      TableRight (writeParaBaseAddr table params).1 (processParaBaseAddr table params) := by
  intro hall
  have hright := hall [⟨16, 8, 1⟩, ⟨0, 4, 3⟩] [8] (by unfold Filled; decide) (by decide)
  have hwritable := (hright.permitted 16 3).mp (by decide)
  revert hwritable
  decide

end MsSanitizer
