import MsSanitizer.AsanAction

/-!
# Heaps and regions inside freed blocks

When a block of the runtime is freed, the mstx heaps that lie in it go with it, and the
regions of these heaps. `DeleteMstxInfo` walks the heaps and returns at the first one that it
deletes. The regions are kept by the address of their heap, or under zero when they have none.
-/

namespace MsSanitizer.MstxHeaps

open MsSanitizer.RecordDefs MsSanitizer.Words MsSanitizer.HeapBlocks
open MsSanitizer.HeapBlocks.HeapBlockManager MsSanitizer.AsanAction

def apply (m : HeapBlockManager) (r : HeapRecord) : HeapBlockManager :=
  match r.action with
  | .malloc => (m.addHeapBlock r.record).2
  | .free => (m.freeHeapBlock r.record).2.2

def run (l : List HeapRecord) : HeapBlockManager := l.foldl apply {}

lemma run_concat (l : List HeapRecord) (r : HeapRecord) : run (l ++ [r]) = apply (run l) r := by
  simp [run]

def Inside (addr size : ℕ) (heap : HeapBlock) : Prop :=
  addr ≤ heap.addr ∧ heap.addr + heap.len ≤ addr + size

/-- What the maps of the block manager keep: the values are 64-bit words, a heap is kept by
its address, and the regions under an address other than zero belong to a heap. -/
structure Inv (m : HeapBlockManager) : Prop where
  blockLen : ∀ {a : ℕ} {b : HeapBlock}, m.heapBlocks[a]? = some b → b.len < 2 ^ 64
  heapAddr : ∀ {a : ℕ} {h : HeapBlock}, m.mstxHeapBlocks[a]? = some h → h.addr < 2 ^ 64
  regionKey : ∀ {a : ℕ}, a ≠ 0 → m.mstxRegionBlocks[a]? ≠ none → m.mstxHeapBlocks[a]? ≠ none

lemma isAddrInRange_iff {heap : HeapBlock} {addr size : ℕ} (hh : heap.addr < 2 ^ 64)
    (hs : size < 2 ^ 64) : isAddrInRange heap addr size = true ↔ Inside addr size heap := by
  unfold isAddrInRange Inside
  simp only [Bool.and_eq_true, decide_eq_true_eq]
  constructor
  · rintro ⟨⟨ha, hl⟩, hle⟩
    rw [sub64_eq ha hh, sub64_eq hl hs] at hle
    omega
  · rintro ⟨ha, hend⟩
    refine ⟨⟨ha, by omega⟩, ?_⟩
    rw [sub64_eq ha hh, sub64_eq (by omega) hs]
    omega

/-! ### The maps after one operation -/

/-- The two maps that the manager keeps for mstx. -/
structure SameMstx (m m' : HeapBlockManager) : Prop where
  heaps : m'.mstxHeapBlocks = m.mstxHeapBlocks
  regions : m'.mstxRegionBlocks = m.mstxRegionBlocks

lemma getElem?_addIfNew {blocks : Std.TreeMap ℕ HeapBlock} {record : MemOpRecord} {a : ℕ}
    {b : HeapBlock} (h : (addIfNew blocks record)[a]? = some b) :
    b = .ofRecord record ∨ blocks[a]? = some b := by
  unfold addIfNew at h
  cases hd : blocks[record.dstAddr]? with
  | some _ =>
    rw [hd] at h
    exact Or.inr h
  | none =>
    rw [hd] at h
    dsimp only at h
    rw [Std.TreeMap.getElem?_insert] at h
    split_ifs at h with heq
    · exact Or.inl (Option.some.inj h).symm
    · exact Or.inr h

lemma getElem?_insert_of_ne_none {β : Type} {t : Std.TreeMap ℕ β} {k a : ℕ} {v : β}
    (h : (t.insert k v)[a]? ≠ none) : k = a ∨ t[a]? ≠ none := by
  rw [Std.TreeMap.getElem?_insert] at h
  split_ifs at h with heq
  · exact Or.inl (Nat.compare_eq_eq.mp heq)
  · exact Or.inr h

lemma getElem?_insert_ne_none {β : Type} {t : Std.TreeMap ℕ β} {a : ℕ} (k : ℕ) (v : β)
    (h : t[a]? ≠ none) : (t.insert k v)[a]? ≠ none := by
  rw [Std.TreeMap.getElem?_insert]
  split_ifs with heq
  · exact fun hc => (by cases hc)
  · exact h

lemma getElem?_of_erase {β : Type} {t : Std.TreeMap ℕ β} {k a : ℕ} {v : β}
    (h : (t.erase k)[a]? = some v) : k ≠ a ∧ t[a]? = some v := by
  rw [Std.TreeMap.getElem?_erase] at h
  split_ifs at h with heq
  exact ⟨fun hka => heq (Nat.compare_eq_eq.mpr hka), h⟩

lemma getElem?_erase_of_ne {β : Type} (t : Std.TreeMap ℕ β) {k a : ℕ} (h : k ≠ a) :
    (t.erase k)[a]? = t[a]? := by
  rw [Std.TreeMap.getElem?_erase, if_neg fun heq => h (Nat.compare_eq_eq.mp heq)]

lemma Inv.eraseHeap {m m' : HeapBlockManager} (h : Inv m) (k : ℕ)
    (hb : ∀ {a : ℕ} {b : HeapBlock}, m'.heapBlocks[a]? = some b → m.heapBlocks[a]? = some b)
    (hh : m'.mstxHeapBlocks = m.mstxHeapBlocks.erase k)
    (hr : m'.mstxRegionBlocks = m.mstxRegionBlocks.erase k) : Inv m' := by
  refine ⟨fun hab => h.blockLen (hb hab), fun hah => ?_, fun ha hreg => ?_⟩
  · rw [hh] at hah
    exact h.heapAddr (getElem?_of_erase hah).2
  · obtain ⟨v, hv⟩ := Option.ne_none_iff_exists'.mp hreg
    rw [hr] at hv
    obtain ⟨hka, hreg⟩ := getElem?_of_erase hv
    rw [hh, getElem?_erase_of_ne _ hka]
    exact h.regionKey ha (by rw [hreg]; simp)

lemma Inv.blocks {m m' : HeapBlockManager} (h : Inv m) (hs : SameMstx m m')
    (hb : ∀ {a : ℕ} {b : HeapBlock}, m'.heapBlocks[a]? = some b →
      b.len < 2 ^ 64 ∨ m.heapBlocks[a]? = some b) : Inv m' := by
  refine ⟨fun hab => ?_, fun hah => ?_, fun ha hreg => ?_⟩
  · rcases hb hab with hl | hab
    · exact hl
    · exact h.blockLen hab
  · rw [hs.heaps] at hah
    exact h.heapAddr hah
  · rw [hs.regions] at hreg
    rw [hs.heaps]
    exact h.regionKey ha hreg

lemma Inv.addRtDfx {m : HeapBlockManager} (h : Inv m) (r : HeapRecord) :
    Inv (m.addRtDfxBlock r.record).2 := by
  unfold addRtDfxBlock
  split_ifs
  · exact h.blocks ⟨rfl, rfl⟩ fun hb => Or.inr hb
  · refine h.blocks ⟨rfl, rfl⟩ fun hb => ?_
    rcases getElem?_addIfNew hb with rfl | hb
    · exact Or.inl r.size_lt
    · exact Or.inr hb

lemma Inv.addByPass {m : HeapBlockManager} (h : Inv m) (r : HeapRecord) :
    Inv (m.addByPassBlock r.record).2 := by
  refine h.blocks ⟨rfl, rfl⟩ fun hb => ?_
  rcases getElem?_addIfNew hb with rfl | hb
  · exact Or.inl r.size_lt
  · exact Or.inr hb

lemma Inv.insertHeap {m : HeapBlockManager} (h : Inv m) {k : ℕ} {heap : HeapBlock}
    (hl : heap.addr < 2 ^ 64) :
    Inv { m with mstxHeapBlocks := m.mstxHeapBlocks.insert k heap } := by
  refine ⟨h.blockLen, fun {a x} hx => ?_, fun ha hreg => ?_⟩
  · dsimp only at hx
    rw [Std.TreeMap.getElem?_insert] at hx
    split_ifs at hx with heq
    · rw [← Option.some.inj hx]
      exact hl
    · exact h.heapAddr hx
  · exact getElem?_insert_ne_none _ _ (h.regionKey ha hreg)

lemma Inv.addMstxHeap {m : HeapBlockManager} (h : Inv m) (r : HeapRecord) :
    Inv (m.addMstxHeapBlock r.record).2 := by
  unfold addMstxHeapBlock
  cases m.mstxHeapBlocks[r.record.dstAddr]? with
  | some _ => exact h
  | none =>
    dsimp only
    split_ifs
    · exact h.insertHeap r.addr_lt
    · exact h.insertHeap r.addr_lt

lemma Inv.addMstxRegion {m : HeapBlockManager} (h : Inv m) (r : HeapRecord) :
    Inv (m.addMstxRegionBlock r.record).2 := by
  unfold addMstxRegionBlock
  dsimp only
  split_ifs with hroot
  · exact h
  · refine ⟨h.blockLen, h.heapAddr, fun ha hreg => ?_⟩
    rcases getElem?_insert_of_ne_none hreg with rfl | hreg
    · intro hnone
      exact hroot ⟨ha, hnone⟩
    · exact h.regionKey ha hreg

lemma Inv.add {m : HeapBlockManager} (h : Inv m) (r : HeapRecord) :
    Inv (m.addHeapBlock r.record).2 := by
  unfold HeapBlockManager.addHeapBlock
  cases getHeapType r.record with
  | rt => exact h.addRtDfx r
  | dfx => exact h.addRtDfx r
  | bypass => exact h.addByPass r
  | mstxHeap => exact h.addMstxHeap r
  | mstxRegion => exact h.addMstxRegion r
  | invalid => exact h

lemma Inv.deleteMstx {m : HeapBlockManager} (h : Inv m) (record : MemOpRecord) (size : ℕ) :
    Inv (m.deleteMstxInfo record size) := by
  unfold deleteMstxInfo
  split_ifs
  · cases m.mstxHeapBlocks.toList.find? _ with
    | none => exact h
    | some it => exact h.eraseHeap it.1 (fun hb => hb) rfl rfl
  · exact h

lemma Inv.freeRtDfx {m : HeapBlockManager} (h : Inv m) (record : MemOpRecord) :
    Inv (m.freeRtDfxBlock record).2.2 := by
  unfold freeRtDfxBlock
  split_ifs
  · cases m.heapBlocksForDfx[record.dstAddr]? with
    | none => exact h
    | some block =>
      exact (h.deleteMstx record block.len).blocks ⟨rfl, rfl⟩ fun hb => Or.inr hb
  · cases m.heapBlocks[record.dstAddr]? with
    | none => exact h
    | some block =>
      exact (h.deleteMstx record block.len).blocks ⟨rfl, rfl⟩ fun hb =>
        Or.inr (getElem?_of_erase hb).2

lemma Inv.freeByPass {m : HeapBlockManager} (h : Inv m) (record : MemOpRecord) :
    Inv (m.freeByPassBlock record).2.2 := by
  unfold freeByPassBlock
  cases m.heapBlocks[record.dstAddr]? with
  | none => exact h
  | some block =>
    cases m.heapBlocksForDfx[record.dstAddr]? with
    | none => exact h
    | some _ => exact h.blocks ⟨rfl, rfl⟩ fun hb => Or.inr (getElem?_of_erase hb).2

lemma Inv.freeMstxHeap {m : HeapBlockManager} (h : Inv m) (record : MemOpRecord) :
    Inv (m.freeMstxHeapBlock record).2.2 := by
  unfold freeMstxHeapBlock
  cases m.mstxHeapBlocks[record.dstAddr]? with
  | none => exact h
  | some block => exact h.eraseHeap record.dstAddr (fun hb => hb) rfl rfl

lemma Inv.freeMstxRegion {m : HeapBlockManager} (h : Inv m) (record : MemOpRecord) :
    Inv (m.freeMstxRegionBlock record).2.2 := by
  unfold freeMstxRegionBlock
  dsimp only
  cases hf : m.mstxRegionBlocks.toList.find? _ with
  | none => exact h
  | some p =>
    obtain ⟨root, regions⟩ := p
    refine ⟨h.blockLen, h.heapAddr, fun ha hreg => ?_⟩
    rcases getElem?_insert_of_ne_none hreg with rfl | hreg
    · have hmem := Std.TreeMap.mem_toList_iff_getElem?_eq_some.mp (List.mem_of_find?_eq_some hf)
      exact h.regionKey ha (by rw [hmem]; simp)
    · exact h.regionKey ha hreg

lemma Inv.free {m : HeapBlockManager} (h : Inv m) (record : MemOpRecord) :
    Inv (m.freeHeapBlock record).2.2 := by
  unfold HeapBlockManager.freeHeapBlock
  cases getHeapType record with
  | rt => exact h.freeRtDfx record
  | dfx => exact h.freeRtDfx record
  | bypass => exact h.freeByPass record
  | mstxHeap => exact h.freeMstxHeap record
  | mstxRegion => exact h.freeMstxRegion record
  | invalid => exact h

lemma inv_run (l : List HeapRecord) : Inv (run l) := by
  induction l using List.reverseRecOn with
  | nil => exact ⟨fun h => by simp [run] at h, fun h => by simp [run] at h,
      fun _ h => by simp [run] at h⟩
  | append_singleton l r ih =>
    rw [run_concat, apply]
    cases r.action with
    | malloc => exact ih.add r
    | free => exact ih.free r.record

/-! ### Freeing a block -/

/-- Of the heaps and regions before, those of the heaps in the range are gone and all others
are as they were. -/
def DeletesInside (addr size : ℕ) (m m' : HeapBlockManager) : Prop :=
  (∀ (a : ℕ) (h : HeapBlock), m'.mstxHeapBlocks[a]? = some h → ¬ Inside addr size h) ∧
  (∀ (a : ℕ) (h : HeapBlock), m.mstxHeapBlocks[a]? = some h → Inside addr size h →
    m'.mstxRegionBlocks[a]? = none) ∧
  ∀ a : ℕ, (∀ h : HeapBlock, m.mstxHeapBlocks[a]? = some h → ¬ Inside addr size h) →
    m'.mstxHeapBlocks[a]? = m.mstxHeapBlocks[a]? ∧
      m'.mstxRegionBlocks[a]? = m.mstxRegionBlocks[a]?

def AtMostOneInside (addr size : ℕ) (m : HeapBlockManager) : Prop :=
  ∀ (a b : ℕ) (h h' : HeapBlock), m.mstxHeapBlocks[a]? = some h →
    m.mstxHeapBlocks[b]? = some h' → Inside addr size h → Inside addr size h' → a = b

/-- `DeleteMstxInfo` finds nothing in the range, or erases the first heap that it finds. -/
lemma deleteMstxInfo_cases {m : HeapBlockManager} (hm : Inv m) {record : MemOpRecord} {size : ℕ}
    (hreal : isRealMalloc record.infoSrc = true) (hs : size < 2 ^ 64) :
    ((∀ (a : ℕ) (h : HeapBlock), m.mstxHeapBlocks[a]? = some h → ¬ Inside record.dstAddr size h) ∧
      m.deleteMstxInfo record size = m) ∨
    ∃ (k : ℕ) (h : HeapBlock), m.mstxHeapBlocks[k]? = some h ∧ Inside record.dstAddr size h ∧
      (m.deleteMstxInfo record size).mstxHeapBlocks = m.mstxHeapBlocks.erase k ∧
      (m.deleteMstxInfo record size).mstxRegionBlocks = m.mstxRegionBlocks.erase k := by
  unfold deleteMstxInfo
  rw [if_pos hreal]
  cases hf : m.mstxHeapBlocks.toList.find? _ with
  | none =>
    refine Or.inl ⟨fun a h hah hin => ?_, rfl⟩
    have hmem := Std.TreeMap.mem_toList_iff_getElem?_eq_some.mpr hah
    exact List.find?_eq_none.mp hf _ hmem ((isAddrInRange_iff (hm.heapAddr hah) hs).mpr hin)
  | some it =>
    have hmem := Std.TreeMap.mem_toList_iff_getElem?_eq_some.mp (List.mem_of_find?_eq_some hf)
    have hin := List.find?_some hf
    exact Or.inr ⟨it.1, it.2, hmem, (isAddrInRange_iff (hm.heapAddr hmem) hs).mp hin, rfl, rfl⟩

/-- Erasing one heap of the range deletes all of them when there is no other. -/
lemma deletesInside_erase_iff {m m' : HeapBlockManager} {addr size k : ℕ} {h : HeapBlock}
    (hk : m.mstxHeapBlocks[k]? = some h) (hin : Inside addr size h)
    (hh : m'.mstxHeapBlocks = m.mstxHeapBlocks.erase k)
    (hr : m'.mstxRegionBlocks = m.mstxRegionBlocks.erase k) :
    DeletesInside addr size m m' ↔ AtMostOneInside addr size m := by
  constructor
  · rintro ⟨hgone, -, -⟩
    -- a heap in the range that was not erased would still be there
    have huniq : ∀ (a : ℕ) (x : HeapBlock), m.mstxHeapBlocks[a]? = some x →
        Inside addr size x → k = a := by
      intro a x hax hx
      by_contra hne
      refine hgone a x ?_ hx
      rw [hh, getElem?_erase_of_ne _ hne, hax]
    intro a b x y hax hby hx hy
    exact (huniq a x hax hx).symm.trans (huniq b y hby hy)
  · intro hone
    refine ⟨fun a x hax hx => ?_, fun a x hax hx => ?_, fun a hout => ?_⟩
    · rw [hh] at hax
      obtain ⟨hne, hax⟩ := getElem?_of_erase hax
      exact hne (hone k a h x hk hax hin hx)
    · rw [hr, hone a k x h hax hk hx hin]
      simp
    · have hne : k ≠ a := by
        rintro rfl
        exact hout h hk hin
      rw [hh, hr, getElem?_erase_of_ne _ hne, getElem?_erase_of_ne _ hne]
      exact ⟨rfl, rfl⟩

lemma freeHeapBlock_mstx {m : HeapBlockManager} {record : MemOpRecord} {block : HeapBlock}
    (hreal : isRealMalloc record.infoSrc = true) (hb : m.heapBlocks[record.dstAddr]? = some block) :
    SameMstx (m.deleteMstxInfo record block.len) (m.freeHeapBlock record).2.2 := by
  simp only [HeapBlockManager.freeHeapBlock, getHeapType_of_isRealMalloc hreal, freeRtDfxBlock,
    isDfx_of_isRealMalloc hreal, Bool.false_eq_true, if_false, hb]
  exact ⟨rfl, rfl⟩

/-- **Freeing a block of the runtime deletes the heaps in it exactly when there is at most
one.** In every run the regions under an address other than zero belong to a registered heap;
and a FREE of a live block of the runtime, the ACL or the HAL deletes all heaps that lie in
the freed range with their regions, and nothing else, if and only if no two heaps lie in it. -/
theorem free_deletes_iff (l : List HeapRecord) :
    (∀ a : ℕ, a ≠ 0 → (run l).mstxRegionBlocks[a]? ≠ none →
      (run l).mstxHeapBlocks[a]? ≠ none) ∧
    ∀ (r : HeapRecord) (block : HeapBlock), r.action = .free →
      isRealMalloc r.record.infoSrc = true →
      (run l).heapBlocks[r.record.dstAddr]? = some block →
      (DeletesInside r.record.dstAddr block.len (run l) (run (l ++ [r])) ↔
        AtMostOneInside r.record.dstAddr block.len (run l)) := by
  refine ⟨fun a ha hreg => (inv_run l).regionKey ha hreg, fun r block hact hreal hb => ?_⟩
  have hsame := freeHeapBlock_mstx hreal hb
  have hm := inv_run l
  rw [run_concat, apply, hact]
  dsimp only
  rcases deleteMstxInfo_cases hm hreal (hm.blockLen hb) with ⟨hnone, heq⟩ | ⟨k, h, hk, hin, hh, hr⟩
  · rw [heq] at hsame
    constructor
    · intro _ a b h h' hah _ hin _
      exact absurd hin (hnone a h hah)
    · intro _
      refine ⟨fun a h hah => ?_, fun a h hah hin => absurd hin (hnone a h hah), fun a _ => ?_⟩
      · rw [hsame.heaps] at hah
        exact hnone a h hah
      · rw [hsame.heaps, hsame.regions]
        exact ⟨rfl, rfl⟩
  · exact deletesInside_erase_iff hk hin (hsame.heaps.trans hh) (hsame.regions.trans hr)

/-- A record with the fields that the block manager reads. -/
def heapRecord (action : HeapAction) (infoSrc : MemInfoSrc) (addr size : ℕ)
    (ha : addr < 2 ^ 64) (hs : size < 2 ^ 64) : HeapRecord where
  action := action
  record :=
    { type := action.type, dstAddr := addr, memSize := size, dstSpace := .gm, infoSrc := infoSrc }
  type_eq := rfl
  addr_lt := ha
  size_lt := hs

def oneHeap : List HeapRecord :=
  [heapRecord .malloc .rt 64 64 (by decide) (by decide),
    heapRecord .malloc .mstxHeap 64 16 (by decide) (by decide)]

def twoHeaps : List HeapRecord :=
  oneHeap ++ [heapRecord .malloc .mstxHeap 80 16 (by decide) (by decide)]

def freeBlock64 : HeapRecord := heapRecord .free .rt 64 0 (by decide) (by decide)

theorem free_deletes_iff_one :
    DeletesInside 64 64 (run oneHeap) (run (oneHeap ++ [freeBlock64])) := by
  have hb : (run oneHeap).heapBlocks[64]? = some { addr := 64, len := 64 } := by decide +kernel
  refine ((free_deletes_iff oneHeap).2 freeBlock64 _ rfl rfl hb).mpr ?_
  have hheaps : (run oneHeap).mstxHeapBlocks =
      (∅ : Std.TreeMap ℕ HeapBlock).insert 64 { addr := 64, len := 16 } := rfl
  intro a b h h' ha hb' _ _
  rw [hheaps] at ha hb'
  have hne : ∀ {c : ℕ} {x : HeapBlock}, ((∅ : Std.TreeMap ℕ HeapBlock).insert 64
      { addr := 64, len := 16 })[c]? = some x → 64 = c := by
    intro c x hc
    rcases @getElem?_insert_of_ne_none _ ∅ 64 c _ (by rw [hc]; simp) with h64 | h64
    · exact h64
    · simp at h64
  exact (hne ha).symm.trans (hne hb')

/-- The second heap outlives the block. -/
theorem second_heap_stays :
    (run twoHeaps).heapBlocks[64]? = some { addr := 64, len := 64 } ∧
      ¬ DeletesInside 64 64 (run twoHeaps) (run (twoHeaps ++ [freeBlock64])) := by
  have hb : (run twoHeaps).heapBlocks[64]? = some { addr := 64, len := 64 } := by decide +kernel
  have hstays : (run (twoHeaps ++ [freeBlock64])).mstxHeapBlocks[80]? =
      some { addr := 80, len := 16 } := by decide +kernel
  refine ⟨hb, fun h => h.1 80 _ hstays ?_⟩
  unfold Inside
  decide

end MsSanitizer.MstxHeaps
