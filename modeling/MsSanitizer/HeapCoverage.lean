import MsSanitizer.AsanAction
import MsSanitizer.BoundsUpdate

/-!
The table of the runtime against the live heap blocks.

Every check of an access to global memory asks the table, and every leak is read off the
blocks. The two should agree byte by byte after every record. They do as long as no record
is admitted by one and not by the other.
-/

namespace MsSanitizer.HeapCoverage

open MsSanitizer.RecordDefs MsSanitizer.Segs MsSanitizer.Words MsSanitizer.Bounds
open MsSanitizer.BoundsUpdate MsSanitizer.HeapBlocks MsSanitizer.HeapBlocks.HeapBlockManager
open MsSanitizer.Shadow MsSanitizer.AsanAction MsSanitizer.AsanAction.AddressSanitizer

/-! ### The blocks -/

/-- Byte `x` belongs to a block. -/
def Live (blocks : Std.TreeMap ℕ HeapBlock) (x : ℕ) : Prop :=
  ∃ (a : ℕ) (b : HeapBlock), blocks[a]? = some b ∧ b.addr ≤ x ∧ x < b.addr + b.len

/-- The blocks are kept by their addresses, lie in the address space and share no byte. -/
structure Apart (blocks : Std.TreeMap ℕ HeapBlock) : Prop where
  key : ∀ {a : ℕ} {b : HeapBlock}, blocks[a]? = some b → b.addr = a
  addr_lt : ∀ {a : ℕ} {b : HeapBlock}, blocks[a]? = some b → a < 2 ^ 64
  len_lt : ∀ {a : ℕ} {b : HeapBlock}, blocks[a]? = some b → b.len < 2 ^ 64
  admitted : ∀ {a : ℕ} {b : HeapBlock}, blocks[a]? = some b →
    (checkOverflow a b.len).isError = false
  unique : ∀ {a a' x : ℕ} {b b' : HeapBlock}, blocks[a]? = some b → blocks[a']? = some b' →
    a ≤ x → x < a + b.len → a' ≤ x → x < a' + b'.len → a = a'

lemma Apart.live_iff {blocks : Std.TreeMap ℕ HeapBlock} (h : Apart blocks) {x : ℕ} :
    Live blocks x ↔ ∃ (a : ℕ) (b : HeapBlock), blocks[a]? = some b ∧ a ≤ x ∧ x < a + b.len := by
  constructor
  · rintro ⟨a, b, hb, hx⟩
    rw [h.key hb] at hx
    exact ⟨a, b, hb, hx⟩
  · rintro ⟨a, b, hb, hx⟩
    refine ⟨a, b, hb, ?_⟩
    rwa [h.key hb]

lemma Apart.empty : Apart ∅ := by
  constructor <;> intros <;> simp_all

lemma live_insert {blocks : Std.TreeMap ℕ HeapBlock} {addr : ℕ} {block : HeapBlock}
    (hnew : blocks[addr]? = none) (ha : block.addr = addr) (x : ℕ) :
    Live (blocks.insert addr block) x ↔
      (addr ≤ x ∧ x < addr + block.len) ∨ Live blocks x := by
  constructor
  · rintro ⟨a, b, hb, hx⟩
    rw [Std.TreeMap.getElem?_insert] at hb
    split_ifs at hb with heq
    · obtain rfl := Option.some.inj hb
      rw [ha] at hx
      exact Or.inl hx
    · exact Or.inr ⟨a, b, hb, hx⟩
  · rintro (hx | ⟨a, b, hb, hx⟩)
    · refine ⟨addr, block, by simp, ?_⟩
      rwa [ha]
    · refine ⟨a, b, ?_, hx⟩
      rw [Std.TreeMap.getElem?_insert, if_neg, hb]
      intro heq
      rw [Nat.compare_eq_eq.mp heq, hb] at hnew
      cases hnew

lemma Apart.insert {blocks : Std.TreeMap ℕ HeapBlock} (h : Apart blocks) {addr : ℕ}
    {block : HeapBlock} (haddr : block.addr = addr) (ha : addr < 2 ^ 64)
    (hl : block.len < 2 ^ 64) (hc : (checkOverflow addr block.len).isError = false)
    (hfree : ∀ x, addr ≤ x → x < addr + block.len → ¬ Live blocks x) :
    Apart (blocks.insert addr block) := by
  have hget : ∀ {a : ℕ} {b : HeapBlock}, (blocks.insert addr block)[a]? = some b →
      (a = addr ∧ b = block) ∨ blocks[a]? = some b := by
    intro a b hb
    rw [Std.TreeMap.getElem?_insert] at hb
    split_ifs at hb with heq
    · exact Or.inl ⟨(Nat.compare_eq_eq.mp heq).symm, (Option.some.inj hb).symm⟩
    · exact Or.inr hb
  have hold : ∀ {a x : ℕ} {b : HeapBlock}, blocks[a]? = some b → a ≤ x → x < a + b.len → addr ≤ x →
      x < addr + block.len → False := fun hb h1 h2 h3 h4 =>
    hfree _ h3 h4 (h.live_iff.mpr ⟨_, _, hb, h1, h2⟩)
  refine ⟨fun hb => ?_, fun hb => ?_, fun hb => ?_, fun hb => ?_, fun hb hb' h1 h2 h3 h4 => ?_⟩
  · rcases hget hb with ⟨rfl, rfl⟩ | hb
    · exact haddr
    · exact h.key hb
  · rcases hget hb with ⟨rfl, rfl⟩ | hb
    · exact ha
    · exact h.addr_lt hb
  · rcases hget hb with ⟨rfl, rfl⟩ | hb
    · exact hl
    · exact h.len_lt hb
  · rcases hget hb with ⟨rfl, rfl⟩ | hb
    · exact hc
    · exact h.admitted hb
  · rcases hget hb with ⟨rfl, rfl⟩ | hold₁
    · rcases hget hb' with ⟨rfl, -⟩ | hold₂
      · rfl
      · exact (hold hold₂ h3 h4 h1 h2).elim
    · rcases hget hb' with ⟨rfl, rfl⟩ | hold₂
      · exact (hold hold₁ h1 h2 h3 h4).elim
      · exact h.unique hold₁ hold₂ h1 h2 h3 h4

lemma Apart.erase {blocks : Std.TreeMap ℕ HeapBlock} (h : Apart blocks) (addr : ℕ) :
    Apart (blocks.erase addr) := by
  have hget : ∀ {a : ℕ} {b : HeapBlock}, (blocks.erase addr)[a]? = some b →
      blocks[a]? = some b := by
    intro a b hb
    rw [Std.TreeMap.getElem?_erase] at hb
    split_ifs at hb with heq
    exact hb
  exact ⟨fun hb => h.key (hget hb), fun hb => h.addr_lt (hget hb), fun hb => h.len_lt (hget hb),
    fun hb => h.admitted (hget hb), fun hb hb' => h.unique (hget hb) (hget hb')⟩

lemma Apart.live_erase {blocks : Std.TreeMap ℕ HeapBlock} (h : Apart blocks) {addr : ℕ}
    {block : HeapBlock} (hb : blocks[addr]? = some block) (x : ℕ) :
    Live (blocks.erase addr) x ↔ Live blocks x ∧ ¬ (addr ≤ x ∧ x < addr + block.len) := by
  rw [(h.erase addr).live_iff, h.live_iff]
  constructor
  · rintro ⟨a, b, hb', hx⟩
    rw [Std.TreeMap.getElem?_erase] at hb'
    split_ifs at hb' with heq
    refine ⟨⟨a, b, hb', hx⟩, fun hx' => ?_⟩
    have := h.unique hb hb' hx'.1 hx'.2 hx.1 hx.2
    exact heq (Nat.compare_eq_eq.mpr this)
  · rintro ⟨⟨a, b, hb', hx⟩, hnot⟩
    refine ⟨a, b, ?_, hx⟩
    rw [Std.TreeMap.getElem?_erase, if_neg, hb']
    intro heq
    obtain rfl := Nat.compare_eq_eq.mp heq
    rw [hb] at hb'
    obtain rfl := Option.some.inj hb'
    exact hnot hx

/-! ### What a record does to the blocks and the table -/

/-- A record whose source is the runtime, the ACL or the HAL. -/
def IsReal (r : HeapRecord) : Prop := isRealMalloc r.record.infoSrc = true

lemma IsReal.src {r : HeapRecord} (h : IsReal r) :
    r.record.infoSrc = .hal ∨ r.record.infoSrc = .acl ∨ r.record.infoSrc = .rt := by
  unfold IsReal at h
  cases hs : r.record.infoSrc <;> simp_all [isRealMalloc]

lemma IsReal.scope {r : HeapRecord} (h : IsReal r) :
    memInfoToScope r.record.infoSrc = .runtime := by
  rcases h.src with hs | hs | hs <;> rw [hs] <;> rfl

/-- Such a record is handled with the table of the runtime. -/
lemma process_eq {s : AddressSanitizer} {r : HeapRecord} (h : IsReal r) :
    (s.process r).2.blocks =
        (r.doAction s.shadowMemory s.boundsCheckRuntime s.config
          false).shadowMemory.heapBlockManager.heapBlocks ∧
      (s.process r).2.boundsCheckRuntime =
        (r.doAction s.shadowMemory s.boundsCheckRuntime s.config false).bounds := by
  unfold process scopeDoAction Scopes.beforeScopeSwitch
  rw [h.scope]
  exact ⟨rfl, rfl⟩

lemma process_of_ne_gm {s : AddressSanitizer} {r : HeapRecord} (h : IsReal r)
    (hgm : r.record.dstSpace ≠ .gm) :
    (s.process r).2.blocks = s.blocks ∧
      (s.process r).2.boundsCheckRuntime = s.boundsCheckRuntime := by
  obtain ⟨hb, ht⟩ := @process_eq s r h
  rw [hb, ht]
  unfold HeapRecord.doAction
  cases r.action with
  | malloc => simp [asanMalloc, hgm]
  | free => simp [asanFree, hgm]

lemma addHeapBlock_of_real (sm : ShadowMemory) {record : MemOpRecord}
    (h : isRealMalloc record.infoSrc = true) :
    (sm.addHeapBlock record).1 = true ∧
      (sm.addHeapBlock record).2.heapBlockManager.heapBlocks =
        addIfNew sm.heapBlockManager.heapBlocks record := by
  cases hs : record.infoSrc <;>
    simp_all [isRealMalloc, ShadowMemory.addHeapBlock, HeapBlockManager.addHeapBlock, getHeapType,
      addRtDfxBlock, isDfx]

/-- A MALLOC adds its block where there is none and always asks the table for its range. -/
lemma process_malloc {s : AddressSanitizer} {r : HeapRecord} (h : IsReal r)
    (hgm : r.record.dstSpace = .gm) (hact : r.action = .malloc) :
    (s.process r).2.blocks = addIfNew s.blocks r.record ∧
      (s.process r).2.boundsCheckRuntime =
        (add r.record.dstAddr r.record.memSize defaultPermission s.boundsCheckRuntime).2 := by
  obtain ⟨hb, ht⟩ := @process_eq s r h
  obtain ⟨hok, hblocks⟩ := addHeapBlock_of_real s.shadowMemory h
  have hsrc : r.record.infoSrc ≠ .mstxHeap := by
    rcases h.src with hs | hs | hs <;> rw [hs] <;> decide
  rw [hb, ht]
  unfold HeapRecord.doAction
  rw [hact]
  simp only [asanMalloc, hgm, ne_eq, not_true_eq_false, if_false, hok, Bool.not_true,
    Bool.false_eq_true, hsrc]
  exact ⟨hblocks, trivial⟩

lemma freeHeapBlock_of_real (sm : ShadowMemory) {record : MemOpRecord}
    (h : isRealMalloc record.infoSrc = true) :
    (sm.heapBlockManager.heapBlocks[record.dstAddr]? = none →
      (sm.freeHeapBlock record).2.1 = 0 ∧
        (sm.freeHeapBlock record).2.2.heapBlockManager.heapBlocks =
          sm.heapBlockManager.heapBlocks) ∧
    ∀ block, sm.heapBlockManager.heapBlocks[record.dstAddr]? = some block →
      (sm.freeHeapBlock record).2.1 = block.len ∧
        (sm.freeHeapBlock record).2.2.heapBlockManager.heapBlocks =
          sm.heapBlockManager.heapBlocks.erase record.dstAddr := by
  have hby : record.infoSrc ≠ .bypass := by rintro hs; rw [hs] at h; cases h
  simp only [ShadowMemory.freeHeapBlock, if_neg hby, HeapBlockManager.freeHeapBlock,
    getHeapType_of_isRealMalloc h, freeRtDfxBlock, isDfx_of_isRealMalloc h, Bool.false_eq_true,
    if_false]
  constructor
  · intro hnone
    rw [hnone]
    exact ⟨rfl, rfl⟩
  · intro block hsome
    rw [hsome]
    refine ⟨rfl, ?_⟩
    simp only [deleteMstxInfo, h, if_true]
    cases sm.heapBlockManager.mstxHeapBlocks.toList.find? _ <;> rfl

lemma freeUnused_blocks (sm : ShadowMemory) (config : Config) (record : MemOpRecord) (size : ℕ) :
    (freeUnused sm config false record size).2.heapBlockManager = sm.heapBlockManager := by
  unfold freeUnused ShadowMemory.checkUnusedMem
  split_ifs
  · dsimp only
    split_ifs <;> rfl
  · rfl

lemma makeMemUndefined_eq (sm : ShadowMemory) (addr size : ℕ) :
    ∃ gm, sm.makeMemUndefined addr size = { sm with gm := gm } := ⟨_, rfl⟩

lemma clearBlockId_eq (sm : ShadowMemory) (addr size : ℕ) :
    ∃ gm, sm.clearBlockId addr size = { sm with gm := gm } := ⟨_, rfl⟩

lemma freeClear_blocks (sm : ShadowMemory) (record : MemOpRecord) (size : ℕ) :
    (freeClear sm false record size).heapBlockManager = sm.heapBlockManager := by
  rw [freeClear, if_neg Bool.false_ne_true]
  by_cases hs : record.infoSrc = .extra
  · obtain ⟨gm, hgm⟩ := clearBlockId_eq sm record.dstAddr size
    rw [if_pos hs, hgm]
  · obtain ⟨gm, hgm⟩ := makeMemUndefined_eq sm record.dstAddr size
    rw [if_neg hs, hgm]

def freedSize (blocks : Std.TreeMap ℕ HeapBlock) (addr : ℕ) : ℕ :=
  ((blocks[addr]?).map HeapBlock.len).getD 0

/-- A FREE erases the block at its address, if there is one, and takes the bytes of this
block from the table. -/
lemma process_free {s : AddressSanitizer} {r : HeapRecord} (h : IsReal r)
    (hgm : r.record.dstSpace = .gm) (hact : r.action = .free) :
    ((s.blocks[r.record.dstAddr]? = none ∧ (s.process r).2.blocks = s.blocks) ∨
      (s.blocks[r.record.dstAddr]? ≠ none ∧
        (s.process r).2.blocks = s.blocks.erase r.record.dstAddr)) ∧
      (s.process r).2.boundsCheckRuntime =
        (remove r.record.dstAddr (freedSize s.blocks r.record.dstAddr)
          s.boundsCheckRuntime).2 := by
  obtain ⟨hb, ht⟩ := @process_eq s r h
  obtain ⟨hnone, hsome⟩ := freeHeapBlock_of_real s.shadowMemory h
  have hsrc : r.record.infoSrc ≠ .mstxHeap := by
    rcases h.src with hs | hs | hs <;> rw [hs] <;> decide
  rw [hb, ht]
  unfold HeapRecord.doAction
  rw [hact]
  simp only [asanFree, hgm, ne_eq, not_true_eq_false, if_false, freeBlock, Bool.false_eq_true,
    hsrc, freeClear_blocks, freeUnused_blocks]
  cases hblock : s.blocks[r.record.dstAddr]? with
  | none =>
    obtain ⟨hsize, hblocks⟩ := hnone hblock
    rw [hsize, hblocks, freedSize, hblock]
    exact ⟨Or.inl ⟨rfl, rfl⟩, rfl⟩
  | some block =>
    obtain ⟨hsize, hblocks⟩ := hsome block hblock
    rw [hsize, hblocks, freedSize, hblock]
    exact ⟨Or.inr ⟨by simp, rfl⟩, rfl⟩

/-! ### The two sides agree -/

/-- The bytes of the table are the bytes of the live blocks. -/
def Covers (s : AddressSanitizer) : Prop :=
  ∀ x, (look s.boundsCheckRuntime x).isSome ↔ Live s.blocks x

/-- What a run keeps. -/
structure Inv (s : AddressSanitizer) : Prop where
  laid : Laid s.boundsCheckRuntime
  apart : Apart s.blocks
  permission : ∀ {x p}, look s.boundsCheckRuntime x = some p → p = defaultPermission
  covers : Covers s

/-- A MALLOC is placed beside the live blocks or at the address of one. -/
def Placed (s : AddressSanitizer) (r : HeapRecord) : Prop :=
  r.action = .malloc → r.record.dstSpace = .gm → s.blocks[r.record.dstAddr]? = none →
    ∀ x, r.record.dstAddr ≤ x → x < r.record.dstAddr + r.record.memSize → ¬ Live s.blocks x

/-- What a MALLOC has to meet: at a new address the table admits its range; at the address
of a live block either the table does not admit it or live blocks hold all of it. -/
def Keeps (s : AddressSanitizer) (r : HeapRecord) : Prop :=
  r.action = .malloc → r.record.dstSpace = .gm →
    (s.blocks[r.record.dstAddr]? = none →
      (checkOverflow r.record.dstAddr r.record.memSize).isError = false) ∧
    (s.blocks[r.record.dstAddr]? ≠ none →
      (checkOverflow r.record.dstAddr r.record.memSize).isError = true ∨
      ∀ x, r.record.dstAddr ≤ x → x < r.record.dstAddr + r.record.memSize → Live s.blocks x)

/-- No range of the table has another permission, so none loses its tail. -/
lemma Inv.not_loses {s : AddressSanitizer} (h : Inv s) (addr size : ℕ) :
    ¬ Loses addr size defaultPermission s.boundsCheckRuntime := by
  rintro ⟨t, ht, hlo, hhi, hne⟩
  refine hne (h.permission (h.laid.look_eq ht ⟨?_, hhi⟩))
  simp only [lo_eq]
  omega

/-- An admitted range is given to the table, whatever it held before. -/
lemma Inv.look_add {s : AddressSanitizer} (h : Inv s) {addr size : ℕ} (ha : addr < 2 ^ 64)
    (hs : size < 2 ^ 64) (hc : (checkOverflow addr size).isError = false) (x : ℕ) :
    look (add addr size defaultPermission s.boundsCheckRuntime).2 x =
      if addr ≤ x ∧ x < addr + size then some defaultPermission
      else look s.boundsCheckRuntime x := by
  have hno := h.not_loses addr size
  obtain ⟨before, after, htab, hsp, heq⟩ := add_eq defaultPermission h.laid ha hs hc
  rw [htab] at hno ⊢
  rw [← htab, heq, addTo_look hsp hno, htab]

/-- An admitted MALLOC of bytes that are live after it keeps the two sides equal. -/
lemma Inv.add {s t : AddressSanitizer} (h : Inv s) {addr size : ℕ} (ha : addr < 2 ^ 64)
    (hs : size < 2 ^ 64) (hc : (checkOverflow addr size).isError = false)
    (htab : t.boundsCheckRuntime = (add addr size defaultPermission s.boundsCheckRuntime).2)
    (hap : Apart t.blocks)
    (hlive : ∀ x, Live t.blocks x ↔ (addr ≤ x ∧ x < addr + size) ∨ Live s.blocks x) :
    Inv t := by
  refine ⟨?_, hap, fun {x p} hx => ?_, fun x => ?_⟩
  · rw [htab]
    exact add_laid h.laid ha hs
  · rw [htab, h.look_add ha hs hc] at hx
    split_ifs at hx with hin
    · exact (Option.some.inj hx).symm
    · exact h.permission hx
  · rw [htab, h.look_add ha hs hc, hlive]
    by_cases hin : addr ≤ x ∧ x < addr + size
    · simp [hin]
    · rw [if_neg hin, or_iff_right hin]
      exact h.covers x

lemma addIfNew_of_none {blocks : Std.TreeMap ℕ HeapBlock} {record : MemOpRecord}
    (h : blocks[record.dstAddr]? = none) :
    addIfNew blocks record = blocks.insert record.dstAddr (.ofRecord record) := by
  rw [addIfNew, h]

lemma addIfNew_of_some {blocks : Std.TreeMap ℕ HeapBlock} {record : MemOpRecord}
    (h : blocks[record.dstAddr]? ≠ none) : addIfNew blocks record = blocks := by
  obtain ⟨block, hb⟩ := Option.ne_none_iff_exists'.mp h
  rw [addIfNew, hb]

lemma Inv.congr {s t : AddressSanitizer} (h : Inv s) (hb : t.blocks = s.blocks)
    (ht : t.boundsCheckRuntime = s.boundsCheckRuntime) : Inv t := by
  refine ⟨?_, ?_, ?_, ?_⟩
  · rw [ht]; exact h.laid
  · rw [hb]; exact h.apart
  · rw [ht]; exact h.permission
  · unfold Covers; rw [ht, hb]; exact h.covers

lemma Inv.malloc {s : AddressSanitizer} {r : HeapRecord} (h : Inv s) (hreal : IsReal r)
    (hpl : Placed s r) (hk : Keeps s r) (hgm : r.record.dstSpace = .gm)
    (hact : r.action = .malloc) : Inv (s.process r).2 := by
  obtain ⟨hb, ht⟩ := @process_malloc s r hreal hgm hact
  obtain ⟨hnew, hold⟩ := hk hact hgm
  by_cases hnone : s.blocks[r.record.dstAddr]? = none
  · have hc := hnew hnone
    rw [addIfNew_of_none hnone] at hb
    refine h.add r.addr_lt r.size_lt hc ht ?_ fun x => ?_
    · rw [hb]
      exact h.apart.insert rfl r.addr_lt r.size_lt hc (hpl hact hgm hnone)
    · rw [hb, live_insert hnone rfl]
      rfl
  · rw [addIfNew_of_some hnone] at hb
    rcases hold hnone with hc | hin
    · refine h.congr hb ?_
      rw [ht]
      simp [Bounds.add, hc]
    · rcases hc : (checkOverflow r.record.dstAddr r.record.memSize).isError with _ | _
      · refine h.add r.addr_lt r.size_lt hc ht (hb ▸ h.apart) fun x => ?_
        rw [hb, iff_or_self]
        exact fun hx => hin x hx.1 hx.2
      · refine h.congr hb ?_
        rw [ht]
        simp [Bounds.add, hc]

lemma Inv.free {s : AddressSanitizer} {r : HeapRecord} (h : Inv s) (hreal : IsReal r)
    (hgm : r.record.dstSpace = .gm) (hact : r.action = .free) : Inv (s.process r).2 := by
  obtain ⟨hb, ht⟩ := @process_free s r hreal hgm hact
  have hsize : freedSize s.blocks r.record.dstAddr < 2 ^ 64 ∧
      (checkOverflow r.record.dstAddr (freedSize s.blocks r.record.dstAddr)).isError = false := by
    unfold freedSize
    cases hblock : s.blocks[r.record.dstAddr]? with
    | none => exact ⟨by decide, (checkOverflow_ok (by decide)).mpr (Or.inr rfl)⟩
    | some block => exact ⟨h.apart.len_lt hblock, h.apart.admitted hblock⟩
  obtain ⟨hl, hx⟩ := remove_spec h.laid r.addr_lt hsize.1 hsize.2
  rw [← ht] at hl
  have hlook : ∀ x, look (s.process r).2.boundsCheckRuntime x =
      if r.record.dstAddr ≤ x ∧ x < r.record.dstAddr + freedSize s.blocks r.record.dstAddr
      then none else look s.boundsCheckRuntime x := by
    intro x
    rw [ht]
    exact hx x
  have hlive : ∀ x, Live (s.process r).2.blocks x ↔ Live s.blocks x ∧
      ¬ (r.record.dstAddr ≤ x ∧
        x < r.record.dstAddr + freedSize s.blocks r.record.dstAddr) := by
    intro x
    rcases hb with ⟨hnone, hb⟩ | ⟨hsome, hb⟩
    · rw [hb, freedSize, hnone]
      simp only [Option.map_none, Option.getD_none, add_zero]
      exact ⟨fun hx => ⟨hx, by omega⟩, And.left⟩
    · obtain ⟨block, hblock⟩ := Option.ne_none_iff_exists'.mp hsome
      rw [hb, h.apart.live_erase hblock, freedSize, hblock]
      rfl
  refine ⟨hl, ?_, fun {x p} hp => ?_, fun x => ?_⟩
  · rcases hb with ⟨-, hb⟩ | ⟨-, hb⟩
    · rw [hb]; exact h.apart
    · rw [hb]; exact h.apart.erase _
  · rw [hlook] at hp
    split_ifs at hp
    exact h.permission hp
  · rw [hlook, hlive]
    by_cases hin : r.record.dstAddr ≤ x ∧
        x < r.record.dstAddr + freedSize s.blocks r.record.dstAddr
    · simp [hin]
    · rw [if_neg hin, h.covers x]
      exact ⟨fun hx => ⟨hx, hin⟩, And.left⟩

/-- **One record.** -/
lemma Inv.process {s : AddressSanitizer} {r : HeapRecord} (h : Inv s) (hreal : IsReal r)
    (hpl : Placed s r) (hk : Keeps s r) : Inv (s.process r).2 := by
  by_cases hgm : r.record.dstSpace = .gm
  · cases hact : r.action with
    | malloc => exact h.malloc hreal hpl hk hgm hact
    | free => exact h.free hreal hgm hact
  · obtain ⟨hb, ht⟩ := @process_of_ne_gm s r hreal hgm
    exact h.congr hb ht

/-- A record that leaves the two sides equal meets the condition. -/
lemma Inv.keeps {s : AddressSanitizer} {r : HeapRecord} (h : Inv s) (hreal : IsReal r)
    (hpl : Placed s r) (hcov : Covers (s.process r).2) : Keeps s r := by
  intro hact hgm
  obtain ⟨hb, ht⟩ := @process_malloc s r hreal hgm hact
  refine ⟨fun hnone => ?_, fun hsome => ?_⟩
  · -- a rejected range is live after the record, but the table has not changed
    by_contra herr
    rw [Bool.not_eq_false] at herr
    have hpos : 0 < r.record.memSize := by
      rw [Nat.pos_iff_ne_zero]
      intro h0
      rw [(checkOverflow_ok r.size_lt).mpr (Or.inr h0)] at herr
      cases herr
    rw [addIfNew_of_none hnone] at hb
    have htab : (s.process r).2.boundsCheckRuntime = s.boundsCheckRuntime := by
      rw [ht]
      simp [Bounds.add, herr]
    have hx := hcov r.record.dstAddr
    rw [htab, h.covers, hb, live_insert hnone rfl] at hx
    exact hpl hact hgm hnone _ le_rfl (by omega) (hx.mpr (Or.inl ⟨le_rfl, by
      simp only [HeapBlock.ofRecord]; omega⟩))
  · by_contra hcon
    push Not at hcon
    obtain ⟨hok, x, hx1, hx2, hxl⟩ := hcon
    rw [addIfNew_of_some hsome] at hb
    have hx := hcov x
    rw [ht, h.look_add r.addr_lt r.size_lt (by simpa using hok), if_pos ⟨hx1, hx2⟩, hb] at hx
    exact hxl (hx.mp rfl)

/-! ### Runs -/

def start (device : DeviceType) (chipInfo : ChipInfo) (config : Config) : AddressSanitizer :=
  setDeviceInfo {} device chipInfo config

@[simp] lemma start_blocks (device : DeviceType) (chipInfo : ChipInfo) (config : Config) :
    (start device chipInfo config).blocks = ∅ := rfl

@[simp] lemma not_live_empty (x : ℕ) : ¬ Live ∅ x := by
  rintro ⟨a, b, hb, -⟩
  simp at hb

lemma Inv.start (device : DeviceType) (chipInfo : ChipInfo) (config : Config) :
    Inv (start device chipInfo config) := by
  refine ⟨laid_nil, Apart.empty, fun h => (by cases h), fun x => ?_⟩
  exact ⟨fun hx => (by cases hx), fun hx => absurd hx (not_live_empty x)⟩

variable {device : DeviceType} {chipInfo : ChipInfo} {config : Config} {rs : List HeapRecord}

/-- **A run of records that all meet the condition.** -/
lemma Inv.run (hreal : ∀ r ∈ rs, IsReal r)
    (hpl : ∀ pre r, pre ++ [r] <+: rs →
      Placed ((HeapCoverage.start device chipInfo config).run pre) r)
    {pre : List HeapRecord} (hpre : pre <+: rs)
    (hk : ∀ q r, q ++ [r] <+: pre → Keeps ((HeapCoverage.start device chipInfo config).run q) r) :
    Inv ((HeapCoverage.start device chipInfo config).run pre) := by
  induction pre using List.reverseRecOn with
  | nil => exact Inv.start device chipInfo config
  | append_singleton q r ih =>
    rw [run_concat]
    have hq : q <+: q ++ [r] := List.prefix_append q [r]
    refine (ih (hq.trans hpre) fun q' r' h => hk q' r' (h.trans hq)).process ?_ (hpl q r hpre)
      (hk q r (List.prefix_refl _))
    exact hreal r (hpre.subset (by simp))

/-- **The table covers the live blocks exactly when every MALLOC meets the condition.** For
every list of records of the runtime, the ACL or the HAL whose MALLOCs lie beside the live
blocks or start at one, the bytes of the table are those of the live blocks after every
record if and only if every MALLOC at a new address is admitted by the table, and every
MALLOC at the address of a live block is either not admitted or lies in live blocks. -/
theorem covers_iff_keeps (hreal : ∀ r ∈ rs, IsReal r)
    (hpl : ∀ pre r, pre ++ [r] <+: rs → Placed ((start device chipInfo config).run pre) r) :
    (∀ pre, pre <+: rs → Covers ((start device chipInfo config).run pre)) ↔
      ∀ pre r, pre ++ [r] <+: rs → Keeps ((start device chipInfo config).run pre) r := by
  constructor
  · intro hcov pre r
    -- the records before `r` meet the condition, so the invariant holds where `r` is handled
    induction hn : pre.length using Nat.strong_induction_on generalizing pre r with
    | _ n ih =>
      intro hpre
      have hq : pre <+: pre ++ [r] := List.prefix_append pre [r]
      have hinv : Inv ((start device chipInfo config).run pre) := by
        refine Inv.run hreal hpl (hq.trans hpre) fun q r' h => ?_
        have hlt : q.length < n := by
          have := h.length_le
          rw [List.length_append, List.length_singleton, hn] at this
          omega
        exact ih q.length hlt q r' rfl (h.trans (hq.trans hpre))
      refine hinv.keeps (hreal r (hpre.subset (by simp))) (hpl pre r hpre) ?_
      rw [← run_concat]
      exact hcov _ hpre
  · intro hk pre hpre
    exact (Inv.run hreal hpl hpre fun q r h => hk q r (h.trans hpre)).covers

def rtRecord (action : HeapAction) (addr size : ℕ) (ha : addr < 2 ^ 64) (hs : size < 2 ^ 64) :
    HeapRecord where
  action := action
  record :=
    { type := action.type, dstAddr := addr, memSize := size, dstSpace := .gm, infoSrc := .rt }
  type_eq := rfl
  addr_lt := ha
  size_lt := hs

/-- One block is allocated and freed. -/
theorem covers_iff_keeps_free :
    Covers ((start .invalid {} {}).run
      [rtRecord .malloc 64 16 (by decide) (by decide),
        rtRecord .free 64 0 (by decide) (by decide)]) := by
  have hsteps : ∀ pre r, pre ++ [r] <+: [rtRecord .malloc 64 16 (by decide) (by decide),
      rtRecord .free 64 0 (by decide) (by decide)] →
      (pre = [] ∧ r = rtRecord .malloc 64 16 (by decide) (by decide)) ∨ r.action = .free := by
    intro pre r h
    rcases pre with _ | ⟨a, _ | ⟨b, pre⟩⟩
    · obtain ⟨t, ht⟩ := h
      exact Or.inl ⟨rfl, (List.cons.inj ht).1⟩
    · obtain ⟨t, ht⟩ := h
      simp only [List.cons_append, List.nil_append, List.cons.injEq] at ht
      rw [ht.2.1]
      exact Or.inr rfl
    · have := h.length_le
      simp at this
  refine (@covers_iff_keeps .invalid {} {} _ ?_ ?_).mpr ?_ _ (List.prefix_refl _)
  · intro r hr
    simp only [List.mem_cons, List.not_mem_nil, or_false] at hr
    rcases hr with rfl | rfl <;> rfl
  · intro pre r h
    rcases hsteps pre r h with ⟨rfl, rfl⟩ | hr
    · exact fun _ _ _ x _ _ => not_live_empty x
    · exact fun hact => absurd (hr.symm.trans hact) (by decide)
  · intro pre r h
    rcases hsteps pre r h with ⟨rfl, rfl⟩ | hr
    · exact fun _ _ => ⟨fun _ => by decide, fun hne => absurd (by simp) hne⟩
    · exact fun hact => absurd (hr.symm.trans hact) (by decide)

/-- A second MALLOC of twice the size at the address of a live block. The block keeps its
length and the table grows. -/
theorem double_malloc_uncovers :
    ¬ ∀ (rs : List HeapRecord), (∀ r ∈ rs, IsReal r) →
      (∀ pre r, pre ++ [r] <+: rs → Placed ((start .invalid {} {}).run pre) r) →
      ∀ pre, pre <+: rs → Covers ((start .invalid {} {}).run pre) := by
  intro hall
  have hm : 64 < 2 ^ 64 ∧ 16 < 2 ^ 64 ∧ 32 < 2 ^ 64 := by decide
  let r₁ := rtRecord .malloc 64 16 hm.1 hm.2.1
  let r₂ := rtRecord .malloc 64 32 hm.1 hm.2.2
  let s := start .invalid {} {}
  have hpl₁ : Placed s r₁ := fun _ _ _ x _ _ => not_live_empty x
  have hinv : Inv (s.process r₁).2 :=
    (Inv.start .invalid {} {}).process rfl hpl₁ fun _ _ =>
      ⟨fun _ => show (checkOverflow 64 16).isError = false by decide,
        fun hne => absurd (by simp) hne⟩
  have hblocks : (s.process r₁).2.blocks = (∅ : Std.TreeMap ℕ HeapBlock).insert 64
      (.ofRecord r₁.record) := by
    rw [(process_malloc (show IsReal r₁ from rfl) rfl rfl).1]
    exact addIfNew_of_none (by simp [s])
  have hat : (s.process r₁).2.blocks[r₂.record.dstAddr]? ≠ none := by
    rw [hblocks]
    simp [r₂, rtRecord]
  have hpl₂ : Placed (s.process r₁).2 r₂ := fun _ _ hnone => absurd hnone hat
  have hcov := hall [r₁, r₂] (by simp [IsReal, r₁, r₂, rtRecord, isRealMalloc]) (fun pre r h => ?_)
    [r₁, r₂] (List.prefix_refl _)
  · have hin := ((hinv.keeps (show IsReal r₂ from rfl) hpl₂ hcov rfl rfl).2 hat).resolve_left
      (show ¬ (checkOverflow 64 32).isError = true by decide)
    have hlive := hin 80 (show 64 ≤ 80 by decide) (show 80 < 64 + 32 by decide)
    rw [hblocks] at hlive
    rcases (@live_insert ∅ 64 (.ofRecord r₁.record) (by simp) rfl 80).mp hlive with h80 | h80
    · exact absurd h80.2 (show ¬ 80 < 64 + 16 by decide)
    · exact not_live_empty 80 h80
  · rcases pre with _ | ⟨a, _ | ⟨b, pre⟩⟩
    · obtain ⟨t, ht⟩ := h
      rw [(List.cons.inj ht).1]
      exact hpl₁
    · obtain ⟨t, ht⟩ := h
      simp only [List.cons_append, List.nil_append, List.cons.injEq] at ht
      rw [ht.1, ht.2.1]
      exact hpl₂
    · have := h.length_le
      simp at this

end MsSanitizer.HeapCoverage
