import Mathlib.Data.Nat.Count
import MsSanitizer.GmBytes
import MsSanitizer.Shadow

/-!
The loops of the shadow memory, byte by byte.

A loop over the unified ranges of a global range does to every byte what its body does to
the common bits of a run, and counts the bytes of the runs it counts.
-/

namespace MsSanitizer.ShadowBytes

open MsSanitizer.RecordDefs MsSanitizer.Words MsSanitizer.RangeWrites MsSanitizer.Pm
open MsSanitizer.GmBytes MsSanitizer.Shadow MsSanitizer.Shadow.ShadowMemory

/-- `ValidateRange` keeps the part of a range below the size of its space. -/
lemma validateRange_eq (sm : ShadowMemory) (space : AddressSpace) {addr size : ℕ}
    (hM : sm.maxSize space < 2 ^ 64) (hs : size < 2 ^ 64) :
    sm.validateRange space addr size = (min (sm.maxSize space) addr,
      min (sm.maxSize space) (addr + size) - min (sm.maxSize space) addr) := by
  have hr : (if sub64 (2 ^ 64 - 1) size < addr then sm.maxSize space
      else min (sm.maxSize space) (add64 addr size)) = min (sm.maxSize space) (addr + size) := by
    rw [sub64_eq (by omega) (by omega)]
    by_cases h : 2 ^ 64 - 1 - size < addr
    · rw [if_pos h]
      omega
    · rw [if_neg h, add64_eq (by omega)]
  unfold validateRange
  simp only [hr]
  rw [sub64_eq (by omega) (by omega)]

lemma maxSize_gm_lt (sm : ShadowMemory) : sm.maxSize .gm < 2 ^ 64 := by
  have := globalMemMask_eq
  simp only [maxSize]
  omega

lemma validateRange_gm_le (sm : ShadowMemory) (addr : ℕ) {size : ℕ} (hs : size < 2 ^ 64) :
    (sm.validateRange .gm addr size).1 + (sm.validateRange .gm addr size).2 ≤ globalMemMask := by
  rw [validateRange_eq sm .gm (maxSize_gm_lt sm) hs]
  simp only [maxSize]
  omega

lemma validateRange_gm_of_le (sm : ShadowMemory) {addr size : ℕ}
    (h : addr + size ≤ globalMemMask) : sm.validateRange .gm addr size = (addr, size) := by
  have hM := globalMemMask_eq
  rw [validateRange_eq sm .gm (maxSize_gm_lt sm) (by omega)]
  simp only [maxSize]
  rw [min_eq_right (by omega), min_eq_right h, Nat.add_sub_cancel_left]

/-! ### Counting -/

/-- The number of bytes of a global range whose bits satisfy `pred`. -/
def countBytes (gm : GmPM) (addr size : ℕ) (pred : UInt8 → Bool) : ℕ :=
  Nat.count (fun k => pred (gm.getBits (addr + k)) = true) size

lemma count_congr {p q : ℕ → Prop} [DecidablePred p] [DecidablePred q] {n : ℕ}
    (h : ∀ k < n, p k ↔ q k) : Nat.count p n = Nat.count q n := by
  rw [Nat.count_eq_card_filter_range, Nat.count_eq_card_filter_range]
  congr 1
  exact Finset.filter_congr fun k hk => h k (Finset.mem_range.mp hk)

/-- A uniform run of bytes is counted whole or not at all. -/
lemma count_add_run (bytes : ℕ → UInt8) (addr d : ℕ) {m : ℕ} (pred : UInt8 → Bool)
    (h : ∀ k < m, bytes (addr + d + k) = bytes (addr + d)) :
    Nat.count (fun k => pred (bytes (addr + k)) = true) (d + m) =
      Nat.count (fun k => pred (bytes (addr + k)) = true) d +
        if pred (bytes (addr + d)) = true then m else 0 := by
  have hrun : ∀ k < m, pred (bytes (addr + (d + k))) = pred (bytes (addr + d)) := by
    intro k hk
    rw [← Nat.add_assoc, h k hk]
  rw [Nat.count_add, Nat.add_left_cancel_iff]
  split_ifs with hp
  · exact Nat.count_iff_forall.mpr fun k hk => (hrun k hk).trans hp
  · exact Nat.count_iff_forall_not.mpr fun k hk hpk => hp ((hrun k hk).symm.trans hpk)

lemma countBytes_le (gm : GmPM) (addr size : ℕ) (pred : UInt8 → Bool) :
    countBytes gm addr size pred ≤ size := Nat.count_le _

/-- **The reading loop counts bytes.** -/
lemma countUnified_eq {gm : GmPM} (h : Wf gm) {addr size : ℕ} (hend : addr + size ≤ globalMemMask)
    (pred : UInt8 → Bool) :
    (MemMap.global gm).countUnified addr size pred = countBytes gm addr size pred := by
  have hM := globalMemMask_eq
  unfold MemMap.countUnified
  rw [add64_eq (by omega)]
  -- at `it` the loop has counted the bytes before `it`
  refine walk_inv (fun it n => addr ≤ it ∧ n = countBytes gm addr (it - addr) pred)
    (fun n => n = countBytes gm addr size pred) ?_ ?_ (by omega) le_rfl
    ⟨le_rfl, by simp [countBytes]⟩
  · rintro n ⟨-, rfl⟩
    rw [Nat.add_sub_cancel_left]
  · rintro it n hlt ⟨hle, rfl⟩
    obtain ⟨d, rfl⟩ := Nat.exists_eq_add_of_le hle
    obtain ⟨hone, hfit, hall⟩ := h.unifiedSizeAfter hle hlt hend rfl
    refine ⟨hone, hfit, by omega, ?_⟩
    have hsub : addr + d + gm.unifiedSizeAfter addr size (addr + d) - addr
        = d + gm.unifiedSizeAfter addr size (addr + d) := by omega
    have hd : addr + d - addr = d := by omega
    have hcount := countBytes_le gm addr d pred
    have hrun := count_add_run gm.getBits addr d pred hall
    unfold countBytes at hcount ⊢
    simp only [MemMap.getBits, MemMap.unifiedSizeAfter, hsub, hd, hrun]
    split_ifs
    · exact add64_eq (by omega)
    · rfl

/-! ### Storing -/

def storeBits (atomicEnabled : Bool) (coreId : UInt8) (outOfBoundCheck : Bool) (bits : UInt8) :
    UInt8 :=
  if getMemStatus bits = .error then bits
  else
    let bits := if getMemStatus bits = .undefined then setMemStatus bits .defined else bits
    if coreId = 0xFF then setCoreId bits defaultCoreId
    else if getCoreId bits = defaultCoreId then setCoreId bits coreId
    else if getCoreId bits ≠ coreId ∧ atomicEnabled = false ∧ outOfBoundCheck = true then
      setMemStatus bits .error
    else bits

/-- Whether a store counts a global byte as overwritten by another core. -/
def storeBad (atomicEnabled : Bool) (coreId : UInt8) (outOfBoundCheck : Bool) (bits : UInt8) :
    Bool :=
  decide (getMemStatus bits ≠ .error) && decide (coreId ≠ 0xFF) && !atomicEnabled && outOfBoundCheck
    && decide (getCoreId (if getMemStatus bits = .undefined then setMemStatus bits .defined
      else bits) ≠ defaultCoreId)
    && decide (getCoreId (if getMemStatus bits = .undefined then setMemStatus bits .defined
      else bits) ≠ coreId)

/-- The global map `gm'` is `gm` with the bytes of `[addr, addr + size)` changed by `f`. -/
def Changed (gm gm' : GmPM) (addr size : ℕ) (f : UInt8 → UInt8) : Prop :=
  Wf gm' ∧ ∀ a < 2 ^ 48,
    gm'.getBits a = if addr ≤ a ∧ a < addr + size then f (gm.getBits a) else gm.getBits a

lemma changed_set {gm : GmPM} (h : Wf gm) {it m : ℕ} (bits : UInt8) (hend : it + m ≤ setLimit) :
    Changed gm (gm.set it m bits) it m fun _ => bits := h.set bits hend

lemma Changed.congr {gm gm' : GmPM} {addr size : ℕ} {f g : UInt8 → UInt8}
    (h : Changed gm gm' addr size f)
    (hfg : ∀ a, addr ≤ a → a < addr + size → f (gm.getBits a) = g (gm.getBits a)) :
    Changed gm gm' addr size g := by
  refine ⟨h.1, fun a ha => ?_⟩
  rw [h.2 a ha]
  by_cases hin : addr ≤ a ∧ a < addr + size
  · rw [if_pos hin, if_pos hin, hfg a hin.1 hin.2]
  · rw [if_neg hin, if_neg hin]

lemma Changed.trans {gm gm' gm'' : GmPM} {addr size : ℕ} {f g : UInt8 → UInt8}
    (h : Changed gm gm' addr size f) (h' : Changed gm' gm'' addr size g) :
    Changed gm gm'' addr size (g ∘ f) := by
  refine ⟨h'.1, fun a ha => ?_⟩
  rw [h'.2 a ha, h.2 a ha]
  by_cases hin : addr ≤ a ∧ a < addr + size
  · simp only [if_pos hin, Function.comp_apply]
  · simp only [if_neg hin]

lemma changed_refl {gm : GmPM} (h : Wf gm) (addr size : ℕ) : Changed gm gm addr size id :=
  ⟨h, fun a _ => by simp⟩

/-- A change of the next run extends a change of the range before it. -/
lemma Changed.append {gm gm' gm'' : GmPM} {addr d m : ℕ} {f : UInt8 → UInt8}
    (h : Changed gm gm' addr d f) (h' : Changed gm' gm'' (addr + d) m f) :
    Changed gm gm'' addr (d + m) f := by
  refine ⟨h'.1, fun a ha => ?_⟩
  rw [h'.2 a ha, h.2 a ha]
  split_ifs <;> first | rfl | omega

/-- One unified range of `StoreNBytesInRange` in the global memory. -/
lemma storeUnified_spec {gm : GmPM} (h : Wf gm) (atomicEnabled : Bool) (coreId : UInt8)
    (outOfBoundCheck : Bool) {it m : ℕ} (n : ℕ) (hend : it + m ≤ setLimit)
    (hall : ∀ k < m, gm.getBits (it + k) = gm.getBits it) :
    ∃ gm', storeUnified atomicEnabled .gm coreId outOfBoundCheck ⟨.global gm, n⟩ it m =
        ⟨.global gm', if storeBad atomicEnabled coreId outOfBoundCheck (gm.getBits it)
          then add64 n m else n⟩ ∧
      Changed gm gm' it m (storeBits atomicEnabled coreId outOfBoundCheck) := by
  -- bytes of the run all have the bits of its first byte
  have hrun : ∀ a, it ≤ a → a < it + m → gm.getBits a = gm.getBits it := by
    intro a h1 h2
    obtain ⟨k, rfl⟩ := Nat.exists_eq_add_of_le h1
    exact hall k (by omega)
  have hto : ∀ {gm' : GmPM} {f : UInt8 → UInt8}, Changed gm gm' it m f →
      f (gm.getBits it) = storeBits atomicEnabled coreId outOfBoundCheck (gm.getBits it) →
      Changed gm gm' it m (storeBits atomicEnabled coreId outOfBoundCheck) := by
    intro gm' f hc hf
    refine hc.congr fun a h1 h2 => ?_
    rw [hrun a h1 h2, hf]
  have hset : ∀ {g : GmPM} {f : UInt8 → UInt8} (b : UInt8), Changed gm g it m f →
      Changed gm (g.set it m b) it m fun _ => b := by
    intro g f b hc
    exact (hc.trans (changed_set hc.1 b hend)).congr fun _ _ _ => rfl
  obtain ⟨bits, hbits⟩ : ∃ bits, bits = gm.getBits it := ⟨_, rfl⟩
  unfold storeUnified
  simp only [MemMap.getBits, ← hbits]
  by_cases herr : getMemStatus bits = .error
  · -- bytes in error take no further part
    rw [if_pos herr]
    refine ⟨gm, by simp [storeBad, herr], hto (changed_refl h it m) ?_⟩
    simp [storeBits, ← hbits, herr]
  rw [if_neg herr]
  obtain ⟨b, hb⟩ : ∃ b, b = (if getMemStatus bits = .undefined then setMemStatus bits .defined
      else bits) := ⟨_, rfl⟩
  -- the state after a first store has defined the run
  obtain ⟨g, hg, hgb⟩ : ∃ g,
      (if getMemStatus bits = .undefined then
        ({ memmap := (MemMap.global gm).set it m b, nBadBytesForOverlap := n } : StoreState)
        else ⟨.global gm, n⟩) = ⟨.global g, n⟩ ∧ Changed gm g it m fun _ => b := by
    by_cases hu : getMemStatus bits = .undefined
    · exact ⟨gm.set it m b, by rw [if_pos hu]; rfl, changed_set h _ hend⟩
    · refine ⟨gm, by rw [if_neg hu], ?_⟩
      exact (changed_refl h it m).congr fun a h1 h2 => by
        rw [hrun a h1 h2, ← hbits, hb, if_neg hu]
        rfl
  have hst : storeBits atomicEnabled coreId outOfBoundCheck bits =
      if coreId = 0xFF then setCoreId b defaultCoreId
      else if getCoreId b = defaultCoreId then setCoreId b coreId
      else if getCoreId b ≠ coreId ∧ atomicEnabled = false ∧ outOfBoundCheck = true then
        setMemStatus b .error
      else b := by
    simp only [storeBits, if_neg herr, ← hb]
  have hbad : storeBad atomicEnabled coreId outOfBoundCheck bits =
      (decide (coreId ≠ 0xFF) && !atomicEnabled && outOfBoundCheck
        && decide (getCoreId b ≠ defaultCoreId) && decide (getCoreId b ≠ coreId)) := by
    simp only [storeBad, ← hb, ne_eq, herr, not_false_eq_true, decide_true, Bool.true_and]
  simp only [← hb, hg, hbad, ne_eq, not_true_eq_false, if_false]
  rw [← hbits, hst] at hto
  by_cases h1 : coreId = 0xFF
  · rw [if_pos h1] at hto
    exact ⟨g.set it m (setCoreId b defaultCoreId), by simp [h1, MemMap.set],
      hto (hset _ hgb) rfl⟩
  rw [if_neg h1] at hto
  by_cases h2 : getCoreId b = defaultCoreId
  · rw [if_pos h2] at hto
    exact ⟨g.set it m (setCoreId b coreId), by simp [h1, h2, MemMap.set],
      hto (hset _ hgb) rfl⟩
  rw [if_neg h2] at hto
  by_cases h3 : getCoreId b = coreId
  · have h2' : ¬ coreId = defaultCoreId := h3 ▸ h2
    exact ⟨g, by simp [h1, h2', h3], hto hgb (by simp [h3])⟩
  cases atomicEnabled
  · cases outOfBoundCheck
    · exact ⟨g, by simp [h1, h2, h3], hto hgb (by simp)⟩
    · exact ⟨g.set it m (setMemStatus b .error), by simp [h1, h2, h3, MemMap.set],
        hto (hset _ hgb) (by simp [h3])⟩
  · exact ⟨g, by simp [h1, h2, h3], hto hgb (by simp)⟩

/-- **A store, byte by byte**, in a global range that ends by the limit. -/
lemma storeNBytesInRange_spec {gm : GmPM} (h : Wf gm) (atomicEnabled : Bool) (coreId : UInt8)
    (outOfBoundCheck : Bool) {addr size : ℕ} (hend : addr + size ≤ setLimit) :
    ∃ gm', storeNBytesInRange atomicEnabled (.global gm) addr size .gm coreId outOfBoundCheck =
        ⟨.global gm', countBytes gm addr size (storeBad atomicEnabled coreId outOfBoundCheck)⟩ ∧
      Changed gm gm' addr size (storeBits atomicEnabled coreId outOfBoundCheck) := by
  have hS := setLimit_eq
  have hM := globalMemMask_eq
  unfold storeNBytesInRange
  rw [add64_eq (by omega)]
  -- at `it` the bytes before `it` are done
  refine walk_inv (fun it (s : StoreState) => addr ≤ it ∧ ∃ gm',
      s = ⟨.global gm', countBytes gm addr (it - addr)
        (storeBad atomicEnabled coreId outOfBoundCheck)⟩ ∧
      Changed gm gm' addr (it - addr) (storeBits atomicEnabled coreId outOfBoundCheck))
    (fun (s : StoreState) => ∃ gm', s = ⟨.global gm', countBytes gm addr size
      (storeBad atomicEnabled coreId outOfBoundCheck)⟩ ∧
      Changed gm gm' addr size (storeBits atomicEnabled coreId outOfBoundCheck))
    ?_ ?_ (by omega) le_rfl ⟨le_rfl, gm, by simp [countBytes], ?_⟩
  · rintro s ⟨-, gm', hs, hc⟩
    rw [Nat.add_sub_cancel_left] at hs hc
    exact ⟨gm', hs, hc⟩
  · rintro it s hlt ⟨hle, gm', rfl, hc⟩
    obtain ⟨d, rfl⟩ := Nat.exists_eq_add_of_le hle
    rw [Nat.add_sub_cancel_left] at hc ⊢
    obtain ⟨m, hm⟩ : ∃ m, m = gm'.unifiedSizeAfter addr size (addr + d) := ⟨_, rfl⟩
    obtain ⟨hone, hfit, hall⟩ := hc.1.unifiedSizeAfter hle hlt (by omega) hm
    -- the bytes from `it` on are still those of the start
    have hold : ∀ k < m, gm'.getBits (addr + d + k) = gm.getBits (addr + d + k) := by
      intro k hk
      rw [hc.2 _ (by omega), if_neg (by omega)]
    have hbits : gm'.getBits (addr + d) = gm.getBits (addr + d) := hold 0 (by omega)
    have hall' : ∀ k < m, gm.getBits (addr + d + k) = gm.getBits (addr + d) := by
      intro k hk
      rw [← hold k hk, hall k hk, hbits]
    obtain ⟨gm'', heq, hc'⟩ := storeUnified_spec hc.1 atomicEnabled coreId outOfBoundCheck
      (countBytes gm addr d (storeBad atomicEnabled coreId outOfBoundCheck))
      (by omega : addr + d + m ≤ setLimit) hall
    have hsub : addr + d + m - addr = d + m := by omega
    have hcount := countBytes_le gm addr d (storeBad atomicEnabled coreId outOfBoundCheck)
    simp only [MemMap.unifiedSizeAfter, ← hm, heq, hsub]
    refine ⟨hone, hfit, by omega, gm'', ?_, hc.append hc'⟩
    unfold countBytes at hcount ⊢
    rw [count_add_run gm.getBits addr d _ hall', hbits]
    congr 1
    split_ifs
    · exact add64_eq (by omega)
    · rfl
  · rw [Nat.sub_self]
    exact ⟨h, fun a _ => by rw [if_neg (by omega)]⟩

/-- **Clearing the owner, byte by byte.** -/
lemma clearLoop_spec {gm : GmPM} (h : Wf gm) {addr size : ℕ} (hend : addr + size ≤ setLimit) :
    Changed gm (walk (fun (gm : GmPM) it => gm.unifiedSizeAfter addr size it)
      (fun gm it unifiedSize => gm.set it unifiedSize (setCoreId (gm.getBits it) defaultCoreId))
      (addr + size) size addr gm) addr size fun bits => setCoreId bits defaultCoreId := by
  have hS := setLimit_eq
  have hM := globalMemMask_eq
  refine walk_inv (fun it g => addr ≤ it ∧
      Changed gm g addr (it - addr) fun bits => setCoreId bits defaultCoreId)
    (fun g => Changed gm g addr size fun bits => setCoreId bits defaultCoreId)
    ?_ ?_ (by omega) le_rfl ⟨le_rfl, ?_⟩
  · rintro g ⟨-, hc⟩
    rwa [Nat.add_sub_cancel_left] at hc
  · rintro it g hlt ⟨hle, hc⟩
    obtain ⟨d, rfl⟩ := Nat.exists_eq_add_of_le hle
    rw [Nat.add_sub_cancel_left] at hc
    obtain ⟨m, hm⟩ : ∃ m, m = g.unifiedSizeAfter addr size (addr + d) := ⟨_, rfl⟩
    obtain ⟨hone, hfit, hall⟩ := hc.1.unifiedSizeAfter hle hlt (by omega) hm
    have hsub : addr + d + m - addr = d + m := by omega
    rw [← hm, hsub]
    refine ⟨hone, hfit, by omega, hc.append ?_⟩
    refine (changed_set hc.1 _ (by omega)).congr fun a h1 h2 => ?_
    obtain ⟨k, rfl⟩ := Nat.exists_eq_add_of_le h1
    rw [hall k (by omega)]
  · rw [Nat.sub_self]
    exact ⟨h, fun a _ => by rw [if_neg (by omega)]⟩

/-! ### Every operation keeps the table well formed -/

lemma wf_set {gm : GmPM} (h : Wf gm) {addr size : ℕ} (bits : UInt8)
    (hend : addr + size ≤ globalMemMask) : Wf (gm.set addr size bits) :=
  h.setWrite (w := ⟨addr, size, bits⟩) hend

/-- Two global maps that read the same at every address. -/
structure SameBytes (gm gm' : GmPM) : Prop where
  wf : Wf gm
  wf' : Wf gm'
  bits : ∀ a < 2 ^ 48, gm'.getBits a = gm.getBits a

lemma sameBytes_refl {gm : GmPM} (h : Wf gm) : SameBytes gm gm := ⟨h, h, fun _ _ => rfl⟩

/-- The length of a run depends on the bytes of the range only. -/
lemma SameBytes.unifiedSizeAfter {gm gm' : GmPM} (h : SameBytes gm gm') {baseAddr size addr : ℕ}
    (hb : baseAddr ≤ addr) (hlt : addr < baseAddr + size) (hend : baseAddr + size ≤ globalMemMask) :
    gm.unifiedSizeAfter baseAddr size addr = gm'.unifiedSizeAfter baseAddr size addr := by
  have hC := chunkSize_eq
  have hM := globalMemMask_eq
  obtain ⟨b, n, hbn, hlt', hfit, hpiece⟩ := unifiedSizeAfter_eq hb hlt hend
  rw [hpiece gm h.wf, hpiece gm' h.wf']
  refine PmBytes.unifiedSizeAfter_congr (fun a ha => ?_) hlt' (by omega)
  have hdm := Nat.div_add_mod' addr GmPM.chunkSize
  have hbits := h.bits (addr / GmPM.chunkSize * GmPM.chunkSize + a) (by omega)
  rw [h.wf.getBits_eq (by omega), h.wf'.getBits_eq (by omega), div_chunk (by omega),
    mod_chunk (by omega)] at hbits
  exact hbits.symm

/-- A `Set` changes both maps alike, and neither when it ends past the limit. -/
lemma SameBytes.set {gm gm' : GmPM} (h : SameBytes gm gm') {it m : ℕ} (bits : UInt8)
    (hend : it + m ≤ globalMemMask) : SameBytes (gm.set it m bits) (gm'.set it m bits) := by
  refine ⟨wf_set h.wf bits hend, wf_set h.wf' bits hend, fun a ha => ?_⟩
  rcases le_or_gt (it + m) setLimit with hle | hgt
  · rw [(h.wf.set bits hle).2 a ha, (h.wf'.set bits hle).2 a ha, h.bits a ha]
  · rw [set_wrap gm bits hend hgt, set_wrap gm' bits hend hgt, h.bits a ha]

/-- One unified range of a store does the same to two maps with the same bytes, wherever it
ends. -/
lemma SameBytes.storeUnified {gm gm' : GmPM} (h : SameBytes gm gm') (atomicEnabled : Bool)
    (coreId : UInt8) (outOfBoundCheck : Bool) {it m : ℕ} (n : ℕ) (hlt : it < 2 ^ 48)
    (hend : it + m ≤ globalMemMask) :
    ∃ g g' n', storeUnified atomicEnabled .gm coreId outOfBoundCheck ⟨.global gm, n⟩ it m =
        ⟨.global g, n'⟩ ∧
      storeUnified atomicEnabled .gm coreId outOfBoundCheck ⟨.global gm', n⟩ it m =
        ⟨.global g', n'⟩ ∧ SameBytes g g' := by
  have hset : ∀ {g g' : GmPM} (b : UInt8), SameBytes g g' →
      SameBytes (g.set it m b) (g'.set it m b) := fun b hg => hg.set b hend
  obtain ⟨bits, hbits⟩ : ∃ bits, bits = gm.getBits it := ⟨_, rfl⟩
  have hbits' : gm'.getBits it = bits := (h.bits it hlt).trans hbits.symm
  obtain ⟨b, hb⟩ : ∃ b, b = (if getMemStatus bits = .undefined then setMemStatus bits .defined
      else bits) := ⟨_, rfl⟩
  -- the maps after a first store has defined the run
  obtain ⟨g, g', hg, hg', hsame⟩ : ∃ g g',
      (if getMemStatus bits = .undefined then
        ({ memmap := (MemMap.global gm).set it m b, nBadBytesForOverlap := n } : StoreState)
        else ⟨.global gm, n⟩) = ⟨.global g, n⟩ ∧
      (if getMemStatus bits = .undefined then
        ({ memmap := (MemMap.global gm').set it m b, nBadBytesForOverlap := n } : StoreState)
        else ⟨.global gm', n⟩) = ⟨.global g', n⟩ ∧ SameBytes g g' := by
    by_cases hu : getMemStatus bits = .undefined
    · exact ⟨gm.set it m b, gm'.set it m b, by rw [if_pos hu]; rfl, by rw [if_pos hu]; rfl,
        hset b h⟩
    · exact ⟨gm, gm', by rw [if_neg hu], by rw [if_neg hu], h⟩
  unfold Shadow.ShadowMemory.storeUnified
  simp only [MemMap.getBits, ← hbits, hbits', ← hb, hg, hg', ne_eq, not_true_eq_false, if_false]
  split_ifs
  · exact ⟨gm, gm', n, rfl, rfl, h⟩
  · exact ⟨_, _, n, rfl, rfl, hset _ hsame⟩
  · exact ⟨_, _, n, rfl, rfl, hset _ hsame⟩
  · exact ⟨g, g', n, rfl, rfl, hsame⟩
  · exact ⟨g, g', n, rfl, rfl, hsame⟩
  · exact ⟨_, _, _, rfl, rfl, hset _ hsame⟩
  · exact ⟨g, g', n, rfl, rfl, hsame⟩

/-- **A store does the same to two maps with the same bytes**, wherever its range ends. -/
lemma SameBytes.storeNBytesInRange {gm gm' : GmPM} (h : SameBytes gm gm') (atomicEnabled : Bool)
    (coreId : UInt8) (outOfBoundCheck : Bool) {addr size : ℕ} (hend : addr + size ≤ globalMemMask) :
    ∃ g g' n, storeNBytesInRange atomicEnabled (.global gm) addr size .gm coreId outOfBoundCheck =
        ⟨.global g, n⟩ ∧
      storeNBytesInRange atomicEnabled (.global gm') addr size .gm coreId outOfBoundCheck =
        ⟨.global g', n⟩ ∧ SameBytes g g' := by
  have hM := globalMemMask_eq
  unfold Shadow.ShadowMemory.storeNBytesInRange
  rw [add64_eq (by omega)]
  -- both walks are at the same place, in maps with the same bytes
  refine (walk_rel (fun it (s s' : StoreState) => addr ≤ it ∧ ∃ g g' n, s = ⟨.global g, n⟩ ∧
    s' = ⟨.global g', n⟩ ∧ SameBytes g g') ?_ ⟨le_rfl, gm, gm', 0, rfl, rfl, h⟩).elim
    fun _ hwalk => hwalk.2
  rintro it s s' hlt ⟨hle, g, g', n, rfl, rfl, hsame⟩
  obtain ⟨m, hm⟩ : ∃ m, m = g.unifiedSizeAfter addr size it := ⟨_, rfl⟩
  obtain ⟨-, hfit, -⟩ := hsame.wf.unifiedSizeAfter hle hlt hend hm
  have hm' := hsame.unifiedSizeAfter hle hlt hend
  simp only [MemMap.unifiedSizeAfter, ← hm', ← hm, true_and]
  exact ⟨by omega, hsame.storeUnified atomicEnabled coreId outOfBoundCheck n (by omega) (by omega)⟩

/-- A store keeps the map global and well formed, wherever its range ends. -/
lemma storeNBytesInRange_wf {gm : GmPM} (h : Wf gm) (atomicEnabled : Bool) (coreId : UInt8)
    (outOfBoundCheck : Bool) {addr size : ℕ} (hend : addr + size ≤ globalMemMask) :
    ∃ gm' n', storeNBytesInRange atomicEnabled (.global gm) addr size .gm coreId outOfBoundCheck =
      ⟨.global gm', n'⟩ ∧ Wf gm' := by
  obtain ⟨g, _, n, heq, _, hsame⟩ :=
    (sameBytes_refl h).storeNBytesInRange atomicEnabled coreId outOfBoundCheck hend
  exact ⟨g, n, heq, hsame.wf⟩

lemma clearLoop_wf {gm : GmPM} (h : Wf gm) {addr size : ℕ} (hend : addr + size ≤ globalMemMask) :
    Wf (walk (fun (gm : GmPM) it => gm.unifiedSizeAfter addr size it)
      (fun gm it unifiedSize => gm.set it unifiedSize (setCoreId (gm.getBits it) defaultCoreId))
      (addr + size) size addr gm) := by
  refine walk_inv (fun it g => addr ≤ it ∧ Wf g) Wf (fun _ hs => hs.2) ?_ (by omega) le_rfl
    ⟨le_rfl, h⟩
  rintro it g hlt ⟨hle, hw⟩
  obtain ⟨hone, hfit, -⟩ := hw.unifiedSizeAfter hle hlt hend rfl
  exact ⟨hone, hfit, by omega, wf_set hw _ (by omega)⟩

end MsSanitizer.ShadowBytes
