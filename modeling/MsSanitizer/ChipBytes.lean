import MsSanitizer.PmBytes
import MsSanitizer.ShadowBytes

/-!
# The loops of the shadow memory on chip

The memories on chip are kept by one primary map each. A store only marks their bytes as defined;
a byte has no owner.
-/

namespace MsSanitizer.ChipBytes

open MsSanitizer.RecordDefs MsSanitizer.Words MsSanitizer.RangeWrites MsSanitizer.Pm
open MsSanitizer.Shadow MsSanitizer.Shadow.ShadowMemory MsSanitizer.ShadowBytes MsSanitizer.PmBytes

variable {pm : PM} {addr size : ℕ}

/-- The next run of a walk: it is not empty, stays in the range and is uniform. -/
lemma unified (pm : PM) (hend : addr + size < 2 ^ 36) {it : ℕ} (hlt : it < addr + size) :
    1 ≤ pm.unifiedSizeAfter addr size it ∧
      it + pm.unifiedSizeAfter addr size it ≤ addr + size ∧
      ∀ k < pm.unifiedSizeAfter addr size it, pm.getBits (it + k) = pm.getBits it := by
  obtain ⟨⟨hone, hle, hall⟩, -⟩ := unifiedSizeAfter_spec pm hlt hend
  have hbound := hle.trans (min_le_left _ _)
  exact ⟨hone, by omega, hall⟩

/-- The number of bytes of a range of a map whose bits satisfy `pred`. -/
def countBits (pm : PM) (addr size : ℕ) (pred : UInt8 → Bool) : ℕ :=
  Nat.count (fun k => pred (pm.getBits (addr + k)) = true) size

/-- **The reading loop counts bytes.** -/
lemma countUnified_chip (pm : PM) (hend : addr + size < 2 ^ 36) (pred : UInt8 → Bool) :
    (MemMap.chip pm).countUnified addr size pred = countBits pm addr size pred := by
  unfold MemMap.countUnified
  rw [add64_eq (by omega)]
  refine walk_inv (fun it n => addr ≤ it ∧ n = countBits pm addr (it - addr) pred)
    (fun n => n = countBits pm addr size pred) ?_ ?_ (by omega) le_rfl
    ⟨le_rfl, by simp [countBits]⟩
  · rintro n ⟨-, rfl⟩
    rw [Nat.add_sub_cancel_left]
  · rintro it n hlt ⟨hle, rfl⟩
    obtain ⟨d, rfl⟩ := Nat.exists_eq_add_of_le hle
    obtain ⟨hone, hfit, hall⟩ := unified pm hend hlt
    refine ⟨hone, hfit, by omega, ?_⟩
    have hsub : addr + d + pm.unifiedSizeAfter addr size (addr + d) - addr
        = d + pm.unifiedSizeAfter addr size (addr + d) := by omega
    have hd : addr + d - addr = d := by omega
    have hcount : countBits pm addr d pred ≤ d := Nat.count_le _
    have hrun := count_add_run pm.getBits addr d pred hall
    unfold countBits at hcount ⊢
    simp only [MemMap.getBits, MemMap.unifiedSizeAfter, hsub, hd, hrun]
    split_ifs
    · exact add64_eq (by omega)
    · rfl

def defineBits (bits : UInt8) : UInt8 :=
  if getMemStatus bits = .undefined then setMemStatus bits .defined else bits

/-- The map `pm'` is `pm` with the bytes of the range changed by `f`. -/
structure ChipChanged (pm pm' : PM) (addr size : ℕ) (f : UInt8 → UInt8) : Prop where
  blocks : pm'.smNum = pm.smNum
  bits : ∀ a < 2 ^ 36,
    pm'.getBits a = if addr ≤ a ∧ a < addr + size then f (pm.getBits a) else pm.getBits a

lemma chipChanged_nil (pm : PM) (addr : ℕ) (f : UInt8 → UInt8) : ChipChanged pm pm addr 0 f :=
  ⟨rfl, fun a _ => by rw [if_neg (by omega)]⟩

/-- A change of the next run extends a change of the range before it. -/
lemma ChipChanged.append {pm pm' pm'' : PM} {d m : ℕ} {f : UInt8 → UInt8}
    (h : ChipChanged pm pm' addr d f) (h' : ChipChanged pm' pm'' (addr + d) m f) :
    ChipChanged pm pm'' addr (d + m) f := by
  refine ⟨h'.blocks.trans h.blocks, fun a ha => ?_⟩
  rw [h'.bits a ha, h.bits a ha]
  split_ifs <;> first | rfl | omega

lemma storeUnified_chip {space : AddressSpace} (hs : space ≠ .gm) (atomicEnabled : Bool)
    (coreId : UInt8) (outOfBoundCheck : Bool) {it m : ℕ} (n : ℕ)
    (hend : it + m ≤ blockSize * pm.smNum) (hlt : it + m < 2 ^ 36)
    (hall : ∀ k < m, pm.getBits (it + k) = pm.getBits it) :
    ∃ pm', storeUnified atomicEnabled space coreId outOfBoundCheck ⟨.chip pm, n⟩ it m =
        ⟨.chip pm', n⟩ ∧ ChipChanged pm pm' it m defineBits := by
  have hrun : ∀ a, it ≤ a → a < it + m → pm.getBits a = pm.getBits it := by
    intro a h1 h2
    obtain ⟨k, rfl⟩ := Nat.exists_eq_add_of_le h1
    exact hall k (by omega)
  unfold storeUnified
  simp only [MemMap.getBits]
  by_cases hu : getMemStatus (pm.getBits it) = .undefined
  · -- the run is defined as a whole
    refine ⟨pm.set it m (setMemStatus (pm.getBits it) .defined), ?_, set_smNum .., ?_⟩
    · simp only [hu, if_true, reduceCtorEq, if_false, ne_eq, hs, not_false_eq_true]
      rfl
    · intro a ha
      rw [getBits_set _ hend hlt ha]
      split_ifs with hin
      · rw [hrun a hin.1 hin.2, defineBits, if_pos hu]
      · rfl
  · refine ⟨pm, ?_, rfl, ?_⟩
    · simp only [hu, if_false, ne_eq, hs, not_false_eq_true, if_true]
      split_ifs <;> rfl
    · intro a ha
      split_ifs with hin
      · rw [hrun a hin.1 hin.2, defineBits, if_neg hu]
      · rfl

/-- **A store on chip, byte by byte.** -/
lemma storeNBytesInRange_chip {space : AddressSpace} (hs : space ≠ .gm) (atomicEnabled : Bool)
    (coreId : UInt8) (outOfBoundCheck : Bool) (hend : addr + size ≤ blockSize * pm.smNum)
    (hlt : addr + size < 2 ^ 36) :
    ∃ pm', storeNBytesInRange atomicEnabled (.chip pm) addr size space coreId outOfBoundCheck =
      ⟨.chip pm', 0⟩ ∧ ChipChanged pm pm' addr size defineBits := by
  unfold storeNBytesInRange
  rw [add64_eq (by omega)]
  refine walk_inv (fun it (s : StoreState) => addr ≤ it ∧ ∃ pm', s = ⟨.chip pm', 0⟩ ∧
      ChipChanged pm pm' addr (it - addr) defineBits)
    (fun (s : StoreState) => ∃ pm', s = ⟨.chip pm', 0⟩ ∧
      ChipChanged pm pm' addr size defineBits)
    ?_ ?_ (by omega) le_rfl ⟨le_rfl, pm, rfl, ?_⟩
  · rintro s ⟨-, pm', hs, hc⟩
    rw [Nat.add_sub_cancel_left] at hc
    exact ⟨pm', hs, hc⟩
  · rintro it s hit ⟨hle, pm', rfl, hc⟩
    obtain ⟨d, rfl⟩ := Nat.exists_eq_add_of_le hle
    rw [Nat.add_sub_cancel_left] at hc
    obtain ⟨hone, hfit, hall⟩ := unified pm' hlt hit
    obtain ⟨pm'', heq, hc'⟩ := storeUnified_chip hs atomicEnabled coreId outOfBoundCheck 0
      (hfit.trans (hc.blocks.symm ▸ hend)) (lt_of_le_of_lt hfit hlt) hall
    have hsub : addr + d + pm'.unifiedSizeAfter addr size (addr + d) - addr
        = d + pm'.unifiedSizeAfter addr size (addr + d) := by omega
    simp only [MemMap.unifiedSizeAfter, heq, hsub]
    exact ⟨hone, hfit, by omega, pm'', rfl, hc.append hc'⟩
  · rw [Nat.sub_self]
    exact chipChanged_nil pm addr _

end MsSanitizer.ChipBytes
