import MsSanitizer.Frontier
import MsSanitizer.HostMemory

/-!
# Ranges of other devices

`PeerCovers` asks whether the ranges that one other device grants cover an access. The table is in
no order, ranges may overlap, and an access may run over several of them. For each device of the
table a frontier is moved to the furthest end of a range around it, as often as it moves.
-/

namespace MsSanitizer.OnlineCheck

open RecordDefs Frontier
open Bounds (hasPermission)

/-- A range of the device that does not wrap, with the permission, and a byte of it. -/
def Grants (opType : AccessType) (device : ℤ) (x : ℕ) (memory : PeerMemoryInfo) : Prop :=
  memory.deviceId = device ∧ memory.addr + memory.size < 2 ^ 64 ∧
    hasPermission memory.permission opType = true ∧
    memory.addr ≤ x ∧ x < memory.addr + memory.size

instance (opType : AccessType) (device : ℤ) (x : ℕ) : DecidablePred (Grants opType device x) :=
  fun _ => inferInstanceAs (Decidable (_ ∧ _))

variable {peers : List PeerMemoryInfo} {opType : AccessType} {device : ℤ}

lemma reach_eq (covered far : ℕ) (memory : PeerMemoryInfo) :
    reach opType device covered far memory =
      if Grants opType device covered memory then max far (memory.addr + memory.size)
      else far := by
  unfold reach Grants
  by_cases hp : hasPermission memory.permission opType = true
  · simp only [hp, Bool.true_eq_false, or_false, true_and]
    split_ifs <;> omega
  · rw [Bool.not_eq_true] at hp
    simp [hp]

/-- The fold over the table: no granting range reaches further, and one reaches as far. -/
lemma foldl_reach_spec (peers : List PeerMemoryInfo) (opType : AccessType) (device : ℤ)
    (covered far : ℕ) :
    (∀ m ∈ peers, Grants opType device covered m →
        m.addr + m.size ≤ peers.foldl (reach opType device covered) far) ∧
      far ≤ peers.foldl (reach opType device covered) far ∧
      (peers.foldl (reach opType device covered) far = far ∨
        ∃ m ∈ peers, Grants opType device covered m ∧
          peers.foldl (reach opType device covered) far = m.addr + m.size) := by
  induction peers generalizing far with
  | nil => simp
  | cons memory peers ih =>
    obtain ⟨hall, hle, hsome⟩ := ih (reach opType device covered far memory)
    rw [List.foldl_cons]
    generalize hfold : peers.foldl _ _ = f at hall hle hsome ⊢
    rw [reach_eq] at hle hsome
    by_cases hg : Grants opType device covered memory
    · rw [if_pos hg] at hle hsome
      refine ⟨fun m hm hgm => ?_, (le_max_left _ _).trans hle, ?_⟩
      · rcases List.mem_cons.mp hm with rfl | hm
        · exact (le_max_right _ _).trans hle
        · exact hall m hm hgm
      · rcases hsome with heq | ⟨m, hm, hgm, heq⟩
        · rcases max_choice far (memory.addr + memory.size) with hmax | hmax
          · exact .inl (heq.trans hmax)
          · exact .inr ⟨memory, List.mem_cons_self, hg, heq.trans hmax⟩
        · exact .inr ⟨m, List.mem_cons_of_mem _ hm, hgm, heq⟩
    · rw [if_neg hg] at hle hsome
      refine ⟨fun m hm hgm => ?_, hle, ?_⟩
      · rcases List.mem_cons.mp hm with rfl | hm
        · exact absurd hgm hg
        · exact hall m hm hgm
      · rcases hsome with heq | ⟨m, hm, hgm, heq⟩
        · exact .inl heq
        · exact .inr ⟨m, List.mem_cons_of_mem _ hm, hgm, heq⟩

lemma advances_furthest :
    Advances (furthest peers opType device) fun x => ∃ m ∈ peers, Grants opType device x m where
  le := le_furthest peers opType device
  covers c x hcx hx := by
    rcases (foldl_reach_spec peers opType device c c).2.2 with
      heq | ⟨m, hm, ⟨hdevice, hwrap, hpermission, hlo, -⟩, heq⟩
    · rw [furthest, heq] at hx
      omega
    · rw [furthest, heq] at hx
      exact ⟨m, hm, hdevice, hwrap, hpermission, hlo.trans hcx, hx⟩
  stuck c hstuck := by
    rintro ⟨m, hm, hg⟩
    have hle := (foldl_reach_spec peers opType device c c).1 m hm hg
    rw [← furthest, hstuck] at hle
    exact absurd hg.2.2.2.2 (not_lt.mpr hle)

lemma rests_coveredUpTo (endAddr covered : ℕ) :
    Rests (furthest peers opType device) endAddr covered
      (coveredUpTo peers opType device endAddr covered) := by
  induction covered using coveredUpTo.induct peers opType device endAddr with
  | case1 covered hlt far hstuck =>
    rw [coveredUpTo, if_pos hlt]
    simp only
    rw [if_pos hstuck]
    exact .stuck hstuck
  | case2 covered hlt far hmove ih =>
    rw [coveredUpTo, if_pos hlt]
    simp only
    rw [if_neg hmove]
    exact .move hlt ih
  | case3 covered hle =>
    rw [coveredUpTo, if_neg hle]
    exact .passed (not_lt.mp hle)

/-- **Coverage by another device.** For every device the frontier comes to rest, and an access is
covered exactly if it has bytes, does not wrap, and one device grants all of them. -/
theorem peerCovers_iff (peers : List PeerMemoryInfo) (access : AddrInfo) :
    (∀ device, ∃ r, Rests (furthest peers access.opType device) (access.addr + access.size)
      access.addr r) ∧
    (peerCovers peers access = true ↔
      access.size ≠ 0 ∧ access.addr + access.size < 2 ^ 64 ∧
        ∃ device, ∀ x ∈ bytes access, ∃ m ∈ peers, Grants access.opType device x m) := by
  refine ⟨fun device => ⟨_, rests_coveredUpTo _ _⟩, ?_⟩
  have hcovered : ∀ device, access.addr + access.size ≤
        coveredUpTo peers access.opType device (access.addr + access.size) access.addr ↔
      ∀ x ∈ bytes access, ∃ m ∈ peers, Grants access.opType device x m := by
    intro device
    rw [(rests_coveredUpTo _ _).le_iff advances_furthest]
    simp only [bytes, Finset.mem_Ico, and_imp]
  unfold peerCovers
  by_cases hempty : access.size = 0 ∨ 2 ^ 64 - 1 - access.addr < access.size
  · rw [if_pos hempty]
    refine iff_of_false Bool.false_ne_true ?_
    rintro ⟨hsize, hwrap, -⟩
    omega
  · rw [if_neg hempty]
    simp only [List.any_eq_true, decide_eq_true_eq, hcovered]
    constructor
    · rintro ⟨candidate, -, hall⟩
      exact ⟨by omega, by omega, candidate.deviceId, hall⟩
    · rintro ⟨hsize, -, device, hall⟩
      -- a device that grants the first byte is in the table
      obtain ⟨m, hm, hg⟩ := hall access.addr (Finset.mem_Ico.mpr ⟨le_rfl, by omega⟩)
      exact ⟨m, hm, hg.1 ▸ hall⟩

end MsSanitizer.OnlineCheck
