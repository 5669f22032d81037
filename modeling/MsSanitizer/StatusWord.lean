import MsSanitizer.SimtEntries
import MsSanitizer.SimtRace

/-!
# The status word of a byte

Thread, status, kind of memory, program counter and two flags share one 64-bit word. The device
packs it and the host unpacks it with the same shifts and masks. Every field but one comes back as
it was: the program counter is stored with 32 bits and read with the 16 of `PC_MASK`
(`roundTrip_iff`).
-/

namespace MsSanitizer.SimtRace

open OnlineShadow RecordDefs KernelRecords

inductive SyncState
  | impossibleRace | possibleRace
  deriving DecidableEq, Repr

def SyncState.code : SyncState → ℕ
  | .impossibleRace => 0 | .possibleRace => 1

/-- `MemoryByteStatusParser::Construct` with all its arguments. -/
def constructSync (memoryStatus : MemoryByteStatus) (threadId pc : ℕ)
    (memoryType : OnlineMemoryType) (isAtomic : Bool) (syncThreadState : SyncState) : ℕ :=
  (pc <<< 32) % 2 ^ 64 ||| (syncThreadState.code &&& 0x1) <<< 31 |||
    (memoryType.code &&& 0x1) <<< 30 ||| (isAtomic.toNat &&& 0x1) <<< 15 |||
    (memoryStatus.code &&& 0xF) <<< 11 ||| (threadId &&& 0x7FF)

/-- `ResetSyncStatus` with both its arguments. -/
def resetSyncStatusTo (value syncState : ℕ) : ℕ :=
  value &&& (2 ^ 64 - 1 - 1 <<< 31) ||| (syncState &&& 0x1) <<< 31

/-- What the loop of `ParseSimtEntryRecord` reads from a status. -/
structure EntryStatus where
  memType : ℕ
  memStatus : Option MemoryByteStatus
  threadId : ℕ
  pc : ℕ
  deriving DecidableEq, Repr

def parseStatus (status : ℕ) : EntryStatus :=
  { memType := (status >>> 30) &&& 0x1
    memStatus := MemoryByteStatus.ofCode ((status >>> 11) &&& 0xF)
    threadId := status &&& 0x7FF
    pc := (status >>> 32) &&& 0xFFFF }

def OnlineMemoryType.space : OnlineMemoryType → AddressSpace
  | .gm => .gm | .ub => .ub

def MemoryByteStatus.accessType : MemoryByteStatus → AccessType
  | .read | .globalRead => .read
  | _ => .write

/-- All that is asked of the word `w` made of these values: the extractions return them, a reset
changes the sync state only, and the host reads what the device stored and reports it. -/
structure RoundTrip (w : ℕ) (s : MemoryByteStatus) (threadId pc : ℕ) (m : OnlineMemoryType)
    (isAtomic : Bool) (sync : SyncState) : Prop where
  memoryStatus : extractMemoryStatus w = some s
  thread : extractThreadId w = threadId
  counter : extractPc w = pc
  memoryType : extractMemoryType w = m.code
  atomic : extractAtomicStatus w = isAtomic
  syncState : extractSyncStatus w = sync.code
  reset : ∀ y : SyncState, extractSyncStatus (resetSyncStatusTo w y.code) = y.code ∧
    ∀ i ≠ 31, (resetSyncStatusTo w y.code).testBit i = w.testBit i
  parsed : parseStatus w = ⟨m.code, some s, threadId, pc⟩
  reported : ∀ (ctx : Context) (h : SimtEntryBlockHead) (addr size : ℕ),
    shadowMemoryRecord ctx h ⟨addr, w, size⟩ =
      { addr := addr, size := size, pc := calRecordPc ctx.pcStartAddr pc, blockId := ctx.blockId
        threadLoc := decomposeThreadId threadId h, space := m.space, accessType := s.accessType }

/-! ### The fields -/

lemma MemoryByteStatus.code_lt (s : MemoryByteStatus) : s.code < 2 ^ 4 := by cases s <;> decide

lemma MemoryByteStatus.ofCode_code (s : MemoryByteStatus) : ofCode s.code = some s := by
  cases s <;> rfl

lemma OnlineMemoryType.code_lt (m : OnlineMemoryType) : m.code < 2 := by cases m <;> decide

lemma SyncState.code_lt (y : SyncState) : y.code < 2 := by cases y <;> decide

lemma SyncState.code_and (y : SyncState) : y.code &&& 0x1 = y.code := by cases y <;> rfl

lemma constructSync_eq (s : MemoryByteStatus) {t : ℕ} (ht : t < 2 ^ 11) (pc : ℕ)
    (m : OnlineMemoryType) (x : Bool) (y : SyncState) :
    constructSync s t pc m x y = pc % 2 ^ 32 * 2 ^ 32 + y.code * 2 ^ 31 + m.code * 2 ^ 30 +
      x.toNat * 2 ^ 15 + s.code * 2 ^ 11 + t :=
  pack_eq pc y.code_lt m.code_lt (Bool.toNat_lt x) s.code_lt ht

lemma constructSync_lt (s : MemoryByteStatus) {t : ℕ} (ht : t < 2 ^ 11) (pc : ℕ)
    (m : OnlineMemoryType) (x : Bool) (y : SyncState) : constructSync s t pc m x y < 2 ^ 64 := by
  have hs := s.code_lt
  have hm := m.code_lt
  have hy := y.code_lt
  have hx := Bool.toNat_lt x
  rw [constructSync_eq s ht]
  omega

lemma fields_constructSync (s : MemoryByteStatus) {t : ℕ} (ht : t < 2 ^ 11) (pc : ℕ)
    (m : OnlineMemoryType) (x : Bool) (y : SyncState) :
    let w := constructSync s t pc m x y
    (w >>> 11) &&& 0xF = s.code ∧ w &&& 0x7FF = t ∧ (w >>> 32) &&& 0xFFFF = pc % 2 ^ 16 ∧
      (w >>> 31) &&& 0x1 = y.code ∧ (w >>> 30) &&& 0x1 = m.code ∧
      (w >>> 15) &&& 0x1 = x.toNat := by
  have hs := s.code_lt
  have hm := m.code_lt
  have hy := y.code_lt
  have hx := Bool.toNat_lt x
  intro w
  have hw : w = pc % 2 ^ 32 * 2 ^ 32 + y.code * 2 ^ 31 + m.code * 2 ^ 30 + x.toNat * 2 ^ 15 +
      s.code * 2 ^ 11 + t := constructSync_eq s ht pc m x y
  refine ⟨(field_eq w 11 4).trans ?_, (Nat.and_two_pow_sub_one_eq_mod w 11).trans ?_,
    (field_eq w 32 16).trans ?_, (field_eq w 31 1).trans ?_, (field_eq w 30 1).trans ?_,
    (field_eq w 15 1).trans ?_⟩ <;> omega

/-- A reset leaves all bits of a 64-bit word but the one of the sync state. -/
lemma testBit_resetSyncStatusTo {w : ℕ} (hw : w < 2 ^ 64) (y : ℕ) {i : ℕ} (hi : i ≠ 31) :
    (resetSyncStatusTo w y).testBit i = w.testBit i := by
  have hmask : (2 ^ 64 - 1 - 1 <<< 31 : ℕ).testBit i = (decide (i < 64) && !decide (i = 31)) := by
    rw [show (2 ^ 64 - 1 - 1 <<< 31 : ℕ) = 2 ^ 64 - (2 ^ 31 + 1) by rfl,
      Nat.testBit_two_pow_sub_succ (by norm_num), Nat.testBit_two_pow]
    congr 2
    exact decide_eq_decide.mpr eq_comm
  have hbit : ((y &&& 0x1) <<< 31).testBit i = false := by
    rw [Nat.testBit_shiftLeft, Nat.testBit_and]
    by_cases h31 : 31 ≤ i
    · have hone : Nat.testBit 1 (i - 31) = false := by
        rw [← Bool.not_eq_true, Nat.testBit_one_eq_true_iff_self_eq_zero]
        omega
      rw [hone, Bool.and_false, Bool.and_false]
    · rw [decide_eq_false h31, Bool.false_and]
  rw [resetSyncStatusTo, Nat.testBit_or, Nat.testBit_and, hmask, hbit, Bool.or_false]
  by_cases h64 : i < 64
  · simp [h64, hi]
  · have hzero : w.testBit i = false :=
      Nat.testBit_lt_two_pow (hw.trans_le (Nat.pow_le_pow_right two_pos (by omega)))
    simp [hzero]

lemma extractSyncStatus_resetSyncStatusTo (w : ℕ) (y : SyncState) :
    extractSyncStatus (resetSyncStatusTo w y.code) = y.code := by
  have hclear : ((w &&& (2 ^ 64 - 1 - 1 <<< 31)) >>> 31) &&& 0x1 = 0 := by
    rw [Nat.shiftRight_and_distrib, Nat.and_assoc]
    exact Nat.and_zero _
  rw [extractSyncStatus, resetSyncStatusTo, Nat.shiftRight_or_distrib, Nat.and_or_distrib_right,
    hclear, Nat.zero_or, y.code_and, Nat.shiftLeft_shiftRight, y.code_and]

/-- What the host reports is what it reads from the status. -/
lemma shadowMemoryRecord_eq (ctx : Context) (h : SimtEntryBlockHead) {r : SimtEntryRecord}
    {s : MemoryByteStatus} {t pc : ℕ} {m : OnlineMemoryType}
    (hr : parseStatus r.status = ⟨m.code, some s, t, pc⟩) :
    shadowMemoryRecord ctx h r =
      { addr := r.addr, size := r.size, pc := calRecordPc ctx.pcStartAddr pc
        blockId := ctx.blockId, threadLoc := decomposeThreadId t h, space := m.space
        accessType := s.accessType } := by
  obtain ⟨hm, hs, ht, hpc⟩ := EntryStatus.mk.inj hr
  rw [shadowMemoryRecord, ht, hpc, hm]
  congr 1
  · cases m <;> rfl
  · have hcode : ∀ n < 16, MemoryByteStatus.ofCode n = some s →
        (if isReadStatus n then AccessType.read else .write) = s.accessType := by
      cases s <;> decide
    refine hcode _ ?_ hs
    rw [show 0xF = 2 ^ 4 - 1 by rfl, field_eq]
    exact Nat.mod_lt _ (by norm_num)

/-- **The status word.** The round trip holds exactly for a program counter of 16 bits. -/
theorem roundTrip_iff (s : MemoryByteStatus) (threadId : ℕ) (ht : threadId < 2048) (pc : ℕ)
    (m : OnlineMemoryType) (isAtomic : Bool) (sync : SyncState) :
    RoundTrip (constructSync s threadId pc m isAtomic sync) s threadId pc m isAtomic sync ↔
      pc < 2 ^ 16 := by
  obtain ⟨hstatus, hthread, hcounter, hsync, htype, hatomic⟩ :=
    fields_constructSync s ht pc m isAtomic sync
  constructor
  · intro h
    have hmod := h.counter
    rw [extractPc, hcounter] at hmod
    rw [← hmod]
    exact Nat.mod_lt _ (by norm_num)
  · intro hlt
    rw [Nat.mod_eq_of_lt hlt] at hcounter
    have hparsed : parseStatus (constructSync s threadId pc m isAtomic sync) =
        ⟨m.code, some s, threadId, pc⟩ := by
      rw [parseStatus, hstatus, hthread, hcounter, htype, s.ofCode_code]
    exact
      { memoryStatus := by rw [extractMemoryStatus, hstatus, s.ofCode_code]
        thread := hthread
        counter := hcounter
        memoryType := htype
        atomic := by
          rw [extractAtomicStatus, hatomic]
          cases isAtomic <;> rfl
        syncState := hsync
        reset := fun y => ⟨extractSyncStatus_resetSyncStatusTo _ y, fun i hi =>
          testBit_resetSyncStatusTo (constructSync_lt s ht pc m isAtomic sync) _ hi⟩
        parsed := hparsed
        reported := fun ctx h _ _ => shadowMemoryRecord_eq ctx h hparsed }

theorem roundTrip_iff_at : RoundTrip (constructSync .write 5 0x1234 .ub true .impossibleRace)
    .write 5 0x1234 .ub true .impossibleRace :=
  (roundTrip_iff .write 5 (by decide) 0x1234 .ub true .impossibleRace).mpr (by decide)

/-- A store at the program counter `0x10000` reads as one at `0`. -/
theorem roundTrip_fails :
    ¬ RoundTrip (constructSync .write 0 0x10000 .gm false .possibleRace) .write 0 0x10000 .gm false
      .possibleRace := by
  intro h
  exact absurd h.counter (by decide)

end MsSanitizer.SimtRace
