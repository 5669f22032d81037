import MsSanitizer.InCoreRaces
import MsSanitizer.SinglePipeRaceAlgImpl

/-!
# The races of a pipe

The whole check of `SinglePipeRaceAlgImpl`: `Run` replays the pipes, and `RunAlgorithm` compares the
memory events. What is reported is said of the events of the pipes alone: two operations of a pipe
on common bytes, at most sixteen instructions apart and with no barrier between them.
-/

namespace MsSanitizer.SinglePipeRaceAlgImpl

open RecordDefs EventDef PipeLine MemEventChecker MemSeries
open BlockReplay (report)

/-! ## Counting instructions -/

def changes : List ℕ → ℕ
  | a :: b :: l => (if a = b then 0 else 1) + changes (b :: l)
  | _ => 0

lemma changes_append (l : List ℕ) (a : ℕ) (l' : List ℕ) :
    changes (l ++ a :: l') = changes (l ++ [a]) + changes (a :: l') := by
  induction l with
  | nil => simp [changes]
  | cons b l ih =>
    cases l with
    | nil => simp [changes]
    | cons c l =>
      simp only [List.cons_append, changes] at ih ⊢
      omega

lemma changes_lt_length (a : ℕ) (l : List ℕ) : changes (a :: l) ≤ l.length := by
  induction l generalizing a with
  | nil => exact le_rfl
  | cons b l ih =>
    have := ih b
    rw [changes, List.length_cons]
    split_ifs <;> omega

lemma foldl_nextSerial {s : ℕ × ℕ} {l : List ℕ} (h : s.2 + l.length < 2 ^ 64) :
    (l.foldl nextSerial s).2 = s.2 + changes (s.1 :: l) := by
  induction l generalizing s with
  | nil => rfl
  | cons a l ih =>
    rw [List.length_cons] at h
    rw [List.foldl_cons, changes, nextSerial]
    by_cases ha : s.1 = a
    · rw [if_neg (not_not_intro ha), if_pos ha, ih (by omega), ha, Nat.zero_add]
    · rw [if_pos ha, if_neg ha, Nat.mod_eq_of_lt (by omega), ih (by simp only; omega)]
      simp only
      omega

/-! ## Races -/

/-- The number of instructions from one event of a pipe to another one. -/
def distance (dt : DeviceType) (l : List SanEvent) (i j : ℕ) : ℕ :=
  changes (serials dt ((l.take (j + 1)).drop i))

/-- Two memory operations of a pipe race: they belong to different instructions, which are near and
have no barrier and no end of a ring between them, they clash, and they are neither both atomic nor
ordered by the matrix unit. -/
structure Races (dt : DeviceType) (l : List SanEvent) (i j : ℕ) (e1 e2 : SanEvent) : Prop where
  lt : i < j
  left : l[i]? = some e1
  right : l[j]? = some e2
  leftChecked : isChecked dt e1 = true
  rightChecked : isChecked dt e2 = true
  serial : e1.serialNo ≠ e2.serialNo
  near : distance dt l i j ≤ maxSerialNumberDiff
  noBarrier : ∀ k e, i < k → k < j → l[k]? = some e → isBarrier e = false
  noRing : e2.closedRingStartSerialNo < e1.serialNo ∧ e1.closedRingStartSerialNo < e2.serialNo
  clash : ∃ op1 op2, e1.info = .mem op1 ∧ e2.info = .mem op2 ∧ Clash op1 op2
  atomic : isAtomicAgainst (.ofEvent e1) (.ofEvent e2) = false
  unaided : ¬ (distance dt l i j = 1 ∧ isLargeMatmulAccess (.ofEvent e1) = true ∧
    isLargeMatmulAccess (.ofEvent e2) = true)

variable {a : SinglePipeRaceAlgImpl} {dt : DeviceType} {p : PipeType} {l events : List SanEvent}
  {i j : ℕ} {e e1 e2 : SanEvent} {c h : ℕ}

lemma serials_take_succ (hi : l[i]? = some e) (hc : isChecked dt e = true) :
    serials dt (l.take (i + 1)) = serials dt (l.take i) ++ [e.serialNo] := by
  rw [List.take_add_one, hi, serials_append]
  simp [serials, hc]

/-- The counters of instructions of two events tell their distance. -/
lemma pipeSerialNo_eq (hij : i ≤ j) (hi : l[i]? = some e1) (hj : l[j]? = some e2)
    (h1 : isChecked a.deviceType e1 = true) (hpipe : e1.pipe = e2.pipe)
    (hroom : (a.pipeSerialNo e1.pipe).2 + l.length < 2 ^ 64) :
    (checkedAt a (l.take j) e2).pipeSerialNo =
        (checkedAt a (l.take i) e1).pipeSerialNo + distance a.deviceType l i j ∧
      (checkedAt a (l.take j) e2).pipeSerialNo ≤ (a.pipeSerialNo e1.pipe).2 + l.length := by
  have hsucc : ∀ {n e}, l[n]? = some e → l.take n ++ [e] = l.take (n + 1) := by
    intro n e hn
    rw [List.take_add_one, hn, Option.toList_some]
  have hlen : ∀ n, (serials a.deviceType (l.take n)).length ≤ l.length := by
    intro n
    rw [serials, List.length_map]
    exact (List.length_filter_le _ _).trans (List.length_take_le' _ _)
  have hcount : ∀ n, ((serials a.deviceType (l.take n)).foldl nextSerial
      (a.pipeSerialNo e1.pipe)).2 = (a.pipeSerialNo e1.pipe).2 +
        changes ((a.pipeSerialNo e1.pipe).1 :: serials a.deviceType (l.take n)) := by
    intro n
    have := hlen n
    exact foldl_nextSerial (by omega)
  -- the events up to the second one are those before the first one and those from it on
  have hsplit : changes ((a.pipeSerialNo e1.pipe).1 :: serials a.deviceType (l.take (j + 1))) =
      changes ((a.pipeSerialNo e1.pipe).1 :: serials a.deviceType (l.take (i + 1))) +
        distance a.deviceType l i j := by
    have hlt : i < (l.take (j + 1)).length := by
      have := (List.getElem?_eq_some_iff.mp hj).1
      rw [List.length_take]
      omega
    have hat : (l.take (j + 1))[i] = e1 := by
      rw [List.getElem_take]
      exact (List.getElem?_eq_some_iff.mp hi).2
    have hdrop := List.drop_eq_getElem_cons hlt
    rw [hat] at hdrop
    have hser : serials a.deviceType ((l.take (j + 1)).drop i) = e1.serialNo ::
        serials a.deviceType ((l.take (j + 1)).drop (i + 1)) := by
      rw [hdrop]
      simp [serials, h1]
    rw [serials_take_succ hi h1, distance, hser, ← List.cons_append, ← changes_append,
      ← hser, List.cons_append, ← serials_append]
    have htake : l.take i = (l.take (j + 1)).take i := by
      rw [List.take_take, min_eq_left (by omega)]
    rw [htake, List.take_append_drop]
  have hbound := changes_lt_length (a.pipeSerialNo e1.pipe).1
    (serials a.deviceType (l.take (j + 1)))
  have hle := hlen (j + 1)
  simp only [checkedAt, ← hpipe, hsucc hi, hsucc hj, hcount]
  omega

/-- The counters of barriers of two events tell whether there is a barrier between them. -/
lemma barrierNo_eq_iff (hij : i < j) (hi : l[i]? = some e1)
    (h1 : isChecked a.deviceType e1 = true) (hpipe : e1.pipe = e2.pipe)
    (hlen : l.length < 2 ^ 32) :
    (checkedAt a (l.take i) e1).barrierNo = (checkedAt a (l.take j) e2).barrierNo ↔
      ∀ k e, i < k → k < j → l[k]? = some e → isBarrier e = false := by
  have htake : l.take j = l.take i ++ (l.take j).drop i := by
    have : l.take i = (l.take j).take i := by rw [List.take_take, min_eq_left hij.le]
    rw [this, List.take_append_drop]
  have hle : ((l.take j).drop i).countP isBarrier < 2 ^ 32 := by
    refine lt_of_le_of_lt (List.countP_le_length.trans ?_) hlen
    rw [List.length_drop, List.length_take]
    omega
  have hzero : (checkedAt a (l.take i) e1).barrierNo = (checkedAt a (l.take j) e2).barrierNo ↔
      ((l.take j).drop i).countP isBarrier = 0 := by
    simp only [checkedAt, ← hpipe]
    rw [htake, List.countP_append, ← htake]
    omega
  rw [hzero, List.countP_eq_zero]
  constructor
  · intro h k e hik hkj hk
    refine Bool.eq_false_iff.mpr (h e (List.mem_of_getElem? (i := k - i) ?_))
    rw [List.getElem?_drop, Nat.add_sub_cancel' hik.le, List.getElem?_take_of_lt hkj, hk]
  · intro h e he
    obtain ⟨n, hn⟩ := List.getElem?_of_mem he
    rw [List.getElem?_drop, List.getElem?_take] at hn
    split_ifs at hn with hlt
    rcases Nat.eq_zero_or_pos n with rfl | hpos
    · rw [Nat.add_zero, hi, Option.some_inj] at hn
      exact Bool.eq_false_iff.mp (hn ▸ not_isBarrier_of_isChecked h1)
    · exact Bool.eq_false_iff.mp (h (i + n) e (by omega) hlt hn)

/-! ## The check -/

/-- What the check asks of two events besides a common byte. -/
def Passes (x y : MemEvent) : Prop :=
  x.memInfo.memType = y.memInfo.memType ∧ x.pipe = y.pipe ∧ x.serialNo ≠ y.serialNo ∧
    isAtomicAgainst x y = false ∧ serialDiff x y ≤ maxSerialNumberDiff ∧
    x.barrierNo = y.barrierNo ∧ isMatmulAccumOrderedByHardware x y = false ∧
    y.closedRingStartSerialNo < x.serialNo ∧ x.closedRingStartSerialNo < y.serialNo

lemma serialDiff_comm (x y : MemEvent) : serialDiff x y = serialDiff y x := by
  unfold serialDiff
  split_ifs <;> omega

lemma Passes.symm {x y : MemEvent} (h : Passes x y) : Passes y x := by
  obtain ⟨h1, h2, h3, h4, h5, h6, h7, h8, h9⟩ := h
  refine ⟨h1.symm, h2.symm, h3.symm, ?_, serialDiff_comm x y ▸ h5, h6.symm, ?_, h9, h8⟩
  · rw [isAtomicAgainst, Bool.and_comm]
    exact h4
  · rw [isMatmulAccumOrderedByHardware, serialDiff_comm y x, Bool.and_comm (isLargeMatmulAccess y)]
    exact h7

lemma isSinglePipeRaceEvent_iff {checked : List MemEvent}
    (hc : (eventAt checked c).isDynamic = false) (hh : (eventAt checked h).isDynamic = false) :
    (isSinglePipeRaceEvent checked c h).race = true ↔
      Passes (eventAt checked c) (eventAt checked h) ∧
        isMemoryOverlap (eventAt checked c).memInfo (eventAt checked h).memInfo = true := by
  rw [isSinglePipeRaceEvent, isMemSpaceOverlap, hc, hh]
  generalize eventAt checked c = x
  generalize eventAt checked h = y
  simp only [Passes]
  split_ifs <;> simp_all
  omega

lemma mem_of_isChecked (hc : isChecked dt e = true) : ∃ op, e.info = .mem op := by
  unfold isChecked at hc
  split at hc
  · exact ⟨_, ‹_›⟩
  · cases hc

lemma checkedAt_of_mem {op : MemOpInfo} (he : e.info = .mem op) (pre : List SanEvent) :
    (checkedAt a pre e).isDynamic = false ∧ (checkedAt a pre e).memInfo = op ∧
      (checkedAt a pre e).pipe = e.pipe ∧ (checkedAt a pre e).serialNo = e.serialNo ∧
      (checkedAt a pre e).closedRingStartSerialNo = e.closedRingStartSerialNo := by
  simp only [checkedAt, MemEvent.ofEvent, he, and_self]

/-- The counters of two events of a pipe pass the check just when the events race. -/
lemma passes_iff (hij : i < j) (hi : l[i]? = some e1) (hj : l[j]? = some e2)
    (h1 : isChecked a.deviceType e1 = true) (h2 : isChecked a.deviceType e2 = true)
    (hpipe : e1.pipe = e2.pipe) (hroom : (a.pipeSerialNo e1.pipe).2 + l.length < 2 ^ 64)
    (hlen : l.length < 2 ^ 32) :
    Passes (checkedAt a (l.take i) e1) (checkedAt a (l.take j) e2) ∧
        Clash (checkedAt a (l.take i) e1).memInfo (checkedAt a (l.take j) e2).memInfo ↔
      Races a.deviceType l i j e1 e2 := by
  have hbar := barrierNo_eq_iff (a := a) hij hi h1 hpipe hlen
  obtain ⟨hser, -⟩ := pipeSerialNo_eq hij.le hi hj h1 hpipe hroom
  obtain ⟨op1, hop1⟩ := mem_of_isChecked h1
  obtain ⟨op2, hop2⟩ := mem_of_isChecked h2
  obtain ⟨-, hm1, hp1, hs1, hr1⟩ := checkedAt_of_mem (a := a) hop1 (l.take i)
  obtain ⟨-, hm2, hp2, hs2, hr2⟩ := checkedAt_of_mem (a := a) hop2 (l.take j)
  have hatomic : isAtomicAgainst (checkedAt a (l.take i) e1) (checkedAt a (l.take j) e2) =
      isAtomicAgainst (.ofEvent e1) (.ofEvent e2) := rfl
  have hdiff : serialDiff (checkedAt a (l.take i) e1) (checkedAt a (l.take j) e2) =
      distance a.deviceType l i j := by
    rw [serialDiff, hser, if_neg (by omega)]
    omega
  have hmatmul : isMatmulAccumOrderedByHardware (checkedAt a (l.take i) e1)
      (checkedAt a (l.take j) e2) = false ↔ ¬ (distance a.deviceType l i j = 1 ∧
        isLargeMatmulAccess (.ofEvent e1) = true ∧ isLargeMatmulAccess (.ofEvent e2) = true) := by
    rw [isMatmulAccumOrderedByHardware, hdiff, ← Bool.not_eq_true, Bool.and_eq_true,
      Bool.and_eq_true, beq_iff_eq]
    rfl
  rw [Passes, hatomic, hdiff, hmatmul, hbar, hm1, hm2, hp1, hp2, hs1, hs2, hr1, hr2]
  constructor
  · rintro ⟨⟨-, -, hserial, hat, hnear, hno, hun, hring⟩, hclash⟩
    exact ⟨hij, hi, hj, h1, h2, hserial, hnear, hno, hring, ⟨op1, op2, hop1, hop2, hclash⟩, hat,
      hun⟩
  · intro hr
    obtain ⟨op1', op2', hop1', hop2', hclash⟩ := hr.clash
    rw [hop1, EventInfo.mem.injEq] at hop1'
    rw [hop2, EventInfo.mem.injEq] at hop2'
    subst hop1' hop2'
    exact ⟨⟨hclash.1, hpipe, hr.serial, hr.atomic, hr.near, hr.noBarrier, hr.unaided, hr.noRing⟩,
      hclash⟩

/-! ## What is reported -/

/-- **The pairs of the scan**, for plain memory events. -/
lemma mem_scanSinglePipeWindow {cfg : Platform} {checked : List MemEvent}
    (hplain : ∀ x ∈ checked, x.isDynamic = false ∧ FitsScan x.memInfo ∧
      x.memInfo.opType ≠ .memcpyBlocks ∧ x.pipeSerialNo + maxSerialNumberDiff < 2 ^ 64)
    (hlen : checked.length ≤ 2 ^ 32) : ∃ pairs,
      scanlineAlgorithm cfg .singlePipe checked = some pairs ∧
      (∀ c h, (c, h) ∈ idxPairs pairs → c < checked.length ∧ h < checked.length ∧ c ≠ h) ∧
      ∀ c h, c < checked.length → h < checked.length → c ≠ h →
        ((c, h) ∈ idxPairs pairs ∨ (h, c) ∈ idxPairs pairs ↔
          Passes (eventAt checked c) (eventAt checked h) ∧
            Clash (eventAt checked c).memInfo (eventAt checked h).memInfo) := by
  have hd : ∀ x ∈ checked, x.isDynamic = false := fun x hx => (hplain x hx).1
  have hf : ∀ x ∈ checked, FitsScan x.memInfo := fun x hx => (hplain x hx).2.1
  have hsame := (scanSinglePipeWindow_same_iff hlen fun i hi => not_wraps_plain hd hf hi).mpr
    fun c h hp => (hplain _ (eventAt_mem hp.1.1)).2.2.2
  refine ⟨scanSinglePipeWindow checked (isSinglePipeRaceEvent checked)
    (buildScanlineMetaData checked), ?_, fun c h hch => ne_of_mem_scan hlen ((hsame _).mp hch),
    fun c h hc hh hne => ?_⟩
  · rw [scanlineAlgorithm, if_neg]
    · rfl
    · rw [List.any_eq_true]
      rintro ⟨x, hx, hdx⟩
      rw [hd x hx] at hdx
      cases hdx
  · rw [hsame, hsame]
    exact mem_scan_plain_iff hd hf (fun x hx => (hplain x hx).2.2.1) hlen _
      (Q := fun c h => Passes (eventAt checked c) (eventAt checked h))
      (fun c h hc hh => isSinglePipeRaceEvent_iff (hd _ (eventAt_mem hc)) (hd _ (eventAt_mem hh)))
      (fun _ _ => Passes.symm) hc hh hne

/-! ## The events that are checked -/

/-- What is checked are the memory events of the lanes, each with the counters of its place. -/
def Collected (a : SinglePipeRaceAlgImpl) (events : List SanEvent) (checked : List MemEvent) :
    Prop :=
  ∀ x, x ∈ checked ↔ ∃ i e, (lane events e.pipe)[i]? = some e ∧ isChecked a.deviceType e = true ∧
    x = checkedAt a ((lane events e.pipe).take i) e

lemma pipe_of_lane (hi : (lane events p)[i]? = some e) : e.pipe = p := by
  simpa using (List.mem_filter.mp (List.mem_of_getElem? hi)).2

lemma length_lane_le (events : List SanEvent) (p : PipeType) :
    (lane events p).length ≤ 2 * events.length :=
  (List.length_filter_le _ _).trans (BlockReplay.length_flatMap_parts_le events)

lemma collected {done : List SanEvent} (hnil : a.checked = [])
    (hb : ∀ p, a.pipeBarrierNo p < 2 ^ 32) (hdone : ∀ p, p ≠ .s → laneOf p done = lane events p) :
    Collected a events (done.foldl dispatch a).checked := by
  intro x
  rw [mem_checked_iff hb hnil]
  refine exists_congr fun i => exists_congr fun e => ?_
  constructor <;> rintro ⟨hi, hc, hx⟩ <;>
    rw [hdone _ (pipe_of_isChecked hc)] at * <;> exact ⟨hi, hc, hx⟩

section Collected

variable {checked : List MemEvent} (hmem : Collected a events checked)
  (hroom : ∀ p, (a.pipeSerialNo p).2 + 2 * events.length + maxSerialNumberDiff < 2 ^ 64)
include hmem

lemma Collected.exists_index (hi : (lane events p)[i]? = some e)
    (hc : isChecked a.deviceType e = true) : ∃ c < checked.length,
      eventAt checked c = checkedAt a ((lane events p).take i) e := by
  obtain rfl := pipe_of_lane hi
  obtain ⟨c, hcl, hat⟩ := List.getElem_of_mem ((hmem _).mpr ⟨i, e, hi, hc, rfl⟩)
  refine ⟨c, hcl, ?_⟩
  rw [eventAt, List.getD_eq_getElem?_getD, List.getElem?_eq_getElem hcl, hat]
  rfl

include hroom

lemma Collected.plain (hplain : ∀ e ∈ events.flatMap EventContainer.parts,
      isChecked a.deviceType e = true → ∀ op, e.info = .mem op → FitsScan op) :
    ∀ x ∈ checked, x.isDynamic = false ∧ FitsScan x.memInfo ∧
      x.memInfo.opType ≠ .memcpyBlocks ∧ x.pipeSerialNo + maxSerialNumberDiff < 2 ^ 64 := by
  intro x hx
  obtain ⟨i, e, hi, hc, rfl⟩ := (hmem x).mp hx
  obtain ⟨op, hop⟩ := mem_of_isChecked hc
  have hin : e ∈ events.flatMap EventContainer.parts :=
    List.mem_of_mem_filter (List.mem_of_getElem? hi)
  have h1 := hroom e.pipe
  have h2 := length_lane_le events e.pipe
  obtain ⟨-, hle⟩ := pipeSerialNo_eq (a := a) le_rfl hi hi hc rfl (by omega)
  obtain ⟨hd, hm, -⟩ := checkedAt_of_mem (a := a) hop ((lane events e.pipe).take i)
  refine ⟨hd, hm ▸ hplain e hin hc op hop, fun hcopy => ?_, by omega⟩
  -- a copy of blocks is split before it is pushed, so that none stands in a lane
  obtain ⟨e₀, -, hpart⟩ := List.mem_flatMap.mp hin
  have hself := BlockReplay.parts_of_mem_parts hpart
  rw [hm] at hcopy
  simp [EventContainer.parts, hop, hcopy] at hself

lemma Collected.passes_of_races (hlen : 2 * events.length < 2 ^ 32)
    (hr : Races a.deviceType (lane events p) i j e1 e2) :
    ∃ c h, c < checked.length ∧ h < checked.length ∧ c ≠ h ∧
      Passes (eventAt checked c) (eventAt checked h) ∧
      Clash (eventAt checked c).memInfo (eventAt checked h).memInfo ∧
      fillRaceDispInfo false (eventAt checked c) (eventAt checked h) = report e1 e2 := by
  have hle := length_lane_le events p
  obtain rfl := pipe_of_lane hr.left
  obtain ⟨c, hc, hcx⟩ := hmem.exists_index hr.left hr.leftChecked
  obtain ⟨h, hh, hhy⟩ := hmem.exists_index hr.right hr.rightChecked
  obtain ⟨hpass, hclash⟩ := (passes_iff hr.lt hr.left hr.right hr.leftChecked hr.rightChecked
    (pipe_of_lane hr.right).symm (by have := hroom e1.pipe; omega) (by omega)).mpr hr
  rw [← hcx, ← hhy] at hpass hclash
  refine ⟨c, h, hc, hh, fun heq => hpass.2.2.1 (by rw [heq]), hpass, hclash, ?_⟩
  rw [hcx, hhy]
  rfl

lemma Collected.races_of_passes (hlen : 2 * events.length < 2 ^ 32) (hc : c < checked.length)
    (hh : h < checked.length) (hpass : Passes (eventAt checked c) (eventAt checked h))
    (hclash : Clash (eventAt checked c).memInfo (eventAt checked h).memInfo) :
    ∃ p i j e1 e2, Races a.deviceType (lane events p) i j e1 e2 ∧
      errorEventEqual (fillRaceDispInfo false (eventAt checked c) (eventAt checked h))
        (report e1 e2) = true := by
  obtain ⟨i, e1, hi, hc1, hx⟩ := (hmem _).mp (eventAt_mem hc)
  obtain ⟨j, e2, hj, hc2, hy⟩ := (hmem _).mp (eventAt_mem hh)
  rw [hx, hy] at hpass hclash ⊢
  have hpipe : e1.pipe = e2.pipe := by
    obtain ⟨op1, hop1⟩ := mem_of_isChecked hc1
    obtain ⟨op2, hop2⟩ := mem_of_isChecked hc2
    obtain ⟨-, -, hp1, -⟩ := checkedAt_of_mem (a := a) hop1 ((lane events e1.pipe).take i)
    obtain ⟨-, -, hp2, -⟩ := checkedAt_of_mem (a := a) hop2 ((lane events e2.pipe).take j)
    rw [← hp1, ← hp2]
    exact hpass.2.1
  have hle := length_lane_le events e1.pipe
  have hserials : (a.pipeSerialNo e1.pipe).2 + (lane events e1.pipe).length < 2 ^ 64 := by
    have := hroom e1.pipe
    omega
  rw [← hpipe] at hj hpass hclash
  rcases Nat.lt_trichotomy i j with hlt | rfl | hlt
  · exact ⟨e1.pipe, i, j, e1, e2, (passes_iff hlt hi hj hc1 hc2 hpipe hserials
      (by omega)).mp ⟨hpass, hclash⟩, (errorEventEqual_iff _ _).mpr rfl⟩
  · rw [hi, Option.some_inj] at hj
    exact absurd (by rw [hj]) hpass.2.2.1
  · refine ⟨e1.pipe, j, i, e2, e1, (passes_iff hlt hj hi hc2 hc1 hpipe.symm
      (hpipe ▸ hserials) (by omega)).mp ⟨hpass.symm, hclash.symm⟩, ?_⟩
    exact (errorEventEqual_swap _ false _ _).trans ((errorEventEqual_iff _ _).mpr rfl)

end Collected

/-- **The check of the pipes reports their races.** -/
theorem reports_pipe_races (kt : KernelType) (a : SinglePipeRaceAlgImpl) (hnil : a.checked = [])
    (hb : ∀ p, a.pipeBarrierNo p < 2 ^ 32)
    (hroom : ∀ p, (a.pipeSerialNo p).2 + 2 * events.length + maxSerialNumberDiff < 2 ^ 64)
    (hlen : 2 * events.length < 2 ^ 32)
    (hplain : ∀ e ∈ events.flatMap EventContainer.parts, isChecked a.deviceType e = true →
      ∀ op, e.info = .mem op → FitsScan op) :
    (∃ n, Stopped (replay a events n)) ∧ ∀ n, Stopped (replay a events n) →
      ∃ result, runAlgorithm ⟨kt, a.deviceType⟩ .singlePipe (replay a events n).handler.checked =
          some result ∧
        (∀ p i j e1 e2, Races a.deviceType (lane events p) i j e1 e2 →
          ∃ r ∈ result, errorEventEqual r (report e1 e2) = true) ∧
        (∀ r ∈ result, ∃ p i j e1 e2, Races a.deviceType (lane events p) i j e1 e2 ∧
          errorEventEqual r (report e1 e2) = true) ∧
        result.Pairwise fun r r' => errorEventEqual r r' = false := by
  obtain ⟨hends, hstop⟩ := replay_done a hlen
  refine ⟨hends, fun n hn => ?_⟩
  obtain ⟨done, hstate, hdone, hlanes⟩ := hstop n hn
  rw [hstate]
  have hmem := collected hnil hb hlanes
  have hcheckedLen : (done.foldl dispatch a).checked.length ≤ 2 ^ 32 := by
    have := @length_checked_le a done
    rw [hnil, List.length_nil] at this
    omega
  generalize (done.foldl dispatch a).checked = checked at *
  obtain ⟨pairs, hpairs, hrange, hscan⟩ :=
    @mem_scanSinglePipeWindow ⟨kt, a.deviceType⟩ _ (hmem.plain hroom hplain) hcheckedLen
  obtain ⟨result, hresult, hres⟩ := runAlgorithm_results hpairs
  refine ⟨result, hresult, fun p i j e1 e2 hr => ?_, fun r hr => ?_, hres.once⟩
  · obtain ⟨c, h, hc, hh, hne, hpass, hclash, heq⟩ := hmem.passes_of_races hroom hlen hr
    exact heq ▸ hres.reported ((hscan c h hc hh hne).mpr ⟨hpass, hclash⟩)
  · obtain ⟨c, h, hpair, rfl⟩ := hres.sound r hr
    obtain ⟨hc, hh, hne⟩ := hrange c h hpair
    obtain ⟨hpass, hclash⟩ := (hscan c h hc hh hne).mp (.inl hpair)
    exact hmem.races_of_passes hroom hlen hc hh hpass hclash

/-- Two vector instructions in a row, and a third one behind a barrier. -/
def vectorEvents : List SanEvent :=
  [{ serialNo := 1, pipe := .v, info := BlockReplay.ubAccess .write },
    { serialNo := 2, pipe := .v, info := BlockReplay.ubAccess .read },
    { serialNo := 3, pipe := .v,
      info := .sync { opType := .pipeBarrier, srcPipe := .v, dstPipe := .v } },
    { serialNo := 4, pipe := .v, info := BlockReplay.ubAccess .write }]

theorem reports_pipe_races_vector :
    (∃ n, Stopped (replay ⟨⟨0⟩, fun _ => 5, fun _ => (7, 9), []⟩ vectorEvents n)) ∧
      ∀ n, Stopped (replay ⟨⟨0⟩, fun _ => 5, fun _ => (7, 9), []⟩ vectorEvents n) →
        ∃ result, runAlgorithm ⟨.aivec, ⟨0⟩⟩ .singlePipe
            (replay ⟨⟨0⟩, fun _ => 5, fun _ => (7, 9), []⟩ vectorEvents n).handler.checked =
              some result ∧
          (∀ p i j e1 e2, Races ⟨0⟩ (lane vectorEvents p) i j e1 e2 →
            ∃ r ∈ result, errorEventEqual r (report e1 e2) = true) ∧
          (∀ r ∈ result, ∃ p i j e1 e2, Races ⟨0⟩ (lane vectorEvents p) i j e1 e2 ∧
            errorEventEqual r (report e1 e2) = true) ∧
          result.Pairwise fun r r' => errorEventEqual r r' = false := by
  refine reports_pipe_races .aivec ⟨⟨0⟩, fun _ => 5, fun _ => (7, 9), []⟩ rfl
    (fun _ => by norm_num) (fun _ => ?_) (by decide) ?_
  · change 9 + 2 * 4 + 16 < 2 ^ 64
    norm_num
  have hparts : vectorEvents.flatMap EventContainer.parts = vectorEvents := rfl
  rw [hparts]
  simp only [vectorEvents, List.mem_cons, List.not_mem_nil, or_false, forall_eq_or_imp, forall_eq]
  exact ⟨fun _ _ => BlockReplay.fitsScan_ubAccess, fun _ _ => BlockReplay.fitsScan_ubAccess,
    fun _ => nofun, fun _ _ => BlockReplay.fitsScan_ubAccess⟩

end MsSanitizer.SinglePipeRaceAlgImpl
