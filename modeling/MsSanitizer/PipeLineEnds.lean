import MsSanitizer.PipeLineStop
import Mathlib.Order.OrderIsoNat
import Mathlib.Data.Prod.Lex
import Mathlib.Algebra.BigOperators.Group.Finset.Basic
import Mathlib.Algebra.Order.BigOperators.Group.Finset

/-!
# When the replay ends

A handler that pushes boundedly many events moves only finitely often: after that no event is
processed or pushed and the queues stay as they are. From then on a lexicographic rank
decreases at each round of the loop, with one exception. `CheckCurDeviceStuck` sets the number
of stuck devices back to `0` when it leaves a device that has no events left (`LeavesDrained`),
so when the other devices are stuck the count never reaches the number of devices and `Run`
goes around forever.
-/

namespace MsSanitizer.PipeLine

open RecordDefs EventDef Finset

variable {σ : Type*} {func : EventFunc σ}

/-- The next round of the loop processes an event or pushes one. -/
def Moves (func : EventFunc σ) (p : PipeLine σ) : Prop :=
  p.pipeState = .processEvent ∧
    ∃ r, reply func p = some r ∧ (r.ret = .processOk ∨ r.pushes ≠ [])

/-- The next round of the loop leaves a device that has no events left, while another device
still has some. -/
def LeavesDrained (p : PipeLine σ) : Prop :=
  p.pipeState = .checkCurDevice ∧ p.events.isCurDeviceEmpty = true ∧
    p.events.isDeviceStuck = false ∧ p.events.isEmpty = false

def pushesOf (func : EventFunc σ) (p : PipeLine σ) : List Push :=
  if p.pipeState = .processEvent then ((reply func p).map Reply.pushes).getD [] else []

/-- The number of events that the handler pushes in the first `n` rounds. -/
def pushCount (func : EventFunc σ) (p : PipeLine σ) (n : ℕ) : ℕ :=
  ∑ j ∈ range n, (pushesOf func (run func p j)).length

/-- `Run` ends: with every queue empty, or with the report that it is stuck. -/
def Ends (func : EventFunc σ) (p : PipeLine σ) : Prop :=
  ∃ n, ((run func p n).pipeState = .exit ∧ (run func p n).events.isEmpty = true) ∨
    (run func p n).pipeState = .exception

lemma EventContainer.checkCurDeviceStuck_eq (c : EventContainer) :
    c.checkCurDeviceStuck
      = { c with stuckDeviceNum := if c.isDeviceStuck then c.stuckDeviceNum + 1 else 0 } := by
  unfold EventContainer.checkCurDeviceStuck
  split_ifs <;> rfl

/-! ## Where the machine can be -/

/-- The positions and flags that a run can have. -/
structure Placed (p : PipeLine σ) : Prop where
  pipe : p.events.pipeIndex < pipeSize
  block : p.events.blockIndex < p.events.maxBlockNum
  device : p.events.deviceIndex < p.events.deviceNum
  count : p.pipeState ≠ .exception → p.events.stuckDeviceNum < p.events.deviceNum
  blockStuck : p.events.isBlockStuck = true → p.pipeState = .checkCurBlock
  deviceStuck : p.events.isDeviceStuck = true →
    p.pipeState = .checkCurDevice ∨ p.pipeState = .exception
  front : p.pipeState = .processEvent → p.events.ques p.events.getQueIndex ≠ []

lemma Placed.nextPipe {p : PipeLine σ} (h : Placed p) (hs : p.pipeState ≠ .checkCurDevice)
    (hs' : p.pipeState ≠ .exception) (ques : ℕ → List SanEvent) (handler : σ) :
    Placed { p with
      events := ({ p.events with ques := ques } : EventContainer).switchToNextPipe
      handler := handler
      pipeState := .checkCurBlock } := by
  have hd : p.events.isDeviceStuck = true → False := by
    intro hd
    rcases h.deviceStuck hd with h1 | h1
    · exact hs h1
    · exact hs' h1
  unfold EventContainer.switchToNextPipe
  split_ifs
  · exact ⟨PipeType.s.idx_lt, h.block, h.device, fun _ => h.count hs', fun _ => rfl,
      fun h => (hd h).elim, fun h => by cases h⟩
  · exact ⟨Nat.mod_lt _ pipeSize_pos, h.block, h.device, fun _ => h.count hs', fun _ => rfl,
      fun h => (hd h).elim, fun h => by cases h⟩

/-- A move of the machine that changes neither position nor counters. -/
lemma Placed.stay {p : PipeLine σ} (h : Placed p) {s : PipeState} (hs : p.pipeState ≠ .exception)
    (hb : p.events.isBlockStuck = true → s = .checkCurBlock)
    (hd : p.events.isDeviceStuck = true → s = .checkCurDevice)
    (hf : s = .processEvent → p.events.ques p.events.getQueIndex ≠ []) :
    Placed { p with pipeState := s } :=
  ⟨h.pipe, h.block, h.device, fun _ => h.count hs, hb, fun h => .inl (hd h), hf⟩

lemma Placed.step {p : PipeLine σ} (h : Placed p) : Placed (step func p) := by
  have hpos : 0 < p.events.deviceNum := lt_of_le_of_lt (Nat.zero_le _) h.device
  have hblocks : 0 < p.events.maxBlockNum := lt_of_le_of_lt (Nat.zero_le _) h.block
  have hb : p.pipeState ≠ .checkCurBlock → p.events.isBlockStuck = true → False :=
    fun hs hb => hs (h.blockStuck hb)
  have hd : p.pipeState ≠ .checkCurDevice → p.pipeState ≠ .exception →
      p.events.isDeviceStuck = true → False := by
    intro h1 h2 hd
    rcases h.deviceStuck hd with h3 | h3
    · exact h1 h3
    · exact h2 h3
  unfold PipeLine.step
  cases hs : p.pipeState with
  | checkAllDevice =>
    refine h.stay (by simp [hs]) (fun h => (hb (by simp [hs]) h).elim)
      (fun h => (hd (by simp [hs]) (by simp [hs]) h).elim) fun hp => ?_
    split_ifs at hp
  | checkCurDevice =>
    have hlt := h.count (by simp [hs])
    simp only [checkCurDevice, EventContainer.checkCurDeviceStuck_eq]
    by_cases hn : p.events.isNeedSwitchNextDevice = true
    · rw [if_pos hn]
      have hle : (if p.events.isDeviceStuck then p.events.stuckDeviceNum + 1 else 0)
          ≤ p.events.deviceNum := by
        split_ifs
        · exact hlt
        · exact Nat.zero_le _
      generalize (if p.events.isDeviceStuck then p.events.stuckDeviceNum + 1 else 0) = k at hle ⊢
      split_ifs with hall
      · exact ⟨h.pipe, h.block, h.device, fun he => absurd rfl he,
          fun h => (hb (by simp [hs]) h).elim, fun _ => .inr rfl, fun hp => by cases hp⟩
      · refine ⟨pipeSize_pos, hblocks, Nat.mod_lt _ hpos, fun _ => ?_, fun h => (by cases h),
          fun h => (by cases h), fun hp => by cases hp⟩
        rw [EventContainer.isAllDeviceStuck, beq_iff_eq] at hall
        exact lt_of_le_of_ne hle hall
    · rw [if_neg hn]
      refine h.stay (by simp [hs]) (fun _ => rfl) (fun h => ?_) fun hp => by cases hp
      exact absurd (by rw [EventContainer.isNeedSwitchNextDevice, h]; rfl) hn
  | checkCurBlock =>
    have hlt := h.count (by simp [hs])
    have hd := hd (by simp [hs]) (by simp [hs])
    simp only [checkCurBlock]
    by_cases hn : p.events.isNeedSwitchNextBlock = true
    · rw [if_pos hn]
      unfold EventContainer.switchToNextBlock
      by_cases hwrap : (p.events.blockIndex + 1) % p.events.maxBlockNum = 0
      · rw [if_pos hwrap]
        refine ⟨pipeSize_pos, hblocks, h.device, fun _ => ?_, fun h => (by cases h),
          fun _ => .inl rfl, fun hp => by cases hp⟩
        simp only
        split_ifs
        · exact hlt
        · exact hpos
      · rw [if_neg hwrap]
        exact ⟨pipeSize_pos, Nat.mod_lt _ hblocks, h.device, fun _ => hlt,
          fun h => (by cases h), fun h => (hd h).elim, fun hp => by cases hp⟩
    · rw [if_neg hn]
      refine h.stay (by simp [hs]) (fun hb => ?_) (fun h => (hd h).elim) fun hp => by cases hp
      exact absurd (by rw [EventContainer.isNeedSwitchNextBlock, hb]; rfl) hn
  | checkCurPipe =>
    simp only [checkCurPipe]
    split_ifs with hn
    · exact h.nextPipe (by simp [hs]) (by simp [hs]) p.events.ques p.handler
    · refine h.stay (by simp [hs]) (fun h => (hb (by simp [hs]) h).elim)
        (fun h => (hd (by simp [hs]) (by simp [hs]) h).elim) fun _ => ?_
      simpa [EventContainer.isCurQueEmpty] using hn
  | processEvent =>
    simp only [process]
    cases hr : reply func p with
    | none => exact h
    | some r =>
      obtain ⟨ques, heq, -⟩ := p.events.foldl_push_eq r.pushes
      simp only [heq]
      cases hret : r.ret with
      | processOk =>
        exact ⟨h.pipe, h.block, h.device, fun _ => h.count (by simp [hs]),
          fun h => (hb (by simp [hs]) h).elim,
          fun h => (hd (by simp [hs]) (by simp [hs]) h).elim, fun hp => by cases hp⟩
      | processStalled => exact h.nextPipe (by simp [hs]) (by simp [hs]) ques r.state
  | exit => exact h
  | exception => exact h

lemma Placed.run {p : PipeLine σ} (h : Placed p) (n : ℕ) : Placed (run func p n) := by
  induction n with
  | zero => exact h
  | succ n ih =>
    rw [run_succ]
    exact ih.step

lemma placed_start {blockNum deviceNum : ℕ} (hb : 0 < blockNum) (hd : 0 < deviceNum)
    (pushes : List Push) (handler : σ) : Placed (start blockNum deviceNum pushes handler) := by
  obtain ⟨ques, heq, -⟩ := (EventContainer.init blockNum deviceNum).foldl_push_eq pushes
  unfold start
  rw [heq]
  exact ⟨pipeSize_pos, hb, hd, fun _ => hd, fun h => (by cases h), fun h => (by cases h),
    fun h => by cases h⟩

/-! ## The handler moves finitely often -/

namespace EventContainer

def total (c : EventContainer) : ℕ := ∑ q ∈ range c.queNum, (c.ques q).length

lemma parts_length_le (e : SanEvent) : (parts e).length ≤ 2 := by
  unfold parts
  split
  · split_ifs <;> simp
  · simp

lemma total_push (c : EventContainer) (p : Push) : (c.push p).total ≤ c.total + 2 := by
  unfold push
  split_ifs
  · omega
  · have hle := parts_length_le p.event
    simp only [total, queNum]
    generalize c.flattenPipeIdx p.pipe.idx p.blockIdx p.deviceIdx = i
    calc ∑ q ∈ range (c.deviceNum * c.maxBlockNum * pipeSize),
          (Function.update c.ques i (c.ques i ++ parts p.event) q).length
        ≤ ∑ q ∈ range (c.deviceNum * c.maxBlockNum * pipeSize),
          ((c.ques q).length + if q = i then 2 else 0) := by
          refine sum_le_sum fun q _ => ?_
          rw [Function.update_apply]
          split_ifs with hq
          · rw [hq, List.length_append]
            omega
          · omega
      _ ≤ ∑ q ∈ range (c.deviceNum * c.maxBlockNum * pipeSize), (c.ques q).length + 2 := by
          rw [sum_add_distrib, sum_ite_eq']
          split_ifs <;> omega

lemma total_foldl_push (pushes : List Push) (c : EventContainer) :
    (pushes.foldl push c).total ≤ c.total + 2 * pushes.length := by
  induction pushes generalizing c with
  | nil => simp
  | cons p pushes ih =>
    have h1 := ih (c.push p)
    have h2 := c.total_push p
    rw [List.foldl_cons, List.length_cons]
    omega

lemma total_pop {c : EventContainer} (hi : c.getQueIndex < c.queNum)
    (hne : c.ques c.getQueIndex ≠ []) : c.pop.total + 1 = c.total := by
  have hpos : 0 < (c.ques c.getQueIndex).length := List.length_pos_iff.mpr hne
  have hmem : c.getQueIndex ∈ range c.queNum := mem_range.mpr hi
  have hqn : c.pop.queNum = c.queNum := rfl
  simp only [total, hqn]
  rw [← add_sum_erase _ _ hmem, ← add_sum_erase _ (fun q => (c.ques q).length) hmem]
  have hrest : ∑ q ∈ (range c.queNum).erase c.getQueIndex, (c.pop.ques q).length
      = ∑ q ∈ (range c.queNum).erase c.getQueIndex, (c.ques q).length := by
    refine sum_congr rfl fun q hq => ?_
    simp [pop, Function.update_of_ne (ne_of_mem_erase hq)]
  have hcur : (c.pop.ques c.getQueIndex).length = (c.ques c.getQueIndex).length - 1 := by
    simp [pop]
  rw [hrest, hcur]
  omega

lemma getQueIndex_lt {c : EventContainer} (hp : c.pipeIndex < pipeSize)
    (hb : c.blockIndex < c.maxBlockNum) (hd : c.deviceIndex < c.deviceNum) :
    c.getQueIndex < c.queNum := by
  have h1 : c.blockIndex * pipeSize + pipeSize ≤ c.maxBlockNum * pipeSize := by
    rw [← Nat.succ_mul]
    exact Nat.mul_le_mul_right _ hb
  have h2 : c.deviceIndex * (c.maxBlockNum * pipeSize) + c.maxBlockNum * pipeSize
      ≤ c.deviceNum * (c.maxBlockNum * pipeSize) := by
    rw [← Nat.succ_mul]
    exact Nat.mul_le_mul_right _ hd
  simp only [getQueIndex, flattenPipeIdx, queNum, Nat.mul_assoc]
  omega

end EventContainer

lemma pushCount_succ (p : PipeLine σ) (n : ℕ) :
    pushCount func p (n + 1) = pushCount func p n + (pushesOf func (run func p n)).length :=
  sum_range_succ _ _

/-- A step without a move changes no queue and no dimension, and pushes nothing. -/
lemma step_of_not_moves {p : PipeLine σ} (hm : ¬ Moves func p) :
    (step func p).events.ques = p.events.ques ∧
      (step func p).events.deviceNum = p.events.deviceNum ∧
      (step func p).events.maxBlockNum = p.events.maxBlockNum ∧ pushesOf func p = [] := by
  have hpushes : pushesOf func p = [] := by
    unfold pushesOf
    split_ifs with hs
    · cases hr : reply func p with
      | none => rfl
      | some r =>
        by_contra hne
        exact hm ⟨hs, r, hr, .inr hne⟩
    · rfl
  have hpipe : ∀ c : EventContainer, c.switchToNextPipe.ques = c.ques ∧
      c.switchToNextPipe.deviceNum = c.deviceNum ∧
      c.switchToNextPipe.maxBlockNum = c.maxBlockNum := by
    intro c
    unfold EventContainer.switchToNextPipe
    split_ifs <;> exact ⟨rfl, rfl, rfl⟩
  suffices h : (step func p).events.ques = p.events.ques ∧
      (step func p).events.deviceNum = p.events.deviceNum ∧
      (step func p).events.maxBlockNum = p.events.maxBlockNum from ⟨h.1, h.2.1, h.2.2, hpushes⟩
  unfold step
  cases hs : p.pipeState with
  | checkAllDevice => exact ⟨rfl, rfl, rfl⟩
  | checkCurDevice =>
    simp only [checkCurDevice, EventContainer.checkCurDeviceStuck_eq]
    split_ifs <;> exact ⟨rfl, rfl, rfl⟩
  | checkCurBlock =>
    simp only [checkCurBlock, EventContainer.switchToNextBlock]
    split_ifs <;> exact ⟨rfl, rfl, rfl⟩
  | checkCurPipe =>
    simp only [checkCurPipe]
    split_ifs
    · exact hpipe _
    · exact ⟨rfl, rfl, rfl⟩
  | processEvent =>
    simp only [process]
    cases hr : reply func p with
    | none => exact ⟨rfl, rfl, rfl⟩
    | some r =>
      cases hret : r.ret with
      | processOk => exact absurd ⟨hs, r, hr, .inl hret⟩ hm
      | processStalled =>
        have hnil : r.pushes = [] := by
          by_contra hne
          exact hm ⟨hs, r, hr, .inr hne⟩
        simp only [hnil, hret]
        exact hpipe _
  | exit => exact ⟨rfl, rfl, rfl⟩
  | exception => exact ⟨rfl, rfl, rfl⟩

/-- A move adds at most two events for each push and takes one away, or stalls with a push. -/
lemma total_of_moves {p : PipeLine σ} (h : Placed p) (hm : Moves func p) :
    (step func p).events.total + 1 ≤ p.events.total + 3 * (pushesOf func p).length := by
  obtain ⟨hs, r, hr, hmove⟩ := hm
  have hpushes : pushesOf func p = r.pushes := by simp [pushesOf, hs, hr]
  obtain ⟨ques, heq, hpre⟩ := p.events.foldl_push_eq r.pushes
  have htotal := p.events.total_foldl_push r.pushes
  simp only [step, hs, process, hr, hpushes]
  cases hret : r.ret with
  | processOk =>
    have hpop : (r.pushes.foldl .push p.events).pop.total + 1
        = (r.pushes.foldl .push p.events).total := by
      refine EventContainer.total_pop ?_ ?_
      · rw [heq]
        exact EventContainer.getQueIndex_lt h.pipe h.block h.device
      · rw [heq]
        intro hnil
        have hfront := hpre p.events.getQueIndex
        simp only [EventContainer.getQueIndex, EventContainer.flattenPipeIdx] at hnil hfront
        rw [hnil, List.prefix_nil] at hfront
        exact h.front hs hfront
    simp only
    omega
  | processStalled =>
    have hlen : 0 < r.pushes.length := by
      rcases hmove with hok | hne
      · rw [hret] at hok
        cases hok
      · exact List.length_pos_iff.mpr hne
    have hsame : (r.pushes.foldl .push p.events).switchToNextPipe.total
        = (r.pushes.foldl .push p.events).total := by
      unfold EventContainer.switchToNextPipe
      split_ifs <;> rfl
    simp only [hsame]
    omega

/-- After finitely many rounds nothing is processed or pushed any more. -/
lemma exists_quiet {p : PipeLine σ} (h : Placed p) {B : ℕ} (hB : ∀ n, pushCount func p n ≤ B) :
    ∃ N, ∀ n ≥ N, ¬ Moves func (run func p n) := by
  have hstep : ∀ n, (Moves func (run func p n) →
      (run func p (n + 1)).events.total + 3 * (B - pushCount func p (n + 1))
        < (run func p n).events.total + 3 * (B - pushCount func p n)) ∧
      (run func p (n + 1)).events.total + 3 * (B - pushCount func p (n + 1))
        ≤ (run func p n).events.total + 3 * (B - pushCount func p n) := by
    intro n
    have h1 := hB n
    have h2 := hB (n + 1)
    rw [pushCount_succ] at h2 ⊢
    rw [run_succ]
    by_cases hm : Moves func (run func p n)
    · have := total_of_moves (h.run n) hm
      omega
    · obtain ⟨hq, hd, hb, hnil⟩ := step_of_not_moves hm
      have hsame : (step func (run func p n)).events.total = (run func p n).events.total := by
        simp only [EventContainer.total, EventContainer.queNum, hq, hd, hb]
      rw [hsame, hnil]
      exact ⟨fun h => absurd h hm, le_rfl⟩
  have hanti : Antitone fun n =>
      (run func p n).events.total + 3 * (B - pushCount func p n) :=
    antitone_nat_of_succ_le fun n => (hstep n).2
  obtain ⟨N, hN⟩ := WellFoundedLT.antitone_chain_condition hanti
  refine ⟨N, fun n hn hm => ?_⟩
  have h1 := hN n hn
  have h2 := hN (n + 1) (by omega)
  have h3 := (hstep n).1 hm
  omega

/-! ## Quiet rounds -/

/-- What is left of the work on a block: two rounds over its pipes after an event was popped,
one round before the block is known to be stuck. -/
def blockRank (c : EventContainer) : ℕ :=
  if c.isBlockStuck then 0 else if c.blockPopCount = 0 then 1 else 2

def stateRank : PipeState → ℕ
  | .checkAllDevice => 4
  | .checkCurDevice => 3
  | .checkCurBlock => 2
  | .checkCurPipe => 1
  | _ => 0

/-- The devices that are not known to be stuck. When no events are left at all it only matters
whether the test for that comes next. -/
def deviceRank (p : PipeLine σ) : ℕ :=
  if p.events.isEmpty then if p.pipeState = .checkAllDevice then 0 else 1
  else p.events.deviceNum - p.events.stuckDeviceNum

/-- The rank that decreases at each quiet round of the loop. -/
def rank (p : PipeLine σ) : ℕ ×ₗ ℕ ×ₗ ℕ ×ₗ ℕ ×ₗ ℕ ×ₗ ℕ ×ₗ ℕ :=
  toLex (if p.events.devicePopCount = 0 then 0 else 1, toLex (deviceRank p,
    toLex (if p.events.isDeviceStuck then 0 else 1,
      toLex (p.events.maxBlockNum - p.events.blockIndex, toLex (blockRank p.events,
        toLex (pipeSize - p.events.pipeIndex, stateRank p.pipeState))))))

lemma lex_of_lt {α β : Type*} [Preorder α] [LT β] {a a' : α} {b b' : β} (h : a < a') :
    toLex (a, b) < toLex (a', b') :=
  Prod.Lex.toLex_lt_toLex.mpr (.inl h)

lemma lex_of_le {α β : Type*} [PartialOrder α] [Preorder β] {a a' : α} {b b' : β} (h : a ≤ a')
    (hb : b < b') : toLex (a, b) < toLex (a', b') :=
  Prod.Lex.toLex_lt_toLex'.mpr ⟨h, fun _ => hb⟩

lemma deviceRank_le {p p' : PipeLine σ} (hq : p'.events.ques = p.events.ques)
    (hd : p'.events.deviceNum = p.events.deviceNum)
    (hb : p'.events.maxBlockNum = p.events.maxBlockNum)
    (hn : p'.events.stuckDeviceNum = p.events.stuckDeviceNum)
    (hs : p.events.isEmpty = true → p'.pipeState ≠ .checkAllDevice)
    (hs' : p.events.isEmpty = true → p.pipeState ≠ .checkAllDevice) :
    deviceRank p' ≤ deviceRank p := by
  refine le_of_eq ?_
  have he : p'.events.isEmpty = p.events.isEmpty := by
    simp [EventContainer.isEmpty, EventContainer.emptyFrom, EventContainer.queNum, hq, hd, hb]
  unfold deviceRank
  rw [he, hd, hn]
  split_ifs with h1 h2 h3 h3
  · rfl
  · exact absurd h2 (hs h1)
  · exact absurd h3 (hs' h1)
  · rfl
  · rfl

lemma rank_stay {p : PipeLine σ} {s : PipeState} (hlt : stateRank s < stateRank p.pipeState)
    (hs : s ≠ .checkAllDevice)
    (he : p.events.isEmpty = true → p.pipeState ≠ .checkAllDevice) :
    rank { p with pipeState := s } < rank p :=
  lex_of_le le_rfl <| lex_of_le (deviceRank_le rfl rfl rfl rfl (fun _ => hs) he) <|
    lex_of_le le_rfl <| lex_of_le le_rfl <| lex_of_le le_rfl <| lex_of_le le_rfl hlt

lemma rank_nextPipe {p : PipeLine σ} (h : Placed p) (handler : σ)
    (hs : p.pipeState = .checkCurPipe ∨ p.pipeState = .processEvent) :
    rank { p with events := p.events.switchToNextPipe, handler := handler,
                  pipeState := .checkCurBlock } < rank p := by
  have hb : p.events.isBlockStuck = false := by
    rw [Bool.eq_false_iff]
    intro hb
    have := h.blockStuck hb
    rcases hs with hs | hs
    · rw [hs] at this
      cases this
    · rw [hs] at this
      cases this
  have hs' : p.pipeState ≠ .checkAllDevice := by
    rcases hs with hs | hs <;> simp [hs]
  have hpipe := h.pipe
  unfold EventContainer.switchToNextPipe
  by_cases hwrap : (p.events.pipeIndex + 1) % pipeSize = PipeType.s.idx
  · rw [if_pos hwrap]
    refine lex_of_le le_rfl <|
      lex_of_le (deviceRank_le rfl rfl rfl rfl (fun _ => by simp) fun _ => hs') <|
        lex_of_le le_rfl <| lex_of_le le_rfl <| lex_of_lt ?_
    by_cases h0 : p.events.blockPopCount = 0 <;> simp [blockRank, hb, h0]
  · have hnext : (p.events.pipeIndex + 1) % pipeSize = p.events.pipeIndex + 1 := by
      simp only [pipeSize, PipeType.idx] at hwrap hpipe ⊢
      omega
    rw [if_neg hwrap, hnext]
    refine lex_of_le le_rfl <|
      lex_of_le (deviceRank_le rfl rfl rfl rfl (fun _ => by simp) fun _ => hs') <|
        lex_of_le le_rfl <| lex_of_le le_rfl <| lex_of_le le_rfl <| lex_of_lt ?_
    show pipeSize - (p.events.pipeIndex + 1) < pipeSize - p.events.pipeIndex
    omega

/-- Moving on to the next block, from the last one of the device to the first. -/
lemma rank_nextBlock {p : PipeLine σ} (h : Placed p) (hs : p.pipeState = .checkCurBlock) :
    rank { p with events := p.events.switchToNextBlock, pipeState := .checkCurDevice }
      < rank p := by
  have hd : p.events.isDeviceStuck = false := by
    rw [Bool.eq_false_iff]
    intro hd
    rcases h.deviceStuck hd with h1 | h1
    · rw [hs] at h1
      cases h1
    · rw [hs] at h1
      cases h1
  have hblock := h.block
  unfold EventContainer.switchToNextBlock
  by_cases hwrap : (p.events.blockIndex + 1) % p.events.maxBlockNum = 0
  · rw [if_pos hwrap]
    by_cases h0 : p.events.devicePopCount = 0
    · -- the round popped nothing: the device is stuck from now on
      simp only [h0, if_true, beq_self_eq_true]
      refine lex_of_le (by simp) <|
        lex_of_le (deviceRank_le rfl rfl rfl rfl (fun _ => by simp) fun _ => by simp [hs]) <|
          lex_of_lt ?_
      simp [hd]
    · exact lex_of_lt (by simp [h0])
  · have hnext : (p.events.blockIndex + 1) % p.events.maxBlockNum = p.events.blockIndex + 1 := by
      rcases Nat.lt_or_ge (p.events.blockIndex + 1) p.events.maxBlockNum with hlt | hge
      · exact Nat.mod_eq_of_lt hlt
      · rw [show p.events.blockIndex + 1 = p.events.maxBlockNum by omega, Nat.mod_self] at hwrap
        exact absurd rfl hwrap
    rw [if_neg hwrap, hnext]
    refine lex_of_le le_rfl <|
      lex_of_le (deviceRank_le rfl rfl rfl rfl (fun _ => by simp) fun _ => by simp [hs]) <|
        lex_of_le le_rfl <| lex_of_lt ?_
    show p.events.maxBlockNum - (p.events.blockIndex + 1)
      < p.events.maxBlockNum - p.events.blockIndex
    omega

/-- **A quiet round decreases the rank**, unless it ends the loop or leaves a drained device. -/
lemma rank_step {p : PipeLine σ} (h : Placed p) (hm : ¬ Moves func p) (hl : ¬ LeavesDrained p)
    (hs : ¬ Stopped p) (hs' : ¬ Stopped (step func p)) : rank (step func p) < rank p := by
  cases hst : p.pipeState with
  | checkAllDevice =>
    simp only [step, hst, checkAllDevice] at hs' ⊢
    by_cases he : p.events.isEmpty = true
    · rw [if_pos he] at hs'
      exact absurd (.inl rfl) hs'
    · rw [if_neg he]
      exact rank_stay (by simp [hst, stateRank]) (by simp) fun h => absurd h he
  | checkCurDevice =>
    have hlt := h.count (by simp [hst])
    simp only [step, hst, checkCurDevice, EventContainer.checkCurDeviceStuck_eq] at hs' ⊢
    by_cases hn : p.events.isNeedSwitchNextDevice = true
    · rw [if_pos hn] at hs' ⊢
      generalize hk : (if p.events.isDeviceStuck then p.events.stuckDeviceNum + 1 else 0) = k
        at hs' ⊢
      by_cases hall : ({ p.events with stuckDeviceNum := k } : EventContainer).isAllDeviceStuck
          = true
      · rw [if_pos hall] at hs'
        exact absurd (.inr rfl) hs'
      rw [if_neg hall]
      refine lex_of_le (by simp [EventContainer.switchToNextDevice]) <| lex_of_lt ?_
      unfold deviceRank
      by_cases he : p.events.isEmpty = true
      · have he' : ({ p.events with stuckDeviceNum := k } :
            EventContainer).switchToNextDevice.isEmpty = true := he
        simp [he, he', hst]
      · have he' : ¬ ({ p.events with stuckDeviceNum := k } :
            EventContainer).switchToNextDevice.isEmpty = true := he
        have hd : p.events.isDeviceStuck = true := by
          by_contra hd
          rw [EventContainer.isNeedSwitchNextDevice, Bool.or_eq_true] at hn
          exact hl ⟨hst, hn.resolve_left hd, by simpa using hd, by simpa using he⟩
        rw [if_neg he, if_neg he']
        rw [if_pos hd] at hk
        simp only [EventContainer.switchToNextDevice]
        omega
    · rw [if_neg hn]
      exact rank_stay (by simp [hst, stateRank]) (by simp) fun _ => by simp [hst]
  | checkCurBlock =>
    simp only [step, hst, checkCurBlock]
    split_ifs
    · exact rank_nextBlock h hst
    · exact rank_stay (by simp [hst, stateRank]) (by simp) fun _ => by simp [hst]
  | checkCurPipe =>
    simp only [step, hst, checkCurPipe]
    split_ifs
    · exact rank_nextPipe h p.handler (.inl hst)
    · exact rank_stay (by simp [hst, stateRank]) (by simp) fun _ => by simp [hst]
  | processEvent =>
    simp only [step, hst, process]
    cases hr : reply func p with
    | none =>
      rw [reply, Option.map_eq_none_iff, List.head?_eq_none_iff] at hr
      exact absurd hr (h.front hst)
    | some r =>
      cases hret : r.ret with
      | processOk => exact absurd ⟨hst, r, hr, .inl hret⟩ hm
      | processStalled =>
        have hnil : r.pushes = [] := by
          by_contra hne
          exact hm ⟨hst, r, hr, .inr hne⟩
        simp only [hnil, hret, List.foldl_nil]
        exact rank_nextPipe h r.state (.inr hst)
  | exit => exact absurd (.inl hst) hs
  | exception => exact absurd (.inr hst) hs

/-- Without drained devices to leave, quiet rounds end the loop. -/
lemma exists_stopped {p : PipeLine σ} (h : Placed p) {N : ℕ}
    (hm : ∀ n ≥ N, ¬ Moves func (run func p n))
    (hl : ∀ n ≥ N, ¬ LeavesDrained (run func p n)) : ∃ n, Stopped (run func p n) := by
  by_contra hnone
  push Not at hnone
  obtain ⟨n, hn⟩ := WellFounded.not_rel_apply_succ (r := (· < ·)) fun n => rank (run func p (N + n))
  refine hn ?_
  have hsucc : run func p (N + (n + 1)) = step func (run func p (N + n)) := run_succ p (N + n)
  have hnext := hnone (N + (n + 1))
  rw [hsucc] at hnext
  simp only [hsucc]
  exact rank_step (h.run _) (hm _ (by omega)) (hl _ (by omega)) (hnone _) hnext

/-! ## Going around -/

/-- How many devices lie between the one after `d` and device `i`, going around. -/
def stepsFrom (deviceNum d i : ℕ) : ℕ := if d < i then i - d - 1 else i + deviceNum - d - 1

/-- The loop that never ends: device `d` has no events and is left as soon as it is reached,
another device has some, and the count of stuck devices starts at `0` behind `d`. -/
structure Cycling (d : ℕ) (p : PipeLine σ) : Prop where
  placed : Placed p
  running : ¬ Stopped p
  drained : d < p.events.deviceNum ∧ p.events.isDeviceEmpty d = true
  rest : p.events.isEmpty = false
  atDrained : p.events.deviceIndex = d → p.events.isDeviceStuck = false ∧
    (p.pipeState = .checkAllDevice ∨ p.pipeState = .checkCurDevice)
  count : p.events.stuckDeviceNum ≤ stepsFrom p.events.deviceNum d p.events.deviceIndex

/-- Leaving a device counts at most one more stuck device, and none behind `d`. -/
lemma count_leave {deviceNum d i count : ℕ} (hd : d < deviceNum) (hi : i < deviceNum)
    {stuck : Bool} (hstuck : i = d → stuck = false) (h : count ≤ stepsFrom deviceNum d i) :
    (if stuck then count + 1 else 0) ≤ stepsFrom deviceNum d ((i + 1) % deviceNum) ∧
      (if stuck then count + 1 else 0) < deviceNum := by
  have hnext : (i + 1) % deviceNum = if i + 1 = deviceNum then 0 else i + 1 := by
    split_ifs with h1
    · rw [h1, Nat.mod_self]
    · exact Nat.mod_eq_of_lt (by omega)
  rw [hnext]
  unfold stepsFrom at h ⊢
  cases stuck with
  | false => simp; omega
  | true =>
    have hne : i ≠ d := fun h => by simpa using hstuck h
    simp only [if_true]
    split_ifs at h ⊢ <;> omega

lemma EventContainer.switchToNextPipe_device (c : EventContainer) :
    c.switchToNextPipe.deviceIndex = c.deviceIndex ∧
      c.switchToNextPipe.stuckDeviceNum = c.stuckDeviceNum := by
  unfold EventContainer.switchToNextPipe
  split_ifs <;> exact ⟨rfl, rfl⟩

section
variable {d : ℕ} {p : PipeLine σ}

/-- While nothing moves, device `d` stays empty and another one does not. -/
lemma Cycling.keeps (h : Cycling d p) (hm : ¬ Moves func p) :
    (d < (PipeLine.step func p).events.deviceNum ∧
      (PipeLine.step func p).events.isDeviceEmpty d = true) ∧
      (PipeLine.step func p).events.isEmpty = false := by
  obtain ⟨hq, hdn, hbn, -⟩ := step_of_not_moves hm
  have hdrained := h.drained
  have hrest := h.rest
  constructor
  · simpa [EventContainer.isDeviceEmpty, EventContainer.emptyFrom, EventContainer.flattenPipeIdx,
      hq, hdn, hbn] using hdrained
  · simpa [EventContainer.isEmpty, EventContainer.emptyFrom, EventContainer.queNum, hq, hdn, hbn]
      using hrest

/-- A step inside a device other than `d` that does not end a round. -/
lemma Cycling.inside (h : Cycling d p) (hm : ¬ Moves func p)
    (hdevice : (PipeLine.step func p).events.deviceIndex = p.events.deviceIndex)
    (hcount : (PipeLine.step func p).events.stuckDeviceNum ≤ p.events.stuckDeviceNum)
    (h1 : p.pipeState ≠ .checkAllDevice) (h2 : p.pipeState ≠ .checkCurDevice)
    (hrun : ¬ Stopped (PipeLine.step func p)) : Cycling d (PipeLine.step func p) := by
  obtain ⟨-, hdn, -, -⟩ := step_of_not_moves hm
  obtain ⟨hdrained, hrest⟩ := h.keeps hm
  have hne : p.events.deviceIndex ≠ d := by
    intro heq
    rcases (h.atDrained heq).2 with h3 | h3
    · exact h1 h3
    · exact h2 h3
  refine ⟨h.placed.step, hrun, hdrained, hrest, fun heq => absurd (hdevice.symm.trans heq) hne, ?_⟩
  rw [hdn, hdevice]
  exact hcount.trans h.count

end

lemma Cycling.step {d : ℕ} {p : PipeLine σ} (h : Cycling d p) (hm : ¬ Moves func p) :
    Cycling d (step func p) := by
  have hplaced : Placed (PipeLine.step func p) := h.placed.step
  obtain ⟨hdrained, hrest⟩ := h.keeps hm
  cases hst : p.pipeState with
  | checkAllDevice =>
    simp only [PipeLine.step, hst, checkAllDevice] at hplaced hdrained hrest ⊢
    rw [h.rest] at hplaced ⊢
    exact ⟨hplaced, by simp [Stopped], hdrained, hrest,
      fun heq => ⟨(h.atDrained heq).1, .inr rfl⟩, h.count⟩
  | checkCurDevice =>
    simp only [PipeLine.step, hst, checkCurDevice, EventContainer.checkCurDeviceStuck_eq]
      at hplaced hdrained hrest ⊢
    by_cases hn : p.events.isNeedSwitchNextDevice = true
    · obtain ⟨hle, hlt⟩ := count_leave h.drained.1 h.placed.device
        (fun heq => (h.atDrained heq).1) h.count
      rw [if_pos hn] at hplaced hdrained hrest ⊢
      generalize (if p.events.isDeviceStuck then p.events.stuckDeviceNum + 1 else 0) = k
        at hplaced hdrained hrest hle hlt ⊢
      have hall : ({ p.events with stuckDeviceNum := k } : EventContainer).isAllDeviceStuck
          ≠ true := by
        rw [EventContainer.isAllDeviceStuck, beq_iff_eq.ne]
        exact hlt.ne
      rw [if_neg hall] at hplaced hdrained hrest ⊢
      exact ⟨hplaced, by simp [Stopped], hdrained, hrest, fun _ => ⟨rfl, .inl rfl⟩, hle⟩
    · rw [if_neg hn] at hplaced hdrained hrest ⊢
      refine ⟨hplaced, by simp [Stopped], hdrained, hrest, fun heq => absurd ?_ hn, h.count⟩
      have heq : p.events.deviceIndex = d := heq
      rw [EventContainer.isNeedSwitchNextDevice, EventContainer.isCurDeviceEmpty, heq,
        h.drained.2, Bool.or_true]
  | checkCurBlock =>
    refine h.inside hm ?_ ?_ (by simp [hst]) (by simp [hst]) ?_
    · simp only [PipeLine.step, hst, checkCurBlock, EventContainer.switchToNextBlock]
      split_ifs <;> rfl
    · simp only [PipeLine.step, hst, checkCurBlock, EventContainer.switchToNextBlock]
      split_ifs
      · exact le_rfl
      · exact Nat.zero_le _
      · exact le_rfl
      · exact le_rfl
    · simp only [PipeLine.step, hst, checkCurBlock, Stopped]
      split_ifs <;> simp
  | checkCurPipe =>
    refine h.inside hm ?_ ?_ (by simp [hst]) (by simp [hst]) ?_
    · simp only [PipeLine.step, hst, checkCurPipe]
      split_ifs
      · exact p.events.switchToNextPipe_device.1
      · rfl
    · simp only [PipeLine.step, hst, checkCurPipe]
      split_ifs
      · exact p.events.switchToNextPipe_device.2.le
      · exact le_rfl
    · simp only [PipeLine.step, hst, checkCurPipe, Stopped]
      split_ifs <;> simp
  | processEvent =>
    cases hr : reply func p with
    | none =>
      rw [reply, Option.map_eq_none_iff, List.head?_eq_none_iff] at hr
      exact absurd hr (h.placed.front hst)
    | some r =>
      cases hret : r.ret with
      | processOk => exact absurd ⟨hst, r, hr, .inl hret⟩ hm
      | processStalled =>
        have hnil : r.pushes = [] := by
          by_contra hne
          exact hm ⟨hst, r, hr, .inr hne⟩
        have hstep : PipeLine.step func p
            = { events := p.events.switchToNextPipe, handler := r.state,
                pipeState := .checkCurBlock } := by
          simp only [PipeLine.step, hst, process, hr, hret, hnil, List.foldl_nil]
        have hin := h.inside hm
        rw [hstep] at hin ⊢
        exact hin p.events.switchToNextPipe_device.1 p.events.switchToNextPipe_device.2.le
          (by simp [hst]) (by simp [hst]) (by simp [Stopped])
  | exit => exact absurd (.inl hst) h.running
  | exception => exact absurd (.inr hst) h.running

/-- A device that is left drained when nothing moves any more keeps `Run` going around. -/
lemma not_stopped_of_leavesDrained {p : PipeLine σ} (h : Placed p) {n : ℕ}
    (hl : LeavesDrained (run func p n)) (hm : ∀ m ≥ n, ¬ Moves func (run func p m)) :
    ∀ m, ¬ Stopped (run func p m) := by
  obtain ⟨hst, hempty, hd, hrest⟩ := hl
  have hplaced : Placed (run func p n) := h.run n
  have hlt := hplaced.count (by simp [hst])
  have hdev := hplaced.device
  have hcyc : ∀ k, Cycling (run func p n).events.deviceIndex (run func p (n + k)) := by
    intro k
    induction k with
    | zero =>
      refine ⟨hplaced, by simp [Stopped, hst], ⟨hdev, hempty⟩, hrest,
        fun _ => ⟨hd, .inr hst⟩, ?_⟩
      rw [stepsFrom, Nat.add_zero, if_neg (lt_irrefl _)]
      omega
    | succ k ih =>
      rw [← Nat.add_assoc, run_succ]
      exact ih.step (hm _ (by omega))
  intro m hstop
  -- a stopped machine stays stopped
  have hstay : ∀ k, Stopped (run func p (m + k)) := by
    intro k
    induction k with
    | zero => exact hstop
    | succ k ih =>
      rw [← Nat.add_assoc, run_succ]
      rcases ih with h | h
      · exact .inl (by simp only [step, h])
      · exact .inr (by simp only [step, h])
  have h1 := hstay n
  rw [Nat.add_comm] at h1
  exact (hcyc m).running h1

lemma run_no_queues {blockNum deviceNum : ℕ} (h0 : blockNum = 0 ∨ deviceNum = 0)
    (pushes : List Push) (handler : σ) (n : ℕ) :
    (run func (start blockNum deviceNum pushes handler) (n + 1)).pipeState = .exit := by
  induction n with
  | zero =>
    obtain ⟨ques, heq, -⟩ := (EventContainer.init blockNum deviceNum).foldl_push_eq pushes
    have hnum : deviceNum * blockNum * pipeSize = 0 := by
      rcases h0 with rfl | rfl <;> simp
    have he : (pushes.foldl .push (EventContainer.init blockNum deviceNum)).isEmpty = true := by
      rw [heq]
      simp only [EventContainer.isEmpty, EventContainer.queNum, EventContainer.init, hnum]
      rfl
    show (step func (start blockNum deviceNum pushes handler)).pipeState = .exit
    simp only [step, start, checkAllDevice, he, if_true]
  | succ n ih =>
    rw [run_succ]
    simp only [step, ih]

/-- The loop has stopped for one of the two reasons that `Ends` names. -/
lemma ends_iff {p : PipeLine σ} (h0 : p.pipeState ≠ .exit) :
    Ends func p ↔ ∃ n, Stopped (run func p n) := by
  refine exists_congr fun n => ⟨fun h => ?_, fun h => ?_⟩
  · exact h.imp And.left id
  · exact h.imp (fun h => ⟨h, exit_isEmpty h0 h⟩) id

/-- **When `Run` ends.** For a handler that pushes boundedly many events, on any number of
devices, blocks and pipes: `Run` ends, with every queue empty or with the report that it is
stuck, if and only if each time it leaves a drained device while another device has events
left, some event is processed or pushed afterwards. -/
theorem run_ends_iff (blockNum deviceNum : ℕ) (pushes : List Push) (handler : σ)
    (hB : ∃ B, ∀ n, pushCount func (start blockNum deviceNum pushes handler) n ≤ B) :
    Ends func (start blockNum deviceNum pushes handler) ↔
      ∀ n, LeavesDrained (run func (start blockNum deviceNum pushes handler) n) →
        ∃ m ≥ n, Moves func (run func (start blockNum deviceNum pushes handler) m) := by
  rw [ends_iff (by simp [start])]
  by_cases h0 : blockNum = 0 ∨ deviceNum = 0
  · refine ⟨fun _ n hl => ?_, fun _ => ⟨1, .inl (run_no_queues h0 pushes handler 0)⟩⟩
    have hst := hl.1
    cases n with
    | zero => cases hst
    | succ n =>
      rw [run_no_queues h0] at hst
      cases hst
  · have hplaced := placed_start (Nat.pos_of_ne_zero fun h => h0 (.inl h))
      (Nat.pos_of_ne_zero fun h => h0 (.inr h)) pushes handler
    constructor
    · rintro ⟨n, hn⟩ k hl
      by_contra hnone
      push Not at hnone
      exact not_stopped_of_leavesDrained hplaced hl hnone n hn
    · intro h
      obtain ⟨B, hB⟩ := hB
      obtain ⟨N, hN⟩ := exists_quiet hplaced hB
      refine exists_stopped hplaced hN fun n hn hl => ?_
      obtain ⟨m, hm, hmove⟩ := h n hl
      exact hN m (hm.trans' hn) hmove

/-- A handler that stalls always neither processes nor pushes. -/
lemma not_moves_stallAlways (p : PipeLine Unit) : ¬ Moves stallAlways p := by
  rintro ⟨-, r, hr, hmove⟩
  obtain ⟨e, -, rfl⟩ := Option.map_eq_some_iff.mp hr
  rcases hmove with h | h
  · cases h
  · exact h rfl

lemma pushCount_stallAlways (p : PipeLine Unit) (n : ℕ) : pushCount stallAlways p n ≤ 0 := by
  refine (sum_eq_zero fun j _ => ?_).le
  rw [(step_of_not_moves (not_moves_stallAlways _)).2.2.2]
  rfl

/-- One device that is stuck is reported. -/
theorem run_ends_iff_at : Ends stallAlways (start 1 1 [vectorPush] ()) := by
  refine (run_ends_iff 1 1 [vectorPush] () ⟨0, pushCount_stallAlways _⟩).mpr fun n hl => ?_
  -- the only device is never empty
  have hques : ∀ n, (run stallAlways (start 1 1 [vectorPush] ()) n).events.ques 1
      = [vectorPush.event] ∧
      (run stallAlways (start 1 1 [vectorPush] ()) n).events.deviceNum = 1 ∧
      (run stallAlways (start 1 1 [vectorPush] ()) n).events.maxBlockNum = 1 := by
    intro n
    induction n with
    | zero => exact ⟨rfl, rfl, rfl⟩
    | succ n ih =>
      obtain ⟨h1, h2, h3, -⟩ :=
        step_of_not_moves (not_moves_stallAlways (run stallAlways (start 1 1 [vectorPush] ()) n))
      rw [run_succ, h1, h2, h3]
      exact ih
  obtain ⟨h1, h2, h3⟩ := hques n
  have hplaced : Placed (run stallAlways (start 1 1 [vectorPush] ()) n) :=
    (placed_start Nat.one_pos Nat.one_pos [vectorPush] ()).run n
  have hdev := hplaced.device
  rw [h2, Nat.lt_one_iff] at hdev
  have hempty := hl.2.1
  rw [EventContainer.isCurDeviceEmpty, EventContainer.isDeviceEmpty, hdev, h3,
    EventContainer.emptyFrom_iff] at hempty
  have := hempty 1 (by decide)
  simp [EventContainer.flattenPipeIdx, h1] at this

/-- An event of device `1` that never gets through, with nothing on device `0`. -/
def secondDevicePush : Push := { vectorPush with deviceIdx := 1 }

/-- `Run` goes around forever: the drained device `0` resets the count of stuck devices. -/
theorem run_never_ends :
    (∃ B, ∀ n, pushCount stallAlways (start 1 2 [secondDevicePush] ()) n ≤ B) ∧
      ¬ Ends stallAlways (start 1 2 [secondDevicePush] ()) := by
  refine ⟨⟨0, pushCount_stallAlways _⟩, fun h => ?_⟩
  obtain ⟨n, hn⟩ := (ends_iff (by simp [start])).mp h
  have hleaves : LeavesDrained (run stallAlways (start 1 2 [secondDevicePush] ()) 1) := by
    refine ⟨?_, ?_, ?_, ?_⟩ <;> decide
  exact not_stopped_of_leavesDrained (placed_start Nat.one_pos Nat.two_pos [secondDevicePush] ())
    hleaves (fun m _ => not_moves_stallAlways _) n hn

end MsSanitizer.PipeLine
