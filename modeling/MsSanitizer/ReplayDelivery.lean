import MsSanitizer.PipelineReplayer
import MsSanitizer.PipeLineSteps

/-!
# The memory events that the replay delivers

A memory event stays in the scalar queue of its block until the callback gets it, whatever the
synchronisation events do in the meantime. So at every moment the events delivered for a block,
followed by those that its scalar queue still holds, are the events recorded for it.
-/

namespace MsSanitizer

open RecordDefs EventDef PipeLine PipelineReplayer

/-- The event belongs to block `b`. -/
def ofBlock (kernelType : KernelType) (deviceType : DeviceType) (b : ℕ) (e : SanEvent) : Bool :=
  getEventBlockIndexOf e.loc kernelType deviceType == b

/-- The memory events recorded for block `b`, in order and with the copies split. -/
def recorded (kernelType : KernelType) (deviceType : DeviceType) (events : List SanEvent)
    (b : ℕ) : List SanEvent :=
  (events.filter fun e => isMemEvent e && ofBlock kernelType deviceType b e).flatMap
    EventContainer.parts

/-- The events that the callback has got for block `b`. -/
def deliveredTo (r : PipelineReplayer) (b : ℕ) : List SanEvent :=
  r.delivered.filter (ofBlock r.kernelType r.deviceType b)

/-! ## What the handler does -/

namespace PipelineReplayer

variable (r : PipelineReplayer) (curPipe : ℕ) (e : SanEvent)

def Keeps (r r' : PipelineReplayer) : Prop :=
  r'.kernelType = r.kernelType ∧ r'.deviceType = r.deviceType ∧ r'.delivered = r.delivered

lemma dispatch_keeps (he : isMemEvent e = false) : Keeps r (r.dispatch curPipe e).2 := by
  unfold dispatch isMemEvent at *
  split at he
  · cases he
  · cases he
  cases hinfo : e.info with
  | mem => simp_all
  | dynamicMem => simp_all
  | sync info =>
    simp only [processSyncEvent]
    split_ifs <;> exact ⟨rfl, rfl, rfl⟩
  | mstxCrossSync info =>
    simp only [processMstxCrossSyncEvent]
    split_ifs <;> try exact ⟨rfl, rfl, rfl⟩
    split <;> exact ⟨rfl, rfl, rfl⟩
  | bufSync info =>
    simp only [processGetRlsBufSyncEvent]
    split_ifs <;> exact ⟨rfl, rfl, rfl⟩
  | _ => exact ⟨rfl, rfl, rfl⟩

lemma dispatch_mem (he : isMemEvent e = true) :
    r.dispatch curPipe e = (.processOk, { r with delivered := r.delivered ++ [e] }) := by
  unfold dispatch isMemEvent at *
  cases hinfo : e.info with
  | mem => rfl
  | dynamicMem => rfl
  | _ => simp_all

lemma processEvent_mem (c : EventContainer) (he : isMemEvent e = true) :
    processEvent c r e =
      { ret := .processOk, state := { r with delivered := r.delivered ++ [e] } } := by
  unfold processEvent
  rw [if_neg (by simp [he]), dispatch_mem r _ e he]

lemma processEvent_other (c : EventContainer) (he : isMemEvent e = false) :
    Keeps r (processEvent c r e).state ∧
      ∀ p ∈ (processEvent c r e).pushes, isMemEvent p.event = false := by
  unfold processEvent
  split_ifs
  · refine ⟨⟨rfl, rfl, rfl⟩, fun p hp => ?_⟩
    rw [List.mem_singleton.1 hp]
    exact he
  · exact ⟨dispatch_keeps r _ e he, fun p hp => absurd hp List.not_mem_nil⟩

end PipelineReplayer

/-! ## Splitting copies -/

/-- The parts of an event are of its kind and at its place. -/
lemma mem_parts {e e' : SanEvent} (h : e' ∈ EventContainer.parts e) :
    isMemEvent e' = isMemEvent e ∧ e'.loc = e.loc := by
  unfold EventContainer.parts at h
  unfold isMemEvent
  split at h
  · rename_i info hinfo
    split_ifs at h
    · simp only [List.mem_cons, List.not_mem_nil, or_false] at h
      rcases h with rfl | rfl <;> simp [hinfo]
    · rw [List.mem_singleton.1 h]
      exact ⟨rfl, rfl⟩
  · rw [List.mem_singleton.1 h]
    exact ⟨rfl, rfl⟩

lemma filter_parts_of_mem {e : SanEvent} (h : isMemEvent e = true) :
    (EventContainer.parts e).filter isMemEvent = EventContainer.parts e :=
  List.filter_eq_self.2 fun _ he => (mem_parts he).1.trans h

lemma filter_parts_of_not_mem {e : SanEvent} (h : isMemEvent e = false) :
    (EventContainer.parts e).filter isMemEvent = [] :=
  List.filter_eq_nil_iff.2 fun _ he => by rw [(mem_parts he).1, h]; exact Bool.false_ne_true

/-- Pushes of other events add no memory events to a queue. -/
lemma filter_flatMap_parts {pushes : List Push} (h : ∀ p ∈ pushes, isMemEvent p.event = false) :
    (pushes.flatMap fun p => EventContainer.parts p.event).filter isMemEvent = [] := by
  rw [List.filter_flatMap, List.flatMap_eq_nil_iff]
  exact fun p hp => filter_parts_of_not_mem (h p hp)

/-! ## The invariant -/

def scalarQueue (b : ℕ) : ℕ := b * pipeSize

/-- What is delivered and what is left, for the events recorded. -/
structure Delivers (kernelType : KernelType) (deviceType : DeviceType) (blockNum : ℕ)
    (events : List SanEvent) (c : EventContainer) (r : PipelineReplayer) : Prop where
  kernel : r.kernelType = kernelType
  device : r.deviceType = deviceType
  blocks : c.maxBlockNum = blockNum
  devices : c.deviceNum = 1
  /-- Memory events are in the scalar queue of their block. -/
  home : ∀ q, ∀ e ∈ c.ques q, isMemEvent e = true →
    q = scalarQueue (getEventBlockIndexOf e.loc kernelType deviceType)
  whole : ∀ b < blockNum, deliveredTo r b ++ (c.ques (scalarQueue b)).filter isMemEvent =
    recorded kernelType deviceType events b

section Step

variable {kt : KernelType} {dt : DeviceType} {blockNum : ℕ} {events : List SanEvent}
  {c : EventContainer} {r : PipelineReplayer} {e : SanEvent} {rest : List SanEvent}

lemma Delivers.sameQueues {c' : EventContainer} (h : Delivers kt dt blockNum events c r)
    (hc : SameQueues c c') : Delivers kt dt blockNum events c' r := by
  refine ⟨h.kernel, h.device, hc.blocks.trans h.blocks, hc.devices.trans h.devices, ?_, ?_⟩
  · rw [hc.ques]
    exact h.home
  · rw [hc.ques]
    exact h.whole

/-- A memory event at the front goes from the queue to the callback. -/
lemma Delivers.offer_mem (h : Delivers kt dt blockNum events c r)
    (hq : c.ques c.getQueIndex = e :: rest) (he : isMemEvent e = true) :
    Delivers kt dt blockNum events (afterOffer c (processEvent c r e))
      (processEvent c r e).state := by
  rw [processEvent_mem r e c he]
  have hhome := h.home c.getQueIndex e (by rw [hq]; exact List.mem_cons_self ..) he
  have hafter (q : ℕ) (state : PipelineReplayer) :
      (afterOffer c ({ ret := .processOk, state } : Reply PipelineReplayer)).ques q =
        if q = c.getQueIndex then rest else c.ques q := by
    rw [afterOffer_ques]
    simp only [true_and, List.foldl_nil]
    split_ifs with hqi
    · rw [hqi, hq, List.tail_cons]
    · rfl
  refine ⟨h.kernel, h.device, (afterOffer_blocks c _).1.trans h.blocks,
    (afterOffer_blocks c _).2.trans h.devices, fun q e' he' hmem => ?_, fun b hb => ?_⟩
  · rw [hafter] at he'
    refine h.home q e' ?_ hmem
    split_ifs at he' with hqi
    · rw [hqi, hq]
      exact List.mem_cons_of_mem e he'
    · exact he'
  · have hwhole := h.whole b hb
    rw [hafter, ← hwhole, deliveredTo, deliveredTo, List.filter_append]
    by_cases hbe : getEventBlockIndexOf e.loc kt dt = b
    · have hof : ofBlock r.kernelType r.deviceType b e = true := by
        rw [ofBlock, h.kernel, h.device, hbe, beq_self_eq_true]
      have hcur : scalarQueue b = c.getQueIndex := by rw [hhome, hbe]
      rw [if_pos hcur, hcur, hq, List.filter_cons_of_pos hof, List.filter_nil,
        List.filter_cons_of_pos he, List.append_assoc, List.singleton_append]
    · have hof : ¬ ofBlock r.kernelType r.deviceType b e = true := by
        rw [ofBlock, h.kernel, h.device, beq_iff_eq]
        exact hbe
      have hcur : scalarQueue b ≠ c.getQueIndex := by
        rw [hhome, scalarQueue, scalarQueue]
        exact fun heq => hbe (Nat.eq_of_mul_eq_mul_right pipeSize_pos heq).symm
      rw [if_neg hcur, List.filter_cons_of_neg hof, List.filter_nil, List.append_nil]

/-- No other event at the front changes the memory events in the queues, nor what was
delivered. -/
lemma Delivers.offer_other (h : Delivers kt dt blockNum events c r)
    (hq : c.ques c.getQueIndex = e :: rest) (he : isMemEvent e = false) :
    Delivers kt dt blockNum events (afterOffer c (processEvent c r e))
      (processEvent c r e).state := by
  obtain ⟨⟨hkernel, hdevice, hdelivered⟩, hpushes⟩ := processEvent_other r e c he
  -- the pushes add no memory events, and the front is none
  have hfilter (q : ℕ) : ((afterOffer c (processEvent c r e)).ques q).filter isMemEvent =
      (c.ques q).filter isMemEvent := by
    have hpushed : (((processEvent c r e).pushes.foldl .push c).ques q).filter isMemEvent =
        (c.ques q).filter isMemEvent := by
      rw [EventContainer.foldl_push_ques, List.filter_append, filter_flatMap_parts fun p hp =>
        hpushes p (List.mem_filter.1 hp).1, List.append_nil]
    rw [afterOffer_ques]
    split_ifs with hpop
    · rw [← hpushed, hpop.2, EventContainer.foldl_push_ques, hq, List.cons_append, List.tail_cons,
        List.filter_cons_of_neg (by rw [he]; exact Bool.false_ne_true)]
    · exact hpushed
  refine ⟨hkernel.trans h.kernel, hdevice.trans h.device, (afterOffer_blocks c _).1.trans h.blocks,
    (afterOffer_blocks c _).2.trans h.devices, fun q e' he' hmem => ?_, fun b hb => ?_⟩
  · refine h.home q e' ?_ hmem
    have hmem' : e' ∈ (c.ques q).filter isMemEvent := by
      rw [← hfilter]
      exact List.mem_filter.2 ⟨he', hmem⟩
    exact (List.mem_filter.1 hmem').1
  · rw [hfilter, ← h.whole b hb, deliveredTo, deliveredTo, hdelivered, hkernel, hdevice]

end Step

/-! ## The start -/

lemma flatMap_filter_filter (events : List SanEvent) (p : SanEvent → Bool) :
    ((events.filter p).flatMap EventContainer.parts).filter isMemEvent =
      (events.filter fun e => isMemEvent e && p e).flatMap EventContainer.parts := by
  induction events with
  | nil => rfl
  | cons e events ih =>
    by_cases hp : p e = true
    · rw [List.filter_cons_of_pos hp, List.flatMap_cons, List.filter_append, ih]
      by_cases he : isMemEvent e = true
      · rw [filter_parts_of_mem he, List.filter_cons_of_pos (by simp [he, hp]), List.flatMap_cons]
      · rw [filter_parts_of_not_mem (Bool.eq_false_iff.2 he), List.nil_append,
          List.filter_cons_of_neg (by simp [he])]
    · rw [List.filter_cons_of_neg hp, ih, List.filter_cons_of_neg (by simp [hp])]

lemma start_ques (r : PipelineReplayer) (blockNum : ℕ) (events : List SanEvent) (q : ℕ)
    (handler : PipelineReplayer) :
    (start blockNum 1 (r.pushes events) handler).events.ques q =
      (events.filter fun e => decide (r.blockIndex e < blockNum ∧
        scalarQueue (r.blockIndex e) = q)).flatMap EventContainer.parts := by
  have htarget (e : SanEvent) : (EventContainer.init blockNum 1).target
      { event := e, pipe := .s, blockIdx := r.blockIndex e } = some q ↔
      r.blockIndex e < blockNum ∧ scalarQueue (r.blockIndex e) = q := by
    rw [EventContainer.target]
    by_cases hlt : r.blockIndex e < blockNum
    · rw [if_neg (by simpa [EventContainer.init] using hlt), Option.some_inj, and_iff_right hlt,
        EventContainer.flattenPipeIdx, Nat.zero_mul, Nat.zero_mul, Nat.zero_add]
      rfl
    · rw [if_pos (by simpa [EventContainer.init] using hlt)]
      exact iff_of_false (by simp) fun h => hlt h.1
  rw [start, EventContainer.foldl_push_ques, PipelineReplayer.pushes, List.filter_map,
    List.flatMap_map]
  simp only [Function.comp_def, htarget]
  exact List.nil_append _

lemma delivers_start (kt : KernelType) (dt : DeviceType) (blockDim : ℕ) (events : List SanEvent) :
    Delivers kt dt (totalBlockNum kt dt blockDim) events
      (replay kt dt blockDim events 0).events (replay kt dt blockDim events 0).handler := by
  obtain ⟨hblocks, hdevices, -⟩ := EventContainer.foldl_push_blocks
    ((init kt dt blockDim).pushes events) (.init (totalBlockNum kt dt blockDim) 1)
  refine ⟨rfl, rfl, hblocks, hdevices, fun q e he _ => ?_, fun b hb => ?_⟩
  · have hques := start_ques (init kt dt blockDim) (totalBlockNum kt dt blockDim) events q
      ((init kt dt blockDim).collect events)
    have he' : e ∈ (start (totalBlockNum kt dt blockDim) 1
        ((init kt dt blockDim).pushes events)
        ((init kt dt blockDim).collect events)).events.ques q := he
    rw [hques, List.mem_flatMap] at he'
    obtain ⟨e0, he0, hpart⟩ := he'
    have hplace := (mem_parts hpart).2
    obtain ⟨-, hq⟩ := of_decide_eq_true (List.mem_filter.1 he0).2
    rw [hplace]
    exact hq.symm
  · have hques := start_ques (init kt dt blockDim) (totalBlockNum kt dt blockDim) events
      (scalarQueue b) ((init kt dt blockDim).collect events)
    have hmine (e : SanEvent) : decide ((init kt dt blockDim).blockIndex e <
        totalBlockNum kt dt blockDim ∧ scalarQueue ((init kt dt blockDim).blockIndex e) =
          scalarQueue b) = ofBlock kt dt b e := by
      rw [Bool.eq_iff_iff, decide_eq_true_eq, ofBlock, beq_iff_eq, scalarQueue, scalarQueue,
        Nat.mul_left_inj pipeSize_pos.ne']
      exact ⟨fun h => h.2, fun h => ⟨by rw [PipelineReplayer.blockIndex]; exact h ▸ hb, h⟩⟩
    simp only [hmine] at hques
    rw [recorded, ← flatMap_filter_filter, ← hques]
    rfl

/-- **The replay delivers the memory events of a block in order.** After any number of rounds the
events that the callback has got for a block are a prefix of the memory events recorded for it,
each copy split into its read and its write; when all queues are empty they are all of them. -/
theorem replay_delivers_inOrder (kernelType : KernelType) (deviceType : DeviceType) (blockDim : ℕ)
    (events : List SanEvent) (n : ℕ) (b : ℕ)
    (hb : b < totalBlockNum kernelType deviceType blockDim) :
    deliveredTo (replay kernelType deviceType blockDim events n).handler b <+:
        recorded kernelType deviceType events b ∧
      ((replay kernelType deviceType blockDim events n).events.isEmpty = true →
        deliveredTo (replay kernelType deviceType blockDim events n).handler b =
          recorded kernelType deviceType events b) := by
  have h : Delivers kernelType deviceType (totalBlockNum kernelType deviceType blockDim) events
      (replay kernelType deviceType blockDim events n).events
      (replay kernelType deviceType blockDim events n).handler := by
    refine run_induction (fun hc h => h.sameQueues hc) (fun h hq => ?_)
      (delivers_start kernelType deviceType blockDim events) n
    rename_i e _
    cases he : isMemEvent e with
    | true => exact h.offer_mem hq he
    | false => exact h.offer_other hq he
  have hwhole := h.whole b hb
  refine ⟨⟨_, hwhole⟩, fun hempty => ?_⟩
  have hlt : scalarQueue b < EventContainer.queNum
      (replay kernelType deviceType blockDim events n).events := by
    rw [EventContainer.queNum, h.blocks, h.devices, Nat.one_mul, scalarQueue]
    exact Nat.mul_lt_mul_of_pos_right hb pipeSize_pos
  have hnil := EventContainer.emptyFrom_iff.1 hempty (scalarQueue b) hlt
  rw [Nat.zero_add] at hnil
  rw [← hwhole, hnil, List.filter_nil, List.append_nil]

/-- A copy and a write of one core, around a wait that nobody answers. -/
def stuckCore : List SanEvent :=
  [{ info := .mem { opType := .memcpyBlocks } },
    { info := .sync { opType := .waitFlag, srcPipe := .s, dstPipe := .s } },
    { info := .mem { opType := .write } }]

theorem replay_delivers_inOrder_stuckCore :
    (deliveredTo (replay .aivec ⟨0⟩ 1 stuckCore 40).handler 0).length = 2 ∧
      deliveredTo (replay .aivec ⟨0⟩ 1 stuckCore 40).handler 0 <+:
        recorded .aivec ⟨0⟩ stuckCore 0 :=
  ⟨by decide +kernel, (replay_delivers_inOrder .aivec ⟨0⟩ 1 stuckCore 40 0 (by decide)).1⟩

end MsSanitizer
