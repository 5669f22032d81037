import MsSanitizer.PipeLineRule
import MsSanitizer.RunAlgorithm

/-!
# The replay of single pipes

The model of `single_pipe_race_alg_impl.cpp`. A pipe starts its instructions in order and does not
wait for them to end, unless there is a barrier between them. Each event goes straight to the queue
of its pipe. Of every pipe the replay counts the barriers and the changes of the serial number, and
a memory event gets both counts.

The arrays of the source are functions of the pipe here. The source never sets them, so that they
start with any contents.
-/

namespace MsSanitizer

open RecordDefs EventDef PipeLine MemEventChecker

structure SinglePipeRaceAlgImpl where
  deviceType : DeviceType
  pipeBarrierNo : PipeType → ℕ
  pipeSerialNo : PipeType → ℕ × ℕ
  checked : List MemEvent := []

namespace SinglePipeRaceAlgImpl

variable (a : SinglePipeRaceAlgImpl)

/-- The counter of instructions after an event: one instruction becomes several events, which have
its serial number. -/
def nextSerial (serial : ℕ × ℕ) (serialNo : ℕ) : ℕ × ℕ :=
  if serial.1 ≠ serialNo then (serialNo, (serial.2 + 1) % 2 ^ 64) else serial

def processMemEvent (event : SanEvent) : SinglePipeRaceAlgImpl :=
  let serial := nextSerial (a.pipeSerialNo event.pipe) event.serialNo
  { a with
    pipeSerialNo := Function.update a.pipeSerialNo event.pipe serial
    checked := a.checked ++ [{ MemEvent.ofEvent event with
      barrierNo := a.pipeBarrierNo event.pipe
      pipeSerialNo := serial.2 }] }

/-- `pipeBarrierNo_[pipe - 1]++`. -/
def addBarrier (pipe : PipeType) : SinglePipeRaceAlgImpl :=
  { a with
    pipeBarrierNo := Function.update a.pipeBarrierNo pipe ((a.pipeBarrierNo pipe + 1) % 2 ^ 32) }

def processSyncEvent (event : SanEvent) (info : SyncOpInfo) : SinglePipeRaceAlgImpl :=
  if info.opType ≠ .pipeBarrier then a else a.addBarrier event.pipe

/-- `ProcessBufSyncEvent`: the first `get_buf` of a buffer does not wait. -/
def processBufSyncEvent (event : SanEvent) (info : BufSyncInfo) : SinglePipeRaceAlgImpl :=
  if info.opType = .getBuf ∧ info.mode = .blockMode then
    if info.rlsCount = 0 then a else a.addBarrier event.pipe
  else a

/-- The switch of `ProcessEvent`. -/
def dispatch (event : SanEvent) : SinglePipeRaceAlgImpl :=
  match event.info with
  | .sync info => a.processSyncEvent event info
  | .mem _ =>
    if isAscend95 a.deviceType ∧ event.pipe = .v then a
    else if event.pipe = .s ∨ event.pipe = .sCal then a
    else a.processMemEvent event
  | .bufSync info => a.processBufSyncEvent event info
  | _ => a

def processEvent : EventFunc SinglePipeRaceAlgImpl := fun _ a event =>
  { ret := .processOk, state := a.dispatch event }

/-- The pushes of `Do` before the end of the kernel. -/
def pushes (events : List SanEvent) : List Push :=
  (events.filter fun event => event.pipe ≠ .s).map fun event =>
    { event, pipe := event.pipe, blockIdx := 0 }

/-- `Run` on the events of a kernel, after `n` rounds of its loop. -/
def replay (events : List SanEvent) (n : ℕ) : PipeLine SinglePipeRaceAlgImpl :=
  run processEvent (PipeLine.start 1 1 (pushes events) a) n

/-! ## What an event does -/

def isChecked (deviceType : DeviceType) (event : SanEvent) : Bool :=
  match event.info with
  | .mem _ => !(isAscend95 deviceType && event.pipe == .v) && event.pipe != .s &&
      event.pipe != .sCal
  | _ => false

/-- The events that make their pipe wait for the instructions before. -/
def isBarrier (event : SanEvent) : Bool :=
  match event.info with
  | .sync info => info.opType == .pipeBarrier
  | .bufSync info => info.opType == .getBuf && info.mode == .blockMode && info.rlsCount != 0
  | _ => false

variable {a} {e : SanEvent} {p : PipeType} {events done l : List SanEvent}

lemma dispatch_eq : a.dispatch e = if isChecked a.deviceType e then a.processMemEvent e
    else if isBarrier e then a.addBarrier e.pipe else a := by
  unfold dispatch isChecked isBarrier
  cases hi : e.info with
  | mem op =>
    cases isAscend95 a.deviceType <;> by_cases hv : e.pipe = .v <;> by_cases hs : e.pipe = .s <;>
      by_cases hc : e.pipe = .sCal <;> simp_all
  | sync info => by_cases h : info.opType = .pipeBarrier <;> simp [processSyncEvent, h]
  | bufSync info =>
    simp only [processBufSyncEvent]
    by_cases h : info.opType = .getBuf ∧ info.mode = .blockMode
    · by_cases h0 : info.rlsCount = 0 <;> simp [h, h0]
    · rw [not_and] at h
      by_cases hop : info.opType = .getBuf <;> simp_all
  | _ => simp

lemma not_isBarrier_of_isChecked {dt : DeviceType} (h : isChecked dt e = true) :
    isBarrier e = false := by
  unfold isChecked at h
  split at h
  · simp [isBarrier, *]
  · cases h

lemma pipe_of_isChecked {dt : DeviceType} (h : isChecked dt e = true) : e.pipe ≠ .s := by
  unfold isChecked at h
  split at h
  · simp_all
  · cases h

/-! ## The state of a pipe -/

def laneOf (p : PipeType) (l : List SanEvent) : List SanEvent := l.filter fun e => e.pipe = p

def serials (dt : DeviceType) (l : List SanEvent) : List ℕ :=
  (l.filter (isChecked dt)).map SanEvent.serialNo

@[simp] lemma laneOf_append (l l' : List SanEvent) :
    laneOf p (l ++ l') = laneOf p l ++ laneOf p l' := List.filter_append ..

@[simp] lemma serials_append (dt : DeviceType) (l l' : List SanEvent) :
    serials dt (l ++ l') = serials dt l ++ serials dt l' := by simp [serials]

@[simp] lemma deviceType_foldl : (done.foldl dispatch a).deviceType = a.deviceType := by
  induction done using List.reverseRecOn with
  | nil => rfl
  | append_singleton done e ih =>
    rw [List.foldl_append, List.foldl_cons, List.foldl_nil, dispatch_eq]
    split_ifs <;> exact ih

/-- The counters of a pipe depend on the events of the pipe. -/
lemma foldl_dispatch (hb : a.pipeBarrierNo p < 2 ^ 32) :
    (done.foldl dispatch a).pipeBarrierNo p =
        (a.pipeBarrierNo p + (laneOf p done).countP isBarrier) % 2 ^ 32 ∧
      (done.foldl dispatch a).pipeSerialNo p =
        (serials a.deviceType (laneOf p done)).foldl nextSerial (a.pipeSerialNo p) := by
  induction done using List.reverseRecOn with
  | nil => exact ⟨(Nat.mod_eq_of_lt hb).symm, rfl⟩
  | append_singleton done e ih =>
    obtain ⟨ih1, ih2⟩ := ih
    rw [List.foldl_append, List.foldl_cons, List.foldl_nil, dispatch_eq, deviceType_foldl,
      laneOf_append, serials_append, List.foldl_append, List.countP_append]
    by_cases hp : e.pipe = p
    · have hlane : laneOf p [e] = [e] := by simp [laneOf, hp]
      rw [hlane]
      by_cases hc : isChecked a.deviceType e = true
      · have hbar := not_isBarrier_of_isChecked hc
        simp [hc, processMemEvent, hp, ih1, ih2, serials, hbar]
      · by_cases hbar : isBarrier e = true
        · simp [hc, hbar, addBarrier, hp, ih1, ih2, serials, Nat.add_assoc]
        · simp [hc, hbar, ih1, ih2, serials]
    · have hlane : laneOf p [e] = [] := by simp [laneOf, hp]
      rw [hlane]
      by_cases hc : isChecked a.deviceType e = true
      · simp [hc, processMemEvent, Ne.symm hp, ih1, ih2, serials]
      · by_cases hbar : isBarrier e = true
        · simp [hc, hbar, addBarrier, Ne.symm hp, ih1, ih2, serials]
        · simp [hc, hbar, ih1, ih2, serials]

lemma length_checked_le : (done.foldl dispatch a).checked.length ≤
    a.checked.length + done.length := by
  induction done using List.reverseRecOn with
  | nil => exact le_rfl
  | append_singleton done e ih =>
    rw [List.foldl_append, List.foldl_cons, List.foldl_nil, dispatch_eq, List.length_append]
    split_ifs
    · simp only [processMemEvent, List.length_append, List.length_singleton]
      omega
    · exact ih.trans (by omega)
    · exact ih.trans (by omega)

/-- The memory event that is pushed for an event after the events `pre` of its pipe. -/
def checkedAt (a : SinglePipeRaceAlgImpl) (pre : List SanEvent) (e : SanEvent) : MemEvent :=
  { MemEvent.ofEvent e with
    barrierNo := (a.pipeBarrierNo e.pipe + pre.countP isBarrier) % 2 ^ 32
    pipeSerialNo :=
      ((serials a.deviceType (pre ++ [e])).foldl nextSerial (a.pipeSerialNo e.pipe)).2 }

lemma mem_foldl_checked (hb : ∀ p, a.pipeBarrierNo p < 2 ^ 32) {x : MemEvent} :
    x ∈ (done.foldl dispatch a).checked ↔ x ∈ a.checked ∨ ∃ pre e post,
      done = pre ++ e :: post ∧ isChecked a.deviceType e = true ∧
        x = checkedAt a (laneOf e.pipe pre) e := by
  induction done using List.reverseRecOn with
  | nil => simp
  | append_singleton done e ih =>
    have hlast : x ∈ ((done ++ [e]).foldl dispatch a).checked ↔
        x ∈ (done.foldl dispatch a).checked ∨
          isChecked a.deviceType e = true ∧ x = checkedAt a (laneOf e.pipe done) e := by
      obtain ⟨h1, h2⟩ := @foldl_dispatch a e.pipe done (hb e.pipe)
      rw [List.foldl_append, List.foldl_cons, List.foldl_nil, dispatch_eq, deviceType_foldl]
      by_cases hc : isChecked a.deviceType e = true
      · simp [hc, processMemEvent, checkedAt, h1, h2, serials]
      · by_cases hbar : isBarrier e = true <;> simp [hc, hbar, addBarrier]
    rw [hlast, ih]
    constructor
    · rintro ((hx | ⟨pre, e', post, rfl, hc, hx⟩) | ⟨hc, hx⟩)
      · exact .inl hx
      · exact .inr ⟨pre, e', post ++ [e], by simp, hc, hx⟩
      · exact .inr ⟨done, e, [], rfl, hc, hx⟩
    · rintro (hx | ⟨pre, e', post, heq, hc, hx⟩)
      · exact .inl (.inl hx)
      · rcases List.eq_nil_or_concat post with rfl | ⟨post, e'', rfl⟩
        · obtain ⟨rfl, he⟩ := List.append_inj' heq rfl
          obtain rfl : e = e' := List.singleton_inj.mp he
          exact .inr ⟨hc, hx⟩
        · rw [List.concat_eq_append, ← List.cons_append, ← List.append_assoc] at heq
          exact .inl (.inr ⟨pre, e', post, (List.append_inj' heq rfl).1, hc, hx⟩)

lemma mem_checked_iff (hb : ∀ p, a.pipeBarrierNo p < 2 ^ 32) (hnil : a.checked = [])
    {x : MemEvent} : x ∈ (done.foldl dispatch a).checked ↔ ∃ i e,
      (laneOf e.pipe done)[i]? = some e ∧ isChecked a.deviceType e = true ∧
        x = checkedAt a ((laneOf e.pipe done).take i) e := by
  rw [mem_foldl_checked hb, hnil, or_iff_right List.not_mem_nil]
  constructor
  · rintro ⟨pre, e, post, rfl, hc, hx⟩
    have hlane : laneOf e.pipe (pre ++ e :: post) =
        laneOf e.pipe pre ++ e :: laneOf e.pipe post := by simp [laneOf]
    refine ⟨(laneOf e.pipe pre).length, e, ?_, hc, ?_⟩
    · rw [hlane, List.getElem?_append_right le_rfl, Nat.sub_self, List.getElem?_cons_zero]
    · rw [hlane, List.take_left' rfl]
      exact hx
  · rintro ⟨i, e, hi, hc, hx⟩
    obtain ⟨hlt, hei⟩ := List.getElem?_eq_some_iff.mp hi
    have hsplit : laneOf e.pipe done =
        (laneOf e.pipe done).take i ++ e :: (laneOf e.pipe done).drop (i + 1) := by
      have hdrop := List.drop_eq_getElem_cons hlt
      rw [hei] at hdrop
      rw [← hdrop, List.take_append_drop]
    obtain ⟨l1, l2, rfl, h1, h2⟩ := List.filter_eq_append_iff.mp hsplit
    obtain ⟨l3, l4, rfl, h3, -, -⟩ := List.filter_eq_cons_iff.mp h2
    refine ⟨l1 ++ l3, e, l4, by simp, hc, ?_⟩
    have hpre : laneOf e.pipe (l1 ++ l3) = laneOf e.pipe l1 := by
      rw [laneOf_append, show laneOf e.pipe l3 = [] from List.filter_eq_nil_iff.mpr h3,
        List.append_nil]
    rw [hpre, hx]
    exact congrArg (checkedAt a · e) h1.symm

/-! ## The end of the replay -/

/-- The events of a pipe, in the order in which its queue gets them. -/
def lane (events : List SanEvent) (p : PipeType) : List SanEvent :=
  laneOf p (events.flatMap EventContainer.parts)

def queOf (c : EventContainer) (p : PipeType) : List SanEvent := c.ques p.idx

def queWork (ques : ℕ → List SanEvent) : ℕ := ∑ i ∈ Finset.range pipeSize, (ques i).length

lemma work_start_le (a₀ : SinglePipeRaceAlgImpl) (events : List SanEvent) :
    queWork (PipeLine.start 1 1 (pushes events) a₀).events.ques ≤ 2 * events.length := by
  have hlen : (pushes events).length ≤ events.length := by
    rw [pushes, List.length_map]
    exact List.length_filter_le _ _
  have hnum : ((pushes events).foldl EventContainer.push (.init 1 1)).queNum = pipeSize := by
    obtain ⟨hb, hd, -⟩ := EventContainer.foldl_push_blocks (pushes events) (.init 1 1)
    rw [EventContainer.queNum, hb, hd]
    exact Nat.one_mul _
  have htotal := EventContainer.total_foldl_push (pushes events) (.init 1 1)
  have h0 : (EventContainer.init 1 1).total = 0 := by
    simp [EventContainer.total, EventContainer.init]
  rw [EventContainer.total, hnum] at htotal
  change queWork ((pushes events).foldl EventContainer.push (.init 1 1)).ques ≤ _
  rw [queWork]
  omega

/-- What has been done and what is in the queues are the events of the pipes. -/
structure Replayed (a₀ : SinglePipeRaceAlgImpl) (events : List SanEvent) (c : EventContainer)
    (a : SinglePipeRaceAlgImpl) (done : List SanEvent) : Prop where
  state : a = done.foldl dispatch a₀
  blocks : c.maxBlockNum = 1
  devices : c.deviceNum = 1
  order : ∀ p, p ≠ .s → laneOf p done ++ queOf c p = lane events p
  scalar : laneOf .s done = [] ∧ queOf c .s = []
  work : done.length + queWork c.ques ≤ 2 * events.length

variable {a₀ : SinglePipeRaceAlgImpl} {c : EventContainer} {rest : List SanEvent}

lemma laneOf_parts (p : PipeType) (e : SanEvent) : laneOf p (EventContainer.parts e) =
    if e.pipe = p then EventContainer.parts e else [] := by
  have hpipe : ∀ x ∈ EventContainer.parts e, x.pipe = e.pipe := by
    intro x hx
    unfold EventContainer.parts at hx
    split at hx
    · split_ifs at hx
      · simp only [List.mem_cons, List.not_mem_nil, or_false] at hx
        rcases hx with rfl | rfl <;> rfl
      · rw [List.mem_singleton.mp hx]
    · rw [List.mem_singleton.mp hx]
  rw [laneOf]
  split_ifs with hp
  · exact List.filter_eq_self.mpr fun x hx => by simpa using (hpipe x hx).trans hp
  · exact List.filter_eq_nil_iff.mpr fun x hx hc => hp ((hpipe x hx).symm.trans (by simpa using hc))

lemma laneOf_flatMap_parts (p : PipeType) (l : List SanEvent) :
    laneOf p (l.flatMap EventContainer.parts) = (laneOf p l).flatMap EventContainer.parts := by
  induction l with
  | nil => rfl
  | cons e l ih =>
    rw [List.flatMap_cons, laneOf_append, laneOf_parts, ih]
    by_cases hp : e.pipe = p <;> simp [laneOf, hp]

lemma replayed_start (a₀ : SinglePipeRaceAlgImpl) (events : List SanEvent) :
    Replayed a₀ events (PipeLine.start 1 1 (pushes events) a₀).events a₀ [] := by
  obtain ⟨hb, hd, -⟩ := EventContainer.foldl_push_blocks (pushes events) (.init 1 1)
  have hque : ∀ p, queOf (PipeLine.start 1 1 (pushes events) a₀).events p =
      if p = .s then [] else lane events p := by
    intro p
    have htarget : ∀ e : SanEvent, (EventContainer.init 1 1).target
        { event := e, pipe := e.pipe, blockIdx := 0 } = some p.idx ↔ e.pipe = p := by
      intro e
      rw [EventContainer.target, if_neg (by simp [EventContainer.init]), Option.some_inj,
        EventContainer.flattenPipeIdx]
      simp only [Nat.zero_mul, Nat.zero_add]
      exact PipeType.idx_injective.eq_iff
    rw [queOf, PipeLine.start, EventContainer.foldl_push_ques, pushes, List.filter_map,
      List.flatMap_map]
    simp only [Function.comp_def, htarget]
    refine (List.nil_append _).trans ?_
    rw [List.filter_filter, lane, laneOf_flatMap_parts, laneOf]
    split_ifs with hp
    · rw [List.filter_eq_nil_iff.mpr, List.flatMap_nil]
      intro e _
      simp [hp]
    · congr 1
      refine List.filter_congr fun e _ => ?_
      by_cases he : e.pipe = p <;> simp [he, hp]
  refine ⟨rfl, hb, hd, fun p hp => ?_, ⟨rfl, ?_⟩, ?_⟩
  · rw [hque, if_neg hp]
    rfl
  · rw [hque, if_pos rfl]
  · rw [List.length_nil, Nat.zero_add]
    exact work_start_le a₀ events

lemma exists_pipe {i : ℕ} (hi : i < pipeSize) : ∃ p : PipeType, p.idx = i := by
  have hall : ∀ i < pipeSize, i ∈ [PipeType.s, .v, .m, .mte1, .mte2, .mte3, .all, .mte4, .mte5,
      .v2, .fix, .sCal].map PipeType.idx := by decide
  obtain ⟨p, -, hp⟩ := List.mem_map.mp (hall i hi)
  exact ⟨p, hp⟩

lemma Replayed.process (h : Replayed a₀ events c a done) (hat : AtFront c e rest) :
    Replayed a₀ events (afterOffer c (processEvent c a e)) (processEvent c a e).state
        (done ++ [e]) ∧
      queWork (afterOffer c (processEvent c a e)).ques < queWork c.ques := by
  have hidx : c.getQueIndex = c.pipeIndex := by
    have hb := hat.block
    have hd := hat.device
    rw [h.blocks, Nat.lt_one_iff] at hb
    rw [h.devices, Nat.lt_one_iff] at hd
    simp [EventContainer.getQueIndex, EventContainer.flattenPipeIdx, hb, hd]
  obtain ⟨p, hp⟩ := exists_pipe hat.pipe
  have hfront : queOf c p = e :: rest := by
    rw [queOf, hp, ← hidx]
    exact hat.front
  have hne : p ≠ .s := by
    rintro rfl
    rw [h.scalar.2] at hfront
    cases hfront
  have he : e.pipe = p := by
    have hmem : e ∈ lane events p := by
      rw [← h.order p hne, hfront]
      exact List.mem_append_right _ List.mem_cons_self
    simpa using (List.mem_filter.mp hmem).2
  have hques : (afterOffer c (processEvent c a e)).ques = Function.update c.ques p.idx rest := by
    change Function.update c.ques c.getQueIndex (c.ques c.getQueIndex).tail = _
    rw [hat.front, hidx, hp]
    rfl
  have hque : ∀ q, queOf (afterOffer c (processEvent c a e)) q =
      if q = p then rest else queOf c q := by
    intro q
    rw [queOf, hques]
    by_cases hq : q = p
    · rw [if_pos hq, hq, Function.update_self]
    · rw [if_neg hq, Function.update_of_ne fun hc => hq (PipeType.idx_injective hc), queOf]
  have hlane : ∀ q, laneOf q (done ++ [e]) = laneOf q done ++ if q = p then [e] else [] := by
    intro q
    rw [laneOf_append, laneOf, laneOf]
    by_cases hq : q = p
    · simp [he, hq]
    · simp [he, hq, Ne.symm hq]
  have hwork : queWork (afterOffer c (processEvent c a e)).ques < queWork c.ques := by
    rw [hques, queWork, queWork]
    refine Finset.sum_lt_sum (fun i _ => ?_) ⟨p.idx, Finset.mem_range.mpr p.idx_lt, ?_⟩
    · by_cases hi : i = p.idx
      · rw [hi, Function.update_self, ← queOf, hfront, List.length_cons]
        exact Nat.le_succ _
      · rw [Function.update_of_ne hi]
    · rw [Function.update_self, ← queOf, hfront, List.length_cons]
      exact Nat.lt_succ_self _
  refine ⟨⟨?_, h.blocks, h.devices, fun q hq => ?_, ⟨?_, ?_⟩, ?_⟩, hwork⟩
  · rw [h.state, List.foldl_append]
    rfl
  · rw [hque, hlane]
    by_cases hqp : q = p
    · rw [if_pos hqp, if_pos hqp, List.append_assoc, List.singleton_append, ← hfront, hqp]
      exact h.order p hne
    · rw [if_neg hqp, if_neg hqp, List.append_nil]
      exact h.order q hq
  · rw [hlane, if_neg (Ne.symm hne), List.append_nil]
    exact h.scalar.1
  · rw [hque, if_neg (Ne.symm hne)]
    exact h.scalar.2
  · have := h.work
    rw [List.length_append, List.length_singleton]
    omega

/-- **The handler settles**; it never stalls. -/
lemma settles (a₀ : SinglePipeRaceAlgImpl) (events : List SanEvent) :
    Settles processEvent (fun c a => ∃ done, Replayed a₀ events c a done) queWork where
  same := by
    rintro c c' a hs ⟨done, h⟩
    have hque : ∀ p, queOf c' p = queOf c p := fun p => by rw [queOf, hs.ques, queOf]
    exact ⟨done, h.state, hs.blocks.trans h.blocks, hs.devices.trans h.devices,
      fun p hp => by rw [hque]; exact h.order p hp,
      ⟨h.scalar.1, by rw [hque]; exact h.scalar.2⟩, by rw [hs.ques]; exact h.work⟩
  keeps := fun ⟨_, h⟩ hat => ⟨_, (h.process hat).1⟩
  stalls := fun _ _ hret => nomatch hret
  works := fun ⟨_, h⟩ hat _ => (h.process hat).2

/-- **`Run` ends**, and then every pipe has done its events in their order. -/
lemma replay_done (a₀ : SinglePipeRaceAlgImpl) (hlen : 2 * events.length < 2 ^ 32) :
    (∃ n, Stopped (replay a₀ events n)) ∧ ∀ n, Stopped (replay a₀ events n) →
      ∃ done, (replay a₀ events n).handler = done.foldl dispatch a₀ ∧
        done.length ≤ 2 * events.length ∧ ∀ p, p ≠ .s → laneOf p done = lane events p := by
  have hset := settles a₀ events
  have hI : ∃ done, Replayed a₀ events (PipeLine.start 1 1 (pushes events) a₀).events a₀ done :=
    ⟨[], replayed_start a₀ events⟩
  have hplaced := placed_start Nat.one_pos Nat.one_pos (pushes events) a₀
  refine ⟨hset.exists_stopped hplaced hI (replayed_start a₀ events).devices, fun n hn => ?_⟩
  obtain ⟨done, h⟩ := hset.run hplaced hI n
  refine ⟨done, h.state, le_trans (Nat.le_add_right _ _) h.work, fun p hp => ?_⟩
  rw [← h.order p hp]
  by_cases hne : queOf (replay a₀ events n).events p = []
  · exact (hne ▸ (List.append_nil _).symm)
  · -- a queue that is not empty would stall
    obtain ⟨_, _, _, -, -, -, hret⟩ := hset.front_of_stopped hI
      (lt_of_le_of_lt (work_start_le a₀ events) hlen) hn (by simpa using p.idx_lt) hne
    cases hret

end SinglePipeRaceAlgImpl

end MsSanitizer
