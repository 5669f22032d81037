import MsSanitizer.BlockPolls
import MsSanitizer.CausalClocks
import MsSanitizer.FifoTrace

/-!
# Happens-before and the clocks of a block

The steps of a run are numbered by their position. A step happens before the later steps of its
pipe. A step that issues an event happens before the execution of the time event that it pushes,
and the set of a flag before the wait that takes it; both are matched first in, first out. The
clocks that a run stores and merges are exact for this order.
-/

namespace MsSanitizer.BlockReplay

open RecordDefs EventDef VectorTime PipeLine FifoTrace

/-- What connects steps of different pipes: a flag, and the queue of a pipe. -/
inductive Link
  | flag (k : SyncEvent)
  | issue (p : PipeType)
  deriving DecidableEq

/-- The link through which a step sends its clock: it issues an event or sets a flag. -/
def sendOf (x : Exec) : Option Link :=
  if x.event.pipe ≠ x.pipe then some (.issue x.event.pipe)
  else match x.event.info with
    | .sync info => if info.opType = .setFlag then some (.flag (.ofInfo info)) else none
    | _ => none

/-- The link through which a step gets a clock: it waits for a flag or executes a time event. -/
def recvOf (x : Exec) : Option Link :=
  if x.event.pipe ≠ x.pipe then none
  else match x.event.info with
    | .sync info => if info.opType = .waitFlag then some (.flag (.ofInfo info)) else none
    | .time _ => some (.issue x.pipe)
    | _ => none

/-- An event that is executed without effect. -/
def silent (e : SanEvent) : Bool :=
  match e.info with
  | .sync info => decide (info.opType ≠ .setFlag) && decide (info.opType ≠ .waitFlag)
  | _ => false

/-- Whether a step counts itself in the clock of its pipe. -/
def ticks (x : Exec) : Bool := decide (x.event.pipe ≠ x.pipe) || !silent x.event

def Edge (tr : List Exec) (i j : ℕ) : Prop :=
  (i < j ∧ ∃ x y, tr[i]? = some x ∧ tr[j]? = some y ∧ x.pipe = y.pipe) ∨
    Matched sendOf recvOf tr i j

def Reaches (tr : List Exec) : ℕ → ℕ → Prop := Relation.ReflTransGen (Edge tr)

/-! ## Clocks under way -/

variable {b : ℕ} {p : PipeType} {s s' s₀ : BlockReplay} {tr : List Exec} {x : Exec}

def timeOf (e : SanEvent) : Option VectorTime :=
  match e.info with
  | .time t => t
  | _ => none

def pending (b : ℕ) (s : BlockReplay) : Link → List VectorTime
  | .flag k => s.alg.syncDB k
  | .issue p => (s.que b p).filterMap timeOf

lemma timeOf_of_inBlock {kt : KernelType} {dt : DeviceType} {e : SanEvent}
    (h : InBlock kt dt b e) : timeOf e = none := by
  unfold timeOf
  rcases h.2 with hm | ⟨info, hi, -⟩
  · unfold PipelineReplayer.isMemEvent at hm
    split at hm <;> simp_all
  · rw [hi]

lemma not_silent_of_isMemEvent {e : SanEvent} (hm : PipelineReplayer.isMemEvent e = true) :
    silent e = false := by
  unfold PipelineReplayer.isMemEvent at hm
  unfold silent
  split at hm <;> simp_all

lemma ticks_of_not_silent (h : silent x.event = false) : ticks x = true := by simp [ticks, h]

/-- A step that gets a clock counts itself. -/
lemma ticks_of_recvOf {k : Link} (h : recvOf x = some k) : ticks x = true := by
  apply ticks_of_not_silent
  unfold recvOf at h
  unfold silent
  split_ifs at h
  split at h
  · split_ifs at h with hop
    simp [*]
  · simp [*]
  · cases h

/-- The queue of a pipe without its front event, if this is not a time event. -/
lemma filterMap_popped {e : SanEvent} {rest : List SanEvent} (hq : s.que b p = e :: rest)
    (he : timeOf e = none) (q : PipeType) :
    (if q = p then (s.que b q).tail else s.que b q).filterMap timeOf =
      (s.que b q).filterMap timeOf := by
  split_ifs with h
  · subst h
    rw [hq, List.tail_cons, List.filterMap_cons_none he]
  · rfl

/-- What a poll does to the clocks under way: it takes the first one of the link through which it
gets one, and adds its own to the link through which it sends. -/
structure Relays (b : ℕ) (s : BlockReplay) (x : Exec) (s' : BlockReplay) : Prop where
  pending : ∀ k, pending b s' k =
    (if recvOf x = some k then (pending b s k).tail else pending b s k) ++
      if sendOf x = some k then [x.clock] else []
  alone : recvOf x = none →
    x.clock = if ticks x then tick b x.pipe (s.clock b x.pipe) else s.clock b x.pipe
  merged : ∀ k, recvOf x = some k → ∃ t l, BlockReplay.pending b s k = t :: l ∧
    x.clock = tick b x.pipe (updateVectorTime t (s.clock b x.pipe))

lemma Relays.of_alone (hrecv : recvOf x = none)
    (hpending : ∀ k, BlockReplay.pending b s' k =
      BlockReplay.pending b s k ++ if sendOf x = some k then [x.clock] else [])
    (hclock : x.clock = if ticks x then tick b x.pipe (s.clock b x.pipe) else s.clock b x.pipe) :
    Relays b s x s' := by
  refine ⟨fun k => ?_, fun _ => hclock, fun k hk => ?_⟩
  · rw [hrecv, if_neg nofun]
    exact hpending k
  · rw [hrecv] at hk
    cases hk

/-- A step that gets a clock through a link, and sends none. -/
lemma Relays.of_merged {k : Link} (hrecv : recvOf x = some k) (hsend : sendOf x = none)
    {t : VectorTime} {l : List VectorTime} (hlink : BlockReplay.pending b s k = t :: l)
    (hnext : BlockReplay.pending b s' k = l)
    (hothers : ∀ k', k' ≠ k → BlockReplay.pending b s' k' = BlockReplay.pending b s k')
    (hclock : x.clock = tick b x.pipe (updateVectorTime t (s.clock b x.pipe))) :
    Relays b s x s' := by
  refine ⟨fun k' => ?_, fun hk => ?_, fun k' hk => ?_⟩
  · simp only [hrecv, hsend, reduceCtorEq, if_false, List.append_nil]
    split_ifs with hk
    · cases hk
      rw [hnext, hlink, List.tail_cons]
    · exact hothers k' fun heq => hk (congrArg some heq.symm)
  · rw [hrecv] at hk
    cases hk
  · rw [hrecv] at hk
    cases hk
    exact ⟨t, l, hlink, hclock⟩

lemma relays_of_poll (h : Fit b s) (hpoll : poll b p s = some (x, s')) : Relays b s x s' := by
  obtain ⟨rest, adds, db, checked, rfl, hq, hdoes, ha⟩ := poll_inv h hpoll
  have hfits := h.fits x.pipe x.event (by simp [hq])
  have hflag : ∀ k, pending b s' (.flag k) = db k := fun k => by rw [pending, ha.syncDB]
  have hissue : ∀ q, pending b s' (.issue q) =
      (if q = x.pipe then (s.que b q).tail else s.que b q).filterMap timeOf ++
        (adds q).filterMap timeOf := fun q => by rw [pending, ha.que, List.filterMap_append]
  cases hdoes with
  | issue hp hne hvt =>
    have hblock : timeOf x.event = none := by
      rcases hfits with ⟨hb, -⟩ | ⟨-, hc, -⟩
      · exact timeOf_of_inBlock hb
      · exact absurd hc hne
    have hsend : sendOf x = some (.issue x.event.pipe) := if_pos hne
    have hrecv : recvOf x = none := if_pos hne
    have hticks : ticks x = true := by simp [ticks, hne]
    have htime : timeOf (RaceAlgImpl.timeEventOf x.event x.clock) = some x.clock := rfl
    refine .of_alone hrecv (fun k => ?_) (by rw [if_pos hticks]; exact hvt)
    cases k with
    | flag k =>
      rw [hflag]
      simp [hsend, pending]
    | issue q =>
      rw [hissue, filterMap_popped hq hblock]
      by_cases hqe : q = x.event.pipe
      · simp [hsend, pending, hqe, htime, hblock]
      · simp [hsend, pending, hqe, Ne.symm hqe]
  | mem hp hm hvt =>
    have hown : ¬ x.event.pipe ≠ x.pipe := not_not_intro hp
    have hloud := not_silent_of_isMemEvent hm
    have hkind : sendOf x = none ∧ recvOf x = none ∧ timeOf x.event = none := by
      unfold PipelineReplayer.isMemEvent at hm
      simp only [sendOf, recvOf, if_neg hown, timeOf]
      split at hm <;> simp_all
    obtain ⟨hsend, hrecv, htime⟩ := hkind
    refine .of_alone hrecv (fun k => ?_) (by rw [if_pos (ticks_of_not_silent hloud)]; exact hvt)
    cases k with
    | flag k =>
      rw [hflag]
      simp [hsend, pending]
    | issue q =>
      rw [hissue, filterMap_popped hq htime]
      simp [hsend, pending]
  | @time hp t hi _ hvt =>
    have hown : ¬ x.event.pipe ≠ x.pipe := not_not_intro hp
    have hsend : sendOf x = none := by simp only [sendOf, if_neg hown, hi]
    have hrecv : recvOf x = some (.issue x.pipe) := by simp only [recvOf, if_neg hown, hi]
    have htime : timeOf x.event = some t := by rw [timeOf, hi]
    have hlink : pending b s (.issue x.pipe) = t :: rest.filterMap timeOf := by
      rw [pending, hq, List.filterMap_cons_some htime]
    refine .of_merged hrecv hsend hlink ?_ (fun k hk => ?_) hvt
    · rw [hissue, if_pos rfl, hq]
      simp
    · cases k with
      | flag k =>
        rw [hflag]
        simp [pending]
      | issue q =>
        have hqp : q ≠ x.pipe := fun heq => hk (congrArg Link.issue heq)
        rw [hissue, if_neg hqp]
        simp [pending]
  | @set hp info hi hop hsrc _ hvt =>
    have hown : ¬ x.event.pipe ≠ x.pipe := not_not_intro hp
    have hsend : sendOf x = some (.flag (.ofInfo info)) := by
      simp only [sendOf, if_neg hown, hi, hop, if_true]
    have hrecv : recvOf x = none := by
      simp only [recvOf, if_neg hown, hi, hop, reduceCtorEq, if_false]
    have htime : timeOf x.event = none := by rw [timeOf, hi]
    have hloud : silent x.event = false := by simp [silent, hi, hop]
    refine .of_alone hrecv (fun k => ?_) (by rw [if_pos (ticks_of_not_silent hloud)]; exact hvt)
    cases k with
    | flag k =>
      rw [hflag]
      by_cases hk : k = .ofInfo info
      · simp [hsend, pending, SyncEventDataBase.set, hk]
      · simp [hsend, pending, SyncEventDataBase.set, hk, Ne.symm hk]
    | issue q =>
      rw [hissue, filterMap_popped hq htime]
      simp [hsend, pending]
  | @wait hp info hi hop hdst t l hdb _ hvt =>
    have hown : ¬ x.event.pipe ≠ x.pipe := not_not_intro hp
    have hsend : sendOf x = none := by
      simp only [sendOf, if_neg hown, hi, hop, reduceCtorEq, if_false]
    have hrecv : recvOf x = some (.flag (.ofInfo info)) := by
      simp only [recvOf, if_neg hown, hi, hop, if_true]
    have htime : timeOf x.event = none := by rw [timeOf, hi]
    refine .of_merged hrecv hsend hdb ?_ (fun k hk => ?_) hvt
    · rw [hflag]
      simp
    · cases k with
      | flag k =>
        have hne : k ≠ .ofInfo info := fun heq => hk (congrArg Link.flag heq)
        rw [hflag]
        simp [pending, hne]
      | issue q =>
        rw [hissue, filterMap_popped hq htime]
        simp [pending]
  | @pass hp info hi hset hwait _ hvt =>
    have hown : ¬ x.event.pipe ≠ x.pipe := not_not_intro hp
    have hsend : sendOf x = none := by simp only [sendOf, if_neg hown, hi, hset, if_false]
    have hrecv : recvOf x = none := by simp only [recvOf, if_neg hown, hi, hwait, if_false]
    have htime : timeOf x.event = none := by rw [timeOf, hi]
    have hticks : ticks x = false := by simp [ticks, silent, hp, hi, hset, hwait]
    refine .of_alone hrecv (fun k => ?_) (by rw [hticks]; exact hvt)
    cases k with
    | flag k =>
      rw [hflag]
      simp [hsend, pending]
    | issue q =>
      rw [hissue, filterMap_popped hq htime]
      simp [hsend, pending]

/-! ## Whole runs -/

def lastClock (tr : List Exec) (p : PipeType) : VectorTime :=
  ((tr.filter fun x => x.pipe = p).getLast?.map Exec.clock).getD {}

lemma lastClock_concat (tr : List Exec) (x : Exec) (p : PipeType) :
    lastClock (tr ++ [x]) p = if p = x.pipe then x.clock else lastClock tr p := by
  unfold lastClock
  by_cases h : p = x.pipe
  · simp [h]
  · simp [h, Ne.symm h]

/-- The clocks of a state after a run: under way on a link are those that were sent and not yet
received, and a pipe has the clock of its last step. -/
structure Underway (b : ℕ) (tr : List Exec) (s : BlockReplay) : Prop where
  pending : ∀ k, pending b s k = (sent sendOf Exec.clock tr k).drop (tally recvOf tr k)
  le : ∀ k, tally recvOf tr k ≤ (sent sendOf Exec.clock tr k).length
  clock : ∀ p, s.clock b p = lastClock tr p
  wf : ∀ x ∈ tr, Wf x.clock

lemma lastClock_wf (h : ∀ x ∈ tr, Wf x.clock) (p : PipeType) : Wf (lastClock tr p) := by
  unfold lastClock
  cases hl : (tr.filter fun x => x.pipe = p).getLast? with
  | none => exact wf_default
  | some x => exact h x (List.mem_of_mem_filter (List.mem_of_getLast? hl))

lemma sent_wf (h : ∀ x ∈ tr, Wf x.clock) {k : Link} {t : VectorTime}
    (ht : t ∈ sent sendOf Exec.clock tr k) : Wf t := by
  obtain ⟨x, hx, rfl⟩ := List.mem_map.mp ht
  exact h x (List.mem_of_mem_filter hx)

lemma Underway.poll (h : Underway b tr s) (hfit : Fit b s) (hpoll : poll b p s = some (x, s')) :
    Underway b (tr ++ [x]) s' := by
  have hr := relays_of_poll hfit hpoll
  obtain ⟨_, adds, db, checked, rfl, -, -, ha⟩ := poll_inv hfit hpoll
  -- a link through which the step gets a clock has one
  have hlt : ∀ k, recvOf x = some k →
      tally recvOf tr k < (sent sendOf Exec.clock tr k).length := by
    intro k hk
    obtain ⟨t, l, hpend, -⟩ := hr.merged k hk
    rw [h.pending] at hpend
    by_contra hc
    rw [List.drop_eq_nil_of_le (not_lt.mp hc)] at hpend
    cases hpend
  refine ⟨fun k => ?_, fun k => ?_, fun q => ?_, fun y hy => ?_⟩
  · rw [hr.pending, h.pending, sent_concat, tally_concat]
    by_cases hk : recvOf x = some k
    · rw [if_pos hk, if_pos hk, List.tail_drop, List.drop_append_of_le_length (hlt k hk)]
    · rw [if_neg hk, if_neg hk, Nat.add_zero, List.drop_append_of_le_length (h.le k)]
  · rw [sent_concat, tally_concat, List.length_append]
    have hle := h.le k
    by_cases hk : recvOf x = some k
    · have := hlt k hk
      rw [if_pos hk]
      omega
    · rw [if_neg hk]
      omega
  · rw [ha.clock, lastClock_concat, h.clock]
  · rcases List.mem_append.mp hy with hy | hy
    · exact h.wf y hy
    · rw [List.mem_singleton.mp hy]
      have hbase : Wf (s.clock b x.pipe) := by
        rw [h.clock]
        exact lastClock_wf h.wf x.pipe
      cases hk : recvOf x with
      | none =>
        rw [hr.alone hk]
        split_ifs
        · exact hbase.updateLogicTime _
        · exact hbase
      | some k =>
        obtain ⟨t, l, hpend, hclock⟩ := hr.merged k hk
        have ht : Wf t := by
          refine sent_wf h.wf (k := k) (List.mem_of_mem_drop (i := tally recvOf tr k) ?_)
          rw [← h.pending, hpend]
          exact List.mem_cons_self
        rw [hclock]
        exact (ht.updateVectorTime hbase).1.updateLogicTime _

lemma Polls.underway (h : Polls b s₀ tr s) (h₀ : Fit b s₀) (hstart : Underway b [] s₀) :
    Underway b tr s := by
  induction h with
  | nil => exact hstart
  | concat h hpoll ih => exact ih.poll (h.fit h₀) hpoll

lemma underway_start (kt : KernelType) (dt : DeviceType) (blockDim : ℕ) {l : List SanEvent}
    (hl : ∀ e ∈ l, InBlock kt dt b e) : Underway b [] (start kt dt blockDim l) := by
  refine ⟨fun k => ?_, fun _ => le_rfl, fun _ => rfl, fun _ hx => absurd hx List.not_mem_nil⟩
  cases k with
  | flag k => rfl
  | issue p =>
    change (que _ b p).filterMap timeOf = []
    rw [List.filterMap_eq_nil_iff]
    intro e he
    obtain ⟨-, -, e₀, he₀, hpart⟩ := mem_start blockDim hl he
    exact timeOf_of_inBlock (mem_parts_block hpart (hl e₀ he₀)).1

/-! ## The clock of a step -/

/-- A run from the events of a block. -/
structure IsRun (b : ℕ) (tr : List Exec) : Prop where
  step : ∀ {j x}, tr[j]? = some x → ∃ s s', Underway b (tr.take j) s ∧ Relays b s x s'
  wf : ∀ x ∈ tr, Wf x.clock

lemma Polls.isRun (h : Polls b s₀ tr s) (h₀ : Fit b s₀) (hstart : Underway b [] s₀) :
    IsRun b tr := by
  refine ⟨fun {j x} hx => ?_, (h.underway h₀ hstart).wf⟩
  obtain ⟨p, s₁, s₂, hpolls, hpoll⟩ := h.step_at hx
  exact ⟨s₁, s₂, hpolls.underway h₀ hstart, relays_of_poll (hpolls.fit h₀) hpoll⟩

section Steps

variable {i j : ℕ} {y : Exec}

/-- A step that gets no clock continues the clock of its pipe. -/
lemma IsRun.alone (h : IsRun b tr) (hx : tr[j]? = some x) (hk : recvOf x = none) :
    x.clock = if ticks x then tick b x.pipe (lastClock (tr.take j) x.pipe)
      else lastClock (tr.take j) x.pipe := by
  obtain ⟨s, s', hu, hr⟩ := h.step hx
  rw [hr.alone hk, hu.clock]

/-- A step that gets a clock gets that of the step it is matched with. -/
lemma IsRun.merged (h : IsRun b tr) (hx : tr[j]? = some x) {k : Link} (hk : recvOf x = some k) :
    ∃ i < j, Matched sendOf recvOf tr i j ∧ ∃ y, tr[i]? = some y ∧
      x.clock = tick b x.pipe (updateVectorTime y.clock (lastClock (tr.take j) x.pipe)) := by
  obtain ⟨s, s', hu, hr⟩ := h.step hx
  obtain ⟨t, l, hpend, hclock⟩ := hr.merged k hk
  have hj : j < tr.length := (List.getElem?_eq_some_iff.mp hx).1
  have hfirst : (sent sendOf Exec.clock (tr.take j) k)[tally recvOf (tr.take j) k]? = some t := by
    rw [hu.pending] at hpend
    rw [← List.head?_drop, hpend]
    rfl
  obtain ⟨i, hij, hsend, hbefore, hval⟩ := getElem?_sent Exec.clock hj.le hfirst
  obtain ⟨y, hy, rfl⟩ := Option.map_eq_some_iff.mp hval
  refine ⟨i, hij, ⟨k, hsend, ?_, ?_⟩, y, hy, ?_⟩
  · rw [HasKey, hx]
    exact hk
  · rw [hbefore, tally_take hj.le]
  · rw [hclock, hu.clock]

lemma IsRun.matched_lt (h : IsRun b tr) (hm : Matched sendOf recvOf tr i j) : i < j := by
  obtain ⟨k, hs, hw, hn⟩ := hm
  obtain ⟨x, hx, hk⟩ := Option.bind_eq_some_iff.mp hw
  obtain ⟨i', hlt, hm', -⟩ := h.merged hx hk
  rw [Matched.unique ⟨k, hs, hw, hn⟩ hm']
  exact hlt

end Steps

/-! ## The run as a history -/

def pipeAt (tr : List Exec) (i : ℕ) : PipeType := (tr[i]?.map Exec.pipe).getD .s

def clockAt (b : ℕ) (tr : List Exec) (i : ℕ) (q : PipeType) : ℕ :=
  ((tr[i]?.map Exec.clock).getD {}).get (queIdx b q)

def ticksAt (tr : List Exec) (i : ℕ) : Bool := (tr[i]?.map ticks).getD false

/-- The history of a run: its pipes and its matched pairs. -/
def IsRun.history (h : IsRun b tr) : CausalClocks.History PipeType where
  proc := pipeAt tr
  ticks := ticksAt tr
  msg := Matched sendOf recvOf tr
  msg_lt := h.matched_lt
  msg_unique := Matched.unique

lemma pipeAt_eq {i : ℕ} (hx : tr[i]? = some x) : pipeAt tr i = x.pipe := by
  rw [pipeAt, hx]
  rfl

lemma clockAt_eq {i : ℕ} (hx : tr[i]? = some x) (q : PipeType) :
    clockAt b tr i q = x.clock.get (queIdx b q) := by
  rw [clockAt, hx]
  rfl

lemma ticksAt_eq {i : ℕ} (hx : tr[i]? = some x) : ticksAt tr i = ticks x := by
  rw [ticksAt, hx]
  rfl

/-- The last step of a pipe before a position, if there is one. -/
lemma lastClock_take {j : ℕ} (hj : j ≤ tr.length) (p : PipeType) :
    (∃ i < j, pipeAt tr i = p ∧ (∀ k, i < k → k < j → pipeAt tr k ≠ p) ∧
      ∃ y, tr[i]? = some y ∧ lastClock (tr.take j) p = y.clock) ∨
    (∀ i < j, pipeAt tr i ≠ p) ∧ lastClock (tr.take j) p = {} := by
  induction j with
  | zero => exact Or.inr ⟨fun i hi => absurd hi (Nat.not_lt_zero i), by simp [lastClock]⟩
  | succ j ih =>
    obtain ⟨x, hx⟩ : ∃ x, tr[j]? = some x := ⟨_, List.getElem?_eq_getElem (by omega)⟩
    rw [take_succ_of_getElem? hx, lastClock_concat]
    by_cases hp : p = x.pipe
    · refine Or.inl ⟨j, by omega, (pipeAt_eq hx).trans hp.symm, fun k _ _ => by omega, x, hx, ?_⟩
      rw [if_pos hp]
    · have hnot : pipeAt tr j ≠ p := fun hc => hp (hc.symm.trans (pipeAt_eq hx))
      rw [if_neg hp]
      rcases ih (by omega) with ⟨i, hi, hpi, hno, hy⟩ | ⟨hno, heq⟩
      · refine Or.inl ⟨i, by omega, hpi, fun k hik hkj => ?_, hy⟩
        rcases Nat.lt_succ_iff_lt_or_eq.mp hkj with hlt | rfl
        · exact hno k hik hlt
        · exact hnot
      · refine Or.inr ⟨fun i hi => ?_, heq⟩
        rcases Nat.lt_succ_iff_lt_or_eq.mp hi with hlt | rfl
        · exact hno i hlt
        · exact hnot

lemma get_default (i : ℕ) : ({} : VectorTime).get i = 1 := by
  rw [wf_default.get_eq]
  rfl

lemma count_pipeAt {j : ℕ} (hj : j ≤ tr.length) (p : PipeType) :
    Nat.count (fun i => pipeAt tr i = p) j = ((tr.take j).filter fun x => x.pipe = p).length := by
  induction j with
  | zero => simp
  | succ j ih =>
    obtain ⟨x, hx⟩ : ∃ x, tr[j]? = some x := ⟨_, List.getElem?_eq_getElem (by omega)⟩
    rw [Nat.count_succ, ih (by omega), take_succ_of_getElem? hx, List.filter_append,
      List.length_append, pipeAt_eq hx]
    by_cases hp : x.pipe = p <;> simp [hp]

section Exact

open CausalClocks CausalClocks.History

variable {j : ℕ}

/-- With few steps on every pipe no component of a clock overflows. -/
lemma IsRun.own_lt (h : IsRun b tr)
    (hticks : ∀ p, (tr.filter fun x => x.pipe = p).length < 2 ^ 32 - 1) (hx : tr[j]? = some x) :
    h.history.own j < 2 ^ 32 := by
  have hj : j < tr.length := (List.getElem?_eq_some_iff.mp hx).1
  have hcount : Nat.count (fun i => pipeAt tr i = x.pipe) (j + 1) < 2 ^ 32 - 1 := by
    rw [count_pipeAt hj]
    refine lt_of_le_of_lt ?_ (hticks x.pipe)
    exact ((List.take_sublist _ _).filter _).length_le
  have hle : Nat.count (fun i => ticksAt tr i = true ∧ pipeAt tr i = x.pipe) (j + 1) ≤
      Nat.count (fun i => pipeAt tr i = x.pipe) (j + 1) := Nat.count_mono_left fun _ _ h => h.2
  change Nat.count (fun i => ticksAt tr i = true ∧ pipeAt tr i = pipeAt tr j) (j + 1) + 1 < 2 ^ 32
  rw [pipeAt_eq hx]
  omega

lemma get_tick {vt : VectorTime} (hvt : Wf vt) (hlt : vt.get (queIdx b p) + 1 < 2 ^ 32)
    (q : PipeType) :
    (tick b p vt).get (queIdx b q) = vt.get (queIdx b q) + if q = p then 1 else 0 := by
  rw [tick, updateLogicTime, hvt.get_set, Nat.mod_eq_of_lt hlt]
  simp only [queIdx_inj]
  by_cases hq : q = p
  · rw [if_pos hq, if_pos hq, hq]
    omega
  · rw [if_neg hq, if_neg hq, Nat.add_zero]

lemma IsRun.base_eq (h : IsRun b tr) (hx : tr[j]? = some x) :
    (∃ i, h.history.IsPrev i j ∧
      (fun q => (lastClock (tr.take j) x.pipe).get (queIdx b q)) = clockAt b tr i) ∨
    (∀ i < j, h.history.proc i ≠ h.history.proc j) ∧
      (fun q => (lastClock (tr.take j) x.pipe).get (queIdx b q)) = fun _ => 1 := by
  have hj : j < tr.length := (List.getElem?_eq_some_iff.mp hx).1
  have hpj : h.history.proc j = x.pipe := pipeAt_eq hx
  rcases lastClock_take hj.le x.pipe with ⟨i, hi, hpi, hno, y, hy, heq⟩ | ⟨hno, heq⟩
  · refine Or.inl ⟨i, ⟨hi, hpi.trans hpj.symm, fun k hik hkj => ?_⟩, funext fun q => ?_⟩
    · rw [hpj]
      exact hno k hik hkj
    · rw [heq, clockAt_eq hy]
  · refine Or.inr ⟨fun i hi => ?_, funext fun q => ?_⟩
    · rw [hpj]
      exact hno i hi
    · rw [heq, get_default]

/-- **The clocks of a run are exact.** The induction is over the steps; that no component overflows
comes from the exactness of the clocks before. -/
lemma IsRun.exact (h : IsRun b tr)
    (hticks : ∀ p, (tr.filter fun x => x.pipe = p).length < 2 ^ 32 - 1) :
    ∀ {j x}, tr[j]? = some x → Exact h.history (clockAt b tr) j := by
  intro j
  induction j using Nat.strong_induction_on with
  | _ j ih =>
    intro x hx
    have hj : j < tr.length := (List.getElem?_eq_some_iff.mp hx).1
    have hex : ∀ i < j, Exact h.history (clockAt b tr) i :=
      fun i hi => ih i hi (List.getElem?_eq_getElem (hi.trans hj))
    have hpj : h.history.proc j = x.pipe := pipeAt_eq hx
    have htj : h.history.ticks j = ticks x := ticksAt_eq hx
    have hown := h.own_lt hticks hx
    have hwf : Wf (lastClock (tr.take j) x.pipe) :=
      lastClock_wf (fun y hy => h.wf y (List.mem_of_mem_take hy)) x.pipe
    cases hk : recvOf x with
    | none =>
      have hsrc : Sources h.history (clockAt b tr) j
          (fun q => (lastClock (tr.take j) x.pipe).get (queIdx b q)) fun _ => 1 := by
        refine ⟨h.base_eq hx, Or.inr ⟨fun i hm => ?_, rfl⟩⟩
        obtain ⟨k, -, hw, -⟩ := hm
        rw [HasKey, hx, Option.bind_some, hk] at hw
        cases hw
      have heq := hsrc.own_eq hex
      rw [hpj, htj] at heq
      refine hsrc.exact hex fun q => ?_
      have hone := hwf.one_le_get (queIdx b q)
      rw [clockAt_eq hx, h.alone hx hk, hpj, htj]
      cases hticks : ticks x with
      | true =>
        rw [hticks, if_pos rfl] at heq
        rw [if_pos rfl, get_tick hwf (by omega)]
        simp only [and_true]
        omega
      | false =>
        rw [if_neg Bool.false_ne_true]
        simp only [Bool.false_eq_true, and_false, if_false]
        omega
    | some k =>
      obtain ⟨i, hij, hm, y, hy, hclock⟩ := h.merged hx hk
      have hywf : Wf y.clock := h.wf y (List.mem_of_getElem? hy)
      obtain ⟨hjoin, hget⟩ := hywf.updateVectorTime hwf
      have hsrc : Sources h.history (clockAt b tr) j
          (fun q => (lastClock (tr.take j) x.pipe).get (queIdx b q)) (clockAt b tr i) :=
        ⟨h.base_eq hx, Or.inl ⟨i, hm, rfl⟩⟩
      have heq := hsrc.own_eq hex
      rw [hpj, htj, ticks_of_recvOf hk, if_pos rfl, clockAt_eq hy] at heq
      refine hsrc.exact hex fun q => ?_
      rw [clockAt_eq hx, hclock, get_tick hjoin (by rw [hget]; omega), hget, clockAt_eq hy, hpj,
        htj, ticks_of_recvOf hk]
      simp only [and_true]

lemma IsRun.reaches_iff (h : IsRun b tr) {i : ℕ} (hj : j < tr.length) :
    h.history.Reaches i j ↔ Reaches tr i j := by
  have hedge : ∀ {i j}, j < tr.length → (h.history.Edge i j ↔ Edge tr i j) := by
    intro i j hj
    refine or_congr (and_congr_right fun hlt => ?_) Iff.rfl
    obtain ⟨y, hy⟩ : ∃ y, tr[j]? = some y := ⟨_, List.getElem?_eq_getElem hj⟩
    obtain ⟨x, hx⟩ : ∃ x, tr[i]? = some x := ⟨_, List.getElem?_eq_getElem (hlt.trans hj)⟩
    change pipeAt tr i = pipeAt tr j ↔ _
    rw [pipeAt_eq hx, pipeAt_eq hy]
    refine ⟨fun heq => ⟨x, y, hx, hy, heq⟩, fun ⟨x', y', hx', hy', heq⟩ => ?_⟩
    rw [hx] at hx'
    rw [hy] at hy'
    cases hx'
    cases hy'
    exact heq
  have hlt : ∀ {i j}, Edge tr i j → i < j := by
    rintro i j (⟨hlt, -⟩ | hm)
    · exact hlt
    · exact h.matched_lt hm
  constructor
  · intro hr
    induction hr with
    | refl => exact Relation.ReflTransGen.refl
    | tail _ he ih => exact (ih (he.lt.trans hj)).tail ((hedge hj).mp he)
  · intro hr
    induction hr with
    | refl => exact Relation.ReflTransGen.refl
    | tail _ he ih => exact (ih ((hlt he).trans hj)).tail ((hedge hj).mpr he)

/-- Of two steps that count, on different pipes, the clocks say which reaches the other. -/
lemma IsRun.clock_le_iff (h : IsRun b tr)
    (hticks : ∀ p, (tr.filter fun x => x.pipe = p).length < 2 ^ 32 - 1) {i : ℕ} {y : Exec}
    (hx : tr[i]? = some x) (hy : tr[j]? = some y) (htx : ticks x = true) :
    x.clock.get (queIdx b x.pipe) ≤ y.clock.get (queIdx b x.pipe) ↔ Reaches tr i j := by
  have hle := (h.exact hticks hx).le_iff (h.exact hticks hy) ((ticksAt_eq hx).trans htx)
  have hp : h.history.proc i = x.pipe := pipeAt_eq hx
  rw [hp, clockAt_eq hx, clockAt_eq hy] at hle
  exact hle.trans (h.reaches_iff (List.getElem?_eq_some_iff.mp hy).1)

/-- Steps of different pipes do not reach each other both ways. -/
lemma IsRun.not_both (h : IsRun b tr) {i : ℕ} {y : Exec} (hx : tr[i]? = some x)
    (hy : tr[j]? = some y) (hne : x.pipe ≠ y.pipe) : ¬ (Reaches tr i j ∧ Reaches tr j i) := by
  rintro ⟨hij, hji⟩
  have hij' := (h.reaches_iff (List.getElem?_eq_some_iff.mp hy).1).mpr hij
  have hji' := (h.reaches_iff (List.getElem?_eq_some_iff.mp hx).1).mpr hji
  obtain rfl := hij'.antisymm hji'
  rw [hx, Option.some_inj] at hy
  exact hne (congrArg Exec.pipe hy)

end Exact

/-! ## Runs without silent events -/

lemma not_silent_of_isBlockEvent {kt : KernelType} {dt : DeviceType} {e : SanEvent}
    (h : IsBlockEvent kt dt b e) : silent e = false := by
  rcases h.2 with hm | ⟨info, hi, ⟨hop, -⟩ | ⟨hop, -⟩⟩
  · exact not_silent_of_isMemEvent hm
  · simp [silent, hi, hop]
  · simp [silent, hi, hop]

/-- No silent event comes into the queues, and so none is executed. -/
lemma Polls.not_silent (h : Polls b s₀ tr s) (h₀ : Fit b s₀)
    (hq : ∀ p, ∀ e ∈ s₀.que b p, silent e = false) :
    (∀ p, ∀ e ∈ s.que b p, silent e = false) ∧ ∀ x ∈ tr, silent x.event = false := by
  induction h with
  | nil => exact ⟨hq, fun _ hx => absurd hx List.not_mem_nil⟩
  | @concat tr s p x s' h hpoll ih =>
    obtain ⟨rest, adds, db, checked, rfl, hfront, hdoes, ha⟩ := poll_inv (h.fit h₀) hpoll
    have hx : silent x.event = false := ih.1 x.pipe x.event (by simp [hfront])
    refine ⟨fun q e he => ?_, fun y hy => ?_⟩
    · rw [ha.que, List.mem_append] at he
      rcases he with he | he
      · split_ifs at he
        · exact ih.1 q e (List.mem_of_mem_tail he)
        · exact ih.1 q e he
      · cases hdoes with
        | issue =>
          dsimp only at he
          split_ifs at he
          · simp only [List.mem_cons, List.not_mem_nil, or_false] at he
            rcases he with rfl | rfl
            · rfl
            · exact hx
          · cases he
        | mem | time | set | wait | pass => cases he
    · rcases List.mem_append.mp hy with hy | hy
      · exact ih.2 y hy
      · rw [List.mem_singleton.mp hy]
        exact hx

/-- **Vector clocks are exact.** Take any events of a block, polled in any order, with fewer than
`2 ^ 32 - 1` steps on every pipe. The checker has the memory events of the run with the clocks of
their steps. Of two steps on different pipes, and so of two memory events, the clocks say that
neither happened before the other just when neither reaches the other along program order, issues
and flags. -/
theorem isNotHappensBefore_iff (kernelType : KernelType) (deviceType : DeviceType)
    (blockDim b : ℕ) {l : List SanEvent} (hl : ∀ e ∈ l, IsBlockEvent kernelType deviceType b e)
    {tr : List Exec} {s : BlockReplay}
    (h : Polls b (start kernelType deviceType blockDim l) tr s)
    (hticks : ∀ p, (tr.filter fun x => x.pipe = p).length < 2 ^ 32 - 1) :
    s.alg.checked = memEvents tr ∧
      ∀ i j x y, tr[i]? = some x → tr[j]? = some y → x.pipe ≠ y.pipe →
        (isNotHappensBefore x.clock y.clock (queIdx b x.pipe) (queIdx b y.pipe) = true ↔
          ¬ Reaches tr i j ∧ ¬ Reaches tr j i) := by
  have hl' : ∀ e ∈ l, InBlock kernelType deviceType b e := fun e he => (hl e he).inBlock
  have h₀ := fit_start blockDim hl'
  have hrun := h.isRun h₀ (underway_start kernelType deviceType blockDim hl')
  have hloud := (h.not_silent h₀ fun p e he => ?_).2
  · refine ⟨by rw [h.checked_eq h₀]; rfl, fun i j x y hx hy hne => ?_⟩
    have hxy := hrun.clock_le_iff hticks hx hy
      (ticks_of_not_silent (hloud x (List.mem_of_getElem? hx)))
    have hyx := hrun.clock_le_iff hticks hy hx
      (ticks_of_not_silent (hloud y (List.mem_of_getElem? hy)))
    have hanti := hrun.not_both hx hy hne
    rw [← hxy, ← hyx] at hanti ⊢
    unfold isNotHappensBefore
    split_ifs <;> simp only [false_iff, decide_eq_true_eq] <;> omega
  · obtain ⟨-, -, e₀, he₀, hpart⟩ := mem_start blockDim hl' he
    rcases parts_eq_or_mem e₀ with heq | ⟨-, hparts⟩
    · rw [heq, List.mem_singleton] at hpart
      exact hpart ▸ not_silent_of_isBlockEvent (hl e₀ he₀)
    · obtain ⟨hloc, hm⟩ := hparts e hpart
      exact not_silent_of_isBlockEvent ⟨hloc ▸ (hl e₀ he₀).1, .inl hm⟩

theorem isNotHappensBefore_iff_flag :
    ∃ tr s, Polls 0 (start .aivec ⟨0⟩ 1 flagEvents) tr s ∧ Stuck 0 s ∧
      s.alg.checked = memEvents tr ∧
      ∀ i j x y, tr[i]? = some x → tr[j]? = some y → x.pipe ≠ y.pipe →
        (isNotHappensBefore x.clock y.clock (queIdx 0 x.pipe) (queIdx 0 y.pipe) = true ↔
          ¬ Reaches tr i j ∧ ¬ Reaches tr j i) := by
  have h₀ := fit_start 1 fun e he => (flagEvents_isBlockEvent e he).inBlock
  obtain ⟨tr, s, h, hs⟩ := exists_stuck h₀ .nil
  have hlen := h.length_le h₀
  rw [work_flagEvents] at hlen
  refine ⟨tr, s, h, hs, isNotHappensBefore_iff .aivec ⟨0⟩ 1 0 flagEvents_isBlockEvent h fun p => ?_⟩
  have := List.length_filter_le (fun x : Exec => decide (x.pipe = p)) tr
  omega

end MsSanitizer.BlockReplay
