import MsSanitizer.BlockPolls
import MsSanitizer.BufferRecords

/-!
# Buffers in the replay of a block

`ProcessGetRlsBufSyncEvent` keeps the clocks of the releases of a buffer in the order in which they
were executed, and lets a get pass when there are as many of them as its count. The count says how
many releases were recorded before the get; it does not say which. A get therefore waits for the
releases before it (`getBuf_waits`) only while no release that was recorded after it has run:
otherwise it passes too early, or without their clocks.
-/

namespace MsSanitizer.BlockReplay

open RecordDefs EventDef VectorTime PipeLine EventContainer RecordParse

variable {kt : KernelType} {dt : DeviceType} {b k : ℕ} {p q : PipeType} {s s' s₀ : BlockReplay}
  {e : SanEvent} {rest : List SanEvent} {x : Exec} {tr : List Exec}

/-! ## Sound states -/

/-- Every clock that the handler keeps is well formed. -/
structure SoundClocks (a : RaceAlgImpl) : Prop where
  clocks : ∀ i, Wf (a.vc i)
  flags : ∀ key, ∀ t ∈ a.syncDB key, Wf t
  released : ∀ key, ∀ t ∈ a.getRlsBufMap key, Wf t

/-- The queues of block `b` hold events of its records and time events. -/
structure Sound (b : ℕ) (s : BlockReplay) : Prop where
  fits : ∀ p, ∀ e ∈ s.que b p,
    (getEventBlockIndex e.loc s.alg.kernelType s.alg.deviceType = b ∧ BufOrMem e ∧
      parts e = [e]) ∨ (e.pipe = p ∧ ∃ t, e.info = .time (some t) ∧ Wf t)
  room : ∀ p, s.que b p ≠ [] → b < s.events.maxBlockNum ∧ 0 < s.events.deviceNum
  alg : SoundClocks s.alg

lemma foldl_updateVectorTime {l : List VectorTime} {vt : VectorTime} (hl : ∀ t ∈ l, Wf t)
    (hvt : Wf vt) : Wf (l.foldl (fun vt t => updateVectorTime t vt) vt) ∧
      vt ≤ l.foldl (fun vt t => updateVectorTime t vt) vt ∧
      ∀ t ∈ l, t ≤ l.foldl (fun vt t => updateVectorTime t vt) vt := by
  induction l generalizing vt with
  | nil => exact ⟨hvt, le_refl vt, fun t ht => absurd ht List.not_mem_nil⟩
  | cons t l ih =>
    rw [List.forall_mem_cons] at hl ⊢
    obtain ⟨hwf, hle, hall⟩ := ih hl.2 (hl.1.updateVectorTime hvt).1
    exact ⟨hwf, (hl.1.le_updateVectorTime_right hvt).trans hle,
      (hl.1.le_updateVectorTime_left hvt).trans hle, hall⟩

lemma syncFlag_wf {db : SyncEventDataBase} {vt : VectorTime} (hdb : ∀ key, ∀ t ∈ db key, Wf t)
    (hvt : Wf vt) (c : ℕ) (info : SyncOpInfo) :
    Wf (RaceAlg.syncFlag db c vt info).2.1 ∧
      ∀ key, ∀ t ∈ (RaceAlg.syncFlag db c vt info).2.2 key, Wf t := by
  unfold RaceAlg.syncFlag
  split_ifs
  · refine ⟨hvt.updateLogicTime c, fun key t ht => ?_⟩
    dsimp only [SyncEventDataBase.set] at ht
    rw [Function.update_apply] at ht
    split_ifs at ht
    · rcases List.mem_append.mp ht with ht | ht
      · exact hdb _ t ht
      · rw [List.mem_singleton.mp ht]
        exact hvt.updateLogicTime c
    · exact hdb key t ht
  · unfold SyncEventDataBase.get
    cases hfront : db (.ofInfo info) with
    | nil => exact ⟨hvt, hdb⟩
    | cons t l =>
      have hall : ∀ u ∈ t :: l, Wf u := fun u hu => hdb (.ofInfo info) u (hfront ▸ hu)
      rw [List.forall_mem_cons] at hall
      refine ⟨(hall.1.updateVectorTime hvt).1.updateLogicTime c, fun key u hu => ?_⟩
      dsimp only at hu
      rw [Function.update_apply] at hu
      split_ifs at hu
      · exact hall.2 u hu
      · exact hdb key u hu
  · exact ⟨hvt, hdb⟩

lemma getRlsBuf_wf {released : List VectorTime} {vt : VectorTime} (hr : ∀ t ∈ released, Wf t)
    (hvt : Wf vt) (info : BufSyncInfo) :
    Wf (RaceAlg.getRlsBuf released vt info).2.1 ∧
      ∀ t ∈ (RaceAlg.getRlsBuf released vt info).2.2, Wf t := by
  unfold RaceAlg.getRlsBuf
  split_ifs
  · exact ⟨hvt, hr⟩
  · exact ⟨hvt, hr⟩
  · exact ⟨(foldl_updateVectorTime hr hvt).1, hr⟩
  · exact ⟨hvt, hr⟩
  · exact ⟨hvt, List.forall_mem_append.mpr ⟨hr, List.forall_mem_singleton.mpr hvt⟩⟩
  · exact ⟨hvt, hr⟩

/-! ## One poll -/

lemma poll_eq_some (hpoll : poll b p s = some (x, s')) :
    x.pipe = p ∧ ∃ rest, s.que b p = x.event :: rest ∧
      (RaceAlgImpl.processEvent (position s.events b p) s.alg x.event).ret = .processOk ∧
      s'.alg = (RaceAlgImpl.processEvent (position s.events b p) s.alg x.event).state ∧
      x.clock = s'.alg.vc (queIdx b p) ∧
      s'.events = afterOffer (position s.events b p)
        (RaceAlgImpl.processEvent (position s.events b p) s.alg x.event) := by
  cases hq : s.que b p with
  | nil =>
    simp only [poll, hq] at hpoll
    cases hpoll
  | cons e rest =>
    simp only [poll, hq] at hpoll
    split at hpoll
    · cases hpoll
    · rename_i hret
      cases hpoll
      exact ⟨rfl, rest, rfl, hret, rfl, rfl, rfl⟩

/-- What a poll does to the queues: the front event is gone, and an event that is issued is at the
end of the queue of its pipe, behind a time event. -/
structure Moves (b : ℕ) (s : BlockReplay) (x : Exec) (s' : BlockReplay) : Prop where
  que : ∀ q, s'.que b q = (if q = x.pipe then (s.que b q).tail else s.que b q) ++
    if x.event.pipe ≠ x.pipe ∧ q = x.event.pipe then
      [RaceAlgImpl.timeEventOf x.event x.clock, x.event] else []
  blocks : s'.events.maxBlockNum = s.events.maxBlockNum
  devices : s'.events.deviceNum = s.events.deviceNum

/-- What a poll does to the handler: it issues an event, or it executes one. -/
def Works (b : ℕ) (s : BlockReplay) (x : Exec) (s' : BlockReplay) : Prop :=
  (x.event.pipe ≠ x.pipe ∧ x.clock = tick b x.pipe (s.clock b x.pipe) ∧
      s'.alg = s.alg.setClock (queIdx b x.pipe) x.clock) ∨
    (x.event.pipe = x.pipe ∧ x.clock = s'.clock b x.pipe ∧
      s.alg.dispatch (queIdx b x.pipe) x.event = (.processOk, s'.alg))

lemma processEvent_issue (hne : e.pipe ≠ p) :
    (RaceAlgImpl.processEvent (position s.events b p) s.alg e).state =
      s.alg.setClock (queIdx b p) (tick b p (s.clock b p)) := by
  have hidx : (position s.events b p).pipeIndex ≠ e.pipe.idx :=
    fun hc => hne (PipeType.idx_injective hc).symm
  unfold RaceAlgImpl.processEvent
  rw [getQueIndex_position, if_pos hidx]
  rfl

lemma poll_moves (h : Sound b s) (hpoll : poll b p s = some (x, s')) :
    x.pipe = p ∧ (∃ rest, s.que b p = x.event :: rest) ∧ Moves b s x s' ∧ Works b s x s' := by
  obtain ⟨rfl, rest, hq, hret, halg, hclock, hevents⟩ := poll_eq_some hpoll
  refine ⟨rfl, ⟨rest, hq⟩, ?_⟩
  by_cases hown : x.event.pipe = x.pipe
  · have hr := processEvent_own (s := s) (b := b) hown
    rw [hr] at hret halg hevents
    refine ⟨⟨fun q => ?_, ?_, ?_⟩, Or.inr ⟨hown, hclock, Prod.ext hret halg.symm⟩⟩
    · have hno : ¬ (x.event.pipe ≠ x.pipe ∧ q = x.event.pipe) := fun hc => hc.1 hown
      rw [que, hevents, afterOffer_ques, getQueIndex_position, hret, if_neg hno, List.append_nil]
      simp only [true_and, queIdx_inj, List.foldl_nil]
      rfl
    · rw [hevents]
      exact (afterOffer_blocks _ _).1
    · rw [hevents]
      exact (afterOffer_blocks _ _).2
  · rcases h.fits x.pipe x.event (by simp [hq]) with ⟨hb, -, hparts⟩ | ⟨hc, -⟩
    · obtain ⟨s'', hsome, ha⟩ := poll_issue hq hown hb hparts (h.room x.pipe (by simp [hq]))
      rw [hpoll] at hsome
      obtain ⟨hx, rfl⟩ := Prod.mk.inj (Option.some.inj hsome)
      have hvt : x.clock = tick b x.pipe (s.clock b x.pipe) := congrArg Exec.clock hx
      refine ⟨⟨fun q => ?_, ha.blocks, ha.devices⟩, Or.inl ⟨hown, hvt, ?_⟩⟩
      · rw [ha.que, hvt]
        simp [hown]
      · rw [halg, processEvent_issue hown, hvt]
    · exact absurd hc hown

/-! ## What is executed -/

lemma SoundClocks.setClock {a : RaceAlgImpl} (h : SoundClocks a) {vt : VectorTime} (hvt : Wf vt)
    (c : ℕ) : SoundClocks (a.setClock c vt) := by
  refine ⟨fun i => ?_, h.flags, h.released⟩
  dsimp only [RaceAlgImpl.setClock]
  rw [Function.update_apply]
  split_ifs
  · exact hvt
  · exact h.clocks i

/-- An event of a record or a time event, when it is executed. -/
lemma SoundClocks.dispatch {a : RaceAlgImpl} (h : SoundClocks a) (c : ℕ)
    (he : BufOrMem e ∨ ∃ t, e.info = .time (some t) ∧ Wf t) :
    SoundClocks (a.dispatch c e).2 ∧ (a.dispatch c e).2.kernelType = a.kernelType ∧
      (a.dispatch c e).2.deviceType = a.deviceType := by
  rcases he with (hm | ⟨info, hi⟩ | ⟨info, hi⟩) | ⟨t, hi, ht⟩
  · rw [dispatch_mem hm]
    have hset := h.setClock ((h.clocks c).updateLogicTime c) c
    exact ⟨⟨hset.clocks, hset.flags, hset.released⟩, rfl, rfl⟩
  · have hwf := syncFlag_wf h.flags (h.clocks c) c info
    simp only [RaceAlgImpl.dispatch, hi]
    have hset := h.setClock hwf.1 c
    exact ⟨⟨hset.clocks, hwf.2, hset.released⟩, rfl, rfl⟩
  · have hwf := getRlsBuf_wf (h.released (a.blockIndex e, info.bufId)) (h.clocks c) info
    simp only [RaceAlgImpl.dispatch, hi]
    have hset := h.setClock hwf.1 c
    refine ⟨⟨hset.clocks, hset.flags, fun key t ht => ?_⟩, rfl, rfl⟩
    dsimp only at ht
    rw [Function.update_apply] at ht
    split_ifs at ht
    · exact hwf.2 t ht
    · exact h.released key t ht
  · simp only [RaceAlgImpl.dispatch, hi, RaceAlg.timeEvent]
    exact ⟨h.setClock ((ht.updateVectorTime (h.clocks c)).1.updateLogicTime c) c, rfl, rfl⟩

lemma Works.sound (h : Works b s x s') (hs : SoundClocks s.alg)
    (he : x.event.pipe = x.pipe → BufOrMem x.event ∨ ∃ t, x.event.info = .time (some t) ∧ Wf t) :
    SoundClocks s'.alg ∧ s'.alg.kernelType = s.alg.kernelType ∧
      s'.alg.deviceType = s.alg.deviceType := by
  rcases h with ⟨-, hclock, halg⟩ | ⟨hown, -, hdispatch⟩
  · rw [halg]
    exact ⟨hs.setClock (hclock ▸ (hs.clocks _).updateLogicTime _) _, rfl, rfl⟩
  · have hd := hs.dispatch (queIdx b x.pipe) (he hown)
    rw [hdispatch] at hd
    exact hd

lemma Sound.poll (h : Sound b s) (hpoll : poll b p s = some (x, s')) : Sound b s' := by
  obtain ⟨rfl, ⟨rest, hq⟩, hmoves, hworks⟩ := poll_moves h hpoll
  have hfits := h.fits x.pipe x.event (by simp [hq])
  have hroom := h.room x.pipe (by simp [hq])
  obtain ⟨halg, hkt, hdt⟩ := hworks.sound h.alg fun _ => hfits.imp (fun hb => hb.2.1) And.right
  refine ⟨fun q e he => ?_, fun q _ => by rw [hmoves.blocks, hmoves.devices]; exact hroom, halg⟩
  rw [hkt, hdt]
  rw [hmoves.que, List.mem_append] at he
  rcases he with he | he
  · refine h.fits q e ?_
    split_ifs at he
    · exact List.mem_of_mem_tail he
    · exact he
  · split_ifs at he with hissue
    · have hblock := hfits.resolve_right fun hc => hissue.1 hc.1
      have hclock : Wf x.clock := by
        rcases hworks with ⟨-, hclock, -⟩ | ⟨hown, -⟩
        · exact hclock ▸ (h.alg.clocks _).updateLogicTime _
        · exact absurd hown hissue.1
      simp only [List.mem_cons, List.not_mem_nil, or_false] at he
      rcases he with rfl | rfl
      · exact Or.inr ⟨hissue.2.symm, x.clock, rfl, hclock⟩
      · exact Or.inl hblock
    · cases he

lemma Polls.sound (h : Polls b s₀ tr s) (h₀ : Sound b s₀) : Sound b s := by
  induction h with
  | nil => exact h₀
  | concat _ hpoll ih => exact ih.poll hpoll

/-! ## The releases of a run -/

/-- The releases of a buffer that a run has executed. -/
def released (k : ℕ) (tr : List Exec) : List Exec :=
  tr.filter fun x => x.event.pipe = x.pipe ∧ rlsOf x.event = some k

lemma mem_released : x ∈ released k tr ↔
    x ∈ tr ∧ x.event.pipe = x.pipe ∧ rlsOf x.event = some k := by
  simp [released]

lemma released_concat (tr : List Exec) (x : Exec) : released k (tr ++ [x]) = released k tr ++
    if x.event.pipe = x.pipe ∧ rlsOf x.event = some k then [x] else [] := by
  rw [released, List.filter_append]
  by_cases h : x.event.pipe = x.pipe ∧ rlsOf x.event = some k
  · rw [if_pos h, List.filter_cons_of_pos (by simpa using h)]
    rfl
  · rw [if_neg h, List.filter_cons_of_neg (by simpa using h)]
    rfl

lemma getRlsBuf_released (l : List VectorTime) (vt : VectorTime) (info : BufSyncInfo) :
    (RaceAlg.getRlsBuf l vt info).2.2 = l ++ if info.opType = .rlsBuf then [vt] else [] := by
  unfold RaceAlg.getRlsBuf
  split_ifs <;> simp_all

lemma getRlsBuf_rls {l : List VectorTime} {vt : VectorTime} {info : BufSyncInfo}
    (hop : info.opType = .rlsBuf) : (RaceAlg.getRlsBuf l vt info).2.1 = vt := by
  simp [RaceAlg.getRlsBuf, hop]

/-- An event that is executed adds its clock to the releases of the buffer that it releases. -/
lemma dispatch_released {a : RaceAlgImpl} {c : ℕ} (hb : rlsOf e ≠ none → a.blockIndex e = b)
    (he : BufOrMem e ∨ ∃ t, e.info = .time (some t) ∧ Wf t) (k : ℕ) :
    (a.dispatch c e).2.getRlsBufMap (b, k) = a.getRlsBufMap (b, k) ++
      if rlsOf e = some k then [(a.dispatch c e).2.vc c] else [] := by
  have hother (hno : rlsOf e = none)
      (hsame : (a.dispatch c e).2.getRlsBufMap = a.getRlsBufMap) :
      (a.dispatch c e).2.getRlsBufMap (b, k) = a.getRlsBufMap (b, k) ++
        if rlsOf e = some k then [(a.dispatch c e).2.vc c] else [] := by
    rw [hsame, if_neg (by simp [hno]), List.append_nil]
  rcases he with (hm | ⟨info, hi⟩ | ⟨info, hi⟩) | ⟨t, hi, -⟩
  · refine hother ?_ (by rw [dispatch_mem hm]; rfl)
    unfold PipelineReplayer.isMemEvent at hm
    unfold rlsOf
    split at hm <;> simp_all
  · exact hother (by simp [rlsOf, hi]) (by simp only [RaceAlgImpl.dispatch, hi]; rfl)
  · simp only [RaceAlgImpl.dispatch, hi, getRlsBuf_released]
    by_cases hop : info.opType = .rlsBuf
    · have hrls : rlsOf e = some info.bufId := by simp [rlsOf, hi, hop]
      rw [hb (by simp [hrls]), if_pos hop, hrls]
      by_cases hk : info.bufId = k
      · subst hk
        simp [RaceAlgImpl.setClock, getRlsBuf_rls hop]
      · have hne : (b, k) ≠ (b, info.bufId) := by simpa using Ne.symm hk
        rw [Function.update_of_ne hne, if_neg (by simpa using hk), List.append_nil]
    · have hrls : rlsOf e = none := by simp [rlsOf, hi, hop]
      rw [if_neg hop, List.append_nil, Function.update_eq_self, if_neg (by simp [hrls]),
        List.append_nil]
  · exact hother (by simp [rlsOf, hi]) (by simp only [RaceAlgImpl.dispatch, hi]; rfl)

lemma Works.released (h : Works b s x s')
    (hb : rlsOf x.event ≠ none → s.alg.blockIndex x.event = b)
    (he : x.event.pipe = x.pipe → BufOrMem x.event ∨ ∃ t, x.event.info = .time (some t) ∧ Wf t)
    (k : ℕ) : s'.alg.getRlsBufMap (b, k) = s.alg.getRlsBufMap (b, k) ++
      if x.event.pipe = x.pipe ∧ rlsOf x.event = some k then [x.clock] else [] := by
  rcases h with ⟨hne, -, halg⟩ | ⟨hown, hclock, hdispatch⟩
  · rw [halg, if_neg fun hc => hne hc.1, List.append_nil]
    rfl
  · have hd := dispatch_released (c := queIdx b x.pipe) hb (he hown) k
    rw [hdispatch] at hd
    simp only [hown, true_and]
    rw [hd, hclock]
    rfl

/-- **The handler keeps the clocks of the releases that were executed.** -/
lemma Polls.released_eq (h : Polls b s₀ tr s) (h₀ : Sound b s₀)
    (hempty : s₀.alg.getRlsBufMap = fun _ => []) (k : ℕ) :
    s.alg.getRlsBufMap (b, k) = (BlockReplay.released k tr).map Exec.clock := by
  induction h with
  | nil => rw [hempty]; rfl
  | concat h hpoll ih =>
    have hs := h.sound h₀
    obtain ⟨rfl, ⟨rest, hq⟩, -, hworks⟩ := poll_moves hs hpoll
    have hfits := hs.fits _ _ (hq ▸ List.mem_cons_self)
    rw [hworks.released ?_ fun _ => hfits.imp (fun hb => hb.2.1) And.right, ih, released_concat,
      List.map_append]
    · split_ifs <;> rfl
    · intro hrls
      rcases hfits with ⟨hb, -⟩ | ⟨-, t, hi, -⟩
      · exact hb
      · simp [rlsOf, hi] at hrls

/-! ## Every event is executed once -/

/-- How often an event is still in the queues of block `b`. -/
def waiting (b : ℕ) (s : BlockReplay) (e : SanEvent) : ℕ := ∑ q, (s.que b q).count e

def executedEvents (tr : List Exec) : List SanEvent :=
  (tr.filter fun x => x.event.pipe = x.pipe).map Exec.event

lemma executedEvents_concat (tr : List Exec) (x : Exec) : executedEvents (tr ++ [x]) =
    executedEvents tr ++ if x.event.pipe = x.pipe then [x.event] else [] := by
  rw [executedEvents, List.filter_append, List.map_append]
  by_cases h : x.event.pipe = x.pipe
  · rw [if_pos h, List.filter_cons_of_pos (by simpa using h)]
    rfl
  · rw [if_neg h, List.filter_cons_of_neg (by simpa using h)]
    rfl

/-- A poll moves an event that is no time event, or executes it. -/
lemma Moves.waiting_add (h : Moves b s x s') (hq : s.que b x.pipe = x.event :: rest)
    {info : BufSyncInfo} (he : e.info = .bufSync info) :
    waiting b s' e + (if x.event.pipe = x.pipe then [x.event] else []).count e =
      waiting b s e := by
  have htime : RaceAlgImpl.timeEventOf x.event x.clock ≠ e := by
    rintro rfl
    cases he
  have hque : ∀ q, (s'.que b q).count e + (if q = x.pipe then [x.event].count e else 0) =
      (s.que b q).count e +
        if q = x.event.pipe then
          (if x.event.pipe ≠ x.pipe then [x.event].count e else 0) else 0 := by
    intro q
    rw [h.que, List.count_append]
    by_cases hqp : q = x.pipe
    · subst hqp
      rw [if_pos rfl, if_pos rfl, hq, List.tail_cons, ← List.singleton_append (l := rest),
        List.count_append]
      by_cases hown : x.event.pipe = x.pipe
      · simp [hown]
        omega
      · simp [hown, Ne.symm hown]
        omega
    · by_cases hissue : q = x.event.pipe
      · subst hissue
        simp [hqp, htime]
      · simp [hqp, hissue]
  have hsum := Finset.sum_congr rfl fun q (_ : q ∈ Finset.univ) => hque q
  simp only [Finset.sum_add_distrib, Finset.sum_ite_eq', Finset.mem_univ, if_true] at hsum
  unfold waiting
  by_cases hown : x.event.pipe = x.pipe
  · rw [if_pos hown]
    simpa [hown] using hsum
  · rw [if_neg hown, List.count_nil]
    rw [if_pos hown] at hsum
    omega

/-- **An event is executed as often as it has left the queues.** -/
lemma Polls.executed_add (h : Polls b s₀ tr s) (h₀ : Sound b s₀) {info : BufSyncInfo}
    (he : e.info = .bufSync info) :
    (executedEvents tr).count e + waiting b s e = waiting b s₀ e := by
  induction h with
  | nil => simp [executedEvents]
  | concat h hpoll ih =>
    obtain ⟨rfl, ⟨rest, hq⟩, hmoves, -⟩ := poll_moves (h.sound h₀) hpoll
    have hadd := hmoves.waiting_add hq he
    rw [executedEvents_concat, List.count_append]
    omega

/-! ## The start -/

lemma not_isMemEvent {info : BufSyncInfo} (he : e.info = .bufSync info) :
    ¬ PipelineReplayer.isMemEvent e = true := by
  simp [PipelineReplayer.isMemEvent, he]

lemma count_flatMap_parts {info : BufSyncInfo} (he : e.info = .bufSync info) (l : List SanEvent) :
    (l.flatMap parts).count e = l.count e := by
  induction l with
  | nil => rfl
  | cons a l ih =>
    rw [List.flatMap_cons, List.count_append, ih, List.count_cons]
    rcases parts_eq_or_mem a with ha | ⟨ha, hparts⟩
    · rw [ha, List.count_singleton]
      omega
    · have hne : a ≠ e := fun hc => not_isMemEvent he (hc ▸ ha)
      have hzero : (parts a).count e = 0 := List.count_eq_zero.mpr fun hmem =>
        not_isMemEvent he (hparts e hmem).2
      simp [hzero, hne]

lemma sound_start (blockDim : ℕ) {l : List SanEvent}
    (hl : ∀ e ∈ l, getEventBlockIndex e.loc kt dt = b ∧ BufOrMem e) :
    Sound b (start kt dt blockDim l) := by
  refine ⟨fun p e he => Or.inl ?_, fun p => start_room blockDim fun e he => (hl e he).1,
    fun _ => wf_default, fun _ t ht => absurd ht List.not_mem_nil,
    fun _ t ht => absurd ht List.not_mem_nil⟩
  rw [start_que blockDim fun e he => (hl e he).1] at he
  split_ifs at he
  · obtain ⟨e₀, he₀, hpart⟩ := List.mem_flatMap.mp he
    obtain ⟨hb, hkind⟩ := hl e₀ he₀
    have hsingle := parts_of_mem_parts hpart
    rcases parts_eq_or_mem e₀ with heq | ⟨-, hparts⟩
    · rw [heq, List.mem_singleton] at hpart
      subst hpart
      exact ⟨hb, hkind, hsingle⟩
    · obtain ⟨hloc, hm⟩ := hparts e hpart
      exact ⟨hloc ▸ hb, Or.inl hm, hsingle⟩
  · cases he

lemma waiting_start_le (blockDim : ℕ) {l : List SanEvent}
    (hl : ∀ e ∈ l, getEventBlockIndex e.loc kt dt = b) {info : BufSyncInfo}
    (he : e.info = .bufSync info) :
    waiting b (start kt dt blockDim l) e ≤ l.count e := by
  have hque : ∀ q, ((start kt dt blockDim l).que b q).count e ≤
      if q = .s then l.count e else 0 := by
    intro q
    rw [start_que blockDim hl]
    by_cases hq : q = .s
    · rw [if_pos hq]
      split_ifs
      · exact (count_flatMap_parts he l).le
      · exact Nat.zero_le _
    · rw [if_neg hq, if_neg fun hc => hq hc.1]
      exact Nat.zero_le _
  refine (Finset.sum_le_sum fun q _ => hque q).trans ?_
  simp

/-! ## Gets -/

/-- A get in block mode that passes has found as many releases as its count. Where there are no
more of them than that, its clock is the merge of theirs. -/
lemma getRlsBuf_get {l : List VectorTime} {vt : VectorTime} {info : BufSyncInfo}
    (hop : info.opType = .getBuf) (hmode : info.mode = .blockMode)
    (hret : (RaceAlg.getRlsBuf l vt info).1 = .processOk) :
    info.rlsCount ≤ l.length ∧ (0 < info.rlsCount → l.length = info.rlsCount →
      (RaceAlg.getRlsBuf l vt info).2.1 = l.foldl (fun vt t => updateVectorTime t vt) vt) := by
  unfold RaceAlg.getRlsBuf at hret ⊢
  rw [if_pos ⟨hop, hmode⟩] at hret ⊢
  by_cases hzero : info.rlsCount = 0
  · exact ⟨hzero ▸ Nat.zero_le _, fun hc => absurd hzero hc.ne'⟩
  · rw [if_neg hzero] at hret ⊢
    by_cases hlt : l.length < info.rlsCount
    · rw [if_pos hlt] at hret
      cases hret
    · rw [if_neg hlt]
      exact ⟨not_lt.mp hlt, fun _ heq => by rw [if_pos heq]⟩

lemma Works.get (h : Works b s x s') (hown : x.event.pipe = x.pipe)
    (hb : s.alg.blockIndex x.event = b) {info : BufSyncInfo} (hinfo : getOf x.event = some info) :
    info.rlsCount ≤ (s.alg.getRlsBufMap (b, info.bufId)).length ∧
      (0 < info.rlsCount → (s.alg.getRlsBufMap (b, info.bufId)).length = info.rlsCount →
        x.clock = (s.alg.getRlsBufMap (b, info.bufId)).foldl
          (fun vt t => updateVectorTime t vt) (s.clock b x.pipe)) := by
  obtain ⟨hi, hop, hmode⟩ := getOf_eq_some.mp hinfo
  rcases h with ⟨hne, -⟩ | ⟨-, hclock, hdispatch⟩
  · exact absurd hown hne
  · simp only [RaceAlgImpl.dispatch, hi, hb, Prod.mk.injEq] at hdispatch
    obtain ⟨hret, halg⟩ := hdispatch
    obtain ⟨hle, heq⟩ := getRlsBuf_get hop hmode hret
    refine ⟨hle, fun hpos hlen => ?_⟩
    rw [hclock, clock, ← halg]
    simp only [RaceAlgImpl.setClock, Function.update_self]
    exact heq hpos hlen

/-- Where a get has to wait, no release of the buffer that was recorded after it has been
executed. -/
def Timely (tr : List Exec) (x : Exec) : Prop :=
  ∀ info, getOf x.event = some info → 0 < info.rlsCount → ∀ y ∈ released info.bufId tr,
    y.event.serialNo < x.event.serialNo

/-- All releases of the buffer that were recorded before a get have been executed, and the clock
of the get is above theirs. -/
def Served (events : List SanEvent) (tr : List Exec) (x : Exec) : Prop :=
  ∀ info, getOf x.event = some info → ∀ r ∈ releasesBefore info.bufId x.event events,
    ∃ y ∈ released info.bufId tr, y.event = r ∧ y.clock ≤ x.clock

/-- The events of a stream of one block, as the replay needs them. -/
structure Stream (kt : KernelType) (dt : DeviceType) (b : ℕ) (l : List SanEvent) : Prop where
  block : ∀ e ∈ l, getEventBlockIndex e.loc kt dt = b ∧ BufOrMem e
  gets : ∀ e ∈ l, ∀ info, getOf e = some info →
    info.rlsCount = (releasesBefore info.bufId e l).length
  nodup : ∀ k, (releasesOf k l).Nodup

variable {blockDim : ℕ} {l : List SanEvent}

/-- An operation on a buffer is executed no more often than it was recorded. -/
lemma Stream.executed_le (hl : Stream kt dt b l) (hrun : Polls b (start kt dt blockDim l) tr s)
    {info : BufSyncInfo} (he : e.info = .bufSync info) :
    (executedEvents tr).count e ≤ l.count e := by
  have hadd := hrun.executed_add (sound_start blockDim hl.block) he
  have hle := waiting_start_le blockDim (fun e he => (hl.block e he).1) he
  omega

lemma Stream.mem (hl : Stream kt dt b l) (hrun : Polls b (start kt dt blockDim l) tr s)
    (hx : x ∈ tr) (hown : x.event.pipe = x.pipe) {info : BufSyncInfo}
    (hi : x.event.info = .bufSync info) : x.event ∈ l := by
  have hmem : x.event ∈ executedEvents tr :=
    List.mem_map_of_mem (List.mem_filter.mpr ⟨hx, by simpa using hown⟩)
  have hle := hl.executed_le hrun hi
  exact List.count_pos_iff.mp ((List.count_pos_iff.mpr hmem).trans_le hle)

/-- The releases that were executed are different ones. -/
lemma Stream.nodup_released (hl : Stream kt dt b l)
    (hrun : Polls b (start kt dt blockDim l) tr s) (k : ℕ) :
    ((released k tr).map Exec.event).Nodup := by
  refine List.nodup_iff_count_le_one.mpr fun e => ?_
  by_cases hmem : e ∈ (released k tr).map Exec.event
  · obtain ⟨y, hy, rfl⟩ := List.mem_map.mp hmem
    obtain ⟨-, -, hrls⟩ := mem_released.mp hy
    obtain ⟨info, hi, -, -⟩ := rlsOf_eq_some.mp hrls
    have hsub : (released k tr).Sublist (tr.filter fun x => x.event.pipe = x.pipe) := by
      refine List.monotone_filter_right _ fun x hx => ?_
      simp only [decide_eq_true_eq] at hx ⊢
      exact hx.1
    calc ((released k tr).map Exec.event).count y.event
        ≤ (executedEvents tr).count y.event := (hsub.map Exec.event).count_le _
      _ ≤ l.count y.event := hl.executed_le hrun hi
      _ = (releasesOf k l).count y.event := (List.count_filter (by simpa using hrls)).symm
      _ ≤ 1 := List.nodup_iff_count_le_one.mp (hl.nodup k) _
  · exact (List.count_eq_zero.mpr hmem).trans_le (Nat.zero_le _)

/-- **A get that no later release precedes waits for all releases before it**; one without releases
before it has none to wait for. -/
lemma Stream.served (hl : Stream kt dt b l) (hrun : Polls b (start kt dt blockDim l) tr s)
    (hpoll : poll b p s = some (x, s')) (hown : x.event.pipe = x.pipe) (htimely : Timely tr x) :
    Served l tr x := by
  intro info hinfo r hr
  obtain ⟨hi, -, -⟩ := getOf_eq_some.mp hinfo
  have hs := hrun.sound (sound_start blockDim hl.block)
  obtain ⟨rfl, ⟨rest, hq⟩, -, hworks⟩ := poll_moves hs hpoll
  have hb : s.alg.blockIndex x.event = b := by
    rcases hs.fits x.pipe x.event (by simp [hq]) with ⟨hb, -⟩ | ⟨-, t, ht, -⟩
    · exact hb
    · rw [hi] at ht
      cases ht
  obtain ⟨hle, hclock⟩ := hworks.get hown hb hinfo
  have hreleased := hrun.released_eq (sound_start blockDim hl.block) rfl info.bufId
  rw [hreleased, List.length_map] at hle hclock
  have hcount := hl.gets x.event (hl.mem (hrun.concat hpoll) (by simp) hown hi) info hinfo
  have hpos : 0 < info.rlsCount := hcount ▸ List.length_pos_of_mem hr
  -- the releases that were executed are among those before the get, and no fewer
  have hsub : (released info.bufId tr).map Exec.event ⊆ releasesBefore info.bufId x.event l := by
    intro e he
    obtain ⟨y, hy, rfl⟩ := List.mem_map.mp he
    obtain ⟨hmem, hyown, hrls⟩ := mem_released.mp hy
    obtain ⟨info', hi', -, -⟩ := rlsOf_eq_some.mp hrls
    exact mem_releasesBefore.mpr ⟨hl.mem hrun hmem hyown hi', hrls, htimely info hinfo hpos y hy⟩
  have hperm := ((hl.nodup_released hrun info.bufId).subperm hsub).perm_of_length_le
    (by rw [List.length_map, ← hcount]; exact hle)
  obtain ⟨y, hy, rfl⟩ := List.mem_map.mp (hperm.mem_iff.mpr hr)
  refine ⟨y, hy, rfl, ?_⟩
  have hlen := hperm.length_eq
  rw [List.length_map, ← hcount] at hlen
  rw [hclock hpos hlen]
  refine (foldl_updateVectorTime (fun t ht => ?_) (hs.alg.clocks _)).2.2 y.clock
    (List.mem_map_of_mem hy)
  rw [← hreleased] at ht
  exact hs.alg.released _ t ht

lemma stream_parseRun (ctx : Context) (st : ParseState) {blockId : ℕ} {blockType : BlockType}
    (kt : KernelType) (dt : DeviceType) (hst : ∀ k, st.getRlsBufMap (blockId, k) = 0)
    {rs : List KernelRecord} (hrs : ∀ r ∈ rs, r.bufOrMem blockId blockType)
    (hserial : (rs.map KernelRecord.serialNo).Pairwise (· < ·)) :
    Stream kt dt (getEventBlockIndex { coreId := blockId, blockType } kt dt)
      (parseRun ctx st rs) := by
  have hnum := Numbered.stream ctx hst hrs hserial
  rw [parseRun_eq]
  refine ⟨fun e he => ?_, fun e he info hinfo => ?_, fun k => ?_⟩
  · obtain ⟨e', he', rfl⟩ := List.mem_map.mp he
    obtain ⟨hid, htype, hkind⟩ := raised_replacePipeScalar (raised_stream ctx hrs e' he')
    refine ⟨?_, hkind⟩
    rw [← hid, ← htype]
    rfl
  · obtain ⟨e', he', rfl⟩ := List.mem_map.mp he
    rw [getOf_replacePipeScalar] at hinfo
    rw [releasesBefore_map, List.length_map]
    exact hnum.gets e' he' info hinfo
  · rw [releasesOf_map]
    have hlt : ((releasesOf k (raised ctx st rs)).map replacePipeScalar).Pairwise
        fun e e' => e.serialNo < e'.serialNo := by
      refine List.pairwise_map.mpr ((hnum.sorted k).imp fun h => ?_)
      rwa [serialNo_replacePipeScalar, serialNo_replacePipeScalar]
    exact hlt.imp fun h heq => h.ne (congrArg SanEvent.serialNo heq)

/-! ## A buffer of three pipes -/

/-- Polls of some pipes one after the other, all of them successful. -/
def polls (b : ℕ) : List PipeType → BlockReplay → Option (List Exec × BlockReplay)
  | [], s => some ([], s)
  | p :: ps, s => do
    let (x, s) ← poll b p s
    let (tr, s) ← polls b ps s
    some (x :: tr, s)

lemma Polls.append {ps : List PipeType} {tr' : List Exec} (h : Polls b s₀ tr s)
    (hps : polls b ps s = some (tr', s')) : Polls b s₀ (tr ++ tr') s' := by
  induction ps generalizing tr s tr' with
  | nil =>
    cases hps
    rwa [List.append_nil]
  | cons p ps ih =>
    simp only [polls, Option.bind_eq_bind, Option.bind_eq_some_iff] at hps
    obtain ⟨⟨x, s₁⟩, hpoll, ⟨tr₁, s₂⟩, hrest, heq⟩ := hps
    cases heq
    rw [List.append_cons]
    exact ih (h.concat hpoll) hrest

/-- The releases of buffer 0 before the last poll of a run, and what that poll was. -/
def lastGet (tr : List Exec) : List ℕ × Option (Bool × ℕ × Option BufSyncInfo) :=
  ((released 0 tr.dropLast).map (·.event.serialNo), tr.getLast?.map fun x =>
    (decide (x.event.pipe = x.pipe), x.event.serialNo, getOf x.event))

lemma exists_polls {ps : List PipeType} {serials : List ℕ} {n : ℕ} {info : BufSyncInfo}
    (h : (polls b ps s₀).map (fun r => lastGet r.1) = some (serials, some (true, n, some info))) :
    ∃ pre x s, Polls b s₀ (pre ++ [x]) s ∧ x.event.pipe = x.pipe ∧ x.event.serialNo = n ∧
      getOf x.event = some info ∧ (released 0 pre).map (·.event.serialNo) = serials := by
  obtain ⟨⟨tr, s⟩, hpolls, hlast⟩ := Option.map_eq_some_iff.mp h
  simp only [lastGet, Prod.mk.injEq, Option.map_eq_some_iff, decide_eq_true_eq] at hlast
  obtain ⟨hserials, x, hx, hown, hn, hinfo⟩ := hlast
  refine ⟨tr.dropLast, x, s, ?_, hown, hn, hinfo, hserials⟩
  rw [List.dropLast_append_getLast? x hx]
  exact Polls.nil.append hpolls

/-- The vector pipe and the pipes of two transfers use a buffer. That of the second transfer does
not wait for it. -/
def sharedBuf : List KernelRecord :=
  [{ serialNo := 0, payload := .getBuf .plain { pipe := .v } },
    { serialNo := 1, payload := .rlsBuf .plain { pipe := .v } },
    { serialNo := 2, payload := .getBuf .plain { pipe := .mte2 } },
    { serialNo := 3, payload := .getBuf .plain { pipe := .mte3, mode := .nonBlockMode } },
    { serialNo := 4, payload := .rlsBuf .plain { pipe := .mte3 } }]

def sharedGet : BufSyncInfo := { opType := .getBuf, pipe := .mte2, rlsCount := 1 }

/-- **A get in block mode waits for the releases before it.** In every run on a stream of records
of one block, a get in block mode that has releases of its buffer to wait for and passes before any
release that was recorded after it has been executed passes after all releases that were recorded
before it, with a clock above all of theirs. A get without releases before it has none to wait
for. -/
theorem getBuf_waits (ctx : Context) (st : ParseState) (kernelType : KernelType)
    (deviceType : DeviceType) (blockDim blockId : ℕ) (blockType : BlockType)
    (rs : List KernelRecord) (hst : ∀ k, st.getRlsBufMap (blockId, k) = 0)
    (hrs : ∀ r ∈ rs, r.bufOrMem blockId blockType)
    (hserial : (rs.map KernelRecord.serialNo).Pairwise (· < ·)) {tr : List Exec} {s : BlockReplay}
    (hrun : Polls (getEventBlockIndex { coreId := blockId, blockType } kernelType deviceType)
      (start kernelType deviceType blockDim (parseRun ctx st rs)) tr s) :
    ∀ pre x post, tr = pre ++ x :: post → x.event.pipe = x.pipe → Timely pre x →
      Served (parseRun ctx st rs) pre x := by
  rintro pre x post rfl hown htimely
  have hat : (pre ++ x :: post)[pre.length]? = some x := by simp
  obtain ⟨p, s₁, s₂, hpre, hpoll⟩ := hrun.step_at hat
  rw [List.take_left' rfl] at hpre
  exact (stream_parseRun ctx st kernelType deviceType hst hrs hserial).served hpre hpoll hown
    htimely

/-- The vector pipe first: the get of the first transfer is served. -/
theorem getBuf_waits_sharedBuf : ∃ pre x s,
    Polls 0 (start .aivec ⟨0⟩ 1 (parseRun {} {} sharedBuf)) (pre ++ [x]) s ∧
      getOf x.event = some sharedGet ∧ Served (parseRun {} {} sharedBuf) pre x := by
  obtain ⟨pre, x, s, hrun, hown, hn, hinfo, hserials⟩ :
      ∃ pre x s, Polls 0 (start .aivec ⟨0⟩ 1 (parseRun {} {} sharedBuf)) (pre ++ [x]) s ∧
        x.event.pipe = x.pipe ∧ x.event.serialNo = 2 ∧ getOf x.event = some sharedGet ∧
        (released 0 pre).map (·.event.serialNo) = [1] :=
    @exists_polls _ _ [.s, .s, .s, .v, .v, .v, .v, .mte2, .mte2] _ _ _ (by decide +kernel)
  refine ⟨pre, x, s, hrun, hinfo, getBuf_waits {} {} .aivec ⟨0⟩ 1 0 .aivec sharedBuf (fun _ => rfl)
    ?_ (by decide) hrun pre x [] rfl hown ?_⟩
  · simp [sharedBuf, KernelRecord.bufOrMem]
  · intro info hinfo' _ y hy
    rw [hinfo] at hinfo'
    cases hinfo'
    have hmem : y.event.serialNo ∈ [1] := hserials ▸ List.mem_map_of_mem hy
    rw [hn, List.mem_singleton.mp hmem]
    decide

/-- The release of the second transfer lets the get of the first one pass, before the vector pipe
has released the buffer. -/
theorem getBuf_passes_early : ∃ pre x s,
    Polls 0 (start .aivec ⟨0⟩ 1 (parseRun {} {} sharedBuf)) (pre ++ [x]) s ∧
      x.event.pipe = x.pipe ∧ ¬ Served (parseRun {} {} sharedBuf) pre x := by
  obtain ⟨pre, x, s, hrun, hown, hn, hinfo, hserials⟩ :
      ∃ pre x s, Polls 0 (start .aivec ⟨0⟩ 1 (parseRun {} {} sharedBuf)) (pre ++ [x]) s ∧
        x.event.pipe = x.pipe ∧ x.event.serialNo = 2 ∧ getOf x.event = some sharedGet ∧
        (released 0 pre).map (·.event.serialNo) = [4] :=
    @exists_polls _ _ [.s, .s, .s, .s, .s, .mte3, .mte3, .mte3, .mte3, .mte2, .mte2] _ _ _
      (by decide +kernel)
  refine ⟨pre, x, s, hrun, hown, fun hserved => ?_⟩
  have hfirst : ∃ r ∈ parseRun {} {} sharedBuf, rlsOf r = some 0 ∧ r.serialNo = 1 := by
    decide +kernel
  obtain ⟨r, hr, hrls, hone⟩ := hfirst
  obtain ⟨y, hy, rfl, -⟩ := hserved sharedGet hinfo r
    (mem_releasesBefore.mpr ⟨hr, hrls, by rw [hone, hn]; decide⟩)
  have hmem : y.event.serialNo ∈ [4] := hserials ▸ List.mem_map_of_mem hy
  rw [hone] at hmem
  exact absurd hmem (by decide)

end MsSanitizer.BlockReplay
