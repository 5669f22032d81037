import MsSanitizer.CrossNpuRaceAlg

/-!
# Clocks only grow

The handlers of the race checks store clocks in containers, queues, maps and barriers, and merge
stored clocks into the clocks of pipes. As long as all stored clocks are well formed, a handler
keeps them so, and the clocks of the pipes after a call are at least those before it.
-/

namespace MsSanitizer

open RecordDefs EventDef VectorTime CrossCoreSync PipeLine

namespace CrossCoreSync

/-- The clocks in the queues of a block and a flag are well formed. -/
structure InfoWf (x : BlockSyncInfo) : Prop where
  set0 : ∀ t ∈ x.setVec0, Wf t
  set1 : ∀ t ∈ x.setVec1, Wf t
  set2 : ∀ t ∈ x.setVec2, Wf t
  set4 : ∀ t ∈ x.setVec4, Wf t
  wait : ∀ t ∈ x.waitVec, Wf t
  intra : ∀ t ∈ x.intrablockwaitVec, Wf t

/-- All clocks in a container are well formed. -/
structure ContWf (c : Container) : Prop where
  info : ∀ b f, InfoWf (c.blockSyncEvent b f)
  soft : ∀ b event t, (c.blockSoftSyncInfo b).mapVectorTime event = some t → Wf t
  mstx : ∀ key l, c.mstxCrossSetMap key = some l → ∀ t ∈ l, Wf t

section Queues

variable {x : BlockSyncInfo} {t : VectorTime}

lemma wf_concat {l : List VectorTime} (h : ∀ u ∈ l, Wf u) (ht : Wf t) : ∀ u ∈ l ++ [t], Wf u := by
  intro u hu
  rcases List.mem_append.1 hu with hu | hu
  · exact h u hu
  · rw [List.mem_singleton.1 hu]
    exact ht

lemma wf_tail {l : List VectorTime} (h : ∀ u ∈ l, Wf u) : ∀ u ∈ l.tail, Wf u :=
  fun u hu => h u (List.mem_of_mem_tail hu)

lemma InfoWf.pushSet0 (h : InfoWf x) (ht : Wf t) : InfoWf (x.pushSet0 t) :=
  { h with set0 := wf_concat h.set0 ht }

lemma InfoWf.popSet0 (h : InfoWf x) : InfoWf x.popSet0 := { h with set0 := wf_tail h.set0 }

lemma InfoWf.pushSet1 (h : InfoWf x) (ht : Wf t) : InfoWf (x.pushSet1 t) :=
  { h with set1 := wf_concat h.set1 ht }

lemma InfoWf.popSet1 (h : InfoWf x) : InfoWf x.popSet1 := { h with set1 := wf_tail h.set1 }

lemma InfoWf.pushSet2 (h : InfoWf x) (ht : Wf t) : InfoWf (x.pushSet2 t) :=
  { h with set2 := wf_concat h.set2 ht }

lemma InfoWf.popSet2 (h : InfoWf x) : InfoWf x.popSet2 := { h with set2 := wf_tail h.set2 }

lemma InfoWf.pushSet4 (h : InfoWf x) (ht : Wf t) : InfoWf (x.pushSet4 t) :=
  { h with set4 := wf_concat h.set4 ht }

lemma InfoWf.popSet4 (h : InfoWf x) : InfoWf x.popSet4 := { h with set4 := wf_tail h.set4 }

lemma InfoWf.pushWait (h : InfoWf x) (ht : Wf t) : InfoWf (x.pushWait t) :=
  { h with wait := wf_concat h.wait ht }

lemma InfoWf.popWait (h : InfoWf x) : InfoWf x.popWait := { h with wait := wf_tail h.wait }

lemma InfoWf.pushIntra (h : InfoWf x) (ht : Wf t) : InfoWf (x.pushIntra t) :=
  { h with intra := wf_concat h.intra ht }

lemma InfoWf.popIntra (h : InfoWf x) : InfoWf x.popIntra := { h with intra := wf_tail h.intra }

end Queues

lemma infoWf_empty : InfoWf {} := ⟨by simp, by simp, by simp, by simp, by simp, by simp⟩

lemma contWf_init (n : ℕ) (kernelType : KernelType) : ContWf (.init n kernelType) :=
  ⟨fun _ _ => infoWf_empty, fun _ _ _ h => (by cases h), fun _ _ h => by cases h⟩

/-! ## Calls that may leave the arrays -/

/-- Where a call returns a container, its clocks are well formed. -/
def Keeps (o : Option Container) : Prop := ∀ c ∈ o, ContWf c

section Keeps

variable {c : Container} {b f : ℕ} {t : VectorTime} {g : BlockSyncInfo → BlockSyncInfo}
  {o : Option Container} {k : Container → Option Container}

lemma ContWf.keeps (h : ContWf c) : Keeps (some c) := by
  intro c' hc'
  rw [← Option.some_inj.1 hc']
  exact h

lemma keeps_bind {β : Type} {o : Option β} {k : β → Option Container}
    (hk : ∀ x ∈ o, Keeps (k x)) : Keeps (o >>= k) := by
  intro c' hc'
  obtain ⟨x, hx, hc'⟩ := Option.bind_eq_some_iff.1 hc'
  exact hk x hx c' hc'

lemma Keeps.bind (h : Keeps o) (hk : ∀ c, ContWf c → Keeps (k c)) : Keeps (o >>= k) :=
  keeps_bind fun c hc => hk c (h c hc)

lemma Keeps.ite {p : Prop} [Decidable p] {o' : Option Container} (h : p → Keeps o)
    (h' : ¬ p → Keeps o') : Keeps (if p then o else o') := by
  by_cases hp : p
  · rw [if_pos hp]
    exact h hp
  · rw [if_neg hp]
    exact h' hp

lemma Keeps.getD (h : Keeps o) (hc : ContWf c) : ContWf (o.getD c) := by
  cases o with
  | none => exact hc
  | some c' => exact h c' rfl

lemma ContWf.put {x : BlockSyncInfo} (h : ContWf c) (hx : InfoWf x) : ContWf (c.put b f x) := by
  refine ⟨fun b' f' => ?_, h.soft, h.mstx⟩
  simp only [Container.put]
  split_ifs
  · exact hx
  · exact h.info b' f'

lemma ContWf.modify (h : ContWf c) (hg : InfoWf (c.blockSyncEvent b f) →
    InfoWf (g (c.blockSyncEvent b f))) : Keeps (c.modify b f g) := by
  intro c' hc'
  obtain ⟨x, hx, rfl⟩ := Option.map_eq_some_iff.1 hc'
  rw [Container.info] at hx
  split_ifs at hx
  rw [← Option.some_inj.1 hx]
  exact h.put (hg (h.info b f))

lemma ContWf.bind_info {β : Type} {k : BlockSyncInfo → Option β} {p : β → Prop} (h : ContWf c)
    (hk : ∀ x, InfoWf x → ∀ y ∈ k x, p y) : ∀ y ∈ (c.info b f >>= k), p y := by
  intro y hy
  obtain ⟨x, hx, hy⟩ := Option.bind_eq_some_iff.1 hy
  rw [Container.info] at hx
  split_ifs at hx
  rw [← Option.some_inj.1 hx] at hy
  exact hk _ (h.info b f) y hy

lemma foldlM_invariant {α β : Type} {step : β → α → Option β} {I : β → Prop}
    (hstep : ∀ s a, I s → ∀ s' ∈ step s a, I s') (l : List α) :
    ∀ s, I s → ∀ s' ∈ l.foldlM step s, I s' := by
  induction l with
  | nil =>
    intro s hs s' hs'
    rw [← Option.some_inj.1 hs']
    exact hs
  | cons a l ih =>
    intro s hs s' hs'
    rw [List.foldlM_cons] at hs'
    obtain ⟨s1, hs1, hs'⟩ := Option.bind_eq_some_iff.1 hs'
    exact ih s1 (hstep s a hs s1 hs1) s' hs'

end Keeps

namespace ContWf

variable {c : Container} {b f : ℕ} {t : VectorTime}

/-! ## The modes -/

lemma takeSets (h : ContWf c) (blocks : List ℕ) :
    ∀ p ∈ c.takeSets f blocks, Wf p.1 ∧ ContWf p.2 := by
  refine foldlM_invariant (I := fun p : VectorTime × Container => Wf p.1 ∧ ContWf p.2) ?_ blocks
    ({}, c) ⟨wf_default, h⟩
  rintro ⟨vt, c⟩ i ⟨hvt, hc⟩
  rw [Container.takeSet]
  refine hc.bind_info fun x hx => ?_
  cases hset : x.setVec0 with
  | nil =>
    intro p hp
    rw [← Option.some_inj.1 hp]
    exact ⟨hvt, hc⟩
  | cons t ts =>
    intro p hp
    obtain ⟨c', hc', hp⟩ := Option.bind_eq_some_iff.1 hp
    rw [← Option.some_inj.1 hp]
    have ht : Wf t := hx.set0 t (by rw [hset]; exact List.mem_cons_self)
    exact ⟨(ht.updateVectorTime hvt).1, hc.modify (fun hi => hi.popSet0) c' hc'⟩

lemma giveWaits (h : ContWf c) (blocks : List ℕ) (ht : Wf t) :
    Keeps (c.giveWaits f blocks t) :=
  foldlM_invariant (fun _ _ hc => hc.modify fun hi => hi.pushWait ht) blocks c h

lemma setMode0SyncInfo (h : ContWf c) (ht : Wf t) : Keeps (c.setMode0SyncInfo f b t) := by
  rw [Container.setMode0SyncInfo]
  refine (h.modify fun hi => hi.pushSet0 ht).bind fun c hc => ?_
  refine keeps_bind fun n _ => .ite (fun _ => ?_) fun _ => hc.keeps
  rw [Container.updateSyncInfoInMode0]
  refine keeps_bind fun p hp => ?_
  obtain ⟨hvt, hp⟩ := hc.takeSets _ p hp
  exact hp.giveWaits _ hvt

lemma setMode1SyncInfo (h : ContWf c) (ht : Wf t) : Keeps (c.setMode1SyncInfo f b t) := by
  rw [Container.setMode1SyncInfo]
  split_ifs
  · exact h.keeps
  · refine h.bind_info fun x hx => ?_
    cases hset : x.setVec1 with
    | nil => exact h.modify fun hi => hi.pushSet1 ht
    | cons u us =>
      have hu : Wf u := hx.set1 u (by rw [hset]; exact List.mem_cons_self)
      have hj := (ht.updateVectorTime hu).1
      refine (h.modify fun hi => hi.popSet1).bind fun c hc => ?_
      refine (hc.modify fun hi => hi.pushWait hj).bind fun c hc => ?_
      exact hc.modify fun hi => hi.pushWait hj

lemma modify_modify {b' f' : ℕ} {g g' : BlockSyncInfo → BlockSyncInfo} (h : ContWf c)
    (hg : ∀ x, InfoWf x → InfoWf (g x)) (hg' : ∀ x, InfoWf x → InfoWf (g' x)) :
    Keeps (c.modify b f g >>= fun c => c.modify b' f' g') :=
  (h.modify (hg _)).bind fun _ hc => hc.modify (hg' _)

lemma setMode2SyncInfo (h : ContWf c) (ht : Wf t) (dim : ℕ) :
    Keeps (c.setMode2SyncInfo f b t dim) := by
  have hpop (x : BlockSyncInfo) (hi : InfoWf x) : InfoWf x.popSet2 := hi.popSet2
  have hpush (x : BlockSyncInfo) (hi : InfoWf x) : InfoWf (x.pushWait t) := hi.pushWait ht
  rw [Container.setMode2SyncInfo]
  refine .ite (fun _ => h.keeps) fun _ => ?_
  refine (h.modify fun hi => hi.pushSet2 ht).bind fun c hc => ?_
  refine .ite (fun _ => .ite (fun _ => ?_) fun _ => ?_) fun _ => .ite (fun _ => ?_) fun _ => ?_
  · exact hc.modify_modify hpush hpop
  · exact hc.modify_modify hpush hpop
  · exact (hc.modify (hpush _)).bind fun c hc => hc.modify_modify hpush hpop
  · refine hc.bind_info fun x hx => ?_
    cases hset : x.setVec2 with
    | nil => exact hc.keeps
    | cons u us =>
      have hu : Wf u := hx.set2 u (by rw [hset]; exact List.mem_cons_self)
      refine (hc.modify fun hi => hi.pushWait (ht.updateVectorTime hu).1).bind fun c hc => ?_
      exact hc.modify_modify hpop hpop

lemma setMode4SyncInfo (h : ContWf c) (ht : Wf t) (dim : ℕ) (loc : LocInfo) (serialNo : ℕ) :
    Keeps (c.setMode4SyncInfo f b t dim loc serialNo) := by
  have hpop (x : BlockSyncInfo) (hi : InfoWf x) : InfoWf x.popSet4 := hi.popSet4
  have hpush (x : BlockSyncInfo) (hi : InfoWf x) : InfoWf (x.pushIntra t) := hi.pushIntra ht
  have hwarn : ContWf (c.addFlagIdWarnInfo b f loc serialNo) := by
    rw [Container.addFlagIdWarnInfo]
    split_ifs
    · exact ⟨h.info, h.soft, h.mstx⟩
    · exact h
  rw [Container.setMode4SyncInfo]
  refine .ite (fun _ => h.keeps) fun _ => ?_
  refine (hwarn.modify fun hi => hi.pushSet4 ht).bind fun c hc => ?_
  refine .ite (fun _ => .ite (fun _ => ?_) fun _ => ?_) fun _ => .ite (fun _ => ?_) fun _ => ?_
  · exact hc.modify_modify hpush hpop
  · exact hc.modify_modify hpush hpop
  · refine .ite (fun _ => ?_) fun _ => .ite (fun _ => ?_) fun _ => ?_
    · exact hc.modify_modify hpush hpop
    · exact hc.modify_modify hpush hpop
    · exact hc.modify (hpop _)
  · refine .ite (fun _ => ?_) fun _ => ?_
    · exact hc.modify_modify hpush hpop
    · exact hc.modify_modify hpush hpop

lemma setBlockSyncInfo (h : ContWf c) (ht : Wf t) (mode dim : ℕ) (loc : LocInfo)
    (serialNo : ℕ) : Keeps (c.setBlockSyncInfo f mode b t dim loc serialNo) := by
  unfold Container.setBlockSyncInfo
  refine .ite (fun _ => h.keeps) fun _ => .ite (fun _ => h.keeps) fun _ => ?_
  split
  · exact h.setMode0SyncInfo ht
  · exact h.setMode1SyncInfo ht
  · exact h.setMode2SyncInfo ht dim
  · exact h.setMode4SyncInfo ht dim loc serialNo
  · exact h.keeps

end ContWf

end CrossCoreSync

/-! ## The calls that wait -/

/-- A clock later than another one. -/
structure Later (t t' : VectorTime) : Prop where
  wf : Wf t'
  le : t ≤ t'

lemma Later.refl {t : VectorTime} (ht : Wf t) : Later t t := ⟨ht, le_rfl⟩

lemma Later.tick {t t' : VectorTime} (h : Later t t') (pipe : ℕ) :
    Later t (updateLogicTime t' pipe) :=
  ⟨h.wf.updateLogicTime pipe, h.le.trans (h.wf.le_updateLogicTime pipe)⟩

lemma Later.merge {t t' u : VectorTime} (h : Later t t') (hu : Wf u) :
    Later t (updateVectorTime u t') :=
  ⟨(hu.updateVectorTime h.wf).1, h.le.trans (hu.le_updateVectorTime_right h.wf)⟩

/-- A wait for a clock `t` gives a later one, where it gives one. -/
def Answers (t : VectorTime) (r : Option VectorTime × Container) : Prop :=
  (∀ t' ∈ r.1, Later t t') ∧ ContWf r.2

namespace CrossCoreSync.ContWf

variable {c : Container} {t : VectorTime}

lemma none_answers (h : ContWf c) : Answers t (none, c) := ⟨fun _ ht => (by cases ht), h⟩

lemma getBlockSyncInfo (h : ContWf c) (ht : Wf t) (f b : ℕ) :
    Answers t ((c.getBlockSyncInfo f b t).getD (none, c)) := by
  have hall : ∀ r ∈ c.getBlockSyncInfo f b t, Answers t r := by
    rw [Container.getBlockSyncInfo]
    split_ifs
    · intro r hr
      rw [← Option.some_inj.1 hr]
      exact h.none_answers
    · refine h.bind_info fun x hx => ?_
      cases hq : x.waitVec with
      | nil =>
        intro r hr
        rw [← Option.some_inj.1 hr]
        exact h.none_answers
      | cons u us =>
        intro r hr
        obtain ⟨c', hc', hr⟩ := Option.bind_eq_some_iff.1 hr
        rw [← Option.some_inj.1 hr]
        have hu : Wf u := hx.wait u (by rw [hq]; exact List.mem_cons_self)
        refine ⟨fun t' ht' => ?_, h.modify (fun hi => hi.popWait) c' hc'⟩
        rw [← Option.some_inj.1 ht']
        exact (Later.refl ht).merge hu
  cases hr : c.getBlockSyncInfo f b t with
  | none => exact h.none_answers
  | some r => exact hall r hr

lemma getIntraBlockSyncInfo (h : ContWf c) (ht : Wf t) (f b : ℕ) :
    Answers t ((c.getIntraBlockSyncInfo f b t).getD (none, c)) := by
  have hall : ∀ r ∈ c.getIntraBlockSyncInfo f b t, Answers t r := by
    rw [Container.getIntraBlockSyncInfo]
    split_ifs
    · intro r hr
      rw [← Option.some_inj.1 hr]
      exact h.none_answers
    · refine h.bind_info fun x hx => ?_
      cases hq : x.intrablockwaitVec with
      | nil =>
        intro r hr
        rw [← Option.some_inj.1 hr]
        exact h.none_answers
      | cons u us =>
        intro r hr
        obtain ⟨c', hc', hr⟩ := Option.bind_eq_some_iff.1 hr
        rw [← Option.some_inj.1 hr]
        have hu : Wf u := hx.intra u (by rw [hq]; exact List.mem_cons_self)
        refine ⟨fun t' ht' => ?_, h.modify (fun hi => hi.popIntra) c' hc'⟩
        rw [← Option.some_inj.1 ht']
        exact (Later.refl ht).merge hu
  cases hr : c.getIntraBlockSyncInfo f b t with
  | none => exact h.none_answers
  | some r => exact hall r hr

/-! ## Soft synchronisation and MSTX flags -/

lemma putSoft (h : ContWf c) {b : ℕ} {m : ℤ → Option VectorTime}
    (hm : ∀ event t, m event = some t → Wf t) : ContWf (c.putSoft b m) := by
  refine ⟨h.info, fun b' event u hu => ?_, h.mstx⟩
  simp only [Container.putSoft, Function.update_apply] at hu
  split_ifs at hu
  · exact hm event u hu
  · exact h.soft b' event u hu

lemma setBlockSoftSyncInfo (h : ContWf c) (ht : Wf t) (event : ℤ) (b : ℕ) :
    ContWf (c.setBlockSoftSyncInfo event b t) := by
  rw [Container.setBlockSoftSyncInfo]
  split_ifs
  · exact h
  · refine h.putSoft fun event' u hu => ?_
    rw [Function.update_apply] at hu
    split_ifs at hu
    · rw [← Option.some_inj.1 hu]
      exact ht
    · exact h.soft b event' u hu

lemma consumeBlockSoftSyncInfo (h : ContWf c) (ht : Wf t) (event : ℤ) (b : ℕ) :
    Answers t (c.consumeBlockSoftSyncInfo event b t) := by
  rw [Container.consumeBlockSoftSyncInfo]
  cases hm : (c.blockSoftSyncInfo b).mapVectorTime event with
  | none => exact h.none_answers
  | some u =>
    refine ⟨fun t' ht' => ?_, h.putSoft fun event' u' hu' => ?_⟩
    · rw [← Option.some_inj.1 ht']
      exact (Later.refl ht).merge (h.soft b event u hm)
    · rw [Function.update_apply] at hu'
      split_ifs at hu'
      exact h.soft b event' u' hu'

lemma consumeAnySoft (h : ContWf c) (ht : Wf t) (event : ℤ) (blocks : List ℕ) :
    Answers t (c.consumeAnySoft event t blocks) := by
  induction blocks with
  | nil => exact h.none_answers
  | cons b blocks ih =>
    have hb := h.consumeBlockSoftSyncInfo ht event b
    rw [Container.consumeAnySoft]
    rcases hr : c.consumeBlockSoftSyncInfo event b t with ⟨_ | u, c'⟩
    · exact ih
    · rw [hr] at hb
      exact hb

lemma getBlockSoftSyncInfo (h : ContWf c) (ht : Wf t) (event core : ℤ) :
    Answers t (c.getBlockSoftSyncInfo event core t) := by
  rw [Container.getBlockSoftSyncInfo]
  split_ifs
  · exact h.none_answers
  · exact h.consumeBlockSoftSyncInfo ht event _
  · exact h.consumeAnySoft ht event _

lemma enterSyncAll (h : ContWf c) (ht : Wf t) (b pipeIdx : ℕ) :
    Later t (c.enterSyncAll b pipeIdx t).2.1 ∧ ContWf (c.enterSyncAll b pipeIdx t).2.2 := by
  have hentered : ContWf { c with
      blockSoftSyncInfo := Function.update c.blockSoftSyncInfo b
        { c.blockSoftSyncInfo b with syncAll := true, pipeIdx } } := by
    refine ⟨h.info, fun b' event u hu => ?_, h.mstx⟩
    simp only [Function.update_apply] at hu
    split_ifs at hu with hb
    · exact h.soft b event u hu
    · exact h.soft b' event u hu
  have hsem {c : Container} (hc : ContWf c) (sem : SemCores) :
      ContWf { c with semCores := sem } := ⟨hc.info, hc.soft, hc.mstx⟩
  unfold Container.enterSyncAll
  by_cases hs : (c.blockSoftSyncInfo b).syncAll = true
  · simp only [if_pos hs]
    split_ifs
    · exact ⟨.refl ht, h⟩
    · exact ⟨.refl ht, hsem h _⟩
  · simp only [if_neg hs]
    split_ifs
    · exact ⟨(Later.refl ht).tick _, hentered⟩
    · exact ⟨(Later.refl ht).tick _, hsem hentered _⟩

lemma syncAll (h : ContWf c) (ht : Wf t) (b : ℕ) (usedCores : ℤ) (pipeIdx : ℕ) :
    Later t (c.syncAll b usedCores pipeIdx t).2.1 ∧
      ContWf (c.syncAll b usedCores pipeIdx t).2.2 := by
  have hreset (cores : ℤ) : ContWf (c.resetSyncAll cores) := ⟨h.info, h.soft, h.mstx⟩
  unfold Container.syncAll
  by_cases hrange : usedCores < 0 ∨ (c.maxBlockNum : ℤ) < usedCores
  · rw [if_pos hrange]
    exact ⟨.refl ht, h⟩
  · rw [if_neg hrange]
    dsimp only
    generalize (if usedCores = 0 then (c.getAIVCount : ℤ) else usedCores) = cores
    split_ifs
    · exact (hreset cores).enterSyncAll ht b pipeIdx
    · exact ⟨.refl ht, h⟩
    · exact h.enterSyncAll ht b pipeIdx

lemma setMstxCrossInfo (h : ContWf c) (ht : Wf t) (info : MstxCrossInfo) :
    ContWf (c.setMstxCrossInfo info t) := by
  refine ⟨h.info, h.soft, fun key l hl => ?_⟩
  simp only [Container.setMstxCrossInfo, Function.update_apply] at hl
  split_ifs at hl with hkey
  · rw [← Option.some_inj.1 hl]
    refine wf_concat ?_ ht
    cases hold : c.mstxCrossSetMap (info.addr, info.flagId) with
    | none => simp
    | some l' => exact h.mstx _ l' hold
  · exact h.mstx key l hl

lemma getMstxCrossInfo (h : ContWf c) (ht : Wf t) (info : MstxCrossInfo) :
    Answers t (c.getMstxCrossInfo info t) := by
  rcases hold : c.mstxCrossSetMap (info.addr, info.flagId) with _ | _ | ⟨u, us⟩ <;>
    simp only [Container.getMstxCrossInfo, hold]
  · exact h.none_answers
  · refine ⟨fun t' ht' => ?_, h⟩
    rw [← Option.some_inj.1 ht']
    exact Later.refl ht
  · have hwf := h.mstx _ _ hold
    refine ⟨fun t' ht' => ?_, h.info, h.soft, fun key l hl => ?_⟩
    · rw [← Option.some_inj.1 ht']
      exact (Later.refl ht).merge (hwf u List.mem_cons_self)
    · simp only [Function.update_apply] at hl
      split_ifs at hl
      · rw [← Option.some_inj.1 hl]
        exact fun v hv => hwf v (List.mem_cons_of_mem u hv)
      · exact h.mstx key l hl

end CrossCoreSync.ContWf

/-! ## Clocks of all pipes -/

def AllLater (vc vc' : ℕ → VectorTime) : Prop := ∀ p, Later (vc p) (vc' p)

lemma AllLater.refl {vc : ℕ → VectorTime} (h : ∀ p, Wf (vc p)) : AllLater vc vc :=
  fun p => .refl (h p)

lemma AllLater.trans {vc vc' vc'' : ℕ → VectorTime} (h : AllLater vc vc')
    (h' : AllLater vc' vc'') : AllLater vc vc'' :=
  fun p => ⟨(h' p).wf, (h p).le.trans (h' p).le⟩

lemma AllLater.update {vc : ℕ → VectorTime} (h : ∀ p, Wf (vc p)) {pipe : ℕ} {t : VectorTime}
    (ht : Later (vc pipe) t) : AllLater vc (Function.update vc pipe t) := by
  intro p
  rw [Function.update_apply]
  split_ifs with hp
  · rw [hp]
    exact ht
  · exact .refl (h p)

lemma foldl_invariant {α β : Type} {step : β → α → β} {I : β → Prop}
    (hstep : ∀ s a, I s → I (step s a)) (l : List α) : ∀ s, I s → I (l.foldl step s) := by
  induction l with
  | nil => exact fun s hs => hs
  | cons a l ih => exact fun s hs => ih _ (hstep s a hs)

lemma allLater_updateSyncAllVectorTime (c : Container) {vc : ℕ → VectorTime}
    (h : ∀ p, Wf (vc p)) : AllLater vc (c.updateSyncAllVectorTime vc) := by
  rw [Container.updateSyncAllVectorTime]
  refine foldl_invariant (fun vc' info hvc' => ?_) _ vc (.refl h)
  refine foldl_invariant (fun vc' other hvc' => ?_) _ vc' hvc'
  split_ifs
  · exact hvc'
  · refine hvc'.trans (.update (fun p => (hvc' p).wf) ?_)
    exact (Later.refl (hvc' _).wf).merge (hvc' _).wf

/-! ## The handlers -/

namespace RaceAlg

variable {c : Container} {t : VectorTime}

lemma waited_later {r : Option VectorTime × Container} (ht : Wf t) (h : Answers t r) :
    Later t (waited t r).2.1 ∧ ContWf (waited t r).2.2 := by
  rcases r with ⟨_ | u, c⟩
  · exact ⟨.refl ht, h.2⟩
  · exact ⟨h.1 u rfl, h.2⟩

lemma blockSync_later (h : ContWf c) (ht : Wf t) (blockIdx curPipe : ℕ) (event : SanEvent)
    (info : FftsSyncInfo) :
    Later t (blockSync c blockIdx curPipe t event info).2.1 ∧
      ContWf (blockSync c blockIdx curPipe t event info).2.2 := by
  unfold blockSync
  split_ifs
  · exact ⟨(Later.refl ht).tick _,
      (h.setBlockSyncInfo (ht.updateLogicTime _) _ _ _ _).getD h⟩
  · exact waited_later ht (h.getBlockSyncInfo ht _ _)
  · exact waited_later ht (h.getIntraBlockSyncInfo ht _ _)
  · exact ⟨.refl ht, h⟩

lemma ibSync_later (h : ContWf c) (ht : Wf t) (blockIdx curPipe : ℕ) (info : SoftSyncInfo) :
    Later t (ibSync c blockIdx curPipe t info).2.1 ∧
      ContWf (ibSync c blockIdx curPipe t info).2.2 := by
  unfold ibSync
  split_ifs
  · exact ⟨(Later.refl ht).tick _, h.setBlockSoftSyncInfo (ht.updateLogicTime _) _ _⟩
  · exact waited_later ht (h.getBlockSoftSyncInfo ht _ _)
  · exact ⟨.refl ht, h⟩

lemma blockSoftSync_later (h : ContWf c) {vc : ℕ → VectorTime} (hvc : ∀ p, Wf (vc p))
    (blockIdx curPipe : ℕ) (info : SoftSyncInfo) :
    AllLater vc (blockSoftSync c blockIdx curPipe vc info).2.1 ∧
      ContWf (blockSoftSync c blockIdx curPipe vc info).2.2 := by
  unfold blockSoftSync
  by_cases hall : info.opType = .syncAll
  · rw [if_pos hall]
    obtain ⟨hlater, hcont⟩ := h.syncAll (hvc curPipe) blockIdx info.usedCores curPipe
    have hstart := AllLater.update hvc hlater
    dsimp only
    split_ifs
    · exact ⟨hstart.trans (allLater_updateSyncAllVectorTime _ fun p => (hstart p).wf), hcont⟩
    · exact ⟨hstart, hcont⟩
  · rw [if_neg hall]
    obtain ⟨hlater, hcont⟩ := ibSync_later h (hvc curPipe) blockIdx curPipe info
    exact ⟨AllLater.update hvc hlater, hcont⟩

lemma mstxCrossSync_later (h : ContWf c) (ht : Wf t) (m : MstxSetCrossMap) (curPipe : ℕ)
    (info : MstxCrossInfo) :
    Later t (mstxCrossSync c m curPipe t info).2.1 ∧
      ContWf (mstxCrossSync c m curPipe t info).2.2.1 := by
  unfold mstxCrossSync
  split_ifs
  · exact ⟨(Later.refl ht).tick _, h.setMstxCrossInfo (ht.updateLogicTime _) _⟩
  · exact ⟨.refl ht, h⟩
  · have hget := h.getMstxCrossInfo ht info
    rcases hr : c.getMstxCrossInfo info t with ⟨_ | u, c'⟩
    · rw [hr] at hget
      exact ⟨.refl ht, hget.2⟩
    · rw [hr] at hget
      exact ⟨hget.1 u rfl, hget.2⟩
  · exact ⟨.refl ht, h⟩

lemma syncFlag_later {db : SyncEventDataBase} (h : ∀ key, ∀ u ∈ db key, Wf u) (ht : Wf t)
    (curPipe : ℕ) (info : SyncOpInfo) :
    Later t (syncFlag db curPipe t info).2.1 ∧
      ∀ key, ∀ u ∈ (syncFlag db curPipe t info).2.2 key, Wf u := by
  unfold syncFlag
  split_ifs
  · refine ⟨(Later.refl ht).tick _, fun key u hu => ?_⟩
    simp only [SyncEventDataBase.set, Function.update_apply] at hu
    split_ifs at hu
    · exact wf_concat (h _) (ht.updateLogicTime _) u hu
    · exact h key u hu
  · unfold SyncEventDataBase.get
    cases hq : db (.ofInfo info) with
    | nil => exact ⟨.refl ht, h⟩
    | cons v vs =>
      have hv : Wf v := h _ v (by rw [hq]; exact List.mem_cons_self)
      refine ⟨((Later.refl ht).merge hv).tick _, fun key u hu => ?_⟩
      simp only [Function.update_apply] at hu
      split_ifs at hu
      · exact h _ u (by rw [hq]; exact List.mem_cons_of_mem v hu)
      · exact h key u hu
  · exact ⟨.refl ht, h⟩

lemma signalWait_later {db : SignalDatabase} (h : ∀ addr x, db addr = some x → Wf x.2) (ht : Wf t)
    (curPipe : ℕ) (info : MstxSignalWait) : Later t (signalWait db curPipe t info).2 := by
  unfold signalWait SignalDatabase.wait
  rcases hx : db info.addr with _ | ⟨value, u⟩
  · exact .refl ht
  · dsimp only
    split_ifs
    · exact ((Later.refl ht).merge (h _ _ hx)).tick _
    · exact .refl ht

lemma timeEvent_later {info : Option VectorTime} (h : ∀ u ∈ info, Wf u) (ht : Wf t)
    (curPipe : ℕ) : Later t (timeEvent curPipe t info) := by
  cases info with
  | none => exact (Later.refl ht).tick _
  | some u => exact ((Later.refl ht).merge (h u rfl)).tick _

section Barrier

variable {Worker : Type} [DecidableEq Worker] {b : BarrierEvent Worker}

lemma wf_reach (h : Wf b.vtGlobal) (ht : Wf t) (worker : Worker) :
    Wf (b.reach worker t).vtGlobal ∧ t ≤ (b.reach worker t).vtGlobal := by
  simp only [BarrierEvent.reach]
  split_ifs
  · exact ⟨ht, le_rfl⟩
  · exact ⟨(ht.updateVectorTime h).1, ht.le_updateVectorTime_left h⟩

lemma wf_consume (h : Wf b.vtGlobal) (worker : Worker) :
    (∀ u ∈ (b.consume worker).1, u = b.vtGlobal) ∧ Wf (b.consume worker).2.vtGlobal := by
  unfold BarrierEvent.consume
  split_ifs with hmem
  · refine ⟨fun u hu => (Option.some_inj.1 hu).symm, ?_⟩
    dsimp only
    split_ifs
    · exact wf_default
    · exact h
  · exact ⟨fun u hu => (by cases hu), h⟩

lemma wf_wait (h : Wf b.vtGlobal) (ht : Wf t) (rank : ℕ) (worker : Worker) :
    (∀ u ∈ (b.wait rank worker t).1, Wf u) ∧ Wf (b.wait rank worker t).2.vtGlobal := by
  have hreach := (wf_reach h ht worker).1
  unfold BarrierEvent.wait
  dsimp only
  split_ifs
  · obtain ⟨hglobal, hwf⟩ := wf_consume h worker
    exact ⟨fun u hu => hglobal u hu ▸ h, hwf⟩
  · obtain ⟨hglobal, hwf⟩ := wf_consume (b := { b.reach worker t with allReachBarrier := true })
      hreach worker
    exact ⟨fun u hu => hglobal u hu ▸ hreach, hwf⟩
  · exact ⟨fun u hu => (by cases hu), hreach⟩

lemma pollBarrier_later (h : Wf b.vtGlobal) (ht : Wf t) (rank : ℕ) (worker : Worker)
    (curPipe : ℕ) :
    Later t (pollBarrier b rank worker curPipe t).2.1 ∧
      Wf (pollBarrier b rank worker curPipe t).2.2.vtGlobal := by
  have hwait := wf_wait h ht rank worker
  unfold pollBarrier
  rcases hr : b.wait rank worker t with ⟨_ | u, b'⟩
  · rw [hr] at hwait
    exact ⟨.refl ht, hwait.2⟩
  · rw [hr] at hwait
    exact ⟨((Later.refl ht).merge (hwait.1 u rfl)).tick _, hwait.2⟩

end Barrier

end RaceAlg

/-! ## The check between devices -/

lemma update2_apply {α : Type*} (f : ℕ → ℕ → α) (i j : ℕ) (x : α) (i' j' : ℕ) :
    update2 f i j x i' j' = if i' = i ∧ j' = j then x else f i' j' := by
  rw [update2, Function.update_apply]
  by_cases hi : i' = i
  · rw [if_pos hi, Function.update_apply, hi]
    simp only [true_and]
  · rw [if_neg hi, if_neg fun h => hi h.1]

namespace CrossNpuRaceAlg

/-- All clocks are well formed. -/
structure ClocksWf (a : CrossNpuRaceAlg) : Prop where
  vc : ∀ p, Wf (a.vc p)
  sync : ∀ i key, ∀ u ∈ a.syncDB i key, Wf u
  cont : ∀ d k, ContWf (a.container d k)
  core : ∀ d k conf, Wf (a.crossCoreBarrier d k conf).vtGlobal
  npu : ∀ conf, Wf (a.crossNpuBarrier conf).vtGlobal
  kernel : ∀ d k, Wf (a.kernelBarrier d k).vtGlobal
  signal : ∀ addr x, a.signalDatabase addr = some x → Wf x.2

variable {a : CrossNpuRaceAlg}

lemma clocksWf_init (env : NpuEnv) : ClocksWf (init env) := by
  refine ⟨fun _ => wf_default, fun _ _ _ h => (by cases h), fun d k => ?_, fun _ _ _ => wf_default,
    fun _ => wf_default, fun _ _ => wf_default, fun _ _ h => by cases h⟩
  have hempty : ContWf {} := ⟨fun _ _ => infoWf_empty, fun _ _ _ h => (by cases h),
    fun _ _ h => by cases h⟩
  simp only [init, NpuEnv.container]
  split
  · exact hempty
  · split
    · exact hempty
    · exact contWf_init _ _

lemma clocksWf_cache (h : ClocksWf a) (event : SanEvent) : ClocksWf (cache a event) := by
  unfold cache
  split
  · exact h
  · exact ⟨h.vc, h.sync, h.cont, h.core, h.npu, h.kernel, h.signal⟩

def Grows (a a' : CrossNpuRaceAlg) : Prop := ClocksWf a' ∧ AllLater a.vc a'.vc

lemma ClocksWf.grows (h : ClocksWf a) : Grows a a := ⟨h, .refl h.vc⟩

lemma ClocksWf.setClock (h : ClocksWf a) {p : ℕ} {t : VectorTime} (ht : Later (a.vc p) t) :
    Grows a (a.setClock p t) := by
  have hlater := AllLater.update h.vc ht
  exact ⟨{ h with vc := fun q => (hlater q).wf }, hlater⟩

lemma ClocksWf.container (h : ClocksWf a) {d k : ℕ} {c : Container} (hc : ContWf c) :
    ∀ d' k', ContWf (update2 a.container d k c d' k') := by
  intro d' k'
  rw [update2_apply]
  split_ifs
  · exact hc
  · exact h.cont d' k'

lemma dispatch_grows (h : ClocksWf a) (env : NpuEnv) (c : EventContainer) (event : SanEvent)
    (htime : ∀ t, event.info = .time (some t) → Wf t) : Grows a (a.dispatch env c event).2 := by
  unfold dispatch
  cases hinfo : event.info with
  | sanitizerControl info =>
    cases info with
    | finish => exact h.grows
    | kernelFinish =>
      obtain ⟨hlater, hwf⟩ := RaceAlg.pollBarrier_later (h.kernel event.loc.deviceIdx
        event.loc.kernelIdx) (h.vc c.getQueIndex) (env.totalBlockNum * pipeSize)
        (getEventExpandBlockIndexByLoc event.loc, event.pipe) c.getQueIndex
      obtain ⟨hw, hg⟩ := h.setClock hlater
      refine ⟨{ hw with kernel := fun d k => ?_ }, hg⟩
      simp only [processKernelFinish, update2_apply]
      split_ifs
      · exact hwf
      · exact h.kernel d k
  | sync info =>
    obtain ⟨hlater, hwf⟩ := RaceAlg.syncFlag_later (h.sync _) (h.vc _) _ info
    obtain ⟨hw, hg⟩ := h.setClock hlater
    refine ⟨{ hw with sync := fun i key u hu => ?_ }, hg⟩
    simp only [Function.update_apply] at hu
    split_ifs at hu
    · exact hwf key u hu
    · exact h.sync i key u hu
  | mem info =>
    unfold processMemEvent
    dsimp only
    split_ifs
    · obtain ⟨hw, hg⟩ := h.setClock ((Later.refl (h.vc c.getQueIndex)).tick c.getQueIndex)
      exact ⟨⟨hw.vc, hw.sync, hw.cont, hw.core, hw.npu, hw.kernel, hw.signal⟩, hg⟩
    · exact h.grows
  | time info =>
    refine h.setClock (RaceAlg.timeEvent_later (fun u hu => ?_) (h.vc _) _)
    exact htime u (by rw [hinfo, hu])
  | crossCoreSync info =>
    dsimp only
    split
    · exact h.grows
    · obtain ⟨hlater, hwf⟩ := RaceAlg.blockSync_later (h.cont event.loc.deviceIdx
        event.loc.kernelIdx) (h.vc c.getQueIndex) _ c.getQueIndex event info
      obtain ⟨hw, hg⟩ := h.setClock hlater
      exact ⟨{ hw with cont := h.container hwf }, hg⟩
  | crossCoreSoftSync info =>
    dsimp only
    split
    · exact h.grows
    · obtain ⟨hlater, hwf⟩ := RaceAlg.blockSoftSync_later (h.cont event.loc.deviceIdx
        event.loc.kernelIdx) h.vc _ c.getQueIndex info
      exact ⟨{ h with vc := fun p => (hlater p).wf, cont := h.container hwf }, hlater⟩
  | mstxCrossSync info =>
    obtain ⟨hlater, hwf⟩ := RaceAlg.mstxCrossSync_later (h.cont event.loc.deviceIdx
      event.loc.kernelIdx) (h.vc c.getQueIndex) (a.mstxSetCrossMap _ _) c.getQueIndex info
    obtain ⟨hw, hg⟩ := h.setClock hlater
    exact ⟨⟨hw.vc, hw.sync, h.container hwf, hw.core, hw.npu, hw.kernel, hw.signal⟩, hg⟩
  | mstxSignalSet info =>
    refine ⟨{ h with signal := fun addr x hx => ?_ }, .refl h.vc⟩
    simp only [SignalDatabase.set, Function.update_apply] at hx
    split_ifs at hx
    · rw [← Option.some_inj.1 hx]
      exact h.vc _
    · exact h.signal addr x hx
  | mstxSignalWait info =>
    exact h.setClock (RaceAlg.signalWait_later h.signal (h.vc _) _ info)
  | mstxCrossCoreBarrier info =>
    obtain ⟨hlater, hwf⟩ := RaceAlg.pollBarrier_later (h.core event.loc.deviceIdx
      event.loc.kernelIdx (PipelineReplayer.coreBarrierConf info)) (h.vc c.getQueIndex)
      (PipelineReplayer.coreBarrierConf info).usedCoreNum event.loc.coreId c.getQueIndex
    obtain ⟨hw, hg⟩ := h.setClock hlater
    refine ⟨{ hw with core := fun d k conf => ?_ }, hg⟩
    simp only [update2_apply]
    split_ifs
    · rw [Function.update_apply]
      split_ifs
      · exact hwf
      · exact h.core _ _ conf
    · exact h.core d k conf
  | mstxCrossNpuBarrier info =>
    obtain ⟨hlater, hwf⟩ := RaceAlg.pollBarrier_later (h.npu ⟨info.isAIVOnly, info.usedDeviceNum,
      info.usedCoreNum⟩) (h.vc c.getQueIndex) (info.usedDeviceNum * info.usedCoreNum % 2 ^ 32)
      (event.loc.deviceId, event.loc.coreId) c.getQueIndex
    obtain ⟨hw, hg⟩ := h.setClock hlater
    refine ⟨{ hw with npu := fun conf => ?_ }, hg⟩
    simp only [Function.update_apply]
    split_ifs
    · exact hwf
    · exact h.npu conf
  | _ => exact h.grows

end CrossNpuRaceAlg

end MsSanitizer
