import MsSanitizer.CrossCoreRange
import MsSanitizer.Rendezvous
import MsSanitizer.VectorTimeDense

/-!
# Rounds of the synchronisation in mode 0

The container as a machine of sets and waits: its sources and its sinks are pairs of a block and
a flag. In mode 0 the classes are the vector blocks and the cube blocks, for each flag. A run of
calls on a container simulates the machine, so it keeps the rounds of the classes.

The simulation is stated for any sets of participants that are as many as the container counts,
so that it also serves kernels in which some blocks of the container never set.
-/

namespace MsSanitizer.CrossCoreSync

open RecordDefs EventDef VectorTime Rendezvous

/-! ## Calls and their results -/

/-- A call on block `b` and flag `f`. -/
inductive Op
  | set (b f : ℕ) (t : VectorTime)
  | wait (b f : ℕ) (t : VectorTime)

abbrev CoreLabel := Label (ℕ × ℕ) (ℕ × ℕ) VectorTime

/-- A call, with two vector cores in a group. In mode 4 a wait is one inside the group. -/
def Op.exec (mode : ℕ) (c : Container) : Op → Option (CoreLabel × Container)
  | .set b f t => (c.setBlockSyncInfo f mode b t 2 {} 0).map fun c => (.set (b, f) t, c)
  | .wait b f t =>
    (if mode = 4 then c.getIntraBlockSyncInfo f b t else c.getBlockSyncInfo f b t).map
      fun r => (.wait (b, f) r.1, r.2)

/-- The calls one after the other: the operations with their results, and the container. -/
def exec (mode : ℕ) (c : Container) (ops : List Op) : Option (List CoreLabel × Container) :=
  ops.foldlM (fun p op => (op.exec mode p.2).map fun r => (p.1 ++ [r.1], r.2)) ([], c)

/-- The call is on a block and a flag of the container, with a clock that the sanitizer built. -/
def Op.Fits (n : ℕ) : Op → Prop
  | .set b f t => b < n ∧ f < maxFlagId ∧ Wf t
  | .wait b f t => b < n ∧ f < maxFlagId ∧ Wf t

/-! ## The machine of a container -/

section Sim

variable (setQ waitQ : BlockSyncInfo → List VectorTime)

/-- The machine that a container stands for, by the queues that are in use. -/
def abs (c : Container) : State (ℕ × ℕ) (ℕ × ℕ) VectorTime where
  pending p := setQ (c.blockSyncEvent p.1 p.2)
  tokens p := waitQ (c.blockSyncEvent p.1 p.2)

def TimesWf (c : Container) : Prop :=
  ∀ b f, (∀ t ∈ setQ (c.blockSyncEvent b f), Wf t) ∧ ∀ t ∈ waitQ (c.blockSyncEvent b f), Wf t

variable {setQ waitQ} {c : Container} {b f : ℕ} {x : BlockSyncInfo}

lemma abs_put : abs setQ waitQ (c.put b f x) =
    { pending := Function.update (abs setQ waitQ c).pending (b, f) (setQ x)
      tokens := Function.update (abs setQ waitQ c).tokens (b, f) (waitQ x) } := by
  simp only [abs, Container.put, State.mk.injEq]
  refine ⟨funext fun p => ?_, funext fun p => ?_⟩ <;>
  · by_cases hp : p = (b, f)
    · rw [hp, Function.update_self, if_pos ⟨rfl, rfl⟩]
    · rw [Function.update_of_ne hp, if_neg fun h => hp (Prod.ext h.1 h.2)]

lemma TimesWf.put (h : TimesWf setQ waitQ c) (hs : ∀ t ∈ setQ x, Wf t)
    (hw : ∀ t ∈ waitQ x, Wf t) : TimesWf setQ waitQ (c.put b f x) := by
  intro b' f'
  rw [Container.put_blockSyncEvent]
  split_ifs
  · exact ⟨hs, hw⟩
  · exact h b' f'

def waitOn (waitQ : BlockSyncInfo → List VectorTime) (pop : BlockSyncInfo → BlockSyncInfo)
    (c : Container) (b f : ℕ) (t : VectorTime) : Option VectorTime × Container :=
  match waitQ (c.blockSyncEvent b f) with
  | [] => (none, c)
  | v :: _ => (some (updateVectorTime v t), c.put b f (pop (c.blockSyncEvent b f)))

variable {κ : Type*} [DecidableEq κ] {N : Net (ℕ × ℕ) (ℕ × ℕ) κ}

lemma step_waitOn (h : TimesWf setQ waitQ c) (pop : BlockSyncInfo → BlockSyncInfo)
    (hset : ∀ x, setQ (pop x) = setQ x) (hwait : ∀ x, waitQ (pop x) = (waitQ x).tail)
    {t : VectorTime} (ht : Wf t) :
    Step N (abs setQ waitQ c) (.wait (b, f) (waitOn waitQ pop c b f t).1)
        (abs setQ waitQ (waitOn waitQ pop c b f t).2) ∧
      TimesWf setQ waitQ (waitOn waitQ pop c b f t).2 := by
  rw [waitOn]
  cases hq : waitQ (c.blockSyncEvent b f) with
  | nil => exact ⟨.fails hq, h⟩
  | cons v rest =>
    have hv : Wf v := (h b f).2 v (by rw [hq]; exact List.mem_cons_self ..)
    refine ⟨?_, h.put (fun t' ht' => ?_) fun t' ht' => ?_⟩
    · have heq : abs setQ waitQ (c.put b f (pop (c.blockSyncEvent b f))) =
          { abs setQ waitQ c with
            tokens := Function.update (abs setQ waitQ c).tokens (b, f) rest } := by
        rw [abs_put, hset, hwait, hq, List.tail_cons]
        congr 1
        exact Function.update_eq_self _ _
      rw [heq]
      exact .passes hq (hv.le_updateVectorTime_left ht)
    · rw [hset] at ht'
      exact (h b f).1 t' ht'
    · rw [hwait] at ht'
      exact (h b f).2 t' (List.mem_of_mem_tail ht')

lemma getBlockSyncInfo_eq (hb : b < c.maxBlockNum) (hf : f < maxFlagId) (t : VectorTime) :
    c.getBlockSyncInfo f b t = some (waitOn (·.waitVec) .popWait c b f t) := by
  rw [Container.getBlockSyncInfo, if_neg (by omega), Container.info_eq hb hf,
    Container.modify_eq hb hf, waitOn, Option.bind_eq_bind, Option.bind_some]
  cases (c.blockSyncEvent b f).waitVec <;> rfl

/-- A whole run of calls, from what a single call does: `G` is kept, and every call with `V` is a
step of the machine. -/
lemma exec_run {mode : ℕ} {G : Container → Prop} {V : Op → Prop}
    (hstep : ∀ c op, G c → V op → ∃ l c', op.exec mode c = some (l, c') ∧
      Step N (abs setQ waitQ c) l (abs setQ waitQ c') ∧ G c')
    (hg : G c) (h0 : abs setQ waitQ c = .start) {ops : List Op} (hops : ∀ op ∈ ops, V op) :
    ∃ tr c', exec mode c ops = some (tr, c') ∧ Run N tr (abs setQ waitQ c') ∧ G c' := by
  induction ops using List.reverseRecOn with
  | nil => exact ⟨[], c, rfl, h0 ▸ .start, hg⟩
  | append_singleton ops op ih =>
    obtain ⟨tr, c1, hexec, hrun, hg1⟩ := ih fun o ho => hops o (by simp [ho])
    obtain ⟨l, c2, hop, hs, hg2⟩ := hstep c1 op hg1 (hops op (by simp))
    refine ⟨tr ++ [l], c2, ?_, hrun.step hs, hg2⟩
    rw [exec, List.foldlM_append, ← exec, hexec, Option.bind_eq_bind, Option.bind_some,
      List.foldlM_cons, hop]
    rfl

end Sim

/-! ## Mode 0 -/

/-- The number of sets that a round needs, by what it depends on. -/
def needed0 (n : ℕ) (kernelType : KernelType) (vecSubBlockDim : ℕ) (cube : Bool) : ℕ :=
  if cube then if kernelType = .mix then n / c220MixSubBlockDim else n
  else if kernelType = .mix then n / c220MixSubBlockDim * vecSubBlockDim else n

lemma needed_eq (c : Container) (cube : Bool) :
    c.needed cube = needed0 c.maxBlockNum c.kernelType c.vecSubBlockDim cube := rfl

/-- The blocks that set in mode 0, for each class that is in use: as many as the container
counts. A cube kernel has no such blocks: its loops pass over most of its blocks. -/
structure Participants (n : ℕ) (kernelType : KernelType) (vecSubBlockDim : ℕ) where
  of : Bool → Finset ℕ
  mem : ∀ {cube b}, b ∈ of cube → b < n ∧ isAIC b kernelType = cube
  card : ∀ {cube}, (of cube).Nonempty →
    (of cube).card = needed0 n kernelType vecSubBlockDim cube
  notCube : kernelType ≠ .aicube

section Mode0

variable {n d : ℕ} {kt : KernelType} (P : Participants n kt d)

/-- The classes of mode 0: the blocks of a kind, for a flag. -/
def net0 : Net (ℕ × ℕ) (ℕ × ℕ) (Option (Bool × ℕ)) where
  cls p := if p.1 < n then some (isAIC p.1 kt, p.2) else none
  sinkCls p := if p.1 < n then some (isAIC p.1 kt, p.2) else none
  sources
    | none => ∅
    | some (cube, f) => (P.of cube).image fun b => (b, f)
  cls_of_mem := by
    intro k i hi
    match k with
    | none => exact absurd hi (Finset.notMem_empty i)
    | some (cube, f) =>
      obtain ⟨b, hb, rfl⟩ := Finset.mem_image.1 hi
      obtain ⟨hlt, hcube⟩ := P.mem hb
      rw [if_pos hlt, hcube]

lemma mem_net0_sources {cube : Bool} {f : ℕ} {p : ℕ × ℕ} :
    p ∈ (net0 P).sources (some (cube, f)) ↔ p.1 ∈ P.of cube ∧ p.2 = f := by
  refine Finset.mem_image.trans ⟨?_, fun h => ⟨p.1, h.1, Prod.ext rfl h.2.symm⟩⟩
  rintro ⟨b, hb, rfl⟩
  exact ⟨hb, rfl⟩

/-- The container between two calls in mode 0. -/
structure Good0 (c : Container) : Prop where
  blocks : c.maxBlockNum = n
  kernel : c.kernelType = kt
  vecSub : c.vecSubBlockDim = d
  times : TimesWf (·.setVec0) (·.waitVec) c
  /-- Only the participants have set. -/
  only : ∀ b f, b < n → b ∉ P.of (isAIC b kt) → (c.blockSyncEvent b f).setVec0 = []

variable {P} {c : Container} {b f : ℕ} {t : VectorTime}

lemma Good0.needed (h : Good0 P c) {cube : Bool} (hne : (P.of cube).Nonempty) :
    c.needed cube = (P.of cube).card := by
  rw [P.card hne, needed_eq, h.blocks, h.kernel, h.vecSub]

lemma Good0.mem_classBlocks (h : Good0 P c) {i : ℕ} :
    i ∈ c.classBlocks (isAIC b kt) ↔ i < n ∧ isAIC i kt = isAIC b kt := by
  rw [Container.classBlocks, List.mem_filter, List.mem_range, h.blocks, h.kernel]
  refine and_congr_right fun _ => ?_
  have hcube := P.notCube
  cases kt <;> simp_all [isAIC]
  cases hb : b % c220MixSubBlockDim == c220VecSubBlockDim <;> simp_all

/-- The count of a round is the count of the participants that have set. -/
lemma Good0.waiting_eq (h : Good0 P c) :
    c.waiting f (isAIC b kt) = ((P.of (isAIC b kt)).filter fun i =>
      (c.blockSyncEvent i f).setVec0 ≠ []).card := by
  rw [Container.waiting, List.countP_eq_length_filter, ← List.toFinset_card_of_nodup
    ((c.classBlocks_nodup _).filter _)]
  congr 1
  ext i
  rw [List.mem_toFinset, List.mem_filter, h.mem_classBlocks, Finset.mem_filter]
  constructor
  · rintro ⟨⟨hlt, hcls⟩, hset⟩
    have hne : (c.blockSyncEvent i f).setVec0 ≠ [] := by simpa using hset
    refine ⟨?_, hne⟩
    by_contra hi
    rw [← hcls] at hi
    exact hne (h.only i f hlt hi)
  · rintro ⟨hi, hset⟩
    exact ⟨P.mem hi, by simp [hset]⟩

/-- The time of a round is at least the times of its sets. -/
lemma joinFront_le (hwf : ∀ i, ∀ s ∈ (c.blockSyncEvent i f).setVec0, Wf s) (blocks : List ℕ) :
    ∀ vt, Wf vt → Wf (blocks.foldl (c.joinFront f) vt) ∧ vt ≤ blocks.foldl (c.joinFront f) vt ∧
      ∀ i ∈ blocks, ∀ x rest, (c.blockSyncEvent i f).setVec0 = x :: rest →
        x ≤ blocks.foldl (c.joinFront f) vt := by
  induction blocks with
  | nil => exact fun vt hvt => ⟨hvt, le_rfl, fun i hi => absurd hi (List.not_mem_nil)⟩
  | cons i rest ih =>
    intro vt hvt
    have hnext : Wf (c.joinFront f vt i) ∧ vt ≤ c.joinFront f vt i ∧
        ∀ x ts, (c.blockSyncEvent i f).setVec0 = x :: ts → x ≤ c.joinFront f vt i := by
      rw [Container.joinFront]
      cases hset : (c.blockSyncEvent i f).setVec0 with
      | nil => exact ⟨hvt, le_rfl, fun x ts h => by cases h⟩
      | cons x ts =>
        have hx : Wf x := hwf i x (by rw [hset]; exact List.mem_cons_self ..)
        refine ⟨(hx.updateVectorTime hvt).1, hx.le_updateVectorTime_right hvt, ?_⟩
        rintro y ts' h
        cases h
        exact hx.le_updateVectorTime_left hvt
    obtain ⟨hwf1, hle1, hfront⟩ := hnext
    obtain ⟨hwf2, hle2, hrest⟩ := ih _ hwf1
    refine ⟨hwf2, hle1.trans hle2, fun j hj x ts hx => ?_⟩
    rcases List.mem_cons.1 hj with rfl | hj
    · exact (hfront x ts hx).trans hle2
    · exact hrest j hj x ts hx

lemma Good0.push (h : Good0 P c) (hb : b ∈ P.of (isAIC b kt)) (ht : Wf t) :
    Good0 P (c.put b f ((c.blockSyncEvent b f).pushSet0 t)) ∧
      abs (·.setVec0) (·.waitVec) (c.put b f ((c.blockSyncEvent b f).pushSet0 t)) =
        (abs (·.setVec0) (·.waitVec) c).push (b, f) t := by
  refine ⟨⟨h.blocks, h.kernel, h.vecSub, h.times.put (fun s hs => ?_) (h.times b f).2, ?_⟩, ?_⟩
  · rcases List.mem_append.1 hs with hs | hs
    · exact (h.times b f).1 s hs
    · rw [List.mem_singleton.1 hs]
      exact ht
  · intro b' f' hlt hnot
    rw [Container.put_blockSyncEvent, if_neg]
    · exact h.only b' f' hlt hnot
    · rintro ⟨rfl, -⟩
      exact hnot hb
  · rw [abs_put, State.push]
    congr 1
    exact Function.update_eq_self _ _

lemma Good0.released (h : Good0 P c)
    (hall : ∀ i ∈ P.of (isAIC b kt), (c.blockSyncEvent i f).setVec0 ≠ []) :
    ∃ v, (∀ j ∈ (net0 P).sources (some (isAIC b kt, f)), ∃ x rest,
        (abs (·.setVec0) (·.waitVec) c).pending j = x :: rest ∧ x ≤ v) ∧
      abs (·.setVec0) (·.waitVec) (c.released f (isAIC b kt)) =
        (abs (·.setVec0) (·.waitVec) c).release (net0 P) (some (isAIC b kt, f)) v ∧
      Good0 P (c.released f (isAIC b kt)) := by
  obtain ⟨hwf, -, hle⟩ := joinFront_le (f := f) (fun i s hs => (h.times i f).1 s hs)
    (c.classBlocks (isAIC b kt)) {} wf_default
  refine ⟨(c.classBlocks (isAIC b kt)).foldl (c.joinFront f) {}, fun j hj => ?_, ?_, ?_⟩
  · obtain ⟨hmem, rfl⟩ := (mem_net0_sources P).1 hj
    obtain ⟨x, rest, hx⟩ := List.exists_cons_of_ne_nil (hall j.1 hmem)
    exact ⟨x, rest, hx, hle j.1 (h.mem_classBlocks.2 (P.mem hmem)) x rest hx⟩
  · simp only [abs, State.release, State.mk.injEq, Container.released, Container.mapFlag]
    refine ⟨funext fun p => ?_, funext fun p => ?_⟩
    · by_cases hp : p.1 ∈ c.classBlocks (isAIC b kt) ∧ p.2 = f
      · rw [if_pos hp]
        split_ifs with hsrc
        · rfl
        · -- a block of the class that takes no part has no set to give
          obtain ⟨hlt, hcls⟩ := h.mem_classBlocks.1 hp.1
          have hnot : p.1 ∉ P.of (isAIC p.1 kt) := fun hm =>
            hsrc ((mem_net0_sources P).2 ⟨hcls ▸ hm, hp.2⟩)
          simp only [BlockSyncInfo.popSet0, BlockSyncInfo.pushWait, h.only p.1 p.2 hlt hnot,
            List.tail_nil]
      · rw [if_neg hp, if_neg]
        intro hsrc
        obtain ⟨hmem, hf⟩ := (mem_net0_sources P).1 hsrc
        exact hp ⟨h.mem_classBlocks.2 (P.mem hmem), hf⟩
    · by_cases hp : p.1 ∈ c.classBlocks (isAIC b kt) ∧ p.2 = f
      · obtain ⟨hlt, hcls⟩ := h.mem_classBlocks.1 hp.1
        rw [if_pos hp, if_pos]
        · rfl
        · simp only [net0, hlt, if_true, hcls, hp.2]
      · rw [if_neg hp, if_neg]
        intro hcls
        simp only [net0] at hcls
        by_cases hlt : p.1 < n
        · rw [if_pos hlt, Option.some_inj, Prod.mk.injEq] at hcls
          exact hp ⟨h.mem_classBlocks.2 ⟨hlt, hcls.1⟩, hcls.2⟩
        · rw [if_neg hlt] at hcls
          cases hcls
  · refine ⟨h.blocks, h.kernel, h.vecSub, fun b' f' => ?_, fun b' f' hlt hnot => ?_⟩
    · simp only [Container.released, Container.mapFlag]
      split_ifs
      · refine ⟨fun s hs => (h.times b' f').1 s (List.mem_of_mem_tail hs), fun s hs => ?_⟩
        rcases List.mem_append.1 hs with hs | hs
        · exact (h.times b' f').2 s hs
        · rw [List.mem_singleton.1 hs]
          exact hwf
      · exact h.times b' f'
    · simp only [Container.released, Container.mapFlag]
      split_ifs
      · simp only [BlockSyncInfo.popSet0, BlockSyncInfo.pushWait, h.only b' f' hlt hnot,
          List.tail_nil]
      · exact h.only b' f' hlt hnot

lemma Good0.step_set (h : Good0 P c) (hb : b ∈ P.of (isAIC b kt)) (hf : f < maxFlagId)
    (ht : Wf t) (dim : ℕ) (loc : LocInfo) (serialNo : ℕ) :
    ∃ c', c.setBlockSyncInfo f 0 b t dim loc serialNo = some c' ∧
      Step (net0 P) (abs (·.setVec0) (·.waitVec) c) (.set (b, f) t)
        (abs (·.setVec0) (·.waitVec) c') ∧ Good0 P c' := by
  have hlt := (P.mem hb).1
  have hlt' : b < c.maxBlockNum := by rw [h.blocks]; exact hlt
  have hcls : (net0 P).cls (b, f) = some (isAIC b kt, f) := if_pos hlt
  have hsrc : (b, f) ∈ (net0 P).sources ((net0 P).cls (b, f)) := by
    rw [hcls, mem_net0_sources]
    exact ⟨hb, rfl⟩
  obtain ⟨hgood, habs⟩ := h.push (f := f) hb ht
  have hset : c.setBlockSyncInfo f 0 b t dim loc serialNo = c.setMode0SyncInfo f b t := by
    rw [Container.setBlockSyncInfo, if_neg (by omega), if_neg (by omega)]
  rw [hset, Container.setMode0SyncInfo_eq hlt' hf]
  simp only [Container.put_kernelType, h.kernel, hgood.waiting_eq, hgood.needed ⟨b, hb⟩]
  refine ⟨_, rfl, ?_⟩
  by_cases hall : ∀ i ∈ P.of (isAIC b kt),
      ((c.put b f ((c.blockSyncEvent b f).pushSet0 t)).blockSyncEvent i f).setVec0 ≠ []
  · rw [if_pos (by rw [Finset.filter_true_of_mem hall])]
    obtain ⟨v, hfront, heq, hrel⟩ := hgood.released hall
    rw [habs] at hfront heq
    rw [← hcls] at hfront heq
    refine ⟨?_, hrel⟩
    rw [heq]
    exact .completes hsrc hfront
  · have hlt : ¬ ((P.of (isAIC b kt)).filter fun i =>
        ((c.put b f ((c.blockSyncEvent b f).pushSet0 t)).blockSyncEvent i f).setVec0 ≠ []).card =
          (P.of (isAIC b kt)).card := by
      rw [Finset.card_filter_eq_iff]
      exact hall
    rw [if_neg hlt, habs]
    refine ⟨?_, hgood⟩
    push Not at hall
    obtain ⟨i, hi, hnil⟩ := hall
    refine .gathers hsrc (j := (i, f)) ?_ ?_
    · rw [hcls, mem_net0_sources]
      exact ⟨hi, rfl⟩
    · rw [← habs]
      exact hnil

lemma Good0.step_wait (h : Good0 P c) (hb : b < n) (hf : f < maxFlagId) (ht : Wf t) :
    ∃ r c', c.getBlockSyncInfo f b t = some (r, c') ∧
      Step (net0 P) (abs (·.setVec0) (·.waitVec) c) (.wait (b, f) r)
        (abs (·.setVec0) (·.waitVec) c') ∧ Good0 P c' := by
  obtain ⟨hs, htimes⟩ := step_waitOn (N := net0 P) (b := b) (f := f) h.times
    .popWait (fun x => rfl) (fun x => rfl) ht
  refine ⟨_, _, getBlockSyncInfo_eq (by rw [h.blocks]; exact hb) hf t, hs, ?_⟩
  unfold waitOn at htimes
  split
  · exact h
  · rename_i hq
    rw [hq] at htimes
    refine ⟨h.blocks, h.kernel, h.vecSub, htimes, fun b' f' hlt hnot => ?_⟩
    rw [Container.put_blockSyncEvent]
    split_ifs with heq
    · rw [heq.1] at hlt hnot
      exact h.only b f hlt hnot
    · exact h.only b' f' hlt hnot

/-- The calls of mode 0: sets by participants, waits on any block. -/
def Op.Valid0 (P : Participants n kt d) : Op → Prop
  | .set b f t => b ∈ P.of (isAIC b kt) ∧ f < maxFlagId ∧ Wf t
  | .wait b f t => b < n ∧ f < maxFlagId ∧ Wf t

lemma good0_init (P : Participants n kt d) :
    Good0 P ((Container.init n kt).setVecSubBlockDim d) :=
  ⟨rfl, rfl, rfl, fun _ _ => ⟨by simp [Container.init, Container.setVecSubBlockDim],
    by simp [Container.init, Container.setVecSubBlockDim]⟩, fun _ _ _ _ => rfl⟩

lemma exec_mode0 (P : Participants n kt d) {ops : List Op} (hops : ∀ op ∈ ops, op.Valid0 P) :
    ∃ tr c', exec 0 ((Container.init n kt).setVecSubBlockDim d) ops = some (tr, c') ∧
      Run (net0 P) tr (abs (·.setVec0) (·.waitVec) c') ∧ Good0 P c' := by
  refine exec_run (G := Good0 P) ?_ (good0_init P) rfl hops
  rintro c (⟨b, f, t⟩ | ⟨b, f, t⟩) hg ⟨hb, hf, ht⟩
  · obtain ⟨c', hc', hs, hg'⟩ := hg.step_set hb hf ht 2 {} 0
    refine ⟨.set (b, f) t, c', ?_, hs, hg'⟩
    rw [Op.exec, hc', Option.map_some]
  · obtain ⟨r, c', hc', hs, hg'⟩ := hg.step_wait hb hf ht
    refine ⟨.wait (b, f) r, c', ?_, hs, hg'⟩
    rw [Op.exec, if_neg (by decide), hc', Option.map_some]

end Mode0

/-! ## Kernels in which all blocks take part -/

/-- A vector kernel with a number of blocks, or a mix kernel with a number of groups of two
vector blocks and a cube block. -/
inductive Kernel
  | vector (blockDim : ℕ)
  | mix (blockDim : ℕ)

namespace Kernel

def kernelType : Kernel → KernelType
  | vector _ => .aivec
  | mix _ => .mix

/-- `totalBlockNum` of a kernel on a device with sub-blocks. -/
def blockNum : Kernel → ℕ
  | vector n => n
  | mix n => n * c220MixSubBlockDim

def container (k : Kernel) : Container := .init k.blockNum k.kernelType

def blocksOf (k : Kernel) (cube : Bool) : Finset ℕ :=
  (Finset.range k.blockNum).filter fun b => isAIC b k.kernelType = cube

/-- The cores of the class of a core, with its flag. -/
def classCores (k : Kernel) (w : ℕ × ℕ) : Finset (ℕ × ℕ) :=
  if w.1 < k.blockNum then (k.blocksOf (isAIC w.1 k.kernelType)).image fun b => (b, w.2) else ∅

lemma card_blocksOf_mix (n : ℕ) :
    ((mix n).blocksOf true).card = n ∧ ((mix n).blocksOf false).card = n * 2 := by
  have hcube : ((mix n).blocksOf true).card = n := by
    have himage : (mix n).blocksOf true = (Finset.range n).image fun g => 3 * g + 2 := by
      ext b
      simp only [blocksOf, kernelType, blockNum, isAIC, c220MixSubBlockDim, c220VecSubBlockDim,
        Finset.mem_filter, Finset.mem_range, Finset.mem_image, beq_iff_eq]
      exact ⟨fun h => ⟨b / 3, by omega, by omega⟩, by rintro ⟨g, hg, rfl⟩; omega⟩
    rw [himage, Finset.card_image_of_injective _ fun a b h => by simpa using h, Finset.card_range]
  refine ⟨hcube, ?_⟩
  have hsum := Finset.card_filter_add_card_filter_not (s := Finset.range (mix n).blockNum)
    (p := fun b => isAIC b (mix n).kernelType = true)
  rw [Finset.card_range, ← blocksOf, hcube] at hsum
  have hfalse : (Finset.range (mix n).blockNum).filter
      (fun b => ¬ isAIC b (mix n).kernelType = true) = (mix n).blocksOf false := by
    simp only [blocksOf, Bool.not_eq_true]
  rw [hfalse, blockNum, c220MixSubBlockDim, c220VecSubBlockDim] at hsum
  omega

def participants (k : Kernel) : Participants k.blockNum k.kernelType c220VecSubBlockDim where
  of := k.blocksOf
  mem := fun hb => by
    rw [blocksOf, Finset.mem_filter, Finset.mem_range] at hb
    exact hb
  card := by
    intro cube hne
    cases k with
    | vector n =>
      cases cube with
      | true =>
        obtain ⟨b, hb⟩ := hne
        rw [blocksOf, Finset.mem_filter] at hb
        cases hb.2
      | false =>
        have hall : (vector n).blocksOf false = Finset.range n :=
          Finset.filter_true_of_mem fun _ _ => rfl
        rw [hall, Finset.card_range]
        rfl
    | mix n =>
      have hdiv : (mix n).blockNum / c220MixSubBlockDim = n := by
        simp [blockNum, c220MixSubBlockDim, c220VecSubBlockDim]
      have hmix : (mix n).kernelType = .mix := rfl
      cases cube with
      | true => rw [(card_blocksOf_mix n).1, needed0, if_pos rfl, if_pos hmix, hdiv]
      | false =>
        rw [(card_blocksOf_mix n).2, needed0, if_neg Bool.false_ne_true, if_pos hmix, hdiv,
          c220VecSubBlockDim]
  notCube := by cases k <;> simp [kernelType]

lemma srcs_participants (k : Kernel) (w : ℕ × ℕ) :
    (net0 k.participants).srcs w = k.classCores w := by
  rw [Net.srcs, classCores]
  by_cases hw : w.1 < k.blockNum
  · rw [if_pos hw]
    simp only [net0, if_pos hw]
    rfl
  · rw [if_neg hw]
    simp only [net0, if_neg hw]

end Kernel

/-- **Mode 0 keeps its rounds.** For a vector kernel or a mix kernel with two vector cores in each
group, and any sequence of sets and waits in mode 0: a wait of a core succeeds exactly when the
core has not used up the rounds in which every core of its class has set the flag, and then ends
with a clock that is at least those of the sets of that round; so a core never completes more
waits than there are complete rounds. The sets of one class do not count for the other. -/
theorem mode0_keeps_rounds (k : Kernel) (ops : List Op) (hops : ∀ op ∈ ops, op.Fits k.blockNum) :
    ∃ tr c, exec 0 k.container ops = some (tr, c) ∧ KeepsRounds k.classCores tr ∧
      ∀ w, (waits w tr).length ≤ rounds (k.classCores w) tr ∧
        ∀ i ∈ k.classCores w, isAIC i.1 k.kernelType = isAIC w.1 k.kernelType := by
  have hvalid : ∀ op ∈ ops, op.Valid0 k.participants := by
    intro op hop
    have hfits := hops op hop
    cases op with
    | set b f t =>
      refine ⟨?_, hfits.2⟩
      exact Finset.mem_filter.2 ⟨Finset.mem_range.2 hfits.1, rfl⟩
    | wait b f t => exact hfits
  obtain ⟨tr, c, hexec, hrun, -⟩ := exec_mode0 k.participants hvalid
  have hkeeps := hrun.keepsRounds
  have hsrcs : (net0 k.participants).srcs = k.classCores := funext k.srcs_participants
  rw [hsrcs] at hkeeps
  refine ⟨tr, c, hexec, hkeeps, fun w => ⟨hkeeps.waits_le w, fun i hi => ?_⟩⟩
  rw [Kernel.classCores] at hi
  split_ifs at hi with hw
  · obtain ⟨b, hb, rfl⟩ := Finset.mem_image.1 hi
    exact (Finset.mem_filter.1 hb).2
  · exact absurd hi (Finset.notMem_empty i)

theorem mode0_keeps_rounds_two :
    ∃ tr c, exec 0 (Kernel.vector 2).container
        [.wait 0 3 {}, .set 0 3 {}, .wait 0 3 {}, .set 1 3 {}, .wait 0 3 {}] = some (tr, c) ∧
      KeepsRounds (Kernel.vector 2).classCores tr := by
  obtain ⟨tr, c, hexec, hkeeps, -⟩ := mode0_keeps_rounds (.vector 2)
    [.wait 0 3 {}, .set 0 3 {}, .wait 0 3 {}, .set 1 3 {}, .wait 0 3 {}] (by
      simp [Op.Fits, Kernel.blockNum, maxFlagId, wf_default])
  exact ⟨tr, c, hexec, hkeeps⟩

end MsSanitizer.CrossCoreSync
