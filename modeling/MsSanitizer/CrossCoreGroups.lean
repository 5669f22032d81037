import MsSanitizer.CrossCoreRounds

/-!
# Rounds of the synchronisation inside a group

In a mix kernel block `3 * g` and block `3 * g + 1` are the vector cores of group `g`, and block
`3 * g + 2` is its cube core. In mode 1 the two vector cores wait for each other, in mode 2 the
vector cores wait for the cube core and the cube core for both of them, and in mode 4 a flag of a
vector core is paired with a flag of the cube core. Each mode is a net of its own; a run of calls
in one mode simulates its machine.
-/

namespace MsSanitizer.CrossCoreSync

open RecordDefs EventDef VectorTime Rendezvous

/-! ## The changes of a container -/

def Container.change (c : Container) (b f : ℕ) (g : BlockSyncInfo → BlockSyncInfo) : Container :=
  c.put b f (g (c.blockSyncEvent b f))

section Changes

variable {setQ waitQ : BlockSyncInfo → List VectorTime} {c : Container} {b f : ℕ}
  {g : BlockSyncInfo → BlockSyncInfo} {v : VectorTime}

@[simp] lemma Container.change_maxBlockNum : (c.change b f g).maxBlockNum = c.maxBlockNum := rfl

@[simp] lemma Container.change_kernelType : (c.change b f g).kernelType = c.kernelType := rfl

lemma Container.modify_eq_change (hb : b < c.maxBlockNum) (hf : f < maxFlagId) :
    c.modify b f g = some (c.change b f g) := Container.modify_eq hb hf

lemma Container.modify_bind {β : Type} {k : Container → Option β} (hb : b < c.maxBlockNum)
    (hf : f < maxFlagId) : (c.modify b f g).bind k = k (c.change b f g) := by
  rw [modify_eq_change hb hf, Option.bind_some]

lemma abs_change_push (hs : ∀ x, setQ (g x) = setQ x ++ [v]) (hw : ∀ x, waitQ (g x) = waitQ x) :
    abs setQ waitQ (c.change b f g) = (abs setQ waitQ c).push (b, f) v := by
  rw [Container.change, abs_put, hs, hw, State.push]
  congr 1
  exact Function.update_eq_self _ _

lemma abs_change_take (hs : ∀ x, setQ (g x) = (setQ x).tail)
    (hw : ∀ x, waitQ (g x) = waitQ x) :
    abs setQ waitQ (c.change b f g) = (abs setQ waitQ c).take (b, f) := by
  rw [Container.change, abs_put, hs, hw, State.take]
  congr 1
  exact Function.update_eq_self _ _

lemma abs_change_give (hs : ∀ x, setQ (g x) = setQ x)
    (hw : ∀ x, waitQ (g x) = waitQ x ++ [v]) :
    abs setQ waitQ (c.change b f g) = (abs setQ waitQ c).give (b, f) v := by
  rw [Container.change, abs_put, hs, hw, State.give]
  congr 1
  exact Function.update_eq_self _ _

lemma TimesWf.change (h : TimesWf setQ waitQ c)
    (hs : ∀ x, ∀ t ∈ setQ (g x), t ∈ setQ x ∨ Wf t)
    (hw : ∀ x, ∀ t ∈ waitQ (g x), t ∈ waitQ x ∨ Wf t) :
    TimesWf setQ waitQ (c.change b f g) := by
  refine h.put (fun t ht => ?_) fun t ht => ?_
  · exact (hs _ t ht).elim ((h b f).1 t) id
  · exact (hw _ t ht).elim ((h b f).2 t) id

lemma TimesWf.push (h : TimesWf setQ waitQ c) (hs : ∀ x, setQ (g x) = setQ x ++ [v])
    (hw : ∀ x, waitQ (g x) = waitQ x) (hv : Wf v) : TimesWf setQ waitQ (c.change b f g) := by
  refine h.change (fun x t ht => ?_) fun x t ht => Or.inl (hw x ▸ ht)
  rw [hs, List.mem_append, List.mem_singleton] at ht
  rcases ht with ht | rfl
  · exact Or.inl ht
  · exact Or.inr hv

lemma TimesWf.give (h : TimesWf setQ waitQ c) (hs : ∀ x, setQ (g x) = setQ x)
    (hw : ∀ x, waitQ (g x) = waitQ x ++ [v]) (hv : Wf v) :
    TimesWf setQ waitQ (c.change b f g) := by
  refine h.change (fun x t ht => Or.inl (hs x ▸ ht)) fun x t ht => ?_
  rw [hw, List.mem_append, List.mem_singleton] at ht
  rcases ht with ht | rfl
  · exact Or.inl ht
  · exact Or.inr hv

lemma TimesWf.take (h : TimesWf setQ waitQ c) (hs : ∀ x, setQ (g x) = (setQ x).tail)
    (hw : ∀ x, waitQ (g x) = waitQ x) : TimesWf setQ waitQ (c.change b f g) := by
  refine h.change (fun x t ht => Or.inl ?_) fun x t ht => Or.inl (hw x ▸ ht)
  rw [hs] at ht
  exact List.mem_of_mem_tail ht

end Changes

/-! ## A container of a mix kernel in one mode -/

/-- The container between two calls, by the queues of a mode and what it knows of the sets that
wait for their round. -/
structure GoodMix (groups : ℕ) (setQ waitQ : BlockSyncInfo → List VectorTime)
    (Idle : (ℕ × ℕ → List VectorTime) → Prop) (c : Container) : Prop where
  blocks : c.maxBlockNum = groups * 3
  kernel : c.kernelType = .mix
  times : TimesWf setQ waitQ c
  idle : Idle (abs setQ waitQ c).pending

section Mix

variable {groups : ℕ} {setQ waitQ : BlockSyncInfo → List VectorTime}
  {Idle : (ℕ × ℕ → List VectorTime) → Prop} {c : Container} {b f : ℕ} {t : VectorTime}
  {κ : Type*} [DecidableEq κ] {N : Net (ℕ × ℕ) (ℕ × ℕ) κ}

lemma isAIC_mix : isAIC b .mix = true ↔ b % 3 = 2 := by
  simp [isAIC, c220MixSubBlockDim, c220VecSubBlockDim]

lemma GoodMix.isAIC (h : GoodMix groups setQ waitQ Idle c) :
    isAIC b c.kernelType = decide (b % 3 = 2) := by
  rw [h.kernel, Bool.eq_iff_iff, isAIC_mix, decide_eq_true_eq]

lemma GoodMix.step_wait (h : GoodMix groups setQ waitQ Idle c)
    (pop : BlockSyncInfo → BlockSyncInfo) (hset : ∀ x, setQ (pop x) = setQ x)
    (hwait : ∀ x, waitQ (pop x) = (waitQ x).tail) (ht : Wf t) :
    Step N (abs setQ waitQ c) (.wait (b, f) (waitOn waitQ pop c b f t).1)
        (abs setQ waitQ (waitOn waitQ pop c b f t).2) ∧
      GoodMix groups setQ waitQ Idle (waitOn waitQ pop c b f t).2 := by
  obtain ⟨hs, htimes⟩ := step_waitOn (N := N) (b := b) (f := f) h.times pop hset hwait ht
  refine ⟨hs, ?_⟩
  have hpending : (abs setQ waitQ (waitOn waitQ pop c b f t).2).pending =
      (abs setQ waitQ c).pending := by
    rw [waitOn]
    split
    · rfl
    · rw [abs_put, hset]
      exact Function.update_eq_self _ _
  refine ⟨?_, ?_, htimes, ?_⟩
  · rw [← h.blocks, waitOn]
    split <;> rfl
  · rw [← h.kernel, waitOn]
    split <;> rfl
  · rw [hpending]
    exact h.idle

lemma goodMix_init (hidle : Idle fun _ => [])
    (hempty : setQ {} = [] ∧ waitQ {} = []) :
    GoodMix groups setQ waitQ Idle (Kernel.mix groups).container := by
  refine ⟨rfl, rfl, fun b f => ⟨fun t ht => ?_, fun t ht => ?_⟩, ?_⟩
  · have hnil : setQ ((Kernel.mix groups).container.blockSyncEvent b f) = [] := hempty.1
    rw [hnil] at ht
    exact absurd ht List.not_mem_nil
  · have hnil : waitQ ((Kernel.mix groups).container.blockSyncEvent b f) = [] := hempty.2
    rw [hnil] at ht
    exact absurd ht List.not_mem_nil
  · have hnil : (abs setQ waitQ (Kernel.mix groups).container).pending = fun _ => [] :=
      funext fun p => hempty.1
    rw [hnil]
    exact hidle

lemma abs_init (hempty : setQ {} = [] ∧ waitQ {} = []) :
    abs setQ waitQ (Kernel.mix groups).container = .start := by
  rw [abs, State.start, State.mk.injEq]
  exact ⟨funext fun p => hempty.1, funext fun p => hempty.2⟩

end Mix

/-! ## The vector cores of a group -/

/-- At most one of the two vector cores of a group has sets that wait. -/
def Balanced (pending : ℕ × ℕ → List VectorTime) : Prop :=
  ∀ b f, b % 3 ≠ 2 → pending (b, f) = [] ∨ pending (otherVector b, f) = []

section Vectors

variable {b f : ℕ}

lemma otherVector_mod (hb : b % 3 ≠ 2) : otherVector b % 3 ≠ 2 := by
  rw [otherVector]
  split_ifs <;> omega

lemma otherVector_self (hb : b % 3 ≠ 2) : otherVector b ≠ b :=
  otherVector_ne b fun h => absurd h hb

lemma otherVector_otherVector (hb : b % 3 ≠ 2) : otherVector (otherVector b) = b := by
  simp only [otherVector]
  split_ifs <;> omega

/-- The vector cores of a group, as the cores of two pairs. -/
lemma vectors_eq (hb : b % 3 ≠ 2) (f : ℕ) :
    ({(3 * (b / 3), f), (3 * (b / 3) + 1, f)} : Finset (ℕ × ℕ)) =
      {(b, f), (otherVector b, f)} := by
  by_cases h0 : b % 3 = 0
  · have hb' : 3 * (b / 3) = b := by omega
    rw [hb', otherVector, if_pos h0]
  · have hb' : 3 * (b / 3) = b - 1 := by omega
    have hb1 : b - 1 + 1 = b := by omega
    rw [hb', hb1, otherVector, if_neg h0, if_pos (by omega), Finset.pair_comm]

lemma aivInGroup_mix {n : ℕ} (hn : n < 2 ^ 32) (hlt : b < n) (hb : b % 3 ≠ 2) :
    Container.aivInGroup b = otherVector b := by
  simp only [Container.aivInGroup, otherVector, c220VecSubBlockDim, c220MixSubBlockDim]
  split_ifs <;> omega

lemma otherVector_lt {groups : ℕ} (hlt : b < groups * 3) :
    otherVector b < groups * 3 := by
  rw [otherVector]
  split_ifs <;> omega

/-- Sets of one of the cores, while the other has none. -/
lemma Balanced.push {p p' : ℕ × ℕ → List VectorTime} (h : Balanced p)
    (ho : p (otherVector b, f) = []) (hsame : ∀ i, i ≠ (b, f) → p' i = p i) (hb : b % 3 ≠ 2) :
    Balanced p' := by
  intro b' f' hb'
  by_cases h1 : (b', f') = (b, f)
  · rw [Prod.mk.injEq] at h1
    obtain ⟨rfl, rfl⟩ := h1
    refine Or.inr ?_
    rw [hsame _ fun heq => otherVector_self hb (Prod.mk.inj heq).1]
    exact ho
  by_cases h2 : (otherVector b', f') = (b, f)
  · rw [Prod.mk.injEq] at h2
    obtain ⟨rfl, rfl⟩ := h2
    refine Or.inl ?_
    rw [hsame _ h1]
    rwa [otherVector_otherVector hb'] at ho
  rw [hsame _ h1, hsame _ h2]
  exact h b' f' hb'

end Vectors

/-! ## Mode 1 -/

/-- The two vector cores of a group, for a flag; the cube core takes no part. -/
def net1 : Net (ℕ × ℕ) (ℕ × ℕ) (Option (ℕ × ℕ)) where
  cls p := if p.1 % 3 = 2 then none else some (p.1 / 3, p.2)
  sinkCls p := if p.1 % 3 = 2 then none else some (p.1 / 3, p.2)
  sources
    | none => ∅
    | some (g, f) => {(3 * g, f), (3 * g + 1, f)}
  cls_of_mem := by
    intro k i hi
    match k with
    | none => exact absurd hi (Finset.notMem_empty i)
    | some (g, f) =>
      rcases Finset.mem_insert.1 hi with rfl | hi
      · rw [if_neg (by omega), Nat.mul_div_cancel_left g (by decide)]
      · rw [Finset.mem_singleton.1 hi, if_neg (by omega)]
        congr 2
        omega

abbrev Good1 (groups : ℕ) : Container → Prop :=
  GoodMix groups (·.setVec1) (·.waitVec) Balanced

section Mode1

variable {groups : ℕ} {c : Container} {b f : ℕ} {t : VectorTime}

lemma abs1_push : abs (·.setVec1) (·.waitVec) (c.change b f (.pushSet1 t)) =
    (abs (·.setVec1) (·.waitVec) c).push (b, f) t := abs_change_push (fun _ => rfl) fun _ => rfl

lemma abs1_take : abs (·.setVec1) (·.waitVec) (c.change b f .popSet1) =
    (abs (·.setVec1) (·.waitVec) c).take (b, f) := abs_change_take (fun _ => rfl) fun _ => rfl

lemma abs1_give : abs (·.setVec1) (·.waitVec) (c.change b f (.pushWait t)) =
    (abs (·.setVec1) (·.waitVec) c).give (b, f) t := abs_change_give (fun _ => rfl) fun _ => rfl

lemma net1_sources (hb : b % 3 ≠ 2) :
    net1.sources (net1.cls (b, f)) = {(b, f), (otherVector b, f)} := by
  have hcls : net1.cls (b, f) = some (b / 3, f) := if_neg hb
  rw [hcls]
  exact vectors_eq hb f

/-- The vector cores of the group are those that a round releases. -/
lemma net1_sinkCls_iff (hb : b % 3 ≠ 2) (w : ℕ × ℕ) :
    net1.sinkCls w = net1.cls (b, f) ↔ w = (b, f) ∨ w = (otherVector b, f) := by
  obtain ⟨b', f'⟩ := w
  simp only [net1, if_neg hb, Prod.mk.injEq, otherVector]
  split_ifs <;> simp <;> omega

lemma setMode1SyncInfo_eq (h : Good1 groups c) (hn : groups * 3 < 2 ^ 32)
    (hb : b < groups * 3) (hf : f < maxFlagId) (hcube : b % 3 ≠ 2) :
    c.setMode1SyncInfo f b t = some
      (match (c.blockSyncEvent (otherVector b) f).setVec1 with
        | [] => c.change b f (.pushSet1 t)
        | x :: _ =>
          ((c.change (otherVector b) f .popSet1).change b f
            (.pushWait (updateVectorTime t x))).change (otherVector b) f
              (.pushWait (updateVectorTime t x))) := by
  have hlt : b < c.maxBlockNum := by rw [h.blocks]; exact hb
  have holt : otherVector b < c.maxBlockNum := by rw [h.blocks]; exact otherVector_lt hb
  rw [Container.setMode1SyncInfo, if_neg (by rw [h.isAIC, decide_eq_true_iff]; exact hcube)]
  simp only [aivInGroup_mix hn hb hcube, Container.info_eq holt hf, Option.bind_eq_bind,
    Option.bind_some]
  cases (c.blockSyncEvent (otherVector b) f).setVec1 with
  | nil => exact Container.modify_eq_change hlt hf
  | cons x rest =>
    refine (Container.modify_bind holt hf).trans ?_
    refine (Container.modify_bind (by exact hlt) hf).trans ?_
    exact Container.modify_eq_change holt hf

lemma Good1.step_set (h : Good1 groups c) (hn : groups * 3 < 2 ^ 32) (hb : b < groups * 3)
    (hf : f < maxFlagId) (ht : Wf t) :
    ∃ c', c.setMode1SyncInfo f b t = some c' ∧
      Step net1 (abs (·.setVec1) (·.waitVec) c) (.set (b, f) t)
        (abs (·.setVec1) (·.waitVec) c') ∧ Good1 groups c' := by
  by_cases hcube : b % 3 = 2
  · refine ⟨c, ?_, .ignored ?_, h⟩
    · rw [Container.setMode1SyncInfo, if_pos (by rw [h.isAIC, decide_eq_true hcube])]
      rfl
    · have hcls : net1.cls (b, f) = none := if_pos hcube
      rw [hcls]
      exact Finset.notMem_empty _
  have hne : (otherVector b, f) ≠ (b, f) := fun heq =>
    otherVector_self hcube (Prod.mk.inj heq).1
  refine ⟨_, setMode1SyncInfo_eq h hn hb hf hcube, ?_⟩
  cases ho : (c.blockSyncEvent (otherVector b) f).setVec1 with
  | nil =>
    refine ⟨step_pair_gathers (net1_sources hcube) hne ho abs1_push, h.blocks, h.kernel,
      h.times.push (fun _ => rfl) (fun _ => rfl) ht, ?_⟩
    refine h.idle.push (b := b) (f := f) ho (fun i hi => ?_) hcube
    rw [abs1_push, State.push_pending, if_neg hi]
  | cons x rest =>
    have hx : Wf x := (h.times (otherVector b) f).1 x (by rw [ho]; exact List.mem_cons_self ..)
    have hv := (ht.updateVectorTime hx).1
    have hcons : (abs (·.setVec1) (·.waitVec) c).pending (otherVector b, f) = x :: rest := ho
    have hnil : (abs (·.setVec1) (·.waitVec) c).pending (b, f) = [] := by
      refine (h.idle b f hcube).resolve_right fun hnil => ?_
      rw [hcons] at hnil
      cases hnil
    have habs : abs (·.setVec1) (·.waitVec) (((c.change (otherVector b) f .popSet1).change b f
        (.pushWait (updateVectorTime t x))).change (otherVector b) f
          (.pushWait (updateVectorTime t x))) =
        (((abs (·.setVec1) (·.waitVec) c).take (otherVector b, f)).give (b, f)
          (updateVectorTime t x)).give (otherVector b, f) (updateVectorTime t x) := by
      rw [abs1_give, abs1_give, abs1_take]
    refine ⟨?_, h.blocks, h.kernel, ?_, ?_⟩
    · rw [habs]
      refine step_pair_completes (net1_sources hcube) hne hnil hcons
        (ht.le_updateVectorTime_right hx) (ht.le_updateVectorTime_left hx) ?_ fun w => ?_
      · rw [State.give_pending, State.give_pending, State.take, hcons, List.tail_cons]
      · simp only [State.give_tokens, State.take_tokens, net1_sinkCls_iff hcube, hne, if_false]
        split_ifs <;> simp_all
    · refine TimesWf.give ?_ (fun _ => rfl) (fun _ => rfl) hv
      refine TimesWf.give ?_ (fun _ => rfl) (fun _ => rfl) hv
      exact h.times.take (fun _ => rfl) fun _ => rfl
    · rw [habs, State.give_pending, State.give_pending]
      have hback := otherVector_otherVector hcube
      refine h.idle.push (b := otherVector b) (f := f) (by rw [hback]; exact hnil) (fun i hi => ?_)
        (otherVector_mod hcube)
      rw [State.take_pending, if_neg hi]

end Mode1

/-! ## Mode 2 -/

/-- The two vector cores of a group, which release its cube core, and the cube core, which
releases them. -/
def net2 : Net (ℕ × ℕ) (ℕ × ℕ) (Bool × ℕ × ℕ) where
  cls p := (decide (p.1 % 3 = 2), p.1 / 3, p.2)
  sinkCls p := (decide (p.1 % 3 ≠ 2), p.1 / 3, p.2)
  sources
    | (true, g, f) => {(3 * g + 2, f)}
    | (false, g, f) => {(3 * g, f), (3 * g + 1, f)}
  cls_of_mem := by
    intro k i hi
    match k with
    | (true, g, f) =>
      rw [Finset.mem_singleton.1 hi, decide_eq_true (by omega)]
      congr 2
      omega
    | (false, g, f) =>
      rcases Finset.mem_insert.1 hi with rfl | hi
      · rw [decide_eq_false (by omega), Nat.mul_div_cancel_left g (by decide)]
      · rw [Finset.mem_singleton.1 hi, decide_eq_false (by omega)]
        congr 2
        omega

def CubeIdle (pending : ℕ × ℕ → List VectorTime) : Prop :=
  Balanced pending ∧ ∀ b f, b % 3 = 2 → pending (b, f) = []

abbrev Good2 (groups : ℕ) : Container → Prop :=
  GoodMix groups (·.setVec2) (·.waitVec) CubeIdle

section Mode2

variable {groups : ℕ} {c : Container} {b f : ℕ} {t : VectorTime}

lemma abs2_push : abs (·.setVec2) (·.waitVec) (c.change b f (.pushSet2 t)) =
    (abs (·.setVec2) (·.waitVec) c).push (b, f) t := abs_change_push (fun _ => rfl) fun _ => rfl

lemma abs2_take : abs (·.setVec2) (·.waitVec) (c.change b f .popSet2) =
    (abs (·.setVec2) (·.waitVec) c).take (b, f) := abs_change_take (fun _ => rfl) fun _ => rfl

lemma abs2_give : abs (·.setVec2) (·.waitVec) (c.change b f (.pushWait t)) =
    (abs (·.setVec2) (·.waitVec) c).give (b, f) t := abs_change_give (fun _ => rfl) fun _ => rfl

lemma net2_sources_vector (hb : b % 3 ≠ 2) :
    net2.sources (net2.cls (b, f)) = {(b, f), (otherVector b, f)} := by
  have hcls : net2.cls (b, f) = (false, b / 3, f) := by simp only [net2, hb, decide_false]
  rw [hcls]
  exact vectors_eq hb f

lemma net2_sources_cube (hb : b % 3 = 2) : net2.sources (net2.cls (b, f)) = {(b, f)} := by
  have hcls : net2.cls (b, f) = (true, b / 3, f) := by simp only [net2, hb, decide_true]
  have hb' : 3 * (b / 3) + 2 = b := by omega
  rw [hcls]
  simp only [net2, hb']

/-- The cube core is the one that the vector cores release. -/
lemma net2_sinkCls_vector (hb : b % 3 ≠ 2) (w : ℕ × ℕ) :
    net2.sinkCls w = net2.cls (b, f) ↔ w = (b / 3 * 3 + 2, f) := by
  obtain ⟨b', f'⟩ := w
  simp only [net2, hb, decide_false, Prod.mk.injEq, decide_eq_false_iff_not]
  omega

/-- The vector cores are those that the cube core releases. -/
lemma net2_sinkCls_cube (hb : b % 3 = 2) (w : ℕ × ℕ) :
    net2.sinkCls w = net2.cls (b, f) ↔ w = (b - 1, f) ∨ w = (b - 2, f) := by
  obtain ⟨b', f'⟩ := w
  simp only [net2, hb, decide_true, Prod.mk.injEq, decide_eq_true_eq]
  omega

lemma aicInGroup_mix {n : ℕ} (hn : n < 2 ^ 32) (hb : b / 3 * 3 + 2 < n) :
    Container.aicInGroup b = b / 3 * 3 + 2 := by
  simp only [Container.aicInGroup, c220VecSubBlockDim, c220MixSubBlockDim]
  omega

lemma before_mix {n k : ℕ} (hn : n < 2 ^ 32) (hlt : b < n) (hk : k ≤ b) :
    Container.before b k = b - k := by
  rw [Container.before]
  omega

lemma setMode2SyncInfo_cube (h : Good2 groups c) (hn : groups * 3 < 2 ^ 32)
    (hb : b < groups * 3) (hf : f < maxFlagId) (hcube : b % 3 = 2) :
    c.setMode2SyncInfo f b t 2 = some ((((c.change b f (.pushSet2 t)).change (b - 1) f
      (.pushWait t)).change (b - 2) f (.pushWait t)).change b f .popSet2) := by
  have hlt : b < c.maxBlockNum := by rw [h.blocks]; exact hb
  have h1 : b - 1 < c.maxBlockNum := by omega
  have h2 : b - 2 < c.maxBlockNum := by omega
  rw [Container.setMode2SyncInfo, if_neg (by decide)]
  refine (Container.modify_bind hlt hf).trans ?_
  rw [if_neg (by decide), Container.change_kernelType,
    if_pos (by rw [h.isAIC, decide_eq_true hcube]),
    before_mix hn hb (by omega), before_mix hn hb (by omega)]
  refine (Container.modify_bind (by exact h1) hf).trans ?_
  refine (Container.modify_bind (by exact h2) hf).trans ?_
  exact Container.modify_eq_change (by exact hlt) hf

lemma setMode2SyncInfo_vector (h : Good2 groups c) (hn : groups * 3 < 2 ^ 32)
    (hb : b < groups * 3) (hf : f < maxFlagId) (hcube : b % 3 ≠ 2) :
    c.setMode2SyncInfo f b t 2 = some
      (match (c.blockSyncEvent (otherVector b) f).setVec2 with
        | [] => c.change b f (.pushSet2 t)
        | x :: _ =>
          (((c.change b f (.pushSet2 t)).change (b / 3 * 3 + 2) f
            (.pushWait (updateVectorTime t x))).change b f .popSet2).change (otherVector b) f
              .popSet2) := by
  have hlt : b < c.maxBlockNum := by rw [h.blocks]; exact hb
  have holt : otherVector b < c.maxBlockNum := by rw [h.blocks]; exact otherVector_lt hb
  have hclt : b / 3 * 3 + 2 < groups * 3 := by omega
  have hclt' : b / 3 * 3 + 2 < c.maxBlockNum := by rw [h.blocks]; exact hclt
  have hsame : (c.change b f (.pushSet2 t)).blockSyncEvent (otherVector b) f =
      c.blockSyncEvent (otherVector b) f := by
    rw [Container.change, Container.put_blockSyncEvent, if_neg]
    exact fun heq => otherVector_self hcube heq.1
  rw [Container.setMode2SyncInfo, if_neg (by decide)]
  refine (Container.modify_bind hlt hf).trans ?_
  rw [if_neg (by decide), Container.change_kernelType,
    if_neg (by rw [h.isAIC, decide_eq_true_iff]; exact hcube), aivInGroup_mix hn hb hcube,
    aicInGroup_mix hn hclt, Container.info_eq (by exact holt) hf, Option.bind_eq_bind,
    Option.bind_some, hsame]
  cases (c.blockSyncEvent (otherVector b) f).setVec2 with
  | nil => rfl
  | cons x rest =>
    refine (Container.modify_bind (by exact hclt') hf).trans ?_
    refine (Container.modify_bind (by exact hlt) hf).trans ?_
    exact Container.modify_eq_change (by exact holt) hf

lemma Good2.step_cube (h : Good2 groups c) (hn : groups * 3 < 2 ^ 32) (hb : b < groups * 3)
    (hf : f < maxFlagId) (ht : Wf t) (hcube : b % 3 = 2) :
    ∃ c', c.setMode2SyncInfo f b t 2 = some c' ∧
      Step net2 (abs (·.setVec2) (·.waitVec) c) (.set (b, f) t)
        (abs (·.setVec2) (·.waitVec) c') ∧ Good2 groups c' := by
  refine ⟨_, setMode2SyncInfo_cube h hn hb hf hcube, ?_⟩
  have hnil := h.idle.2 b f hcube
  have habs : abs (·.setVec2) (·.waitVec) ((((c.change b f (.pushSet2 t)).change (b - 1) f
      (.pushWait t)).change (b - 2) f (.pushWait t)).change b f .popSet2) =
      ((((abs (·.setVec2) (·.waitVec) c).push (b, f) t).give (b - 1, f) t).give
        (b - 2, f) t).take (b, f) := by
    rw [abs2_take, abs2_give, abs2_give, abs2_push]
  have hpending : (abs (·.setVec2) (·.waitVec) ((((c.change b f (.pushSet2 t)).change (b - 1) f
      (.pushWait t)).change (b - 2) f (.pushWait t)).change b f .popSet2)).pending =
      (abs (·.setVec2) (·.waitVec) c).pending := by
    rw [habs]
    funext j
    rw [State.take_pending, State.give_pending, State.give_pending, State.push_pending,
      State.push_pending, if_pos rfl, hnil, List.nil_append, List.tail_cons]
    split_ifs with hj
    · rw [hj, hnil]
    · rfl
  refine ⟨step_single (net2_sources_cube hcube) hnil hpending fun w => ?_, h.blocks, h.kernel,
    ?_, ?_⟩
  · have hne : (b - 2, f) ≠ (b - 1, f) := fun heq => by
      have := (Prod.mk.inj heq).1
      omega
    rw [habs]
    simp only [State.take_tokens, State.give_tokens, State.push_tokens, net2_sinkCls_cube hcube,
      hne, if_false]
    split_ifs <;> simp_all
  · refine TimesWf.take ?_ (fun _ => rfl) fun _ => rfl
    refine TimesWf.give ?_ (fun _ => rfl) (fun _ => rfl) ht
    refine TimesWf.give ?_ (fun _ => rfl) (fun _ => rfl) ht
    exact h.times.push (fun _ => rfl) (fun _ => rfl) ht
  · rw [hpending]
    exact h.idle

lemma Good2.step_vector (h : Good2 groups c) (hn : groups * 3 < 2 ^ 32) (hb : b < groups * 3)
    (hf : f < maxFlagId) (ht : Wf t) (hcube : b % 3 ≠ 2) :
    ∃ c', c.setMode2SyncInfo f b t 2 = some c' ∧
      Step net2 (abs (·.setVec2) (·.waitVec) c) (.set (b, f) t)
        (abs (·.setVec2) (·.waitVec) c') ∧ Good2 groups c' := by
  have hne : (otherVector b, f) ≠ (b, f) := fun heq =>
    otherVector_self hcube (Prod.mk.inj heq).1
  refine ⟨_, setMode2SyncInfo_vector h hn hb hf hcube, ?_⟩
  cases ho : (c.blockSyncEvent (otherVector b) f).setVec2 with
  | nil =>
    have hsame : ∀ i, i ≠ (b, f) → ((abs (·.setVec2) (·.waitVec) c).push (b, f) t).pending i =
        (abs (·.setVec2) (·.waitVec) c).pending i := by
      intro i hi
      rw [State.push_pending, if_neg hi]
    refine ⟨step_pair_gathers (net2_sources_vector hcube) hne ho abs2_push, h.blocks, h.kernel,
      h.times.push (fun _ => rfl) (fun _ => rfl) ht, ?_⟩
    rw [abs2_push]
    refine ⟨h.idle.1.push (b := b) (f := f) ho hsame hcube, fun b' f' hb' => ?_⟩
    rw [hsame _ fun heq => hcube ((Prod.mk.inj heq).1 ▸ hb')]
    exact h.idle.2 b' f' hb'
  | cons x rest =>
    have hx : Wf x := (h.times (otherVector b) f).1 x (by rw [ho]; exact List.mem_cons_self ..)
    have hv := (ht.updateVectorTime hx).1
    have hcons : (abs (·.setVec2) (·.waitVec) c).pending (otherVector b, f) = x :: rest := ho
    have hnil : (abs (·.setVec2) (·.waitVec) c).pending (b, f) = [] := by
      refine (h.idle.1 b f hcube).resolve_right fun hnil => ?_
      rw [hcons] at hnil
      cases hnil
    have habs : abs (·.setVec2) (·.waitVec) ((((c.change b f (.pushSet2 t)).change
        (b / 3 * 3 + 2) f (.pushWait (updateVectorTime t x))).change b f .popSet2).change
          (otherVector b) f .popSet2) =
        ((((abs (·.setVec2) (·.waitVec) c).push (b, f) t).give (b / 3 * 3 + 2, f)
          (updateVectorTime t x)).take (b, f)).take (otherVector b, f) := by
      rw [abs2_take, abs2_take, abs2_give, abs2_push]
    have hpending : ((((((abs (·.setVec2) (·.waitVec) c).push (b, f) t).give (b / 3 * 3 + 2, f)
        (updateVectorTime t x)).take (b, f)).take (otherVector b, f)).pending) =
        Function.update (abs (·.setVec2) (·.waitVec) c).pending (otherVector b, f) rest := by
      funext j
      simp only [State.take_pending, State.give_pending, State.push_pending, if_true, if_neg hne,
        hnil, hcons, List.nil_append, List.tail_cons, Function.update_apply]
      split_ifs with h1 h2
      · rfl
      · rw [h2, hnil]
      · rfl
    have hsame : ∀ i, i ≠ (otherVector b, f) →
        Function.update (abs (·.setVec2) (·.waitVec) c).pending (otherVector b, f) rest i =
          (abs (·.setVec2) (·.waitVec) c).pending i := fun i hi => Function.update_of_ne hi _ _
    refine ⟨?_, h.blocks, h.kernel, ?_, ?_⟩
    · rw [habs]
      refine step_pair_completes (net2_sources_vector hcube) hne hnil hcons
        (ht.le_updateVectorTime_right hx) (ht.le_updateVectorTime_left hx) hpending fun w => ?_
      simp only [State.take_tokens, State.give_tokens, State.push_tokens,
        net2_sinkCls_vector hcube]
      split_ifs with hw
      · rw [hw]
      · rfl
    · refine TimesWf.take ?_ (fun _ => rfl) fun _ => rfl
      refine TimesWf.take ?_ (fun _ => rfl) fun _ => rfl
      refine TimesWf.give ?_ (fun _ => rfl) (fun _ => rfl) hv
      exact h.times.push (fun _ => rfl) (fun _ => rfl) ht
    · rw [habs, hpending]
      refine ⟨?_, fun b' f' hb' => ?_⟩
      · exact h.idle.1.push (b := otherVector b) (f := f)
          (by rw [otherVector_otherVector hcube]; exact hnil) hsame (otherVector_mod hcube)
      · rw [hsame _ fun heq => otherVector_mod hcube ((Prod.mk.inj heq).1 ▸ hb')]
        exact h.idle.2 b' f' hb'

end Mode2

/-! ## Mode 4 -/

/-- The core and the flag that release a core and a flag in mode 4: the flags below 16 of the
cube core go with the first vector core, the others with the second. -/
def partner (p : ℕ × ℕ) : Option (ℕ × ℕ) :=
  if p.1 % 3 = 2 then
    if p.2 < 16 then some (p.1 - 2, p.2) else some (p.1 - 1, p.2 - 16)
  else if p.2 < 16 then
    if p.1 % 3 = 0 then some (p.1 + 2, p.2) else some (p.1 + 1, p.2 + 16)
  else none

def net4 : Net (ℕ × ℕ) (ℕ × ℕ) (Option (ℕ × ℕ)) where
  cls := some
  sinkCls := partner
  sources
    | none => ∅
    | some p => {p}
  cls_of_mem := by
    intro k i hi
    match k with
    | none => exact absurd hi (Finset.notMem_empty i)
    | some p => rw [Finset.mem_singleton.1 hi]

abbrev Good4 (groups : ℕ) : Container → Prop :=
  GoodMix groups (·.setVec4) (·.intrablockwaitVec) fun pending => ∀ p, pending p = []

section Mode4

variable {groups : ℕ} {c : Container} {b f : ℕ} {t : VectorTime}

lemma abs4_push : abs (·.setVec4) (·.intrablockwaitVec) (c.change b f (.pushSet4 t)) =
    (abs (·.setVec4) (·.intrablockwaitVec) c).push (b, f) t :=
  abs_change_push (fun _ => rfl) fun _ => rfl

lemma abs4_take : abs (·.setVec4) (·.intrablockwaitVec) (c.change b f .popSet4) =
    (abs (·.setVec4) (·.intrablockwaitVec) c).take (b, f) :=
  abs_change_take (fun _ => rfl) fun _ => rfl

lemma abs4_give : abs (·.setVec4) (·.intrablockwaitVec) (c.change b f (.pushIntra t)) =
    (abs (·.setVec4) (·.intrablockwaitVec) c).give (b, f) t :=
  abs_change_give (fun _ => rfl) fun _ => rfl

/-- The pairing goes both ways, where a vector core uses the flags below 16 and the cube core
those below 32. -/
lemma partner_eq_iff {p q w : ℕ × ℕ} (hp : p.2 < if p.1 % 3 = 2 then 32 else 16)
    (hq : partner p = some q) : partner w = some p ↔ w = q := by
  obtain ⟨b, f⟩ := p
  obtain ⟨b', f'⟩ := q
  obtain ⟨b'', f''⟩ := w
  simp only [partner] at hp hq ⊢
  split_ifs at hp hq ⊢ <;> simp_all <;> omega

/-- The container after a set in mode 4 that releases `(b', f')`. -/
lemma Good4.step_put (h : Good4 groups c) (ht : Wf t) {q : ℕ × ℕ}
    (hp : f < if b % 3 = 2 then 32 else 16) (hq : partner (b, f) = some q) :
    Step net4 (abs (·.setVec4) (·.intrablockwaitVec) c) (.set (b, f) t)
        (abs (·.setVec4) (·.intrablockwaitVec) (((c.change b f (.pushSet4 t)).change q.1 q.2
          (.pushIntra t)).change b f .popSet4)) ∧
      Good4 groups (((c.change b f (.pushSet4 t)).change q.1 q.2 (.pushIntra t)).change b f
        .popSet4) := by
  have habs : abs (·.setVec4) (·.intrablockwaitVec) (((c.change b f (.pushSet4 t)).change q.1 q.2
      (.pushIntra t)).change b f .popSet4) =
      (((abs (·.setVec4) (·.intrablockwaitVec) c).push (b, f) t).give q t).take (b, f) := by
    rw [abs4_take, abs4_give, abs4_push]
  have hpending : (abs (·.setVec4) (·.intrablockwaitVec) (((c.change b f (.pushSet4 t)).change
      q.1 q.2 (.pushIntra t)).change b f .popSet4)).pending =
      (abs (·.setVec4) (·.intrablockwaitVec) c).pending := by
    rw [habs]
    funext j
    rw [State.take_pending, State.give_pending, State.push_pending, State.push_pending,
      if_pos rfl, h.idle, List.nil_append, List.tail_cons]
    split_ifs
    · exact (h.idle j).symm
    · rfl
  refine ⟨step_single rfl (h.idle _) hpending fun w => ?_, h.blocks, h.kernel, ?_, ?_⟩
  · rw [habs, State.take_tokens, State.give_tokens, State.push_tokens]
    have hiff : net4.sinkCls w = net4.cls (b, f) ↔ w = q := partner_eq_iff hp hq
    simp only [hiff]
    split_ifs with hw
    · rw [hw]
    · rfl
  · refine TimesWf.take ?_ (fun _ => rfl) fun _ => rfl
    refine TimesWf.give ?_ (fun _ => rfl) (fun _ => rfl) ht
    exact h.times.push (fun _ => rfl) (fun _ => rfl) ht
  · rw [hpending]
    exact h.idle

lemma exists_partner (hb : b < groups * 3) (hf : f < if b % 3 = 2 then 32 else 16) :
    ∃ q, partner (b, f) = some q ∧ q.1 < groups * 3 ∧ q.2 < maxFlagId := by
  simp only [partner, maxFlagId]
  split_ifs at hf ⊢ <;> exact ⟨_, rfl, by dsimp only; omega, by dsimp only; omega⟩

lemma setMode4SyncInfo_eq (h : Good4 groups c) (hn : groups * 3 < 2 ^ 32)
    (hb : b < groups * 3) (hf : f < if b % 3 = 2 then 32 else 16) (loc : LocInfo) (serialNo : ℕ)
    {q : ℕ × ℕ} (hq : partner (b, f) = some q) (hq1 : q.1 < groups * 3) (hq2 : q.2 < maxFlagId) :
    c.setMode4SyncInfo f b t 2 loc serialNo = some (((c.change b f (.pushSet4 t)).change q.1 q.2
      (.pushIntra t)).change b f .popSet4) := by
  have hlt : b < c.maxBlockNum := by rw [h.blocks]; exact hb
  have hqlt : q.1 < c.maxBlockNum := by rw [h.blocks]; exact hq1
  have hflag : f < maxFlagId := by rw [maxFlagId]; split_ifs at hf <;> omega
  have hcut : Container.cutSyncId c.kernelType b f = f := by
    rw [Container.cutSyncId, h.isAIC]
    split_ifs at hf with hcube <;> simp [hcube]
    omega
  have hwarn : c.addFlagIdWarnInfo b f loc serialNo = c := by
    rw [Container.addFlagIdWarnInfo, h.isAIC]
    split_ifs at hf with hcube <;> simp [hcube]
    omega
  rw [Container.setMode4SyncInfo, if_neg (by decide), hcut, hwarn]
  refine (Container.modify_bind hlt hflag).trans ?_
  have hfinish : (((c.change b f (.pushSet4 t)).modify q.1 q.2 (.pushIntra t)).bind fun c =>
      c.modify b f .popSet4) = some (((c.change b f (.pushSet4 t)).change q.1 q.2
        (.pushIntra t)).change b f .popSet4) := by
    refine (Container.modify_bind (by exact hqlt) hq2).trans ?_
    exact Container.modify_eq_change (by exact hlt) hflag
  rw [if_neg (by decide), Container.change_kernelType, h.isAIC, ← hfinish]
  rw [partner] at hq
  dsimp only at hq
  by_cases hcube : b % 3 = 2
  · rw [if_pos hcube] at hf hq
    rw [if_pos (decide_eq_true hcube), before_mix hn hb (by omega), before_mix hn hb (by omega)]
    by_cases h16 : f < 16
    · rw [if_pos h16, Option.some_inj] at hq
      rw [if_pos (by omega), ← hq]
      rfl
    · rw [if_neg h16, Option.some_inj] at hq
      rw [if_neg (by omega), if_pos (by omega), ← hq]
      rfl
  · rw [if_neg hcube] at hf hq
    rw [if_neg (by simpa using hcube), aicInGroup_mix hn (by omega : b / 3 * 3 + 2 < groups * 3)]
    rw [if_pos hf] at hq
    by_cases h0 : b % 3 = 0
    · rw [if_pos h0, Option.some_inj] at hq
      rw [if_pos (by simp only [c220MixSubBlockDim, c220VecSubBlockDim]; omega), ← hq,
        show b / 3 * 3 + 2 = b + 2 by omega]
      rfl
    · rw [if_neg h0, Option.some_inj] at hq
      rw [if_neg (by simp only [c220MixSubBlockDim, c220VecSubBlockDim]; omega), ← hq,
        show b / 3 * 3 + 2 = b + 1 by omega]
      rfl

lemma getIntraBlockSyncInfo_eq (h : Good4 groups c) (hb : b < groups * 3)
    (hf : f < if b % 3 = 2 then 32 else 16) :
    c.getIntraBlockSyncInfo f b t = some (waitOn (·.intrablockwaitVec) .popIntra c b f t) := by
  have hlt : b < c.maxBlockNum := by rw [h.blocks]; exact hb
  have hflag : f < maxFlagId := by rw [maxFlagId]; split_ifs at hf <;> omega
  have hcut : Container.cutSyncId c.kernelType b f = f := by
    rw [Container.cutSyncId, h.isAIC]
    split_ifs at hf with hcube <;> simp [hcube]
    omega
  simp only [Container.getIntraBlockSyncInfo, if_neg (Nat.not_le.2 hlt), hcut,
    Container.info_eq hlt hflag, Container.modify_eq hlt hflag, waitOn, Option.bind_eq_bind,
    Option.bind_some]
  cases (c.blockSyncEvent b f).intrablockwaitVec <;> rfl

end Mode4

/-! ## The three modes -/

/-- The cores, each with its flag, that signal a core in a mode. -/
def signallers (mode : ℕ) (w : ℕ × ℕ) : Finset (ℕ × ℕ) :=
  let g := w.1 / 3
  let cube := (3 * g + 2, w.2)
  let vectors : Finset (ℕ × ℕ) := {(3 * g, w.2), (3 * g + 1, w.2)}
  match mode with
  | 1 => if w.1 % 3 = 2 then ∅ else vectors
  | 2 => if w.1 % 3 = 2 then vectors else {cube}
  | _ => (partner w).elim ∅ fun p => {p}

/-- The call is one of a mix kernel; in mode 4 the flags of a vector core are below 16. -/
def Op.FitsMix (groups mode : ℕ) : Op → Prop
  | .set b f t | .wait b f t =>
    b < groups * 3 ∧ f < (if mode = 4 ∧ b % 3 ≠ 2 then 16 else 32) ∧ Wf t

lemma signallers_same_group {mode : ℕ} {w i : ℕ × ℕ} (hi : i ∈ signallers mode w) :
    i.1 / 3 = w.1 / 3 := by
  obtain ⟨b, f⟩ := w
  obtain ⟨b', f'⟩ := i
  simp only [signallers, partner] at hi
  split at hi <;> split_ifs at hi <;> simp at hi <;> omega

lemma srcs_net1 : net1.srcs = signallers 1 := by
  funext w
  rw [Net.srcs]
  by_cases hw : w.1 % 3 = 2 <;> simp [net1, signallers, hw]

lemma srcs_net2 : net2.srcs = signallers 2 := by
  funext w
  rw [Net.srcs]
  by_cases hw : w.1 % 3 = 2 <;> simp [net2, signallers, hw]

lemma srcs_net4 : net4.srcs = signallers 4 := by
  funext w
  rw [Net.srcs]
  cases hw : partner w <;> simp [net4, signallers, hw]

section Runs

variable {groups mode : ℕ} {ops : List Op}

lemma Op.FitsMix.flag {b f : ℕ} (hf : f < (if mode = 4 ∧ b % 3 ≠ 2 then 16 else 32)) :
    f < maxFlagId := by
  rw [maxFlagId]
  split_ifs at hf <;> omega

/-- A whole run in one mode, from what a set and a wait do. -/
lemma exec_mix {κ : Type} [DecidableEq κ] {N : Net (ℕ × ℕ) (ℕ × ℕ) κ}
    (setQ waitQ : BlockSyncInfo → List VectorTime) (Idle : (ℕ × ℕ → List VectorTime) → Prop)
    (pop : BlockSyncInfo → BlockSyncInfo) (hpopSet : ∀ x, setQ (pop x) = setQ x)
    (hpopWait : ∀ x, waitQ (pop x) = (waitQ x).tail) (hempty : setQ {} = [] ∧ waitQ {} = [])
    (hidle : Idle fun _ => [])
    (hset : ∀ {c b f t}, GoodMix groups setQ waitQ Idle c → b < groups * 3 →
      f < (if mode = 4 ∧ b % 3 ≠ 2 then 16 else 32) → Wf t →
      ∃ c', c.setBlockSyncInfo f mode b t 2 {} 0 = some c' ∧
        Step N (abs setQ waitQ c) (.set (b, f) t) (abs setQ waitQ c') ∧
        GoodMix groups setQ waitQ Idle c')
    (hwait : ∀ {c b f t}, GoodMix groups setQ waitQ Idle c → b < groups * 3 →
      f < (if mode = 4 ∧ b % 3 ≠ 2 then 16 else 32) →
      (if mode = 4 then c.getIntraBlockSyncInfo f b t else c.getBlockSyncInfo f b t) =
        some (waitOn waitQ pop c b f t))
    (hops : ∀ op ∈ ops, op.FitsMix groups mode) :
    ∃ tr c', exec mode (Kernel.mix groups).container ops = some (tr, c') ∧
      KeepsRounds N.srcs tr := by
  have hstep : ∀ c (op : Op), GoodMix groups setQ waitQ Idle c → op.FitsMix groups mode →
      ∃ l c', op.exec mode c = some (l, c') ∧ Step N (abs setQ waitQ c) l (abs setQ waitQ c') ∧
        GoodMix groups setQ waitQ Idle c' := by
    rintro c (⟨b, f, t⟩ | ⟨b, f, t⟩) hg ⟨hb, hf, ht⟩
    · obtain ⟨c', hc', hs, hg'⟩ := hset hg hb hf ht
      refine ⟨.set (b, f) t, c', ?_, hs, hg'⟩
      rw [Op.exec, hc', Option.map_some]
    · obtain ⟨hs, hg'⟩ := hg.step_wait (N := N) (b := b) (f := f) pop hpopSet hpopWait ht
      refine ⟨_, _, ?_, hs, hg'⟩
      rw [Op.exec, hwait hg hb hf, Option.map_some]
  obtain ⟨tr, c', hexec, hrun, -⟩ := exec_run hstep (goodMix_init hidle hempty)
    (abs_init hempty) hops
  exact ⟨tr, c', hexec, hrun.keepsRounds⟩

lemma setBlockSyncInfo_inRange {c : Container} {b f : ℕ} {t : VectorTime}
    (hb : b < c.maxBlockNum) (hf : f < maxFlagId) :
    c.setBlockSyncInfo f 1 b t 2 {} 0 = c.setMode1SyncInfo f b t ∧
      c.setBlockSyncInfo f 2 b t 2 {} 0 = c.setMode2SyncInfo f b t 2 ∧
      c.setBlockSyncInfo f 4 b t 2 {} 0 = c.setMode4SyncInfo f b t 2 {} 0 := by
  refine ⟨?_, ?_, ?_⟩ <;>
    rw [Container.setBlockSyncInfo, if_neg (by omega), if_neg (by omega)]

lemma exec_mode1 (hn : groups * 3 < 2 ^ 32) (hops : ∀ op ∈ ops, op.FitsMix groups 1) :
    ∃ tr c', exec 1 (Kernel.mix groups).container ops = some (tr, c') ∧
      KeepsRounds (signallers 1) tr := by
  rw [← srcs_net1]
  refine exec_mix (·.setVec1) (·.waitVec) Balanced .popWait
    (fun _ => rfl) (fun _ => rfl) ⟨rfl, rfl⟩ (fun _ _ _ => Or.inl rfl) ?_ ?_ hops
  · intro c b f t hg hb hf ht
    have hflag := Op.FitsMix.flag hf
    rw [(setBlockSyncInfo_inRange (by rw [hg.blocks]; exact hb) hflag).1]
    exact Good1.step_set hg hn hb hflag ht
  · intro c b f t hg hb hf
    exact getBlockSyncInfo_eq (by rw [hg.blocks]; exact hb) (Op.FitsMix.flag hf) t

lemma exec_mode2 (hn : groups * 3 < 2 ^ 32) (hops : ∀ op ∈ ops, op.FitsMix groups 2) :
    ∃ tr c', exec 2 (Kernel.mix groups).container ops = some (tr, c') ∧
      KeepsRounds (signallers 2) tr := by
  rw [← srcs_net2]
  refine exec_mix (·.setVec2) (·.waitVec) CubeIdle .popWait
    (fun _ => rfl) (fun _ => rfl) ⟨rfl, rfl⟩ ⟨fun _ _ _ => Or.inl rfl, fun _ _ _ => rfl⟩ ?_ ?_ hops
  · intro c b f t hg hb hf ht
    have hflag := Op.FitsMix.flag hf
    rw [(setBlockSyncInfo_inRange (by rw [hg.blocks]; exact hb) hflag).2.1]
    by_cases hcube : b % 3 = 2
    · exact Good2.step_cube hg hn hb hflag ht hcube
    · exact Good2.step_vector hg hn hb hflag ht hcube
  · intro c b f t hg hb hf
    exact getBlockSyncInfo_eq (by rw [hg.blocks]; exact hb) (Op.FitsMix.flag hf) t

lemma exec_mode4 (hn : groups * 3 < 2 ^ 32) (hops : ∀ op ∈ ops, op.FitsMix groups 4) :
    ∃ tr c', exec 4 (Kernel.mix groups).container ops = some (tr, c') ∧
      KeepsRounds (signallers 4) tr := by
  have hflag4 {b f : ℕ} (hf : f < if 4 = 4 ∧ b % 3 ≠ 2 then 16 else 32) :
      f < if b % 3 = 2 then 32 else 16 := by
    split_ifs at hf ⊢ <;> omega
  rw [← srcs_net4]
  refine exec_mix (·.setVec4) (·.intrablockwaitVec)
    (fun pending => ∀ p, pending p = []) .popIntra (fun _ => rfl) (fun _ => rfl)
    ⟨rfl, rfl⟩ (fun _ => rfl) ?_ ?_ hops
  · intro c b f t hg hb hf ht
    rw [(setBlockSyncInfo_inRange (by rw [hg.blocks]; exact hb) (Op.FitsMix.flag hf)).2.2]
    obtain ⟨q, hq, hq1, hq2⟩ := exists_partner hb (hflag4 hf)
    exact ⟨_, setMode4SyncInfo_eq hg hn hb (hflag4 hf) {} 0 hq hq1 hq2,
      Good4.step_put hg ht (hflag4 hf) hq⟩
  · intro c b f t hg hb hf
    exact getIntraBlockSyncInfo_eq hg hb (hflag4 hf)

end Runs

/-- **The modes inside a group keep their rounds.** For a mix kernel with two vector cores in each
group, one of the modes 1, 2 and 4, and any sequence of sets and waits in that mode: a wait of a
core succeeds exactly when the core has not used up the rounds in which all the cores that signal
it have set the flag, and then ends with a clock that is at least those of the sets of that
round; so a core never completes more waits than there are complete rounds. The cores that signal
a core are in its group. -/
theorem group_modes_keep_rounds (groups : ℕ) (hn : groups * 3 < 2 ^ 32) {mode : ℕ}
    (hmode : mode = 1 ∨ mode = 2 ∨ mode = 4) (ops : List Op)
    (hops : ∀ op ∈ ops, op.FitsMix groups mode) :
    ∃ tr c, exec mode (Kernel.mix groups).container ops = some (tr, c) ∧
      KeepsRounds (signallers mode) tr ∧
      ∀ w, (waits w tr).length ≤ rounds (signallers mode w) tr ∧
        ∀ i ∈ signallers mode w, i.1 / 3 = w.1 / 3 := by
  have hexec : ∃ tr c, exec mode (Kernel.mix groups).container ops = some (tr, c) ∧
      KeepsRounds (signallers mode) tr := by
    rcases hmode with rfl | rfl | rfl
    · exact exec_mode1 hn hops
    · exact exec_mode2 hn hops
    · exact exec_mode4 hn hops
  obtain ⟨tr, c, hexec, hkeeps⟩ := hexec
  exact ⟨tr, c, hexec, hkeeps, fun w =>
    ⟨hkeeps.waits_le w, fun i hi => signallers_same_group hi⟩⟩

theorem group_modes_keep_rounds_pair :
    ∃ tr c, exec 2 (Kernel.mix 2).container
        [.set 3 7 {}, .wait 5 7 {}, .set 4 7 {}, .wait 5 7 {}, .wait 2 7 {}] = some (tr, c) ∧
      KeepsRounds (signallers 2) tr := by
  obtain ⟨tr, c, hexec, hkeeps, -⟩ := group_modes_keep_rounds 2 (by decide)
    (show 2 = 1 ∨ 2 = 2 ∨ 2 = 4 from Or.inr (Or.inl rfl))
    [.set 3 7 {}, .wait 5 7 {}, .set 4 7 {}, .wait 5 7 {}, .wait 2 7 {}] (by
      simp [Op.FitsMix, wf_default])
  exact ⟨tr, c, hexec, hkeeps⟩

end MsSanitizer.CrossCoreSync
