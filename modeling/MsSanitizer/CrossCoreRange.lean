import MsSanitizer.CrossCoreSync
import Mathlib.Tactic

/-!
# The arrays of the synchronisation between cores

When a call of the container stays within its arrays. First the exact results of the accesses
and of the loops of mode 0; then, for each entry point, the inputs on which no access is out of
range.
-/

namespace MsSanitizer.CrossCoreSync

open RecordDefs EventDef VectorTime

namespace Container

variable {c : Container} {b f : ℕ} {g : BlockSyncInfo → BlockSyncInfo}

/-! ## Single accesses -/

lemma info_eq (hb : b < c.maxBlockNum) (hf : f < maxFlagId) :
    c.info b f = some (c.blockSyncEvent b f) := by
  rw [info, if_pos ⟨hb, hf⟩]

lemma info_eq_none (h : ¬ (b < c.maxBlockNum ∧ f < maxFlagId)) : c.info b f = none := by
  rw [info, if_neg h]

lemma modify_eq (hb : b < c.maxBlockNum) (hf : f < maxFlagId) :
    c.modify b f g = some (c.put b f (g (c.blockSyncEvent b f))) := by
  rw [modify, info_eq hb hf, Option.map_some]

lemma modify_eq_none (h : ¬ (b < c.maxBlockNum ∧ f < maxFlagId)) : c.modify b f g = none := by
  rw [modify, info_eq_none h, Option.map_none]

@[simp] lemma put_maxBlockNum (x : BlockSyncInfo) :
    (c.put b f x).maxBlockNum = c.maxBlockNum := rfl

@[simp] lemma put_kernelType (x : BlockSyncInfo) : (c.put b f x).kernelType = c.kernelType := rfl

@[simp] lemma put_vecSubBlockDim (x : BlockSyncInfo) :
    (c.put b f x).vecSubBlockDim = c.vecSubBlockDim := rfl

lemma put_blockSyncEvent (x : BlockSyncInfo) (b' f' : ℕ) :
    (c.put b f x).blockSyncEvent b' f' =
      if b' = b ∧ f' = f then x else c.blockSyncEvent b' f' := rfl

lemma isSome_modify : (c.modify b f g).isSome = true ↔ b < c.maxBlockNum ∧ f < maxFlagId := by
  by_cases h : b < c.maxBlockNum ∧ f < maxFlagId
  · rw [modify_eq h.1 h.2]
    exact iff_of_true rfl h
  · rw [modify_eq_none h]
    exact iff_of_false (by simp) h

lemma isSome_modify_bind {β : Type} {k : Container → Option β} :
    ((c.modify b f g).bind k).isSome = true ↔
      (b < c.maxBlockNum ∧ f < maxFlagId) ∧
        (k (c.put b f (g (c.blockSyncEvent b f)))).isSome = true := by
  by_cases h : b < c.maxBlockNum ∧ f < maxFlagId
  · rw [modify_eq h.1 h.2, Option.bind_some]
    exact (and_iff_right h).symm
  · rw [modify_eq_none h, Option.bind_none]
    exact iff_of_false (by simp) fun hk => h hk.1

/-! ## The loops of mode 0 -/

def mapFlag (c : Container) (flagId : ℕ) (blocks : List ℕ) (g : BlockSyncInfo → BlockSyncInfo) :
    Container :=
  { c with
    blockSyncEvent := fun b f =>
      if b ∈ blocks ∧ f = flagId then g (c.blockSyncEvent b f) else c.blockSyncEvent b f }

lemma mapFlag_nil : c.mapFlag f [] g = c := by simp [mapFlag]

lemma mapFlag_cons {blocks : List ℕ} (hb : b ∉ blocks) :
    (c.put b f (g (c.blockSyncEvent b f))).mapFlag f blocks g = c.mapFlag f (b :: blocks) g := by
  rw [mapFlag, mapFlag, put]
  congr 1
  funext b' f'
  by_cases hb' : b' = b
  · subst hb'
    by_cases hf : f' = f <;> simp [hb, hf]
  · simp [hb']

/-- The front of the sets of a block is merged into a time. -/
def joinFront (c : Container) (flagId : ℕ) (vt : VectorTime) (i : ℕ) : VectorTime :=
  match (c.blockSyncEvent i flagId).setVec0 with
  | [] => vt
  | t :: _ => updateVectorTime t vt

variable {blocks : List ℕ}

lemma setCount_eq (hf : f < maxFlagId) (hb : ∀ i ∈ blocks, i < c.maxBlockNum) :
    c.setCount f blocks =
      some (blocks.countP fun i => !(c.blockSyncEvent i f).setVec0.isEmpty) := by
  suffices hgen : ∀ n, blocks.foldlM (c.countSet f) n =
      some (n + blocks.countP fun i => !(c.blockSyncEvent i f).setVec0.isEmpty) by
    rw [setCount, hgen 0, Nat.zero_add]
  induction blocks with
  | nil => exact fun n => rfl
  | cons i rest ih =>
    intro n
    have hi : c.countSet f n i =
        some (n + if !(c.blockSyncEvent i f).setVec0.isEmpty then 1 else 0) := by
      rw [countSet, info_eq (hb i (by simp)) hf, Option.map_some]
      cases (c.blockSyncEvent i f).setVec0.isEmpty <;> rfl
    rw [List.foldlM_cons, hi, Option.bind_eq_bind, Option.bind_some,
      ih fun j hj => hb j (by simp [hj]), List.countP_cons, Nat.add_assoc, Nat.add_comm (ite _ _ _)]

lemma takeSet_eq {i : ℕ} (hi : i < c.maxBlockNum) (hf : f < maxFlagId) (vt : VectorTime) :
    takeSet f (vt, c) i = some (c.joinFront f vt i, c.put i f
      (c.blockSyncEvent i f).popSet0) := by
  rw [takeSet, joinFront, info_eq hi hf, Option.bind_eq_bind, Option.bind_some]
  cases hset : (c.blockSyncEvent i f).setVec0 with
  | nil =>
    have hput : c.put i f (c.blockSyncEvent i f).popSet0 = c := by
      rw [put]
      congr 1
      funext b' f'
      by_cases h : b' = i ∧ f' = f
      · rw [if_pos h, h.1, h.2, BlockSyncInfo.popSet0, hset, List.tail_nil, ← hset]
      · rw [if_neg h]
    rw [hput]
    rfl
  | cons t ts =>
    rw [modify_eq hi hf]
    rfl

lemma takeSets_eq (hf : f < maxFlagId) (hb : ∀ i ∈ blocks, i < c.maxBlockNum)
    (hn : blocks.Nodup) :
    c.takeSets f blocks = some (blocks.foldl (c.joinFront f) {},
      c.mapFlag f blocks .popSet0) := by
  -- the blocks that are still to come have the sets that they had at the start
  suffices hgen : ∀ (c' : Container) (vt : VectorTime), c'.maxBlockNum = c.maxBlockNum →
      (∀ i ∈ blocks, c'.blockSyncEvent i f = c.blockSyncEvent i f) →
      blocks.foldlM (takeSet f) (vt, c') = some (blocks.foldl (c.joinFront f) vt,
        c'.mapFlag f blocks .popSet0) from
    hgen c {} rfl fun i _ => rfl
  induction blocks with
  | nil =>
    intro c' vt _ _
    rw [mapFlag_nil]
    rfl
  | cons i rest ih =>
    intro c' vt hmax hsame
    have hi : i < c'.maxBlockNum := by rw [hmax]; exact hb i (by simp)
    obtain ⟨hnotin, hrest⟩ := List.nodup_cons.1 hn
    have hjoin : c'.joinFront f vt i = c.joinFront f vt i := by
      rw [joinFront, joinFront, hsame i (by simp)]
    have hsame' : ∀ j ∈ rest, (c'.put i f (c'.blockSyncEvent i f).popSet0).blockSyncEvent j f =
        c.blockSyncEvent j f := by
      intro j hj
      have hne : j ≠ i := fun h => hnotin (h ▸ hj)
      rw [put_blockSyncEvent, if_neg fun h => hne h.1]
      exact hsame j (by simp [hj])
    rw [List.foldlM_cons, takeSet_eq hi hf, Option.bind_eq_bind, Option.bind_some,
      ih (fun j hj => hb j (by simp [hj])) hrest (c'.put i f _) _ hmax hsame', List.foldl_cons,
      hjoin]
    exact congrArg (fun x => some (_, x)) (mapFlag_cons hnotin)

lemma giveWaits_eq (hf : f < maxFlagId) (hb : ∀ i ∈ blocks, i < c.maxBlockNum)
    (hn : blocks.Nodup) (vt : VectorTime) :
    c.giveWaits f blocks vt =
      some (c.mapFlag f blocks (.pushWait vt)) := by
  rw [giveWaits]
  induction blocks generalizing c with
  | nil => rw [mapFlag_nil]; rfl
  | cons i rest ih =>
    obtain ⟨hnotin, hrest⟩ := List.nodup_cons.1 hn
    rw [List.foldlM_cons, modify_eq (hb i (by simp)) hf, Option.bind_eq_bind,
      Option.bind_some]
    refine (@ih (c.put i f _) (fun j hj => hb j (by simp [hj])) hrest).trans ?_
    exact congrArg some (mapFlag_cons hnotin)

lemma classBlocks_lt {cube : Bool} {i : ℕ} (hi : i ∈ c.classBlocks cube) : i < c.maxBlockNum :=
  List.mem_range.1 (List.mem_filter.1 hi).1

lemma classBlocks_nodup (c : Container) (cube : Bool) : (c.classBlocks cube).Nodup :=
  List.nodup_range.filter _

/-- A round of mode 0 is complete: each block gives one set and may wait once more. -/
def released (c : Container) (flagId : ℕ) (cube : Bool) : Container :=
  c.mapFlag flagId (c.classBlocks cube) fun x =>
    x.popSet0.pushWait ((c.classBlocks cube).foldl (c.joinFront flagId) {})

lemma updateSyncInfoInMode0_eq (hf : f < maxFlagId) (cube : Bool) :
    c.updateSyncInfoInMode0 f cube = some (c.released f cube) := by
  rw [updateSyncInfoInMode0, takeSets_eq hf (fun i hi => classBlocks_lt hi)
    (c.classBlocks_nodup cube), Option.bind_eq_bind, Option.bind_some]
  refine (giveWaits_eq (c := c.mapFlag f (c.classBlocks cube) .popSet0) hf
    (fun i hi => classBlocks_lt hi) (classBlocks_nodup _ cube) _).trans ?_
  congr 1
  simp only [released, mapFlag, classBlocks]
  congr 1
  funext b' f'
  split_ifs <;> rfl

/-- The blocks of the class of a block that have a set of the flag. -/
def waiting (c : Container) (flagId : ℕ) (cube : Bool) : ℕ :=
  (c.classBlocks cube).countP fun i => !(c.blockSyncEvent i flagId).setVec0.isEmpty

def needed (c : Container) (cube : Bool) : ℕ := if cube then c.getAICCount else c.getAIVCount

lemma setMode0SyncInfo_eq (hb : b < c.maxBlockNum) (hf : f < maxFlagId) (t : VectorTime) :
    c.setMode0SyncInfo f b t =
      let c := c.put b f ((c.blockSyncEvent b f).pushSet0 t)
      let cube := isAIC b c.kernelType
      some (if c.waiting f cube = c.needed cube then c.released f cube else c) := by
  rw [setMode0SyncInfo, modify_eq hb hf, Option.bind_eq_bind, Option.bind_some]
  simp only [setCount_eq hf (fun i hi => classBlocks_lt hi), Option.bind_eq_bind,
    Option.bind_some, updateSyncInfoInMode0_eq hf, waiting, needed]
  split_ifs <;> rfl

end Container

/-! ## The blocks that a set reaches -/

/-- The vector block that `SetMode1SyncInfo` and `SetMode2SyncInfo` pair a vector block with; in
a vector kernel a block with the index of a cube block gets one of the group before. -/
def otherVector (b : ℕ) : ℕ := if b % 3 = 0 then b + 1 else if b % 3 = 1 then b - 1 else b - 3

def HasOtherVector (blockNum b : ℕ) : Prop :=
  (b % 3 = 0 → b + 1 < blockNum) ∧ (b % 3 = 2 → 3 ≤ b)

/-- The cube block of the group of a vector block is there. -/
def HasGroupCube (blockNum b : ℕ) : Prop := b / 3 * 3 + 2 < blockNum

/-- The cube block of a vector block in a kernel with one vector core for each cube core is
there; the vector core with number `n` has the cube core with number `n`. -/
def HasSingleCube (blockNum b : ℕ) : Prop := 3 * (b / 3 * 2 + b % 3) + 2 < blockNum

variable {n b : ℕ}

/-- More blocks than the limit `MAX_BLOCKDIM_NUMS` on the block dimension allows by far; below
this number the arithmetic of 32 bits wraps only where it goes below zero. -/
def blockNumBound : ℕ := 2 ^ 30

lemma aivInGroup_lt_iff (hb : b < n) (hn : n < blockNumBound) :
    Container.aivInGroup b < n ↔ HasOtherVector n b := by
  simp only [Container.aivInGroup, HasOtherVector, c220VecSubBlockDim, c220MixSubBlockDim,
    blockNumBound] at hn ⊢
  omega

lemma aivInGroup_eq (hb : b < n) (hn : n < blockNumBound) (h : HasOtherVector n b) :
    Container.aivInGroup b = otherVector b := by
  simp only [Container.aivInGroup, HasOtherVector, otherVector, c220VecSubBlockDim,
    c220MixSubBlockDim, blockNumBound] at hn h ⊢
  split_ifs <;> omega

lemma otherVector_ne (b : ℕ) (_ : b % 3 = 2 → 3 ≤ b) : otherVector b ≠ b := by
  rw [otherVector]
  split_ifs <;> omega

lemma aicInGroup_lt_iff (hb : b < n) (hn : n < blockNumBound) :
    Container.aicInGroup b < n ↔ HasGroupCube n b := by
  simp only [Container.aicInGroup, HasGroupCube, c220MixSubBlockDim, c220VecSubBlockDim,
    blockNumBound] at hn ⊢
  omega

lemma aicOfSingle_lt_iff (hb : b < n) (hn : n < blockNumBound) :
    Container.aicOfSingle b < n ↔ HasSingleCube n b := by
  simp only [Container.aicOfSingle, HasSingleCube, c220MixSubBlockDim, c220VecSubBlockDim,
    blockNumBound] at hn ⊢
  omega

lemma aivOfSingle_lt (hb : b < n) : Container.aivOfSingle b < n := by
  simp only [Container.aivOfSingle, c220VecSubBlockDim, c220MixSubBlockDim]
  omega

lemma before_lt_iff (hb : b < n) (hn : n < blockNumBound) {k : ℕ} (hk : k ≤ 2) :
    Container.before b k < n ↔ k ≤ b := by
  simp only [Container.before, blockNumBound] at hn ⊢
  omega

/-! ## When a call stays in range -/

/-- The inputs on which `SetBlockSyncInfo` stays within the arrays. -/
def SetInRange (c : Container) (flagId mode blockIdx vecSubBlockDim : ℕ) : Prop :=
  let cube := isAIC blockIdx c.kernelType
  maxFlagId < flagId ∨
    match mode with
    | 0 => flagId < maxFlagId
    | 1 => cube = true ∨ (flagId < maxFlagId ∧ HasOtherVector c.maxBlockNum blockIdx)
    | 2 =>
      vecSubBlockDim = 0 ∨
        (flagId < maxFlagId ∧
          if vecSubBlockDim = 1 then cube = true ∨ HasSingleCube c.maxBlockNum blockIdx
          else if cube then 2 ≤ blockIdx
          else
            HasOtherVector c.maxBlockNum blockIdx ∧
              ((c.blockSyncEvent (otherVector blockIdx) flagId).setVec2 = [] ∨
                HasGroupCube c.maxBlockNum blockIdx))
    | 4 =>
      vecSubBlockDim = 0 ∨
        if cube then
          flagId < maxFlagId ∧
            (vecSubBlockDim = 1 ∨ 2 ≤ blockIdx ∨ (blockIdx = 1 ∧ 16 ≤ flagId))
        else if vecSubBlockDim = 1 then HasSingleCube c.maxBlockNum blockIdx
        else HasGroupCube c.maxBlockNum blockIdx
    | _ => True

namespace Container

variable {c : Container} {b f : ℕ} {t : VectorTime}

lemma isSome_setMode1SyncInfo (hn : c.maxBlockNum < blockNumBound) (hb : b < c.maxBlockNum) :
    (c.setMode1SyncInfo f b t).isSome = true ↔
      isAIC b c.kernelType = true ∨ (f < maxFlagId ∧ HasOtherVector c.maxBlockNum b) := by
  simp only [setMode1SyncInfo, Option.bind_eq_bind]
  cases hcube : isAIC b c.kernelType with
  | true => exact iff_of_true rfl (Or.inl rfl)
  | false =>
    rw [if_neg Bool.false_ne_true, or_iff_right Bool.false_ne_true, ← aivInGroup_lt_iff hb hn]
    by_cases h : aivInGroup b < c.maxBlockNum ∧ f < maxFlagId
    · refine iff_of_true ?_ ⟨h.2, h.1⟩
      rw [info_eq h.1 h.2, Option.bind_some]
      split
      · simp only [isSome_modify_bind, isSome_modify, put_maxBlockNum]
        exact ⟨h, ⟨hb, h.2⟩, h⟩
      · exact isSome_modify.2 ⟨hb, h.2⟩
    · rw [info_eq_none h]
      exact iff_of_false (by simp) fun hor => h ⟨hor.2, hor.1⟩

lemma isSome_setMode2SyncInfo (hn : c.maxBlockNum < blockNumBound) (hb : b < c.maxBlockNum)
    (d : ℕ) :
    (c.setMode2SyncInfo f b t d).isSome = true ↔
      d = 0 ∨ (f < maxFlagId ∧
        if d = 1 then isAIC b c.kernelType = true ∨ HasSingleCube c.maxBlockNum b
        else if isAIC b c.kernelType then 2 ≤ b
        else
          HasOtherVector c.maxBlockNum b ∧
            ((c.blockSyncEvent (otherVector b) f).setVec2 = [] ∨
              HasGroupCube c.maxBlockNum b)) := by
  rw [setMode2SyncInfo]
  by_cases hd : d = 0
  · rw [if_pos hd]
    exact iff_of_true rfl (Or.inl hd)
  rw [if_neg hd, or_iff_right hd, Option.bind_eq_bind, isSome_modify_bind, and_iff_right hb]
  refine and_congr_right fun hf => ?_
  rw [put_kernelType]
  cases hcube : isAIC b c.kernelType with
  | true =>
    by_cases hd1 : d = 1
    · simp only [hd1, if_true, true_or, iff_true, Option.bind_eq_bind, isSome_modify_bind,
        isSome_modify, put_maxBlockNum]
      exact ⟨⟨aivOfSingle_lt hb, hf⟩, hb, hf⟩
    · simp only [hd1, if_true, if_false, Option.bind_eq_bind, isSome_modify_bind, isSome_modify,
        put_maxBlockNum, hb, hf, and_true, before_lt_iff hb hn (show 1 ≤ 2 by decide),
        before_lt_iff hb hn le_rfl]
      omega
  | false =>
    by_cases hd1 : d = 1
    · simp only [hd1, if_true, Bool.false_eq_true, if_false, false_or, Option.bind_eq_bind,
        isSome_modify_bind, isSome_modify, put_maxBlockNum, hb, hf, and_true,
        aicOfSingle_lt_iff hb hn]
    simp only [hd1, if_false, Bool.false_eq_true, Option.bind_eq_bind]
    by_cases ho : HasOtherVector c.maxBlockNum b
    · have h := (aivInGroup_lt_iff hb hn).2 ho
      rw [info_eq (c := c.put b f _) h hf, Option.bind_some, put_blockSyncEvent, and_iff_right ho]
      rw [aivInGroup_eq hb hn ho] at h ⊢
      rw [if_neg fun he => otherVector_ne b ho.2 he.1]
      cases hset : (c.blockSyncEvent (otherVector b) f).setVec2 with
      | nil => simp
      | cons s rest =>
        simp only [isSome_modify_bind, isSome_modify, put_maxBlockNum, hb, hf, h, and_true,
          reduceCtorEq, false_or, aicInGroup_lt_iff hb hn]
    · rw [info_eq_none (c := c.put b f _) fun hk => ho ((aivInGroup_lt_iff hb hn).1 hk.1)]
      exact iff_of_false (by simp) fun hk => ho hk.1

lemma addFlagIdWarnInfo_eq (s : ℕ) (loc : LocInfo) (serialNo : ℕ) :
    ∃ w, c.addFlagIdWarnInfo b s loc serialNo = { c with flagIdWarnInfo := w } := by
  rw [addFlagIdWarnInfo]
  split
  · exact ⟨_, rfl⟩
  · exact ⟨c.flagIdWarnInfo, rfl⟩

lemma isSome_setMode4SyncInfo (hn : c.maxBlockNum < blockNumBound) (hb : b < c.maxBlockNum)
    (d : ℕ) (loc : LocInfo) (serialNo : ℕ) :
    (c.setMode4SyncInfo f b t d loc serialNo).isSome = true ↔
      d = 0 ∨
        if isAIC b c.kernelType then
          f < maxFlagId ∧ (d = 1 ∨ 2 ≤ b ∨ (b = 1 ∧ 16 ≤ f))
        else if d = 1 then HasSingleCube c.maxBlockNum b
        else HasGroupCube c.maxBlockNum b := by
  rw [setMode4SyncInfo]
  by_cases hd : d = 0
  · rw [if_pos hd]
    exact iff_of_true rfl (Or.inl hd)
  obtain ⟨w, hw⟩ := c.addFlagIdWarnInfo_eq (b := b) f loc serialNo
  rw [if_neg hd, or_iff_right hd, hw]
  by_cases hcube : isAIC b c.kernelType = true
  · have hcut : cutSyncId c.kernelType b f = f := by simp [cutSyncId, hcube]
    simp only [Option.bind_eq_bind, isSome_modify_bind, and_iff_right hb, put_kernelType, hcut,
      hcube, if_true]
    refine and_congr_right fun hlt => ?_
    have h31 : f ≤ 31 := by rw [maxFlagId] at hlt; omega
    by_cases hd1 : d = 1
    · simp only [hd1, if_true, true_or, iff_true, isSome_modify_bind, isSome_modify,
        put_maxBlockNum]
      exact ⟨⟨aivOfSingle_lt hb, hlt⟩, hb, hlt⟩
    · have h16 : f - 16 < maxFlagId := by omega
      simp only [hd1, if_false, false_or, h31, if_true]
      by_cases h15 : f ≤ 15
      · rw [if_pos h15]
        simp only [isSome_modify_bind, isSome_modify, put_maxBlockNum, hb, hlt, and_true,
          before_lt_iff hb hn le_rfl]
        omega
      · rw [if_neg h15]
        simp only [isSome_modify_bind, isSome_modify, put_maxBlockNum, hb, hlt, h16, and_true,
          before_lt_iff hb hn (show 1 ≤ 2 by decide)]
        omega
  · have hcut : cutSyncId c.kernelType b f < 16 := by
      simp only [cutSyncId, hcube, Bool.not_false, Bool.true_and, decide_eq_true_eq]
      split_ifs <;> omega
    have hlt : cutSyncId c.kernelType b f < maxFlagId := by rw [maxFlagId]; omega
    have hlt16 : cutSyncId c.kernelType b f + 16 < maxFlagId := by rw [maxFlagId]; omega
    simp only [Option.bind_eq_bind, isSome_modify_bind, and_iff_right hb, put_kernelType,
      and_iff_right hlt, hcube, Bool.false_eq_true, if_false]
    by_cases hd1 : d = 1
    · simp only [hd1, if_true, isSome_modify_bind, isSome_modify, put_maxBlockNum, hb, hlt,
        and_true, aicOfSingle_lt_iff hb hn]
    · simp only [hd1, if_false]
      split_ifs
      · simp only [isSome_modify_bind, isSome_modify, put_maxBlockNum, hb, hlt, and_true,
          aicInGroup_lt_iff hb hn]
      · simp only [isSome_modify_bind, isSome_modify, put_maxBlockNum, hb, hlt, hlt16, and_true,
          aicInGroup_lt_iff hb hn]

lemma isSome_setBlockSyncInfo (hn : c.maxBlockNum < blockNumBound) (hb : b < c.maxBlockNum)
    (mode d : ℕ) (loc : LocInfo) (serialNo : ℕ) :
    (c.setBlockSyncInfo f mode b t d loc serialNo).isSome = true ↔ SetInRange c f mode b d := by
  unfold setBlockSyncInfo
  by_cases hf : maxFlagId < f
  · rw [if_pos hf]
    exact iff_of_true rfl (Or.inl hf)
  rw [if_neg hf, if_neg (by omega)]
  simp only [SetInRange, hf, false_or]
  split
  · refine ⟨fun h => ?_, fun h => ?_⟩
    · rw [setMode0SyncInfo, Option.bind_eq_bind, isSome_modify_bind] at h
      exact h.1.2
    · rw [setMode0SyncInfo_eq hb h]
      rfl
  · exact isSome_setMode1SyncInfo hn hb
  · exact isSome_setMode2SyncInfo hn hb d
  · exact isSome_setMode4SyncInfo hn hb d loc serialNo
  · refine iff_of_true rfl ?_
    grind

lemma isSome_wait {s : ℕ} (hb : b < c.maxBlockNum) {que : BlockSyncInfo → List VectorTime}
    {pop : BlockSyncInfo → BlockSyncInfo} :
    ((c.info b s).bind fun x =>
      match que x with
      | [] => some (none, c)
      | t' :: _ => (c.modify b s pop).bind fun c =>
          some (some (updateVectorTime t' t), c)).isSome = true ↔ s < maxFlagId := by
  by_cases hs : s < maxFlagId
  · rw [info_eq hb hs, Option.bind_some, modify_eq hb hs]
    refine iff_of_true ?_ hs
    split <;> rfl
  · rw [info_eq_none fun h => hs h.2]
    exact iff_of_false (by simp) hs

end Container

/-- **The accesses that stay in range.** For a block of the container, `SetBlockSyncInfo` stays
within the arrays exactly on the inputs of `SetInRange`; `GetBlockSyncInfo` exactly when the flag
is below `MAX_FLAG_ID`, and `GetIntraBlockSyncInfo` then or on a vector block, where the flag is
cut. -/
theorem accesses_inRange_iff (c : Container) (hn : c.maxBlockNum < blockNumBound) {b : ℕ}
    (hb : b < c.maxBlockNum) (flagId mode vecSubBlockDim : ℕ) (t : VectorTime) (loc : LocInfo)
    (serialNo : ℕ) :
    ((c.setBlockSyncInfo flagId mode b t vecSubBlockDim loc serialNo).isSome = true ↔
        SetInRange c flagId mode b vecSubBlockDim) ∧
      ((c.getBlockSyncInfo flagId b t).isSome = true ↔ flagId < maxFlagId) ∧
      ((c.getIntraBlockSyncInfo flagId b t).isSome = true ↔
        flagId < maxFlagId ∨ isAIC b c.kernelType = false) := by
  refine ⟨Container.isSome_setBlockSyncInfo hn hb mode vecSubBlockDim loc serialNo, ?_, ?_⟩
  · rw [Container.getBlockSyncInfo, if_neg (by omega)]
    exact Container.isSome_wait hb
  · rw [Container.getIntraBlockSyncInfo, if_neg (by omega)]
    refine (Container.isSome_wait hb).trans ?_
    simp only [Container.cutSyncId, maxFlagId]
    cases isAIC b c.kernelType with
    | true => simp
    | false =>
      simp only [Bool.not_false, Bool.true_and, decide_eq_true_eq, or_true, iff_true]
      split_ifs <;> omega

theorem accesses_inRange_mix :
    ((Container.init 3 .mix).setBlockSyncInfo 31 4 2 {} 2 {} 0).isSome = true :=
  (accesses_inRange_iff (.init 3 .mix) (by decide) (by decide) 31 4 2 {} {} 0).1.2
    (Or.inr (Or.inr (by rw [if_pos (by decide)]; decide)))

/-- Flag 32 passes the check of `SetBlockSyncInfo` and is not in the array; a wait checks no flag
at all, and the cube block that mode 2 takes for a vector block of a single block kernel is
missing. -/
theorem accesses_out_of_range :
    (Container.init 1 .aivec).setBlockSyncInfo 32 0 0 {} 2 {} 0 = none ∧
      (Container.init 1 .aivec).getBlockSyncInfo 200 0 {} = none ∧
      (Container.init 1 .aivec).setBlockSyncInfo 0 2 0 {} 1 {} 0 = none :=
  ⟨rfl, rfl, rfl⟩

end MsSanitizer.CrossCoreSync
