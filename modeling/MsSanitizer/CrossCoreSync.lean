import MsSanitizer.EventDef

/-!
# Synchronisation between cores

The model of `cross_core_sync_info_container.h` and `.cpp`. The container has, for each block and
each flag, queues of the times of sets that wait for their round to be complete (one queue for
each mode) and queues of the times that waits may take. A mix kernel has three blocks for each
core: two vector blocks and, at the index `2` modulo `3`, a cube block.

An access to the arrays goes through `info` and `modify`, which are `none` out of range; so a
function that makes such an access is `none` as well. Block indexes have 32 bits: where the
source subtracts, or multiplies by more than it divides by, the model reduces.
-/

namespace MsSanitizer.CrossCoreSync

open RecordDefs EventDef VectorTime

structure SemCores where
  cores : ℤ := 0
  semSync : ℕ := 0
  semAfterSync : ℕ := 0
  deriving DecidableEq, Repr

def decr (n : ℕ) : ℕ := (n + 2 ^ 32 - 1) % 2 ^ 32

def SemCores.wait (s : SemCores) : Bool × SemCores :=
  if s.semSync = 0 then (true, { s with semAfterSync := decr s.semAfterSync })
  else if decr s.semSync = 0 then
    (true, { s with semSync := 0, semAfterSync := decr s.semAfterSync })
  else (false, { s with semSync := decr s.semSync })

/-- `SemCores::RemainSyncAllCount`, which returns 8 bits. -/
def SemCores.remainSyncAllCount (s : SemCores) : ℕ := s.semSync % 2 ^ 8

def SemCores.isFinished (s : SemCores) : Bool := s.semSync == 0 && s.semAfterSync == 0

def SemCores.reset (cores : ℤ) : SemCores :=
  { cores, semSync := (cores % 2 ^ 32).toNat, semAfterSync := (cores % 2 ^ 32).toNat }

/-- `BlockSyncInfo`: the head of a list is the front of the queue. -/
structure BlockSyncInfo where
  setVec0 : List VectorTime := []
  setVec1 : List VectorTime := []
  setVec2 : List VectorTime := []
  setVec4 : List VectorTime := []
  waitVec : List VectorTime := []
  intrablockwaitVec : List VectorTime := []
  deriving DecidableEq, Repr

/-! The pushes and pops of the queues of a block. -/

namespace BlockSyncInfo

def pushSet0 (t : VectorTime) (x : BlockSyncInfo) : BlockSyncInfo :=
  { x with setVec0 := x.setVec0 ++ [t] }

def popSet0 (x : BlockSyncInfo) : BlockSyncInfo := { x with setVec0 := x.setVec0.tail }

def pushSet1 (t : VectorTime) (x : BlockSyncInfo) : BlockSyncInfo :=
  { x with setVec1 := x.setVec1 ++ [t] }

def popSet1 (x : BlockSyncInfo) : BlockSyncInfo := { x with setVec1 := x.setVec1.tail }

def pushSet2 (t : VectorTime) (x : BlockSyncInfo) : BlockSyncInfo :=
  { x with setVec2 := x.setVec2 ++ [t] }

def popSet2 (x : BlockSyncInfo) : BlockSyncInfo := { x with setVec2 := x.setVec2.tail }

def pushSet4 (t : VectorTime) (x : BlockSyncInfo) : BlockSyncInfo :=
  { x with setVec4 := x.setVec4 ++ [t] }

def popSet4 (x : BlockSyncInfo) : BlockSyncInfo := { x with setVec4 := x.setVec4.tail }

def pushWait (t : VectorTime) (x : BlockSyncInfo) : BlockSyncInfo :=
  { x with waitVec := x.waitVec ++ [t] }

def popWait (x : BlockSyncInfo) : BlockSyncInfo := { x with waitVec := x.waitVec.tail }

def pushIntra (t : VectorTime) (x : BlockSyncInfo) : BlockSyncInfo :=
  { x with intrablockwaitVec := x.intrablockwaitVec ++ [t] }

def popIntra (x : BlockSyncInfo) : BlockSyncInfo :=
  { x with intrablockwaitVec := x.intrablockwaitVec.tail }

end BlockSyncInfo

structure BlockSoftSyncInfo where
  mapVectorTime : ℤ → Option VectorTime := fun _ => none
  syncAll : Bool := false
  pipeIdx : ℕ := 0

/-- `CrossCoreSyncWarnInfo`: the flag id of a set in mode 4 that was cut, and where. -/
structure CrossCoreSyncWarnInfo where
  flagId : ℕ
  serialNo : ℕ
  loc : LocInfo
  deriving DecidableEq, Repr

/-- `MAX_FLAG_ID`, the number of flags of a block. -/
def maxFlagId : ℕ := 32

/-- `CrossCoreSyncInfoContainer`. -/
structure Container where
  maxBlockNum : ℕ := 0
  kernelType : KernelType := .aivec
  vecSubBlockDim : ℕ := c220VecSubBlockDim
  blockSyncEvent : ℕ → ℕ → BlockSyncInfo := fun _ _ => {}
  blockSoftSyncInfo : ℕ → BlockSoftSyncInfo := fun _ => {}
  mstxCrossSetMap : ℕ × ℕ → Option (List VectorTime) := fun _ => none
  semCores : SemCores := {}
  flagIdWarnInfo : List CrossCoreSyncWarnInfo := []

namespace Container

def init (blockNum : ℕ) (kernelType : KernelType) : Container :=
  { maxBlockNum := blockNum, kernelType }

def setVecSubBlockDim (c : Container) (vecSubBlockDim : ℕ) : Container :=
  { c with vecSubBlockDim }

/-- The read access `blockSyncEvent_[blockIdx][flagId]`. -/
def info (c : Container) (blockIdx flagId : ℕ) : Option BlockSyncInfo :=
  if blockIdx < c.maxBlockNum ∧ flagId < maxFlagId then some (c.blockSyncEvent blockIdx flagId)
  else none

def put (c : Container) (blockIdx flagId : ℕ) (x : BlockSyncInfo) : Container :=
  { c with
    blockSyncEvent := fun b f =>
      if b = blockIdx ∧ f = flagId then x else c.blockSyncEvent b f }

/-- The write access `blockSyncEvent_[blockIdx][flagId]`. -/
def modify (c : Container) (blockIdx flagId : ℕ) (g : BlockSyncInfo → BlockSyncInfo) :
    Option Container :=
  (c.info blockIdx flagId).map fun x => c.put blockIdx flagId (g x)

end Container

def isAIC (blockIndex : ℕ) : KernelType → Bool
  | .aicube => true
  | .mix => blockIndex % c220MixSubBlockDim == c220VecSubBlockDim
  | _ => false

namespace Container

def getAIVCount (c : Container) : ℕ :=
  if c.kernelType = .mix then c.maxBlockNum / c220MixSubBlockDim * c.vecSubBlockDim
  else c.maxBlockNum

def getAICCount (c : Container) : ℕ :=
  if c.kernelType = .mix then c.maxBlockNum / c220MixSubBlockDim else c.maxBlockNum

/-! ## Mode 0: all vector cores, or all cube cores -/

/-- The blocks that the loops over vector blocks visit, and those that the loops from `2` in
steps of three visit. -/
def classBlocks (c : Container) (cube : Bool) : List ℕ :=
  (List.range c.maxBlockNum).filter fun i =>
    if cube then i % c220MixSubBlockDim == c220VecSubBlockDim else !isAIC i c.kernelType

/-- One round of the loop that counts the blocks with a set. -/
def countSet (c : Container) (flagId n i : ℕ) : Option ℕ :=
  (c.info i flagId).map fun x => if x.setVec0.isEmpty then n else n + 1

def setCount (c : Container) (flagId : ℕ) (blocks : List ℕ) : Option ℕ :=
  blocks.foldlM (c.countSet flagId) 0

/-- One round of the first loop of `UpdateSyncInfoInMode0`. -/
def takeSet (flagId : ℕ) (p : VectorTime × Container) (i : ℕ) :
    Option (VectorTime × Container) := do
  let x ← p.2.info i flagId
  match x.setVec0 with
  | [] => pure p
  | t :: _ =>
    let c ← p.2.modify i flagId .popSet0
    pure (updateVectorTime t p.1, c)

/-- The first loop of `UpdateSyncInfoInMode0`: one set of each block is taken. -/
def takeSets (c : Container) (flagId : ℕ) (blocks : List ℕ) : Option (VectorTime × Container) :=
  blocks.foldlM (takeSet flagId) ({}, c)

/-- The second loop of `UpdateSyncInfoInMode0`: every block may wait once more. -/
def giveWaits (c : Container) (flagId : ℕ) (blocks : List ℕ) (vt : VectorTime) :
    Option Container :=
  blocks.foldlM (fun c i => c.modify i flagId (.pushWait vt)) c

def updateSyncInfoInMode0 (c : Container) (flagId : ℕ) (cube : Bool) : Option Container := do
  let (vt, c) ← c.takeSets flagId (c.classBlocks cube)
  c.giveWaits flagId (c.classBlocks cube) vt

def setMode0SyncInfo (c : Container) (flagId blockIdx : ℕ) (vectorTime : VectorTime) :
    Option Container := do
  let c ← c.modify blockIdx flagId (.pushSet0 vectorTime)
  let cube := isAIC blockIdx c.kernelType
  let setCount ← c.setCount flagId (c.classBlocks cube)
  if setCount = (if cube then c.getAICCount else c.getAIVCount) then
    c.updateSyncInfoInMode0 flagId cube
  else pure c

/-! ## Mode 1: the two vector cores of a group -/

def aivInGroup (blockIdx : ℕ) : ℕ :=
  (c220VecSubBlockDim + 2 ^ 32 - blockIdx % c220MixSubBlockDim - 1 +
    blockIdx / c220MixSubBlockDim * c220MixSubBlockDim) % 2 ^ 32

def setMode1SyncInfo (c : Container) (flagId blockIdx : ℕ) (vectorTime : VectorTime) :
    Option Container := do
  if isAIC blockIdx c.kernelType then pure c
  else
    let other := aivInGroup blockIdx
    let x ← c.info other flagId
    match x.setVec1 with
    | t :: _ =>
      let blv := updateVectorTime vectorTime t
      let c ← c.modify other flagId .popSet1
      let c ← c.modify blockIdx flagId (.pushWait blv)
      c.modify other flagId (.pushWait blv)
    | [] => c.modify blockIdx flagId (.pushSet1 vectorTime)

/-! ## Modes 2 and 4: the cube core and the vector cores of a group -/

/-- The vector block that goes with a cube block when a group has one vector core. -/
def aivOfSingle (blockIdx : ℕ) : ℕ :=
  blockIdx / c220MixSubBlockDim / c220VecSubBlockDim * c220MixSubBlockDim +
    blockIdx / c220MixSubBlockDim % c220VecSubBlockDim

/-- The cube block that goes with a vector block when a group has one vector core. -/
def aicOfSingle (blockIdx : ℕ) : ℕ :=
  (c220MixSubBlockDim * (blockIdx / c220MixSubBlockDim * c220VecSubBlockDim +
    blockIdx % c220MixSubBlockDim) + c220VecSubBlockDim) % 2 ^ 32

def aicInGroup (blockIdx : ℕ) : ℕ :=
  (2 + blockIdx / c220MixSubBlockDim * c220MixSubBlockDim) % 2 ^ 32

/-- `blockIdx - n`. -/
def before (blockIdx n : ℕ) : ℕ := (blockIdx + 2 ^ 32 - n) % 2 ^ 32

def setMode2SyncInfo (c : Container) (flagId blockIdx : ℕ) (vectorTime : VectorTime)
    (vecSubBlockDim : ℕ) : Option Container := do
  if vecSubBlockDim = 0 then pure c
  else
    let c ← c.modify blockIdx flagId (.pushSet2 vectorTime)
    if vecSubBlockDim = 1 then
      if isAIC blockIdx c.kernelType then
        let c ← c.modify (aivOfSingle blockIdx) flagId (.pushWait vectorTime)
        c.modify blockIdx flagId .popSet2
      else
        let c ← c.modify (aicOfSingle blockIdx) flagId (.pushWait vectorTime)
        c.modify blockIdx flagId .popSet2
    else if isAIC blockIdx c.kernelType then
      let c ← c.modify (before blockIdx 1) flagId (.pushWait vectorTime)
      let c ← c.modify (before blockIdx 2) flagId (.pushWait vectorTime)
      c.modify blockIdx flagId .popSet2
    else
      let x ← c.info (aivInGroup blockIdx) flagId
      match x.setVec2 with
      | [] => pure c
      | t :: _ =>
        let c ← c.modify (aicInGroup blockIdx) flagId (.pushWait (updateVectorTime vectorTime t))
        let c ← c.modify blockIdx flagId .popSet2
        c.modify (aivInGroup blockIdx) flagId .popSet2

/-- The flag id that counts: on a vector core the hardware cuts it to four bits. -/
def cutSyncId (kernelType : KernelType) (blockIdx syncId : ℕ) : ℕ :=
  if !isAIC blockIdx kernelType && decide (16 ≤ syncId) then syncId % 16 else syncId

/-- `AddFlagIdWarnInfo`, where the id was cut. -/
def addFlagIdWarnInfo (c : Container) (blockIdx syncId : ℕ) (loc : LocInfo) (serialNo : ℕ) :
    Container :=
  if !isAIC blockIdx c.kernelType && decide (16 ≤ syncId) then
    { c with flagIdWarnInfo := c.flagIdWarnInfo ++ [{ flagId := syncId, serialNo, loc }] }
  else c

def setMode4SyncInfo (c : Container) (flagId blockIdx : ℕ) (vectorTime : VectorTime)
    (vecSubBlockDim : ℕ) (loc : LocInfo) (serialNo : ℕ) : Option Container := do
  if vecSubBlockDim = 0 then pure c
  else
    let syncId := cutSyncId c.kernelType blockIdx flagId
    let c := c.addFlagIdWarnInfo blockIdx flagId loc serialNo
    let c ← c.modify blockIdx syncId (.pushSet4 vectorTime)
    if vecSubBlockDim = 1 then
      if isAIC blockIdx c.kernelType then
        let c ← c.modify (aivOfSingle blockIdx) syncId (.pushIntra vectorTime)
        c.modify blockIdx syncId .popSet4
      else
        let c ← c.modify (aicOfSingle blockIdx) syncId (.pushIntra vectorTime)
        c.modify blockIdx syncId .popSet4
    else if isAIC blockIdx c.kernelType then
      if syncId ≤ 15 then
        let c ← c.modify (before blockIdx 2) syncId (.pushIntra vectorTime)
        c.modify blockIdx syncId .popSet4
      else if syncId ≤ 31 then
        let c ← c.modify (before blockIdx 1) (syncId - 16) (.pushIntra vectorTime)
        c.modify blockIdx syncId .popSet4
      else c.modify blockIdx syncId .popSet4
    else if blockIdx = blockIdx / c220MixSubBlockDim * c220MixSubBlockDim then
      let c ← c.modify (aicInGroup blockIdx) syncId (.pushIntra vectorTime)
      c.modify blockIdx syncId .popSet4
    else
      let c ← c.modify (aicInGroup blockIdx) (syncId + 16) (.pushIntra vectorTime)
      c.modify blockIdx syncId .popSet4

/-! ## The entry points -/

def setBlockSyncInfo (c : Container) (flagId mode blockIdx : ℕ) (vectorTime : VectorTime)
    (vecSubBlockDim : ℕ := 2) (loc : LocInfo := {}) (serialNo : ℕ := 0) : Option Container :=
  if maxFlagId < flagId then some c
  else if c.maxBlockNum ≤ blockIdx then some c
  else match mode with
    | 0 => c.setMode0SyncInfo flagId blockIdx vectorTime
    | 1 => c.setMode1SyncInfo flagId blockIdx vectorTime
    | 2 => c.setMode2SyncInfo flagId blockIdx vectorTime vecSubBlockDim
    | 4 => c.setMode4SyncInfo flagId blockIdx vectorTime vecSubBlockDim loc serialNo
    | _ => some c

/-- `GetBlockSyncInfo`: the time merged with the one that was waited for, where it returns
`true`, and the container after the call. -/
def getBlockSyncInfo (c : Container) (flagId blockIdx : ℕ) (vectorTime : VectorTime) :
    Option (Option VectorTime × Container) := do
  if c.maxBlockNum ≤ blockIdx then pure (none, c)
  else
    let x ← c.info blockIdx flagId
    match x.waitVec with
    | [] => pure (none, c)
    | t :: _ => pure (some (updateVectorTime t vectorTime),
        ← c.modify blockIdx flagId .popWait)

def getIntraBlockSyncInfo (c : Container) (flagId blockIdx : ℕ) (vectorTime : VectorTime) :
    Option (Option VectorTime × Container) := do
  if c.maxBlockNum ≤ blockIdx then pure (none, c)
  else
    let syncId := cutSyncId c.kernelType blockIdx flagId
    let x ← c.info blockIdx syncId
    match x.intrablockwaitVec with
    | [] => pure (none, c)
    | t :: _ => pure (some (updateVectorTime t vectorTime),
        ← c.modify blockIdx syncId .popIntra)

/-! ## Soft synchronisation -/

/-- The soft flags of one block are set to `m`. -/
def putSoft (c : Container) (blockIdx : ℕ) (m : ℤ → Option VectorTime) : Container :=
  { c with
    blockSoftSyncInfo := Function.update c.blockSoftSyncInfo blockIdx
      { c.blockSoftSyncInfo blockIdx with mapVectorTime := m } }

def setBlockSoftSyncInfo (c : Container) (eventID : ℤ) (blockIdx : ℕ) (vectorTime : VectorTime) :
    Container :=
  if c.maxBlockNum ≤ blockIdx then c
  else
    c.putSoft blockIdx
      (Function.update (c.blockSoftSyncInfo blockIdx).mapVectorTime eventID (some vectorTime))

def consumeBlockSoftSyncInfo (c : Container) (eventID : ℤ) (blockIdx : ℕ)
    (vectorTime : VectorTime) : Option VectorTime × Container :=
  match (c.blockSoftSyncInfo blockIdx).mapVectorTime eventID with
  | none => (none, c)
  | some t =>
    (some (updateVectorTime t vectorTime),
      c.putSoft blockIdx
        (Function.update (c.blockSoftSyncInfo blockIdx).mapVectorTime eventID none))

/-- The loop of `GetBlockSoftSyncInfo` over all blocks. -/
def consumeAnySoft (c : Container) (eventID : ℤ) (vectorTime : VectorTime) :
    List ℕ → Option VectorTime × Container
  | [] => (none, c)
  | blockIdx :: rest =>
    match c.consumeBlockSoftSyncInfo eventID blockIdx vectorTime with
    | (some t, c) => (some t, c)
    | (none, _) => c.consumeAnySoft eventID vectorTime rest

def getBlockSoftSyncInfo (c : Container) (eventID peerCoreId : ℤ) (vectorTime : VectorTime) :
    Option VectorTime × Container :=
  if 0 ≤ peerCoreId then
    if c.maxBlockNum ≤ peerCoreId.toNat then (none, c)
    else c.consumeBlockSoftSyncInfo eventID peerCoreId.toNat vectorTime
  else c.consumeAnySoft eventID vectorTime (List.range c.maxBlockNum)

/-- The start of a group of calls of `SyncAll`. -/
def resetSyncAll (c : Container) (usedCores : ℤ) : Container :=
  { c with
    semCores := .reset usedCores
    blockSoftSyncInfo := fun b => { c.blockSoftSyncInfo b with syncAll := false } }

/-- The end of `SyncAll`: whether it succeeds, the time of the pipe and the container. -/
def enterSyncAll (c : Container) (blockIdx pipeIdx : ℕ) (vecTime : VectorTime) :
    Bool × VectorTime × Container :=
  let info := c.blockSoftSyncInfo blockIdx
  let vecTime := if info.syncAll then vecTime else updateLogicTime vecTime pipeIdx
  let c := if info.syncAll then c else
    { c with
      blockSoftSyncInfo := Function.update c.blockSoftSyncInfo blockIdx
        { info with syncAll := true, pipeIdx } }
  if c.semCores.remainSyncAllCount ≠ 0 then (false, vecTime, c)
  else (c.semCores.wait.1, vecTime, { c with semCores := c.semCores.wait.2 })

def syncAll (c : Container) (blockIdx : ℕ) (usedCores : ℤ) (pipeIdx : ℕ) (vecTime : VectorTime) :
    Bool × VectorTime × Container :=
  if usedCores < 0 ∨ (c.maxBlockNum : ℤ) < usedCores then (false, vecTime, c)
  else
    let usedCores := if usedCores = 0 then (c.getAIVCount : ℤ) else usedCores
    if c.semCores.isFinished then (c.resetSyncAll usedCores).enterSyncAll blockIdx pipeIdx vecTime
    else if c.semCores.cores ≠ usedCores then (false, vecTime, c)
    else c.enterSyncAll blockIdx pipeIdx vecTime

/-- `UpdateSyncAllVectorTime`, in place and in the order of the blocks. -/
def updateSyncAllVectorTime (c : Container) (vec : ℕ → VectorTime) : ℕ → VectorTime :=
  let blocks := (List.range c.maxBlockNum).map c.blockSoftSyncInfo |>.filter (·.syncAll)
  blocks.foldl (fun vec info =>
    blocks.foldl (fun vec other =>
      if info.pipeIdx = other.pipeIdx then vec
      else Function.update vec info.pipeIdx
        (updateVectorTime (vec other.pipeIdx) (vec info.pipeIdx))) vec) vec

/-! ## MSTX flags -/

def setMstxCrossInfo (c : Container) (stubInfo : MstxCrossInfo) (vectorTime : VectorTime) :
    Container :=
  let key := (stubInfo.addr, stubInfo.flagId)
  { c with
    mstxCrossSetMap := Function.update c.mstxCrossSetMap key
      (some ((c.mstxCrossSetMap key).getD [] ++ [vectorTime])) }

def getMstxCrossInfo (c : Container) (stubInfo : MstxCrossInfo) (localBlockTime : VectorTime) :
    Option VectorTime × Container :=
  let key := (stubInfo.addr, stubInfo.flagId)
  match c.mstxCrossSetMap key with
  | none => (none, c)
  | some [] => (some localBlockTime, c)
  | some (t :: rest) =>
    (some (updateVectorTime t localBlockTime),
      { c with
        mstxCrossSetMap := Function.update c.mstxCrossSetMap key
          (if rest.isEmpty then none else some rest) })

end Container

end MsSanitizer.CrossCoreSync
