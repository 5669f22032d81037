import MsSanitizer.RecordDefs
import MsSanitizer.Words

/-!
The heap blocks that the host has allocated.

Blocks of the runtime and of the dump tool are kept in two maps by address; blocks that the
user registers through the mstx interface are kept in a third one, and the regions inside
them in a fourth. A map of the source is an ordered map from addresses.
-/

namespace MsSanitizer.HeapBlocks

open MsSanitizer.RecordDefs MsSanitizer.Words

structure HeapBlock where
  serialNo : ℕ := 0
  addr : ℕ := 0
  len : ℕ := 0
  moduleId : ℤ := 0
  lineNo : ℕ := 0
  fileName : String := ""
  isInvalid : Bool := false
  deriving DecidableEq, Repr

/-- The constructor of `HeapBlock` from a record; the line number is an unsigned field. -/
def HeapBlock.ofRecord (record : MemOpRecord) : HeapBlock where
  serialNo := record.serialNo
  addr := record.dstAddr
  len := record.memSize
  moduleId := record.moduleId
  lineNo := (record.lineNo % 2 ^ 32).toNat
  fileName := record.fileName

inductive HeapType
  | rt | dfx | mstxHeap | mstxRegion | bypass | invalid
  deriving DecidableEq, Repr

structure HeapBlockManager where
  heapBlocks : Std.TreeMap ℕ HeapBlock := ∅
  heapBlocksForDfx : Std.TreeMap ℕ HeapBlock := ∅
  mstxHeapBlocks : Std.TreeMap ℕ HeapBlock := ∅
  mstxRegionBlocks : Std.TreeMap ℕ (List HeapBlock) := ∅

def isAddrInRange (block : HeapBlock) (thresholdAddr thresholdSize : ℕ) : Bool :=
  thresholdAddr ≤ block.addr && block.len ≤ thresholdSize &&
    sub64 block.addr thresholdAddr ≤ sub64 thresholdSize block.len

def getHeapType (record : MemOpRecord) : HeapType :=
  match record.infoSrc with
  | .hal | .rt | .acl => .rt
  | .extra | .manual => .dfx
  | .bypass => .bypass
  | .mstxHeap => .mstxHeap
  | .mstxRegion => .mstxRegion

namespace HeapBlockManager

/-- `GetHeapBlocks`: whether the blocks of a source are those of the dump tool. -/
def isDfx : MemInfoSrc → Bool
  | .extra | .manual | .bypass => true
  | _ => false

/-- A block is added only where there is none yet. -/
def addIfNew (blocks : Std.TreeMap ℕ HeapBlock) (record : MemOpRecord) : Std.TreeMap ℕ HeapBlock :=
  match blocks[record.dstAddr]? with
  | none => blocks.insert record.dstAddr (.ofRecord record)
  | some _ => blocks

def addRtDfxBlock (m : HeapBlockManager) (record : MemOpRecord) : Bool × HeapBlockManager :=
  if isDfx record.infoSrc then
    (true, { m with heapBlocksForDfx := addIfNew m.heapBlocksForDfx record })
  else (true, { m with heapBlocks := addIfNew m.heapBlocks record })

def addByPassBlock (m : HeapBlockManager) (record : MemOpRecord) : Bool × HeapBlockManager :=
  (true, { m with
    heapBlocks := addIfNew m.heapBlocks record
    heapBlocksForDfx := addIfNew m.heapBlocksForDfx record })

def addMstxHeapBlock (m : HeapBlockManager) (record : MemOpRecord) : Bool × HeapBlockManager :=
  match m.mstxHeapBlocks[record.dstAddr]? with
  | some _ => (false, m)
  | none =>
    let block := HeapBlock.ofRecord record
    if m.heapBlocks.toList.any fun bk => isAddrInRange block bk.2.addr bk.2.len then
      (true, { m with mstxHeapBlocks := m.mstxHeapBlocks.insert record.dstAddr block })
    else
      (false, { m with
        mstxHeapBlocks := m.mstxHeapBlocks.insert record.dstAddr { block with isInvalid := true } })

def addMstxRegionBlock (m : HeapBlockManager) (record : MemOpRecord) : Bool × HeapBlockManager :=
  let it := m.mstxHeapBlocks[record.rootAddr]?
  if record.rootAddr ≠ 0 ∧ it = none then (false, m)
  else
    let regions := (m.mstxRegionBlocks[record.rootAddr]?).getD []
    let m' := { m with
      mstxRegionBlocks :=
        m.mstxRegionBlocks.insert record.rootAddr (regions ++ [HeapBlock.ofRecord record]) }
    (decide (record.rootAddr = 0) || !(it.map HeapBlock.isInvalid).getD false, m')

def addHeapBlock (m : HeapBlockManager) (record : MemOpRecord) : Bool × HeapBlockManager :=
  match getHeapType record with
  | .rt | .dfx => m.addRtDfxBlock record
  | .bypass => m.addByPassBlock record
  | .mstxHeap => m.addMstxHeapBlock record
  | .mstxRegion => m.addMstxRegionBlock record
  | .invalid => (false, m)

def isRealMalloc : MemInfoSrc → Bool
  | .hal | .acl | .rt => true
  | _ => false

lemma isDfx_of_isRealMalloc {infoSrc : MemInfoSrc} (h : isRealMalloc infoSrc = true) :
    isDfx infoSrc = false := by
  cases infoSrc <;> first | rfl | cases h

lemma getHeapType_of_isRealMalloc {record : MemOpRecord}
    (h : isRealMalloc record.infoSrc = true) : getHeapType record = .rt := by
  unfold getHeapType
  cases hs : record.infoSrc <;> rw [hs] at h <;> first | rfl | cases h

/-- The loop returns at the first heap that lies in the freed range. -/
def deleteMstxInfo (m : HeapBlockManager) (record : MemOpRecord) (freeSize : ℕ) :
    HeapBlockManager :=
  if isRealMalloc record.infoSrc then
    match m.mstxHeapBlocks.toList.find? fun it => isAddrInRange it.2 record.dstAddr freeSize with
    | none => m
    | some it => { m with
        mstxRegionBlocks := m.mstxRegionBlocks.erase it.1
        mstxHeapBlocks := m.mstxHeapBlocks.erase it.1 }
  else m

def illegalFree (record : MemOpRecord) : ErrorMsg :=
  ErrorMsg.setType {} .illegalFree .gm record.dstAddr

/-- `FreeRtDfxBlock`: the message, the freed size (zero when nothing is freed) and the state. -/
def freeRtDfxBlock (m : HeapBlockManager) (record : MemOpRecord) :
    ErrorMsg × ℕ × HeapBlockManager :=
  if isDfx record.infoSrc then
    match m.heapBlocksForDfx[record.dstAddr]? with
    | none => (illegalFree record, 0, m)
    | some block =>
      let m := m.deleteMstxInfo record block.len
      ({}, block.len, { m with heapBlocksForDfx := m.heapBlocksForDfx.erase record.dstAddr })
  else
    match m.heapBlocks[record.dstAddr]? with
    | none => (illegalFree record, 0, m)
    | some block =>
      let m := m.deleteMstxInfo record block.len
      ({}, block.len, { m with heapBlocks := m.heapBlocks.erase record.dstAddr })

def freeByPassBlock (m : HeapBlockManager) (record : MemOpRecord) :
    ErrorMsg × ℕ × HeapBlockManager :=
  match m.heapBlocks[record.dstAddr]?, m.heapBlocksForDfx[record.dstAddr]? with
  | some block, some _ =>
    ({}, block.len, { m with
      heapBlocks := m.heapBlocks.erase record.dstAddr
      heapBlocksForDfx := m.heapBlocksForDfx.erase record.dstAddr })
  | _, _ => (illegalFree record, 0, m)

def freeMstxHeapBlock (m : HeapBlockManager) (record : MemOpRecord) :
    ErrorMsg × ℕ × HeapBlockManager :=
  match m.mstxHeapBlocks[record.dstAddr]? with
  | none => (illegalFree record, 0, m)
  | some block =>
    ({}, block.len, { m with
      mstxHeapBlocks := m.mstxHeapBlocks.erase record.dstAddr
      mstxRegionBlocks := m.mstxRegionBlocks.erase record.dstAddr })

/-- Erase the last region at `addr`. -/
def eraseLastRegion (regions : List HeapBlock) (addr : ℕ) : List HeapBlock :=
  (regions.reverse.eraseP fun it => it.addr == addr).reverse

def freeMstxRegionBlock (m : HeapBlockManager) (record : MemOpRecord) :
    ErrorMsg × ℕ × HeapBlockManager :=
  let hit := m.mstxRegionBlocks.toList.find? fun pair =>
    pair.2.any fun it => it.addr == record.dstAddr
  match hit with
  | none => (illegalFree record, 0, m)
  | some (root, regions) =>
    let size := ((regions.reverse.find? fun it => it.addr == record.dstAddr).map
      HeapBlock.len).getD 0
    ({}, size, { m with
      mstxRegionBlocks := m.mstxRegionBlocks.insert root (eraseLastRegion regions record.dstAddr) })

def freeHeapBlock (m : HeapBlockManager) (record : MemOpRecord) : ErrorMsg × ℕ × HeapBlockManager :=
  match getHeapType record with
  | .rt | .dfx => m.freeRtDfxBlock record
  | .bypass => m.freeByPassBlock record
  | .mstxHeap => m.freeMstxHeapBlock record
  | .mstxRegion => m.freeMstxRegionBlock record
  | .invalid => ({}, 0, m)

/-- `DoLeakCheck`: the blocks of the dump tool are not reported. -/
def doLeakCheck (m : HeapBlockManager) : List ErrorMsg :=
  m.heapBlocks.toList.map fun block =>
    let msg := ErrorMsg.setType {} .memLeak .gm block.2.addr
    { msg with
      auxData := { msg.auxData with
        nBadBytes := block.2.len
        moduleId := block.2.moduleId
        fileName := block.2.fileName
        lineNo := block.2.lineNo
        serialNo := block.2.serialNo } }

def getHeapBlockSize (m : HeapBlockManager) (record : MemOpRecord) : ℕ :=
  match m.heapBlocks[record.dstAddr]? with
  | some block => block.len
  | none => ((m.heapBlocksForDfx[record.dstAddr]?).map HeapBlock.len).getD 0

end HeapBlockManager

end MsSanitizer.HeapBlocks
