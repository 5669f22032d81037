import MsSanitizer.HeapBlocks
import MsSanitizer.Pm
import MsSanitizer.RangeWrites

/-!
The shadow memory.

A shadow byte keeps the status of its byte in the low two bits and, for global memory, the
core that owns it in the other six. Loads, stores and clears walk over a range by runs of
equal shadow bytes.
-/

namespace MsSanitizer.Shadow

open MsSanitizer.RecordDefs MsSanitizer.Words MsSanitizer.Pm MsSanitizer.HeapBlocks
open MsSanitizer.RangeWrites

def vaBitsShift : UInt8 := 2
def coreIdMask : UInt8 := 0xFC
def defaultCoreId : UInt8 := 0x3F

/-- `GM_DEFAULT_VALUE`, `CHIPMEM_DEFAULT_VALUE` and `PRIVATE_DEFAULT_VALUE`. -/
def defaultValue : UInt8 := MemStatus.undefined.code ||| (defaultCoreId <<< vaBitsShift)

def makeByte (status : MemStatus) (coreId : UInt8) : UInt8 :=
  (status.code &&& statusMask) ||| ((coreId <<< vaBitsShift) &&& coreIdMask)

def getCoreId (byte : UInt8) : UInt8 := (byte &&& coreIdMask) >>> vaBitsShift

def setMemStatus (byte : UInt8) (status : MemStatus) : UInt8 :=
  (byte &&& coreIdMask) ||| (status.code &&& statusMask)

def setCoreId (byte coreId : UInt8) : UInt8 :=
  (byte &&& statusMask) ||| ((coreId <<< vaBitsShift) &&& coreIdMask)

/-! ### The maps -/

/-- A map of on-chip memory or the map of the global memory, behind one interface. -/
inductive MemMap
  | chip (pm : PM)
  | global (gm : GmPM)

namespace MemMap

def getBits : MemMap → ℕ → UInt8
  | chip pm, addr => pm.getBits addr
  | global gm, addr => gm.getBits addr

def set : MemMap → ℕ → ℕ → UInt8 → MemMap
  | chip pm, addr, size, bits => chip (pm.set addr size bits)
  | global gm, addr, size, bits => global (gm.set addr size bits)

def unifiedSizeAfter : MemMap → ℕ → ℕ → ℕ → ℕ
  | chip pm, baseAddr, size, addr => pm.unifiedSizeAfter baseAddr size addr
  | global gm, baseAddr, size, addr => gm.unifiedSizeAfter baseAddr size addr

def rangeHasStatus : MemMap → ℕ → ℕ → UInt8 → Bool
  | chip pm, addr, size, status => pm.rangeHasStatus addr size status
  | global gm, addr, size, status => gm.rangeHasStatus addr size status

/-- The loop over the unified ranges of `[addr, addr + size)` that only reads: the sum of
the lengths of the runs whose bits satisfy `pred`. -/
def countUnified (memmap : MemMap) (addr size : ℕ) (pred : UInt8 → Bool) : ℕ :=
  walk (fun _ it => memmap.unifiedSizeAfter addr size it)
    (fun n it unifiedSize => if pred (memmap.getBits it) then add64 n unifiedSize else n)
    (add64 addr size) size addr 0

end MemMap

/-! ### The shadow memory -/

structure MemOpRecordForShadow where
  dstSpace : AddressSpace
  dstAddr : ℕ
  memSize : ℕ
  coreId : UInt16
  serialNo : ℕ := 0
  mainScalarPc : ℕ := 0
  isSimt : Bool := false

/-- The core id of a record passes through eight bits. -/
def MemOpRecordForShadow.ofRecord (record : MemOpRecord) : MemOpRecordForShadow where
  dstSpace := record.dstSpace
  dstAddr := record.dstAddr
  memSize := record.memSize
  coreId := (UInt8.ofInt record.coreId).toUInt16
  serialNo := record.serialNo
  mainScalarPc := record.mainScalarPc
  isSimt := record.isSimt

structure UnusedHeap where
  bytesNotUse : ℕ := 0
  blockNum : ℕ := 0

structure ShadowMemory where
  l0a : PM
  l0b : PM
  l0c : PM
  l1 : PM
  ub : PM
  priv : PM
  gm : GmPM
  heapBlockManager : HeapBlockManager := {}
  heapBlockManagerBypass : HeapBlockManager := {}
  unusedHeap : UnusedHeap := {}
  chipInfo : ChipInfo
  atomicEnabled : Bool := false
  deviceType : DeviceType

namespace ShadowMemory

/-- The constructor. The maps of a chip are made by `Init`. -/
def new : ShadowMemory where
  l0a := PM.new 0 defaultValue
  l0b := PM.new 0 defaultValue
  l0c := PM.new 0 defaultValue
  l1 := PM.new 0 defaultValue
  ub := PM.new 0 defaultValue
  priv := PM.new 0 defaultValue
  gm := GmPM.new defaultValue
  chipInfo := {}
  deviceType := .invalid

def init (sm : ShadowMemory) (deviceType : DeviceType) (chipInfo : ChipInfo) : ShadowMemory :=
  { sm with
    l0a := PM.new chipInfo.l0aSize.toNat defaultValue
    l0b := PM.new chipInfo.l0bSize.toNat defaultValue
    l0c := PM.new chipInfo.l0cSize.toNat defaultValue
    l1 := PM.new chipInfo.l1Size.toNat defaultValue
    ub := PM.new chipInfo.ubSize.toNat defaultValue
    priv := PM.new chipInfo.privateSize.toNat defaultValue
    chipInfo := chipInfo
    deviceType := deviceType }

def resetChipMemory (sm : ShadowMemory) : ShadowMemory :=
  { sm with
    l0a := sm.l0a.reset defaultValue
    l0b := sm.l0b.reset defaultValue
    l0c := sm.l0c.reset defaultValue
    l1 := sm.l1.reset defaultValue
    ub := sm.ub.reset defaultValue }

def resetPrivateMemory (sm : ShadowMemory) : ShadowMemory :=
  { sm with priv := sm.priv.reset defaultValue }

def setAtomic (sm : ShadowMemory) (enabled : Bool) : ShadowMemory :=
  { sm with atomicEnabled := enabled }

def getMemMap (sm : ShadowMemory) : AddressSpace → Option MemMap
  | .gm => some (.global sm.gm)
  | .l0a => some (.chip sm.l0a)
  | .l0b => some (.chip sm.l0b)
  | .l0c => some (.chip sm.l0c)
  | .l1 => some (.chip sm.l1)
  | .ub => some (.chip sm.ub)
  | .priv => some (.chip sm.priv)
  | .unknown | .bt | .fb => none

def putMemMap (sm : ShadowMemory) : AddressSpace → MemMap → ShadowMemory
  | .gm, .global gm => { sm with gm := gm }
  | .l0a, .chip pm => { sm with l0a := pm }
  | .l0b, .chip pm => { sm with l0b := pm }
  | .l0c, .chip pm => { sm with l0c := pm }
  | .l1, .chip pm => { sm with l1 := pm }
  | .ub, .chip pm => { sm with ub := pm }
  | .priv, .chip pm => { sm with priv := pm }
  | _, _ => sm

def maxSize (sm : ShadowMemory) : AddressSpace → ℕ
  | .gm => globalMemMask
  | .l1 => sm.chipInfo.l1Size.toNat
  | .l0a => sm.chipInfo.l0aSize.toNat
  | .l0b => sm.chipInfo.l0bSize.toNat
  | .l0c => sm.chipInfo.l0cSize.toNat
  | .ub => sm.chipInfo.ubSize.toNat
  | .priv => sm.chipInfo.privateSize.toNat
  | .unknown | .bt | .fb => 0

/-- `ValidateRange`: the part of a range that lies in the modelled memory. -/
def validateRange (sm : ShadowMemory) (space : AddressSpace) (addr size : ℕ) : ℕ × ℕ :=
  let maxSize := sm.maxSize space
  let addrR := if sub64 (2 ^ 64 - 1) size < addr then maxSize else min maxSize (add64 addr size)
  let addr' := min maxSize addr
  (addr', sub64 addrR addr')

def skipSpace (space : AddressSpace) : Bool := space == .unknown

def makeBadBytesMsg (error : MemErrorType) (space : AddressSpace) (addr nbytes : ℕ)
    (isSimt : Bool := false) (mainScalarPc : ℕ := 0) (displayThread : Bool := true) : ErrorMsg :=
  let msg := ErrorMsg.setType {} error space addr
  { msg with
    auxData := { msg.auxData with
      nBadBytes := nbytes
      isSimt := isSimt
      displayThread := displayThread
      threadLoc := { msg.auxData.threadLoc with mainScalarPc := mainScalarPc } } }

/-! ### Loads -/

/-- The part of `LoadNBytes` after the fast path: the loop and the message. -/
def loadScan (memmap : MemMap) (r : MemOpRecordForShadow) (addr size : ℕ) (initCheck : Bool) :
    List ErrorMsg :=
  let nUninitializedReadBytes := memmap.countUnified addr size fun bits =>
    initCheck && getMemStatus bits == .undefined
  if 0 < nUninitializedReadBytes then
    [makeBadBytesMsg .uninitializedRead r.dstSpace addr nUninitializedReadBytes r.isSimt
      r.mainScalarPc false]
  else []

def loadNBytes (sm : ShadowMemory) (r : MemOpRecordForShadow) (initCheck : Bool) : List ErrorMsg :=
  if skipSpace r.dstSpace then []
  else if initCheck && r.dstSpace == .ub && isAscend95 sm.deviceType then []
  else
    let (addr, size) := sm.validateRange r.dstSpace r.dstAddr r.memSize
    match sm.getMemMap r.dstSpace with
    | none => []
    | some memmap =>
      -- the fast path
      if initCheck && !memmap.rangeHasStatus addr size MemStatus.undefined.code then []
      else loadScan memmap r addr size initCheck

/-! ### Stores -/

/-- The state of the loop of `StoreNBytesInRange`. -/
structure StoreState where
  memmap : MemMap
  nBadBytesForOverlap : ℕ

/-- The body of the loop of `StoreNBytesInRange` on one unified range. -/
def storeUnified (atomicEnabled : Bool) (space : AddressSpace) (coreId : UInt8)
    (outOfBoundCheck : Bool) (s : StoreState) (it unifiedSize : ℕ) : StoreState :=
  let bits := s.memmap.getBits it
  if getMemStatus bits = .error then s
  else
    let undef := getMemStatus bits = .undefined
    let bits := if undef then setMemStatus bits .defined else bits
    let s := if undef then { s with memmap := s.memmap.set it unifiedSize bits } else s
    if space ≠ .gm then s
    else
      let id := getCoreId bits
      if coreId = 0xFF then
        { s with memmap := s.memmap.set it unifiedSize (setCoreId bits defaultCoreId) }
      else if id = defaultCoreId then
        { s with memmap := s.memmap.set it unifiedSize (setCoreId bits coreId) }
      else if id ≠ coreId then
        if atomicEnabled then s
        else if outOfBoundCheck then
          { memmap := s.memmap.set it unifiedSize (setMemStatus bits .error)
            nBadBytesForOverlap := add64 s.nBadBytesForOverlap unifiedSize }
        else s
      else s

def storeNBytesInRange (atomicEnabled : Bool) (memmap : MemMap) (addr size : ℕ)
    (space : AddressSpace) (coreId : UInt8) (outOfBoundCheck : Bool) : StoreState :=
  walk (fun s it => s.memmap.unifiedSizeAfter addr size it)
    (storeUnified atomicEnabled space coreId outOfBoundCheck) (add64 addr size) size addr
    ⟨memmap, 0⟩

def storeNBytes (sm : ShadowMemory) (r : MemOpRecordForShadow) (memCheck outOfBoundCheck : Bool) :
    List ErrorMsg × ShadowMemory :=
  if skipSpace r.dstSpace then ([], sm)
  else
    let (addr, size) := sm.validateRange r.dstSpace r.dstAddr r.memSize
    match sm.getMemMap r.dstSpace with
    | none => ([], sm)
    | some memmap =>
      let s := storeNBytesInRange sm.atomicEnabled memmap addr size r.dstSpace r.coreId.toUInt8
        outOfBoundCheck
      let sm' := sm.putMemMap r.dstSpace s.memmap
      if !memCheck then ([], sm')
      else if 0 < s.nBadBytesForOverlap then
        ([makeBadBytesMsg .outOfBounds r.dstSpace addr s.nBadBytesForOverlap r.isSimt
          r.mainScalarPc false], sm')
      else ([], sm')

/-! ### Clearing -/

def makeMemUndefined (sm : ShadowMemory) (addr size : ℕ) : ShadowMemory :=
  let (addr, size) := sm.validateRange .gm addr size
  { sm with gm := sm.gm.set addr size (makeByte .undefined defaultCoreId) }

def clearBlockId (sm : ShadowMemory) (addr size : ℕ) : ShadowMemory :=
  let (addr, size) := sm.validateRange .gm addr size
  let gm := walk (fun (gm : GmPM) it => gm.unifiedSizeAfter addr size it)
    (fun gm it unifiedSize => gm.set it unifiedSize (setCoreId (gm.getBits it) defaultCoreId))
    (add64 addr size) size addr sm.gm
  { sm with gm := gm }

/-! ### Heap blocks -/

def addHeapBlock (sm : ShadowMemory) (record : MemOpRecord) : Bool × ShadowMemory :=
  if record.infoSrc = .bypass then
    let (ok, m) := sm.heapBlockManagerBypass.addHeapBlock record
    (ok, { sm with heapBlockManagerBypass := m })
  else
    let (ok, m) := sm.heapBlockManager.addHeapBlock record
    (ok, { sm with heapBlockManager := m })

def freeHeapBlock (sm : ShadowMemory) (record : MemOpRecord) : ErrorMsg × ℕ × ShadowMemory :=
  if record.infoSrc = .bypass then
    let (msg, size, m) := sm.heapBlockManagerBypass.freeHeapBlock record
    (msg, size, { sm with heapBlockManagerBypass := m })
  else
    let (msg, size, m) := sm.heapBlockManager.freeHeapBlock record
    (msg, size, { sm with heapBlockManager := m })

/-- `CheckUnusedMem`, which also counts the unused bytes and blocks. -/
def checkUnusedMem (sm : ShadowMemory) (addr size : ℕ) : ErrorMsg × ShadowMemory :=
  let nBadBytesForNoUse := (MemMap.global sm.gm).countUnified addr size fun bits =>
    getMemStatus bits == .undefined
  if 0 < nBadBytesForNoUse then
    let msg := makeBadBytesMsg .memUnused .gm addr nBadBytesForNoUse
    let msg := match sm.heapBlockManager.heapBlocks[addr]? with
      | none => msg
      | some block => { msg with
          auxData := { msg.auxData with fileName := block.fileName, lineNo := block.lineNo } }
    (msg, { sm with
      unusedHeap :=
        { bytesNotUse := sm.unusedHeap.bytesNotUse + nBadBytesForNoUse
          blockNum := sm.unusedHeap.blockNum + 1 } })
  else ({}, sm)

end ShadowMemory

end MsSanitizer.Shadow
