import MsSanitizer.ByteWords
import MsSanitizer.Words

/-!
The shadow maps: one shadow byte for every byte of a memory.

A primary map cuts its memory into blocks of 64 KB. A block whose bytes all carry the same
bits is kept as that one value; a block is given an array of its own, a secondary map, when
a part of it is written. The map of the global memory is a table of primary maps, one for
every `2 ^ 36 - 1` bytes, created when something in them is written.
-/

namespace MsSanitizer.Pm

open MsSanitizer.Words MsSanitizer.ByteWords

def globalMemMask : ℕ := 0xFFFFFFFFFFFF
def localMemMask : ℕ := 0xFFFFFFFFF
/-- `ONE_SM_STAND_FOR_BYTE`, the block size of a `PM`. -/
def blockSize : ℕ := 65536

/-- `MemStatus`, kept in the low two bits of a shadow byte. -/
inductive MemStatus
  | noaccess | undefined | defined | error
  deriving DecidableEq, Repr

def MemStatus.code : MemStatus → UInt8
  | .noaccess => 0
  | .undefined => 1
  | .defined => 2
  | .error => 3

def statusMask : UInt8 := 0x03

def getMemStatus (byte : UInt8) : MemStatus :=
  if byte &&& statusMask = 0 then .noaccess
  else if byte &&& statusMask = 1 then .undefined
  else if byte &&& statusMask = 2 then .defined
  else .error

def byteOnes : ℕ := 0x0101010101010101
def byteHighBits : ℕ := 0x8080808080808080
def byteStatusMasks : ℕ := mul64 byteOnes statusMask.toNat

/-- The secondary map of a block: `vabits8`, by offset. -/
abbrev SM := ℕ → UInt8

/-- `memset_s`: it writes at most `destMax` bytes. -/
def memsetS (sm : SM) (offset destMax : ℕ) (bits : UInt8) (count : ℕ) : SM := fun o =>
  if offset ≤ o ∧ o < offset + min count destMax then bits else sm o

/-- `PM`. The two tables have `smNum` entries. -/
structure PM where
  byteNum : ℕ
  smNum : ℕ
  smList : ℕ → Option SM
  commonBitsList : ℕ → UInt8

namespace PM

/-- The constructor of `PM`. -/
def new (byteNum : ℕ) (memInitVal : UInt8) : PM where
  byteNum := byteNum
  smNum := sub64 (add64 byteNum blockSize) 1 / blockSize
  smList := fun _ => none
  commonBitsList := fun _ => memInitVal

def reset (pm : PM) (memInitVal : UInt8) : PM :=
  { pm with smList := fun _ => none, commonBitsList := fun _ => memInitVal }

def getBlockIdx (addr : ℕ) : ℕ := (addr &&& localMemMask) / blockSize
def getBlockOffset (addr : ℕ) : ℕ := (addr &&& localMemMask) % blockSize

def getBits (pm : PM) (addr : ℕ) : UInt8 :=
  match pm.smList (getBlockIdx addr) with
  | none => pm.commonBitsList (getBlockIdx addr)
  | some sm => sm (getBlockOffset addr)

/-- The array of a block, made from the common value when there is none yet. -/
def materialised (pm : PM) (blockIndex : ℕ) : SM :=
  (pm.smList blockIndex).getD fun _ => pm.commonBitsList blockIndex

/-- The body of the loop of `Set`. -/
def setBlock (pm : PM) (addr size : ℕ) (bits : UInt8) (blockIndex : ℕ) : PM :=
  let blockAddrL := blockSize * blockIndex
  let blockAddrR := blockAddrL + blockSize
  if addr ≤ blockAddrL ∧ blockAddrR ≤ add64 addr size then
    { pm with
      smList := Function.update pm.smList blockIndex none
      commonBitsList := Function.update pm.commonBitsList blockIndex bits }
  else
    let sm := pm.materialised blockIndex
    let addrL := max addr blockAddrL
    let addrR := min (add64 addr size) blockAddrR
    let destMaxSm := blockSize + blockAddrL - addrL
    let sm' := if addrL = addrR then sm
      else memsetS sm (addrL - blockAddrL) destMaxSm bits (sub64 addrR addrL)
    { pm with smList := Function.update pm.smList blockIndex (some sm') }

/-- The loop of `Set`: `n` blocks from `blockIndex` on. -/
def setLoop (addr size : ℕ) (bits : UInt8) : ℕ → ℕ → PM → PM
  | 0, _, pm => pm
  | n + 1, blockIndex, pm =>
    if pm.smNum ≤ blockIndex then pm
    else setLoop addr size bits n (blockIndex + 1) (pm.setBlock addr size bits blockIndex)

def set (pm : PM) (addr size : ℕ) (bits : UInt8) : PM :=
  let blockIndexL := getBlockIdx addr
  let remainderSum := getBlockOffset addr + getBlockOffset size
  let blockIndexR :=
    getBlockIdx addr + getBlockIdx size + getBlockIdx (remainderSum + blockSize - 1)
  setLoop addr size bits (blockIndexR - blockIndexL) blockIndexL pm

/-! ### `UnifiedSizeAfter` -/

/-- `ReadShadowWord`: the eight bytes from `p i` on. -/
def readShadowWord (p : ℕ → UInt8) (i : ℕ) : ℕ :=
  val [p i, p (i + 1), p (i + 2), p (i + 3), p (i + 4), p (i + 5), p (i + 6), p (i + 7)]

/-- Four words at a time; the first argument bounds the number of iterations. -/
def batchLoop (p : ℕ → UInt8) (headBytes commonSize : ℕ) : ℕ → ℕ → ℕ
  | 0, offset => offset
  | n + 1, offset =>
    if offset + 32 ≤ commonSize then
      if readShadowWord p offset ≠ headBytes ∨ readShadowWord p (offset + 8) ≠ headBytes ∨
          readShadowWord p (offset + 16) ≠ headBytes ∨
          readShadowWord p (offset + 24) ≠ headBytes then offset
      else batchLoop p headBytes commonSize n (offset + 32)
    else offset

def wordLoop (p : ℕ → UInt8) (headBytes commonSize : ℕ) : ℕ → ℕ → ℕ
  | 0, offset => offset
  | n + 1, offset =>
    if offset + 8 ≤ commonSize then
      if readShadowWord p offset ≠ headBytes then offset
      else wordLoop p headBytes commonSize n (offset + 8)
    else offset

def byteLoop (p : ℕ → UInt8) (head : UInt8) (commonSize : ℕ) : ℕ → ℕ → ℕ
  | 0, offset => offset
  | n + 1, offset =>
    if offset < commonSize ∧ p offset = head then byteLoop p head commonSize n (offset + 1)
    else offset

/-- The length of the run of equal bytes from `p 0` on, within `commonSize`. -/
def runLength (p : ℕ → UInt8) (commonSize : ℕ) : ℕ :=
  let head := p 0
  let headBytes := mul64 head.toNat byteOnes
  let offset := batchLoop p headBytes commonSize commonSize 1
  let offset := wordLoop p headBytes commonSize commonSize offset
  byteLoop p head commonSize commonSize offset

def unifiedSizeAfter (pm : PM) (baseAddr size addr : ℕ) : ℕ :=
  let blockIndex := getBlockIdx addr
  let blockOffset := getBlockOffset addr
  let commonSize := min (sub64 (add64 baseAddr size) addr) (blockSize - blockOffset)
  match pm.smList blockIndex with
  | none => commonSize
  | some sm => runLength (fun i => sm (blockOffset + i)) commonSize

/-! ### `RangeHasStatus` -/

def hasZeroByte (word : ℕ) : Bool :=
  (sub64 word byteOnes &&& not64 word &&& byteHighBits) != 0

/-- Eight bytes at a time: where the scan stops, and whether it has found a match. -/
def statusWordLoop (p : ℕ → UInt8) (status : UInt8) (blockLen : ℕ) : ℕ → ℕ → ℕ × Bool
  | 0, i => (i, false)
  | n + 1, i =>
    if i + 8 ≤ blockLen then
      let diff := (readShadowWord p i ^^^ mul64 status.toNat byteOnes) &&& byteStatusMasks
      if hasZeroByte diff then (i, true) else statusWordLoop p status blockLen n (i + 8)
    else (i, false)

def statusByteLoop (p : ℕ → UInt8) (status : UInt8) (blockLen : ℕ) : ℕ → ℕ → Bool
  | 0, _ => false
  | n + 1, i =>
    if i < blockLen then
      if p i &&& statusMask = status then true else statusByteLoop p status blockLen n (i + 1)
    else false

def blockHasStatus (p : ℕ → UInt8) (status : UInt8) (blockLen : ℕ) : Bool :=
  let (i, found) := statusWordLoop p status blockLen blockLen 0
  if found then true else statusByteLoop p status blockLen blockLen i

/-- The body of the loop: a block that is not materialised has one status. -/
def blockHit (pm : PM) (status : UInt8) (bi offsetInBlock blockLen : ℕ) : Bool :=
  match pm.smList bi with
  | none => pm.commonBitsList bi &&& statusMask == status
  | some sm => blockHasStatus (fun i => sm (offsetInBlock + i)) status blockLen

/-- The loop over the blocks: `n` of them from `bi` on. -/
def statusLoop (pm : PM) (status : UInt8) : ℕ → ℕ → ℕ → ℕ → Bool
  | 0, _, _, _ => false
  | n + 1, bi, offsetInBlock, remaining =>
    let blockLen := min remaining (blockSize - offsetInBlock)
    if pm.blockHit status bi offsetInBlock blockLen then true
    else if sub64 remaining blockLen = 0 then false
    else statusLoop pm status n (bi + 1) 0 (sub64 remaining blockLen)

def rangeHasStatus (pm : PM) (addr size : ℕ) (status : UInt8) : Bool :=
  if size = 0 then false
  else
    let blockIndexL := getBlockIdx addr
    let blockIndexR := getBlockIdx (sub64 (add64 (add64 addr size) blockSize) 1)
    statusLoop pm status (blockIndexR - blockIndexL) blockIndexL (getBlockOffset addr) size

end PM

/-! ### The map of the global memory -/

/-- `GmPM`: its inherited part, and the table of primary maps. -/
structure GmPM where
  toPM : PM
  memInitVal : UInt8
  pmList : ℕ → Option PM

namespace GmPM

/-- `GmPM::blockSize_`. -/
def chunkSize : ℕ := localMemMask

/-- The number of entries of `pmList_`. -/
def pmNum : ℕ := (globalMemMask + chunkSize - 1) / chunkSize

def new (memInitVal : UInt8) : GmPM where
  toPM := PM.new localMemMask memInitVal
  memInitVal := memInitVal
  pmList := fun _ => none

def getBlockIdx (addr : ℕ) : ℕ := (addr &&& globalMemMask) / chunkSize
def getBlockOffset (addr : ℕ) : ℕ := (addr &&& globalMemMask) % chunkSize

def queryPM (gm : GmPM) (addr : ℕ) : Option PM :=
  if pmNum ≤ getBlockIdx addr then none else gm.pmList (getBlockIdx addr)

/-- `GetPM`: the map of `addr`, made when there is none yet; nothing past the table. -/
def getPM (gm : GmPM) (addr : ℕ) : Option PM :=
  if pmNum ≤ getBlockIdx addr then none
  else some ((gm.pmList (getBlockIdx addr)).getD (PM.new gm.toPM.byteNum gm.memInitVal))

def getBits (gm : GmPM) (addr : ℕ) : UInt8 :=
  match gm.queryPM addr with
  | none => gm.toPM.commonBitsList (getBlockIdx addr)
  | some pm => pm.getBits (getBlockOffset addr)

/-- The loop of `Set`: `n` chunks. -/
def setLoop (bits : UInt8) : ℕ → ℕ → ℕ → GmPM → GmPM
  | 0, _, _, gm => gm
  | n + 1, addr, size, gm =>
    match gm.getPM addr with
    | none => gm
    | some pm =>
      let pmAddr := getBlockOffset addr
      let pmSize := min (chunkSize - pmAddr) size
      let gm' := { gm with
        pmList := Function.update gm.pmList (getBlockIdx addr) (some (pm.set pmAddr pmSize bits)) }
      setLoop bits n (add64 addr pmSize) (sub64 size pmSize) gm'

def set (gm : GmPM) (addr size : ℕ) (bits : UInt8) : GmPM :=
  let blockIndexL := getBlockIdx addr
  let blockIndexR := getBlockIdx (sub64 (add64 (add64 addr size) chunkSize) 1)
  setLoop bits (blockIndexR - blockIndexL) addr size gm

def unifiedSizeAfter (gm : GmPM) (baseAddr size addr : ℕ) : ℕ :=
  let basePmIdx := getBlockIdx baseAddr
  let pmIdx := getBlockIdx addr
  let nextPmAddr := (pmIdx + 1) * chunkSize
  let newBaseAddr := if basePmIdx < pmIdx then pmIdx * chunkSize else baseAddr
  let curSize :=
    if basePmIdx < pmIdx then min chunkSize (sub64 size (sub64 newBaseAddr baseAddr))
    else min (sub64 nextPmAddr baseAddr) size
  -- without a map of its own the chunk is uniform, as the inherited one is
  let pm := (gm.queryPM addr).getD gm.toPM
  pm.unifiedSizeAfter (getBlockOffset newBaseAddr) curSize (getBlockOffset addr)

/-- The body of the loop of `RangeHasStatus`, on what `QueryPM` returned. -/
def pieceHasStatus (gm : GmPM) (status : UInt8) (bi offsetInBlock blockLen : ℕ) : Option PM → Bool
  | none => decide (bi < gm.toPM.smNum) && gm.toPM.commonBitsList bi &&& statusMask == status
  | some pm => pm.rangeHasStatus offsetInBlock blockLen status

def chunkHit (gm : GmPM) (status : UInt8) (bi offsetInBlock blockLen : ℕ) : Bool :=
  gm.pieceHasStatus status bi offsetInBlock blockLen (gm.queryPM (mul64 bi chunkSize))

/-- The loop of `RangeHasStatus`: `n` chunks from `bi` on. -/
def statusLoop (gm : GmPM) (status : UInt8) : ℕ → ℕ → ℕ → ℕ → Bool
  | 0, _, _, _ => false
  | n + 1, bi, offsetInBlock, remaining =>
    let blockLen := min remaining (chunkSize - offsetInBlock)
    if gm.chunkHit status bi offsetInBlock blockLen then true
    else if sub64 remaining blockLen = 0 then false
    else statusLoop gm status n (bi + 1) 0 (sub64 remaining blockLen)

def rangeHasStatus (gm : GmPM) (addr size : ℕ) (status : UInt8) : Bool :=
  if size = 0 then false
  else
    let blockIndexL := getBlockIdx addr
    let blockIndexR := getBlockIdx (sub64 (add64 (add64 addr size) chunkSize) 1)
    statusLoop gm status (blockIndexR - blockIndexL) blockIndexL (getBlockOffset addr) size

end GmPM

end MsSanitizer.Pm
