import Mathlib.Tactic

/-!
The records the sanitizers exchange and the error messages they return.

Enumerations keep the source's names and order. Fields that none of the modelled functions
reads or writes are left out.
-/

namespace MsSanitizer.RecordDefs

inductive AddressSpace
  | unknown | priv | gm | l1 | l0a | l0b | l0c | ub | bt | fb
  deriving DecidableEq, Repr

inductive AccessType
  | read | write | memcpyBlocks
  deriving DecidableEq, Repr

inductive MemOpType
  | malloc | free | memcpyBlocks | load | store | gmAddrOutOfBound | invalid
  deriving DecidableEq, Repr

inductive MemInfoSrc
  | bypass | hal | rt | acl | extra | manual | mstxHeap | mstxRegion
  deriving DecidableEq, Repr

inductive MemOpSide
  | host | kernel
  deriving DecidableEq, Repr

inductive BlockType
  | aivec | aicube | aicore
  deriving DecidableEq, Repr

inductive MemErrorType
  | outOfBounds | illegalAddrWrite | illegalAddrRead | misalignedAccess | memLeak | illegalFree
  | memUnused | uninitializedRead | internalError | gmAddrOutOfBound | nonDefaultReg | invalid
  deriving DecidableEq, Repr

/-- `INVALID_RECORD_TYPE`; record types are kept as their codes. -/
def invalidRecordType : ℕ := 0xFFFFFFFF

structure SimtThreadLocation where
  idX : ℕ := 0
  idY : ℕ := 0
  idZ : ℕ := 0
  mainScalarPc : ℕ := 0
  deriving DecidableEq, Repr

/-- `ErrorMsg::AuxData`, with the values its constructor gives. -/
structure AuxData where
  badAddr : ℕ := 0
  nBadBytes : ℕ := 0
  space : AddressSpace := .unknown
  moduleId : ℤ := -1
  fileName : String := ""
  lineNo : ℕ := 0
  coreId : ℤ := 0
  blockType : BlockType := .aicube
  pc : ℕ := 0
  serialNo : ℕ := 0
  side : MemOpSide := .host
  threadLoc : SimtThreadLocation := {}
  recordType : ℕ := invalidRecordType
  isSimt : Bool := false
  displayThread : Bool := false
  deriving DecidableEq, Repr

structure ErrorMsg where
  type : MemErrorType := .invalid
  isError : Bool := false
  auxData : AuxData := {}
  deriving DecidableEq, Repr

def ErrorMsg.setType (msg : ErrorMsg) (t : MemErrorType) (space : AddressSpace) (addr : ℕ) :
    ErrorMsg :=
  { msg with
    type := t
    isError := true
    auxData := { msg.auxData with space := space, badAddr := addr, moduleId := -1 } }

@[simp] lemma ErrorMsg.setType_isError (msg : ErrorMsg) (t : MemErrorType) (space : AddressSpace)
    (addr : ℕ) : (msg.setType t space addr).isError = true := rfl

structure MemOpRecord where
  serialNo : ℕ := 0
  type : MemOpType := .invalid
  coreId : ℤ := 0
  moduleId : ℤ := 0
  srcAddr : ℕ := 0
  dstAddr : ℕ := 0
  srcSpace : AddressSpace := .priv
  dstSpace : AddressSpace := .priv
  memSize : ℕ := 0
  lineNo : ℤ := 0
  fileName : String := ""
  blockType : BlockType := .aivec
  pc : ℕ := 0
  infoSrc : MemInfoSrc := .bypass
  side : MemOpSide := .host
  rootAddr : ℕ := 0
  mainScalarPc : ℕ := 0
  ignoreIllegalCheck : Bool := false
  isSimt : Bool := false
  recordType : ℕ := invalidRecordType
  deriving DecidableEq, Repr

/-- The switches of `Config` that the address sanitizer reads. -/
structure Config where
  memCheck : Bool := false
  initCheck : Bool := false
  checkUnusedMemory : Bool := false
  outOfBoundCheck : Bool := false
  deriving DecidableEq, Repr

/-- The memory sizes of `ChipInfo`; the source's type for all of them is `uint32_t`. -/
structure ChipInfo where
  l0aSize : UInt32 := 0
  l0bSize : UInt32 := 0
  l0cSize : UInt32 := 0
  l1Size : UInt32 := 0
  ubSize : UInt32 := 0
  privateSize : UInt32 := 0
  deriving DecidableEq

/-- `DeviceType`, by its value in the enumeration. -/
structure DeviceType where
  code : ℕ
  deriving DecidableEq, Repr

def DeviceType.ascend950Start : DeviceType := ⟨10⟩
def DeviceType.ascend950End : DeviceType := ⟨43⟩
def DeviceType.invalid : DeviceType := ⟨0xFFFFFFFF⟩

def isAscend95 (d : DeviceType) : Bool :=
  DeviceType.ascend950Start.code < d.code && d.code < DeviceType.ascend950End.code

end MsSanitizer.RecordDefs
