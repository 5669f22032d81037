import MsSanitizer.AsanAccess
import MsSanitizer.GmBytes
import MsSanitizer.HeapCoverage

/-!
# The memory of the devices, as a program sees it

What the address sanitizer is for, without its tables: which bytes of global memory are allocated,
which bytes have been written since they were last undefined, and which core wrote them first. The
reports of an access are read off these.
-/

namespace MsSanitizer.DeviceMemory

open MsSanitizer.RecordDefs MsSanitizer.Bounds MsSanitizer.AsanAction MsSanitizer.AsanAccess
open MsSanitizer.PeerAccessManager MsSanitizer.Packets MsSanitizer.Shadow.ShadowMemory

/-! ### Bytes -/

/-- What has become of a byte since it was last undefined. -/
inductive Content
  | undefined | written
  /-- A core has written to a byte of another core. -/
  | overwritten
  deriving DecidableEq, Repr

structure Byte where
  /-- The first core that wrote to a byte of global memory. -/
  owner : Option ℤ := none
  content : Content := .undefined
  deriving DecidableEq, Repr

/-- A store of core `c` overwrites the byte of another core. Under `exempt` none does. -/
def Byte.clashes (b : Byte) (exempt : Bool) (c : ℤ) : Bool :=
  b.content != .overwritten && !exempt && b.owner.any fun o => o != c

/-- A store of core `c` to global memory; a byte that was overwritten takes no further part. -/
def Byte.store (b : Byte) (exempt : Bool) (c : ℤ) : Byte :=
  if b.content = .overwritten then b
  else
    { owner := some (b.owner.getD c)
      content := if b.clashes exempt c then .overwritten else .written }

def Byte.define (b : Byte) : Byte :=
  if b.content = .undefined then { b with content := .written } else b

/-! ### The memory of a device -/

structure Memory where
  type : DeviceType
  chipInfo : ChipInfo
  atomic : Bool := false
  /-- The sizes of the live blocks of global memory, by address. -/
  heap : ℕ → Option ℕ := fun _ => none
  bytes : AddressSpace → ℕ → Byte := fun _ _ => {}

namespace Memory

variable (m : Memory)

/-- The number of bytes of a space that are modelled. -/
def size : AddressSpace → ℕ
  | .gm => globalMemMask
  | .l1 => m.chipInfo.l1Size.toNat
  | .l0a => m.chipInfo.l0aSize.toNat
  | .l0b => m.chipInfo.l0bSize.toNat
  | .l0c => m.chipInfo.l0cSize.toNat
  | .ub => m.chipInfo.ubSize.toNat
  | .priv => m.chipInfo.privateSize.toNat
  | .unknown | .bt | .fb => 0

/-- The part of a range that is modelled: its address and its length. -/
def extent (space : AddressSpace) (addr size : ℕ) : ℕ × ℕ :=
  (min (m.size space) addr, min (m.size space) (addr + size) - min (m.size space) addr)

/-- Byte `x` of global memory is allocated. -/
def Live (x : ℕ) : Prop := ∃ a n, m.heap a = some n ∧ a ≤ x ∧ x < a + n

/-- Byte `x` of a space may be accessed. -/
def Legal : AddressSpace → ℕ → Prop
  | .gm, x => m.Live x
  | .bt, _ | .fb, _ => True
  | .unknown, _ => False
  | space, x => x < m.size space

open Classical in
/-- The number of bytes that an access may not touch. -/
noncomputable def illegalBytes (space : AddressSpace) (addr size : ℕ) : ℕ :=
  ((Finset.range size).filter fun k => ¬ m.Legal space (addr + k)).card

/-- What is wrong with an access: the number of its illegal bytes. An access without bytes stands
for its first one, and an access to no known space is always wrong. -/
noncomputable def illegal (space : AddressSpace) (addr size : ℕ) : Option ℕ :=
  if space = .unknown then some size
  else if 0 < m.illegalBytes space addr (max 1 size) then
    some (m.illegalBytes space addr (max 1 size))
  else none

/-- The number of undefined bytes among those that an access reads. -/
def undefinedBytes (space : AddressSpace) (addr size : ℕ) : ℕ :=
  Nat.count (fun k => (m.bytes space ((m.extent space addr size).1 + k)).content = .undefined)
    (m.extent space addr size).2

def exempt (config : Config) : Bool := m.atomic || !config.outOfBoundCheck

/-- The number of bytes of other cores that a store to global memory overwrites. -/
def overwrittenBytes (config : Config) (core : ℤ) (addr size : ℕ) : ℕ :=
  Nat.count (fun k => (m.bytes .gm ((m.extent .gm addr size).1 + k)).clashes (m.exempt config) core
    = true) (m.extent .gm addr size).2

/-- The bytes of a range of a space are changed by `f`. -/
def change (space : AddressSpace) (addr size : ℕ) (f : Byte → Byte) : Memory :=
  { m with
    bytes := fun s a =>
      if s = space ∧ addr ≤ a ∧ a < addr + size then f (m.bytes s a) else m.bytes s a }

def store (config : Config) (record : MemOpRecord) : Memory :=
  let range := m.extent record.dstSpace record.dstAddr record.memSize
  m.change record.dstSpace range.1 range.2 fun b =>
    if record.dstSpace = .gm then b.store (m.exempt config) record.coreId else b.define

def resetChip : Memory := { m with bytes := fun s a => if s = .gm then m.bytes s a else {} }

/-- A record of the host: a block is added at an address where there is none, or the block at the
address is freed and its bytes are undefined again. -/
def host (record : HeapRecord) : Memory :=
  let addr := record.record.dstAddr
  if record.record.dstSpace ≠ .gm then m
  else
    match record.action with
    | .malloc =>
      if m.heap addr = none then
        { m with heap := Function.update m.heap addr (some record.record.memSize) }
      else m
    | .free =>
      { m.change .gm addr ((m.heap addr).getD 0) (fun _ => {}) with
        heap := Function.update m.heap addr none }

end Memory

/-! ### The devices of a process -/

structure Process where
  relations : Relations := ∅
  devices : ℤ → Option Memory := fun _ => none

namespace Process

variable (q : Process)

/-- An access that meets nothing that is allocated on its own device, and that one other device,
which its own may access, has allocated as a whole. -/
def PeerAllows (device : ℤ) (m : Memory) (addr size : ℕ) : Prop :=
  0 < size ∧ addr + size < 2 ^ 64 ∧ (∀ x, addr ≤ x → x < addr + size → ¬ m.Live x) ∧
    ∃ peer m', (device, peer) ∈ q.relations ∧ q.devices peer = some m' ∧
      ∀ x, addr ≤ x → x < addr + size → m'.Live x

variable (config : Config) (mask : ℕ) (device : ℤ) (m : Memory) (record : MemOpRecord)

open Classical in
noncomputable def illegalReports (error : MemErrorType) : List ErrorMsg :=
  if config.memCheck = true ∧ record.ignoreIllegalCheck = false then
    match m.illegal record.dstSpace record.dstAddr record.memSize with
    | none => []
    | some n =>
      if record.dstSpace = .gm ∧ q.PeerAllows device m record.dstAddr record.memSize then []
      else
        [fillErrorLocInfo record
          ((badAccess record.dstAddr n).setType error record.dstSpace record.dstAddr)]
  else []

/-- The report of `n` bytes of the modelled part of an access. -/
def bytesReport (error : MemErrorType) (n : ℕ) : List ErrorMsg :=
  if 0 < n then
    [fillErrorLocInfo record (makeBadBytesMsg error record.dstSpace
      (m.extent record.dstSpace record.dstAddr record.memSize).1 n record.isSimt
      record.mainScalarPc false)]
  else []

def initcheckOn (space : AddressSpace) : Bool :=
  isInitcheckAddressSpaceEnabled (initializationMask config mask) space

noncomputable def loadReports : List ErrorMsg :=
  q.illegalReports config device m record .illegalAddrRead ++
    if initcheckOn config mask record.dstSpace = true ∧
        ¬ (record.dstSpace = .ub ∧ isAscend95 m.type = true) then
      bytesReport m record .uninitializedRead
        (m.undefinedBytes record.dstSpace record.dstAddr record.memSize)
    else []

noncomputable def storeReports : List ErrorMsg :=
  q.illegalReports config device m record .illegalAddrWrite ++
    if config.memCheck = true ∧ record.dstSpace = .gm then
      bytesReport m record .outOfBounds
        (m.overwrittenBytes config record.coreId record.dstAddr record.memSize)
    else []

def source : MemOpRecord :=
  { record with
    srcAddr := record.dstAddr
    dstAddr := record.srcAddr
    srcSpace := record.dstSpace
    dstSpace := record.srcSpace }

/-- **What an access should report.** -/
noncomputable def reports : List ErrorMsg :=
  match record.type with
  | .load => q.loadReports config mask device m record
  | .store => q.storeReports config device m record
  | .memcpyBlocks =>
    q.loadReports config mask device m (source record) ++ q.storeReports config device m record
  | _ => []

def access : Memory :=
  match record.type with
  | .store | .memcpyBlocks => m.store config record
  | _ => m

def setDevice (q : Process) (device : ℤ) (m : Memory) : Process :=
  { q with devices := Function.update q.devices device (some m) }

def onDevice (q : Process) (device : ℤ) (f : Memory → Memory) : Process :=
  match q.devices device with
  | none => q
  | some m => q.setDevice device (f m)

end Process

/-- What an input does to the memory of the devices. -/
def step (pid : ℤ) (config : Config) (q : Process) : Input → Process
  | .deviceInfo device type chipInfo =>
    q.setDevice device
      { ((q.devices device).getD ⟨type, chipInfo, false, fun _ => none, fun _ _ => {}⟩).resetChip
        with type := type, chipInfo := chipInfo }
  | .peerAccess record => { q with relations := (apply pid record q.relations).1 }
  | .host device record => q.onDevice device fun m => m.host record
  | .atomic device enabled => q.onDevice device fun m => { m with atomic := enabled }
  | .blockFinish device => q.onDevice device Memory.resetChip
  | .access device record => q.onDevice device fun m => Process.access config m record

def run (pid : ℤ) (config : Config) (inputs : List Input) : Process :=
  inputs.foldl (step pid config) {}

@[simp] lemma run_nil (pid : ℤ) (config : Config) : run pid config [] = {} := rfl

lemma run_concat (pid : ℤ) (config : Config) (inputs : List Input) (i : Input) :
    run pid config (inputs ++ [i]) = step pid config (run pid config inputs) i := by
  simp [run]

/-! ### What is asked of the inputs -/

/-- A block is allocated beside the live blocks, or inside one at its address, and ends where
`Set` still works. -/
def Placed (m : Memory) (addr size : ℕ) : Prop :=
  0 < size ∧ addr + size ≤ GmBytes.setLimit ∧
    (m.heap addr = none → ∀ x, addr ≤ x → x < addr + size → ¬ m.Live x) ∧
    (m.heap addr ≠ none → ∀ x, addr ≤ x → x < addr + size → m.Live x)

/-- The modelled part of a store to global memory ends where `Set` still works, and its core is one
that a shadow byte has room for. -/
def StoreFits (m : Memory) (record : MemOpRecord) : Prop :=
  record.dstAddr < 2 ^ 64 ∧ record.memSize < 2 ^ 64 ∧
    (record.dstSpace = .gm → 0 ≤ record.coreId ∧ record.coreId < 63 ∧
      ((m.extent .gm record.dstAddr record.memSize).2 = 0 ∨
        (m.extent .gm record.dstAddr record.memSize).1 +
          (m.extent .gm record.dstAddr record.memSize).2 ≤ GmBytes.setLimit))

variable (config : Config) (mask : ℕ)

/-- Where initcheck looks at a load from global memory, its modelled part stays in one chunk,
outside of the last block, and ends where `Set` still works. -/
def LoadFits (m : Memory) (record : MemOpRecord) : Prop :=
  record.dstAddr < 2 ^ 64 ∧ record.memSize < 2 ^ 64 ∧
    (record.dstSpace = .gm → Process.initcheckOn config mask .gm = true →
      (m.extent .gm record.dstAddr record.memSize).2 = 0 ∨
        (m.extent .gm record.dstAddr record.memSize).1 +
            (m.extent .gm record.dstAddr record.memSize).2 ≤ GmBytes.setLimit ∧
          (m.extent .gm record.dstAddr record.memSize).1 % Pm.GmPM.chunkSize +
            (m.extent .gm record.dstAddr record.memSize).2 + Pm.blockSize ≤ 2 ^ 36)

def AccessFits (m : Memory) (record : MemOpRecord) : Prop :=
  match record.type with
  | .load => LoadFits config mask m record
  | .store => StoreFits m record
  | .memcpyBlocks => LoadFits config mask m (Process.source record) ∧ StoreFits m record
  | _ => True

/-- Blocks of the runtime, the ACL or the HAL that are well placed, and accesses that fit. -/
def Fits (q : Process) : Input → Prop
  | .host device r => HeapCoverage.IsReal r ∧ ∀ m, q.devices device = some m →
      r.action = .malloc → r.record.dstSpace = .gm → Placed m r.record.dstAddr r.record.memSize
  | .access device record => ∀ m, q.devices device = some m → AccessFits config mask m record
  | _ => True

end MsSanitizer.DeviceMemory
