import MsSanitizer.AsanAction
import MsSanitizer.PeerAccessManager

/-!
# The accesses of a kernel

What the address sanitizer makes of a load or a store: a check against the bounds of its space,
with a look at the memory of other devices, and a pass over the shadow memory. The sanitizers of
one host process share the relation that says which device may access which.
-/

namespace MsSanitizer.AsanAccess

open MsSanitizer.RecordDefs MsSanitizer.Words MsSanitizer.Bounds MsSanitizer.Shadow
open MsSanitizer.AsanAction MsSanitizer.PeerAccessManager MsSanitizer.Packets

/-! ### `BoundsCheck` -/

/-- The two kinds of `Bounds`. -/
inductive SpaceBounds
  | discrete (ranges : List Range)
  | union (range : Range)

namespace SpaceBounds

def check : SpaceBounds → ℕ → ℕ → AccessType → ErrorMsg
  | discrete ranges, addr, size, accessType => Bounds.check addr size accessType ranges
  | union range, addr, size, accessType => unionCheck addr size accessType range

def hasOverlap : SpaceBounds → ℕ → ℕ → Bool
  | discrete ranges, addr, size => Bounds.hasOverlap addr size ranges
  | union range, addr, size => unionHasOverlap addr size range

end SpaceBounds

/-- `bounds_`. -/
abbrev BoundsCheck := AddressSpace → Option SpaceBounds

namespace BoundsCheck

/-- The bounds of a sanitizer after `Init`, with its table of global memory. -/
def ofChip (chipInfo : ChipInfo) (gm : List Range) : BoundsCheck
  | .gm => some (.discrete gm)
  | .l1 => some (.union (unionRange 0 chipInfo.l1Size.toNat))
  | .l0a => some (.union (unionRange 0 chipInfo.l0aSize.toNat))
  | .l0b => some (.union (unionRange 0 chipInfo.l0bSize.toNat))
  | .l0c => some (.union (unionRange 0 chipInfo.l0cSize.toNat))
  | .ub => some (.union (unionRange 0 chipInfo.ubSize.toNat))
  | .priv => some (.union (unionRange 0 chipInfo.privateSize.toNat))
  | .unknown | .bt | .fb => none

def check (b : BoundsCheck) (space : AddressSpace) (addr size : ℕ) (accessType : AccessType) :
    ErrorMsg :=
  match b space with
  | some bounds => bounds.check addr size accessType
  | none =>
    if space = .unknown then
      let error := if accessType = .read then .illegalAddrRead else .illegalAddrWrite
      let msg := ErrorMsg.setType {} error space addr
      { msg with auxData := { msg.auxData with nBadBytes := size } }
    else {}

def hasOverlap (b : BoundsCheck) (space : AddressSpace) (addr size : ℕ) : Bool :=
  match b space with
  | some bounds => bounds.hasOverlap addr size
  | none => false

end BoundsCheck

/-! ### The spaces that initcheck looks at -/

def initcheckAddressSpaceBit : AddressSpace → ℕ
  | .unknown => 0
  | .priv => 1
  | .gm => 2
  | .l1 => 4
  | .l0a => 8
  | .l0b => 16
  | .l0c => 32
  | .ub => 64
  | .bt => 128
  | .fb => 256

/-- `GetEffectiveInitcheckAddressSpaceMask` for `INITIALIZATION_CHECK`. -/
def initializationMask (config : Config) (mask : ℕ) : ℕ := if config.initCheck then mask else 0

def isInitcheckAddressSpaceEnabled (mask : ℕ) (space : AddressSpace) : Bool :=
  mask &&& initcheckAddressSpaceBit space != 0

/-! ### The actions -/

/-- What an action reads: the bounds, `CheckRemote` of these bounds, and the settings. -/
structure Env where
  bounds : BoundsCheck
  checkRemote : ℕ → ℕ → AccessType → Bool
  config : Config
  /-- The mask of `ConfigManager`. -/
  mask : ℕ

namespace Env

variable (env : Env)

def checkPeerAccessAddr (record : MemOpRecord) (accessType : AccessType) : Bool :=
  if record.dstSpace ≠ .gm then false
  else if env.bounds.hasOverlap record.dstSpace record.dstAddr record.memSize then false
  else env.checkRemote record.dstAddr record.memSize accessType

/-- The check of the bounds that `AsanLoad` and `AsanStore` begin with. -/
def checkIllegal (record : MemOpRecord) (accessType : AccessType) (error : MemErrorType) :
    List ErrorMsg :=
  if env.config.memCheck && !record.ignoreIllegalCheck then
    let msg := env.bounds.check record.dstSpace record.dstAddr record.memSize accessType
    if msg.isError && !env.checkPeerAccessAddr record accessType then
      [fillErrorLocInfo record (msg.setType error record.dstSpace msg.auxData.badAddr)]
    else []
  else []

def initcheckEnabled (space : AddressSpace) : Bool :=
  isInitcheckAddressSpaceEnabled (initializationMask env.config env.mask) space

/-- `AsanLoad::doAction`; a load leaves the shadow memory as it is. -/
def asanLoad (sm : ShadowMemory) (ignoreShadowMemory : Bool) (record : MemOpRecord) :
    List ErrorMsg :=
  env.checkIllegal record .read .illegalAddrRead ++
    if env.initcheckEnabled record.dstSpace && !ignoreShadowMemory then
      (sm.loadNBytes (.ofRecord record) env.config.initCheck).map (fillErrorLocInfo record)
    else []

/-- `AsanStore::doAction`. Stores to global memory are followed for memcheck too. -/
def asanStore (sm : ShadowMemory) (ignoreShadowMemory : Bool) (record : MemOpRecord) :
    List ErrorMsg × ShadowMemory :=
  let illegal := env.checkIllegal record .write .illegalAddrWrite
  if (env.initcheckEnabled record.dstSpace ||
      (env.config.memCheck && record.dstSpace == .gm)) && !ignoreShadowMemory then
    let (storeErrors, sm) :=
      sm.storeNBytes (.ofRecord record) env.config.memCheck env.config.outOfBoundCheck
    (illegal ++ storeErrors.map (fillErrorLocInfo record), sm)
  else (illegal, sm)

/-- `AsanMemcpyBlocks::doAction`: it loads from the source and stores to the destination. -/
def asanMemcpyBlocks (sm : ShadowMemory) (ignoreShadowMemory : Bool) (record : MemOpRecord) :
    List ErrorMsg × ShadowMemory :=
  let source :=
    { record with
      srcAddr := record.dstAddr
      dstAddr := record.srcAddr
      srcSpace := record.dstSpace
      dstSpace := record.srcSpace }
  let readErrorMsgs := env.asanLoad sm ignoreShadowMemory source
  let (writeErrorMsgs, sm) := env.asanStore sm ignoreShadowMemory record
  (readErrorMsgs ++ writeErrorMsgs, sm)

/-- `CreateAsanAction` for the accesses, and the action. -/
def doAction (sm : ShadowMemory) (ignoreShadowMemory : Bool) (record : MemOpRecord) :
    List ErrorMsg × ShadowMemory :=
  match record.type with
  | .load => (env.asanLoad sm ignoreShadowMemory record, sm)
  | .store => env.asanStore sm ignoreShadowMemory record
  | .memcpyBlocks => env.asanMemcpyBlocks sm ignoreShadowMemory record
  | _ => ([], sm)

end Env

/-! ### The sanitizers of a process -/

/-- The bounds of the scope that a sanitizer is in, for a look from another device. -/
def gmOfScope (s : AddressSanitizer) : List Range :=
  if s.scopes.scope = .dfx then s.boundsCheckDfx else s.boundsCheckRuntime

def checkExistingGmRange (s : AddressSanitizer) (addr size : ℕ) (accessType : AccessType) : Bool :=
  !((BoundsCheck.ofChip s.shadowMemory.chipInfo (gmOfScope s)).check .gm addr size
    accessType).isError

/-- The devices of one host process that have a sanitizer, and who may access whom. -/
structure HostProcess where
  relations : Relations := ∅
  devices : ℤ → Option AddressSanitizer := fun _ => none

namespace HostProcess

/-- `CheckRemote` for the bounds of a device. -/
def checkRemote (p : HostProcess) (device : ℤ) (addr size : ℕ) (accessType : AccessType) : Bool :=
  PeerAccessManager.checkRemote p.relations
    (fun peer addr size =>
      (p.devices peer).map fun s => checkExistingGmRange s addr size accessType)
    device addr size

def setDevice (p : HostProcess) (device : ℤ) (s : AddressSanitizer) : HostProcess :=
  { p with devices := Function.update p.devices device (some s) }

/-- What an action of a device reads when it works on the table `gm`. -/
def env (p : HostProcess) (mask : ℕ) (device : ℤ) (s : AddressSanitizer) (gm : List Range) :
    Env where
  bounds := .ofChip s.shadowMemory.chipInfo gm
  checkRemote := p.checkRemote device
  config := s.config
  mask := mask

/-- `DoMemOpRecord` on an access of a kernel, with `ScopeDoAction`. -/
def doMemOpRecord (p : HostProcess) (mask : ℕ) (device : ℤ) (s : AddressSanitizer)
    (record : MemOpRecord) : List ErrorMsg × AddressSanitizer :=
  let rt := p.env mask device s s.boundsCheckRuntime
  let dfx := p.env mask device s s.boundsCheckDfx
  match s.scopes.scope with
  | .dfx =>
    let (errorMsgs, sm) := dfx.doAction s.shadowMemory false record
    (errorMsgs, { s with shadowMemory := sm })
  | .bypass =>
    let (dfxErrors, sm) := dfx.doAction s.shadowMemory true record
    let (rtErrors, sm) := rt.doAction sm false record
    (dfxErrors ++ rtErrors, { s with shadowMemory := sm })
  | .runtime =>
    let (errorMsgs, sm) := rt.doAction s.shadowMemory false record
    (errorMsgs, { s with shadowMemory := sm })

end HostProcess

/-- What the sanitizers of a process are given. -/
inductive Input
  /-- `SetDeviceInfo` for a known device. -/
  | deviceInfo (device : ℤ) (type : DeviceType) (chipInfo : ChipInfo)
  | peerAccess (record : PeerAccessRecord)
  /-- A record of the host. -/
  | host (device : ℤ) (record : HeapRecord)
  /-- A record of a kernel that turns atomic accesses on or off. -/
  | atomic (device : ℤ) (enabled : Bool)
  | blockFinish (device : ℤ)
  /-- An access of a kernel. -/
  | access (device : ℤ) (record : MemOpRecord)

/-- Change the sanitizer of a device; without one the record is dropped. -/
def HostProcess.onDevice (p : HostProcess) (device : ℤ)
    (f : AddressSanitizer → List ErrorMsg × AddressSanitizer) : List ErrorMsg × HostProcess :=
  match p.devices device with
  | none => ([], p)
  | some s => ((f s).1, p.setDevice device (f s).2)

/-- `SetDeviceInfo`, `CheckRecordBeforeProcess` and `DoMemOpRecord`. -/
def step (pid : ℤ) (config : Config) (mask : ℕ) (p : HostProcess) :
    Input → List ErrorMsg × HostProcess
  | .deviceInfo device type chipInfo =>
    ([], p.setDevice device (((p.devices device).getD {}).setDeviceInfo type chipInfo config))
  | .peerAccess record => ([], { p with relations := (apply pid record p.relations).1 })
  | .host device record => p.onDevice device fun s => s.process record
  | .atomic device enabled => p.onDevice device fun s =>
    ([], { s with shadowMemory := s.shadowMemory.setAtomic enabled })
  | .blockFinish device => p.onDevice device fun s =>
    ([], { s with shadowMemory := s.shadowMemory.resetChipMemory.resetPrivateMemory })
  | .access device record => p.onDevice device fun s => p.doMemOpRecord mask device s record

def run (pid : ℤ) (config : Config) (mask : ℕ) (inputs : List Input) : HostProcess :=
  inputs.foldl (fun p i => (step pid config mask p i).2) {}

@[simp] lemma run_nil (pid : ℤ) (config : Config) (mask : ℕ) :
    run pid config mask [] = {} := rfl

lemma run_concat (pid : ℤ) (config : Config) (mask : ℕ) (inputs : List Input) (i : Input) :
    run pid config mask (inputs ++ [i]) =
      (step pid config mask (run pid config mask inputs) i).2 := by
  simp [run]

end MsSanitizer.AsanAccess
