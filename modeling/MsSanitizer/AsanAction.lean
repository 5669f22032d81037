import MsSanitizer.Bounds
import MsSanitizer.Shadow

/-!
The records of the host that allocate and free memory.

The address sanitizer keeps two tables of the accessible ranges of global memory, one for
what the runtime allocates and one for what the dump tool reports, next to the heap blocks
of the shadow memory. A record is handled in the scope its source selects: it changes the
blocks and the table of its scope by separate calls. Only the two actions that allocate and
free are modelled; both return at once for another address space, so that a bounds check is
its table of global memory.
-/

namespace MsSanitizer.AsanAction

open MsSanitizer.RecordDefs MsSanitizer.Words MsSanitizer.Bounds MsSanitizer.HeapBlocks
open MsSanitizer.Shadow

def fillErrorLocInfo (record : MemOpRecord) (msg : ErrorMsg) : ErrorMsg :=
  { msg with
    auxData := { msg.auxData with
      moduleId := record.moduleId
      fileName := record.fileName
      lineNo := (record.lineNo % 2 ^ 64).toNat
      coreId := record.coreId
      blockType := record.blockType
      pc := record.pc
      serialNo := record.serialNo
      side := record.side
      recordType := record.recordType } }

/-- What an action leaves: its messages, the shadow memory and the table it worked on. -/
structure Outcome where
  errorMsgs : List ErrorMsg
  shadowMemory : ShadowMemory
  bounds : List Range

def ErrorMsg.asList (msg : ErrorMsg) : List ErrorMsg := if msg.isError then [msg] else []

/-- `AsanMalloc::doAction`. -/
def asanMalloc (sm : ShadowMemory) (bounds : List Range) (ignoreShadowMemory : Bool)
    (record : MemOpRecord) : Outcome :=
  if record.dstSpace ≠ .gm then ⟨[], sm, bounds⟩
  else
    let (ok, sm) := if ignoreShadowMemory then (true, sm) else sm.addHeapBlock record
    if !ok then ⟨[], sm, bounds⟩
    else
      -- a registered heap becomes inaccessible until its regions are added
      let (msg, bounds) :=
        if record.infoSrc = .mstxHeap then remove record.dstAddr record.memSize bounds
        else add record.dstAddr record.memSize defaultPermission bounds
      ⟨ErrorMsg.asList msg, sm, bounds⟩

/-- The first half of `AsanFree::doAction`: the messages, the size and the shadow memory. -/
def freeBlock (sm : ShadowMemory) (ignoreShadowMemory : Bool) (record : MemOpRecord) :
    List ErrorMsg × ℕ × ShadowMemory :=
  if ignoreShadowMemory then
    let manager :=
      if record.infoSrc = .bypass then sm.heapBlockManagerBypass else sm.heapBlockManager
    ([], manager.getHeapBlockSize record, sm)
  else
    let (msg, size, sm) := sm.freeHeapBlock record
    let msg := { msg with auxData := { msg.auxData with badAddr := record.dstAddr } }
    ((ErrorMsg.asList msg).map (fillErrorLocInfo record), size, sm)

/-- The part of `AsanFree::doAction` that looks for unused memory. -/
def freeUnused (sm : ShadowMemory) (config : Config) (ignoreShadowMemory : Bool)
    (record : MemOpRecord) (size : ℕ) : List ErrorMsg × ShadowMemory :=
  if config.memCheck && config.checkUnusedMemory && !ignoreShadowMemory &&
      record.infoSrc != .bypass then
    let (msg, sm) := sm.checkUnusedMem record.dstAddr size
    let aux := { msg.auxData with side := record.side, serialNo := record.serialNo }
    (ErrorMsg.asList { msg with auxData := aux }, sm)
  else ([], sm)

/-- The end of `AsanFree::doAction`: what the shadow memory forgets. -/
def freeClear (sm : ShadowMemory) (ignoreShadowMemory : Bool) (record : MemOpRecord) (size : ℕ) :
    ShadowMemory :=
  if ignoreShadowMemory then sm
  else if record.infoSrc = .extra then sm.clearBlockId record.dstAddr size
  else sm.makeMemUndefined record.dstAddr size

/-- `AsanFree::doAction`. -/
def asanFree (sm : ShadowMemory) (bounds : List Range) (config : Config)
    (ignoreShadowMemory : Bool) (record : MemOpRecord) : Outcome :=
  if record.dstSpace ≠ .gm then ⟨[], sm, bounds⟩
  else
    let (freeMsgs, size, sm) := freeBlock sm ignoreShadowMemory record
    -- an unregistered heap becomes accessible again
    let (msg, bounds) :=
      if record.infoSrc = .mstxHeap then add record.dstAddr size defaultPermission bounds
      else remove record.dstAddr size bounds
    let (unusedMsgs, sm) := freeUnused sm config ignoreShadowMemory record size
    ⟨freeMsgs ++ ErrorMsg.asList msg ++ unusedMsgs,
      freeClear sm ignoreShadowMemory record size, bounds⟩

/-- The actions of the records that change the heap. -/
inductive HeapAction
  | malloc | free
  deriving DecidableEq, Repr

/-- The type of the records that an action is created for. -/
def HeapAction.type : HeapAction → MemOpType
  | .malloc => .malloc
  | .free => .free

/-- A record that allocates or frees; its address and size are 64-bit fields. -/
structure HeapRecord where
  action : HeapAction
  record : MemOpRecord
  type_eq : record.type = action.type
  addr_lt : record.dstAddr < 2 ^ 64
  size_lt : record.memSize < 2 ^ 64

def HeapRecord.doAction (r : HeapRecord) (sm : ShadowMemory) (bounds : List Range)
    (config : Config) (ignoreShadowMemory : Bool) : Outcome :=
  match r.action with
  | .malloc => asanMalloc sm bounds ignoreShadowMemory r.record
  | .free => asanFree sm bounds config ignoreShadowMemory r.record

inductive BoundsCheckScope
  | runtime | dfx | bypass
  deriving DecidableEq, Repr

def memInfoToScope : MemInfoSrc → BoundsCheckScope
  | .extra | .manual => .dfx
  | .bypass => .bypass
  | _ => .runtime

/-- The fields of `AddressSanitizer` that choose the table: `boundsCheckScope_`,
`historyBoundsCheckScope_` and `mstxHeapCacheMap_`. -/
structure Scopes where
  scope : BoundsCheckScope := .runtime
  history : BoundsCheckScope := .runtime
  mstxHeapCacheMap : Std.TreeMap ℕ ℕ := ∅

namespace Scopes

/-- `UpdateHeapInfo`: how many times each heap is registered. -/
def updateHeapInfo (cache : Std.TreeMap ℕ ℕ) (record : MemOpRecord) : Std.TreeMap ℕ ℕ :=
  if record.infoSrc ≠ .mstxHeap then cache
  else
    match record.type with
    | .malloc => cache.insert record.dstAddr (add64 ((cache[record.dstAddr]?).getD 0) 1)
    | .free =>
      match cache[record.dstAddr]? with
      | none => cache
      | some n =>
        if n ≤ 1 then cache.erase record.dstAddr else cache.insert record.dstAddr (n - 1)
    | _ => cache

def beforeScopeSwitch (s : Scopes) (record : MemOpRecord) : Scopes where
  scope := memInfoToScope record.infoSrc
  history := s.scope
  mstxHeapCacheMap := updateHeapInfo s.mstxHeapCacheMap record

/-- `AfterScopeSwitch`; the three switches are made one after the other. -/
def afterScopeSwitch (s : Scopes) (record : MemOpRecord) : Scopes :=
  let src := record.infoSrc
  let scope := s.scope
  let scope := if src = .extra ∧ ¬ s.mstxHeapCacheMap.isEmpty then .runtime else scope
  let scope := if (src = .extra ∨ src = .manual) ∧ record.type = .free then .runtime else scope
  let scope := if src = .bypass then s.history else scope
  { s with scope := scope }

end Scopes

structure AddressSanitizer where
  shadowMemory : ShadowMemory := .new
  config : Config := {}
  scopes : Scopes := {}
  boundsCheckRuntime : List Range := []
  boundsCheckDfx : List Range := []

namespace AddressSanitizer

/-- `SetDeviceInfo` for a known device; the tables of global memory stay as they are. -/
def setDeviceInfo (s : AddressSanitizer) (device : DeviceType) (chipInfo : ChipInfo)
    (config : Config) : AddressSanitizer :=
  { s with config := config, shadowMemory := s.shadowMemory.init device chipInfo }

def scopeDoAction (s : AddressSanitizer) (r : HeapRecord) : List ErrorMsg × AddressSanitizer :=
  match s.scopes.scope with
  | .dfx =>
    let o := r.doAction s.shadowMemory s.boundsCheckDfx s.config false
    (o.errorMsgs, { s with shadowMemory := o.shadowMemory, boundsCheckDfx := o.bounds })
  | .bypass =>
    -- the first pass leaves the shadow memory alone, so that the second still finds the size
    let dfx := r.doAction s.shadowMemory s.boundsCheckDfx s.config true
    let rt := r.doAction dfx.shadowMemory s.boundsCheckRuntime s.config false
    (dfx.errorMsgs ++ rt.errorMsgs,
      { s with
        shadowMemory := rt.shadowMemory
        boundsCheckDfx := dfx.bounds
        boundsCheckRuntime := rt.bounds })
  | .runtime =>
    let o := r.doAction s.shadowMemory s.boundsCheckRuntime s.config false
    (o.errorMsgs, { s with shadowMemory := o.shadowMemory, boundsCheckRuntime := o.bounds })

/-- `CheckRecordBeforeProcess` on a record of the host, with `DoMemOpRecord`: the messages
that are reported and the next state. -/
def process (s : AddressSanitizer) (r : HeapRecord) : List ErrorMsg × AddressSanitizer :=
  let s := { s with scopes := s.scopes.beforeScopeSwitch r.record }
  let (errorMsgs, s) := s.scopeDoAction r
  (errorMsgs, { s with scopes := s.scopes.afterScopeSwitch r.record })

def run (s : AddressSanitizer) (rs : List HeapRecord) : AddressSanitizer :=
  rs.foldl (fun s r => (s.process r).2) s

@[simp] lemma run_nil (s : AddressSanitizer) : s.run [] = s := rfl

lemma run_concat (s : AddressSanitizer) (rs : List HeapRecord) (r : HeapRecord) :
    s.run (rs ++ [r]) = ((s.run rs).process r).2 := by
  simp [run]

abbrev blocks (s : AddressSanitizer) : Std.TreeMap ℕ HeapBlock :=
  s.shadowMemory.heapBlockManager.heapBlocks

end AddressSanitizer

end MsSanitizer.AsanAction
