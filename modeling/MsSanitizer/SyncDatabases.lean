import MsSanitizer.BarrierDatabase
import MsSanitizer.CrossCoreSync

/-!
# The stores of the replay engines

The models of `sync_event_data_base`, `signal_database` and of the maps that the engines keep for
MSTX flags and buffers. A map of the source is a function; where a missing key behaves as an
empty queue it is one.
-/

namespace MsSanitizer

open RecordDefs EventDef VectorTime CrossCoreSync

/-- `SyncEvent`: the key of a flag between two pipes. -/
structure SyncEvent where
  srcPipe : PipeType
  dstPipe : PipeType
  eventId : ℕ
  memType : MemType
  isRetrogress : Bool
  deriving DecidableEq, Repr

/-- The key that the engines make of an event; the event id is cut to 8 bits. -/
def SyncEvent.ofInfo (info : SyncOpInfo) : SyncEvent where
  srcPipe := info.srcPipe
  dstPipe := info.dstPipe
  eventId := info.eventId % 2 ^ 8
  memType := info.memType
  isRetrogress := info.isRetrogress

abbrev SyncEventDataBase := SyncEvent → List VectorTime

namespace SyncEventDataBase

def empty : SyncEventDataBase := fun _ => []

def set (db : SyncEventDataBase) (event : SyncEvent) (vt : VectorTime) : SyncEventDataBase :=
  Function.update db event (db event ++ [vt])

def get (db : SyncEventDataBase) (event : SyncEvent) : Option VectorTime × SyncEventDataBase :=
  match db event with
  | [] => (none, db)
  | vt :: rest => (some vt, Function.update db event rest)

end SyncEventDataBase

/-- `SignalDatabase`: the value and the time of a signal. -/
abbrev SignalDatabase := ℕ → Option (ℤ × VectorTime)

namespace SignalDatabase

def empty : SignalDatabase := fun _ => none

def set (db : SignalDatabase) (event : MstxSignalSet) (vt : VectorTime) : SignalDatabase :=
  Function.update db event.addr (some (event.value, vt))

def accumulate (db : SignalDatabase) (event : MstxSignalSet) (vt : VectorTime) :
    SignalDatabase :=
  match db event.addr with
  | none => Function.update db event.addr (some (event.value, vt))
  | some (value, t) =>
    Function.update db event.addr (some (max value event.value, updateVectorTime vt t))

/-- The comparison of `Wait`. -/
def compare (cmpOp : CompareOp) (value cmpValue : ℤ) : Bool :=
  match cmpOp with
  | .eq => decide (value = cmpValue)
  | .ne => decide (value ≠ cmpValue)
  | .gt => decide (cmpValue < value)
  | .ge => decide (cmpValue ≤ value)
  | .lt => decide (value < cmpValue)
  | .le => decide (value ≤ cmpValue)

/-- `Wait`: the time of the signal, where it returns `true`. -/
def wait (db : SignalDatabase) (event : MstxSignalWait) : Option VectorTime :=
  match db event.addr with
  | none => none
  | some (value, t) => if compare event.cmpOp value event.cmpValue then some t else none

end SignalDatabase

structure CrossNpuBarrierConf where
  isAIVOnly : Bool
  usedDeviceNum : ℕ
  usedCoreNum : ℕ
  deriving DecidableEq, Repr

abbrev BarrierDatabase (Worker : Type) := CrossNpuBarrierConf → BarrierEvent Worker

/-- The number of sets of MSTX flags that a replay has in store, by address and flag id. -/
abbrev MstxSetCrossMap := ℕ × ℕ → Option ℕ

def cacheMstxCrossSet (m : MstxSetCrossMap) (event : SanEvent) : MstxSetCrossMap :=
  match event.info with
  | .mstxCrossSync info =>
    if info.opType = .mstxSetCross then
      Function.update m (info.addr, info.flagId)
        (some (((m (info.addr, info.flagId)).getD 0 + 1) % 2 ^ 64))
    else m
  | _ => m

/-- A matched wait takes one set out of the store. -/
def MstxSetCrossMap.matched (m : MstxSetCrossMap) (info : MstxCrossInfo) : MstxSetCrossMap :=
  Function.update m (info.addr, info.flagId)
    ((m (info.addr, info.flagId)).map fun n => (n + 2 ^ 64 - 1) % 2 ^ 64)

/-- A wait that may stand for several sets is skipped when none is in store. -/
def MstxSetCrossMap.skips (m : MstxSetCrossMap) (info : MstxCrossInfo) : Bool :=
  info.isMore && (m (info.addr, info.flagId)).getD 0 == 0

end MsSanitizer
