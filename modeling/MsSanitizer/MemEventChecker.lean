import MsSanitizer.MemSeries
import MsSanitizer.CountingSort

/-!
# The scanline over memory events

The model of `mem_event_checker.cpp`. Each event covers a half-open interval of addresses; its
two end points go into one list that is sorted by address, and the scan keeps the events whose
interval is open. `ScanGeneric` compares an event that starts with all open ones of its memory
type, `ScanSinglePipeWindow` and `ScanSingleBlockFast` only with those that the check of their
mode can accept.

A check function of the source gets two `EventIdxInfo` and may write to the second field of
each. Here it is a function of the two event indexes that returns the verdict and what it
writes. The hash sets of the source have no order; here they list their events in the order of
insertion. An access outside a vector ends the scan without a result.
-/

namespace MsSanitizer.MemEventChecker

open RecordDefs EventDef Words MemSeries

structure MemEvent where
  serialNo : ℕ := 0
  barrierNo : ℕ := 0
  pipeSerialNo : ℕ := 0
  closedRingStartSerialNo : ℕ := 0
  vt : VectorTime := {}
  memInfo : MemOpInfo := {}
  dynamicMemInfo : DynamicOpInfo := {}
  loc : LocInfo := {}
  pipe : PipeType := .s
  isAtomicMode : Bool := false
  isDynamic : Bool := false

structure EventIdxInfo where
  eventIdx : ℕ := 0
  dynamicErrorIdx : ℕ := 0
  deriving DecidableEq, Repr

/-- What a check function returns and writes to the two `dynamicErrorIdx` it is given. -/
structure Verdict where
  race : Bool
  errorIdx1 : Option ℕ := none
  errorIdx2 : Option ℕ := none
  deriving DecidableEq, Repr

abbrev CheckTypeFunc := ℕ → ℕ → Verdict

abbrev RaceMemEventsIdx := List (EventIdxInfo × EventIdxInfo)

/-! ## Overlaps -/

/-- `TransToRecords`: the first `count` records of a buffer with their indexes, sorted as
`CompareSmRecord` says. -/
def transToRecords (buffer : List ShadowMemoryRecord) (count : ℕ) :
    List (ShadowMemoryRecord × ℕ) :=
  (buffer.take count).zipIdx.mergeSort fun l r =>
    if l.1.addr = r.1.addr then
      if l.1.size = r.1.size then decide (l.2 ≤ r.2) else decide (l.1.size ≤ r.1.size)
    else decide (l.1.addr ≤ r.1.addr)

/-- The records of a dynamic event that carries some. -/
def recordsOf (op : DynamicOpInfo) : Option (List (ShadowMemoryRecord × ℕ)) :=
  match op.buffer with
  | some buffer =>
    if op.dynamicType = simtEntry ∧ 0 < op.count then some (transToRecords buffer op.count)
    else none
  | none => none

/-- The loop of `IsMemoryOverlap` of two dynamic events. -/
def dynamicLoop : List (ShadowMemoryRecord × ℕ) → List (ShadowMemoryRecord × ℕ) → Verdict →
    Verdict
  | r1 :: l1, r2 :: l2, v =>
    let end1 := add64 r1.1.addr r1.1.size
    let end2 := add64 r2.1.addr r2.1.size
    let hit := r1.1.addr < end2 ∧ r2.1.addr < end1 ∧
      ¬ (r1.1.accessType = .read ∧ r2.1.accessType = .read)
    let v' : Verdict :=
      if hit then { race := true, errorIdx1 := some r1.2, errorIdx2 := some r2.2 } else v
    if hit ∧ r1.1.pc ≠ r2.1.pc then v'
    else if end1 < end2 then dynamicLoop l1 (r2 :: l2) v'
    else if end1 = end2 then dynamicLoop l1 l2 v'
    else dynamicLoop (r1 :: l1) l2 v'
  | _, _, v => v
termination_by l1 l2 => l1.length + l2.length

def splitMem (op : MemOpInfo) : List (ℕ × ℕ) :=
  (List.range op.repeatTimes).flatMap fun r => (List.range op.blockNum).map fun b =>
    let start := add64 op.addr
      (r * op.repeatStride * op.blockSize + b * op.blockStride * op.blockSize)
    (start, add64 start op.blockSize)

/-- The loop of `IsMemoryOverlap` of a memory operation and a dynamic event. -/
def memDynamicLoop (opType : AccessType) : List (ℕ × ℕ) → List (ShadowMemoryRecord × ℕ) →
    Option ℕ
  | r1 :: l1, r2 :: l2 =>
    let end2 := add64 r2.1.addr r2.1.size
    if r1.1 < end2 ∧ r2.1.addr < r1.2 ∧ ¬ (r2.1.accessType = .read ∧ opType = .read) then some r2.2
    else if r1.2 < end2 then memDynamicLoop opType l1 (r2 :: l2)
    else if r1.2 = end2 then memDynamicLoop opType l1 l2
    else memDynamicLoop opType (r1 :: l1) l2
  | _, _ => none
termination_by l1 l2 => l1.length + l2.length

/-- `IsMemoryOverlap` of a memory operation and a dynamic event: the index of the record. -/
def isMemDynamicOverlap (op1 : MemOpInfo) (op2 : DynamicOpInfo) : Option ℕ :=
  match recordsOf op2 with
  | some records =>
    memDynamicLoop op1.opType ((splitMem op1).mergeSort fun l r =>
      if l.1 = r.1 then decide (l.2 ≤ r.2) else decide (l.1 ≤ r.1)) records
  | none => none

def isMemSpaceOverlap (e1 e2 : MemEvent) : Verdict :=
  match e1.isDynamic, e2.isDynamic with
  | false, false => { race := isMemoryOverlap e1.memInfo e2.memInfo }
  | false, true =>
    let hit := isMemDynamicOverlap e1.memInfo e2.dynamicMemInfo
    { race := hit.isSome, errorIdx2 := hit }
  | true, false =>
    let hit := isMemDynamicOverlap e2.memInfo e1.dynamicMemInfo
    { race := hit.isSome, errorIdx1 := hit }
  | true, true =>
    match recordsOf e1.dynamicMemInfo, recordsOf e2.dynamicMemInfo with
    | some l1, some l2 => dynamicLoop l1 l2 { race := false }
    | _, _ => { race := false }

/-! ## Check functions -/

/-- `MMAD_FRACTAL_SIZE` and `MMAD_K_ACCUM_MIN_FRACTAL_NUM`. -/
def mmadFractalSize : ℕ := 16
def mmadKAccumMinFractalNum : ℕ := 10

def isLargeMatmulAccess (e : MemEvent) : Bool :=
  decide (e.memInfo.instrClass = .cubeMatmul) && decide (mmadKAccumMinFractalNum ≤
    e.memInfo.matrixM / mmadFractalSize * (e.memInfo.matrixN / mmadFractalSize))

/-- The distance of two instructions on their pipe. -/
def serialDiff (e1 e2 : MemEvent) : ℕ :=
  if e2.pipeSerialNo < e1.pipeSerialNo then e1.pipeSerialNo - e2.pipeSerialNo
  else e2.pipeSerialNo - e1.pipeSerialNo

def isMatmulAccumOrderedByHardware (e1 e2 : MemEvent) : Bool :=
  serialDiff e1 e2 == 1 && (isLargeMatmulAccess e1 && isLargeMatmulAccess e2)

def isAtomicEvent (e : MemEvent) : Bool :=
  e.memInfo.isScalarAtomic ||
    (e.isAtomicMode && decide (e.memInfo.opType = .write) && decide (e.pipe ≠ .s))

def isAtomicAgainst (e1 e2 : MemEvent) : Bool := isAtomicEvent e1 && isAtomicEvent e2

/-- The chip and the kernel that a checker was initialised with. -/
structure Platform where
  kernelType : KernelType
  deviceType : DeviceType

/-- `GetPipeIdxByMemEvent` for `SINGLE_BLOCK_CHECK`. -/
def getPipeIdxByMemEvent (cfg : Platform) (e : MemEvent) : ℕ :=
  getEventBlockIndex e.loc cfg.kernelType cfg.deviceType * pipeSize + e.pipe.idx

/-- `VectorClock::IsNotHappensBefore` of two pairs of components. -/
def isNotHappensBefore (a1 a2 b1 b2 : ℕ) : Bool :=
  if a1 = a2 then false else if a1 < a2 then decide (b2 < b1) else decide (b1 < b2)

def isInnerCoreRaceCandidate (e1 e2 : MemEvent) (pipeIdx1 ownTime1 pipeIdx2 ownTime2 : ℕ) :
    Bool :=
  if ownTime1 = e2.vt.get pipeIdx1 then false
  else if !isNotHappensBefore ownTime1 (e2.vt.get pipeIdx1) (e1.vt.get pipeIdx2) ownTime2 then
    false
  else !isAtomicAgainst e1 e2

/-- `events_[i]`. -/
def eventAt (events : List MemEvent) (i : ℕ) : MemEvent := events.getD i {}

def isInnerCoreRaceEvent (cfg : Platform) (events : List MemEvent) : CheckTypeFunc := fun i j =>
  let e1 := eventAt events i
  let e2 := eventAt events j
  if e1.pipe = e2.pipe then { race := false }
  else
    let pipeIdx1 := getPipeIdxByMemEvent cfg e1
    let pipeIdx2 := getPipeIdxByMemEvent cfg e2
    if !isInnerCoreRaceCandidate e1 e2 pipeIdx1 (e1.vt.get pipeIdx1) pipeIdx2
        (e2.vt.get pipeIdx2) then { race := false }
    else isMemSpaceOverlap e1 e2

/-- `MAX_SERIAL_NUMBER_DIFF`, and `WINDOW` of the scan that relies on it. -/
def maxSerialNumberDiff : ℕ := 16

def isSinglePipeRaceEvent (events : List MemEvent) : CheckTypeFunc := fun i j =>
  let e1 := eventAt events i
  let e2 := eventAt events j
  if e1.memInfo.memType ≠ e2.memInfo.memType then { race := false }
  else if e1.pipe ≠ e2.pipe then { race := false }
  else if e1.serialNo = e2.serialNo then { race := false }
  else if isAtomicAgainst e1 e2 then { race := false }
  else if maxSerialNumberDiff < serialDiff e1 e2 then { race := false }
  else if e1.barrierNo ≠ e2.barrierNo then { race := false }
  else if isMatmulAccumOrderedByHardware e1 e2 then { race := false }
  else if e1.serialNo ≤ e2.closedRingStartSerialNo ∨ e2.serialNo ≤ e1.closedRingStartSerialNo then
    { race := false }
  else isMemSpaceOverlap e1 e2

/-! ## End points -/

/-- `GetMemMaxLength`; of a memory operation it is computed with 32 bits. -/
def getMemMaxLength (e : MemEvent) : ℕ :=
  if e.isDynamic then
    sub64 (e.dynamicMemInfo.maxAddr % 2 ^ 64) (e.dynamicMemInfo.minAddr % 2 ^ 64)
  else
    let op := e.memInfo
    if op.maskMode = .count ∧ (op.mask0 = 0 ∨ op.dataBits = 0) then 0
    else if op.repeatTimes = 0 ∨ op.blockNum = 0 ∨ op.blockSize = 0 then 0
    else ((op.repeatTimes - 1) * op.repeatStride * op.blockSize +
      (op.blockNum - 1) * op.blockStride * op.blockSize + op.blockSize) % 2 ^ 32

structure SortMetaData where
  addr : ℕ
  eventIdx : ℕ
  isStart : Bool
  deriving DecidableEq, Repr

def compareEvent (lhs rhs : SortMetaData) : Bool :=
  if lhs.addr = rhs.addr then
    if lhs.isStart = rhs.isStart then decide (lhs.eventIdx < rhs.eventIdx)
    else decide (lhs.isStart.toNat < rhs.isStart.toNat)
  else decide (lhs.addr < rhs.addr)

/-- `kRadixBits`. -/
def radixBits : ℕ := 16

/-- The digit of an address that the pass with this shift sorts by. -/
def radixDigit (shift : ℕ) (m : SortMetaData) : ℕ := (m.addr >>> shift) &&& (2 ^ radixBits - 1)

/-- `RadixSortByAddr`: four passes of counting sort, from the lowest digit to the highest. -/
def radixSortByAddr (data : List SortMetaData) : List SortMetaData :=
  if data.length < 2 then data
  else
    ((List.range 4).foldl (fun (s : List SortMetaData × List SortMetaData) i =>
      (CountingSort.pass (radixDigit (i * radixBits)) (2 ^ radixBits) s.1 s.2, s.1))
      (data, List.replicate data.length { addr := 0, eventIdx := 0, isStart := false })).1

/-- The first address of the interval of an event. -/
def startAddr (e : MemEvent) : ℕ :=
  (if e.isDynamic then e.dynamicMemInfo.minAddr else e.memInfo.addr) % 2 ^ 64

def endAddr (e : MemEvent) : ℕ :=
  if e.isDynamic then e.dynamicMemInfo.maxAddr % 2 ^ 64
  else add64 e.memInfo.addr (getMemMaxLength e)

/-- The end points of one kind, in the order of the events; indexes have 32 bits. -/
def endPoints (events : List MemEvent) (isStart : Bool) : List SortMetaData :=
  (events.zipIdx.filter fun p => getMemMaxLength p.1 ≠ 0).map fun p =>
    { addr := if isStart then startAddr p.1 else endAddr p.1
      eventIdx := p.2 % 2 ^ 32
      isStart := isStart }

/-- `BuildScanlineMetaData`: all ends before all starts, then sorted by address. -/
def buildScanlineMetaData (events : List MemEvent) : List SortMetaData :=
  radixSortByAddr (endPoints events false ++ endPoints events true)

/-- `EffOpType`: a dynamic event counts as a write. -/
def effOpType (e : MemEvent) : AccessType := if e.isDynamic then .write else e.memInfo.opType

def effMemType (e : MemEvent) : MemType :=
  if e.isDynamic then e.dynamicMemInfo.memType else e.memInfo.memType

/-! ## Scans -/

/-- `CheckExistRaceEvents`. Both index infos live as long as the loop, so that what a check
writes stays until a later one overwrites it. -/
def checkExistRaceEvents (history : List ℕ) (check : CheckTypeFunc) (cur : ℕ) :
    RaceMemEventsIdx :=
  (history.foldl (fun (s : ℕ × ℕ × RaceMemEventsIdx) h =>
    let v := check cur h
    let err1 := v.errorIdx1.getD s.1
    let err2 := v.errorIdx2.getD s.2.1
    (err1, err2, if v.race then s.2.2 ++ [(⟨cur, err1⟩, ⟨h, err2⟩)] else s.2.2)) (0, 0, [])).2.2

/-- The open events of each memory type. -/
structure History where
  writes : MemType → List ℕ := fun _ => []
  reads : MemType → List ℕ := fun _ => []

/-- One end point of `ScanGeneric`, with the check that the mode selects. -/
def scanGenericStep (events : List MemEvent) (check : CheckTypeFunc)
    (s : History × RaceMemEventsIdx) (m : SortMetaData) : History × RaceMemEventsIdx :=
  let e := eventAt events m.eventIdx
  let t := effMemType e
  if m.isStart then
    let hits := checkExistRaceEvents (s.1.writes t) check m.eventIdx
    if effOpType e = .write then
      ({ s.1 with writes := Function.update s.1.writes t ((s.1.writes t).insert m.eventIdx) },
        s.2 ++ hits ++ checkExistRaceEvents (s.1.reads t) check m.eventIdx)
    else
      ({ s.1 with reads := Function.update s.1.reads t ((s.1.reads t).insert m.eventIdx) },
        s.2 ++ hits)
  else
    ({ writes := Function.update s.1.writes t ((s.1.writes t).erase m.eventIdx)
       reads := Function.update s.1.reads t ((s.1.reads t).erase m.eventIdx) }, s.2)

def scanGeneric (events : List MemEvent) (check : CheckTypeFunc) (data : List SortMetaData) :
    RaceMemEventsIdx :=
  (data.foldl (scanGenericStep events check) ({}, [])).2

/-- The order of `std::pair`. -/
def pairLt (a b : ℕ × ℕ) : Bool := decide (a.1 < b.1) || (a.1 == b.1 && decide (a.2 < b.2))

/-- `OrderedSet::insert`, on the elements in ascending order. -/
def setInsert (x : ℕ × ℕ) : List (ℕ × ℕ) → List (ℕ × ℕ)
  | [] => [x]
  | y :: l => if pairLt x y then x :: y :: l else if x = y then y :: l else y :: setInsert x l

/-- The elements from `lower_bound({lo, 0})` on whose serial number is at most `hi`. -/
def window (lo hi : ℕ) (l : List (ℕ × ℕ)) : List (ℕ × ℕ) :=
  (l.dropWhile fun x => pairLt x (lo, 0)).takeWhile fun x => decide (x.1 ≤ hi)

/-- The open events of each memory type and pipe, as pairs of serial number on the pipe and
event index. -/
structure PipeHistory where
  writes : MemType → PipeType → List (ℕ × ℕ) := fun _ _ => []
  reads : MemType → PipeType → List (ℕ × ℕ) := fun _ _ => []

/-- One of the two tables of `PipeHistory` with a changed set. -/
def putSet (f : MemType → PipeType → List (ℕ × ℕ)) (t : MemType) (p : PipeType)
    (l : List (ℕ × ℕ)) : MemType → PipeType → List (ℕ × ℕ) :=
  Function.update f t (Function.update (f t) p l)

/-- One end point of `ScanSinglePipeWindow`; the upper end of the window wraps at 64 bits. -/
def scanSinglePipeStep (events : List MemEvent) (check : CheckTypeFunc)
    (s : PipeHistory × RaceMemEventsIdx) (m : SortMetaData) : PipeHistory × RaceMemEventsIdx :=
  let e := eventAt events m.eventIdx
  let t := effMemType e
  let no := e.pipeSerialNo
  let ws := s.1.writes t e.pipe
  let rs := s.1.reads t e.pipe
  if m.isStart then
    let lo := if maxSerialNumberDiff < no then no - maxSerialNumberDiff else 0
    let hi := add64 no maxSerialNumberDiff
    if effOpType e = .write then
      ({ s.1 with writes := putSet s.1.writes t e.pipe (setInsert (no, m.eventIdx) ws) },
        s.2 ++ checkExistRaceEvents ((window lo hi ws ++ window lo hi rs).map Prod.snd) check
          m.eventIdx)
    else
      ({ s.1 with reads := putSet s.1.reads t e.pipe (setInsert (no, m.eventIdx) rs) },
        s.2 ++ checkExistRaceEvents ((window lo hi ws).map Prod.snd) check m.eventIdx)
  else
    ({ writes := putSet s.1.writes t e.pipe (ws.erase (no, m.eventIdx))
       reads := putSet s.1.reads t e.pipe (rs.erase (no, m.eventIdx)) }, s.2)

def scanSinglePipeWindow (events : List MemEvent) (check : CheckTypeFunc)
    (data : List SortMetaData) : RaceMemEventsIdx :=
  (data.foldl (scanSinglePipeStep events check) ({}, [])).2

def allPipes : List PipeType := [.s, .v, .m, .mte1, .mte2, .mte3, .all, .mte4, .mte5, .v2, .fix,
  .sCal]

/-- The state of `ScanSingleBlockFast`: the buckets of open writes and open reads, the place of
each event in its bucket, and the pairs. -/
structure Buckets where
  bucket : Bool → MemType → PipeType → List ℕ := fun _ _ _ => []
  posInBucket : ℕ → ℕ := fun _ => 0
  out : RaceMemEventsIdx := []

def Buckets.put (b : Buckets) (w : Bool) (t : MemType) (p : PipeType) (l : List ℕ) : Buckets :=
  { b with bucket := Function.update b.bucket w
             (Function.update (b.bucket w) t (Function.update (b.bucket w t) p l)) }

/-- The comparison that `ScanSingleBlockFast` makes with one history event. -/
def innerCoreHit (cfg : Platform) (events : List MemEvent) (cur h : ℕ) :
    Option (EventIdxInfo × EventIdxInfo) :=
  let ce := eventAt events cur
  let he := eventAt events h
  let pipeIdx := fun i => getPipeIdxByMemEvent cfg (eventAt events i)
  let ownTime := fun i => (eventAt events i).vt.get (pipeIdx i)
  if isInnerCoreRaceCandidate ce he (pipeIdx cur) (ownTime cur) (pipeIdx h) (ownTime h) then
    let v := isMemSpaceOverlap ce he
    if v.race then some (⟨cur, v.errorIdx1.getD 0⟩, ⟨h, v.errorIdx2.getD 0⟩) else none
  else none

/-- One end point of `ScanSingleBlockFast`; `none` for an access outside a bucket. -/
def scanSingleBlockStep (cfg : Platform) (events : List MemEvent) (b : Buckets)
    (m : SortMetaData) : Option Buckets :=
  let cur := m.eventIdx
  let e := eventAt events cur
  let t := effMemType e
  let curWrite := decide (effOpType e = .write)
  let own := b.bucket curWrite t e.pipe
  if m.isStart then
    let passes := if curWrite then [true, false] else [true]
    let hits := passes.flatMap fun w => allPipes.flatMap fun q =>
      if q = e.pipe then [] else (b.bucket w t q).filterMap (innerCoreHit cfg events cur)
    some { b.put curWrite t e.pipe (own ++ [cur]) with
      posInBucket := Function.update b.posInBucket cur (own.length % 2 ^ 32)
      out := b.out ++ hits }
  else
    match own.getLast? with
    | none => none
    | some moved =>
      let pos := b.posInBucket cur
      if pos < own.length then
        some { b.put curWrite t e.pipe (own.set pos moved).dropLast with
          posInBucket := Function.update b.posInBucket moved pos }
      else none

def scanSingleBlockFast (cfg : Platform) (events : List MemEvent) (data : List SortMetaData) :
    Option RaceMemEventsIdx :=
  (data.foldlM (scanSingleBlockStep cfg events) {}).map Buckets.out

end MsSanitizer.MemEventChecker
