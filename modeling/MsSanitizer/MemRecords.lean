import MsSanitizer.EventDef
import MsSanitizer.Words

/-!
# Memory records from events

The address sanitizer works on records of contiguous ranges. A memory event describes a row of
blocks and how often the row is repeated; it is turned into one or more records, with shortcuts
where neighbouring blocks or rows touch. Records of the same kind that follow each other
without a gap are then merged, either in the finished vector by `MergeRecords` or one by one as
they are made by `MemRecordSink`.

The conversion only ever appends to its target, so it is the list of the records it appends.
-/

namespace MsSanitizer.MemRecords

open RecordDefs EventDef Words

def sub32 (a b : ℕ) : ℕ := (a + (2 ^ 32 - b)) % 2 ^ 32

def accessTypeToMemOpType : AccessType → MemOpType
  | .read => .load
  | .write => .store
  | .memcpyBlocks => .memcpyBlocks

def memTypeToAddrSpace : MemType → AddressSpace
  | .l1 => .l1
  | .l0a => .l0a
  | .l0b => .l0b
  | .l0c => .l0c
  | .ub => .ub
  | .bt => .bt
  | .gm => .gm
  | .priv => .priv
  | .fb => .fb
  | .unknown => .unknown

/-- `SetBasicMemInfo`; core and line numbers are narrowed to `int32_t`. -/
def setBasicMemInfo (event : SanEvent) (info : MemOpInfo) : MemOpRecord where
  serialNo := event.serialNo
  type := accessTypeToMemOpType info.opType
  coreId := Int.bmod event.loc.coreId (2 ^ 32)
  moduleId := -1
  srcSpace := memTypeToAddrSpace info.memType
  dstSpace := memTypeToAddrSpace info.memType
  lineNo := Int.bmod event.loc.lineNo (2 ^ 32)
  blockType := event.loc.blockType
  pc := event.loc.pc
  side := .kernel
  recordType := event.recordType

/-- `ProcessAndStoreMemOp` with the range that its caller has put into the record. -/
def processAndStoreMemOp (record : MemOpRecord) (dstAddr memSize : ℕ) : MemOpRecord :=
  { record with
    dstAddr := dstAddr
    memSize := memSize
    srcAddr := if record.type = .memcpyBlocks then dstAddr else record.srcAddr }

/-- The bound above which `repeatTimes` is cut. -/
def maxRepeatTimes : ℕ := 0x7FFF

/-- `ConvertSingleRecordRepeats`: one record for each repeat, or one for all of them. -/
def convertSingleRecordRepeats (info : MemOpInfo) (record : MemOpRecord) : List MemOpRecord :=
  let memSize :=
    if info.blockStride = 1 then info.blockSize * info.blockNum % 2 ^ 32 else info.blockSize
  let repeatStrideSize := info.repeatStride * info.blockSize % 2 ^ 32
  if info.repeatStride = 0 then [processAndStoreMemOp record info.addr memSize]
  else if repeatStrideSize ≤ memSize then
    [processAndStoreMemOp record info.addr
      (add64 (mul64 repeatStrideSize (sub32 info.repeatTimes 1)) memSize)]
  else
    (List.range (min info.repeatTimes maxRepeatTimes)).map fun repeatIdx =>
      processAndStoreMemOp record (add64 info.addr (repeatIdx * repeatStrideSize)) memSize

/-- `ConvertMutiRecordRepeats`: a repeat is several records with gaps between them. -/
def convertMutiRecordRepeats (info : MemOpInfo) (record : MemOpRecord) : List MemOpRecord :=
  if info.repeatStride = 0 then
    (List.range info.blockNum).map fun _ => processAndStoreMemOp record info.addr info.blockSize
  else if info.repeatStride = 1 ∧ info.blockStride ≤ info.repeatTimes then
    [processAndStoreMemOp record info.addr
      ((sub32 info.blockNum 1 + info.repeatTimes) % 2 ^ 32 * info.blockSize % 2 ^ 32)]
  else if info.repeatStride = 1 ∧ info.repeatTimes < info.blockStride then
    (List.range info.blockNum).map fun blockIdx =>
      processAndStoreMemOp record
        (add64 info.addr (blockIdx * info.blockSize * info.blockStride))
        (info.repeatTimes * info.blockSize % 2 ^ 32)
  else if info.repeatStride = info.blockStride then
    (List.range (max info.blockNum info.repeatTimes)).map fun blockIdx =>
      processAndStoreMemOp record
        (add64 info.addr (blockIdx * info.blockSize * info.blockStride)) info.blockSize
  else
    (List.range (min info.repeatTimes maxRepeatTimes)).flatMap fun repeatIdx =>
      let repeatAddr := add64 info.addr (repeatIdx * info.blockSize * info.repeatStride)
      (List.range info.blockNum).map fun blockIdx =>
        processAndStoreMemOp record
          (add64 repeatAddr (blockIdx * info.blockStride * info.blockSize)) info.blockSize

def convertMemEventRecords (event : SanEvent) (info : MemOpInfo) : List MemOpRecord :=
  if info.repeatTimes = 0 then []
  else
    let record := setBasicMemInfo event info
    if info.blockStride ≤ 1 then convertSingleRecordRepeats info record
    else convertMutiRecordRepeats info record

def simtEntryToSingle (event : SanEvent) (info : DynamicOpInfo) : List MemOpRecord :=
  ((info.buffer.getD []).take info.count).map fun smRecord =>
    { ignoreIllegalCheck := true
      isSimt := true
      serialNo := event.serialNo
      coreId := Int.bmod event.loc.coreId (2 ^ 32)
      blockType := event.loc.blockType
      moduleId := -1
      side := .kernel
      dstSpace := if info.memType = .gm then .gm else .ub
      lineNo := Int.bmod smRecord.lineNo (2 ^ 32)
      pc := smRecord.pc
      dstAddr := smRecord.addr
      memSize := smRecord.size
      mainScalarPc := smRecord.mainScalarPc
      type := accessTypeToMemOpType smRecord.accessType }

def convertEventRecords (event : SanEvent) : List MemOpRecord :=
  match event.info with
  | .mem info => convertMemEventRecords event info
  | .dynamicMem info => if info.dynamicType = simtEntry then simtEntryToSingle event info else []
  | _ => []

/-! ## Merging -/

def isContinuousAddr (lhs rhs : MemOpRecord) : Bool :=
  add64 lhs.dstAddr lhs.memSize == rhs.dstAddr &&
    (lhs.type != .memcpyBlocks || add64 lhs.srcAddr lhs.memSize == rhs.srcAddr)

def isSameOp (lhs rhs : MemOpRecord) : Bool :=
  lhs.type == rhs.type && lhs.dstSpace == rhs.dstSpace &&
    (lhs.type != .memcpyBlocks || lhs.srcSpace == rhs.srcSpace)

def MemOpRecord.grow (lhs rhs : MemOpRecord) : MemOpRecord :=
  { lhs with memSize := add64 lhs.memSize rhs.memSize }

def emplaceBack (records : List MemOpRecord) (record : MemOpRecord) : List MemOpRecord :=
  match records.getLast? with
  | some last =>
    if isSameOp last record && isContinuousAddr last record then
      records.dropLast ++ [MemOpRecord.grow last record]
    else records ++ [record]
  | none => [record]

/-- The records of a sink that is fed with a list. -/
def sink (records l : List MemOpRecord) : List MemOpRecord := l.foldl emplaceBack records

/-- One pass of the loop of `MergeRecords`, on the vector and the index `last`. -/
def mergeStep (s : List MemOpRecord × ℕ) (i : ℕ) : List MemOpRecord × ℕ :=
  let last := s.1.getD s.2 {}
  let record := s.1.getD i {}
  if isSameOp last record && isContinuousAddr last record then
    (s.1.set s.2 (MemOpRecord.grow last record), s.2)
  else (s.1.set (s.2 + 1) record, s.2 + 1)

def mergeRecords (records : List MemOpRecord) : List MemOpRecord :=
  if records.isEmpty then records
  else
    let s := (List.range' 1 (records.length - 1)).foldl mergeStep (records, 0)
    s.1.take (s.2 + 1)

def convertEventsToRecords (initCheck : Bool) (events : List SanEvent)
    (records : List MemOpRecord) : List MemOpRecord :=
  if initCheck then sink (mergeRecords records) (events.flatMap convertEventRecords)
  else mergeRecords (records ++ events.flatMap convertEventRecords)

end MsSanitizer.MemRecords
