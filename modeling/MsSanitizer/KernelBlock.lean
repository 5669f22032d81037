import MsSanitizer.ByteWords
import MsSanitizer.RecordDefs
import MsSanitizer.RecordTypes

/-!
# The records of a block, from the recorder to the host

`DumpSimdRecord` appends a record to the buffer of the block as long as there is room and no record
has been turned away before. The records begin behind the head of the block; behind them come the
areas of the SIMT threads or the next block, where others write. The host gets the head of the block
and the bytes written, and takes the records apart again with `NextSimd`. Counters and offsets are
numbers here: no kernel dumps 2 ^ 64 records.
-/

namespace MsSanitizer.KernelRecords

open ByteWords RecordDefs

/-! ### The recorder -/

/-- `RecordBlockHead`, as far as it is about the SIMD records. -/
structure RecordBlockHead where
  recordCount : ℕ := 0
  recordWriteCount : ℕ := 0
  offset : ℕ := 0
  writeOffset : ℕ := 0
  deriving DecidableEq, Repr

/-- What `DumpSimdRecord` reads of `RecordGlobalHead`. -/
structure RecordGlobalHead where
  supportSimt : Bool
  /-- Like all offsets of `ProtocolOffsetInfo` it counts from the head of the block. -/
  simtErrorInfoOffset : ℕ
  cacheSize : ℕ

def cacheLineSize : ℕ := 64

def mbToBytes : ℕ := 1024 * 1024

def RecordGlobalHead.simdEndOffset (g : RecordGlobalHead) : ℕ :=
  if g.supportSimt then g.simtErrorInfoOffset else g.cacheSize * mbToBytes

/-- `sizeof(HostMemoryInfo)`. -/
def hostMemoryInfoSize : ℕ := 24

/-- `sizeof(PeerMemoryInfo)`. -/
def peerMemoryInfoSize : ℕ := 24

def getRecordHeadSize (recordBlockHeadSize hostMemoryNum peerMemoryNum : ℕ) : ℕ :=
  let size := recordBlockHeadSize + hostMemoryNum * hostMemoryInfoSize +
    peerMemoryNum * peerMemoryInfoSize
  (size + cacheLineSize - 1) / cacheLineSize * cacheLineSize

/-- The area of a block: the heads that the recorder reads, and what `CalcMemInfoOffset` counts for
the block behind its head, which is `cacheSize` or, for a block that is not checked,
`SINGLE_CHECK_OTHER_BLOCK_CACHE_SIZE`. -/
structure BlockArea where
  global : RecordGlobalHead
  /-- `sizeof(RecordBlockHead)`. -/
  recordBlockHeadSize : ℕ
  hostMemoryNum : ℕ
  peerMemoryNum : ℕ
  ownCacheSize : ℕ
  own_le : ownCacheSize ≤ global.cacheSize

def BlockArea.headSize (a : BlockArea) : ℕ :=
  getRecordHeadSize a.recordBlockHeadSize a.hostMemoryNum a.peerMemoryNum

/-- Where others write, from the head of the block on. -/
def BlockArea.simdEnd (a : BlockArea) : ℕ :=
  let blockEnd := a.headSize + a.ownCacheSize * mbToBytes
  if a.global.supportSimt then min a.global.simtErrorInfoOffset blockEnd else blockEnd

def BlockArea.room (a : BlockArea) : ℕ := a.simdEnd - a.headSize

/-- A record of one of the types, with the bytes of the structure behind it. -/
structure SimdRecord (abi : Abi) where
  type : RecordType
  payload : List UInt8
  length_payload : payload.length = abi.sizeof (recordTypeMap type)

/-- `sizeof(RecordType)`. -/
def typeSize : ℕ := 4

section
variable {abi : Abi}

def SimdRecord.bytes (r : SimdRecord abi) : List UInt8 := bytesOf typeSize r.type.code ++ r.payload

def SimdRecord.stepSizes (r : SimdRecord abi) : ℕ := typeSize + abi.sizeof (recordTypeMap r.type)

def writeAt (mem : ℕ → UInt8) (offset : ℕ) (bs : List UInt8) : ℕ → UInt8 := fun i =>
  if offset ≤ i then (bs[i - offset]?).getD (mem i) else mem i

/-- The head of the block, and the memory from its first byte on. -/
structure Recorder where
  head : RecordBlockHead := {}
  mem : ℕ → UInt8

/-- Whether `DumpSimdRecord` writes the record. -/
def Recorder.Writes (a : BlockArea) (s : Recorder) (r : SimdRecord abi) : Prop :=
  s.head.writeOffset + cacheLineSize + r.stepSizes < a.global.simdEndOffset ∧
    s.head.recordCount = s.head.recordWriteCount

instance (a : BlockArea) (s : Recorder) (r : SimdRecord abi) : Decidable (s.Writes a r) :=
  inferInstanceAs (Decidable (_ ∧ _))

def Recorder.dumpSimdRecord (a : BlockArea) (s : Recorder) (r : SimdRecord abi) : Recorder :=
  let h := s.head
  if s.Writes a r then
    { head :=
        { recordCount := h.recordCount + 1
          recordWriteCount := h.recordWriteCount + 1
          offset := h.offset + r.stepSizes
          writeOffset := h.writeOffset + r.stepSizes }
      mem := writeAt s.mem (a.headSize + h.writeOffset) r.bytes }
  else
    { s with
      head := { h with recordCount := h.recordCount + 1, offset := h.offset + r.stepSizes } }

/-- What happens to the memory of a block. -/
inductive Step (abi : Abi)
  | dump (r : SimdRecord abi)
  /-- A SIMT thread or another block writes. -/
  | other (offset : ℕ) (bs : List UInt8)

def Step.record : Step abi → Option (SimdRecord abi)
  | .dump r => some r
  | .other .. => none

def Recorder.step (a : BlockArea) (s : Recorder) : Step abi → Recorder
  | .dump r => s.dumpSimdRecord a r
  | .other offset bs => { s with mem := writeAt s.mem offset bs }

def Recorder.run (a : BlockArea) (s : Recorder) (steps : List (Step abi)) : Recorder :=
  steps.foldl (Recorder.step a) s

def dumped (steps : List (Step abi)) : List (SimdRecord abi) := steps.filterMap Step.record

def OthersBehind (a : BlockArea) (steps : List (Step abi)) : Prop :=
  ∀ offset bs, Step.other offset bs ∈ steps → a.simdEnd ≤ offset

/-- The records that fit before the first that does not; `used` bytes are taken already, and a
cache line stays free. -/
def fitted (room : ℕ) : ℕ → List (SimdRecord abi) → List (SimdRecord abi)
  | _, [] => []
  | used, r :: rs =>
    if used + cacheLineSize + r.stepSizes < room then r :: fitted room (used + r.stepSizes) rs
    else []

/-- The first record that does not fit is turned away: the recorder compares the bytes behind the
head with an offset that counts from the head, and with the size of a block that is checked. -/
def TurnsAway (a : BlockArea) : ℕ → List (SimdRecord abi) → Prop
  | _, [] => True
  | used, r :: rs =>
    if used + cacheLineSize + r.stepSizes < a.room then TurnsAway a (used + r.stepSizes) rs
    else a.global.simdEndOffset ≤ used + cacheLineSize + r.stepSizes

instance decidableTurnsAway (a : BlockArea) :
    (used : ℕ) → (rs : List (SimdRecord abi)) → Decidable (TurnsAway a used rs)
  | _, [] => isTrue trivial
  | used, r :: rs =>
    have := decidableTurnsAway a (used + r.stepSizes) rs
    inferInstanceAs (Decidable (if used + cacheLineSize + r.stepSizes < a.room then
      TurnsAway a (used + r.stepSizes) rs
      else a.global.simdEndOffset ≤ used + cacheLineSize + r.stepSizes))

end

/-! ### The host -/

/-- What the host knows besides the block: the static members of `KernelBlock` and the runtime. -/
structure HostContext where
  pcStartAddr : ℕ
  blockType : BlockType
  vecSubBlockDim : UInt8

/-- A `KernelRecord`; the payload is kept as the bytes of the structure it was parsed with. -/
structure KernelRecord where
  recordType : ℕ
  blockType : BlockType
  serialNo : ℕ
  payload : List UInt8
  deriving DecidableEq, Repr

/-- The state of `KernelBlock`; the last record type and the serial number outlive a block. -/
structure KernelBlock where
  head : RecordBlockHead
  mem : ℕ → UInt8
  simdOffset : ℕ := 0
  recordIdx : ℕ := 0
  lastRecordType : ℕ
  serialNo : ℕ

def readBytes (mem : ℕ → UInt8) (offset n : ℕ) : List UInt8 :=
  (List.range n).map fun i => mem (offset + i)

def patch (payload : List UInt8) (offset : ℕ) (bs : List UInt8) : List UInt8 :=
  payload.take offset ++ bs ++ payload.drop (offset + bs.length)

/-- Where `pc` is in `Location`. -/
def pcInLocation : ℕ := 16

/-- `CalRecordPc`, on the bytes of a structure with its `location` at an offset. -/
def patchPc (pcStartAddr : ℕ) (payload : List UInt8) (locationAt : ℕ) : List UInt8 :=
  let pc := val ((payload.drop (locationAt + pcInLocation)).take 8)
  patch payload (locationAt + pcInLocation) (bytesOf 8 (calRecordPc pcStartAddr pc))

/-- What a parser returns: the payload, the size of the record and the bytes it has read. -/
structure Parsed where
  payload : List UInt8
  recordSize : ℕ
  readSize : ℕ

def parseRecordByType (abi : Abi) (ctx : HostContext) (mem : ℕ → UInt8) (offset : ℕ)
    (s : RecordStruct) : Parsed :=
  { payload := patchPc ctx.pcStartAddr (readBytes mem offset (abi.sizeof s)) (abi.locationAt s)
    recordSize := abi.sizeof s
    readSize := abi.sizeof s }

def onlineError : ℕ := 60000

/-- `sizeof(KernelErrorRecord)`. -/
def kernelErrorRecordSize : ℕ := 32

/-- `ParseMemErrorType`; of the record `errorNum`, `recordType` and `recordSize` are kept, the
pointers behind them are set by the host. -/
def parseMemErrorType (abi : Abi) (mem : ℕ → UInt8) (offset : ℕ) : Parsed :=
  let errorNum := val (readBytes mem offset 4)
  let recordSize := val (readBytes mem (offset + 8) 2)
  { payload := readBytes mem offset 10
    recordSize := kernelErrorRecordSize + recordSize + errorNum * abi.kernelErrorDescSize
    readSize := kernelErrorRecordSize }

/-- `ParseRecord`: the function of the table for a type, if there is one. -/
def parseRecord (abi : Abi) (ctx : HostContext) (mem : ℕ → UInt8) (offset code : ℕ) :
    Option Parsed :=
  if code = onlineError then some (parseMemErrorType abi mem offset)
  else (RecordType.ofCode code).map fun t =>
    parseRecordByType abi ctx mem offset (recordTypeFuncMap t)

/-- Whether a record gets a serial number of its own, or happens together with the last one. -/
def newSerialNo (last code : ℕ) : Bool :=
  if code = RecordType.element.code then
    last ≠ RecordType.vgather.code && last ≠ RecordType.element.code
  else if code = RecordType.vselOp.code then last ≠ RecordType.cmpmaskOp.code
  else if code = RecordType.unaryOp.code ∨ code = RecordType.binaryOp.code ∨
      code = RecordType.dmaMov.code ∨ code = RecordType.movAlign.code then
    last ≠ RecordType.mstxStub.code
  else true

/-- The types whose `vecSubBlockDim` the host fills in, with the structure it fills it into. -/
def vecSubBlockDimOf (code : ℕ) : Option RecordStruct :=
  if code = RecordType.fftsSync.code ∨ code = RecordType.fftsSyncV.code then some .fftsSyncRecord
  else if code = RecordType.setIntraBlock.code ∨ code = RecordType.setIntraBlocki.code ∨
      code = RecordType.setIntraBlockV.code ∨ code = RecordType.setIntraBlockiV.code then
    some .intraBlockSyncRecord
  else none

/-- The last lines of `ParseSimdRecord`. -/
def fillVecSubBlockDim (abi : Abi) (ctx : HostContext) (code : ℕ) (payload : List UInt8) :
    List UInt8 :=
  match vecSubBlockDimOf code with
  | some s => patch payload (abi.vecSubBlockDimAt s) [ctx.vecSubBlockDim]
  | none => payload

def blockFinish : ℕ := 100000

/-- `ParseSimdRecord` at the current offset: the end of the bytes it has read and, if the type is
in the table, the record and the block after it. -/
def KernelBlock.parseSimdRecord (abi : Abi) (ctx : HostContext) (k : KernelBlock) :
    ℕ × Option (KernelRecord × KernelBlock) :=
  let code := val (readBytes k.mem k.simdOffset typeSize)
  let serialNo := if newSerialNo k.lastRecordType code then k.serialNo + 1 else k.serialNo
  match parseRecord abi ctx k.mem (k.simdOffset + typeSize) code with
  | none => (k.simdOffset + typeSize, none)
  | some p =>
    (k.simdOffset + typeSize + p.readSize,
      some ({ recordType := code
              blockType := ctx.blockType
              serialNo := serialNo
              payload := fillVecSubBlockDim abi ctx code p.payload },
            { k with
              simdOffset := k.simdOffset + typeSize + p.recordSize
              recordIdx := k.recordIdx + 1
              lastRecordType := code
              serialNo := serialNo }))

/-- Whether `NextSimd` finds no record left. -/
def KernelBlock.AtEnd (k : KernelBlock) : Prop :=
  k.head.recordWriteCount = 0 ∨ k.head.writeOffset ≤ k.simdOffset

instance (k : KernelBlock) : Decidable k.AtEnd := inferInstanceAs (Decidable (_ ∨ _))

def KernelBlock.nextSimd (abi : Abi) (ctx : HostContext) (k : KernelBlock) :
    Option (KernelRecord × KernelBlock) :=
  if k.AtEnd then none else (k.parseSimdRecord abi ctx).2

lemma parseSimdRecord_advances {abi : Abi} {ctx : HostContext} {k k' : KernelBlock}
    {r : KernelRecord} (h : (k.parseSimdRecord abi ctx).2 = some (r, k')) :
    k'.head = k.head ∧ k.simdOffset < k'.simdOffset := by
  unfold KernelBlock.parseSimdRecord at h
  dsimp only at h
  split at h
  · cases h
  · cases h
    exact ⟨rfl, by dsimp only; unfold typeSize; omega⟩

lemma nextSimd_advances {abi : Abi} {ctx : HostContext} {k k' : KernelBlock} {r : KernelRecord}
    (h : k.nextSimd abi ctx = some (r, k')) :
    k'.head.writeOffset - k'.simdOffset < k.head.writeOffset - k.simdOffset := by
  unfold KernelBlock.nextSimd at h
  by_cases hend : k.AtEnd
  · rw [if_pos hend] at h
    cases h
  · rw [if_neg hend] at h
    obtain ⟨h1, h2⟩ := parseSimdRecord_advances h
    rw [h1]
    unfold KernelBlock.AtEnd at hend
    omega

/-- The records `NextSimd` returns until it returns none, each with the end of the bytes read for
it; last comes the end of the bytes read for a record that is not returned. -/
def KernelBlock.records (abi : Abi) (ctx : HostContext) (k : KernelBlock) :
    List (KernelRecord × ℕ) × Option ℕ :=
  match _h : k.nextSimd abi ctx with
  | none => ([], if k.AtEnd then none else some (k.parseSimdRecord abi ctx).1)
  | some (r, k') =>
    let rest := k'.records abi ctx
    ((r, (k.parseSimdRecord abi ctx).1) :: rest.1, rest.2)
termination_by k.head.writeOffset - k.simdOffset
decreasing_by exact nextSimd_advances _h

def recordHeadSecurityValue : ℕ := 0x5a5a5a5a5a5a5a5a

/-- What the host is given for a block: the heads and the bytes behind them. -/
structure MemInfo where
  securityVal : ℕ
  head : RecordBlockHead
  mem : ℕ → UInt8

/-- `CreateKernelBlock`, with the static members as they are at that moment. -/
def createKernelBlock (abi : Abi) (memInfo : MemInfo)
    (memSize blockIdx lastRecordType serialNo : ℕ) : Option KernelBlock :=
  if memSize < abi.headSize then none
  else if blockIdx = 0 ∧ memInfo.securityVal ≠ recordHeadSecurityValue then none
  else if memSize < memInfo.head.writeOffset then none
  else if memSize < abi.headSize + memInfo.head.writeOffset then none
  else
    some { head := memInfo.head
           mem := memInfo.mem
           lastRecordType := lastRecordType
           serialNo := serialNo }

/-! ### Bytes in memory -/

lemma length_readBytes (mem : ℕ → UInt8) (offset n : ℕ) : (readBytes mem offset n).length = n := by
  simp [readBytes]

lemma readBytes_add (mem : ℕ → UInt8) (offset m n : ℕ) :
    readBytes mem offset (m + n) = readBytes mem offset m ++ readBytes mem (offset + m) n := by
  unfold readBytes
  rw [List.range_add, List.map_append, List.map_map]
  congr 1
  refine List.map_congr_left fun i _ => ?_
  simp only [Function.comp_apply, Nat.add_assoc]

lemma readBytes_congr {mem mem' : ℕ → UInt8} {offset offset' n : ℕ}
    (h : ∀ i < n, mem (offset + i) = mem' (offset' + i)) :
    readBytes mem offset n = readBytes mem' offset' n :=
  List.map_congr_left fun i hi => h i (List.mem_range.1 hi)

lemma readBytes_writeAt (mem : ℕ → UInt8) (offset : ℕ) (bs : List UInt8) :
    readBytes (writeAt mem offset bs) offset bs.length = bs := by
  refine List.ext_getElem (length_readBytes _ _ _) fun i h1 h2 => ?_
  simp [readBytes, writeAt, h2]

/-- What does not lie in the bytes of a write is left alone. -/
lemma writeAt_outside (mem : ℕ → UInt8) {offset i : ℕ} {bs : List UInt8}
    (h : i < offset ∨ offset + bs.length ≤ i) : writeAt mem offset bs i = mem i := by
  unfold writeAt
  split_ifs with hle
  · rw [List.getElem?_eq_none (by omega), Option.getD_none]
  · rfl

lemma readBytes_writeAt_before (mem : ℕ → UInt8) {start offset n : ℕ} (bs : List UInt8)
    (h : n = 0 ∨ start + n ≤ offset) :
    readBytes (writeAt mem offset bs) start n = readBytes mem start n :=
  readBytes_congr fun i hi => writeAt_outside mem (.inl (by omega))

/-! ### The recorder writes what fits -/

section
variable {abi : Abi}

lemma length_bytes (r : SimdRecord abi) : r.bytes.length = r.stepSizes := by
  unfold SimdRecord.bytes SimdRecord.stepSizes
  rw [List.length_append, length_bytesOf, r.length_payload]

def encode (rs : List (SimdRecord abi)) : List UInt8 := rs.flatMap SimdRecord.bytes

lemma encode_append (rs rs' : List (SimdRecord abi)) :
    encode (rs ++ rs') = encode rs ++ encode rs' := List.flatMap_append

lemma length_encode_concat (rs : List (SimdRecord abi)) (r : SimdRecord abi) :
    (encode (rs ++ [r])).length = (encode rs).length + r.stepSizes := by
  rw [encode_append, List.length_append]
  simp [encode, length_bytes]

/-- What the others leave of the memory if no record is dumped. -/
def others (mem : ℕ → UInt8) (steps : List (Step abi)) : ℕ → UInt8 :=
  steps.foldl (fun mem st =>
    match st with
    | .dump _ => mem
    | .other offset bs => writeAt mem offset bs) mem

/-- The area holds the given records and nothing else, and behind it stands what others wrote. -/
structure Written (a : BlockArea) (s : Recorder) (rs : List (SimdRecord abi)) (far : ℕ → UInt8) :
    Prop where
  offset : s.head.writeOffset = (encode rs).length
  count : s.head.recordWriteCount = rs.length
  bytes : readBytes s.mem a.headSize (encode rs).length = encode rs
  inside : (encode rs).length = 0 ∨ a.headSize + (encode rs).length ≤ a.simdEnd
  behind : ∀ i, a.simdEnd ≤ i → s.mem i = far i

lemma room_le (a : BlockArea) : a.room ≤ a.global.simdEndOffset := by
  have := Nat.mul_le_mul_right mbToBytes a.own_le
  unfold BlockArea.room BlockArea.simdEnd RecordGlobalHead.simdEndOffset
  dsimp only
  split_ifs <;> omega

section
variable {a : BlockArea} {s : Recorder} {r : SimdRecord abi} {rs : List (SimdRecord abi)}
  {far : ℕ → UInt8}

lemma dumpSimdRecord_writes (h : s.Writes a r) :
    s.dumpSimdRecord a r =
      { head :=
          { recordCount := s.head.recordCount + 1
            recordWriteCount := s.head.recordWriteCount + 1
            offset := s.head.offset + r.stepSizes
            writeOffset := s.head.writeOffset + r.stepSizes }
        mem := writeAt s.mem (a.headSize + s.head.writeOffset) r.bytes } := if_pos h

lemma dumpSimdRecord_turns_away (h : ¬ s.Writes a r) :
    s.dumpSimdRecord a r =
      { s with
        head :=
          { s.head with
            recordCount := s.head.recordCount + 1
            offset := s.head.offset + r.stepSizes } } := if_neg h

lemma Written.concat (hw : Written a s rs far) (h : s.Writes a r)
    (hfit : s.head.writeOffset + cacheLineSize + r.stepSizes < a.room) :
    Written a (s.dumpSimdRecord a r) (rs ++ [r]) far := by
  have hend : a.headSize + s.head.writeOffset + r.stepSizes ≤ a.simdEnd := by
    unfold BlockArea.room at hfit
    omega
  rw [dumpSimdRecord_writes h]
  refine ⟨?_, ?_, ?_, ?_, fun i hi => ?_⟩
  · rw [hw.offset, length_encode_concat]
  · rw [hw.count, List.length_append, List.length_singleton]
  · rw [length_encode_concat, readBytes_add, hw.offset,
      readBytes_writeAt_before _ _ (.inr le_rfl), hw.bytes, ← length_bytes, readBytes_writeAt,
      encode_append]
    simp [encode]
  · rw [length_encode_concat, ← hw.offset, ← Nat.add_assoc]
    exact .inr hend
  · rw [← hw.behind i hi]
    exact writeAt_outside _ (.inr (by rw [length_bytes]; omega))

lemma Written.turned_away (hw : Written a s rs far) (h : ¬ s.Writes a r) :
    Written a (s.dumpSimdRecord a r) rs far := by
  rw [dumpSimdRecord_turns_away h]
  exact ⟨hw.offset, hw.count, hw.bytes, hw.inside, hw.behind⟩

lemma Written.other (hw : Written a s rs far) {offset : ℕ} (h : a.simdEnd ≤ offset)
    (bs : List UInt8) :
    Written a { s with mem := writeAt s.mem offset bs } rs (writeAt far offset bs) where
  offset := hw.offset
  count := hw.count
  bytes := by
    have hin := hw.inside
    rw [← hw.bytes, hw.bytes, readBytes_writeAt_before _ _ (by omega), hw.bytes]
  inside := hw.inside
  behind i hi := by
    show writeAt s.mem offset bs i = writeAt far offset bs i
    unfold writeAt
    rw [hw.behind i hi]

end

lemma OthersBehind.tail {a : BlockArea} {st : Step abi} {steps : List (Step abi)}
    (h : OthersBehind a (st :: steps)) : OthersBehind a steps :=
  fun offset bs hmem => h offset bs (List.mem_cons_of_mem _ hmem)

/-- After the first record that was turned away no other is written. -/
lemma Written.run_closed {a : BlockArea} {s : Recorder} {done : List (SimdRecord abi)}
    {far : ℕ → UInt8} (hw : Written a s done far)
    (hclosed : s.head.recordWriteCount < s.head.recordCount) {steps : List (Step abi)}
    (hothers : OthersBehind a steps) : Written a (s.run a steps) done (others far steps) := by
  induction steps generalizing s far with
  | nil => exact hw
  | cons st steps ih =>
    cases st with
    | dump r =>
      have hno : ¬ s.Writes a r := fun h => by
        have := h.2
        omega
      refine ih (hw.turned_away hno) ?_ hothers.tail
      rw [show s.step a (.dump r) = _ from dumpSimdRecord_turns_away hno]
      exact Nat.lt_succ_of_lt hclosed
    | other offset bs =>
      exact ih (hw.other (hothers offset bs (List.mem_cons_self ..)) bs) hclosed hothers.tail

/-- **The recorder writes what fits**, up to the first record that does not. -/
lemma Written.run {a : BlockArea} {s : Recorder} {done : List (SimdRecord abi)}
    {far : ℕ → UInt8} (hw : Written a s done far)
    (hopen : s.head.recordCount = s.head.recordWriteCount) {steps : List (Step abi)}
    (hothers : OthersBehind a steps) (haway : TurnsAway a s.head.writeOffset (dumped steps)) :
    Written a (s.run a steps) (done ++ fitted a.room s.head.writeOffset (dumped steps))
      (others far steps) := by
  induction steps generalizing s done far with
  | nil =>
    simpa [dumped, fitted, Recorder.run, others] using hw
  | cons st steps ih =>
    cases st with
    | dump r =>
      have hcons : dumped (.dump r :: steps) = r :: dumped steps := rfl
      rw [hcons] at haway ⊢
      by_cases hfit : s.head.writeOffset + cacheLineSize + r.stepSizes < a.room
      · have hwr : s.Writes a r := ⟨hfit.trans_le (room_le a), hopen⟩
        rw [TurnsAway, if_pos hfit] at haway
        have hnext := ih (hw.concat hwr hfit) (by rw [dumpSimdRecord_writes hwr, hopen])
          hothers.tail (by rw [dumpSimdRecord_writes hwr]; exact haway)
        rw [fitted, if_pos hfit, List.append_cons]
        have hoff : (s.dumpSimdRecord a r).head.writeOffset =
            s.head.writeOffset + r.stepSizes := by
          rw [dumpSimdRecord_writes hwr]
        rw [hoff] at hnext
        exact hnext
      · rw [TurnsAway, if_neg hfit] at haway
        have hno : ¬ s.Writes a r := fun h => absurd h.1 (not_lt.2 haway)
        rw [fitted, if_neg hfit, List.append_nil]
        refine (hw.turned_away hno).run_closed ?_ hothers.tail
        rw [dumpSimdRecord_turns_away hno]
        dsimp only
        omega
    | other offset bs =>
      exact ih (hw.other (hothers offset bs (List.mem_cons_self ..)) bs) hopen hothers.tail haway

/-! ### The host reads what was written -/

/-- What the host makes of a record: the program counter is counted from the start of the kernel,
and `vecSubBlockDim` is filled in. -/
def SimdRecord.hostPayload (ctx : HostContext) (r : SimdRecord abi) : List UInt8 :=
  fillVecSubBlockDim abi ctx r.type.code
    (patchPc ctx.pcStartAddr r.payload (abi.locationAt (recordTypeFuncMap r.type)))

lemma code_ne_onlineError (t : RecordType) : t.code ≠ onlineError := by
  cases t <;> decide

lemma parseRecord_code (ctx : HostContext) (mem : ℕ → UInt8) (offset : ℕ) (t : RecordType) :
    parseRecord abi ctx mem offset t.code =
      some (parseRecordByType abi ctx mem offset (recordTypeFuncMap t)) := by
  unfold parseRecord
  rw [if_neg (code_ne_onlineError t), ofCode_code]
  rfl

def KernelBlock.after (k : KernelBlock) (r : SimdRecord abi) : KernelBlock :=
  { k with
    simdOffset := k.simdOffset + r.stepSizes
    recordIdx := k.recordIdx + 1
    lastRecordType := r.type.code
    serialNo := if newSerialNo k.lastRecordType r.type.code then k.serialNo + 1 else k.serialNo }

/-- A record is read back from its bytes, and nothing behind them is read. -/
lemma parseSimdRecord_of_bytes (ctx : HostContext) {k : KernelBlock} {r : SimdRecord abi}
    (h : readBytes k.mem k.simdOffset r.stepSizes = r.bytes) :
    k.parseSimdRecord abi ctx =
      (k.simdOffset + r.stepSizes,
        some ({ recordType := r.type.code
                blockType := ctx.blockType
                serialNo := (k.after r).serialNo
                payload := r.hostPayload ctx }, k.after r)) := by
  unfold SimdRecord.stepSizes SimdRecord.bytes at h
  rw [readBytes_add] at h
  obtain ⟨htype, hpayload⟩ := List.append_inj h (by rw [length_readBytes, length_bytesOf])
  have hcode : val (readBytes k.mem k.simdOffset typeSize) = r.type.code := by
    rw [htype]
    exact val_bytesOf (code_lt r.type)
  unfold KernelBlock.parseSimdRecord
  simp only [hcode, parseRecord_code, parseRecordByType, sizeof_agree, hpayload]
  unfold KernelBlock.after SimdRecord.hostPayload SimdRecord.stepSizes
  simp only [Nat.add_assoc]

lemma records_atEnd (ctx : HostContext) {k : KernelBlock} (h : k.AtEnd) :
    k.records abi ctx = ([], none) := by
  have hnone : k.nextSimd abi ctx = none := if_pos h
  rw [KernelBlock.records]
  split
  · rw [if_pos h]
  · next h' =>
    rw [hnone] at h'
    cases h'

lemma records_cons (ctx : HostContext) {k k' : KernelBlock} {r : KernelRecord} {e : ℕ}
    (h : ¬ k.AtEnd) (hp : k.parseSimdRecord abi ctx = (e, some (r, k'))) :
    k.records abi ctx = ((r, e) :: (k'.records abi ctx).1, (k'.records abi ctx).2) := by
  have hsome : k.nextSimd abi ctx = some (r, k') := by
    unfold KernelBlock.nextSimd
    rw [if_neg h, hp]
  rw [KernelBlock.records]
  split
  · next h' =>
    rw [hsome] at h'
    cases h'
  · next h' =>
    rw [hsome] at h'
    cases h'
    rw [hp]

def SimdRecord.returned (ctx : HostContext) (r : SimdRecord abi) : ℕ × List UInt8 :=
  (r.type.code, r.hostPayload ctx)

lemma records_of_bytes (ctx : HostContext) (todo : List (SimdRecord abi)) {k : KernelBlock}
    (hbytes : readBytes k.mem k.simdOffset (encode todo).length = encode todo)
    (hend : k.simdOffset + (encode todo).length = k.head.writeOffset)
    (hcount : todo ≠ [] → k.head.recordWriteCount ≠ 0) :
    (k.records abi ctx).1.map (fun x => (x.1.recordType, x.1.payload)) =
        todo.map (SimdRecord.returned ctx) ∧
      (∀ x ∈ (k.records abi ctx).1, x.2 ≤ k.head.writeOffset) ∧ (k.records abi ctx).2 = none := by
  induction todo generalizing k with
  | nil =>
    rw [records_atEnd ctx (Or.inr hend.ge)]
    exact ⟨rfl, fun x hx => (by cases hx), rfl⟩
  | cons r todo ih =>
    have hlen : (encode (r :: todo)).length = r.stepSizes + (encode todo).length := by
      rw [← length_bytes, ← List.length_append]
      rfl
    rw [hlen] at hbytes hend
    rw [readBytes_add] at hbytes
    have hsplit : encode (r :: todo) = r.bytes ++ encode todo := rfl
    rw [hsplit] at hbytes
    obtain ⟨hr, htodo⟩ := List.append_inj hbytes (by rw [length_readBytes, length_bytes])
    have hpos : 0 < r.stepSizes := by
      unfold SimdRecord.stepSizes typeSize
      omega
    have hnot : ¬ k.AtEnd := by
      rintro (h0 | h0)
      · exact hcount (List.cons_ne_nil _ _) h0
      · omega
    rw [records_cons ctx hnot (parseSimdRecord_of_bytes ctx hr)]
    obtain ⟨h1, h2, h3⟩ := ih (k := k.after r) htodo
      ((Nat.add_assoc _ _ _).trans hend) fun _ => hcount (List.cons_ne_nil _ _)
    refine ⟨?_, fun x hx => ?_, h3⟩
    · rw [List.map_cons, List.map_cons, h1]
      rfl
    · rcases List.mem_cons.1 hx with rfl | hx
      · dsimp only
        omega
      · exact h2 x hx

/-- What the host is given for the records of a block: the head and the bytes written, and an area
large enough for them. What stands behind these bytes does not matter. -/
structure Delivered (abi : Abi) (a : BlockArea) (s : Recorder) (memInfo : MemInfo)
    (memSize : ℕ) : Prop where
  securityVal : memInfo.securityVal = recordHeadSecurityValue
  head : memInfo.head = s.head
  mem : ∀ i < s.head.writeOffset, memInfo.mem i = s.mem (a.headSize + i)
  size : abi.headSize + s.head.writeOffset ≤ memSize

lemma createKernelBlock_delivered {a : BlockArea} {s : Recorder} {memInfo : MemInfo}
    {memSize : ℕ} (h : Delivered abi a s memInfo memSize) (blockIdx lastRecordType serialNo : ℕ) :
    createKernelBlock abi memInfo memSize blockIdx lastRecordType serialNo =
      some { head := s.head
             mem := memInfo.mem
             lastRecordType := lastRecordType
             serialNo := serialNo } := by
  have hsize := h.size
  unfold createKernelBlock
  rw [h.head, if_neg (by omega), if_neg (fun hb => hb.2 h.securityVal), if_neg (by omega),
    if_neg (by omega)]

/-- The host returns the records that stand in the area, and reads no byte that was not written
for them. -/
lemma records_delivered (ctx : HostContext) {a : BlockArea} {s : Recorder}
    {rs : List (SimdRecord abi)} {far : ℕ → UInt8} (hw : Written a s rs far) {memInfo : MemInfo}
    {memSize : ℕ} (h : Delivered abi a s memInfo memSize)
    (blockIdx lastRecordType serialNo : ℕ) :
    ∃ k, createKernelBlock abi memInfo memSize blockIdx lastRecordType serialNo = some k ∧
      (k.records abi ctx).1.map (fun x => (x.1.recordType, x.1.payload)) =
        rs.map (SimdRecord.returned ctx) ∧
      (∀ x ∈ (k.records abi ctx).1, x.2 ≤ s.head.writeOffset) ∧
      (k.records abi ctx).2 = none := by
  refine ⟨_, createKernelBlock_delivered h blockIdx lastRecordType serialNo, ?_⟩
  refine records_of_bytes ctx rs ?_ ?_ fun hne => ?_
  · have hsame : readBytes memInfo.mem 0 (encode rs).length =
        readBytes s.mem a.headSize (encode rs).length := by
      refine readBytes_congr fun i hi => ?_
      rw [Nat.zero_add]
      exact h.mem i (by rw [hw.offset]; exact hi)
    exact hsame.trans hw.bytes
  · exact (Nat.zero_add _).trans hw.offset.symm
  · show s.head.recordWriteCount ≠ 0
    rw [hw.count]
    exact fun h0 => hne (List.length_eq_zero_iff.1 h0)

/-- A list of records that ends where the next one does not fit. -/
structure FirstThatFit (limit : ℕ) (early late : List (SimdRecord abi)) : Prop where
  fit : ∀ pre r post, early = pre ++ r :: post →
    (encode pre).length + cacheLineSize + r.stepSizes < limit
  full : ∀ r ∈ late.head?, limit ≤ (encode early).length + cacheLineSize + r.stepSizes

/-- The records that fit behind `before` are the first ones, and the next one does not. -/
lemma fitted_spec (limit : ℕ) (before rs : List (SimdRecord abi)) :
    ∃ late, rs = fitted limit (encode before).length rs ++ late ∧
      (∀ pre r post, fitted limit (encode before).length rs = pre ++ r :: post →
        (encode (before ++ pre)).length + cacheLineSize + r.stepSizes < limit) ∧
      ∀ r ∈ late.head?, limit ≤
        (encode (before ++ fitted limit (encode before).length rs)).length + cacheLineSize +
          r.stepSizes := by
  induction rs generalizing before with
  | nil =>
    refine ⟨[], rfl, fun pre r post h => ?_, fun r hr => by cases hr⟩
    cases pre <;> cases h
  | cons r rs ih =>
    by_cases hfit : (encode before).length + cacheLineSize + r.stepSizes < limit
    · obtain ⟨late, hrs, hall, hlate⟩ := ih (before ++ [r])
      rw [length_encode_concat] at hrs hall hlate
      rw [fitted, if_pos hfit]
      refine ⟨late, by rw [List.cons_append, ← hrs], fun pre x post h => ?_, fun x hx => ?_⟩
      · rcases pre with _ | ⟨y, pre⟩
        · cases h
          rw [List.append_nil]
          exact hfit
        · obtain ⟨rfl, htail⟩ := List.cons.inj h
          rw [List.append_cons]
          exact hall pre x post htail
      · rw [List.append_cons]
        exact hlate x hx
    · rw [fitted, if_neg hfit]
      refine ⟨r :: rs, rfl, fun pre x post h => ?_, fun x hx => ?_⟩
      · cases pre <;> cases h
      · cases hx
        rw [List.append_nil]
        omega

lemma written_init (a : BlockArea) (mem : ℕ → UInt8) :
    Written a ⟨{}, mem⟩ ([] : List (SimdRecord abi)) mem :=
  ⟨rfl, rfl, rfl, .inl rfl, fun _ _ => rfl⟩

/-- **The recorder and the host agree.** If the recorder turns away the first record that does not
fit, the records before it are returned, in their order and with their bytes but for the program
counter and `vecSubBlockDim`, which the host sets; no byte behind those written is read, and no
record after the first that did not fit is returned. What others write into their areas meanwhile
does not matter, and the records leave it alone. -/
theorem recorder_host_agree (ctx : HostContext) (a : BlockArea) (mem : ℕ → UInt8)
    (steps : List (Step abi)) (hothers : OthersBehind a steps)
    (haway : TurnsAway a 0 (dumped steps)) (memInfo : MemInfo) (memSize : ℕ)
    (h : Delivered abi a (Recorder.run a ⟨{}, mem⟩ steps) memInfo memSize)
    (blockIdx lastRecordType serialNo : ℕ) :
    ∃ early late k, dumped steps = early ++ late ∧ FirstThatFit a.room early late ∧
      (Recorder.run a ⟨{}, mem⟩ steps).head.writeOffset = (encode early).length ∧
      createKernelBlock abi memInfo memSize blockIdx lastRecordType serialNo = some k ∧
      (k.records abi ctx).1.map (fun x => (x.1.recordType, x.1.payload)) =
        early.map (SimdRecord.returned ctx) ∧
      (∀ x ∈ (k.records abi ctx).1, x.2 ≤ (encode early).length) ∧
      (k.records abi ctx).2 = none ∧
      ∀ i, a.simdEnd ≤ i → (Recorder.run a ⟨{}, mem⟩ steps).mem i = others mem steps i := by
  obtain ⟨late, hrs, hall, hlate⟩ := fitted_spec a.room [] (dumped steps)
  have hw := (written_init a mem).run rfl hothers haway
  obtain ⟨k, hk, hrec, hread, hnone⟩ :=
    records_delivered ctx hw h blockIdx lastRecordType serialNo
  exact ⟨_, late, k, hrs, ⟨hall, hlate⟩, hw.offset, hk, hrec,
    fun x hx => hw.offset ▸ hread x hx, hnone, hw.behind⟩

end

/-! ### A block with barriers -/

/-- Sizes and places as they are for a `PipeBarrierRecord`; the other structures are larger. -/
def barrierAbi : Abi :=
  { size := fun s => if s = .pipeBarrierRecord then 40 else 300
    locationAt := fun _ => 0
    vecSubBlockDimAt := fun _ => 0
    headSize := 4096
    kernelErrorDescSize := 0 }

def zeroRecord (type : RecordType) : SimdRecord barrierAbi :=
  { type := type
    payload := List.replicate (barrierAbi.sizeof (recordTypeMap type)) 0
    length_payload := List.length_replicate }

def smallArea : BlockArea :=
  { global := { supportSimt := true, simtErrorInfoOffset := 600, cacheSize := 1 }
    recordBlockHeadSize := 192
    hostMemoryNum := 0
    peerMemoryNum := 0
    ownCacheSize := 1
    own_le := le_rfl }

def noContext : HostContext :=
  { pcStartAddr := 0
    blockType := .aivec
    vecSubBlockDim := 2 }

/-- A SIMT thread writes behind seven barriers; the next record is too large. -/
def barriers : List (Step barrierAbi) :=
  List.replicate 7 (.dump (zeroRecord .pipeBarrier)) ++
    [.other 600 [1], .dump (zeroRecord .dmaMov), .dump (zeroRecord .pipeBarrier)]

def barrierRecorder (steps : List (Step barrierAbi)) : Recorder :=
  Recorder.run smallArea ⟨{}, fun _ => 0⟩ steps

lemma othersBehind_barriers : OthersBehind smallArea barriers := by
  intro offset bs h
  simp only [barriers, List.replicate, List.cons_append, List.nil_append, List.mem_cons,
    reduceCtorEq, false_or, Step.other.injEq, List.not_mem_nil, or_false] at h
  obtain ⟨rfl, -⟩ := h
  decide

def deliver (s : Recorder) : MemInfo :=
  ⟨recordHeadSecurityValue, s.head, fun i => s.mem (smallArea.headSize + i)⟩

lemma delivered (s : Recorder) :
    Delivered barrierAbi smallArea s (deliver s) (barrierAbi.headSize + s.head.writeOffset) :=
  ⟨rfl, rfl, fun _ _ => rfl, le_rfl⟩

/-- The record that is too large and the barrier behind it are not returned. -/
theorem recorder_host_agree_barriers :
    ∃ early late k, dumped barriers = early ++ late ∧
      FirstThatFit smallArea.room early late ∧
      (barrierRecorder barriers).head.writeOffset = (encode early).length ∧
      createKernelBlock barrierAbi (deliver (barrierRecorder barriers))
        (barrierAbi.headSize + (barrierRecorder barriers).head.writeOffset) 0 0 0 = some k ∧
      (k.records barrierAbi noContext).1.map (fun x => (x.1.recordType, x.1.payload)) =
        early.map (SimdRecord.returned noContext) ∧
      (∀ x ∈ (k.records barrierAbi noContext).1, x.2 ≤ (encode early).length) ∧
      (k.records barrierAbi noContext).2 = none ∧
      ∀ i, smallArea.simdEnd ≤ i →
        (barrierRecorder barriers).mem i = others (fun _ => 0) barriers i :=
  recorder_host_agree noContext smallArea (fun _ => 0) barriers othersBehind_barriers
    (by decide) _ _ (delivered _) 0 0 0

/-- Without the start of the kernel the host takes the program counter away: what it returns is not
what was dumped. -/
theorem returned_pc_differs :
    ∃ k, createKernelBlock barrierAbi
        (deliver (barrierRecorder [.dump (zeroRecord .pipeBarrier)]))
        (barrierAbi.headSize +
          (barrierRecorder [.dump (zeroRecord .pipeBarrier)]).head.writeOffset) 0 0 0 = some k ∧
      (k.records barrierAbi noContext).1.map (fun x => x.1.payload) ≠
        [(zeroRecord .pipeBarrier).payload] := by
  have hothers : OthersBehind smallArea [Step.dump (zeroRecord .pipeBarrier)] :=
    fun _ _ h => by cases List.mem_singleton.1 h
  have hw : Written smallArea (barrierRecorder [.dump (zeroRecord .pipeBarrier)]) _ _ :=
    (written_init smallArea _).run rfl hothers (by decide)
  obtain ⟨k, hk, hrec, -, -⟩ := records_delivered noContext hw (delivered _) 0 0 0
  refine ⟨k, hk, fun h => ?_⟩
  have hsnd := congrArg (List.map Prod.snd) hrec
  rw [List.map_map] at hsnd
  have hpay : [(zeroRecord .pipeBarrier).payload] =
      [(zeroRecord .pipeBarrier).hostPayload noContext] := h.symm.trans hsnd
  revert hpay
  decide

end MsSanitizer.KernelRecords
