import MsSanitizer.KernelBlock

/-!
# The errors of a SIMT thread, from the device to the host

A checked instruction may come with several error descriptions. The first one writes a record to
the area of the thread, and the others are appended to this record while its head is written again
with a higher count. Once there has been no room nothing more should be written, and the host reads
the records back with `ParseSimtErrorRecord`. Serial numbers are left out. Counters and offsets are
numbers here, except for `errorNum`, which has 32 bits.
-/

namespace MsSanitizer.KernelRecords

open ByteWords RecordDefs

/-! ### The device -/

/-- `SimtRecordBlockHead`, as far as it is about the records. -/
structure SimtRecordBlockHead where
  recordCount : ℕ := 0
  recordWriteCount : ℕ := 0
  offset : ℕ := 0
  writeOffset : ℕ := 0
  deriving DecidableEq, Repr

/-- The bytes of a `KernelErrorDesc`. -/
structure ErrorDesc (abi : Abi) where
  bytes : List UInt8
  length_bytes : bytes.length = abi.kernelErrorDescSize

/-- An instruction with its record and the errors that `Do` finds. -/
structure CheckedInstr (abi : Abi) where
  recordType : ℕ
  recordType_lt : recordType < 2 ^ 32
  record : List UInt8
  /-- `recordSize` has 16 bits -/
  length_lt : record.length < 2 ^ 16
  descs : List (ErrorDesc abi)

/-- The bytes of a `KernelErrorRecord`; the host fills in the pointers. -/
def errorRecordBytes (errorNum recordType recordSize : ℕ) : List UInt8 :=
  bytesOf 4 errorNum ++ bytesOf 4 recordType ++ bytesOf 2 recordSize ++ List.replicate 22 0

structure Write where
  offset : ℕ
  bytes : List UInt8
  deriving DecidableEq, Repr

/-- A call of `DumpErrorInfo`: whether there was room, and what was written to the area. -/
structure Dump where
  room : Bool
  writes : List Write
  deriving DecidableEq, Repr

/-- The head of a thread, the bytes behind it, and the calls so far. -/
structure SimtDevice where
  head : SimtRecordBlockHead := {}
  mem : ℕ → UInt8
  dumps : List Dump := []

def writeAll (mem : ℕ → UInt8) (writes : List Write) : ℕ → UInt8 :=
  writes.foldl (fun mem w => writeAt mem w.offset w.bytes) mem

section
variable {abi : Abi}

/-- `stepSize` of a record with this number of errors. -/
def CheckedInstr.stepSize (i : CheckedInstr abi) (errorNum : ℕ) : ℕ :=
  if errorNum = 1 then
    typeSize + kernelErrorRecordSize + i.record.length + abi.kernelErrorDescSize
  else abi.kernelErrorDescSize

/-- The type of the record, which is written before the room is checked. -/
def tagWrite (cacheWriteOffset : ℕ) : Write := ⟨cacheWriteOffset, bytesOf typeSize onlineError⟩

def CheckedInstr.errorWrites (i : CheckedInstr abi) (cacheWriteOffset errorNum : ℕ)
    (desc : ErrorDesc abi) : List Write :=
  let gmErrorRecord := cacheWriteOffset + typeSize
  let gmRecord := gmErrorRecord + kernelErrorRecordSize
  let gmErrorDesc := gmRecord + i.record.length +
    abi.kernelErrorDescSize * ((errorNum + (2 ^ 32 - 1)) % 2 ^ 32)
  [⟨gmErrorRecord, errorRecordBytes errorNum i.recordType i.record.length⟩, ⟨gmRecord, i.record⟩,
    ⟨gmErrorDesc, desc.bytes⟩]

/-- The condition of `DumpErrorInfo`; `limit` is `simtErrorInfo.size`. -/
def SimtDevice.HasRoom (limit : ℕ) (s : SimtDevice) (stepSize : ℕ) : Prop :=
  s.head.writeOffset + cacheLineSize + stepSize < limit ∧
    s.head.recordCount = s.head.recordWriteCount

instance (limit : ℕ) (s : SimtDevice) (stepSize : ℕ) : Decidable (s.HasRoom limit stepSize) :=
  inferInstanceAs (Decidable (_ ∧ _))

/-- `DumpErrorInfo`: the state and the `errorNum` of the record, before and after. -/
def dumpErrorInfo (limit : ℕ) (i : CheckedInstr abi) (cacheWriteOffset : ℕ)
    (s : SimtDevice × ℕ) (desc : ErrorDesc abi) : SimtDevice × ℕ :=
  let errorNum := (s.2 + 1) % 2 ^ 32
  let stepSize := i.stepSize errorNum
  let h := s.1.head
  if s.1.HasRoom limit stepSize then
    let writes := tagWrite cacheWriteOffset :: i.errorWrites cacheWriteOffset errorNum desc
    let first := if errorNum = 1 then 1 else 0
    ({ head :=
        { recordCount := h.recordCount + first
          recordWriteCount := h.recordWriteCount + first
          offset := h.offset + stepSize
          writeOffset := h.writeOffset + stepSize }
       mem := writeAll s.1.mem writes
       dumps := s.1.dumps ++ [⟨true, writes⟩] }, errorNum)
  else
    let writes := [tagWrite cacheWriteOffset]
    ({ head := { h with recordCount := h.recordCount + 1, offset := h.offset + stepSize }
       mem := writeAll s.1.mem writes
       dumps := s.1.dumps ++ [⟨false, writes⟩] }, errorNum)

/-- `Do`, with the errors it finds. -/
def SimtDevice.check (limit : ℕ) (s : SimtDevice) (i : CheckedInstr abi) : SimtDevice :=
  (i.descs.foldl (dumpErrorInfo limit i s.head.writeOffset) (s, 0)).1

/-- The instructions of a thread, on an area that holds anything. -/
def SimtDevice.run (limit : ℕ) (mem : ℕ → UInt8) (is : List (CheckedInstr abi)) : SimtDevice :=
  is.foldl (SimtDevice.check limit) { mem := mem }

end

/-! ### The host -/

/-- A `KernelErrorRecord` with what its pointers point to. -/
structure KernelErrorRecord where
  errorNum : ℕ
  recordType : ℕ
  recordSize : ℕ
  record : List UInt8
  kernelErrorDesc : List (List UInt8)
  deriving DecidableEq, Repr

/-- What `ParseMemErrorType` makes of the bytes at `ptr`. -/
def kernelErrorRecordAt (abi : Abi) (mem : ℕ → UInt8) (ptr : ℕ) : KernelErrorRecord :=
  let errorNum := val (readBytes mem ptr 4)
  let recordSize := val (readBytes mem (ptr + 8) 2)
  let record := ptr + kernelErrorRecordSize
  { errorNum := errorNum
    recordType := val (readBytes mem (ptr + 4) 4)
    recordSize := recordSize
    record := readBytes mem record recordSize
    kernelErrorDesc := (List.range errorNum).map fun j =>
      readBytes mem (record + recordSize + j * abi.kernelErrorDescSize) abi.kernelErrorDescSize }

/-- A record of a thread: an error, or one of the other types. -/
inductive SimtKernelRecord
  | onlineError (r : KernelErrorRecord)
  | other (code : ℕ) (p : Parsed)

/-- The inner loop of `ParseSimtErrorRecord`, with the records still to be read. -/
def parseSimtErrors (abi : Abi) (ctx : HostContext) (h : SimtRecordBlockHead) (mem : ℕ → UInt8) :
    ℕ → ℕ → List SimtKernelRecord
  | 0, _ => []
  | n + 1, simtOffset =>
    let code := val (readBytes mem simtOffset typeSize)
    let ptr := simtOffset + typeSize
    match parseRecord abi ctx mem ptr code with
    | none => []
    | some p =>
      (if code = onlineError then .onlineError (kernelErrorRecordAt abi mem ptr)
        else .other code p) ::
        if h.offset ≤ ptr + p.recordSize then []
        else parseSimtErrors abi ctx h mem n (ptr + p.recordSize)

/-- `ParseSimtErrorRecord`, for one thread. -/
def parseSimtErrorRecord (abi : Abi) (ctx : HostContext) (h : SimtRecordBlockHead)
    (mem : ℕ → UInt8) : List SimtKernelRecord :=
  parseSimtErrors abi ctx h mem h.recordWriteCount 0

/-! ### What should be there -/

section
variable {abi : Abi}

/-- The descriptions that fit before the first that does not; `used` bytes are taken already. -/
def fittedDescs (limit : ℕ) : ℕ → List (ErrorDesc abi) → List (ErrorDesc abi)
  | _, [] => []
  | used, d :: ds =>
    if used + cacheLineSize + abi.kernelErrorDescSize < limit then
      d :: fittedDescs limit (used + abi.kernelErrorDescSize) ds
    else []

/-- The instructions whose first error fits, with the descriptions that do. -/
def fittedErrors (limit : ℕ) : ℕ → List (CheckedInstr abi) → List (CheckedInstr abi)
  | _, [] => []
  | used, i :: is =>
    match i.descs with
    | [] => fittedErrors limit used is
    | d :: ds =>
      let used' := used + i.stepSize 1
      if used + cacheLineSize + i.stepSize 1 < limit then
        let fit := fittedDescs limit used' ds
        { i with descs := d :: fit } ::
          if fit.length = ds.length then
            fittedErrors limit (used' + abi.kernelErrorDescSize * ds.length) is
          else []
      else []

/-- What the host returns for an instruction with these descriptions. -/
def CheckedInstr.hostRecord (i : CheckedInstr abi) : SimtKernelRecord :=
  .onlineError
    { errorNum := i.descs.length
      recordType := i.recordType
      recordSize := i.record.length
      record := i.record
      kernelErrorDesc := i.descs.map ErrorDesc.bytes }

/-- All the descriptions of a list of instructions. -/
def descCount (is : List (CheckedInstr abi)) : ℕ := (is.map fun i => i.descs.length).sum

/-- The host reads exactly what fitted before the first overflow, nothing is written after it, and
every write is inside the area. -/
structure StreamRight (ctx : HostContext) (limit : ℕ) (mem : ℕ → UInt8)
    (is : List (CheckedInstr abi)) : Prop where
  decoded : parseSimtErrorRecord abi ctx (SimtDevice.run limit mem is).head
    (SimtDevice.run limit mem is).mem = (fittedErrors limit 0 is).map CheckedInstr.hostRecord
  quiet : ∀ before c after, (SimtDevice.run limit mem is).dumps = before ++ c :: after →
    c.room = false → ∀ c' ∈ after, c'.writes = []
  inside : ∀ c ∈ (SimtDevice.run limit mem is).dumps, ∀ w ∈ c.writes,
    w.offset + w.bytes.length ≤ limit

end

/-! ### Bytes in memory -/

def HoldsAt (mem : ℕ → UInt8) (offset : ℕ) (bs : List UInt8) : Prop :=
  ∀ i (h : i < bs.length), mem (offset + i) = bs[i]

section
variable {mem : ℕ → UInt8} {offset : ℕ} {bs bs' : List UInt8}

lemma holdsAt_append :
    HoldsAt mem offset (bs ++ bs') ↔
      HoldsAt mem offset bs ∧ HoldsAt mem (offset + bs.length) bs' := by
  constructor
  · intro h
    refine ⟨fun i hi => ?_, fun i hi => ?_⟩
    · rw [h i (by rw [List.length_append]; omega), List.getElem_append_left hi]
    · rw [Nat.add_assoc, h (bs.length + i) (by rw [List.length_append]; omega),
        List.getElem_append_right (Nat.le_add_right _ _)]
      simp
  · rintro ⟨h, h'⟩ i hi
    rw [List.length_append] at hi
    by_cases hlt : i < bs.length
    · rw [List.getElem_append_left hlt, h i hlt]
    · rw [List.getElem_append_right (not_lt.mp hlt), ← h' (i - bs.length) (by omega)]
      congr 1
      omega

lemma HoldsAt.readBytes (h : HoldsAt mem offset bs) : readBytes mem offset bs.length = bs :=
  List.ext_getElem (length_readBytes _ _ _) fun i h1 h2 => by
    simp [KernelRecords.readBytes, h i h2]

lemma HoldsAt.val_eq {v n : ℕ} (h : HoldsAt mem offset (bytesOf n v)) (hv : v < 256 ^ n) :
    val (KernelRecords.readBytes mem offset n) = v := by
  have hread := h.readBytes
  rw [length_bytesOf] at hread
  rw [hread, val_bytesOf hv]

lemma holdsAt_writeAt : HoldsAt (writeAt mem offset bs) offset bs := by
  intro i hi
  simp [writeAt, hi]

lemma HoldsAt.writeAt (h : HoldsAt mem offset bs) {offset' : ℕ}
    (hdisj : offset + bs.length ≤ offset' ∨ offset' + bs'.length ≤ offset) :
    HoldsAt (KernelRecords.writeAt mem offset' bs') offset bs := by
  intro i hi
  rw [← h i hi]
  exact writeAt_outside _ (by omega)

lemma writeAt_of_holdsAt (h : HoldsAt mem offset bs) :
    KernelRecords.writeAt mem offset bs = mem := by
  funext i
  rw [KernelRecords.writeAt]
  split_ifs with hle
  · by_cases hi : i - offset < bs.length
    · rw [List.getElem?_eq_getElem hi, Option.getD_some, ← h _ hi]
      congr 1
      omega
    · rw [List.getElem?_eq_none (not_lt.mp hi), Option.getD_none]
  · rfl

end

/-! ### The bytes of a record -/

section
variable {abi : Abi}

/-- What stands in the area for an instruction with these descriptions. -/
def CheckedInstr.errorBytes (i : CheckedInstr abi) : List UInt8 :=
  bytesOf typeSize onlineError ++
    (errorRecordBytes i.descs.length i.recordType i.record.length ++
      (i.record ++ i.descs.flatMap ErrorDesc.bytes))

lemma length_errorRecordBytes (n t m : ℕ) :
    (errorRecordBytes n t m).length = kernelErrorRecordSize := by
  simp [errorRecordBytes, kernelErrorRecordSize]

lemma length_flatMap_descs (ds : List (ErrorDesc abi)) :
    (ds.flatMap ErrorDesc.bytes).length = abi.kernelErrorDescSize * ds.length := by
  induction ds with
  | nil => rfl
  | cons d ds ih =>
    rw [List.flatMap_cons, List.length_append, d.length_bytes, ih, List.length_cons]
    ring

lemma length_errorBytes (i : CheckedInstr abi) :
    i.errorBytes.length = typeSize + kernelErrorRecordSize + i.record.length +
      abi.kernelErrorDescSize * i.descs.length := by
  simp only [CheckedInstr.errorBytes, List.length_append, length_bytesOf, length_errorRecordBytes,
    length_flatMap_descs]
  omega

def areaBytes (es : List (CheckedInstr abi)) : List UInt8 := es.flatMap CheckedInstr.errorBytes

lemma areaBytes_concat (es : List (CheckedInstr abi)) (e : CheckedInstr abi) :
    areaBytes (es ++ [e]) = areaBytes es ++ e.errorBytes := by
  simp [areaBytes]

/-! ### The host reads what is there -/

/-- The fields of a `KernelErrorRecord` behind the type. -/
lemma kernelErrorRecordAt_of_holds {mem : ℕ → UInt8} {offset : ℕ} {i : CheckedInstr abi}
    (h : HoldsAt mem offset i.errorBytes) (hnum : i.descs.length < 2 ^ 32) :
    val (readBytes mem offset typeSize) = onlineError ∧
      val (readBytes mem (offset + typeSize) 4) = i.descs.length ∧
      val (readBytes mem (offset + typeSize + 4) 4) = i.recordType ∧
      val (readBytes mem (offset + typeSize + 8) 2) = i.record.length ∧
      HoldsAt mem (offset + typeSize + kernelErrorRecordSize)
        (i.record ++ i.descs.flatMap ErrorDesc.bytes) := by
  rw [CheckedInstr.errorBytes, holdsAt_append, length_bytesOf, holdsAt_append,
    length_errorRecordBytes] at h
  obtain ⟨htag, hrecord, hrest⟩ := h
  rw [errorRecordBytes, holdsAt_append, holdsAt_append, holdsAt_append] at hrecord
  obtain ⟨⟨⟨hnum', htype⟩, hsize⟩, -⟩ := hrecord
  simp only [List.length_append, length_bytesOf] at htype hsize
  exact ⟨htag.val_eq (by decide), hnum'.val_eq (by omega),
    htype.val_eq (i.recordType_lt.trans_eq (by norm_num)),
    hsize.val_eq (i.length_lt.trans_eq (by norm_num)), hrest⟩

lemma readBytes_descs {mem : ℕ → UInt8} {offset : ℕ} {ds : List (ErrorDesc abi)}
    (h : HoldsAt mem offset (ds.flatMap ErrorDesc.bytes)) :
    ((List.range ds.length).map fun j =>
      readBytes mem (offset + j * abi.kernelErrorDescSize) abi.kernelErrorDescSize) =
        ds.map ErrorDesc.bytes := by
  induction ds generalizing offset with
  | nil => rfl
  | cons d ds ih =>
    rw [List.flatMap_cons, holdsAt_append] at h
    have hfirst := h.1.readBytes
    rw [d.length_bytes] at h hfirst
    rw [List.length_cons, List.range_succ_eq_map, List.map_cons, List.map_map, List.map_cons,
      Nat.zero_mul, Nat.add_zero, hfirst, ← ih h.2]
    congr 1
    refine List.map_congr_left fun j _ => ?_
    simp only [Function.comp_apply, Nat.succ_mul]
    congr 1
    ring

/-- The host reads a record back from its bytes, and comes to their end. -/
lemma parse_of_holds {mem : ℕ → UInt8} {offset : ℕ} {i : CheckedInstr abi}
    (h : HoldsAt mem offset i.errorBytes) (hnum : i.descs.length < 2 ^ 32) :
    val (readBytes mem offset typeSize) = onlineError ∧
      SimtKernelRecord.onlineError (kernelErrorRecordAt abi mem (offset + typeSize)) =
        i.hostRecord ∧
      offset + typeSize + (parseMemErrorType abi mem (offset + typeSize)).recordSize =
        offset + i.errorBytes.length := by
  obtain ⟨htag, herrorNum, htype, hsize, hrest⟩ := kernelErrorRecordAt_of_holds h hnum
  obtain ⟨hrecord, hdescs⟩ := holdsAt_append.mp hrest
  refine ⟨htag, ?_, ?_⟩
  · rw [CheckedInstr.hostRecord, kernelErrorRecordAt]
    simp only [herrorNum, htype, hsize, hrecord.readBytes, readBytes_descs hdescs]
  · rw [parseMemErrorType, length_errorBytes]
    simp only [herrorNum, hsize]
    ring

lemma parseSimtErrors_of_holds (ctx : HostContext) {h : SimtRecordBlockHead} {mem : ℕ → UInt8}
    {offset : ℕ} {es : List (CheckedInstr abi)} (hes : HoldsAt mem offset (areaBytes es))
    (hnum : ∀ e ∈ es, e.descs.length < 2 ^ 32) (hend : offset + (areaBytes es).length ≤ h.offset) :
    parseSimtErrors abi ctx h mem es.length offset = es.map CheckedInstr.hostRecord := by
  induction es generalizing offset with
  | nil => rfl
  | cons e es ih =>
    rw [areaBytes, List.flatMap_cons, holdsAt_append] at hes
    rw [areaBytes, List.flatMap_cons, List.length_append] at hend
    obtain ⟨htag, hhost, hnext⟩ := parse_of_holds hes.1 (hnum e List.mem_cons_self)
    rw [List.length_cons, parseSimtErrors]
    simp only [htag, parseRecord, if_true, hhost, hnext, List.map_cons, List.cons.injEq, true_and]
    rcases es with - | ⟨e', es⟩
    · split_ifs <;> rfl
    · have hlen := length_errorBytes e'
      rw [List.flatMap_cons, List.length_append] at hend
      rw [if_neg (by rw [hlen, typeSize] at hend; omega)]
      refine ih hes.2 (fun e he => hnum e (List.mem_cons_of_mem _ he)) ?_
      rw [areaBytes, List.flatMap_cons, List.length_append]
      omega

/-! ### The device writes what fits -/

/-- The four writes leave the record with one description more, behind what was there. -/
lemma holdsAt_errorWrites {mem : ℕ → UInt8} {pre : List UInt8} (i : CheckedInstr abi)
    {ds : List (ErrorDesc abi)} (d : ErrorDesc abi) (hpre : HoldsAt mem 0 pre)
    (hds : HoldsAt mem (pre.length + typeSize + kernelErrorRecordSize + i.record.length)
      (ds.flatMap ErrorDesc.bytes)) (hnum : ds.length + 1 < 2 ^ 32) :
    HoldsAt (writeAll mem (tagWrite pre.length :: i.errorWrites pre.length (ds.length + 1) d)) 0
      (pre ++ ({ i with descs := ds ++ [d] } : CheckedInstr abi).errorBytes) := by
  have hindex : (ds.length + 1 + (2 ^ 32 - 1)) % 2 ^ 32 = ds.length := by omega
  have hlen := length_flatMap_descs ds
  have hrec := length_errorRecordBytes (ds.length + 1) i.recordType i.record.length
  have htag : (bytesOf typeSize onlineError).length = typeSize := length_bytesOf _ _
  simp only [CheckedInstr.errorWrites, tagWrite, hindex, writeAll, List.foldl_cons, List.foldl_nil,
    CheckedInstr.errorBytes, List.length_append, List.length_singleton, List.flatMap_append,
    List.flatMap_singleton]
  rw [holdsAt_append, holdsAt_append, holdsAt_append, holdsAt_append, holdsAt_append, htag, hrec,
    hlen, Nat.zero_add]
  -- each part has been written last, or lies beside all later writes
  refine ⟨?_, ?_, ?_, ?_, ?_, ?_⟩
  · refine (((hpre.writeAt ?_).writeAt ?_).writeAt ?_).writeAt ?_ <;> left <;> omega
  · refine ((holdsAt_writeAt.writeAt ?_).writeAt ?_).writeAt ?_ <;> left <;> omega
  · refine (holdsAt_writeAt.writeAt ?_).writeAt ?_ <;> left <;> omega
  · refine holdsAt_writeAt.writeAt ?_
    left
    omega
  · refine (((hds.writeAt ?_).writeAt ?_).writeAt ?_).writeAt ?_
    · right
      omega
    · right
      omega
    · right
      omega
    · left
      omega
  · exact holdsAt_writeAt

/-- The area holds these records, the counters and offsets are theirs, and the calls are those that
had room, one for each description, and behind them those that had not. -/
structure Stands (limit : ℕ) (s : SimtDevice) (es : List (CheckedInstr abi)) (overflow : Bool) :
    Prop where
  offset : s.head.writeOffset = (areaBytes es).length
  count : s.head.recordWriteCount = es.length
  le : s.head.writeOffset ≤ s.head.offset
  opened : overflow = false → s.head.recordCount = s.head.recordWriteCount
  closed : overflow = true → s.head.recordWriteCount < s.head.recordCount
  bytes : HoldsAt s.mem 0 (areaBytes es)
  room : es ≠ [] → s.head.writeOffset + cacheLineSize < limit
  dumps : ∃ good bad, s.dumps = good ++ bad ∧ good.length = descCount es ∧
    (∀ c ∈ good, c.room = true) ∧ (∀ c ∈ bad, c.room = false) ∧ (overflow = true ↔ bad ≠ [])
  inside : ∀ c ∈ s.dumps, ∀ w ∈ c.writes, w.offset + w.bytes.length ≤ max limit typeSize
  tag : ∀ c ∈ s.dumps, ∃ w ∈ c.writes, w.bytes.length = typeSize

lemma descCount_concat (es : List (CheckedInstr abi)) (e : CheckedInstr abi) :
    descCount (es ++ [e]) = descCount es + e.descs.length := by
  simp [descCount]

lemma stands_start (limit : ℕ) (mem : ℕ → UInt8) :
    Stands limit { mem := mem } ([] : List (CheckedInstr abi)) false where
  offset := rfl
  count := rfl
  le := le_rfl
  opened _ := rfl
  closed h := by cases h
  bytes _ h := absurd h (Nat.not_lt_zero _)
  room h := absurd rfl h
  dumps := ⟨[], [], rfl, rfl, by simp, by simp, by simp⟩
  inside := by simp
  tag := by simp

variable {limit : ℕ} {s : SimtDevice} {es : List (CheckedInstr abi)} {overflow : Bool}

/-- Where the tag may be written without harm: behind all records, or over the tag of one. -/
def Harmless (s : SimtDevice) (cacheWriteOffset : ℕ) : Prop :=
  cacheWriteOffset = s.head.writeOffset ∨
    HoldsAt s.mem cacheWriteOffset (bytesOf typeSize onlineError) ∧
      cacheWriteOffset + typeSize ≤ s.head.writeOffset

lemma Stands.tag_le (h : Stands limit s es overflow) {cacheWriteOffset : ℕ}
    (hharmless : Harmless s cacheWriteOffset) :
    cacheWriteOffset + typeSize ≤ max limit typeSize := by
  have hle : cacheWriteOffset ≤ s.head.writeOffset := by
    rcases hharmless with heq | ⟨-, hle⟩ <;> omega
  by_cases hes : es = []
  · have hzero := h.offset
    rw [hes] at hzero
    exact le_max_of_le_right (by rw [hzero, areaBytes] at hle; simpa using hle)
  · have := h.room hes
    have hsizes : typeSize ≤ cacheLineSize := by decide
    exact le_max_of_le_left (by omega)

lemma Stands.turn_away (h : Stands limit s es overflow) {i : CheckedInstr abi}
    {n cacheWriteOffset : ℕ} (d : ErrorDesc abi)
    (hroom : ¬ s.HasRoom limit (i.stepSize ((n + 1) % 2 ^ 32)))
    (hharmless : Harmless s cacheWriteOffset) :
    Stands limit (dumpErrorInfo limit i cacheWriteOffset (s, n) d).1 es true ∧
      Harmless (dumpErrorInfo limit i cacheWriteOffset (s, n) d).1 cacheWriteOffset := by
  rw [dumpErrorInfo]
  simp only
  rw [if_neg hroom]
  have htag : (bytesOf typeSize onlineError).length = typeSize := length_bytesOf _ _
  obtain ⟨good, bad, hdumps, hlen, hgood, hbad, -⟩ := h.dumps
  refine ⟨⟨h.offset, h.count, h.le.trans (Nat.le_add_right _ _), by simp, fun _ => ?_, ?_, h.room,
    ⟨good, bad ++ [⟨false, [tagWrite cacheWriteOffset]⟩], ?_, hlen, hgood, ?_, by simp⟩, ?_, ?_⟩,
    ?_⟩
  · cases overflow with
    | false => exact Nat.lt_succ_of_le (h.opened rfl).ge
    | true => exact Nat.lt_succ_of_lt (h.closed rfl)
  · rcases hharmless with heq | ⟨hholds, -⟩
    · refine h.bytes.writeAt (.inl ?_)
      rw [Nat.zero_add, ← h.offset]
      exact heq.ge
    · simp only [writeAll, tagWrite, List.foldl_cons, List.foldl_nil]
      rw [writeAt_of_holdsAt hholds]
      exact h.bytes
  · rw [hdumps, List.append_assoc]
  · exact List.forall_mem_append.2 ⟨hbad, List.forall_mem_singleton.2 rfl⟩
  · refine List.forall_mem_append.2 ⟨h.inside, List.forall_mem_singleton.2 ?_⟩
    refine List.forall_mem_singleton.2 ?_
    rw [tagWrite, htag]
    exact h.tag_le hharmless
  · refine List.forall_mem_append.2 ⟨h.tag, List.forall_mem_singleton.2 ?_⟩
    exact ⟨_, List.mem_singleton_self _, htag⟩
  · rcases hharmless with heq | ⟨hholds, hle⟩
    · exact .inl heq
    · refine .inr ⟨?_, hle⟩
      simp only [writeAll, tagWrite, List.foldl_cons, List.foldl_nil]
      rw [writeAt_of_holdsAt hholds]
      exact hholds

/-- All that is written lies before the end of the record. -/
lemma writes_le (i : CheckedInstr abi) (cacheWriteOffset : ℕ) {ds : List (ErrorDesc abi)}
    (d : ErrorDesc abi) (hnum : ds.length + 1 < 2 ^ 32) :
    ∀ w ∈ tagWrite cacheWriteOffset :: i.errorWrites cacheWriteOffset (ds.length + 1) d,
      w.offset + w.bytes.length ≤ cacheWriteOffset +
        ({ i with descs := ds ++ [d] } : CheckedInstr abi).errorBytes.length := by
  have hindex : (ds.length + 1 + (2 ^ 32 - 1)) % 2 ^ 32 = ds.length := by omega
  intro w hw
  rw [length_errorBytes]
  simp only [CheckedInstr.errorWrites, tagWrite, hindex, List.mem_cons, List.not_mem_nil,
    or_false] at hw
  simp only [List.length_append, List.length_singleton, Nat.mul_add]
  rcases hw with rfl | rfl | rfl | rfl
  · simp only [length_bytesOf]
    omega
  · simp only [length_errorRecordBytes]
    omega
  · simp only
    omega
  · simp only [d.length_bytes]
    omega

section
variable {i : CheckedInstr abi} {ds : List (ErrorDesc abi)}

/-- The records before that of the running instruction, and the descriptions it has already. -/
lemma Stands.bytes_before
    (h : Stands limit s (if ds = [] then es else es ++ [{ i with descs := ds }]) overflow) :
    HoldsAt s.mem 0 (areaBytes es) ∧
      HoldsAt s.mem ((areaBytes es).length + typeSize + kernelErrorRecordSize + i.record.length)
        (ds.flatMap ErrorDesc.bytes) := by
  have hbytes := h.bytes
  split_ifs at hbytes with hds
  · rw [hds]
    exact ⟨hbytes, fun _ h => absurd h (Nat.not_lt_zero _)⟩
  · rw [areaBytes_concat, holdsAt_append, CheckedInstr.errorBytes, holdsAt_append,
      holdsAt_append, holdsAt_append, length_bytesOf, length_errorRecordBytes,
      Nat.zero_add] at hbytes
    exact ⟨hbytes.1, hbytes.2.2.2.2⟩

lemma Stands.offset_next (d : ErrorDesc abi)
    (h : Stands limit s (if ds = [] then es else es ++ [{ i with descs := ds }]) overflow) :
    s.head.writeOffset + i.stepSize (ds.length + 1) =
      (areaBytes (es ++ [{ i with descs := ds ++ [d] }])).length := by
  have hold := h.offset
  rw [areaBytes_concat, List.length_append, length_errorBytes]
  rw [CheckedInstr.stepSize]
  split_ifs at hold with hds
  · simp [hold, hds]
  · have hne : ds.length ≠ 0 := fun hz => hds (List.length_eq_zero_iff.mp hz)
    rw [areaBytes_concat, List.length_append, length_errorBytes] at hold
    rw [if_neg (by omega), hold]
    simp only [List.length_append, List.length_singleton]
    ring

lemma Stands.count_next (d : ErrorDesc abi)
    (h : Stands limit s (if ds = [] then es else es ++ [{ i with descs := ds }]) overflow) :
    s.head.recordWriteCount + (if ds.length + 1 = 1 then 1 else 0) =
      (es ++ [({ i with descs := ds ++ [d] } : CheckedInstr abi)]).length := by
  have hold := h.count
  rw [List.length_append, List.length_singleton]
  split_ifs at hold with hds
  · rw [hold, hds]
    rfl
  · have hne : ds.length ≠ 0 := fun hz => hds (List.length_eq_zero_iff.mp hz)
    rw [if_neg (by omega), hold, List.length_append, List.length_singleton]

/-- With room the description is added to the records: `es` are those before, and `ds` the
descriptions that the instruction has there already. -/
lemma Stands.write (d : ErrorDesc abi)
    (h : Stands limit s (if ds = [] then es else es ++ [{ i with descs := ds }]) false)
    (hnum : ds.length + 1 < 2 ^ 32) (hroom : s.HasRoom limit (i.stepSize (ds.length + 1))) :
    Stands limit (dumpErrorInfo limit i (areaBytes es).length (s, ds.length) d).1
      (es ++ [{ i with descs := ds ++ [d] }]) false := by
  have hmod : (ds.length + 1) % 2 ^ 32 = ds.length + 1 := Nat.mod_eq_of_lt hnum
  rw [dumpErrorInfo]
  simp only [hmod]
  rw [if_pos hroom]
  have hoffset := h.offset_next d
  obtain ⟨good, bad, hdumps, hlen, hgood, -, hbad⟩ := h.dumps
  have hnone : bad = [] := by
    by_contra hne
    cases hbad.mpr hne
  have htag : (bytesOf typeSize onlineError).length = typeSize := length_bytesOf _ _
  have hlimit := hroom.1
  refine ⟨hoffset, h.count_next d, ?_, fun _ => ?_, by simp, ?_, fun _ => ?_,
    ⟨good ++ [⟨true, tagWrite (areaBytes es).length ::
      i.errorWrites (areaBytes es).length (ds.length + 1) d⟩], [], ?_, ?_, ?_, by simp, by simp⟩,
    ?_, ?_⟩
  · exact Nat.add_le_add_right h.le _
  · simp only
    rw [h.opened rfl]
  · obtain ⟨hrecords, hdescs⟩ := h.bytes_before
    have hholds := holdsAt_errorWrites i d hrecords hdescs hnum
    rw [areaBytes_concat]
    dsimp only
    exact hholds
  · simp only
    omega
  · rw [hdumps, hnone, List.append_nil, List.append_nil]
  · rw [List.length_append, List.length_singleton, hlen, descCount_concat]
    split_ifs with hds
    · simp [hds]
    · rw [descCount_concat, List.length_append, List.length_singleton]
      ring
  · exact List.forall_mem_append.2 ⟨hgood, List.forall_mem_singleton.2 rfl⟩
  · refine List.forall_mem_append.2 ⟨h.inside, List.forall_mem_singleton.2 fun w hw => ?_⟩
    have hle := writes_le i _ d hnum w hw
    rw [areaBytes_concat, List.length_append] at hoffset
    exact le_max_of_le_left (by omega)
  · refine List.forall_mem_append.2 ⟨h.tag, List.forall_mem_singleton.2 ?_⟩
    exact ⟨_, List.mem_cons_self, htag⟩

end

/-- What a description that fits does to the counter and the offset. -/
lemma dumpErrorInfo_of_room {i : CheckedInstr abi} {n : ℕ} (cacheWriteOffset : ℕ)
    (d : ErrorDesc abi) (hnum : n + 1 < 2 ^ 32) (hroom : s.HasRoom limit (i.stepSize (n + 1))) :
    (dumpErrorInfo limit i cacheWriteOffset (s, n) d).2 = n + 1 ∧
      (dumpErrorInfo limit i cacheWriteOffset (s, n) d).1.head.writeOffset =
        s.head.writeOffset + i.stepSize (n + 1) := by
  have hmod : (n + 1) % 2 ^ 32 = n + 1 := Nat.mod_eq_of_lt hnum
  rw [dumpErrorInfo]
  simp only [hmod]
  rw [if_pos hroom]
  exact ⟨rfl, rfl⟩

lemma Stands.fold_closed (h : Stands limit s es true) (i : CheckedInstr abi)
    {n cacheWriteOffset : ℕ} (hharmless : Harmless s cacheWriteOffset) (ds : List (ErrorDesc abi)) :
    Stands limit (ds.foldl (dumpErrorInfo limit i cacheWriteOffset) (s, n)).1 es true := by
  induction ds generalizing s n with
  | nil => exact h
  | cons d ds ih =>
    have hclosed := h.closed rfl
    obtain ⟨hnext, hharmless'⟩ := h.turn_away (i := i) (n := n) d
      (fun hroom => by have := hroom.2; omega) hharmless
    exact ih hnext hharmless'

lemma Stands.harmless_last {e : CheckedInstr abi} (h : Stands limit s (es ++ [e]) overflow) :
    Harmless s (areaBytes es).length := by
  have hbytes := h.bytes
  rw [areaBytes_concat, holdsAt_append, CheckedInstr.errorBytes, holdsAt_append,
    Nat.zero_add] at hbytes
  refine .inr ⟨hbytes.2.1, ?_⟩
  rw [h.offset, areaBytes_concat, List.length_append, length_errorBytes]
  omega

/-- The descriptions behind the first are appended as long as they fit. -/
lemma Stands.fold_descs {i : CheckedInstr abi} {ds : List (ErrorDesc abi)}
    (h : Stands limit s (es ++ [{ i with descs := ds }]) false) (hne : ds ≠ [])
    (more : List (ErrorDesc abi))
    (hnum : ds.length + (fittedDescs limit s.head.writeOffset more).length < 2 ^ 32) :
    Stands limit
      (more.foldl (dumpErrorInfo limit i (areaBytes es).length) (s, ds.length)).1
      (es ++ [{ i with descs := ds ++ fittedDescs limit s.head.writeOffset more }])
      (decide ((fittedDescs limit s.head.writeOffset more).length ≠ more.length)) := by
  induction more generalizing s ds with
  | nil =>
    rw [fittedDescs, List.append_nil]
    exact h
  | cons d more ih =>
    have hpos := List.length_pos_iff.mpr hne
    have hstep : i.stepSize (ds.length + 1) = abi.kernelErrorDescSize := if_neg (by omega)
    rw [fittedDescs]
    rw [fittedDescs] at hnum
    by_cases hfit : s.head.writeOffset + cacheLineSize + abi.kernelErrorDescSize < limit
    · rw [if_pos hfit, List.length_cons] at hnum
      have hroom : s.HasRoom limit (i.stepSize (ds.length + 1)) :=
        ⟨by rwa [hstep], h.opened rfl⟩
      have hwrite := Stands.write d (by rwa [if_neg hne]) (by omega) hroom
      obtain ⟨hcounter, hoffset⟩ :=
        dumpErrorInfo_of_room (areaBytes es).length d (by omega) hroom
      have hnext := ih hwrite (by simp) (by
        rw [hoffset, hstep, List.length_append, List.length_singleton]
        omega)
      have hpair : dumpErrorInfo limit i (areaBytes es).length (s, ds.length) d =
          ((dumpErrorInfo limit i (areaBytes es).length (s, ds.length) d).1, (ds ++ [d]).length) :=
        Prod.ext rfl (by rw [hcounter, List.length_append, List.length_singleton])
      rw [hoffset, hstep, List.append_assoc, List.singleton_append] at hnext
      rw [if_pos hfit, List.foldl_cons, hpair]
      simpa using hnext
    · -- the counter may have come round, but not to one
      have hno : ¬ s.HasRoom limit (i.stepSize ((ds.length + 1) % 2 ^ 32)) := by
        rw [CheckedInstr.stepSize, if_neg (by omega)]
        exact fun hroom => hfit hroom.1
      obtain ⟨hnext, hharmless⟩ := h.turn_away d hno h.harmless_last
      rw [if_neg hfit, List.append_nil, List.foldl_cons]
      have hclosed := hnext.fold_closed i (n := (dumpErrorInfo limit i (areaBytes es).length
        (s, ds.length) d).2) hharmless more
      simpa using hclosed

lemma Stands.check_closed (h : Stands limit s es true) (i : CheckedInstr abi) :
    Stands limit (s.check limit i) es true :=
  h.fold_closed i (.inl rfl) i.descs

lemma Stands.run_closed (h : Stands limit s es true) (is : List (CheckedInstr abi)) :
    Stands limit (is.foldl (SimtDevice.check limit) s) es true := by
  induction is generalizing s with
  | nil => exact h
  | cons i is ih => exact ih (h.check_closed i)

lemma SimtDevice.check_cons (limit : ℕ) (s : SimtDevice) {i : CheckedInstr abi}
    {d : ErrorDesc abi} {ds : List (ErrorDesc abi)} (hdescs : i.descs = d :: ds) :
    s.check limit i = (ds.foldl (dumpErrorInfo limit i s.head.writeOffset)
      (dumpErrorInfo limit i s.head.writeOffset (s, 0) d)).1 := by
  rw [SimtDevice.check, hdescs, List.foldl_cons]

/-- An instruction whose first description does not fit. -/
lemma Stands.check_unfit (h : Stands limit s es false) {i : CheckedInstr abi} {d : ErrorDesc abi}
    {ds : List (ErrorDesc abi)} (hdescs : i.descs = d :: ds)
    (hfit : ¬ s.head.writeOffset + cacheLineSize + i.stepSize 1 < limit) :
    Stands limit (s.check limit i) es true := by
  have hno : ¬ s.HasRoom limit (i.stepSize ((0 + 1) % 2 ^ 32)) := fun hroom => hfit hroom.1
  obtain ⟨hnext, hharmless⟩ := h.turn_away d hno (.inl rfl)
  rw [s.check_cons limit hdescs]
  exact hnext.fold_closed i hharmless ds

/-- An instruction whose first description fits: the others are appended as long as they do. -/
lemma Stands.check_fit (h : Stands limit s es false) {i : CheckedInstr abi} {d : ErrorDesc abi}
    {ds fit : List (ErrorDesc abi)} (hdescs : i.descs = d :: ds)
    (hfit : s.head.writeOffset + cacheLineSize + i.stepSize 1 < limit)
    (hfitted : fittedDescs limit (s.head.writeOffset + i.stepSize 1) ds = fit)
    (hnum : fit.length + 1 < 2 ^ 32) :
    Stands limit (s.check limit i) (es ++ [{ i with descs := d :: fit }])
      (decide (fit.length ≠ ds.length)) := by
  have hroom : s.HasRoom limit (i.stepSize 1) := ⟨hfit, h.opened rfl⟩
  obtain ⟨hcounter, hoffset⟩ := dumpErrorInfo_of_room s.head.writeOffset d (by omega) hroom
  rw [Nat.zero_add] at hoffset
  have hempty : Stands limit s (if ([] : List (ErrorDesc abi)) = [] then es
      else es ++ [{ i with descs := [] }]) false := by rwa [if_pos rfl]
  have hfirst := hempty.write d (by simp) hroom
  rw [List.nil_append, List.length_nil, ← h.offset] at hfirst
  have hpair : dumpErrorInfo limit i s.head.writeOffset (s, 0) d =
      ((dumpErrorInfo limit i s.head.writeOffset (s, 0) d).1, [d].length) :=
    Prod.ext rfl (by rw [hcounter, List.length_singleton])
  have hrest := hfirst.fold_descs (by simp) ds (by
    rw [hoffset, hfitted, List.length_singleton]
    omega)
  rw [hoffset, hfitted, List.singleton_append, ← h.offset] at hrest
  rw [s.check_cons limit hdescs, hpair]
  exact hrest

/-- Where the next record goes after one with these descriptions. -/
lemma Stands.offset_concat {s' : SimtDevice} {i : CheckedInstr abi} {d : ErrorDesc abi}
    {ds : List (ErrorDesc abi)} (h : Stands limit s es false)
    (h' : Stands limit s' (es ++ [{ i with descs := d :: ds }]) overflow) :
    s'.head.writeOffset =
      s.head.writeOffset + i.stepSize 1 + abi.kernelErrorDescSize * ds.length := by
  rw [h'.offset, areaBytes_concat, List.length_append, ← h.offset, length_errorBytes,
    CheckedInstr.stepSize, if_pos rfl, List.length_cons]
  ring

/-- **The device writes what fits**, up to the first description that does not. -/
lemma Stands.run (h : Stands limit s es false) (is : List (CheckedInstr abi))
    (hnum : ∀ e ∈ fittedErrors limit s.head.writeOffset is, e.descs.length < 2 ^ 32) :
    ∃ overflow, Stands limit (is.foldl (SimtDevice.check limit) s)
      (es ++ fittedErrors limit s.head.writeOffset is) overflow := by
  induction is generalizing s es with
  | nil =>
    rw [fittedErrors, List.append_nil]
    exact ⟨false, h⟩
  | cons i is ih =>
    rw [List.foldl_cons, fittedErrors]
    rw [fittedErrors] at hnum
    cases hdescs : i.descs with
    | nil =>
      rw [hdescs] at hnum
      have hsame : s.check limit i = s := by
        rw [SimtDevice.check, hdescs]
        rfl
      rw [hsame]
      exact ih h hnum
    | cons d ds =>
      rw [hdescs] at hnum
      simp only
      by_cases hfit : s.head.writeOffset + cacheLineSize + i.stepSize 1 < limit
      · simp only [if_pos hfit] at hnum
        generalize hfitted : fittedDescs limit (s.head.writeOffset + i.stepSize 1) ds = fit at *
        have hcheck := h.check_fit hdescs hfit hfitted (hnum _ List.mem_cons_self)
        rw [if_pos hfit]
        by_cases hall : fit.length = ds.length
        · simp only [hall, ne_eq, not_true_eq_false, decide_false] at hcheck
          have hused := h.offset_concat hcheck
          rw [hall] at hused
          rw [if_pos hall, ← hused] at hnum
          obtain ⟨overflow, hrun⟩ := ih hcheck fun e he => hnum e (List.mem_cons_of_mem _ he)
          rw [List.append_assoc, List.singleton_append, hused] at hrun
          refine ⟨overflow, ?_⟩
          rw [if_pos hall]
          exact hrun
        · simp only [ne_eq, hall, not_false_eq_true, decide_true] at hcheck
          rw [if_neg hall]
          exact ⟨true, hcheck.run_closed is⟩
      · rw [if_neg hfit, List.append_nil]
        exact ⟨true, (h.check_unfit hdescs hfit).run_closed is⟩

/-! ### Every description is one call -/

lemma length_dumps_dumpErrorInfo (limit : ℕ) (i : CheckedInstr abi) (cacheWriteOffset n : ℕ)
    (s : SimtDevice) (d : ErrorDesc abi) :
    (dumpErrorInfo limit i cacheWriteOffset (s, n) d).1.dumps.length = s.dumps.length + 1 := by
  rw [dumpErrorInfo]
  simp only
  by_cases hroom : s.HasRoom limit (i.stepSize ((n + 1) % 2 ^ 32))
  · rw [if_pos hroom]
    exact List.length_append
  · rw [if_neg hroom]
    exact List.length_append

lemma length_dumps_fold (limit : ℕ) (i : CheckedInstr abi) (cacheWriteOffset : ℕ)
    (ds : List (ErrorDesc abi)) (sn : SimtDevice × ℕ) :
    (ds.foldl (dumpErrorInfo limit i cacheWriteOffset) sn).1.dumps.length =
      sn.1.dumps.length + ds.length := by
  induction ds generalizing sn with
  | nil => rfl
  | cons d ds ih =>
    obtain ⟨s, n⟩ := sn
    rw [List.foldl_cons, ih, length_dumps_dumpErrorInfo, List.length_cons, Nat.add_assoc,
      Nat.add_comm 1]

lemma length_dumps_run (limit : ℕ) (s : SimtDevice) (is : List (CheckedInstr abi)) :
    (is.foldl (SimtDevice.check limit) s).dumps.length = s.dumps.length + descCount is := by
  induction is generalizing s with
  | nil => rfl
  | cons i is ih =>
    have hcheck := length_dumps_fold limit i s.head.writeOffset i.descs (s, 0)
    rw [List.foldl_cons, ih, SimtDevice.check, hcheck]
    simp only [descCount, List.map_cons, List.sum_cons]
    omega

lemma errorNum_parseSimtErrors_lt (ctx : HostContext) (h : SimtRecordBlockHead) (mem : ℕ → UInt8)
    (n simtOffset : ℕ) {r : KernelErrorRecord}
    (hr : .onlineError r ∈ parseSimtErrors abi ctx h mem n simtOffset) : r.errorNum < 2 ^ 32 := by
  induction n generalizing simtOffset with
  | zero => simp [parseSimtErrors] at hr
  | succ n ih =>
    rw [parseSimtErrors] at hr
    split at hr
    · simp at hr
    · rcases List.mem_cons.mp hr with heq | hr
      · split_ifs at heq
        cases heq
        exact (val_lt _).trans_le (by rw [length_readBytes]; norm_num)
      · split_ifs at hr
        · simp at hr
        · exact ih _ hr

/-- After the first call without room another one may not follow, since it would write. -/
lemma quiet_iff {dumps good bad : List Dump} (hdumps : dumps = good ++ bad)
    (hgood : ∀ c ∈ good, c.room = true) (hbad : ∀ c ∈ bad, c.room = false)
    (hwrites : ∀ c ∈ dumps, c.writes ≠ []) :
    (∀ before c after, dumps = before ++ c :: after → c.room = false →
      ∀ c' ∈ after, c'.writes = []) ↔ bad.length ≤ 1 := by
  constructor
  · intro hquiet
    match bad with
    | [] => exact Nat.zero_le _
    | [_] => exact le_rfl
    | c :: c' :: rest =>
      refine absurd (hquiet good c (c' :: rest) hdumps (hbad c List.mem_cons_self) c'
        List.mem_cons_self) (hwrites c' ?_)
      simp [hdumps]
  · intro hle before c after hsplit hroom c' hc'
    exfalso
    have hmem : c ∈ good := by
      have hlen : before.length < good.length := by
        have hafter := List.length_pos_of_mem hc'
        have := congrArg List.length (hdumps.symm.trans hsplit)
        simp only [List.length_append, List.length_cons] at this
        omega
      have hget : dumps[before.length]? = some c := by simp [hsplit]
      rw [hdumps, List.getElem?_append_left hlen] at hget
      exact List.mem_of_getElem? hget
    rw [hgood c hmem] at hroom
    cases hroom

/-- The host can only return what fitted if the counters have not come round. -/
lemma StreamRight.errorNum_lt {ctx : HostContext} {mem : ℕ → UInt8} {is : List (CheckedInstr abi)}
    (h : StreamRight ctx limit mem is) :
    ∀ e ∈ fittedErrors limit 0 is, e.descs.length < 2 ^ 32 := by
  intro e he
  have hmem : e.hostRecord ∈ (fittedErrors limit 0 is).map CheckedInstr.hostRecord :=
    List.mem_map_of_mem he
  rw [← h.decoded] at hmem
  exact errorNum_parseSimtErrors_lt ctx _ _ _ _ hmem

/-- **The stream of a thread is right** exactly when at most one description has found no room, no
instruction has written 2^32 or more, and the area holds a type if there is any description. -/
theorem streamRight_iff (ctx : HostContext) (limit : ℕ) (mem : ℕ → UInt8)
    (is : List (CheckedInstr abi)) :
    StreamRight ctx limit mem is ↔
      descCount is ≤ descCount (fittedErrors limit 0 is) + 1 ∧
        (∀ e ∈ fittedErrors limit 0 is, e.descs.length < 2 ^ 32) ∧
        (descCount is ≠ 0 → typeSize ≤ limit) := by
  by_cases hnum : ∀ e ∈ fittedErrors limit 0 is, e.descs.length < 2 ^ 32
  swap
  · exact iff_of_false (fun h => hnum h.errorNum_lt) fun h => hnum h.2.1
  obtain ⟨overflow, h⟩ := (stands_start limit mem).run is hnum
  have hlen : (SimtDevice.run limit mem is).dumps.length = descCount is :=
    (length_dumps_run limit { mem := mem } is).trans (Nat.zero_add _)
  rw [List.nil_append] at h
  change Stands limit (SimtDevice.run limit mem is) (fittedErrors limit 0 is) overflow at h
  obtain ⟨good, bad, hdumps, hfit, hgood, hbad, -⟩ := h.dumps
  have hsum : descCount is = descCount (fittedErrors limit 0 is) + bad.length := by
    rw [← hlen, hdumps, List.length_append, hfit]
  have hquiet := quiet_iff hdumps hgood hbad fun c hc => by
    obtain ⟨w, hw, -⟩ := h.tag c hc
    exact List.ne_nil_of_mem hw
  constructor
  · intro hright
    refine ⟨?_, hnum, fun hne => ?_⟩
    · have := hquiet.mp hright.quiet
      omega
    · obtain ⟨c, hc⟩ := List.exists_mem_of_length_pos
        (hlen.symm ▸ Nat.pos_of_ne_zero hne : 0 < (SimtDevice.run limit mem is).dumps.length)
      obtain ⟨w, hw, hsize⟩ := h.tag c hc
      have hin := hright.inside c hc w hw
      omega
  · rintro ⟨hone, -, harea⟩
    refine ⟨?_, hquiet.mpr (by omega), fun c hc w hw => ?_⟩
    · rw [parseSimtErrorRecord, h.count]
      refine parseSimtErrors_of_holds ctx h.bytes hnum ?_
      rw [Nat.zero_add, ← h.offset]
      exact h.le
    · have hne : descCount is ≠ 0 := by
        rw [← hlen]
        exact (List.length_pos_of_mem hc).ne'
      exact (h.inside c hc w hw).trans (max_le le_rfl (harea hne))

end

/-! ### An error too many -/

/-- The sizes for a thread whose descriptions have eight bytes. -/
def simtAbi : Abi := { barrierAbi with kernelErrorDescSize := 8 }

/-- An instruction with `n` errors. -/
def faulty (n : ℕ) : CheckedInstr simtAbi :=
  { recordType := 7
    recordType_lt := by decide
    record := List.replicate 16 1
    length_lt := by decide
    descs := List.replicate n ⟨List.replicate 8 2, rfl⟩ }

/-- When the area is full, a type is written for each error that comes. -/
theorem faulty_not_quiet : ¬ StreamRight noContext 100 (fun _ => 0) [faulty 1, faulty 1] := by
  intro h
  have hwrites := h.quiet [] ⟨false, [tagWrite 0]⟩ [⟨false, [tagWrite 0]⟩] rfl rfl _
    List.mem_cons_self
  cases hwrites

end MsSanitizer.KernelRecords
