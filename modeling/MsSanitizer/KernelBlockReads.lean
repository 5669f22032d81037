import MsSanitizer.KernelBlock
import MsSanitizer.SimtEntries
import MsSanitizer.SimtRace

/-!
# What the host reads of a buffer

The host takes the heads, the SIMD records and the SIMT entries of a block from a buffer that a
kernel has filled. `CreateKernelBlock` checks that the SIMD records and the first head of the
entries begin inside of it. What follows is found by the sizes and counts that stand in the buffer.
-/

namespace MsSanitizer.KernelRecords

open ByteWords RecordDefs
open OnlineShadow (DynamicRecord SimtEntryRecord SimtEntryBlockHead Area dynamicRecords recordSize)
open SimtRace (simtThreadMaxSize)

/-! ### The buffer -/

/-- A buffer of the host, with whatever stands behind it in memory. -/
structure Buffer where
  mem : ℕ → UInt8
  memSize : ℕ
  /-- no object is larger -/
  memSize_lt : memSize < 2 ^ 63

def Buffer.u64 (buf : Buffer) (offset : ℕ) : ℕ := val (readBytes buf.mem offset 8)

def Buffer.u16 (buf : Buffer) (offset : ℕ) : ℕ := val (readBytes buf.mem offset 2)

/-- What the compiler makes of the heads: where the `RecordBlockHead` begins, where
`offsetInfo.simtErrorInfo.size` is, and the size of a `SimtRecordBlockHead`. -/
structure HeadLayout where
  recordGlobalHeadSize : ℕ
  simtErrorSizeAt : ℕ
  simtRecordHeadSize : ℕ

/-- Bytes that are read. -/
structure Read where
  offset : ℕ
  size : ℕ
  deriving DecidableEq, Repr

def Read.Inside (buf : Buffer) (r : Read) : Prop := r.offset + r.size ≤ buf.memSize

instance (buf : Buffer) (r : Read) : Decidable (r.Inside buf) :=
  inferInstanceAs (Decidable (_ ≤ _))

/-! ### The block -/

/-- `KernelBlock`, with the SIMT entries: `simtEntryHead` is an offset in the buffer. -/
structure HostBlock where
  simd : KernelBlock
  simtEntryHead : Option ℕ

section
variable (abi : Abi) (l : HeadLayout) (buf : Buffer)

def Buffer.recordBlockHead : RecordBlockHead :=
  { recordCount := buf.u64 l.recordGlobalHeadSize
    recordWriteCount := buf.u64 (l.recordGlobalHeadSize + 8)
    offset := buf.u64 (l.recordGlobalHeadSize + 16)
    writeOffset := buf.u64 (l.recordGlobalHeadSize + 24) }

def Buffer.memInfo : MemInfo :=
  { securityVal := buf.u64 0
    head := buf.recordBlockHead l
    mem := fun i => buf.mem (abi.headSize + i) }

def Buffer.getAllThreadSize : ℕ :=
  (buf.u64 l.simtErrorSizeAt + l.simtRecordHeadSize) % 2 ^ 64 * simtThreadMaxSize % 2 ^ 64

def Buffer.simtEntryStart : ℕ :=
  (abi.headSize + (buf.recordBlockHead l).writeOffset + buf.getAllThreadSize l) % 2 ^ 64

/-- Whether a first `SimtEntryBlockHead` has room behind the areas of the threads. -/
def Buffer.EntryHeadFits : Prop :=
  OnlineShadow.headSize ≤ buf.memSize ∧
    buf.simtEntryStart abi l ≤ buf.memSize - OnlineShadow.headSize

instance : Decidable (buf.EntryHeadFits abi l) := inferInstanceAs (Decidable (_ ∧ _))

/-- `CreateKernelBlock`: what it reads, and the block. -/
def Buffer.createKernelBlock (blockIdx lastRecordType serialNo : ℕ) :
    List Read × Option HostBlock :=
  (if buf.memSize < abi.headSize then [] else [⟨0, abi.headSize⟩],
    (KernelRecords.createKernelBlock abi (buf.memInfo abi l) buf.memSize blockIdx lastRecordType
      serialNo).map fun k =>
      { simd := k
        simtEntryHead :=
          if buf.EntryHeadFits abi l then some (buf.simtEntryStart abi l) else none })

end

/-- `NextSimd`: what it reads, what it returns, and the block after it. -/
def HostBlock.nextSimd (abi : Abi) (ctx : HostContext) (b : HostBlock) :
    List Read × Option KernelRecord × HostBlock :=
  if b.simd.AtEnd then ([], none, { b with simd := { b.simd with lastRecordType := blockFinish } })
  else
    let start := b.simd.simdOffset
    let parsed := b.simd.parseSimdRecord abi ctx
    let reads := [⟨abi.headSize + start, parsed.1 - start⟩]
    match parsed.2 with
    | some (r, k) => (reads, some r, { b with simd := k })
    | none =>
      let code := val (readBytes b.simd.mem start typeSize)
      let serialNo := if newSerialNo b.simd.lastRecordType code then b.simd.serialNo + 1
        else b.simd.serialNo
      (reads, none,
        { b with simd := { b.simd with lastRecordType := blockFinish, serialNo := serialNo } })

/-! ### The entries -/

section
variable (buf : Buffer)

/-- The `SimtEntryBlockHead` at an offset. -/
def Buffer.entryHeadAt (offset : ℕ) : SimtEntryBlockHead :=
  { recordCount := buf.u64 offset
    recordWriteCount := buf.u64 (offset + 8)
    exceedSize := buf.u64 (offset + 16)
    mainScalarPc := buf.u64 (offset + 24)
    threadXDim := buf.u16 (offset + 32)
    threadYDim := buf.u16 (offset + 34)
    threadZDim := buf.u16 (offset + 36) }

/-- The `SimtEntryRecord` at an offset. -/
def Buffer.entryRecordAt (offset : ℕ) : SimtEntryRecord :=
  { addr := buf.u64 offset
    status := buf.u64 (offset + 8)
    size := buf.u16 (offset + 16) }

def Buffer.area : Area := { heads := buf.entryHeadAt, records := buf.entryRecordAt }

/-- What the loop of `ParseSimtEntryRecord` reads for one record, `DecomposeThreadId` included. -/
def Buffer.entryRecordReads (head i : ℕ) : List Read :=
  let record := head + OnlineShadow.headSize + i * recordSize
  let h := buf.entryHeadAt head
  [⟨record, 8⟩, ⟨record + 16, 2⟩, ⟨record + 8, 8⟩, ⟨head + 32, 2⟩, ⟨head + 34, 2⟩] ++
    if h.threadXDim = 0 ∨ h.threadYDim = 0 then [] else [⟨head + 24, 8⟩]

/-- How `ParseSimtEntryRecord` comes back. -/
inductive EntryOutcome
  | noHead
  | parsed (records : List DynamicRecord)
  | lengthError

/-- `ParseSimtEntryRecord`; `reserve` throws for more than `maxSize` records. -/
def HostBlock.parseSimtEntryRecord (maxSize : ℕ) (ctx : OnlineShadow.Context) (b : HostBlock) :
    List Read × EntryOutcome × HostBlock :=
  match b.simtEntryHead with
  | none => ([], .noHead, b)
  | some head =>
    let recordWriteCount := (buf.entryHeadAt head).recordWriteCount
    let headReads := [⟨head + 16, 8⟩, ⟨head + 8, 8⟩]
    if maxSize < recordWriteCount then (headReads, .lengthError, b)
    else
      (headReads ++ (List.range recordWriteCount).flatMap (buf.entryRecordReads head),
        .parsed (dynamicRecords ctx (buf.area.blockAt head)),
        { b with simtEntryHead := some (buf.area.nextHead head % 2 ^ 64) })

end

/-! ### Runs -/

inductive HostCall
  | nextSimd
  | parseSimtEntryRecord
  deriving DecidableEq, Repr

/-- The host, with what it takes from outside. -/
structure Host where
  abi : Abi
  layout : HeadLayout
  ctx : HostContext
  entryCtx : OnlineShadow.Context
  /-- `max_size()` of a vector of `ShadowMemoryRecord` -/
  maxSize : ℕ

section
variable (host : Host) (buf : Buffer)

def Host.call (b : HostBlock) : HostCall → List Read × HostBlock
  | .nextSimd => let r := b.nextSimd host.abi host.ctx; (r.1, r.2.2)
  | .parseSimtEntryRecord =>
    let r := b.parseSimtEntryRecord buf host.maxSize host.entryCtx
    (r.1, r.2.2)

/-- The block after a call of `NextSimd`. -/
def Host.afterSimd (b : HostBlock) : HostBlock := (b.nextSimd host.abi host.ctx).2.2

def Host.reads (b : HostBlock) : List HostCall → List Read
  | [] => []
  | c :: cs => (host.call buf b c).1 ++ Host.reads (host.call buf b c).2 cs

/-- Everything the host reads is inside the buffer, whatever it calls in whatever order, and
`NextSimd` comes to an end. -/
structure Confined (blockIdx lastRecordType serialNo : ℕ) : Prop where
  heads : ∀ r ∈ (buf.createKernelBlock host.abi host.layout blockIdx lastRecordType serialNo).1,
    r.Inside buf
  calls : ∀ b, (buf.createKernelBlock host.abi host.layout blockIdx lastRecordType serialNo).2 =
    some b → ∀ cs, ∀ r ∈ host.reads buf b cs, r.Inside buf
  ends : ∀ b, (buf.createKernelBlock host.abi host.layout blockIdx lastRecordType serialNo).2 =
    some b → ∃ n, (((host.afterSimd^[n] b).nextSimd host.abi host.ctx).2.1) = none

end

/-! ### What has to stand in the buffer -/

/-- The size of the record behind a type, and how much of it is read at once: an error brings its
own length, and only its head is read. -/
def payloadSizes (abi : Abi) (mem : ℕ → UInt8) (offset : ℕ) : Option (ℕ × ℕ) :=
  let code := val (readBytes mem offset typeSize)
  if code = onlineError then
    some (kernelErrorRecordSize + val (readBytes mem (offset + typeSize + 8) 2) +
      val (readBytes mem (offset + typeSize) 4) * abi.kernelErrorDescSize, kernelErrorRecordSize)
  else (RecordType.ofCode code).map fun t =>
    (abi.sizeof (recordTypeFuncMap t), abi.sizeof (recordTypeFuncMap t))

section
variable (abi : Abi) (l : HeadLayout) (buf : Buffer)

/-- Where a SIMD record begins: behind the heads, and behind every record of a known type. -/
inductive RecordStart : ℕ → Prop
  | first : RecordStart 0
  | next {o : ℕ} {sizes : ℕ × ℕ} : RecordStart o → o < (buf.recordBlockHead l).writeOffset →
      payloadSizes abi (buf.memInfo abi l).mem o = some sizes →
      RecordStart (o + typeSize + sizes.1)

/-- Every record that begins before `writeOffset` is complete in the buffer. -/
def SimdComplete : Prop :=
  (buf.recordBlockHead l).recordWriteCount ≠ 0 → ∀ o, RecordStart abi l buf o →
    o < (buf.recordBlockHead l).writeOffset →
      abi.headSize + o + typeSize +
        ((payloadSizes abi (buf.memInfo abi l).mem o).map Prod.snd).getD 0 ≤ buf.memSize

end

/-- The heads of the entries from this one on, each complete in the buffer with its records, come
to one that asks for more records than there can be. -/
inductive EntriesStop (maxSize : ℕ) (buf : Buffer) : ℕ → Prop
  | stop {o : ℕ} : o + 24 ≤ buf.memSize → maxSize < (buf.entryHeadAt o).recordWriteCount →
      EntriesStop maxSize buf o
  | next {o : ℕ} : o + 24 ≤ buf.memSize → (buf.entryHeadAt o).recordWriteCount ≤ maxSize →
      ((buf.entryHeadAt o).recordWriteCount ≠ 0 →
        o + OnlineShadow.headSize + (buf.entryHeadAt o).recordWriteCount * recordSize ≤
          buf.memSize + 6) →
      EntriesStop maxSize buf (buf.area.nextHead o) → EntriesStop maxSize buf o

/-! ### One call -/

lemma parseRecord_sizes (abi : Abi) (ctx : HostContext) (mem : ℕ → UInt8) (o : ℕ) :
    (parseRecord abi ctx mem (o + typeSize) (val (readBytes mem o typeSize))).map
      (fun p => (p.recordSize, p.readSize)) = payloadSizes abi mem o := by
  rw [parseRecord, payloadSizes]
  split_ifs
  · rfl
  · rw [Option.map_map]
    rfl

/-- What `NextSimd` does, by the sizes that stand at its offset. -/
lemma nextSimd_cases (abi : Abi) (ctx : HostContext) (b : HostBlock) :
    ((b.nextSimd abi ctx).2.2.simtEntryHead = b.simtEntryHead ∧
      (b.nextSimd abi ctx).2.2.simd.head = b.simd.head ∧
      (b.nextSimd abi ctx).2.2.simd.mem = b.simd.mem) ∧
    ((b.simd.AtEnd ∧ (b.nextSimd abi ctx).1 = [] ∧ (b.nextSimd abi ctx).2.1 = none ∧
        (b.nextSimd abi ctx).2.2.simd.simdOffset = b.simd.simdOffset) ∨
      (¬ b.simd.AtEnd ∧ payloadSizes abi b.simd.mem b.simd.simdOffset = none ∧
        (b.nextSimd abi ctx).1 = [⟨abi.headSize + b.simd.simdOffset, typeSize⟩] ∧
        (b.nextSimd abi ctx).2.1 = none ∧
        (b.nextSimd abi ctx).2.2.simd.simdOffset = b.simd.simdOffset) ∨
      ∃ sizes, ¬ b.simd.AtEnd ∧ payloadSizes abi b.simd.mem b.simd.simdOffset = some sizes ∧
        (b.nextSimd abi ctx).1 = [⟨abi.headSize + b.simd.simdOffset, typeSize + sizes.2⟩] ∧
        (b.nextSimd abi ctx).2.1 ≠ none ∧
        (b.nextSimd abi ctx).2.2.simd.simdOffset = b.simd.simdOffset + typeSize + sizes.1) := by
  rw [HostBlock.nextSimd]
  by_cases hend : b.simd.AtEnd
  · rw [if_pos hend]
    exact ⟨⟨rfl, rfl, rfl⟩, .inl ⟨hend, rfl, rfl, rfl⟩⟩
  · rw [if_neg hend, KernelBlock.parseSimdRecord]
    have hsizes := parseRecord_sizes abi ctx b.simd.mem b.simd.simdOffset
    cases hp : parseRecord abi ctx b.simd.mem (b.simd.simdOffset + typeSize)
        (val (readBytes b.simd.mem b.simd.simdOffset typeSize)) with
    | none =>
      rw [hp] at hsizes
      refine ⟨⟨rfl, rfl, rfl⟩, .inr (.inl ⟨hend, hsizes.symm, ?_, rfl, rfl⟩)⟩
      simp
    | some p =>
      rw [hp] at hsizes
      refine ⟨⟨rfl, rfl, rfl⟩, .inr (.inr ⟨_, hend, hsizes.symm, ?_, ?_, rfl⟩)⟩
      · simp [Nat.add_assoc]
      · simp

/-- What `ParseSimtEntryRecord` does, by the count in the head it stands at. -/
lemma parseSimtEntryRecord_cases (buf : Buffer) (maxSize : ℕ) (ctx : OnlineShadow.Context)
    (b : HostBlock) :
    (b.simtEntryHead = none ∧ (b.parseSimtEntryRecord buf maxSize ctx).1 = [] ∧
        (b.parseSimtEntryRecord buf maxSize ctx).2.2 = b) ∨
      ∃ o, b.simtEntryHead = some o ∧
        (maxSize < (buf.entryHeadAt o).recordWriteCount ∧
            (b.parseSimtEntryRecord buf maxSize ctx).1 = [⟨o + 16, 8⟩, ⟨o + 8, 8⟩] ∧
            (b.parseSimtEntryRecord buf maxSize ctx).2.2 = b ∨
          (buf.entryHeadAt o).recordWriteCount ≤ maxSize ∧
            (b.parseSimtEntryRecord buf maxSize ctx).1 = [⟨o + 16, 8⟩, ⟨o + 8, 8⟩] ++
              (List.range (buf.entryHeadAt o).recordWriteCount).flatMap (buf.entryRecordReads o) ∧
            (b.parseSimtEntryRecord buf maxSize ctx).2.2 =
              { b with simtEntryHead := some (buf.area.nextHead o % 2 ^ 64) }) := by
  rw [HostBlock.parseSimtEntryRecord]
  cases hhead : b.simtEntryHead with
  | none => exact .inl ⟨rfl, rfl, rfl⟩
  | some o =>
    refine .inr ⟨o, rfl, ?_⟩
    by_cases hmax : maxSize < (buf.entryHeadAt o).recordWriteCount
    · refine .inl ⟨hmax, ?_⟩
      dsimp only
      rw [if_pos hmax]
      exact ⟨rfl, rfl⟩
    · refine .inr ⟨not_lt.mp hmax, ?_⟩
      dsimp only
      rw [if_neg hmax]
      exact ⟨rfl, rfl⟩

/-- **`NextSimd` comes to an end**: every record it returns takes bytes that are left. -/
lemma exists_nextSimd_none (abi : Abi) (ctx : HostContext) (b : HostBlock) :
    ∃ n, ((((fun b => (b.nextSimd abi ctx).2.2)^[n] b).nextSimd abi ctx).2.1) = none := by
  obtain ⟨m, hm⟩ : ∃ m, m = b.simd.head.writeOffset - b.simd.simdOffset := ⟨_, rfl⟩
  induction m using Nat.strong_induction_on generalizing b with
  | _ m ih =>
    obtain ⟨⟨-, hhead, -⟩, hcases⟩ := nextSimd_cases abi ctx b
    obtain ⟨-, -, hnone, -⟩ | ⟨-, -, -, hnone, -⟩ | ⟨sizes, hend, -, -, -, hoffset⟩ := hcases
    · exact ⟨0, hnone⟩
    · exact ⟨0, hnone⟩
    · have hlt : b.simd.simdOffset < b.simd.head.writeOffset := by
        by_contra hle
        exact hend (.inr (not_lt.mp hle))
      have htype : 0 < typeSize := by decide
      obtain ⟨n, hn⟩ := ih _ (by rw [hm, hhead, hoffset]; omega) (b.nextSimd abi ctx).2.2 rfl
      refine ⟨n + 1, ?_⟩
      rw [Function.iterate_succ_apply]
      exact hn

/-! ### The SIMD records of a run -/

section
variable {host : Host} {buf : Buffer} {b : HostBlock}

/-- The block has the head and the bytes of the buffer, and stands where a record begins. -/
structure Standing (host : Host) (buf : Buffer) (b : HostBlock) : Prop where
  head : b.simd.head = buf.recordBlockHead host.layout
  mem : b.simd.mem = (buf.memInfo host.abi host.layout).mem
  start : RecordStart host.abi host.layout buf b.simd.simdOffset

lemma standing_create {blockIdx lastRecordType serialNo : ℕ}
    (h : (buf.createKernelBlock host.abi host.layout blockIdx lastRecordType serialNo).2 = some b) :
    Standing host buf b ∧ b.simd.simdOffset = 0 ∧
      b.simtEntryHead = if buf.EntryHeadFits host.abi host.layout
        then some (buf.simtEntryStart host.abi host.layout) else none := by
  rw [Buffer.createKernelBlock, Option.map_eq_some_iff] at h
  obtain ⟨k, hk, rfl⟩ := h
  rw [KernelRecords.createKernelBlock] at hk
  split_ifs at hk
  obtain rfl := Option.some.inj hk
  exact ⟨⟨rfl, rfl, .first⟩, rfl, rfl⟩

lemma not_atEnd_iff (h : Standing host buf b) :
    ¬ b.simd.AtEnd ↔ (buf.recordBlockHead host.layout).recordWriteCount ≠ 0 ∧
      b.simd.simdOffset < (buf.recordBlockHead host.layout).writeOffset := by
  rw [KernelBlock.AtEnd, h.head, not_or, not_le]

lemma Standing.nextSimd (h : Standing host buf b) :
    Standing host buf (b.nextSimd host.abi host.ctx).2.2 := by
  obtain ⟨⟨-, hhead, hmem⟩, hcases⟩ := nextSimd_cases host.abi host.ctx b
  refine ⟨hhead.trans h.head, hmem.trans h.mem, ?_⟩
  obtain ⟨-, -, -, hoffset⟩ | ⟨-, -, -, -, hoffset⟩ | ⟨sizes, hend, hsizes, -, -, hoffset⟩ := hcases
  · rw [hoffset]
    exact h.start
  · rw [hoffset]
    exact h.start
  · rw [hoffset]
    rw [h.mem] at hsizes
    exact .next h.start ((not_atEnd_iff h).mp hend).2 hsizes

lemma Standing.call (h : Standing host buf b) (c : HostCall) :
    Standing host buf (host.call buf b c).2 := by
  cases c with
  | nextSimd => exact h.nextSimd
  | parseSimtEntryRecord =>
    have hsimd : (b.parseSimtEntryRecord buf host.maxSize host.entryCtx).2.2.simd = b.simd := by
      obtain ⟨-, -, hb⟩ | ⟨o, -, ⟨-, -, hb⟩ | ⟨-, -, hb⟩⟩ :=
        parseSimtEntryRecord_cases buf host.maxSize host.entryCtx b
      · rw [hb]
      · rw [hb]
      · rw [hb]
    rw [Host.call]
    exact ⟨hsimd ▸ h.head, hsimd ▸ h.mem, hsimd ▸ h.start⟩

/-- What `NextSimd` reads at the start of a record. -/
lemma Standing.nextSimd_reads (h : Standing host buf b) (hend : ¬ b.simd.AtEnd) :
    (b.nextSimd host.abi host.ctx).1 = [⟨host.abi.headSize + b.simd.simdOffset, typeSize +
      ((payloadSizes host.abi (buf.memInfo host.abi host.layout).mem b.simd.simdOffset).map
        Prod.snd).getD 0⟩] := by
  obtain ⟨-, ⟨hend', -⟩ | ⟨-, hsizes, hreads, -⟩ | ⟨sizes, -, hsizes, hreads, -⟩⟩ :=
    nextSimd_cases host.abi host.ctx b
  · exact absurd hend' hend
  · rw [hreads, ← h.mem, hsizes]
    rfl
  · rw [hreads, ← h.mem, hsizes]
    rfl

lemma Standing.nextSimd_inside (h : Standing host buf b)
    (hc : SimdComplete host.abi host.layout buf) :
    ∀ r ∈ (b.nextSimd host.abi host.ctx).1, r.Inside buf := by
  intro r hr
  by_cases hend : b.simd.AtEnd
  · rw [HostBlock.nextSimd, if_pos hend] at hr
    cases hr
  · rw [h.nextSimd_reads hend, List.mem_singleton] at hr
    obtain ⟨hcount, hlt⟩ := (not_atEnd_iff h).mp hend
    have hin := hc hcount _ h.start hlt
    rw [hr, Read.Inside]
    dsimp only
    omega

/-! ### The entries of a run -/

lemma nextHead_eq (buf : Buffer) (o : ℕ) :
    buf.area.nextHead o =
      o + OnlineShadow.headSize + (buf.entryHeadAt o).recordWriteCount * recordSize := rfl

/-- No read of a record goes further than the last but six of its bytes. -/
lemma mem_entryRecordReads {o i : ℕ} {r : Read} (h : r ∈ buf.entryRecordReads o i) :
    r.offset + r.size ≤ o + OnlineShadow.headSize + i * recordSize + 18 := by
  have hhead : OnlineShadow.headSize = 64 := rfl
  rw [Buffer.entryRecordReads] at h
  rw [List.mem_append] at h
  rcases h with h | h
  · simp only [List.mem_cons, List.not_mem_nil, or_false] at h
    rcases h with rfl | rfl | rfl | rfl | rfl <;> dsimp only <;> omega
  · split_ifs at h
    · cases h
    · rw [List.mem_singleton.mp h]
      dsimp only
      omega

/-- The last of the records at a head is read in full, but for its padding. -/
lemma last_entryRecordReads (buf : Buffer) (o i : ℕ) :
    ⟨o + OnlineShadow.headSize + i * recordSize + 16, 2⟩ ∈ buf.entryRecordReads o i := by
  rw [Buffer.entryRecordReads]
  simp

/-- A next head that is reached inside the buffer is not beyond the end of the addresses. -/
lemma nextHead_mod {o : ℕ} (ho : o + 24 ≤ buf.memSize)
    (hrecords : (buf.entryHeadAt o).recordWriteCount ≠ 0 → o + OnlineShadow.headSize +
      (buf.entryHeadAt o).recordWriteCount * recordSize ≤ buf.memSize + 6) :
    buf.area.nextHead o % 2 ^ 64 = buf.area.nextHead o := by
  have hlt := buf.memSize_lt
  have hhead : OnlineShadow.headSize = 64 := rfl
  refine Nat.mod_eq_of_lt ?_
  rw [nextHead_eq]
  by_cases hzero : (buf.entryHeadAt o).recordWriteCount = 0
  · rw [hzero]
    omega
  · have := hrecords hzero
    omega

/-- The entries still to come stop inside the buffer. -/
def EntriesInside (host : Host) (buf : Buffer) (b : HostBlock) : Prop :=
  ∀ o, b.simtEntryHead = some o → EntriesStop host.maxSize buf o

lemma EntriesInside.parse (h : EntriesInside host buf b) :
    (∀ r ∈ (b.parseSimtEntryRecord buf host.maxSize host.entryCtx).1, r.Inside buf) ∧
      EntriesInside host buf (b.parseSimtEntryRecord buf host.maxSize host.entryCtx).2.2 := by
  obtain ⟨-, hreads, hb⟩ | ⟨o, ho, ⟨hmax, hreads, hb⟩ | ⟨hmax, hreads, hb⟩⟩ :=
    parseSimtEntryRecord_cases buf host.maxSize host.entryCtx b
  · rw [hreads, hb]
    exact ⟨by simp, h⟩
  · rw [hreads, hb]
    refine ⟨?_, h⟩
    rcases h o ho with ⟨hin, -⟩ | ⟨hin, hle, -, -⟩
    · simp only [List.mem_cons, List.not_mem_nil, or_false, forall_eq_or_imp, forall_eq,
        Read.Inside]
      omega
    · omega
  · rw [hreads, hb]
    rcases h o ho with ⟨-, hlt⟩ | ⟨hin, -, hrecords, hnext⟩
    · omega
    refine ⟨?_, ?_⟩
    · intro r hr
      rcases List.mem_append.mp hr with hr | hr
      · simp only [List.mem_cons, List.not_mem_nil, or_false] at hr
        rcases hr with rfl | rfl <;> rw [Read.Inside] <;> dsimp only <;> omega
      · obtain ⟨i, hi, hr⟩ := List.mem_flatMap.mp hr
        rw [List.mem_range] at hi
        have hle := mem_entryRecordReads hr
        have hall := hrecords (Nat.ne_of_gt (Nat.zero_lt_of_lt hi))
        have hmul : (i + 1) * recordSize ≤ (buf.entryHeadAt o).recordWriteCount * recordSize :=
          Nat.mul_le_mul_right _ hi
        have hsize : recordSize = 24 := rfl
        rw [Nat.succ_mul] at hmul
        rw [Read.Inside]
        omega
    · intro o' ho'
      rw [nextHead_mod hin hrecords] at ho'
      exact Option.some.inj ho' ▸ hnext

/-- A block whose calls all read inside the buffer stands at entries that stop there. -/
lemma entriesStop_of_reads {o : ℕ} (ho : b.simtEntryHead = some o)
    (h : ∀ cs, ∀ r ∈ host.reads buf b cs, r.Inside buf) : EntriesStop host.maxSize buf o := by
  obtain ⟨m, hm⟩ : ∃ m, m = buf.memSize - o := ⟨_, rfl⟩
  induction m using Nat.strong_induction_on generalizing b o with
  | _ m ih =>
    have hread : ∀ r ∈ (b.parseSimtEntryRecord buf host.maxSize host.entryCtx).1,
        r.Inside buf := fun r hr =>
      h [.parseSimtEntryRecord] r (List.mem_append_left _ hr)
    obtain ⟨hnone, -⟩ | ⟨o', ho', hcases⟩ :=
      parseSimtEntryRecord_cases buf host.maxSize host.entryCtx b
    · rw [ho] at hnone
      cases hnone
    obtain rfl : o = o' := by
      rw [ho] at ho'
      exact Option.some.inj ho'
    have hfirst : ⟨o + 16, 8⟩ ∈ (b.parseSimtEntryRecord buf host.maxSize host.entryCtx).1 := by
      rcases hcases with ⟨-, hreads, -⟩ | ⟨-, hreads, -⟩ <;> rw [hreads] <;> simp
    have hin : o + 24 ≤ buf.memSize := hread _ hfirst
    obtain ⟨hmax, -⟩ | ⟨hmax, hreads, hb⟩ := hcases
    · exact .stop hin hmax
    have hsize : recordSize = 24 := rfl
    have hrecords : (buf.entryHeadAt o).recordWriteCount ≠ 0 →
        o + OnlineShadow.headSize + (buf.entryHeadAt o).recordWriteCount * recordSize ≤
          buf.memSize + 6 := by
      intro hne
      obtain ⟨n, hn⟩ := Nat.exists_eq_succ_of_ne_zero hne
      have hlast := hread _ (hreads ▸ List.mem_append_right _ (List.mem_flatMap.mpr
        ⟨n, List.mem_range.mpr (by omega), last_entryRecordReads buf o n⟩))
      rw [Read.Inside] at hlast
      dsimp only at hlast
      rw [hn, Nat.succ_mul]
      omega
    refine .next hin hmax hrecords ?_
    have hhead : OnlineShadow.headSize = 64 := rfl
    refine ih _ ?_ (b := (b.parseSimtEntryRecord buf host.maxSize host.entryCtx).2.2) ?_ ?_ rfl
    · rw [hm, nextHead_eq]
      omega
    · rw [hb, nextHead_mod hin hrecords]
    · intro cs r hr
      exact h (.parseSimtEntryRecord :: cs) r (List.mem_append_right _ hr)

/-! ### Whole runs -/

lemma EntriesInside.nextSimd (h : EntriesInside host buf b) :
    EntriesInside host buf (b.nextSimd host.abi host.ctx).2.2 := by
  intro o ho
  rw [(nextSimd_cases host.abi host.ctx b).1.1] at ho
  exact h o ho

/-- If the records are complete and the entries stop, no call reads beyond the buffer. -/
lemma reads_inside (hc : SimdComplete host.abi host.layout buf) (hb : Standing host buf b)
    (he : EntriesInside host buf b) (cs : List HostCall) :
    ∀ r ∈ host.reads buf b cs, r.Inside buf := by
  induction cs generalizing b with
  | nil => exact fun r hr => absurd hr List.not_mem_nil
  | cons c cs ih =>
    intro r hr
    rcases List.mem_append.mp hr with hr | hr
    · cases c with
      | nextSimd => exact hb.nextSimd_inside hc r hr
      | parseSimtEntryRecord => exact he.parse.1 r hr
    · refine ih (hb.call c) ?_ r hr
      cases c with
      | nextSimd => exact he.nextSimd
      | parseSimtEntryRecord => exact he.parse.2

/-- `NextSimd` comes to every record that begins before `writeOffset`. -/
lemma exists_calls_to (hb : Standing host buf b) (h0 : b.simd.simdOffset = 0)
    (hcount : (buf.recordBlockHead host.layout).recordWriteCount ≠ 0) {o : ℕ}
    (ho : RecordStart host.abi host.layout buf o) :
    ∃ n b', Standing host buf b' ∧ b'.simd.simdOffset = o ∧
      ∀ cs, ∀ r ∈ host.reads buf b' cs,
        r ∈ host.reads buf b (List.replicate n .nextSimd ++ cs) := by
  induction ho with
  | first => exact ⟨0, b, hb, h0, fun cs r hr => hr⟩
  | @next o sizes ho hlt hsizes ih =>
    obtain ⟨n, b', hb', hoffset, hreads⟩ := ih
    obtain ⟨-, ⟨hend, -⟩ | ⟨-, hnone, -⟩ | ⟨sizes', -, hsizes', -, -, hnext⟩⟩ :=
      nextSimd_cases host.abi host.ctx b'
    · exact absurd hend ((not_atEnd_iff hb').mpr ⟨hcount, hoffset ▸ hlt⟩)
    · rw [hb'.mem, hoffset, hsizes] at hnone
      cases hnone
    · rw [hb'.mem, hoffset, hsizes] at hsizes'
      cases hsizes'
      refine ⟨n + 1, (b'.nextSimd host.abi host.ctx).2.2, hb'.nextSimd, by rw [hnext, hoffset],
        fun cs r hr => ?_⟩
      rw [List.replicate_succ', List.append_assoc]
      exact hreads (.nextSimd :: cs) r (List.mem_append_right _ hr)

/-- If no call reads beyond the buffer, the records are complete. -/
lemma simdComplete_of_reads (hb : Standing host buf b) (h0 : b.simd.simdOffset = 0)
    (h : ∀ cs, ∀ r ∈ host.reads buf b cs, r.Inside buf) :
    SimdComplete host.abi host.layout buf := by
  intro hcount o ho hlt
  obtain ⟨n, b', hb', hoffset, hreads⟩ := exists_calls_to hb h0 hcount ho
  have hread := hb'.nextSimd_reads ((not_atEnd_iff hb').mpr ⟨hcount, hoffset ▸ hlt⟩)
  rw [hoffset] at hread
  have hmem := hreads [.nextSimd] _ (List.mem_append_left _ (hread ▸ List.mem_singleton_self _))
  have hin := h _ _ hmem
  rw [Read.Inside] at hin
  dsimp only at hin
  omega

end

/-- **The host reads inside the buffer** exactly when every SIMD record that begins before
`writeOffset` is complete there, and there is no first head of the entries, or one comes to a head
that stops the parser. -/
theorem confined_iff (host : Host) (buf : Buffer) (blockIdx lastRecordType serialNo : ℕ) :
    Confined host buf blockIdx lastRecordType serialNo ↔
      ((buf.createKernelBlock host.abi host.layout blockIdx lastRecordType serialNo).2 ≠ none →
        SimdComplete host.abi host.layout buf ∧
          (buf.EntryHeadFits host.abi host.layout →
            EntriesStop host.maxSize buf (buf.simtEntryStart host.abi host.layout))) := by
  constructor
  · intro h hcreate
    obtain ⟨b, hb⟩ := Option.ne_none_iff_exists'.mp hcreate
    obtain ⟨hstanding, h0, hhead⟩ := standing_create hb
    refine ⟨simdComplete_of_reads hstanding h0 (h.calls b hb), fun hfits => ?_⟩
    rw [if_pos hfits] at hhead
    exact entriesStop_of_reads hhead (h.calls b hb)
  · intro h
    refine ⟨?_, fun b hb cs => ?_, fun b _ => exists_nextSimd_none host.abi host.ctx b⟩
    · intro r hr
      rw [Buffer.createKernelBlock] at hr
      dsimp only at hr
      split_ifs at hr with hsize
      · cases hr
      · rw [List.mem_singleton.mp hr, Read.Inside]
        dsimp only
        omega
    · obtain ⟨hstanding, -, hhead⟩ := standing_create hb
      obtain ⟨hcomplete, hstop⟩ := h (by rw [hb]; simp)
      refine reads_inside hcomplete hstanding (fun o ho => ?_) cs
      rw [hhead] at ho
      split_ifs at ho with hfits
      exact Option.some.inj ho ▸ hstop hfits

/-! ### A buffer that ends with a head -/

/-- A host whose heads have 4096 bytes, with areas of 64 bytes for the threads. -/
def smallHost : Host :=
  { abi := barrierAbi
    layout := ⟨3968, 48, 64⟩
    ctx := noContext
    entryCtx := ⟨0, 0, .aivec⟩
    maxSize := 2 ^ 56 }

/-- Zeros up to the end of the first head of the entries: no record of any kind. -/
def zeroBuffer : Buffer :=
  { mem := fun _ => 0
    memSize := 4096 + 64 * 2048 + 64
    memSize_lt := by norm_num }

/-- The second call of `ParseSimtEntryRecord` reads a head behind the end of the buffer. -/
theorem zeroBuffer_not_confined : ¬ Confined smallHost zeroBuffer 1 0 0 := by
  intro h
  have hread := h.calls _ rfl [.parseSimtEntryRecord, .parseSimtEntryRecord]
    ⟨4096 + 64 * 2048 + 64 + 16, 8⟩ (by decide)
  exact absurd hread (by decide)

end MsSanitizer.KernelRecords
