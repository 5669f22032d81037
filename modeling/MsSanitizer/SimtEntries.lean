import MsSanitizer.OnlineShadowTable
import MsSanitizer.RecordTypes

/-!
# The dumps of the SIMT calls and the host that reads them

A SIMT call on a block dumps the shadow table into the area of the block: once when it ends, and
before that whenever a status that is still to be reported would be overwritten. The host walks
over the SIMD records of the block, and with every `SIMT_CALL` among them it takes one dump from
the area and puts what it holds behind the record. Serial numbers are left out.
-/

namespace MsSanitizer.OnlineShadow

open RecordDefs KernelRecords

/-! ### The device -/

/-- What a SIMT call does to the area: the tables it dumps on the way, and the one at its end. -/
structure Call where
  pc : ℕ
  threadXDim : ℕ
  threadYDim : ℕ
  threadZDim : ℕ
  snapshots : List Table
  final : Table

/-- The part of `BlockInfo` that is about SIMT calls. -/
structure Device where
  area : Area
  simtCallCount : ℕ := 0
  simtCallPcArr : ℕ → ℕ := fun _ => 0

def simtCallPcArrSize : ℕ := 2

def Device.getSimtCallPc (d : Device) : ℕ :=
  d.simtCallPcArr (d.area.simtEndCount % simtCallPcArrSize)

/-- The part of `DumpRecord` for a `SIMT_CALL`. -/
def Device.simtCall (d : Device) (pc : ℕ) : Device :=
  { d with
    simtCallPcArr := Function.update d.simtCallPcArr (d.simtCallCount % simtCallPcArrSize) pc
    simtCallCount := d.simtCallCount + 1 }

def Device.dump (limit : ℕ) (c : Call) (isSimtEnd : Bool) (d : Device) (t : Table) : Device :=
  { d with
    area := (copyShadowMemoryToMemInfo limit
      { mainScalarPc := d.getSimtCallPc
        threadXDim := c.threadXDim
        threadYDim := c.threadYDim
        threadZDim := c.threadZDim } d.area t isSimtEnd).1 }

/-- A dump as it stands in the area. -/
structure Block where
  offset : ℕ
  head : SimtEntryBlockHead
  records : List SimtEntryRecord
  deriving DecidableEq, Repr

def Area.blockAt (a : Area) (offset : ℕ) : Block :=
  ⟨offset, a.heads offset, a.recordsAt offset⟩

/-- Dumps one after the other: the device after them, and the blocks they wrote. -/
def Device.dumps (limit : ℕ) (c : Call) (isSimtEnd : Bool) (d : Device) :
    List Table → Device × List Block
  | [] => (d, [])
  | t :: ts =>
    let d' := d.dump limit c isSimtEnd t
    let rest := d'.dumps limit c isSimtEnd ts
    (rest.1, d'.area.blockAt d.area.simtEntryUseSize :: rest.2)

def Device.call (limit : ℕ) (d : Device) (c : Call) : Device × List Block :=
  let s := (d.simtCall c.pc).dumps limit c false c.snapshots
  let e := s.1.dumps limit c true [c.final]
  (e.1, s.2 ++ e.2)

/-- What a block does: SIMD instructions of all kinds, and SIMT calls. -/
inductive Op (ρ : Type*)
  | simd (r : ρ)
  | simtCall (c : Call)

/-- The device at the end, and for every SIMT call the blocks dumped during it. -/
def Device.run {ρ : Type*} (limit : ℕ) (d : Device) : List (Op ρ) → Device × List (List Block)
  | [] => (d, [])
  | .simd _ :: ops => d.run limit ops
  | .simtCall c :: ops =>
    let s := d.call limit c
    let rest := s.1.run limit ops
    (rest.1, s.2 :: rest.2)

/-! ### The host -/

structure ShadowMemoryRecord where
  addr : ℕ
  size : ℕ
  pc : ℕ
  blockId : ℕ
  threadLoc : SimtThreadLocation
  space : AddressSpace
  accessType : AccessType
  deriving DecidableEq, Repr

/-- A `DYNAMIC_OP` record with the buffer it points to. -/
structure DynamicRecord where
  blockType : BlockType
  buffer : List ShadowMemoryRecord
  deriving DecidableEq, Repr

/-- What the host knows besides the area. -/
structure Context where
  pcStartAddr : ℕ
  blockId : ℕ
  blockType : BlockType

def decomposeThreadId (threadId : ℕ) (h : SimtEntryBlockHead) : SimtThreadLocation :=
  if h.threadXDim = 0 ∨ h.threadYDim = 0 then {}
  else
    { idX := threadId % h.threadXDim
      idY := threadId % (h.threadXDim * h.threadYDim) / h.threadXDim
      idZ := threadId / (h.threadXDim * h.threadYDim)
      mainScalarPc := h.mainScalarPc }

/-- `IsReadStatus`: `READ` and `GLOBAL_READ`. -/
def isReadStatus (memStatus : ℕ) : Bool := memStatus == 2 || memStatus == 1

/-- The body of the loop of `ParseSimtEntryRecord`, with `CalRecordPc` applied. -/
def shadowMemoryRecord (ctx : Context) (h : SimtEntryBlockHead) (r : SimtEntryRecord) :
    ShadowMemoryRecord :=
  { addr := r.addr
    size := r.size
    pc := calRecordPc ctx.pcStartAddr ((r.status >>> 32) &&& 0xFFFF)
    blockId := ctx.blockId
    threadLoc := decomposeThreadId (r.status &&& 0x7FF) h
    space := if (r.status >>> 30) &&& 1 = 0 then .gm else .ub
    accessType := if isReadStatus ((r.status >>> 11) &&& 0xF) then .read else .write }

/-- The dynamic records made of a block: the accesses to UB, then those to GM. -/
def dynamicRecords (ctx : Context) (b : Block) : List DynamicRecord :=
  let records := b.records.map (shadowMemoryRecord ctx b.head)
  let ub := records.filter fun r => r.space = .ub
  let gm := records.filter fun r => r.space ≠ .ub
  (if ub.length > 0 then [⟨ctx.blockType, ub⟩] else []) ++
    (if gm.length > 0 then [⟨ctx.blockType, gm⟩] else [])

def Area.nextHead (a : Area) (head : ℕ) : ℕ :=
  head + headSize + (a.heads head).recordWriteCount * recordSize

/-- `ParseSimtEntryRecord`: the records and the new `simtEntryHead_`, `none` if there is none. -/
def parseSimtEntryRecord (ctx : Context) (a : Area) (simtEntryHead : Option ℕ) :
    Option (List DynamicRecord × ℕ) :=
  simtEntryHead.map fun head => (dynamicRecords ctx (a.blockAt head), a.nextHead head)

inductive HostRecord (ρ : Type*)
  | simd (r : ρ)
  | simtCall (pc : ℕ)
  | dynamicOp (r : DynamicRecord)

/-- The SIMD records of the block, in the order they were dumped. -/
def Op.record {ρ : Type*} : Op ρ → ρ ⊕ ℕ
  | .simd r => .inl r
  | .simtCall c => .inr c.pc

/-- The loop over the SIMD records in `HandleKernelBlock`. -/
def handleKernelBlock {ρ : Type*} (ctx : Context) (a : Area) (simtCallCount : ℕ) :
    Option ℕ → List (ρ ⊕ ℕ) → List (HostRecord ρ)
  | _, [] => []
  | head, .inl r :: rs => .simd r :: handleKernelBlock ctx a simtCallCount head rs
  | head, .inr pc :: rs =>
    .simtCall pc ::
      if a.simtEndCount ≠ simtCallCount then handleKernelBlock ctx a simtCallCount head rs
      else
        match parseSimtEntryRecord ctx a head with
        | none => handleKernelBlock ctx a simtCallCount head rs
        | some (dyn, next) =>
          dyn.map .dynamicOp ++ handleKernelBlock ctx a simtCallCount (some next) rs

/-- The blocks the host takes from the area for the first `n` calls. -/
def Area.taken (a : Area) : ℕ → ℕ → List Block
  | _, 0 => []
  | head, n + 1 => a.blockAt head :: a.taken (a.nextHead head) n

/-! ### What the host should return -/

/-- Every `SIMT_CALL` is followed by the records of the blocks dumped during this call. -/
def attributed {ρ : Type*} (ctx : Context) (limit : ℕ) (d : Device) :
    List (Op ρ) → List (HostRecord ρ)
  | [] => []
  | .simd r :: ops => .simd r :: attributed ctx limit d ops
  | .simtCall c :: ops =>
    let s := d.call limit c
    .simtCall c.pc ::
      ((s.2.flatMap (dynamicRecords ctx)).map .dynamicOp ++ attributed ctx limit s.1 ops)

def calls {ρ : Type*} : List (Op ρ) → ℕ
  | [] => 0
  | .simd _ :: ops => calls ops
  | .simtCall _ :: ops => calls ops + 1

/-- The area before the kernel: nothing in use, whatever it holds. -/
def start (heads : ℕ → SimtEntryBlockHead) (records : ℕ → SimtEntryRecord) : Device :=
  { area := { heads := heads, records := records } }

/-- The host inserts after every `SIMT_CALL` exactly the records of its blocks, and with every
call it takes exactly the blocks that were dumped during it. -/
def Attributed {ρ : Type*} (ctx : Context) (limit : ℕ) (d : Device) (ops : List (Op ρ)) : Prop :=
  let fin := d.run limit ops
  handleKernelBlock ctx fin.1.area fin.1.simtCallCount (some 0) (ops.map Op.record) =
      attributed ctx limit d ops ∧
    (fin.1.area.taken 0 (calls ops)).map (fun b => [b]) = fin.2

/-! ### Blocks stay where they were written -/

/-- What is in use is not written again. -/
structure Frame (a a' : Area) : Prop where
  le : a.simtEntryUseSize ≤ a'.simtEntryUseSize
  heads : ∀ o < a.simtEntryUseSize, a'.heads o = a.heads o
  records : ∀ o < a.simtEntryUseSize, a'.records o = a.records o

lemma Frame.refl (a : Area) : Frame a a := ⟨le_rfl, fun _ _ => rfl, fun _ _ => rfl⟩

lemma Frame.trans {a b c : Area} (h : Frame a b) (h' : Frame b c) : Frame a c where
  le := h.le.trans h'.le
  heads o ho := (h'.heads o (by have := h.le; omega)).trans (h.heads o ho)
  records o ho := (h'.records o (by have := h.le; omega)).trans (h.records o ho)

/-- The loop of a dump counts what it uses, and writes only behind the head. -/
structure LoopInv (records : ℕ → SimtEntryRecord) (base : ℕ) (s : CopyState) : Prop where
  use : s.useSize = base + s.recordWriteCount * recordSize
  below : ∀ o < base, s.records o = records o

lemma copyByte_inv {records : ℕ → SimtEntryRecord} {base : ℕ} {s : CopyState} (limit : ℕ)
    (e : ℕ × ℕ) (h : LoopInv records base s) : LoopInv records base (copyByte limit base s e) := by
  have hpre : base ≤ if s.recordWriteCount > 0
      then base + (s.recordWriteCount - 1) * recordSize else base := by
    split_ifs <;> omega
  unfold copyByte
  by_cases hroom : s.useSize + recordSize ≤ limit
  · rw [if_pos hroom]
    dsimp only
    generalize (if s.recordWriteCount > 0
      then base + (s.recordWriteCount - 1) * recordSize else base) = pre at hpre ⊢
    by_cases hm : canMerge (s.records pre) e
    · rw [if_pos hm]
      refine ⟨h.use, fun o ho => ?_⟩
      dsimp only
      rw [Function.update_of_ne (by omega)]
      exact h.below o ho
    · rw [if_neg hm]
      refine ⟨?_, fun o ho => ?_⟩
      · dsimp only
        rw [h.use, Nat.succ_mul]
        omega
      · dsimp only
        rw [Function.update_of_ne (by omega)]
        exact h.below o ho
  · rw [if_neg hroom]
    exact ⟨h.use, h.below⟩

lemma copyLoop_inv (limit : ℕ) (a : Area) (t : Table) :
    LoopInv a.records (a.simtEntryUseSize + headSize) (copyLoop limit a t) := by
  unfold copyLoop
  refine List.foldlRecOn (entries t) _ ⟨by simp, fun _ _ => rfl⟩ fun s hs e _ => ?_
  exact copyByte_inv limit e hs

section
variable (limit : ℕ) (c : Call) (d : Device)

/-- The area after a dump, by the state its loops end in. -/
lemma dump_area (isSimtEnd : Bool) (t : Table) :
    ∃ info : CallInfo, (d.dump limit c isSimtEnd t).area =
      d.area.close info (copyLoop limit d.area t) isSimtEnd :=
  ⟨_, copy_fst limit _ d.area t isSimtEnd⟩

lemma frame_dump (isSimtEnd : Bool) (t : Table) :
    Frame d.area (d.dump limit c isSimtEnd t).area := by
  have hinv := copyLoop_inv limit d.area t
  obtain ⟨info, harea⟩ := dump_area limit c d isSimtEnd t
  rw [harea]
  refine ⟨?_, fun o ho => ?_, fun o ho => ?_⟩
  · rw [Area.close_useSize, hinv.use]
    omega
  · exact Area.close_heads _ _ _ _ (by omega)
  · rw [Area.close_records]
    exact hinv.below o (by omega)

lemma nextHead_dump (isSimtEnd : Bool) (t : Table) :
    (d.dump limit c isSimtEnd t).area.nextHead d.area.simtEntryUseSize =
      (d.dump limit c isSimtEnd t).area.simtEntryUseSize := by
  have hinv := copyLoop_inv limit d.area t
  obtain ⟨info, harea⟩ := dump_area limit c d isSimtEnd t
  rw [harea, Area.nextHead, Area.close_writeCount, Area.close_useSize, hinv.use]

end

/-- The block before the bytes in use end is read the same later on. -/
lemma Frame.blockAt {a a' : Area} (h : Frame a a') {o : ℕ}
    (ho : a.nextHead o ≤ a.simtEntryUseSize) :
    a'.blockAt o = a.blockAt o ∧ a'.nextHead o = a.nextHead o := by
  unfold Area.nextHead at ho ⊢
  have hhead : a'.heads o = a.heads o := h.heads o (by unfold headSize at ho; omega)
  refine ⟨?_, by rw [hhead]⟩
  unfold Area.blockAt Area.recordsAt
  rw [hhead]
  congr 1
  refine List.map_congr_left fun i hi => ?_
  rw [List.mem_range] at hi
  refine h.records _ ?_
  unfold headSize recordSize at *
  omega

/-! ### A run of calls -/

section
variable (limit : ℕ)

lemma frame_dumps (c : Call) (isSimtEnd : Bool) (d : Device) (ts : List Table) :
    Frame d.area (d.dumps limit c isSimtEnd ts).1.area := by
  induction ts generalizing d with
  | nil => exact Frame.refl _
  | cons t ts ih => exact (frame_dump limit c d isSimtEnd t).trans (ih _)

lemma frame_call (d : Device) (c : Call) : Frame d.area (d.call limit c).1.area :=
  (frame_dumps limit c false (d.simtCall c.pc) c.snapshots).trans
    (frame_dumps limit c true _ [c.final])

lemma frame_run {ρ : Type*} (d : Device) (ops : List (Op ρ)) :
    Frame d.area (d.run limit ops).1.area := by
  induction ops generalizing d with
  | nil => exact Frame.refl _
  | cons op ops ih =>
    cases op with
    | simd r => exact ih d
    | simtCall c => exact (frame_call limit d c).trans (ih _)

lemma length_dumps (c : Call) (isSimtEnd : Bool) (d : Device) (ts : List Table) :
    (d.dumps limit c isSimtEnd ts).2.length = ts.length := by
  induction ts generalizing d with
  | nil => rfl
  | cons t ts ih =>
    simp only [Device.dumps, List.length_cons]
    rw [ih]

/-- A call dumps one block more than it takes snapshots. -/
lemma length_call (d : Device) (c : Call) :
    (d.call limit c).2.length = c.snapshots.length + 1 := by
  unfold Device.call
  simp only [List.length_append, length_dumps, List.length_singleton]

lemma dumps_counts (c : Call) (d : Device) (ts : List Table) :
    (d.dumps limit c false ts).1.area.simtEndCount = d.area.simtEndCount ∧
      (d.dumps limit c false ts).1.simtCallCount = d.simtCallCount := by
  induction ts generalizing d with
  | nil => exact ⟨rfl, rfl⟩
  | cons t ts ih =>
    obtain ⟨h1, h2⟩ := ih (d.dump limit c false t)
    exact ⟨h1, h2⟩

/-- A call is counted once when it begins and once when it ends. -/
lemma call_counts (d : Device) (c : Call) :
    (d.call limit c).1.area.simtEndCount = d.area.simtEndCount + 1 ∧
      (d.call limit c).1.simtCallCount = d.simtCallCount + 1 := by
  obtain ⟨h1, h2⟩ := dumps_counts limit c (d.simtCall c.pc) c.snapshots
  constructor
  · show ((d.simtCall c.pc).dumps limit c false c.snapshots).1.area.simtEndCount + 1 = _
    rw [h1]
    rfl
  · exact h2

lemma run_counts {ρ : Type*} (d : Device) (ops : List (Op ρ))
    (h : d.area.simtEndCount = d.simtCallCount) :
    (d.run limit ops).1.area.simtEndCount = (d.run limit ops).1.simtCallCount := by
  induction ops generalizing d with
  | nil => exact h
  | cons op ops ih =>
    cases op with
    | simd r => exact ih d h
    | simtCall c =>
      obtain ⟨h1, h2⟩ := call_counts limit d c
      exact ih _ (by rw [h1, h2, h])

/-- A call without snapshots dumps one block, and the next call begins behind it. -/
lemma call_single (d : Device) (c : Call) (hc : c.snapshots = []) :
    (d.call limit c).2 = [(d.call limit c).1.area.blockAt d.area.simtEntryUseSize] ∧
      (d.call limit c).1.area.nextHead d.area.simtEntryUseSize =
        (d.call limit c).1.area.simtEntryUseSize := by
  have hcall : d.call limit c = ((d.simtCall c.pc).dump limit c true c.final,
      [((d.simtCall c.pc).dump limit c true c.final).area.blockAt d.area.simtEntryUseSize]) := by
    unfold Device.call
    rw [hc]
    rfl
  rw [hcall]
  exact ⟨rfl, nextHead_dump limit c (d.simtCall c.pc) true c.final⟩

/-- The block of a call without snapshots, read from the area of a later moment. -/
lemma block_later (d : Device) (c : Call) (hc : c.snapshots = []) {a : Area}
    (ha : Frame (d.call limit c).1.area a) :
    (d.call limit c).2 = [a.blockAt d.area.simtEntryUseSize] ∧
      a.nextHead d.area.simtEntryUseSize = (d.call limit c).1.area.simtEntryUseSize := by
  obtain ⟨h1, h2⟩ := call_single limit d c hc
  obtain ⟨h3, h4⟩ := ha.blockAt h2.le
  exact ⟨by rw [h1, h3], by rw [h4, h2]⟩

variable {ρ : Type*}

/-- Without snapshots the host is at the block of a call whenever it comes to the call. -/
lemma handleKernelBlock_eq (ctx : Context) (d : Device) (ops : List (Op ρ))
    (hops : ∀ c, Op.simtCall c ∈ ops → c.snapshots = []) {a : Area} {n : ℕ}
    (ha : Frame (d.run limit ops).1.area a) (hn : a.simtEndCount = n) :
    handleKernelBlock ctx a n (some d.area.simtEntryUseSize) (ops.map Op.record) =
      attributed ctx limit d ops := by
  induction ops generalizing d with
  | nil => rfl
  | cons op ops ih =>
    have hrest : ∀ c, Op.simtCall c ∈ ops → c.snapshots = [] :=
      fun c hc => hops c (List.mem_cons_of_mem _ hc)
    cases op with
    | simd r =>
      simp only [List.map_cons, Op.record, handleKernelBlock, attributed]
      rw [ih d hrest ha]
    | simtCall c =>
      have hframe : Frame (d.call limit c).1.area a := (frame_run limit _ ops).trans ha
      obtain ⟨h1, h2⟩ := block_later limit d c (hops c (List.mem_cons_self ..)) hframe
      simp only [List.map_cons, Op.record, handleKernelBlock, attributed,
        parseSimtEntryRecord, Option.map_some, hn, ne_eq, not_true_eq_false, if_false]
      rw [h2, ih _ hrest ha, h1, List.flatMap_singleton]

lemma taken_eq (d : Device) (ops : List (Op ρ))
    (hops : ∀ c, Op.simtCall c ∈ ops → c.snapshots = []) {a : Area}
    (ha : Frame (d.run limit ops).1.area a) :
    (a.taken d.area.simtEntryUseSize (calls ops)).map (fun b => [b]) = (d.run limit ops).2 := by
  induction ops generalizing d with
  | nil => rfl
  | cons op ops ih =>
    have hrest : ∀ c, Op.simtCall c ∈ ops → c.snapshots = [] :=
      fun c hc => hops c (List.mem_cons_of_mem _ hc)
    cases op with
    | simd r => exact ih d hrest ha
    | simtCall c =>
      have hframe : Frame (d.call limit c).1.area a := (frame_run limit _ ops).trans ha
      obtain ⟨h1, h2⟩ := block_later limit d c (hops c (List.mem_cons_self ..)) hframe
      simp only [calls, Area.taken, List.map_cons, Device.run]
      rw [h2, ih _ hrest ha, h1]

/-- The blocks of a call with snapshots are more than the host takes for it. -/
lemma snapshots_nil (d : Device) (ops : List (Op ρ))
    (h : ∀ bs ∈ (d.run limit ops).2, bs.length = 1) :
    ∀ c, Op.simtCall c ∈ ops → c.snapshots = [] := by
  induction ops generalizing d with
  | nil => exact fun c hc => by cases hc
  | cons op ops ih =>
    cases op with
    | simd r =>
      intro c hc
      rcases List.mem_cons.1 hc with he | hc
      · cases he
      · exact ih d h c hc
    | simtCall c' =>
      intro c hc
      rcases List.mem_cons.1 hc with he | hc
      · have hlen := h (d.call limit c').2 (List.mem_cons_self ..)
        rw [length_call] at hlen
        cases he
        exact List.length_eq_zero_iff.1 (by omega)
      · exact ih _ (fun bs hbs => h bs (List.mem_cons_of_mem _ hbs)) c hc

lemma no_snapshots_of_attributed (ctx : Context) (d : Device) (ops : List (Op ρ))
    (h : Attributed ctx limit d ops) : ∀ c, Op.simtCall c ∈ ops → c.snapshots = [] := by
  refine snapshots_nil limit d ops fun bs hbs => ?_
  rw [← h.2] at hbs
  obtain ⟨b, -, rfl⟩ := List.mem_map.1 hbs
  rfl

/-- **The host attributes the dumps to their calls** if and only if no call takes a snapshot. -/
theorem attribution_exact (ctx : Context) (heads : ℕ → SimtEntryBlockHead)
    (records : ℕ → SimtEntryRecord) (ops : List (Op ρ)) :
    Attributed ctx limit (start heads records) ops ↔
      ∀ c, Op.simtCall c ∈ ops → c.snapshots = [] := by
  constructor
  · exact no_snapshots_of_attributed limit ctx _ ops
  · intro hops
    refine ⟨?_, taken_eq limit (start heads records) ops hops (Frame.refl _)⟩
    exact handleKernelBlock_eq limit ctx (start heads records) ops hops (Frame.refl _)
      (run_counts limit _ ops rfl)

end

/-- A thread reads a byte and then writes it, which takes a snapshot of the table. -/
def readThenWrite : Call :=
  { pc := 0x40
    threadXDim := 32
    threadYDim := 1
    threadZDim := 1
    snapshots := [stored [(0x100, 0x1080000800)]]
    final := stored [(0x100, 0x1480001800)] }

def readOnly : Call :=
  { pc := 0x80
    threadXDim := 32
    threadYDim := 1
    threadZDim := 1
    snapshots := []
    final := stored [(0x200, 0x1080000800)] }

/-- The dump at the end of the first call is left for the second one. -/
theorem snapshot_shifts_dumps :
    ¬ Attributed (ρ := Unit) ⟨0, 0, .aivec⟩ 4096 (start (fun _ => {}) fun _ => {})
      [.simtCall readThenWrite, .simtCall readOnly] := by
  intro h
  have hnil := no_snapshots_of_attributed _ _ _ _ h readThenWrite (List.mem_cons_self ..)
  exact absurd hnil (List.cons_ne_nil _ _)

end MsSanitizer.OnlineShadow
