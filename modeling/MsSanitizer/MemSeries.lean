import MsSanitizer.EventDef
import MsSanitizer.Words

/-!
# The byte ranges of a memory operation

The model of `mem_series.cpp`. An operation repeats a row of blocks; `BlkSeries` walks the
blocks of one repeat and `MemSeries` merges the rows into contiguous intervals of ascending
addresses, with a priority queue that holds the next block of each row. Among equal intervals
the queue of the source may give either row first; here it is the one that has been longer in
the queue.

A row never goes back, so the number of pops is bounded by the number of blocks, which is the
fuel of the loops.
-/

namespace MsSanitizer.MemSeries

open RecordDefs EventDef Words

structure Interval where
  start : ℕ
  stop : ℕ
  deriving DecidableEq, Repr

/-- `BlkSeries`; its current interval is a function of the other fields. -/
structure BlkSeries where
  addr : ℕ
  blockSize : ℕ
  lastBlockSize : ℕ
  blockStride : ℕ
  blockNum : ℕ
  curBlockIdx : ℕ := 0
  deriving DecidableEq, Repr

namespace BlkSeries

/-- `UpdateCurItv`. -/
def curItv (b : BlkSeries) : Interval :=
  let start := add64 b.addr (b.curBlockIdx * b.blockSize * b.blockStride)
  { start := start
    stop := add64 start (if b.curBlockIdx + 1 = b.blockNum then b.lastBlockSize else b.blockSize) }

/-- `Move2NextItv`; `none` when it returns `false`. -/
def move2NextItv (b : BlkSeries) : Option BlkSeries :=
  if b.blockNum ≤ b.curBlockIdx + 1 then none else some { b with curBlockIdx := b.curBlockIdx + 1 }

end BlkSeries

structure IndexedInterval where
  idx : ℕ
  interval : Interval
  deriving DecidableEq, Repr

def greater (lhs rhs : IndexedInterval) : Bool :=
  decide (rhs.interval.start < lhs.interval.start) ||
    (rhs.interval.start == lhs.interval.start && decide (rhs.interval.stop < lhs.interval.stop))

/-- The top of the priority queue: an interval that is not greater than any other. -/
def top : List IndexedInterval → Option IndexedInterval
  | [] => none
  | x :: queue =>
    match top queue with
    | none => some x
    | some y => if greater x y then some y else some x

end MemSeries

open MemSeries in
structure MemSeries where
  repeatSeries : List BlkSeries
  leftMostIntervals : List IndexedInterval

namespace MemSeries

open RecordDefs EventDef Words

/-- The rows of an operation; the stride between them is a 32-bit product. -/
def repeatSeriesOf (op : MemOpInfo) : List BlkSeries :=
  (List.range (max op.repeatTimes 1)).map fun r =>
    { addr := add64 op.addr (r * (op.repeatStride * op.blockSize % 2 ^ 32))
      blockSize := op.blockSize
      lastBlockSize := op.blockSize
      blockStride := op.blockStride
      blockNum := op.blockNum }

/-- The constructor of `MemSeries`. -/
def new (op : MemOpInfo) : MemSeries :=
  { repeatSeries := repeatSeriesOf op
    leftMostIntervals := ((repeatSeriesOf op).take op.repeatTimes).mapIdx fun idx b =>
      { idx := idx, interval := b.curItv } }

/-- An upper bound of the number of pops that are left. -/
def fuel (s : MemSeries) : ℕ :=
  (s.repeatSeries.map BlkSeries.blockNum).sum + s.leftMostIntervals.length

/-- The loop of `GetNextItv`: takes intervals from the queue as long as they extend the current
one, which ends at `extEnd`. -/
def extend : ℕ → MemSeries → ℕ → MemSeries × ℕ
  | 0, s, extEnd => (s, extEnd)
  | n + 1, s, extEnd =>
    match top s.leftMostIntervals with
    | none => (s, extEnd)
    | some cur =>
      if cur.interval.start ≤ extEnd then
        let rest := s.leftMostIntervals.erase cur
        match (s.repeatSeries[cur.idx]?).bind BlkSeries.move2NextItv with
        | some b =>
          extend n
            { repeatSeries := s.repeatSeries.set cur.idx b
              leftMostIntervals := rest ++ [{ idx := cur.idx, interval := b.curItv }] }
            cur.interval.stop
        | none => extend n { s with leftMostIntervals := rest } cur.interval.stop
      else (s, extEnd)

/-- `GetNextItv`; `none` when it returns `false`. -/
def getNextItv (s : MemSeries) : Option (Interval × MemSeries) :=
  match top s.leftMostIntervals with
  | none => none
  | some first =>
    let r := extend s.fuel s first.interval.start
    some ({ start := first.interval.start, stop := r.2 }, r.1)

/-- The loop of `IsMemoryOverlap`, with an interval of each operation at hand. -/
def overlapLoop : ℕ → Interval → MemSeries → Interval → MemSeries → Bool
  | 0, _, _, _, _ => false
  | n + 1, i1, s1, i2, s2 =>
    if i1.start < i2.stop ∧ i2.start < i1.stop then true
    else if i1.stop < i2.stop then
      match s1.getNextItv with
      | none => false
      | some (i1', s1') => overlapLoop n i1' s1' i2 s2
    else
      match s2.getNextItv with
      | none => false
      | some (i2', s2') => overlapLoop n i1 s1 i2' s2'

/-- `IsMemoryOverlap` of two memory operations. -/
def isMemoryOverlap (op1 op2 : MemOpInfo) : Bool :=
  if op1.memType ≠ op2.memType then false
  else
    match (new op1).getNextItv, (new op2).getNextItv with
    | some (i1, s1), some (i2, s2) =>
      overlapLoop ((new op1).fuel + (new op2).fuel) i1 s1 i2 s2
    | _, _ => false

end MemSeries

end MsSanitizer
