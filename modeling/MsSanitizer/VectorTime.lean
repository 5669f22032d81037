import MsSanitizer.SortedEntries

/-!
# Sparse vector clocks

The model of `vector_time.h`, `vector_time.cpp` and of the updates in `vector_clock.cpp`. A
clock has one 32-bit component for every pipe, most of them equal to `1`, so `VectorTime` keeps
only the other ones, by increasing index: up to `INLINE_CAP` of them in an inline array whose
indexes have 16 bits, and otherwise in a vector on the heap. The inline array is modelled by
the list of its first `n` entries.

Components and indexes are naturals; the one sum that can leave 32 bits, in `UpdateLogicTime`,
is reduced.
-/

namespace MsSanitizer

/-- `VectorTime`: `inl` is the used part of `idx` and `val`. -/
structure VectorTime where
  heap : Bool := false
  inl : List (ℕ × ℕ) := []
  heapEntries : List (ℕ × ℕ) := []
  deriving DecidableEq, Repr

namespace VectorTime

open SortedEntries

def inlineCap : ℕ := 48

def uint16Max : ℕ := 65535

def empty (t : VectorTime) : Bool := t.inl.isEmpty && t.heapEntries.isEmpty

/-- The stored components, in either representation. -/
def entries (t : VectorTime) : List (ℕ × ℕ) := if t.heap then t.heapEntries else t.inl

/-- What a binary search of the inline array ends with: the position of the index, or the
position at which to insert it. -/
inductive Probe where
  | found (m : ℕ)
  | insertAt (pos : ℕ)
  deriving DecidableEq, Repr

/-- The binary search of `Get` and `Set`, from bounds `lo` and `hi` on. -/
def search (l : List (ℕ × ℕ)) (i : ℕ) (lo hi : ℤ) : Probe :=
  if lo ≤ hi then
    if (l.getD ((lo + hi) / 2).toNat (0, 0)).1 = i then .found ((lo + hi) / 2).toNat
    else if (l.getD ((lo + hi) / 2).toNat (0, 0)).1 < i then search l i ((lo + hi) / 2 + 1) hi
    else search l i lo ((lo + hi) / 2 - 1)
  else .insertAt lo.toNat
termination_by (hi + 1 - lo).toNat
decreasing_by all_goals omega

def get (t : VectorTime) (i : ℕ) : ℕ :=
  if t.heap then
    match t.heapEntries[lowerBound t.heapEntries i]? with
    | some e => if e.1 = i then e.2 else 1
    | none => 1
  else if uint16Max < i then 1
  else match search t.inl i 0 (t.inl.length - 1) with
    | .found m => (t.inl.getD m (0, 0)).2
    | .insertAt _ => 1

/-- `MigrateToHeap`, also written out twice in `Set`. -/
def migrateToHeap (t : VectorTime) : VectorTime :=
  if t.heap then t
  else { heap := true, inl := [], heapEntries := t.heapEntries ++ t.inl }

/-- The end of `Set`: the insertion into the vector on the heap. -/
def setHeap (t : VectorTime) (i v : ℕ) : VectorTime :=
  match t.heapEntries[lowerBound t.heapEntries i]? with
  | some e =>
    if e.1 = i then
      if e.2 < v then
        { t with heapEntries := t.heapEntries.set (lowerBound t.heapEntries i) (e.1, v) }
      else t
    else { t with heapEntries := t.heapEntries.insertIdx (lowerBound t.heapEntries i) (i, v) }
  | none => { t with heapEntries := t.heapEntries.insertIdx (lowerBound t.heapEntries i) (i, v) }

/-- The inline branch of `Set`; a full array moves to the heap first. -/
def setInline (t : VectorTime) (i v : ℕ) : VectorTime :=
  match search t.inl i 0 (t.inl.length - 1) with
  | .found m =>
    if (t.inl.getD m (0, 0)).2 < v then
      { t with inl := t.inl.set m ((t.inl.getD m (0, 0)).1, v) }
    else t
  | .insertAt pos =>
    if t.inl.length < inlineCap then { t with inl := t.inl.insertIdx pos (i % 2 ^ 16, v) }
    else setHeap (migrateToHeap t) i v

/-- `Set`: component `i` becomes the larger of its value and `v`. -/
def set (t : VectorTime) (i v : ℕ) : VectorTime :=
  if v ≤ 1 then t
  else if t.heap then setHeap t i v
  else if uint16Max < i then setHeap (migrateToHeap t) i v
  else setInline t i v

/-- `EqualTo`: every stored component is the other clock's. -/
def equalTo (t o : VectorTime) : Bool := t.entries.all fun e => o.get e.1 == e.2

/-- `operator==`. -/
def eq (t o : VectorTime) : Bool := equalTo t o && equalTo o t

/-- The components of a dense vector that are not `1`, with their indexes from `i` on. -/
def kept : List ℕ → ℕ → List (ℕ × ℕ)
  | [], _ => []
  | v :: full, i => if v ≠ 1 then (i, v) :: kept full (i + 1) else kept full (i + 1)

/-- `FromFull`. Its loops count with a 32-bit index, so they do not end on a longer vector. -/
def fromFull (full : List ℕ) : Option VectorTime :=
  if 2 ^ 32 ≤ full.length then none
  else if (kept full 0).length ≤ inlineCap ∧ ∀ e ∈ kept full 0, e.1 ≤ uint16Max then
    some { inl := (kept full 0).map fun e => (e.1 % 2 ^ 16, e.2) }
  else some { heap := true, heapEntries := kept full 0 }

/-- `MergeInline`: both clocks are inline and so is the result; `none` when it returns
`false`. -/
def mergeInline (out inp : VectorTime) : Option VectorTime :=
  if out.heap || inp.heap || decide (inlineCap < out.inl.length + inp.inl.length) then none
  else some { out with inl := merge out.inl inp.inl }

/-- The first loop of `MergeHeap`: the length of the result. -/
def resultCount : List (ℕ × ℕ) → List (ℕ × ℕ) → ℕ
  | x :: a, y :: b =>
    resultCount (if x.1 ≤ y.1 then a else x :: a) (if y.1 ≤ x.1 then b else y :: b) + 1
  | [], b => b.length
  | a, [] => a.length
termination_by a b => a.length + b.length
decreasing_by
  split_ifs <;> simp only [List.length_cons] <;> omega

/-- The other loops of `MergeHeap`: from the back and in place, with `i` entries of the vector
and `j` entries of `inp` left, the result written from position `k` on. -/
def mergeBack (inp : List (ℕ × ℕ)) (arr : List (ℕ × ℕ)) : ℕ → ℕ → ℕ → List (ℕ × ℕ)
  | i + 1, j + 1, k =>
    if (inp.getD j (0, 0)).1 < (arr.getD i (0, 0)).1 then
      mergeBack inp (arr.set (k - 1) (arr.getD i (0, 0))) i (j + 1) (k - 1)
    else if (arr.getD i (0, 0)).1 < (inp.getD j (0, 0)).1 then
      mergeBack inp (arr.set (k - 1) (inp.getD j (0, 0))) (i + 1) j (k - 1)
    else
      mergeBack inp (arr.set (k - 1) ((arr.getD i (0, 0)).1,
        max (arr.getD i (0, 0)).2 (inp.getD j (0, 0)).2)) i j (k - 1)
  | i + 1, 0, k => mergeBack inp (arr.set (k - 1) (arr.getD i (0, 0))) i 0 (k - 1)
  | 0, j + 1, k => mergeBack inp (arr.set (k - 1) (inp.getD j (0, 0))) 0 j (k - 1)
  | 0, 0, _ => arr
termination_by i j _ => i + j

/-- `MergeHeap`: the vector is grown to the length of the result, then merged in place. -/
def mergeHeap (out inp : VectorTime) : VectorTime :=
  let count := resultCount out.heapEntries inp.entries
  let grown := out.heapEntries ++ List.replicate (count - out.heapEntries.length) (0, 0)
  { out with
    heapEntries := mergeBack inp.entries grown out.heapEntries.length inp.entries.length count }

/-- `MergeMax` of another object; `out.MergeMax(out)` returns at once. -/
def mergeMax (out inp : VectorTime) : VectorTime :=
  if inp.empty then out
  else match mergeInline out inp with
    | some t => t
    | none => mergeHeap (migrateToHeap out) inp

/-- Merging component by component, the other branch of `UpdateVectorTime`. -/
def mergeBySet (inp out : VectorTime) : VectorTime :=
  inp.entries.foldl (fun t e => t.set e.1 e.2) out

def updateLogicTime (t : VectorTime) (pipe : ℕ) : VectorTime :=
  t.set pipe ((t.get pipe + 1) % 2 ^ 32)

/-- The local constant `kLinearMergeMin` of `UpdateVectorTime`. -/
def linearMergeMin : ℕ := 64

def updateVectorTime (inp out : VectorTime) : VectorTime :=
  if linearMergeMin ≤ inp.entries.length then mergeMax out inp else mergeBySet inp out

def isNotHappensBefore (t1 t2 : VectorTime) (t1Pipe t2Pipe : ℕ) : Bool :=
  if t1.get t1Pipe = t2.get t1Pipe then false
  else if t1.get t1Pipe < t2.get t1Pipe then decide (t2.get t2Pipe < t1.get t2Pipe)
  else decide (t1.get t2Pipe < t2.get t2Pipe)

end VectorTime

end MsSanitizer
