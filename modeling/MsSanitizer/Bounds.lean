import MsSanitizer.RecordDefs
import MsSanitizer.Segs
import MsSanitizer.Words

/-!
The bounds tables of the address sanitizer.

`DiscreteBounds` keeps the accessible ranges of an address space as a vector sorted by
address; `UnionBounds` keeps one range. An iterator into the vector is the pair of the
ranges before it and the ranges from it on, so that inserting at it, looking at the one
before it and erasing up to it are list operations.
-/

namespace MsSanitizer.Bounds

open MsSanitizer.RecordDefs MsSanitizer.Segs MsSanitizer.Words

structure Range where
  addrL : ℕ
  addrR : ℕ
  permission : ℕ
  deriving DecidableEq, Repr

instance : Segment Range ℕ ℕ where
  lo := Range.addrL
  hi := Range.addrR
  tag := Range.permission

@[simp] lemma lo_eq (r : Range) : Segment.lo r = r.addrL := rfl
@[simp] lemma hi_eq (r : Range) : Segment.hi r = r.addrR := rfl
@[simp] lemma tag_eq (r : Range) : Segment.tag r = r.permission := rfl

def flagsRead : ℕ := 0x01
def flagsWrite : ℕ := 0x02
def defaultPermission : ℕ := flagsRead ||| flagsWrite

def globalMemMask : ℕ := 0xFFFFFFFFFFFF

def overlapSize (range : Range) (addr size : ℕ) : ℕ :=
  if range.addrR ≤ addr ∨ range.addrR ≤ range.addrL then 0
  else if addr < range.addrL then
    let pre := sub64 range.addrL addr
    if pre < size then min (sub64 size pre) (sub64 range.addrR range.addrL) else 0
  else min size (sub64 range.addrR addr)

def hasPermission (permission : ℕ) : AccessType → Bool
  | .read => permission &&& flagsRead != 0
  | .write => permission &&& flagsWrite != 0
  | .memcpyBlocks => permission &&& flagsRead != 0 && permission &&& flagsWrite != 0

/-! ### `DiscreteBounds` -/

/-- The count `CheckOverflow` computes before it builds its message. -/
def overflowBytes (addr size : ℕ) : ℕ :=
  if addr ≤ globalMemMask ∧ sub64 globalMemMask addr < size then
    sub64 size (sub64 globalMemMask addr)
  else if globalMemMask < addr then size
  else 0

def checkOverflow (addr size : ℕ) : ErrorMsg :=
  let badBytes := overflowBytes addr size
  if 0 < badBytes then
    let msg := ErrorMsg.setType {} .illegalAddrWrite .gm addr
    { msg with auxData := { msg.auxData with lineNo := 245, nBadBytes := badBytes } }
  else {}

/-- `std::upper_bound`: the partition point of a predicate that, along a sorted vector,
turns from false to true. -/
abbrev upperBound (pred : Range → Bool) (ranges : List Range) : List Range × List Range :=
  splitAtFirst pred ranges

/-- The loop of `Add` over the ranges right of the new one, with the erasure after it: the
new range and what is left of the others. -/
def absorb (permission : ℕ) (it : Range) : List Range → List Range
  | [] => [it]
  | next :: rest =>
    if it.addrR < next.addrL then it :: next :: rest
    else if it.addrR < next.addrR ∧ next.permission ≠ permission then
      it :: { next with addrL := it.addrR } :: rest
    else absorb permission { it with addrR := max it.addrR next.addrR } rest

def add (addr size permission : ℕ) (ranges : List Range) : ErrorMsg × List Range :=
  let msg := checkOverflow addr size
  if msg.isError then (msg, ranges)
  else
    let (before, after) := upperBound (fun b => addr < b.addrL) ranges
    let new : Range := ⟨addr, add64 addr size, permission⟩
    match before.getLast? with
    | none => ({}, absorb permission new after)
    | some prev =>
      if addr ≤ prev.addrR then
        if prev.permission = permission then
          -- grow the range on the left
          let it := { prev with addrR := max prev.addrR (add64 addr size) }
          ({}, before.dropLast ++ absorb permission it after)
        else
          -- end the range on the left where the new one starts
          ({}, before.dropLast ++ { prev with addrR := addr } :: absorb permission new after)
      else ({}, before ++ absorb permission new after)

/-- The loop of `Remove` with the erasure after it. -/
def eraseUpTo (addrR : ℕ) : List Range → List Range
  | [] => []
  | next :: rest =>
    if addrR ≤ next.addrL then next :: rest
    else if addrR < next.addrR then { next with addrL := addrR } :: rest
    else eraseUpTo addrR rest

def remove (addr size : ℕ) (ranges : List Range) : ErrorMsg × List Range :=
  let msg := checkOverflow addr size
  if msg.isError then (msg, ranges)
  else
    let (before, after) := upperBound (fun b => addr < b.addrR) ranges
    match after with
    | [] => ({}, before)
    | it :: rest =>
      if it.addrL < addr then
        ({}, before ++ { it with addrR := addr } :: eraseUpTo (add64 addr size) (it :: rest))
      else ({}, before ++ eraseUpTo (add64 addr size) (it :: rest))

/-- The loop of `SetPermission`. -/
def retag (addrR permission : ℕ) : List Range → List Range
  | [] => []
  | it :: rest =>
    if addrR ≤ it.addrL then it :: rest
    else if addrR < it.addrR then
      ⟨it.addrL, addrR, permission⟩ :: { it with addrL := addrR } :: rest
    else { it with permission := permission } :: retag addrR permission rest

def setPermission (addr size permission : ℕ) (ranges : List Range) : ErrorMsg × List Range :=
  let msg := checkOverflow addr size
  if msg.isError then (msg, ranges)
  else
    let (before, after) := upperBound (fun b => addr < b.addrR) ranges
    match after with
    | [] => ({}, before)
    | it :: rest =>
      if it.addrL < addr ∧ permission ≠ it.permission then
        ({}, before ++ { it with addrR := addr } ::
          retag (add64 addr size) permission ({ it with addrL := addr } :: rest))
      else ({}, before ++ retag (add64 addr size) permission (it :: rest))

def badAccess (addr nBadBytes : ℕ) : ErrorMsg :=
  { isError := true, auxData := { badAddr := addr, nBadBytes := nBadBytes } }

def checkAddrOnly (addr : ℕ) (ranges : List Range) : ErrorMsg :=
  match (upperBound (fun b => addr < b.addrR) ranges).2 with
  | [] => badAccess addr 1
  | it :: _ => if addr < it.addrL ∨ it.addrR ≤ addr then badAccess addr 1 else {}

/-- The loop of `Check`: the bytes still bad after the given ranges. -/
def countBad (addr size : ℕ) (accessType : AccessType) : ℕ → List Range → ℕ
  | badBytes, [] => badBytes
  | badBytes, it :: rest =>
    if addr ≤ it.addrL ∧ size ≤ sub64 it.addrL addr then badBytes
    else if hasPermission it.permission accessType then
      countBad addr size accessType (sub64 badBytes (overlapSize it addr size)) rest
    else countBad addr size accessType badBytes rest

def check (addr size : ℕ) (accessType : AccessType) (ranges : List Range) : ErrorMsg :=
  if size = 0 then checkAddrOnly addr ranges
  else
    let badBytes :=
      countBad addr size accessType size (upperBound (fun b => addr < b.addrR) ranges).2
    if 0 < badBytes then badAccess addr badBytes else {}

def hasOverlap (addr size : ℕ) (ranges : List Range) : Bool :=
  if size = 0 ∨ sub64 (2 ^ 64 - 1) size < addr then false
  else (ranges.takeWhile fun r => r.addrL < add64 addr size).any fun r => addr < r.addrR

/-! ### `UnionBounds` -/

/-- The constructor of `UnionBounds`. -/
def unionRange (addr size : ℕ) : Range := ⟨addr, add64 addr size, defaultPermission⟩

def unionCheckAddrOnly (addr : ℕ) (range : Range) : ErrorMsg :=
  if addr < range.addrL ∨ range.addrR ≤ addr then badAccess addr 1 else {}

/-- `UnionBounds::Check`. -/
def unionCheck (addr size : ℕ) (accessType : AccessType) (range : Range) : ErrorMsg :=
  if size = 0 then unionCheckAddrOnly addr range
  else
    let overlap :=
      if hasPermission range.permission accessType then overlapSize range addr size else 0
    if overlap < size then badAccess addr (sub64 size overlap) else {}

/-- `UnionBounds::HasOverlap`. -/
def unionHasOverlap (addr size : ℕ) (range : Range) : Bool :=
  size != 0 && addr ≤ sub64 (2 ^ 64 - 1) size && range.addrL < add64 addr size
    && addr < range.addrR

end MsSanitizer.Bounds
