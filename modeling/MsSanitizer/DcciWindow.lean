import MsSanitizer.EventDef
import Mathlib.Data.List.Basic
import Mathlib.Tactic.IntervalCases

/-!
# The window of cache flushes

The model of `DoEvents`, `PopWindowRecord` and `NearestDcciDistance` in `race_sanitizer.cpp`. When
missing cache flushes are checked, a record waits in a window for the records after it; then its
scalar accesses get the distance to the nearest `DCCI` that has effect on them, before a read and
after a write.
-/

namespace MsSanitizer

open RecordDefs EventDef

inductive DcciEntireType
  | singleCacheLine | entireDataCache
  deriving DecidableEq, Repr

inductive DcciDstType
  | cacheLineAll | cacheLineUb | cacheLineOut | cacheLineAtomic
  deriving DecidableEq, Repr

structure DcciRecord where
  addr : ℕ := 0
  space : AddressSpace := .gm
  entire : DcciEntireType := .singleCacheLine
  type : DcciDstType := .cacheLineOut
  deriving DecidableEq, Repr

/-- What the window tells apart of the payload of a record. -/
inductive WindowPayload
  | dcci (record : DcciRecord)
  | blockFinish
  | kernelFinish
  | finish
  | other
  deriving DecidableEq, Repr

/-- An event with the field `dcciDistance` of its memory access. -/
structure WindowEvent where
  event : SanEvent
  dcciDistance : ℕ := 0
  deriving DecidableEq, Repr

/-- A kernel record and its events, an entry of `recordWindow_`. -/
structure WindowRecord where
  serialNo : ℕ
  payload : WindowPayload
  events : List WindowEvent := []
  deriving DecidableEq, Repr

def WindowRecord.isFinish (r : WindowRecord) : Bool :=
  match r.payload with
  | .blockFinish | .kernelFinish | .finish => true
  | _ => false

/-- A `DCCI` record, with its serial number. -/
def WindowRecord.dcci? (r : WindowRecord) : Option (ℕ × DcciRecord) :=
  match r.payload with
  | .dcci record => some (r.serialNo, record)
  | _ => none

namespace RaceSanitizer

def maxWindowSize : ℕ := 4

/-- The cache lines of the 910B and of the 950 series. -/
def cacheLineSize (deviceType : DeviceType) : Option ℕ :=
  if 1 < deviceType.code ∧ deviceType.code < 6 then some 256
  else if isAscend95 deviceType then some 64
  else none

def doesDcciHaveEffect (deviceType : DeviceType) (info : MemOpInfo) (dcci : DcciRecord) : Bool :=
  if dcci.type = .cacheLineUb ∨ dcci.space ≠ .gm then false
  else if info.memType ≠ .gm then false
  else if dcci.entire = .entireDataCache then true
  else
    match cacheLineSize deviceType with
    | some size => info.addr / size == dcci.addr / size
    | none => false

/-- `NearestDcciDistance`; a difference of serial numbers is cut to 32 bits. -/
def nearestDcciDistance (deviceType : DeviceType) (serialNo : ℕ) (info : MemOpInfo)
    (aheadDccis afterDccis : List (ℕ × DcciRecord)) : ℕ :=
  let effect := fun d : ℕ × DcciRecord => doesDcciHaveEffect deviceType info d.2
  match info.opType with
  | .read =>
    match aheadDccis.reverse.find? effect with
    | some d => (serialNo + 2 ^ 64 - d.1) % 2 ^ 64 % 2 ^ 32
    | none => 0
  | .write =>
    match afterDccis.find? effect with
    | some d => (d.1 + 2 ^ 64 - serialNo) % 2 ^ 64 % 2 ^ 32
    | none => 0
  | .memcpyBlocks => 0

/-- The memory access of an event of a scalar pipe. -/
def scalarAccess (event : SanEvent) : Option MemOpInfo :=
  match event.info with
  | .mem info => if event.pipe = .s ∨ event.pipe = .sCal then some info else none
  | _ => none

end RaceSanitizer

/-- The window of `RaceSanitizer`; `handed` is what `DoImpl` has got so far. -/
structure RaceSanitizer where
  deviceType : DeviceType
  recordWindow : List WindowRecord := []
  aheadDccis : List (ℕ × DcciRecord) := []
  afterDccis : List (ℕ × DcciRecord) := []
  handed : List WindowRecord := []
  deriving DecidableEq, Repr

namespace RaceSanitizer

/-- The events of a record that leaves the window. -/
def updateEvents (s : RaceSanitizer) (front : WindowRecord) : WindowRecord :=
  { front with
    events := front.events.map fun e =>
      match scalarAccess e.event with
      | some info =>
        { e with
          dcciDistance := nearestDcciDistance s.deviceType front.serialNo info s.aheadDccis
            s.afterDccis }
      | none => e }

def popWindowRecord (s : RaceSanitizer) : RaceSanitizer :=
  match s.recordWindow with
  | [] => s
  | front :: rest =>
    let ahead := s.aheadDccis ++ front.dcci?.toList
    { s with
      handed := s.handed ++ [if front.dcci?.isSome then front else s.updateEvents front]
      aheadDccis :=
        match ahead with
        | d :: ds => if (d.1 + maxWindowSize) % 2 ^ 64 < front.serialNo then ds else d :: ds
        | [] => []
      afterDccis :=
        match s.afterDccis with
        | d :: ds => if d.1 = front.serialNo then ds else d :: ds
        | [] => []
      recordWindow := rest }

/-- `DoEvents` for a kernel record. -/
def doEvents (checkDcci : Bool) (s : RaceSanitizer) (r : WindowRecord) : RaceSanitizer :=
  if !checkDcci then { s with handed := s.handed ++ [r] }
  else
    let s := { s with recordWindow := s.recordWindow ++ [r] }
    if r.isFinish then
      { popWindowRecord^[s.recordWindow.length] s with aheadDccis := [], afterDccis := [] }
    else
      let s := { s with afterDccis := s.afterDccis ++ r.dcci?.toList }
      if maxWindowSize < s.recordWindow.length then s.popWindowRecord else s

/-- `DoEvents` for record after record. -/
def run (checkDcci : Bool) (s : RaceSanitizer) (rs : List WindowRecord) : RaceSanitizer :=
  rs.foldl (doEvents checkDcci) s

/-! ## Records around a record -/

/-- The distance to the first record of a list that is a `DCCI` with effect on an access, counted
from one, and `0` where there is none. -/
def firstDcci (deviceType : DeviceType) (info : MemOpInfo) (rs : List WindowRecord) : ℕ :=
  match rs.findIdx? fun r => r.dcci?.any fun d => doesDcciHaveEffect deviceType info d.2 with
  | some i => i + 1
  | none => 0

/-- The distance to the nearest `DCCI` with effect, among the `n` records before a read and the
`m` records after a write; `before` is in the order of the stream. -/
def nearest (n m : ℕ) (deviceType : DeviceType) (info : MemOpInfo)
    (before after : List WindowRecord) : ℕ :=
  match info.opType with
  | .read => firstDcci deviceType info (before.reverse.take n)
  | .write => firstDcci deviceType info (after.take m)
  | .memcpyBlocks => 0

/-- A record whose scalar accesses have these distances. -/
def withDistances (n m : ℕ) (deviceType : DeviceType) (before after : List WindowRecord)
    (r : WindowRecord) : WindowRecord :=
  { r with
    events := r.events.map fun e =>
      match scalarAccess e.event with
      | some info => { e with dcciDistance := nearest n m deviceType info before after }
      | none => e }

/-- All records of a stream, in order, with the distances of their accesses; `before` are the
records that came before them. -/
def allWithDistances (n m : ℕ) (deviceType : DeviceType) (before : List WindowRecord) :
    List WindowRecord → List WindowRecord
  | [] => []
  | r :: after =>
    withDistances n m deviceType before after r ::
      allWithDistances n m deviceType (before ++ [r]) after

/-- The records of a block: their serial numbers are consecutive and do not come near the end of
64 bits, the last one is a `BLOCK_FINISH` and no other a finish, and a `DCCI` has no events. -/
structure IsBlockStream (first : ℕ) (rs : List WindowRecord) : Prop where
  ends : ∃ body fin, rs = body ++ [fin] ∧ fin.payload = .blockFinish ∧
    ∀ r ∈ body, r.isFinish = false
  serial : ∀ i r, rs[i]? = some r → r.serialNo = first + i
  bound : first + rs.length + maxWindowSize < 2 ^ 64
  noEvents : ∀ r ∈ rs, r.dcci? ≠ none → r.events = []

/-! ## The distances that are found -/

variable {deviceType : DeviceType} {first : ℕ} {rs : List WindowRecord}

/-- The `DCCI` records among some records. -/
def dccis (rs : List WindowRecord) : List (ℕ × DcciRecord) := rs.filterMap WindowRecord.dcci?

lemma dcci?_serialNo {r : WindowRecord} {d : ℕ × DcciRecord} (h : r.dcci? = some d) :
    d.1 = r.serialNo := by
  unfold WindowRecord.dcci? at h
  cases hp : r.payload <;> rw [hp] at h <;> cases h
  rfl

lemma dccis_append (rs rs' : List WindowRecord) : dccis (rs ++ rs') = dccis rs ++ dccis rs' :=
  List.filterMap_append

lemma dccis_cons (r : WindowRecord) (rs : List WindowRecord) :
    dccis (r :: rs) = r.dcci?.toList ++ dccis rs := by
  rw [dccis, List.filterMap_cons]
  cases r.dcci? <;> rfl

/-- A search among the `DCCI` records, where the distance of a record is its place. -/
lemma find?_dccis (dist : ℕ → ℕ) (info : MemOpInfo) (rs : List WindowRecord) (k : ℕ)
    (h : ∀ i r, rs[i]? = some r → dist r.serialNo = k + i + 1) :
    (match (dccis rs).find? fun d => doesDcciHaveEffect deviceType info d.2 with
      | some d => dist d.1
      | none => 0) =
    match rs.findIdx? fun r => r.dcci?.any fun d => doesDcciHaveEffect deviceType info d.2 with
      | some i => k + i + 1
      | none => 0 := by
  induction rs generalizing k with
  | nil => rfl
  | cons r rs ih =>
    have hrest := ih (k + 1) fun i r hr => by
      rw [h (i + 1) r hr]
      omega
    rw [dccis_cons, List.findIdx?_cons]
    cases hd : r.dcci? with
    | none =>
      rw [Option.toList_none, List.nil_append, Option.any_none, if_neg (by simp), hrest]
      cases rs.findIdx? _ with
      | none => rfl
      | some i => exact (by omega : k + 1 + i + 1 = k + (i + 1) + 1)
    | some d =>
      rw [Option.toList_some, List.singleton_append, List.find?_cons, Option.any_some]
      cases doesDcciHaveEffect deviceType info d.2 with
      | true =>
        rw [if_pos rfl]
        dsimp only
        rw [dcci?_serialNo hd, h 0 r rfl]
      | false =>
        rw [if_neg (by simp)]
        dsimp only
        rw [hrest]
        cases rs.findIdx? _ with
        | none => rfl
        | some i => exact (by omega : k + 1 + i + 1 = k + (i + 1) + 1)

/-- `NearestDcciDistance` on the records before and after. -/
lemma nearestDcciDistance_eq {n m serialNo : ℕ} (info : MemOpInfo)
    {before after : List WindowRecord} (hn : n < 2 ^ 32) (hm : m < 2 ^ 32)
    (hserial : serialNo + m < 2 ^ 64)
    (hbefore : ∀ i r, (before.reverse.take n)[i]? = some r → r.serialNo + i + 1 = serialNo)
    (hafter : ∀ i r, (after.take m)[i]? = some r → r.serialNo = serialNo + i + 1) :
    nearestDcciDistance deviceType serialNo info (dccis (before.reverse.take n).reverse)
        (dccis (after.take m)) =
      nearest n m deviceType info before after := by
  unfold nearestDcciDistance nearest firstDcci
  have hreverse : (dccis (before.reverse.take n).reverse).reverse =
      dccis (before.reverse.take n) := by
    rw [dccis, List.filterMap_reverse, List.reverse_reverse, dccis]
  cases info.opType with
  | read =>
    dsimp only
    rw [hreverse]
    have hdist := @find?_dccis deviceType
      (fun x => (serialNo + 2 ^ 64 - x) % 2 ^ 64 % 2 ^ 32) info (before.reverse.take n) 0 ?_
    · simpa only [Nat.zero_add] using hdist
    · intro i r hr
      have hi : i < n := by
        have := (List.getElem?_eq_some_iff.mp hr).1
        rw [List.length_take] at this
        omega
      have := hbefore i r hr
      omega
  | write =>
    dsimp only
    have hdist := @find?_dccis deviceType
      (fun x => (x + 2 ^ 64 - serialNo) % 2 ^ 64 % 2 ^ 32) info (after.take m) 0 ?_
    · simpa only [Nat.zero_add] using hdist
    · intro i r hr
      have hi : i < m := by
        have := (List.getElem?_eq_some_iff.mp hr).1
        rw [List.length_take] at this
        omega
      have := hafter i r hr
      omega
  | memcpyBlocks => rfl

/-! ## The window over a stream -/

/-- The state when the first `k` records have come and the first `j` have left the window. -/
structure Window (deviceType : DeviceType) (rs : List WindowRecord) (j k : ℕ) (s : RaceSanitizer) :
    Prop where
  device : s.deviceType = deviceType
  window : s.recordWindow = (rs.take k).drop j
  ahead : s.aheadDccis = dccis ((rs.take j).drop (j - (maxWindowSize + 1)))
  after : s.afterDccis = dccis ((rs.take k).drop j)
  handed : s.handed =
    (allWithDistances (maxWindowSize + 1) maxWindowSize deviceType [] rs).take j

lemma length_allWithDistances (n m : ℕ) (deviceType : DeviceType) (before rs : List WindowRecord) :
    (allWithDistances n m deviceType before rs).length = rs.length := by
  induction rs generalizing before with
  | nil => rfl
  | cons r rs ih => rw [allWithDistances, List.length_cons, ih, List.length_cons]

lemma getElem?_allWithDistances (n m : ℕ) (deviceType : DeviceType)
    (before rs : List WindowRecord) (j : ℕ) :
    (allWithDistances n m deviceType before rs)[j]? = (rs[j]?).map
      (withDistances n m deviceType (before ++ rs.take j) (rs.drop (j + 1))) := by
  induction rs generalizing before j with
  | nil => simp [allWithDistances]
  | cons r rs ih =>
    cases j with
    | zero => simp [allWithDistances]
    | succ j =>
      rw [allWithDistances, List.getElem?_cons_succ, ih]
      simp

lemma IsBlockStream.serial_of_mem (h : IsBlockStream first rs) {k j : ℕ} {d : ℕ × DcciRecord}
    (hd : d ∈ dccis ((rs.take k).drop j)) : first + j ≤ d.1 ∧ d.1 < first + k := by
  obtain ⟨r, hr, hdcci⟩ := List.mem_filterMap.mp hd
  obtain ⟨i, hi⟩ := List.mem_iff_getElem?.mp hr
  rw [List.getElem?_drop, List.getElem?_take] at hi
  split_ifs at hi with hlt
  rw [dcci?_serialNo hdcci, h.serial _ r hi]
  omega

/-- The front of the queue of earlier records is dropped when it gets too old. -/
lemma IsBlockStream.prune (h : IsBlockStream first rs) {j : ℕ} (hj : j < rs.length) :
    (match dccis ((rs.take (j + 1)).drop (j - (maxWindowSize + 1))) with
      | d :: ds => if (d.1 + maxWindowSize) % 2 ^ 64 < first + j then ds else d :: ds
      | [] => []) = dccis ((rs.take (j + 1)).drop (j + 1 - (maxWindowSize + 1))) := by
  have hbound := h.bound
  -- where no record is too old the queue stays as it is
  have hstays : (match dccis ((rs.take (j + 1)).drop (j - maxWindowSize)) with
      | d :: ds => if (d.1 + maxWindowSize) % 2 ^ 64 < first + j then ds else d :: ds
      | [] => []) = dccis ((rs.take (j + 1)).drop (j - maxWindowSize)) := by
    cases hl : dccis ((rs.take (j + 1)).drop (j - maxWindowSize)) with
    | nil => rfl
    | cons d ds =>
      obtain ⟨hlow, hhigh⟩ := h.serial_of_mem (hl ▸ List.mem_cons_self : d ∈ _)
      refine if_neg ?_
      rw [Nat.mod_eq_of_lt (by omega)]
      omega
  have hnext : j + 1 - (maxWindowSize + 1) = j - maxWindowSize := by omega
  rw [hnext]
  by_cases hold : maxWindowSize + 1 ≤ j
  · have hlt : j - (maxWindowSize + 1) < (rs.take (j + 1)).length := by
      rw [List.length_take]
      omega
    have hsplit := List.drop_eq_getElem_cons hlt
    have hstep : j - (maxWindowSize + 1) + 1 = j - maxWindowSize := by omega
    rw [hstep] at hsplit
    rw [hsplit, dccis_cons]
    cases hd : (rs.take (j + 1))[j - (maxWindowSize + 1)].dcci? with
    | none => exact hstays
    | some d =>
      have hserial : d.1 = first + (j - (maxWindowSize + 1)) := by
        rw [dcci?_serialNo hd]
        refine h.serial _ _ ?_
        rw [List.getElem_take, List.getElem?_eq_getElem]
      refine if_pos ?_
      rw [hserial, Nat.mod_eq_of_lt (by omega)]
      omega
  · have hzero : j - (maxWindowSize + 1) = j - maxWindowSize := by omega
    rw [hzero]
    exact hstays

/-- The front of the queue of later records leaves with its record. -/
lemma IsBlockStream.advance (h : IsBlockStream first rs) {j k : ℕ} (hj : j < k)
    (hk : k ≤ rs.length) :
    (match dccis ((rs.take k).drop j) with
      | d :: ds => if d.1 = first + j then ds else d :: ds
      | [] => []) = dccis ((rs.take k).drop (j + 1)) := by
  have hlt : j < (rs.take k).length := by
    rw [List.length_take]
    omega
  rw [List.drop_eq_getElem_cons hlt, dccis_cons]
  cases hd : (rs.take k)[j].dcci? with
  | none =>
    rw [Option.toList_none, List.nil_append]
    cases hl : dccis ((rs.take k).drop (j + 1)) with
    | nil => rfl
    | cons d ds =>
      obtain ⟨hlow, -⟩ := h.serial_of_mem (hl ▸ List.mem_cons_self : d ∈ _)
      exact if_neg (by omega)
  | some d =>
    refine if_pos ?_
    rw [dcci?_serialNo hd]
    refine h.serial _ _ ?_
    rw [List.getElem_take, List.getElem?_eq_getElem]

lemma Window.updateEvents (hs : IsBlockStream first rs) {j k : ℕ} {s : RaceSanitizer}
    (h : Window deviceType rs j k s) {r : WindowRecord} (hr : rs[j]? = some r)
    (hk : k ≤ rs.length)
    (hjk : k = j + maxWindowSize + 1 ∨ k = rs.length ∧ k ≤ j + maxWindowSize + 1)
    (hj : j < k) (hnone : r.dcci? = none) :
    s.updateEvents r =
      withDistances (maxWindowSize + 1) maxWindowSize deviceType (rs.take j) (rs.drop (j + 1))
        r := by
  have hbound := hs.bound
  have hserial := hs.serial j r hr
  have hlength : (rs.take j).length = j := by
    rw [List.length_take]
    omega
  have hahead : s.aheadDccis =
      dccis (((rs.take j).reverse.take (maxWindowSize + 1)).reverse) := by
    rw [h.ahead, List.take_reverse, List.reverse_reverse, hlength]
  have hafter : s.afterDccis = dccis ((rs.drop (j + 1)).take maxWindowSize) := by
    have hlt : j < (rs.take k).length := by
      rw [List.length_take]
      omega
    have hget : (rs.take k)[j] = r := by
      rw [List.getElem_take]
      exact (List.getElem?_eq_some_iff.mp hr).2
    rw [h.after, List.drop_eq_getElem_cons hlt, dccis_cons, hget, hnone, Option.toList_none,
      List.nil_append, List.drop_take]
    rcases hjk with rfl | ⟨rfl, hle⟩
    · rw [show j + maxWindowSize + 1 - (j + 1) = maxWindowSize by omega]
    · have hrest : (rs.drop (j + 1)).length = rs.length - (j + 1) := List.length_drop
      rw [List.take_of_length_le (by omega), List.take_of_length_le (by omega)]
  have hdist : ∀ info, nearestDcciDistance deviceType r.serialNo info s.aheadDccis s.afterDccis =
      nearest (maxWindowSize + 1) maxWindowSize deviceType info (rs.take j)
        (rs.drop (j + 1)) := by
    intro info
    rw [hahead, hafter]
    refine nearestDcciDistance_eq info (by decide) (by decide) (by omega) ?_ ?_
    · intro i x hx
      have hi := (List.getElem?_eq_some_iff.mp hx).1
      rw [List.length_take, List.length_reverse, hlength] at hi
      rw [List.getElem?_take_of_lt (by omega), List.getElem?_reverse (by omega), hlength,
        List.getElem?_take_of_lt (by omega)] at hx
      rw [hs.serial _ x hx, hserial]
      omega
    · intro i x hx
      have hi := (List.getElem?_eq_some_iff.mp hx).1
      rw [List.length_take] at hi
      rw [List.getElem?_take_of_lt (by omega), List.getElem?_drop] at hx
      rw [hs.serial _ x hx, hserial]
      omega
  unfold RaceSanitizer.updateEvents withDistances
  rw [h.device]
  simp only [hdist]

lemma Window.popWindowRecord (hs : IsBlockStream first rs) {j k : ℕ} {s : RaceSanitizer}
    (h : Window deviceType rs j k s) (hk : k ≤ rs.length) (hj : j < k)
    (hjk : k = j + maxWindowSize + 1 ∨ k = rs.length ∧ k ≤ j + maxWindowSize + 1) :
    Window deviceType rs (j + 1) k s.popWindowRecord := by
  have hlt : j < (rs.take k).length := by
    rw [List.length_take]
    omega
  obtain ⟨r, hr⟩ : ∃ r, rs[j]? = some r := ⟨rs[j], List.getElem?_eq_getElem (by omega)⟩
  have hget : (rs.take k)[j] = r := by
    rw [List.getElem_take]
    exact (List.getElem?_eq_some_iff.mp hr).2
  have hserial := hs.serial j r hr
  have hwindow : s.recordWindow = r :: (rs.take k).drop (j + 1) := by
    rw [h.window, List.drop_eq_getElem_cons hlt, hget]
  have hahead : s.aheadDccis ++ r.dcci?.toList =
      dccis ((rs.take (j + 1)).drop (j - (maxWindowSize + 1))) := by
    have htake : rs.take (j + 1) = rs.take j ++ [r] := by
      rw [List.take_add_one, hr]
      rfl
    rw [h.ahead, htake, List.drop_append_of_le_length (by rw [List.length_take]; omega),
      dccis_append, dccis_cons]
    exact congrArg _ (List.append_nil _).symm
  have hfront : (if r.dcci?.isSome then r else s.updateEvents r) =
      withDistances (maxWindowSize + 1) maxWindowSize deviceType (rs.take j) (rs.drop (j + 1))
        r := by
    cases hd : r.dcci? with
    | none => exact h.updateEvents hs hr hk hjk hj hd
    | some d =>
      have hnil := hs.noEvents r (List.mem_of_getElem? hr) (by rw [hd]; simp)
      rw [withDistances, hnil, List.map_nil, ← hnil]
      rfl
  unfold RaceSanitizer.popWindowRecord
  rw [hwindow]
  refine ⟨h.device, rfl, ?_, ?_, ?_⟩
  · dsimp only
    rw [hahead, hserial]
    exact hs.prune (by omega)
  · dsimp only
    rw [h.after, hserial]
    exact hs.advance hj hk
  · dsimp only
    rw [hfront, h.handed, List.take_add_one, getElem?_allWithDistances, hr]
    rfl

lemma Window.push {j k : ℕ} {s : RaceSanitizer} (h : Window deviceType rs j k s) (hj : j ≤ k)
    {r : WindowRecord} (hr : rs[k]? = some r) :
    Window deviceType rs j (k + 1)
      { s with
        recordWindow := s.recordWindow ++ [r], afterDccis := s.afterDccis ++ r.dcci?.toList } := by
  have hk := (List.getElem?_eq_some_iff.mp hr).1
  have htake : (rs.take (k + 1)).drop j = (rs.take k).drop j ++ [r] := by
    rw [List.take_add_one, hr, Option.toList_some,
      List.drop_append_of_le_length (by rw [List.length_take]; omega)]
  refine ⟨h.device, ?_, h.ahead, ?_, h.handed⟩
  · rw [htake, ← h.window]
  · rw [htake, dccis_append, ← h.after, dccis_cons]
    exact congrArg _ (List.append_nil _).symm

lemma IsBlockStream.window_take (h : IsBlockStream first rs) {k : ℕ} (hk : k + 1 ≤ rs.length) :
    Window deviceType rs (k - maxWindowSize) k (run true { deviceType } (rs.take k)) := by
  induction k with
  | zero => exact ⟨rfl, rfl, rfl, rfl, rfl⟩
  | succ k ih =>
    obtain ⟨r, hr⟩ : ∃ r, rs[k]? = some r := ⟨rs[k], List.getElem?_eq_getElem (by omega)⟩
    have hfinish : r.isFinish = false := by
      obtain ⟨body, fin, rfl, -, hbody⟩ := h.ends
      rw [List.length_append, List.length_singleton] at hk
      rw [List.getElem?_append_left (by omega)] at hr
      exact hbody r (List.mem_of_getElem? hr)
    have hpush := (ih (by omega)).push (Nat.sub_le _ _) hr
    have hrun : run true { deviceType } (rs.take (k + 1)) =
        doEvents true (run true { deviceType } (rs.take k)) r := by
      rw [run, List.take_add_one, hr, Option.toList_some, List.foldl_append]
      rfl
    have hlength : (rs.take (k + 1)).length = k + 1 := by
      rw [List.length_take]
      omega
    have hwindow := congrArg List.length hpush.window
    rw [List.length_drop, hlength] at hwindow
    rw [hrun]
    simp only [doEvents, hfinish, Bool.not_true, Bool.false_eq_true, if_false]
    by_cases hfull : maxWindowSize ≤ k
    · rw [if_pos (by rw [hwindow]; omega)]
      have hpop := hpush.popWindowRecord h (by omega) (by omega) (.inl (by omega))
      rw [show k + 1 - maxWindowSize = k - maxWindowSize + 1 by omega]
      exact hpop
    · rw [if_neg (by rw [hwindow]; omega)]
      rw [show k + 1 - maxWindowSize = k - maxWindowSize by omega]
      exact hpush

lemma Window.iterate (hs : IsBlockStream first rs) {j : ℕ} {s : RaceSanitizer}
    (h : Window deviceType rs j rs.length s) (hj : rs.length ≤ j + maxWindowSize + 1) (m : ℕ)
    (hm : j + m ≤ rs.length) :
    Window deviceType rs (j + m) rs.length (RaceSanitizer.popWindowRecord^[m] s) := by
  induction m with
  | zero => exact h
  | succ m ih =>
    rw [Function.iterate_succ_apply']
    exact (ih (by omega)).popWindowRecord hs le_rfl (by omega) (.inr ⟨rfl, by omega⟩)

/-- What is handed on of a block: all records in order, with distances of up to five records before
a read, and of up to four records after a write. -/
lemma IsBlockStream.handed_run (h : IsBlockStream first rs) :
    (run true { deviceType } rs).handed =
      allWithDistances (maxWindowSize + 1) maxWindowSize deviceType [] rs := by
  obtain ⟨body, fin, hrs, hfin, -⟩ := h.ends
  have hlength : rs.length = body.length + 1 := by
    rw [hrs, List.length_append, List.length_singleton]
  have hr : rs[body.length]? = some fin := by
    rw [hrs, List.getElem?_concat_length]
  have hbody : rs.take body.length = body := by
    rw [hrs, List.take_left' rfl]
  have hstate := @IsBlockStream.window_take deviceType first rs h body.length (by omega)
  have hpush := hstate.push (Nat.sub_le _ _) hr
  rw [hbody] at hpush
  have hnone : fin.dcci? = none := by
    rw [WindowRecord.dcci?, hfin]
  have hisFinish : fin.isFinish = true := by
    rw [WindowRecord.isFinish, hfin]
  rw [hnone, Option.toList_none, List.append_nil, ← hlength] at hpush
  have hwindow := congrArg List.length hpush.window
  rw [List.length_drop, List.take_length] at hwindow
  have hdone := hpush.iterate h (by omega) (rs.length - (body.length - maxWindowSize)) (by omega)
  have hrun : run true { deviceType } rs = doEvents true (run true { deviceType } body) fin := by
    rw [hrs, run, List.foldl_append]
    rfl
  rw [hrun]
  simp only [doEvents, hisFinish, Bool.not_true, Bool.false_eq_true, if_false, if_true]
  dsimp only at hwindow
  rw [hwindow]
  have hhanded := hdone.handed
  rw [show body.length - maxWindowSize + (rs.length - (body.length - maxWindowSize)) = rs.length by
    omega, List.take_of_length_le (length_allWithDistances _ _ _ _ _).le] at hhanded
  exact hhanded

/-! ## One window for reads and writes -/

lemma firstDcci_take (info : MemOpInfo) (l : List WindowRecord) (n : ℕ) :
    firstDcci deviceType info (l.take n) =
      if firstDcci deviceType info l ≤ n then firstDcci deviceType info l else 0 := by
  unfold firstDcci
  rw [List.findIdx?_take]
  cases l.findIdx? _ with
  | none => simp
  | some i =>
    by_cases hi : i < n
    · simp [Option.guard, hi, Nat.succ_le_of_lt hi]
    · simp [Option.guard, hi]

lemma withDistances_eq_iff {n n' m : ℕ} {before after : List WindowRecord} {r : WindowRecord} :
    withDistances n m deviceType before after r = withDistances n' m deviceType before after r ↔
      ∀ e ∈ r.events, ∀ info, scalarAccess e.event = some info →
        nearest n m deviceType info before after = nearest n' m deviceType info before after := by
  simp only [withDistances, WindowRecord.mk.injEq, true_and, List.map_inj_left]
  refine forall₂_congr fun e _ => ?_
  cases scalarAccess e.event with
  | none => simp
  | some info => simp

lemma nearest_succ_eq_iff (n m : ℕ) (info : MemOpInfo) (before after : List WindowRecord) :
    nearest (n + 1) m deviceType info before after = nearest n m deviceType info before after ↔
      (info.opType = .read → firstDcci deviceType info before.reverse ≠ n + 1) := by
  unfold nearest
  cases info.opType with
  | read =>
    simp only [firstDcci_take, forall_const]
    split_ifs <;> omega
  | write => simp
  | memcpyBlocks => simp

end RaceSanitizer

/-- **The window of cache flushes is one record too wide for reads.** In the check of missing
flushes, every record of a block is handed on exactly once and in order, each scalar access with
the distance to its nearest flush among the four records before a read or after a write, if and
only if no read has its nearest flush exactly five records before it. -/
theorem dcci_window_iff (deviceType : DeviceType) (first : ℕ) (rs : List WindowRecord)
    (h : RaceSanitizer.IsBlockStream first rs) :
    (RaceSanitizer.run true { deviceType } rs).handed =
        RaceSanitizer.allWithDistances RaceSanitizer.maxWindowSize RaceSanitizer.maxWindowSize
          deviceType [] rs ↔
      ∀ j r, rs[j]? = some r → ∀ e ∈ r.events, ∀ info,
        RaceSanitizer.scalarAccess e.event = some info → info.opType = .read →
        RaceSanitizer.firstDcci deviceType info (rs.take j).reverse ≠
          RaceSanitizer.maxWindowSize + 1 := by
  rw [h.handed_run]
  have hext : ∀ l l' : List WindowRecord, l = l' ↔ ∀ j : ℕ, l[j]? = l'[j]? :=
    fun l l' => ⟨fun heq j => by rw [heq], List.ext_getElem?⟩
  rw [hext]
  refine forall_congr' fun j => ?_
  rw [RaceSanitizer.getElem?_allWithDistances, RaceSanitizer.getElem?_allWithDistances]
  cases rs[j]? with
  | none => simp
  | some r =>
    simp only [Option.map_some, Option.some_inj, RaceSanitizer.withDistances_eq_iff,
      RaceSanitizer.nearest_succ_eq_iff, List.nil_append, forall_eq']

/-- A flush, and a read of the same cache line five records later. -/
def lateRead : List WindowRecord :=
  [{ serialNo := 0, payload := .dcci {} }, { serialNo := 1, payload := .other },
    { serialNo := 2, payload := .other }, { serialNo := 3, payload := .other },
    { serialNo := 4, payload := .other },
    { serialNo := 5, payload := .other,
      events := [{ event := { info := .mem { memType := .gm } } }] },
    { serialNo := 6, payload := .blockFinish }]

lemma isBlockStream_lateRead : RaceSanitizer.IsBlockStream 0 lateRead where
  ends := ⟨lateRead.dropLast, { serialNo := 6, payload := .blockFinish }, rfl, rfl, by decide⟩
  serial i r hr := by
    obtain ⟨hi, rfl⟩ := List.getElem?_eq_some_iff.mp hr
    change i < 7 at hi
    interval_cases i <;> rfl
  bound := by decide
  noEvents := by decide

theorem dcci_window_iff_lateRead :
    ¬ ∀ j r, lateRead[j]? = some r → ∀ e ∈ r.events, ∀ info,
      RaceSanitizer.scalarAccess e.event = some info → info.opType = .read →
      RaceSanitizer.firstDcci ⟨2⟩ info (lateRead.take j).reverse ≠
        RaceSanitizer.maxWindowSize + 1 :=
  fun h => absurd ((dcci_window_iff ⟨2⟩ 0 lateRead isBlockStream_lateRead).mpr h) (by decide)

/-- The read gets the distance five. -/
theorem dcci_window_lateRead :
    RaceSanitizer.IsBlockStream 0 lateRead ∧
      (RaceSanitizer.run true { deviceType := ⟨2⟩ } lateRead).handed ≠
        RaceSanitizer.allWithDistances RaceSanitizer.maxWindowSize RaceSanitizer.maxWindowSize ⟨2⟩
          [] lateRead :=
  ⟨isBlockStream_lateRead, by decide⟩

end MsSanitizer
