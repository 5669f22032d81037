import MsSanitizer.AsanAction

/-!
# The scope of the bounds checks

A host record is handled in the scope of its source, and every later record of a kernel in
the scope that the host records leave behind. The scope is saved, switched and restored
around each host record. What is left depends on the last host record that is not bypassed
and on whether an mstx heap is live.
-/

namespace MsSanitizer.ScopeSwitch

open MsSanitizer.RecordDefs MsSanitizer.Words MsSanitizer.AsanAction MsSanitizer.AsanAction.Scopes

/-- What the sanitizer is given once its shadow memory is ready; before that it drops every
record. A host record is a `MEMORY_RECORD`; `DoEvents` and `SetPermission` read the scope. -/
inductive Input
  | memory (record : MemOpRecord)
  /-- A record of a kernel with its events. -/
  | kernel
  /-- A `REGION_PERMISSION` record. -/
  | permission
  | ipc
  deriving DecidableEq, Repr

/-- The host record that an input hands to `DoMemOpRecord`. One of type
`GM_ADDR_OUT_OF_BOUND` is only reported. -/
def Input.handled : Input → Option MemOpRecord
  | .memory record => if record.type = .gmAddrOutOfBound then none else some record
  | _ => none

/-- The scope that `ScopeDoAction` and `SetPermission` see. -/
def scopeUsed (s : Scopes) (i : Input) : BoundsCheckScope :=
  match i.handled with
  | some record => (s.beforeScopeSwitch record).scope
  | none => s.scope

/-- `CheckRecordBeforeProcess` and `DoEvents`, as far as they change the scope; the actions
of `ScopeDoAction` do not. -/
def step (s : Scopes) (i : Input) : Scopes :=
  match i.handled with
  | some record => (s.beforeScopeSwitch record).afterScopeSwitch record
  | none => s

def run (l : List Input) : Scopes := l.foldl step {}

lemma run_concat (l : List Input) (i : Input) : run (l ++ [i]) = step (run l) i := by
  simp [run]

def liveHeaps (s : Scopes) : Set ℕ := {a | a ∈ s.mstxHeapCacheMap}

/-- The host records of a run that are handled and not bypassed. -/
def hostRecords (l : List Input) : List MemOpRecord :=
  (l.filterMap Input.handled).filter fun record => record.infoSrc != .bypass

def lastHost (l : List Input) : Option MemOpRecord := (hostRecords l).getLast?

lemma lastHost_concat_none (l : List Input) {i : Input} (h : i.handled = none) :
    lastHost (l ++ [i]) = lastHost l := by
  simp [lastHost, hostRecords, h]

lemma lastHost_concat_bypass (l : List Input) {i : Input} {record : MemOpRecord}
    (h : i.handled = some record) (hb : record.infoSrc = .bypass) :
    lastHost (l ++ [i]) = lastHost l := by
  simp [lastHost, hostRecords, h, hb]

lemma lastHost_concat_other (l : List Input) {i : Input} {record : MemOpRecord}
    (h : i.handled = some record) (hb : record.infoSrc ≠ .bypass) :
    lastHost (l ++ [i]) = some record := by
  simp [lastHost, hostRecords, h, hb]

lemma lastHost_ne_bypass {l : List Input} {record : MemOpRecord} (h : lastHost l = some record) :
    record.infoSrc ≠ .bypass := by
  have hmem := List.mem_of_getLast? h
  simpa using (List.mem_filter.mp hmem).2

/-- The scope that is left by the last host record. -/
def scopeLeft (noHeaps : Bool) : Option MemOpRecord → BoundsCheckScope
  | none => .runtime
  | some record =>
    if record.infoSrc = .extra ∧ noHeaps = false then .runtime
    else if (record.infoSrc = .extra ∨ record.infoSrc = .manual) ∧ record.type = .free then
      .runtime
    else memInfoToScope record.infoSrc

/-! ### One record -/

lemma updateHeapInfo_bypass {record : MemOpRecord} (h : record.infoSrc = .bypass)
    (cache : Std.TreeMap ℕ ℕ) : updateHeapInfo cache record = cache := by
  rw [updateHeapInfo, if_pos (by rw [h]; decide)]

/-- A bypassed record is handled between saving the scope and restoring it. -/
lemma switch_bypass {record : MemOpRecord} (h : record.infoSrc = .bypass) (s : Scopes) :
    ((s.beforeScopeSwitch record).afterScopeSwitch record).scope = s.scope ∧
      ((s.beforeScopeSwitch record).afterScopeSwitch record).mstxHeapCacheMap =
        s.mstxHeapCacheMap := by
  constructor
  · simp [afterScopeSwitch, beforeScopeSwitch, h]
  · simp [afterScopeSwitch, beforeScopeSwitch, updateHeapInfo_bypass h]

/-- Any other record leaves the scope that its source, its type and the heaps give. -/
lemma switch_other {record : MemOpRecord} (h : record.infoSrc ≠ .bypass) (s : Scopes) :
    ((s.beforeScopeSwitch record).afterScopeSwitch record).scope =
      scopeLeft
        ((s.beforeScopeSwitch record).afterScopeSwitch record).mstxHeapCacheMap.isEmpty
        (some record) := by
  unfold afterScopeSwitch beforeScopeSwitch scopeLeft
  simp only [if_neg h, Bool.not_eq_true]
  split_ifs <;> rfl

lemma scopeLeft_ne_bypass (noHeaps : Bool) (record : MemOpRecord)
    (h : record.infoSrc ≠ .bypass) : scopeLeft noHeaps (some record) ≠ .bypass := by
  unfold scopeLeft
  dsimp only
  split_ifs
  · decide
  · decide
  · cases hs : record.infoSrc <;> simp_all [memInfoToScope]

/-! ### Runs -/

lemma step_some (s : Scopes) {i : Input} {record : MemOpRecord} (h : i.handled = some record) :
    step s i = (s.beforeScopeSwitch record).afterScopeSwitch record := by
  rw [step, h]

lemma step_none (s : Scopes) {i : Input} (h : i.handled = none) : step s i = s := by
  rw [step, h]

/-- Between the records of a run the scope is the one that the last host record left, with
the heaps that are live now. -/
lemma scope_run (l : List Input) :
    (run l).scope = scopeLeft (run l).mstxHeapCacheMap.isEmpty (lastHost l) := by
  induction l using List.reverseRecOn with
  | nil => rfl
  | append_singleton l i ih =>
    rw [run_concat]
    cases hh : i.handled with
    | none => rw [step_none _ hh, lastHost_concat_none l hh, ih]
    | some record =>
      rw [step_some _ hh]
      by_cases hb : record.infoSrc = .bypass
      · obtain ⟨hs, hc⟩ := switch_bypass hb (run l)
        rw [hs, hc, lastHost_concat_bypass l hh hb, ih]
      · rw [switch_other hb, lastHost_concat_other l hh hb]

lemma scope_ne_bypass (l : List Input) : (run l).scope ≠ .bypass := by
  rw [scope_run]
  cases hlast : lastHost l with
  | none => exact fun h => (by cases h)
  | some record => exact scopeLeft_ne_bypass _ _ (lastHost_ne_bypass hlast)

lemma isEmpty_eq_of_liveHeaps {s t : Scopes} (h : liveHeaps s = liveHeaps t) :
    s.mstxHeapCacheMap.isEmpty = t.mstxHeapCacheMap.isEmpty := by
  have hmem : ∀ a, a ∈ s.mstxHeapCacheMap ↔ a ∈ t.mstxHeapCacheMap := fun a =>
    Set.ext_iff.mp h a
  rw [Bool.eq_iff_iff, Std.TreeMap.isEmpty_iff_forall_not_mem,
    Std.TreeMap.isEmpty_iff_forall_not_mem]
  exact forall_congr' fun a => not_congr (hmem a)

/-- **The scope of the bounds checks.** For every sequence of records: the scope between them
is never that of bypassed records; a bypassed record leaves the scope as it was; and the scope
used for a record is the same after any two runs with the same last host record that is not
bypassed and the same live heaps. -/
theorem scope_switch :
    (∀ l, (run l).scope ≠ .bypass) ∧
    (∀ l record, record.infoSrc = .bypass →
      (run (l ++ [.memory record])).scope = (run l).scope) ∧
    ∀ l l', lastHost l = lastHost l' → liveHeaps (run l) = liveHeaps (run l') →
      ∀ i, scopeUsed (run l) i = scopeUsed (run l') i := by
  refine ⟨scope_ne_bypass, fun l record hb => ?_, fun l l' hlast hlive i => ?_⟩
  · rw [run_concat, step]
    by_cases ht : record.type = .gmAddrOutOfBound
    · rw [Input.handled, if_pos ht]
    · rw [Input.handled, if_neg ht]
      exact (switch_bypass hb _).1
  · unfold scopeUsed
    cases i.handled with
    | none =>
      dsimp only
      rw [scope_run l, scope_run l', hlast, isEmpty_eq_of_liveHeaps hlive]
    | some record => rfl

/-- A block of the dump tool is reported while a heap is live. -/
theorem scope_switch_extra :
    (run ([.memory { type := .malloc, infoSrc := .mstxHeap, dstAddr := 64, memSize := 16 },
        .memory { type := .malloc, infoSrc := .extra }] ++
      [.memory { type := .malloc, infoSrc := .bypass }])).scope = .runtime := by
  rw [scope_switch.2.1 _ _ rfl, scope_run]
  rfl

end MsSanitizer.ScopeSwitch
