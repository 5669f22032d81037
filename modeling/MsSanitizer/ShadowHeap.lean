import MsSanitizer.Words
import Mathlib.Algebra.BigOperators.Group.List.Basic

/-!
# The heap of the shadow memory

All threads take memory from one heap by moving a shared cursor. `AllocHeap` does it in three
atomic steps, between which other threads move the cursor: it reads the cursor, adds to it, and
reads it again. A call that fails after it has added leaves the cursor where it is, so from then
on nothing fits. Calls of one thread may even overlap here.
-/

namespace MsSanitizer.ShadowHeap

open Words

structure ShadowMemoryHeapHead where
  startAddr : ℕ
  size : ℕ
  current : ℕ
  deriving DecidableEq, Repr

/-- The host has filled the head: the cursor stands in the heap, which does not wrap. -/
structure ShadowMemoryHeapHead.Filled (h : ShadowMemoryHeapHead) : Prop where
  start_le : h.startAddr ≤ h.current
  le_end : h.current ≤ h.startAddr + h.size

/-- `ShadowMemoryHeapAllocator`; `maxAddr` has no value before `Init`. -/
structure ShadowMemoryHeapAllocator where
  isReady : Bool := false
  maxAddr : ℕ
  deriving DecidableEq, Repr

/-- `ShadowMemoryHeapAllocator::Init`, when `heapAddr` is `0` or the address of the head. -/
def ShadowMemoryHeapAllocator.init (a : ShadowMemoryHeapAllocator) (head : ShadowMemoryHeapHead)
    (heapAddr size : ℕ) : ShadowMemoryHeapAllocator × Bool :=
  if heapAddr = 0 ∨ size = 0 then (a, false)
  else if head.size = 0 then (a, false)
  else ({ isReady := true, maxAddr := add64 head.startAddr head.size }, true)

inductive ErrorCode
  | allocatorNotReady | allocatorRemainingMemNotEnough | allocatedAddrIllegal
  deriving DecidableEq, Repr

def ErrorCode.lacksSpace : ErrorCode → Bool
  | .allocatorNotReady => false
  | _ => true

/-- Where a call of `AllocHeap` is: before one of its atomic steps, or back with an address or an
error. -/
inductive Phase
  | firstRead
  | add
  | secondRead (addr : ℕ)
  | returned (result : Except ErrorCode ℕ)

structure Call (ι : Type*) where
  thread : ι
  allocSize : ℕ
  phase : Phase

variable {ι : Type*}

/-- The next atomic step of a call, and the cursor after it. -/
def Call.advance (a : ShadowMemoryHeapAllocator) (current : ℕ) (c : Call ι) : ℕ × Call ι :=
  match c.phase with
  | .firstRead =>
    if a.isReady = false then (current, { c with phase := .returned (.error .allocatorNotReady) })
    else if a.maxAddr < current then
      (current, { c with phase := .returned (.error .allocatorRemainingMemNotEnough) })
    else (current, { c with phase := .add })
  | .add => (add64 current c.allocSize, { c with phase := .secondRead current })
  | .secondRead addr =>
    if a.maxAddr < current then
      (current, { c with phase := .returned (.error .allocatedAddrIllegal) })
    else (current, { c with phase := .returned (.ok addr) })
  | .returned _ => (current, c)

/-- The cursor and the calls so far, in the order they began. -/
structure State (ι : Type*) where
  current : ℕ
  calls : List (Call ι) := []

/-- A thread calls `AllocHeap`, or the call at this place takes its next step. -/
inductive Event (ι : Type*)
  | call (thread : ι) (allocSize : ℕ)
  | step (i : ℕ)

def State.next (allocators : ι → ShadowMemoryHeapAllocator) (s : State ι) : Event ι → State ι
  | .call thread allocSize => { s with calls := s.calls ++ [⟨thread, allocSize, .firstRead⟩] }
  | .step i =>
    match s.calls[i]? with
    | none => s
    | some c =>
      let r := c.advance (allocators c.thread) s.current
      ⟨r.1, s.calls.set i r.2⟩

/-- The state after a run; the allocators have been made on the head the host has filled. -/
def run (head : ShadowMemoryHeapHead) (allocators : ι → ShadowMemoryHeapAllocator)
    (events : List (Event ι)) : State ι :=
  events.foldl (State.next allocators) { current := head.current }

def Event.requested : Event ι → ℕ
  | .call _ allocSize => allocSize
  | .step _ => 0

def requested (events : List (Event ι)) : ℕ := (events.map Event.requested).sum

def State.Succeeded (s : State ι) (i addr allocSize : ℕ) : Prop :=
  ∃ thread, s.calls[i]? = some ⟨thread, allocSize, .returned (.ok addr)⟩

def State.Exhausted (s : State ι) : Prop :=
  ∃ c ∈ s.calls, ∃ e, c.phase = .returned (.error e) ∧ e.lacksSpace = true

/-- Allocators that come from `Init`, successful or not. -/
def Initialised (head : ShadowMemoryHeapHead) (allocators : ι → ShadowMemoryHeapAllocator) : Prop :=
  ∀ t, ∃ maxAddr heapAddr size, allocators t =
    (ShadowMemoryHeapAllocator.init { maxAddr := maxAddr } head heapAddr size).1

/-! ## One step of a call -/

def Call.pending (c : Call ι) : ℕ :=
  match c.phase with
  | .firstRead => c.allocSize
  | .add => c.allocSize
  | _ => 0

/-- Where the range of a call begins, once the cursor has been moved over it. -/
def Call.range (c : Call ι) : Option ℕ :=
  match c.phase with
  | .secondRead addr => some addr
  | .returned (.ok addr) => some addr
  | _ => none

/-- An atomic step at the cursor `current` of a heap that ends at `endAddr`. -/
inductive Moves (endAddr current : ℕ) (c : Call ι) : ℕ → Phase → Prop
  | notReady : Moves endAddr current c current (.returned (.error .allocatorNotReady))
  | fail {e : ErrorCode} (h : endAddr < current) :
      Moves endAddr current c current (.returned (.error e))
  | pass (h : c.phase = .firstRead) : Moves endAddr current c current .add
  | add (h : c.phase = .add) :
      Moves endAddr current c (add64 current c.allocSize) (.secondRead current)
  | succeed {addr : ℕ} (h : c.phase = .secondRead addr) (hle : current ≤ endAddr) :
      Moves endAddr current c current (.returned (.ok addr))
  | rest : Moves endAddr current c current c.phase

/-- Behind its first read a call has an allocator that is ready. -/
def Call.Ready (a : ShadowMemoryHeapAllocator) (c : Call ι) : Prop :=
  match c.phase with
  | .add => a.isReady = true
  | .secondRead _ => a.isReady = true
  | _ => True

lemma moves_advance {a : ShadowMemoryHeapAllocator} {endAddr : ℕ} (current : ℕ) {c : Call ι}
    (ha : a.isReady = true → a.maxAddr = endAddr) (hc : c.Ready a) :
    ∃ p, (c.advance a current).2 = { c with phase := p } ∧
      ({ c with phase := p } : Call ι).Ready a ∧
        Moves endAddr current c (c.advance a current).1 p := by
  obtain ⟨thread, allocSize, phase⟩ := c
  cases phase with
  | firstRead =>
    simp only [Call.advance]
    split_ifs with hready hfull
    · exact ⟨_, rfl, trivial, .notReady⟩
    · exact ⟨_, rfl, trivial, .fail (ha (by simpa using hready) ▸ hfull)⟩
    · exact ⟨_, rfl, by simpa [Call.Ready] using hready, .pass rfl⟩
  | add => exact ⟨_, rfl, hc, .add rfl⟩
  | secondRead addr =>
    have hmax := ha hc
    simp only [Call.advance]
    split_ifs with hfull
    · exact ⟨_, rfl, trivial, .fail (hmax ▸ hfull)⟩
    · exact ⟨_, rfl, trivial, .succeed rfl (hmax ▸ not_lt.mp hfull)⟩
  | returned result => exact ⟨_, rfl, trivial, .rest⟩

/-! ## The invariant -/

/-- After calls for `n` bytes in all: what has been added and what may still be are no more, the
ranges lie below the cursor and apart from each other, and a failure means that the cursor has
passed the end. -/
structure Inv (head : ShadowMemoryHeapHead) (allocators : ι → ShadowMemoryHeapAllocator) (n : ℕ)
    (s : State ι) : Prop where
  le : head.current ≤ s.current
  budget : s.current + (s.calls.map Call.pending).sum ≤ head.current + n
  ready : ∀ c ∈ s.calls, c.Ready (allocators c.thread)
  inside : ∀ c ∈ s.calls, ∀ addr, c.range = some addr →
    head.startAddr ≤ addr ∧ addr + c.allocSize ≤ s.current
  apart : ∀ (i j : ℕ) (c d : Call ι) (a b : ℕ), i ≠ j → s.calls[i]? = some c →
    s.calls[j]? = some d → c.range = some a → d.range = some b →
    a + c.allocSize ≤ b ∨ b + d.allocSize ≤ a
  succeeded : ∀ c ∈ s.calls, ∀ addr, c.phase = .returned (.ok addr) →
    addr + c.allocSize ≤ head.startAddr + head.size
  exhausted : s.Exhausted → head.startAddr + head.size < s.current

variable {head : ShadowMemoryHeapHead} {allocators : ι → ShadowMemoryHeapAllocator} {n : ℕ}
  {s : State ι}

lemma inv_nil : Inv head allocators 0 { current := head.current } where
  le := le_rfl
  budget := le_rfl
  ready := by simp
  inside := by simp
  apart := by simp
  succeeded := by simp
  exhausted := by
    rintro ⟨c, hc, -⟩
    cases hc

lemma Inv.call (h : Inv head allocators n s) (thread : ι) (allocSize : ℕ) :
    Inv head allocators (n + allocSize)
      { s with calls := s.calls ++ [⟨thread, allocSize, .firstRead⟩] } where
  le := h.le
  budget := by
    have := h.budget
    simp only [List.map_append, List.map_singleton, List.sum_append, List.sum_singleton]
    simp only [Call.pending] at this ⊢
    omega
  ready c hc := by
    rcases List.mem_append.mp hc with hc | hc
    · exact h.ready c hc
    · rw [List.mem_singleton.mp hc]
      trivial
  inside c hc addr hrange := by
    rcases List.mem_append.mp hc with hc | hc
    · exact h.inside c hc addr hrange
    · rw [List.mem_singleton.mp hc] at hrange
      cases hrange
  apart i j c d a b hij hi hj ha hb := by
    have hold : ∀ {k : ℕ} {c : Call ι} {a : ℕ}, c.range = some a →
        (s.calls ++ [⟨thread, allocSize, .firstRead⟩])[k]? = some c → s.calls[k]? = some c := by
      intro k c a hrange hk
      rw [List.getElem?_append] at hk
      split_ifs at hk with hlt
      · exact hk
      · rw [List.mem_singleton.mp (List.mem_of_getElem? hk)] at hrange
        cases hrange
    exact h.apart i j c d a b hij (hold ha hi) (hold hb hj) ha hb
  succeeded c hc addr hphase := by
    rcases List.mem_append.mp hc with hc | hc
    · exact h.succeeded c hc addr hphase
    · rw [List.mem_singleton.mp hc] at hphase
      cases hphase
  exhausted := by
    rintro ⟨c, hc, e, he, hlacks⟩
    rcases List.mem_append.mp hc with hc | hc
    · exact h.exhausted ⟨c, hc, e, he, hlacks⟩
    · rw [List.mem_singleton.mp hc] at he
      cases he

/-- What a step may change, as long as the cursor does not wrap. -/
lemma Moves.spec {endAddr current current' : ℕ} {c : Call ι} {p : Phase}
    (h : Moves endAddr current c current' p) (hwrap : current + c.pending < 2 ^ 64) :
    current ≤ current' ∧ current' + ({ c with phase := p } : Call ι).pending ≤ current + c.pending ∧
      (∀ addr, ({ c with phase := p } : Call ι).range = some addr →
        c.range = some addr ∨ addr = current ∧ current' = current + c.allocSize) ∧
      (∀ addr, p = .returned (.ok addr) →
        c.phase = .returned (.ok addr) ∨ c.range = some addr ∧ current ≤ endAddr) ∧
      (∀ e, p = .returned (.error e) → e.lacksSpace = true →
        c.phase = .returned (.error e) ∨ endAddr < current) := by
  obtain ⟨thread, allocSize, phase⟩ := c
  cases h with
  | notReady =>
    refine ⟨le_rfl, by simp [Call.pending], by simp [Call.range], by simp, ?_⟩
    rintro e he hlacks
    cases he
    cases hlacks
  | fail hfull =>
    exact ⟨le_rfl, by simp [Call.pending], by simp [Call.range], by simp, fun _ _ _ => .inr hfull⟩
  | pass hphase =>
    simp only at hphase
    subst hphase
    exact ⟨le_rfl, le_rfl, by simp [Call.range], by simp, by simp⟩
  | add hphase =>
    simp only at hphase
    subst hphase
    simp only [Call.pending] at hwrap
    have hadd : add64 current allocSize = current + allocSize := Nat.mod_eq_of_lt hwrap
    simp only [hadd]
    refine ⟨by omega, by simp [Call.pending], ?_, by simp, by simp⟩
    rintro addr haddr
    exact .inr ⟨(Option.some.inj haddr).symm, trivial⟩
  | succeed hphase hle =>
    simp only at hphase
    subst hphase
    refine ⟨le_rfl, le_rfl, fun addr haddr => .inl haddr, ?_, by simp⟩
    intro addr haddr
    cases haddr
    exact .inr ⟨rfl, hle⟩
  | rest => exact ⟨le_rfl, le_rfl, fun _ h => .inl h, fun _ h => .inl h, fun _ h _ => .inl h⟩

lemma sum_map_set {α : Type*} (f : α → ℕ) {l : List α} {i : ℕ} {a : α} (h : l[i]? = some a)
    (b : α) : ((l.set i b).map f).sum + f a = (l.map f).sum + f b := by
  induction l generalizing i with
  | nil => cases h
  | cons x l ih =>
    cases i with
    | zero =>
      obtain rfl : x = a := Option.some.inj h
      simp only [List.set_cons_zero, List.map_cons, List.sum_cons]
      omega
    | succ i =>
      have := ih h
      simp only [List.set_cons_succ, List.map_cons, List.sum_cons]
      omega

/-- An element of a list after a change at `i`. -/
lemma getElem?_set_cases {α : Type*} {l : List α} {i j : ℕ} {a b : α}
    (h : (l.set i a)[j]? = some b) : j = i ∧ b = a ∨ j ≠ i ∧ l[j]? = some b := by
  rcases eq_or_ne j i with rfl | hne
  · have hlt : j < (l.set j a).length := (List.getElem?_eq_some_iff.mp h).1
    rw [List.getElem?_set_self (by rwa [List.length_set] at hlt)] at h
    exact .inl ⟨rfl, (Option.some.inj h).symm⟩
  · rw [List.getElem?_set_ne hne.symm] at h
    exact .inr ⟨hne, h⟩

lemma Inv.move (h : Inv head allocators n s) {i : ℕ} {c : Call ι} (hc : s.calls[i]? = some c)
    {current' : ℕ} {p : Phase}
    (hready : ({ c with phase := p } : Call ι).Ready (allocators c.thread))
    (hmove : Moves (head.startAddr + head.size) s.current c current' p)
    (hstart : head.startAddr ≤ head.current) (hwrap : head.current + n < 2 ^ 64) :
    Inv head allocators n ⟨current', s.calls.set i { c with phase := p }⟩ := by
  have hmem := List.mem_of_getElem? hc
  have hsum := sum_map_set Call.pending hc { c with phase := p }
  have hpending : c.pending ≤ (s.calls.map Call.pending).sum :=
    List.single_le_sum (by simp) _ (List.mem_map.mpr ⟨c, hmem, rfl⟩)
  have hbudget := h.budget
  obtain ⟨hle, hmoved, hrange, hok, herror⟩ := hmove.spec (by omega)
  have hset : ∀ {d : Call ι}, d ∈ s.calls.set i { c with phase := p } →
      d ∈ s.calls ∨ d = { c with phase := p } := List.mem_or_eq_of_mem_set
  refine ⟨h.le.trans hle, by simp only; omega, fun d hd => ?_, fun d hd addr haddr => ?_, ?_,
    fun d hd addr haddr => ?_, ?_⟩
  · rcases hset hd with hd | rfl
    · exact h.ready d hd
    · exact hready
  · rcases hset hd with hd | rfl
    · have := h.inside d hd addr haddr
      exact ⟨this.1, this.2.trans hle⟩
    · rcases hrange addr haddr with hold | ⟨rfl, hnew⟩
      · have := h.inside c hmem addr hold
        exact ⟨this.1, this.2.trans hle⟩
      · exact ⟨hstart.trans h.le, hnew.ge⟩
  · -- a new range begins at the cursor, behind all others
    intro j k d d' a b hjk hj hk ha hb
    rcases getElem?_set_cases hj with ⟨rfl, rfl⟩ | ⟨-, hj'⟩
    · rcases getElem?_set_cases hk with ⟨rfl, -⟩ | ⟨-, hk'⟩
      · exact absurd rfl hjk
      · rcases hrange a ha with hold | ⟨rfl, -⟩
        · exact h.apart _ _ c d' a b hjk hc hk' hold hb
        · exact .inr (h.inside d' (List.mem_of_getElem? hk') b hb).2
    · rcases getElem?_set_cases hk with ⟨rfl, rfl⟩ | ⟨-, hk'⟩
      · rcases hrange b hb with hold | ⟨rfl, -⟩
        · exact h.apart _ _ d c a b hjk hj' hc ha hold
        · exact .inl (h.inside d (List.mem_of_getElem? hj') a ha).2
      · exact h.apart _ _ _ _ a b hjk hj' hk' ha hb
  · rcases hset hd with hd | rfl
    · exact h.succeeded d hd addr haddr
    · rcases hok addr haddr with hold | ⟨hold, hend⟩
      · exact h.succeeded c hmem addr hold
      · exact (h.inside c hmem addr hold).2.trans hend
  · rintro ⟨d, hd, e, he, hlacks⟩
    refine lt_of_lt_of_le ?_ hle
    rcases hset hd with hd | rfl
    · exact h.exhausted ⟨d, hd, e, he, hlacks⟩
    · rcases herror e he hlacks with hold | hfull
      · exact h.exhausted ⟨c, hmem, e, hold, hlacks⟩
      · exact hfull

lemma maxAddr_of_initialised (hinit : Initialised head allocators)
    (hend : head.startAddr + head.size < 2 ^ 64) (t : ι) (ht : (allocators t).isReady = true) :
    (allocators t).maxAddr = head.startAddr + head.size := by
  obtain ⟨maxAddr, heapAddr, size, h⟩ := hinit t
  rw [h, ShadowMemoryHeapAllocator.init] at ht ⊢
  by_cases hargs : heapAddr = 0 ∨ size = 0
  · rw [if_pos hargs] at ht
    exact absurd ht Bool.false_ne_true
  · by_cases hsize : head.size = 0
    · rw [if_neg hargs, if_pos hsize] at ht
      exact absurd ht Bool.false_ne_true
    · rw [if_neg hargs, if_neg hsize]
      exact Nat.mod_eq_of_lt hend

lemma next_step {i : ℕ} {c : Call ι} (hc : s.calls[i]? = some c) :
    s.next allocators (.step i) =
      ⟨(c.advance (allocators c.thread) s.current).1,
        s.calls.set i (c.advance (allocators c.thread) s.current).2⟩ := by
  simp only [State.next, hc]

lemma next_step_none {i : ℕ} (hc : s.calls[i]? = none) : s.next allocators (.step i) = s := by
  simp only [State.next, hc]

lemma Inv.next (h : Inv head allocators n s) (hfilled : head.Filled)
    (hinit : Initialised head allocators) (e : Event ι)
    (htotal : n + e.requested < 2 ^ 64 - (head.startAddr + head.size)) :
    Inv head allocators (n + e.requested) (s.next allocators e) := by
  cases e with
  | call thread allocSize => exact h.call thread allocSize
  | step i =>
    have hend : head.startAddr + head.size < 2 ^ 64 := by omega
    have hle := hfilled.le_end
    simp only [Event.requested] at htotal
    cases hc : s.calls[i]? with
    | none =>
      rw [next_step_none hc]
      exact h
    | some c =>
      obtain ⟨p, hp, hready, hmove⟩ := moves_advance s.current
        (maxAddr_of_initialised hinit hend c.thread) (h.ready c (List.mem_of_getElem? hc))
      rw [next_step hc, hp]
      exact h.move hc hready hmove hfilled.start_le (by omega)

lemma requested_concat (events : List (Event ι)) (e : Event ι) :
    requested (events ++ [e]) = requested events + e.requested := by
  simp [requested]

lemma requested_append (pre post : List (Event ι)) :
    requested (pre ++ post) = requested pre + requested post := by
  simp [requested]

lemma run_concat (events : List (Event ι)) (e : Event ι) :
    run head allocators (events ++ [e]) = (run head allocators events).next allocators e := by
  simp [run]

lemma inv_run (hfilled : head.Filled) (hinit : Initialised head allocators)
    (events : List (Event ι))
    (htotal : requested events < 2 ^ 64 - (head.startAddr + head.size)) :
    Inv head allocators (requested events) (run head allocators events) := by
  induction events using List.reverseRecOn with
  | nil => exact inv_nil
  | append_singleton events e ih =>
    rw [requested_concat] at htotal ⊢
    rw [run_concat]
    exact (ih (by omega)).next hfilled hinit e htotal

lemma le_next (h : Inv head allocators n s) (hinit : Initialised head allocators)
    (hend : head.startAddr + head.size < 2 ^ 64) (hwrap : head.current + n < 2 ^ 64)
    (e : Event ι) : s.current ≤ (s.next allocators e).current := by
  cases e with
  | call thread allocSize => exact le_rfl
  | step i =>
    cases hc : s.calls[i]? with
    | none => rw [next_step_none hc]
    | some c =>
      have hmem := List.mem_of_getElem? hc
      obtain ⟨p, -, -, hmove⟩ := moves_advance s.current
        (maxAddr_of_initialised hinit hend c.thread) (h.ready c hmem)
      rw [next_step hc]
      refine (hmove.spec ?_).1
      have hpending : c.pending ≤ (s.calls.map Call.pending).sum :=
        List.single_le_sum (by simp) _ (List.mem_map.mpr ⟨c, hmem, rfl⟩)
      have := h.budget
      omega

lemma le_run_append (hfilled : head.Filled) (hinit : Initialised head allocators)
    (pre post : List (Event ι))
    (htotal : requested (pre ++ post) < 2 ^ 64 - (head.startAddr + head.size)) :
    (run head allocators pre).current ≤ (run head allocators (pre ++ post)).current := by
  have hle := hfilled.le_end
  induction post using List.reverseRecOn with
  | nil => rw [List.append_nil]
  | append_singleton post e ih =>
    rw [← List.append_assoc, requested_concat] at htotal
    rw [← List.append_assoc, run_concat]
    have hprev := inv_run hfilled hinit (pre ++ post) (by omega)
    exact (ih (by omega)).trans (le_next hprev hinit (by omega) (by omega) e)

/-- Behind the end of the heap no call succeeds any more. -/
lemma succeeded_of_next (hinit : Initialised head allocators)
    (hend : head.startAddr + head.size < 2 ^ 64) (h : Inv head allocators n s)
    (hfull : head.startAddr + head.size < s.current) {e : Event ι} {i addr allocSize : ℕ}
    (hs : (s.next allocators e).Succeeded i addr allocSize) : s.Succeeded i addr allocSize := by
  obtain ⟨t, ht⟩ := hs
  cases e with
  | call thread size =>
    rw [State.next, List.getElem?_append] at ht
    split_ifs at ht
    · exact ⟨t, ht⟩
    · cases List.mem_singleton.mp (List.mem_of_getElem? ht)
  | step j =>
    cases hc : s.calls[j]? with
    | none =>
      rw [next_step_none hc] at ht
      exact ⟨t, ht⟩
    | some c =>
      obtain ⟨p, hp, -, hmove⟩ := moves_advance s.current
        (maxAddr_of_initialised hinit hend c.thread) (h.ready c (List.mem_of_getElem? hc))
      rw [next_step hc, hp] at ht
      simp only at ht
      rcases eq_or_ne j i with rfl | hne
      · rw [List.getElem?_set_self (List.getElem?_eq_some_iff.mp hc).1] at ht
        obtain ⟨rfl, rfl, rfl⟩ := Call.mk.inj (Option.some.inj ht)
        -- only a call that had succeeded before has succeeded now
        generalize hphase : Phase.returned (.ok addr) = p at hmove
        generalize (c.advance (allocators c.thread) s.current).1 = current' at hmove
        cases hmove with
        | notReady => cases hphase
        | fail => cases hphase
        | pass => cases hphase
        | add => cases hphase
        | succeed _ hle => exact absurd hfull (not_lt.mpr hle)
        | rest => exact ⟨c.thread, by rw [hc, hphase]⟩
      · rw [List.getElem?_set_ne hne] at ht
        exact ⟨t, ht⟩

/-- **The heap of the shadow memory.** In any order of the steps, the ranges of successful calls
lie in the heap and apart from each other, and once a call has failed for lack of space no call
succeeds that had not done so before. -/
theorem allocHeap_safe (head : ShadowMemoryHeapHead) (hfilled : head.Filled)
    (allocators : ι → ShadowMemoryHeapAllocator) (hinit : Initialised head allocators)
    (events : List (Event ι))
    (htotal : requested events < 2 ^ 64 - (head.startAddr + head.size)) :
    (∀ i addr allocSize, (run head allocators events).Succeeded i addr allocSize →
      head.startAddr ≤ addr ∧ addr + allocSize ≤ head.startAddr + head.size) ∧
    (∀ i j addr allocSize addr' allocSize', i ≠ j →
      (run head allocators events).Succeeded i addr allocSize →
      (run head allocators events).Succeeded j addr' allocSize' →
      addr + allocSize ≤ addr' ∨ addr' + allocSize' ≤ addr) ∧
    (∀ pre post, events = pre ++ post → (run head allocators pre).Exhausted →
      ∀ i addr allocSize, (run head allocators events).Succeeded i addr allocSize →
        (run head allocators pre).Succeeded i addr allocSize) := by
  have hinv := inv_run hfilled hinit events htotal
  refine ⟨?_, ?_, ?_⟩
  · rintro i addr allocSize ⟨t, ht⟩
    have hmem := List.mem_of_getElem? ht
    exact ⟨(hinv.inside _ hmem addr rfl).1, hinv.succeeded _ hmem addr rfl⟩
  · rintro i j addr allocSize addr' allocSize' hij ⟨t, ht⟩ ⟨t', ht'⟩
    exact hinv.apart i j _ _ addr addr' hij ht ht' rfl rfl
  · rintro pre post rfl hexhausted
    have hend : head.startAddr + head.size < 2 ^ 64 := by omega
    induction post using List.reverseRecOn with
    | nil =>
      intro i addr allocSize h
      rwa [List.append_nil] at h
    | append_singleton post e ih =>
      intro i addr allocSize h
      rw [← List.append_assoc, requested_concat] at htotal
      rw [← List.append_assoc, run_concat] at h
      have hprev := inv_run hfilled hinit (pre ++ post) (by omega)
      have hcursor := le_run_append hfilled hinit pre post (by omega)
      have hfull := (inv_run hfilled hinit pre (by
        rw [requested_append] at htotal
        omega)).exhausted hexhausted
      exact ih (by omega) hprev i addr allocSize
        (succeeded_of_next hinit hend hprev (hfull.trans_le hcursor) h)

/-- Two threads that find the heap with room for one of them. -/
def twoThreads : List (Event ℕ) :=
  [.call 0 0xc0, .call 1 0x80, .step 0, .step 1, .step 0, .step 0, .step 1, .step 1]

theorem allocHeap_safe_two :
    (run ⟨0x1000, 0x100, 0x1000⟩ (fun _ => ⟨true, 0x1100⟩) twoThreads).Succeeded 0 0x1000 0xc0 ∧
      0x1000 ≤ 0x1000 ∧ 0x1000 + 0xc0 ≤ 0x1000 + 0x100 := by
  have hsucceeded : (run ⟨0x1000, 0x100, 0x1000⟩ (fun _ => ⟨true, 0x1100⟩) twoThreads).Succeeded
      0 0x1000 0xc0 := ⟨0, rfl⟩
  exact ⟨hsucceeded, (allocHeap_safe ⟨0x1000, 0x100, 0x1000⟩ ⟨by decide, by decide⟩
    (fun _ => ⟨true, 0x1100⟩) (fun _ => ⟨0, 1, 1, rfl⟩) twoThreads (by decide)).1 0 0x1000 0xc0
      hsucceeded⟩

end MsSanitizer.ShadowHeap
