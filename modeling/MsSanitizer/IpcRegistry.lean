import MsSanitizer.Packets

/-!
# Shared memory between processes

The registry of `command.cpp` for memory shared under a name: one table from names to what is
shared and who mapped it, another from a connection and an address to the name mapped there.
A connection has a checker of its own, so connections and checkers have the same numbers here.
Beside it stands what the registry is for: which addresses each connection has mapped.
-/

namespace MsSanitizer.IpcRegistry

open RecordDefs Packets

/-! ### The registry -/

structure SharerMemInfo where
  addr : ℕ
  size : ℕ
  deriving DecidableEq, Repr

structure ShareeMemInfo where
  addr : ℕ
  size : ℕ
  deriving DecidableEq, Repr

/-- What the registry fills in of a `HostMemRecord`. -/
structure HostMemRecord where
  type : MemOpType
  addr : ℕ
  size : ℕ
  deriving DecidableEq, Repr

inductive ResponseStatus
  | success | fail
  deriving DecidableEq, Repr

/-- `Command::sharedMemInfoMp`, `Command::shareeMemInfoMp` and the records handed to the
checkers. -/
structure Registry where
  shared : String → Option (SharerMemInfo × List (ℕ × ShareeMemInfo)) := fun _ => none
  sharee : ℕ × ℕ → Option String := fun _ => none
  sent : List (ℕ × HostMemRecord) := []

/-- `HandleHostMemRecord`. -/
def Registry.send (s : Registry) (checker : ℕ) (record : HostMemRecord) : Registry :=
  { s with sent := s.sent ++ [(checker, record)] }

def processIPCSetEvent (s : Registry) (addr size : ℕ) (name : String) :
    Registry × ResponseStatus :=
  match s.shared name with
  | some _ => (s, .fail)
  | none => ({ s with shared := Function.update s.shared name (some (⟨addr, size⟩, [])) }, .success)

def processIPCDestroyEvent (s : Registry) (name : String) : Registry × ResponseStatus :=
  match s.shared name with
  | none => (s, .fail)
  | some (_, sharees) =>
    let s := sharees.foldl (fun s p => s.send p.1 ⟨.free, p.2.addr, 0⟩) s
    ({ s with shared := Function.update s.shared name none }, .success)

/-- `std::map::insert` of a checker's mapping: an entry that is there stays. -/
def insertSharee (sharees : List (ℕ × ShareeMemInfo)) (checker : ℕ) (info : ShareeMemInfo) :
    List (ℕ × ShareeMemInfo) :=
  if checker ∈ sharees.map Prod.fst then sharees else sharees ++ [(checker, info)]

def processIPCMapEvent (s : Registry) (c : ℕ) (addr : ℕ) (name : String) :
    Registry × ResponseStatus :=
  match s.sharee (c, addr) with
  | some _ => (s, .fail)
  | none =>
    match s.shared name with
    | none => (s, .fail)
    | some (sharer, sharees) =>
      let s := { s with
        shared := Function.update s.shared name
          (some (sharer, insertSharee sharees c ⟨addr, sharer.size⟩))
        sharee := Function.update s.sharee (c, addr) (some name) }
      (s.send c ⟨.malloc, addr, sharer.size⟩, .success)

def processIPCUnmapEvent (s : Registry) (c : ℕ) (addr : ℕ) : Registry × ResponseStatus :=
  match s.sharee (c, addr) with
  | none => (s, .fail)
  | some name =>
    let s' :=
      match s.shared name with
      | none => s
      | some (sharer, sharees) =>
        let s := s.send c ⟨.free, addr, 0⟩
        { s with
          shared := Function.update s.shared name
            (some (sharer, sharees.filter fun p => p.1 != c)) }
    ({ s' with sharee := Function.update s'.sharee (c, addr) none }, .success)

/-- `HandleIpcMemRecord`, for a record of connection `c`. -/
def handleIpcMemRecord (s : Registry) (c : ℕ) : IPCMemRecord → Registry × ResponseStatus
  | .setInfo addr size name => processIPCSetEvent s addr size name
  | .destroyInfo name => processIPCDestroyEvent s name
  | .mapInfo addr name => processIPCMapEvent s c addr name
  | .unmapInfo addr => processIPCUnmapEvent s c addr

/-! ### The ranges at a checker -/

def applyRecord (ranges : List (ℕ × ℕ)) (r : HostMemRecord) : List (ℕ × ℕ) :=
  match r.type with
  | .malloc => ranges ++ [(r.addr, r.size)]
  | .free => ranges.filter fun e => e.1 != r.addr
  | _ => ranges

/-- The ranges allocated at a checker and not yet freed. -/
def live (sent : List (ℕ × HostMemRecord)) (c : ℕ) : List (ℕ × ℕ) :=
  sent.foldl (fun l e => if e.1 = c then applyRecord l e.2 else l) []

/-- Every `FREE` frees a range that is allocated at that checker. -/
def NoDoubleFree (sent : List (ℕ × HostMemRecord)) : Prop :=
  ∀ pre c r suf, sent = pre ++ (c, r) :: suf → r.type = .free →
    ∃ size, (r.addr, size) ∈ live pre c

/-! ### What the registry is for -/

/-- The sizes of the names that are registered, and the size and name of what a connection has
mapped at an address. -/
structure Mappings where
  registered : String → Option ℕ := fun _ => none
  mapped : ℕ → ℕ → Option (ℕ × String) := fun _ _ => none

def Mappings.step (t : Mappings) (c : ℕ) : IPCMemRecord → Mappings
  | .setInfo _ size name =>
    match t.registered name with
    | some _ => t
    | none => { t with registered := Function.update t.registered name (some size) }
  | .destroyInfo name =>
    { registered := Function.update t.registered name none
      mapped := fun c a => (t.mapped c a).filter fun m => m.2 != name }
  | .mapInfo addr name =>
    match t.registered name, t.mapped c addr with
    | some size, none =>
      { t with
        mapped := Function.update t.mapped c
          (Function.update (t.mapped c) addr (some (size, name))) }
    | _, _ => t
  | .unmapInfo addr =>
    { t with mapped := Function.update t.mapped c (Function.update (t.mapped c) addr none) }

/-- What is to hold after a record: the ranges at the checkers are those mapped, no range was
freed twice, and a `MAP` failed only for the two reasons it may. -/
structure StepGood (s : Registry) (t : Mappings) (c : ℕ) (record : IPCMemRecord) : Prop where
  ranges : ∀ c' addr size, (addr, size) ∈ live (handleIpcMemRecord s c record).1.sent c' ↔
    ∃ name, (t.step c record).mapped c' addr = some (size, name)
  frees : NoDoubleFree (handleIpcMemRecord s c record).1.sent
  fails : ∀ addr name, record = .mapInfo addr name → (handleIpcMemRecord s c record).2 = .fail →
    t.registered name = none ∨ (t.mapped c addr).isSome

/-- The connection once mapped the address, a `DESTROY` took the mapping away, and no `UNMAP`
followed. -/
def Stale (s : Registry) (t : Mappings) (c addr : ℕ) (name : String) : Prop :=
  s.sharee (c, addr) = some name ∧ t.mapped c addr = none

/-- The condition on the state before a record: an address is not mapped over a stale mapping, a
stale one is not unmapped after its name was registered anew, and a destroyed name is known to have
the sharees that map it. -/
def StepOk (s : Registry) (t : Mappings) (c : ℕ) : IPCMemRecord → Prop
  | .setInfo .. => True
  | .destroyInfo name => ∀ c addr size, t.mapped c addr = some (size, name) →
      ∃ sharer sharees, s.shared name = some (sharer, sharees) ∧ (c, ⟨addr, size⟩) ∈ sharees
  | .mapInfo addr name => (t.registered name).isSome → ∀ old, ¬ Stale s t c addr old
  | .unmapInfo addr => ∀ name, Stale s t c addr name → t.registered name = none

/-- The registry treats every record of a run as it should. -/
def Meets : Registry → Mappings → List (ℕ × IPCMemRecord) → Prop
  | _, _, [] => True
  | s, t, (c, r) :: rs => StepGood s t c r ∧ Meets (handleIpcMemRecord s c r).1 (t.step c r) rs

def OkRun : Registry → Mappings → List (ℕ × IPCMemRecord) → Prop
  | _, _, [] => True
  | s, t, (c, r) :: rs => StepOk s t c r ∧ OkRun (handleIpcMemRecord s c r).1 (t.step c r) rs

/-- The registry and the mappings fit together. -/
structure Inv (s : Registry) (t : Mappings) : Prop where
  registered : ∀ name, t.registered name = (s.shared name).map fun e => e.1.size
  mapped : ∀ c addr size name, t.mapped c addr = some (size, name) →
    s.sharee (c, addr) = some name ∧ t.registered name = some size
  entry : ∀ name sharer sharees c addr size, s.shared name = some (sharer, sharees) →
    (c, ⟨addr, size⟩) ∈ sharees → t.mapped c addr = some (size, name)
  nodup : ∀ name sharer sharees, s.shared name = some (sharer, sharees) →
    (sharees.map Prod.fst).Nodup
  ranges : ∀ c addr size, (addr, size) ∈ live s.sent c ↔
    ∃ name, t.mapped c addr = some (size, name)
  frees : NoDoubleFree s.sent

/-! ### The records sent -/

lemma live_concat (sent : List (ℕ × HostMemRecord)) (c' : ℕ) (r : HostMemRecord) (c : ℕ) :
    live (sent ++ [(c', r)]) c = if c' = c then applyRecord (live sent c) r else live sent c := by
  unfold live
  rw [List.foldl_append]
  rfl

lemma mem_live_free {sent : List (ℕ × HostMemRecord)} {c' a c addr size : ℕ} :
    (addr, size) ∈ live (sent ++ [(c', ⟨.free, a, 0⟩)]) c ↔
      (addr, size) ∈ live sent c ∧ ¬ (c' = c ∧ a = addr) := by
  rw [live_concat]
  by_cases hc : c' = c
  · subst hc
    rw [if_pos rfl]
    simp only [applyRecord, List.mem_filter, bne_iff_ne, ne_eq, true_and]
    exact and_congr_right fun _ => ⟨fun h e => h e.symm, fun h e => h e.symm⟩
  · simp [hc]

lemma mem_live_malloc {sent : List (ℕ × HostMemRecord)} {c' a n c addr size : ℕ} :
    (addr, size) ∈ live (sent ++ [(c', ⟨.malloc, a, n⟩)]) c ↔
      (addr, size) ∈ live sent c ∨ (c' = c ∧ a = addr ∧ n = size) := by
  rw [live_concat]
  by_cases hc : c' = c
  · subst hc
    rw [if_pos rfl]
    simp only [applyRecord, List.mem_append, List.mem_singleton, Prod.mk.injEq, true_and]
    exact or_congr_right ⟨fun h => ⟨h.1.symm, h.2.symm⟩, fun h => ⟨h.1.symm, h.2.symm⟩⟩
  · simp [hc]

lemma noDoubleFree_concat {sent : List (ℕ × HostMemRecord)} {c : ℕ} {r : HostMemRecord} :
    NoDoubleFree (sent ++ [(c, r)]) ↔
      NoDoubleFree sent ∧ (r.type = .free → ∃ size, (r.addr, size) ∈ live sent c) := by
  constructor
  · intro h
    refine ⟨fun pre c' r' suf he ht => ?_, fun ht => h sent c r [] rfl ht⟩
    refine h pre c' r' (suf ++ [(c, r)]) ?_ ht
    rw [he]
    simp
  · rintro ⟨h, hlast⟩ pre c' r' suf he ht
    rcases List.eq_nil_or_concat suf with rfl | ⟨suf', e, rfl⟩
    · obtain ⟨rfl, hcr⟩ := List.append_inj' he rfl
      cases hcr
      exact hlast ht
    · rw [List.concat_eq_append, ← List.cons_append, ← List.append_assoc] at he
      obtain ⟨hpre, -⟩ := List.append_inj' he rfl
      exact h pre c' r' suf' hpre ht

/-- The records of a `DESTROY`. -/
def freesOf (sharees : List (ℕ × ShareeMemInfo)) : List (ℕ × HostMemRecord) :=
  sharees.map fun p => (p.1, ⟨.free, p.2.addr, 0⟩)

lemma foldl_send (sharees : List (ℕ × ShareeMemInfo)) (s : Registry) :
    sharees.foldl (fun s p => s.send p.1 ⟨.free, p.2.addr, 0⟩) s =
      { s with sent := s.sent ++ freesOf sharees } := by
  induction sharees generalizing s with
  | nil => simp [freesOf]
  | cons p sharees ih =>
    rw [List.foldl_cons, ih]
    simp [Registry.send, freesOf]

lemma mem_live_frees {sent : List (ℕ × HostMemRecord)} (sharees : List (ℕ × ShareeMemInfo))
    {c addr size : ℕ} :
    (addr, size) ∈ live (sent ++ freesOf sharees) c ↔
      (addr, size) ∈ live sent c ∧ ∀ info, (c, info) ∈ sharees → info.addr ≠ addr := by
  induction sharees generalizing sent with
  | nil => simp [freesOf]
  | cons p sharees ih =>
    have hcons : sent ++ freesOf (p :: sharees) =
        (sent ++ [(p.1, ⟨.free, p.2.addr, 0⟩)]) ++ freesOf sharees := by simp [freesOf]
    rw [hcons, ih, mem_live_free]
    constructor
    · rintro ⟨⟨hl, hp⟩, hrest⟩
      refine ⟨hl, fun info hm he => ?_⟩
      rcases List.mem_cons.1 hm with rfl | hm
      · exact hp ⟨rfl, he⟩
      · exact hrest info hm he
    · rintro ⟨hl, hall⟩
      refine ⟨⟨hl, ?_⟩, fun info hm => hall info (List.mem_cons_of_mem _ hm)⟩
      rintro ⟨rfl, ha⟩
      exact hall p.2 (List.mem_cons_self ..) ha

/-- Frees at different checkers, each of a range allocated there. -/
lemma noDoubleFree_frees {sent : List (ℕ × HostMemRecord)} (sharees : List (ℕ × ShareeMemInfo))
    (hnd : (sharees.map Prod.fst).Nodup) (h : NoDoubleFree sent)
    (hlive : ∀ c info, (c, info) ∈ sharees → ∃ size, (info.addr, size) ∈ live sent c) :
    NoDoubleFree (sent ++ freesOf sharees) := by
  induction sharees generalizing sent with
  | nil => simpa [freesOf] using h
  | cons p sharees ih =>
    have hcons : sent ++ freesOf (p :: sharees) =
        (sent ++ [(p.1, ⟨.free, p.2.addr, 0⟩)]) ++ freesOf sharees := by simp [freesOf]
    rw [List.map_cons, List.nodup_cons] at hnd
    rw [hcons]
    refine ih hnd.2 ?_ fun c info hm => ?_
    · exact noDoubleFree_concat.2 ⟨h, fun _ => hlive p.1 p.2 (List.mem_cons_self ..)⟩
    · obtain ⟨size, hs⟩ := hlive c info (List.mem_cons_of_mem _ hm)
      refine ⟨size, mem_live_free.2 ⟨hs, fun hc => hnd.1 ?_⟩⟩
      rw [hc.1]
      exact List.mem_map.2 ⟨_, hm, rfl⟩

/-! ### What a record does, case by case -/

section cases
variable {s : Registry} {t : Mappings} {c addr size : ℕ} {name : String} {sharer : SharerMemInfo}
  {sharees : List (ℕ × ShareeMemInfo)}

lemma handle_set_taken {e} (h : s.shared name = some e) :
    handleIpcMemRecord s c (.setInfo addr size name) = (s, .fail) := by
  simp only [handleIpcMemRecord, processIPCSetEvent, h]

lemma handle_set (h : s.shared name = none) :
    handleIpcMemRecord s c (.setInfo addr size name) =
      ({ s with shared := Function.update s.shared name (some (⟨addr, size⟩, [])) }, .success) := by
  simp only [handleIpcMemRecord, processIPCSetEvent, h]

lemma handle_destroy_none (h : s.shared name = none) :
    handleIpcMemRecord s c (.destroyInfo name) = (s, .fail) := by
  simp only [handleIpcMemRecord, processIPCDestroyEvent, h]

lemma handle_destroy (h : s.shared name = some (sharer, sharees)) :
    handleIpcMemRecord s c (.destroyInfo name) =
      ({ s with
          shared := Function.update s.shared name none
          sent := s.sent ++ freesOf sharees }, .success) := by
  simp only [handleIpcMemRecord, processIPCDestroyEvent, h, foldl_send]

lemma handle_map_taken {old : String} (h : s.sharee (c, addr) = some old) :
    handleIpcMemRecord s c (.mapInfo addr name) = (s, .fail) := by
  simp only [handleIpcMemRecord, processIPCMapEvent, h]

lemma handle_map_unknown (h : s.sharee (c, addr) = none) (hn : s.shared name = none) :
    handleIpcMemRecord s c (.mapInfo addr name) = (s, .fail) := by
  simp only [handleIpcMemRecord, processIPCMapEvent, h, hn]

lemma handle_map (h : s.sharee (c, addr) = none) (hn : s.shared name = some (sharer, sharees)) :
    handleIpcMemRecord s c (.mapInfo addr name) =
      ({ shared := Function.update s.shared name
            (some (sharer, insertSharee sharees c ⟨addr, sharer.size⟩))
         sharee := Function.update s.sharee (c, addr) (some name)
         sent := s.sent ++ [(c, ⟨.malloc, addr, sharer.size⟩)] }, .success) := by
  simp only [handleIpcMemRecord, processIPCMapEvent, h, hn, Registry.send]

lemma handle_unmap_none (h : s.sharee (c, addr) = none) :
    handleIpcMemRecord s c (.unmapInfo addr) = (s, .fail) := by
  simp only [handleIpcMemRecord, processIPCUnmapEvent, h]

lemma handle_unmap_gone (h : s.sharee (c, addr) = some name) (hn : s.shared name = none) :
    handleIpcMemRecord s c (.unmapInfo addr) =
      ({ s with sharee := Function.update s.sharee (c, addr) none }, .success) := by
  simp only [handleIpcMemRecord, processIPCUnmapEvent, h, hn]

lemma handle_unmap (h : s.sharee (c, addr) = some name)
    (hn : s.shared name = some (sharer, sharees)) :
    handleIpcMemRecord s c (.unmapInfo addr) =
      ({ shared := Function.update s.shared name
            (some (sharer, sharees.filter fun p => p.1 != c))
         sharee := Function.update s.sharee (c, addr) none
         sent := s.sent ++ [(c, ⟨.free, addr, 0⟩)] }, .success) := by
  simp only [handleIpcMemRecord, processIPCUnmapEvent, h, hn, Registry.send]

lemma step_set_taken {n : ℕ} (h : t.registered name = some n) :
    t.step c (.setInfo addr size name) = t := by
  simp only [Mappings.step, h]

lemma step_set (h : t.registered name = none) :
    t.step c (.setInfo addr size name) =
      { t with registered := Function.update t.registered name (some size) } := by
  simp only [Mappings.step, h]

lemma step_map_unknown (h : t.registered name = none) : t.step c (.mapInfo addr name) = t := by
  simp only [Mappings.step, h]

lemma step_map_taken {m : ℕ × String} (h : t.mapped c addr = some m) :
    t.step c (.mapInfo addr name) = t := by
  unfold Mappings.step
  cases hr : t.registered name <;> simp only [hr, h]

lemma step_map (hr : t.registered name = some size) (h : t.mapped c addr = none) :
    t.step c (.mapInfo addr name) =
      { t with
        mapped := Function.update t.mapped c
          (Function.update (t.mapped c) addr (some (size, name))) } := by
  simp only [Mappings.step, hr, h]

/-- An update of what one connection has mapped at one address. -/
lemma update_mapped (m : ℕ → ℕ → Option (ℕ × String)) (c addr : ℕ) (v : Option (ℕ × String))
    (c' a : ℕ) :
    Function.update m c (Function.update (m c) addr v) c' a =
      if c' = c ∧ a = addr then v else m c' a := by
  by_cases hc : c' = c
  · subst hc
    by_cases ha : a = addr
    · subst ha; simp
    · simp [ha]
  · simp [hc]

end cases

/-! ### One record keeps the invariant -/

variable {s : Registry} {t : Mappings}

lemma inv_init : Inv {} {} where
  registered _ := rfl
  mapped _ _ _ _ h := by cases h
  entry _ _ _ _ _ _ h := by cases h
  nodup _ _ _ h := by cases h
  ranges c addr size := by simp [live]
  frees pre c r suf h := by simp at h

lemma Inv.set (h : Inv s t) (c addr size : ℕ) (name : String) :
    Inv (handleIpcMemRecord s c (.setInfo addr size name)).1
      (t.step c (.setInfo addr size name)) := by
  have hreg := h.registered name
  cases hs : s.shared name with
  | some e =>
    rw [hs, Option.map_some] at hreg
    rw [handle_set_taken hs, step_set_taken hreg]
    exact h
  | none =>
    rw [hs, Option.map_none] at hreg
    rw [handle_set hs, step_set hreg]
    constructor
    · intro n
      by_cases hn : n = name
      · subst hn; simp
      · simp only [Function.update_of_ne hn]
        exact h.registered n
    · intro c' a sz n hm
      obtain ⟨h1, h2⟩ := h.mapped c' a sz n hm
      refine ⟨h1, ?_⟩
      have hn : n ≠ name := by
        rintro rfl
        rw [hreg] at h2
        cases h2
      simp only [Function.update_of_ne hn]
      exact h2
    · intro n sharer sharees c' a sz he hm
      by_cases hn : n = name
      · subst hn
        simp only [Function.update_self, Option.some.injEq, Prod.mk.injEq] at he
        rw [← he.2] at hm
        cases hm
      · simp only [Function.update_of_ne hn] at he
        exact h.entry n sharer sharees c' a sz he hm
    · intro n sharer sharees he
      by_cases hn : n = name
      · subst hn
        simp only [Function.update_self, Option.some.injEq, Prod.mk.injEq] at he
        rw [← he.2]
        exact List.nodup_nil
      · simp only [Function.update_of_ne hn] at he
        exact h.nodup n sharer sharees he
    · exact h.ranges
    · exact h.frees

lemma mem_insertSharee {sharees : List (ℕ × ShareeMemInfo)} {c : ℕ} {info : ShareeMemInfo}
    {p : ℕ × ShareeMemInfo} (h : p ∈ insertSharee sharees c info) :
    p ∈ sharees ∨ p = (c, info) := by
  unfold insertSharee at h
  split_ifs at h
  · exact Or.inl h
  · simpa using h

lemma nodup_insertSharee {sharees : List (ℕ × ShareeMemInfo)} (c : ℕ) (info : ShareeMemInfo)
    (h : (sharees.map Prod.fst).Nodup) :
    ((insertSharee sharees c info).map Prod.fst).Nodup := by
  unfold insertSharee
  split_ifs with hc
  · exact h
  · rw [List.map_append, List.nodup_append]
    refine ⟨h, by simp, ?_⟩
    rintro a ha b hb rfl
    simp only [List.map_cons, List.map_nil, List.mem_singleton] at hb
    exact hc (hb ▸ ha)

lemma Inv.map_ok (h : Inv s t) {c addr : ℕ} {name : String} {sharer : SharerMemInfo}
    {sharees : List (ℕ × ShareeMemInfo)} (hs : s.sharee (c, addr) = none)
    (hn : s.shared name = some (sharer, sharees)) :
    Inv (handleIpcMemRecord s c (.mapInfo addr name)).1 (t.step c (.mapInfo addr name)) := by
  have hreg : t.registered name = some sharer.size := by rw [h.registered, hn]; rfl
  have hfree : t.mapped c addr = none := by
    cases hm : t.mapped c addr with
    | none => rfl
    | some m =>
      rw [(h.mapped c addr m.1 m.2 hm).1] at hs
      cases hs
  rw [handle_map hs hn, step_map hreg hfree]
  constructor
  · intro n
    by_cases he : n = name
    · subst he
      simpa using hreg
    · simp only [Function.update_of_ne he]
      exact h.registered n
  · intro c' a sz n hm
    simp only [update_mapped] at hm
    split_ifs at hm with hca
    · obtain ⟨rfl, rfl⟩ := hca
      cases hm
      exact ⟨by simp, hreg⟩
    · obtain ⟨h1, h2⟩ := h.mapped c' a sz n hm
      refine ⟨?_, h2⟩
      have hne : (c', a) ≠ (c, addr) := by
        rintro ⟨⟩
        exact hca ⟨rfl, rfl⟩
      simp only [Function.update_of_ne hne]
      exact h1
  · intro n sh ss c' a sz he hm
    simp only [update_mapped]
    by_cases hne : n = name
    · subst hne
      simp only [Function.update_self, Option.some.injEq, Prod.mk.injEq] at he
      obtain ⟨rfl, rfl⟩ := he
      rcases mem_insertSharee hm with hm | hm
      · have := h.entry n sharer sharees c' a sz hn hm
        rw [if_neg]
        · exact this
        · rintro ⟨rfl, rfl⟩
          rw [hfree] at this
          cases this
      · cases hm
        rw [if_pos ⟨rfl, rfl⟩]
    · simp only [Function.update_of_ne hne] at he
      have := h.entry n sh ss c' a sz he hm
      rw [if_neg]
      · exact this
      · rintro ⟨rfl, rfl⟩
        rw [hfree] at this
        cases this
  · intro n sh ss he
    by_cases hne : n = name
    · subst hne
      simp only [Function.update_self, Option.some.injEq, Prod.mk.injEq] at he
      obtain ⟨rfl, rfl⟩ := he
      exact nodup_insertSharee _ _ (h.nodup n sharer sharees hn)
    · simp only [Function.update_of_ne hne] at he
      exact h.nodup n sh ss he
  · intro c' a sz
    rw [mem_live_malloc, h.ranges]
    simp only [update_mapped]
    by_cases hca : c' = c ∧ a = addr
    · obtain ⟨rfl, rfl⟩ := hca
      simp [hfree, eq_comm]
    · rw [if_neg hca]
      constructor
      · rintro (hm | ⟨rfl, rfl, rfl⟩)
        · exact hm
        · exact absurd ⟨rfl, rfl⟩ hca
      · exact Or.inl
  · exact noDoubleFree_concat.2 ⟨h.frees, fun ht => by cases ht⟩

lemma Inv.not_mapped (h : Inv s t) {name : String} (hn : s.shared name = none) (c addr size : ℕ) :
    t.mapped c addr ≠ some (size, name) := by
  intro hm
  have := (h.mapped c addr size name hm).2
  rw [h.registered, hn] at this
  cases this

lemma Inv.map (h : Inv s t) {c addr : ℕ} {name : String} (hok : StepOk s t c (.mapInfo addr name)) :
    Inv (handleIpcMemRecord s c (.mapInfo addr name)).1 (t.step c (.mapInfo addr name)) := by
  cases hs : s.sharee (c, addr) with
  | some old =>
    rw [handle_map_taken hs]
    cases hm : t.mapped c addr with
    | some m => rwa [step_map_taken hm]
    | none =>
      cases hr : t.registered name with
      | none => rwa [step_map_unknown hr]
      | some size => exact absurd ⟨hs, hm⟩ (hok (by rw [hr]; rfl) old)
  | none =>
    cases hn : s.shared name with
    | none =>
      have hr : t.registered name = none := by rw [h.registered, hn]; rfl
      rwa [handle_map_unknown hs hn, step_map_unknown hr]
    | some e => exact h.map_ok hs hn

lemma Inv.forget (h : Inv s t) {c addr : ℕ} (hm : t.mapped c addr = none) :
    Inv { s with sharee := Function.update s.sharee (c, addr) none }
      (t.step c (.unmapInfo addr)) := by
  have hsame : ∀ c' a, (t.step c (.unmapInfo addr)).mapped c' a = t.mapped c' a := by
    intro c' a
    simp only [Mappings.step, update_mapped]
    split_ifs with hca
    · rw [hca.1, hca.2, hm]
    · rfl
  refine ⟨h.registered, fun c' a sz n hm' => ?_, fun n sh ss c' a sz he hin => ?_, h.nodup,
    fun c' a sz => ?_, h.frees⟩
  · rw [hsame] at hm'
    obtain ⟨h1, h2⟩ := h.mapped c' a sz n hm'
    refine ⟨?_, h2⟩
    have hne : (c', a) ≠ (c, addr) := by
      rintro ⟨⟩
      rw [hm] at hm'
      cases hm'
    simp only [Function.update_of_ne hne]
    exact h1
  · rw [hsame]
    exact h.entry n sh ss c' a sz he hin
  · simp only [hsame]
    exact h.ranges c' a sz

lemma Inv.unmap_ok (h : Inv s t) {c addr size : ℕ} {name : String} {sharer : SharerMemInfo}
    {sharees : List (ℕ × ShareeMemInfo)} (hm : t.mapped c addr = some (size, name))
    (hn : s.shared name = some (sharer, sharees)) :
    Inv (handleIpcMemRecord s c (.unmapInfo addr)).1 (t.step c (.unmapInfo addr)) := by
  have hs := (h.mapped c addr size name hm).1
  rw [handle_unmap hs hn]
  constructor
  · intro n
    by_cases he : n = name
    · subst he
      simp only [Function.update_self, Mappings.step]
      rw [h.registered, hn]
      rfl
    · simp only [Function.update_of_ne he]
      exact h.registered n
  · intro c' a sz n hm'
    simp only [Mappings.step, update_mapped] at hm'
    split_ifs at hm' with hca
    obtain ⟨h1, h2⟩ := h.mapped c' a sz n hm'
    refine ⟨?_, h2⟩
    have hne : (c', a) ≠ (c, addr) := by
      rintro ⟨⟩
      exact hca ⟨rfl, rfl⟩
    simp only [Function.update_of_ne hne]
    exact h1
  · intro n sh ss c' a sz he hin
    simp only [Mappings.step, update_mapped]
    by_cases hne : n = name
    · subst hne
      simp only [Function.update_self, Option.some.injEq, Prod.mk.injEq] at he
      obtain ⟨rfl, rfl⟩ := he
      obtain ⟨hin, hc⟩ := List.mem_filter.1 hin
      have hc' : c' ≠ c := by simpa using hc
      rw [if_neg fun hca => hc' hca.1]
      exact h.entry n sharer sharees c' a sz hn hin
    · simp only [Function.update_of_ne hne] at he
      have hent := h.entry n sh ss c' a sz he hin
      rw [if_neg]
      · exact hent
      · -- the address is mapped under one name only
        rintro ⟨rfl, rfl⟩
        rw [hm] at hent
        cases hent
        exact hne rfl
  · intro n sh ss he
    by_cases hne : n = name
    · subst hne
      simp only [Function.update_self, Option.some.injEq, Prod.mk.injEq] at he
      obtain ⟨rfl, rfl⟩ := he
      exact (h.nodup n sharer sharees hn).sublist (List.filter_sublist.map _)
    · simp only [Function.update_of_ne hne] at he
      exact h.nodup n sh ss he
  · intro c' a sz
    rw [mem_live_free, h.ranges]
    simp only [Mappings.step, update_mapped]
    by_cases hca : c' = c ∧ a = addr
    · obtain ⟨rfl, rfl⟩ := hca
      simp
    · rw [if_neg hca]
      refine ⟨fun hx => hx.1, fun hx => ⟨hx, ?_⟩⟩
      rintro ⟨rfl, rfl⟩
      exact hca ⟨rfl, rfl⟩
  · exact noDoubleFree_concat.2 ⟨h.frees, fun _ => ⟨size, (h.ranges c addr size).2 ⟨name, hm⟩⟩⟩

lemma Inv.unmap (h : Inv s t) {c addr : ℕ} (hok : StepOk s t c (.unmapInfo addr)) :
    Inv (handleIpcMemRecord s c (.unmapInfo addr)).1 (t.step c (.unmapInfo addr)) := by
  cases hs : s.sharee (c, addr) with
  | none =>
    have hm : t.mapped c addr = none := by
      cases hm : t.mapped c addr with
      | none => rfl
      | some m =>
        rw [(h.mapped c addr m.1 m.2 hm).1] at hs
        cases hs
    rw [handle_unmap_none hs]
    have := h.forget hm
    rwa [← hs, Function.update_eq_self] at this
  | some name =>
    cases hn : s.shared name with
    | none =>
      have hm : t.mapped c addr = none := by
        cases hm : t.mapped c addr with
        | none => rfl
        | some m =>
          have hname := (h.mapped c addr m.1 m.2 hm).1
          rw [hs] at hname
          cases hname
          exact absurd hm (h.not_mapped hn c addr m.1)
      rw [handle_unmap_gone hs hn]
      exact h.forget hm
    | some e =>
      cases hm : t.mapped c addr with
      | none =>
        have := hok name ⟨hs, hm⟩
        rw [h.registered, hn] at this
        cases this
      | some m =>
        have hname := (h.mapped c addr m.1 m.2 hm).1
        rw [hs] at hname
        cases hname
        exact h.unmap_ok hm hn

lemma mapped_destroy (t : Mappings) (c c' a size : ℕ) (name n : String) :
    (t.step c (.destroyInfo name)).mapped c' a = some (size, n) ↔
      t.mapped c' a = some (size, n) ∧ n ≠ name := by
  simp only [Mappings.step, Option.filter_eq_some_iff, bne_iff_ne, ne_eq]

lemma Inv.destroy (h : Inv s t) {c : ℕ} {name : String} (hok : StepOk s t c (.destroyInfo name)) :
    Inv (handleIpcMemRecord s c (.destroyInfo name)).1 (t.step c (.destroyInfo name)) := by
  cases hn : s.shared name with
  | none =>
    rw [handle_destroy_none hn]
    have hkeep : ∀ c' a size n, (t.step c (.destroyInfo name)).mapped c' a = some (size, n) ↔
        t.mapped c' a = some (size, n) := by
      intro c' a size n
      rw [mapped_destroy]
      refine ⟨And.left, fun hm => ⟨hm, ?_⟩⟩
      rintro rfl
      exact h.not_mapped hn c' a size hm
    have hreg : ∀ n, (t.step c (.destroyInfo name)).registered n = t.registered n := by
      intro n
      by_cases he : n = name
      · subst he
        simp only [Mappings.step, Function.update_self]
        rw [h.registered, hn]
        rfl
      · simp only [Mappings.step, Function.update_of_ne he]
    refine ⟨fun n => (hreg n).trans (h.registered n), fun c' a sz n hm => ?_,
      fun n sh ss c' a sz he hin => (hkeep ..).2 (h.entry n sh ss c' a sz he hin), h.nodup,
      fun c' a sz => ?_, h.frees⟩
    · rw [hreg]
      exact h.mapped c' a sz n ((hkeep ..).1 hm)
    · simp only [hkeep]
      exact h.ranges c' a sz
  | some e =>
    obtain ⟨sharer, sharees⟩ := e
    rw [handle_destroy hn]
    constructor
    · intro n
      by_cases he : n = name
      · subst he; simp [Mappings.step]
      · simp only [Mappings.step, Function.update_of_ne he]
        exact h.registered n
    · intro c' a sz n hm
      rw [mapped_destroy] at hm
      obtain ⟨h1, h2⟩ := h.mapped c' a sz n hm.1
      refine ⟨h1, ?_⟩
      simp only [Mappings.step, Function.update_of_ne hm.2]
      exact h2
    · intro n sh ss c' a sz he hin
      by_cases hne : n = name
      · subst hne
        simp at he
      · simp only [Function.update_of_ne hne] at he
        exact (mapped_destroy ..).2 ⟨h.entry n sh ss c' a sz he hin, hne⟩
    · intro n sh ss he
      by_cases hne : n = name
      · subst hne
        simp at he
      · simp only [Function.update_of_ne hne] at he
        exact h.nodup n sh ss he
    · intro c' a sz
      rw [mem_live_frees, h.ranges]
      simp only [mapped_destroy]
      constructor
      · rintro ⟨⟨n, hm⟩, hfree⟩
        refine ⟨n, hm, ?_⟩
        rintro rfl
        obtain ⟨sh, ss, he, hin⟩ := hok c' a sz hm
        rw [hn] at he
        cases he
        exact hfree _ hin rfl
      · rintro ⟨n, hm, hne⟩
        refine ⟨⟨n, hm⟩, fun info hin ha => hne ?_⟩
        have hent := h.entry name sharer sharees c' info.addr info.size hn hin
        rw [ha, hm] at hent
        cases hent
        rfl
    · refine noDoubleFree_frees sharees (h.nodup name sharer sharees hn) h.frees
        fun c' info hin => ?_
      exact ⟨info.size, (h.ranges ..).2
        ⟨name, h.entry name sharer sharees c' info.addr info.size hn hin⟩⟩

/-- **One record** that meets the condition keeps the invariant. -/
lemma Inv.step (h : Inv s t) {c : ℕ} {r : IPCMemRecord} (hok : StepOk s t c r) :
    Inv (handleIpcMemRecord s c r).1 (t.step c r) := by
  cases r with
  | setInfo addr size name => exact h.set c addr size name
  | destroyInfo name => exact h.destroy hok
  | mapInfo addr name => exact h.map hok
  | unmapInfo addr => exact h.unmap hok

/-- A `MAP` that meets the condition fails only for the two reasons it may. -/
lemma Inv.map_fails (h : Inv s t) {c addr : ℕ} {name : String}
    (hok : StepOk s t c (.mapInfo addr name))
    (hf : (handleIpcMemRecord s c (.mapInfo addr name)).2 = .fail) :
    t.registered name = none ∨ (t.mapped c addr).isSome := by
  cases hr : t.registered name with
  | none => exact Or.inl rfl
  | some size =>
    right
    cases hs : s.sharee (c, addr) with
    | some old =>
      cases hm : t.mapped c addr with
      | some m => rfl
      | none => exact absurd ⟨hs, hm⟩ (hok (by rw [hr]; rfl) old)
    | none =>
      cases hn : s.shared name with
      | none =>
        rw [h.registered, hn] at hr
        cases hr
      | some e =>
        rw [handle_map hs hn] at hf
        cases hf

/-- **Exactness of the condition**: a record is treated as it should if and only if it meets
the condition. -/
lemma Inv.good_iff (h : Inv s t) (c : ℕ) (r : IPCMemRecord) :
    StepGood s t c r ↔ StepOk s t c r := by
  constructor
  · intro hg
    cases r with
    | setInfo addr size name => trivial
    | destroyInfo name =>
      intro c' addr size hm
      obtain ⟨_, hreg⟩ := h.mapped c' addr size name hm
      rw [h.registered] at hreg
      obtain ⟨⟨sharer, sharees⟩, hn, _⟩ := Option.map_eq_some_iff.1 hreg
      refine ⟨sharer, sharees, hn, ?_⟩
      by_contra hnot
      have hstill := (hg.ranges c' addr size).1 (by
        rw [handle_destroy hn]
        refine mem_live_frees sharees |>.2 ⟨(h.ranges ..).2 ⟨name, hm⟩, fun info hin ha => ?_⟩
        have hent := h.entry name sharer sharees c' info.addr info.size hn hin
        rw [ha, hm] at hent
        cases hent
        rw [← ha] at hnot
        exact hnot hin)
      obtain ⟨n, hn'⟩ := hstill
      obtain ⟨hm', hne⟩ := (mapped_destroy ..).1 hn'
      rw [hm] at hm'
      cases hm'
      exact hne rfl
    | mapInfo addr name =>
      rintro hreg old ⟨hs, hm⟩
      rcases hg.fails addr name rfl (by rw [handle_map_taken hs]) with hn | hsome
      · rw [hn] at hreg
        cases hreg
      · rw [hm] at hsome
        cases hsome
    | unmapInfo addr =>
      rintro name ⟨hs, hm⟩
      by_contra hreg
      rw [h.registered] at hreg
      obtain ⟨⟨sharer, sharees⟩, hn⟩ := Option.ne_none_iff_exists'.1
        (fun hnone => hreg (by rw [hnone]; rfl) : s.shared name ≠ none)
      have hf := hg.frees
      rw [handle_unmap hs hn] at hf
      obtain ⟨size, hl⟩ := (noDoubleFree_concat.1 hf).2 rfl
      obtain ⟨n, hm'⟩ := (h.ranges ..).1 hl
      rw [hm] at hm'
      cases hm'
  · intro hok
    have hinv := h.step hok
    refine ⟨hinv.ranges, hinv.frees, fun addr name hr hf => ?_⟩
    subst hr
    exact h.map_fails hok hf

lemma Inv.meets_iff (h : Inv s t) (rs : List (ℕ × IPCMemRecord)) :
    Meets s t rs ↔ OkRun s t rs := by
  induction rs generalizing s t with
  | nil => exact Iff.rfl
  | cons e rs ih =>
    obtain ⟨c, r⟩ := e
    constructor
    · rintro ⟨hg, hrest⟩
      have hok := (h.good_iff c r).1 hg
      exact ⟨hok, (ih (h.step hok)).1 hrest⟩
    · rintro ⟨hok, hrest⟩
      exact ⟨(h.good_iff c r).2 hok, (ih (h.step hok)).2 hrest⟩

/-- **The registry.** After every record of a run the ranges at the checkers are those mapped,
no range was freed twice and no `MAP` failed without reason, if and only if every record of the
run meets the condition: a `DESTROY` finds each mapping of its name in the table, so that no
connection holds a second one; no `MAP` to a registered name and, when the name it was mapped
from is registered again, no `UNMAP` is for an address that lost its mapping by a `DESTROY`. -/
theorem registry_exact (rs : List (ℕ × IPCMemRecord)) : Meets {} {} rs ↔ OkRun {} {} rs :=
  inv_init.meets_iff rs

/-- A second mapping of a name is not freed by its `DESTROY`; an address that lost its mapping
so cannot be mapped again; and once the name is set again, its `UNMAP` frees it a second time. -/
theorem registry_loses_mappings :
    ¬ Meets {} {} [(0, .setInfo 4096 16 "m"), (1, .mapInfo 100 "m"), (1, .mapInfo 200 "m"),
        (0, .destroyInfo "m")] ∧
      ¬ Meets {} {} [(0, .setInfo 4096 16 "m"), (1, .mapInfo 100 "m"), (0, .destroyInfo "m"),
        (0, .setInfo 4096 16 "m"), (1, .mapInfo 100 "m")] ∧
      ¬ Meets {} {} [(0, .setInfo 4096 16 "m"), (1, .mapInfo 100 "m"), (0, .destroyInfo "m"),
        (0, .setInfo 4096 16 "m"), (1, .unmapInfo 100)] := by
  simp only [inv_init.meets_iff]
  refine ⟨fun h => ?_, fun h => ?_, fun h => ?_⟩
  · obtain ⟨sharer, sharees, hs, hin⟩ := h.2.2.2.1 1 200 16 rfl
    have hs' : sharees = [(1, ⟨100, 16⟩)] := (congrArg Prod.snd (Option.some.inj hs)).symm
    rw [hs'] at hin
    exact absurd hin (by decide)
  · exact h.2.2.2.2.1 rfl "m" ⟨rfl, rfl⟩
  · exact absurd (h.2.2.2.2.1 "m" ⟨rfl, rfl⟩) (by decide)

end MsSanitizer.IpcRegistry
