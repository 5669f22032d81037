import MsSanitizer.ChangeLog
import MsSanitizer.SimtEntries
import MsSanitizer.SimtRace

/-!
# What the dumps of a SIMT call tell of a byte

Loads and stores of the threads replace the status words of the shadow table one at a time. A
transition that would lose what a word says dumps the whole table before. So the host can tell from
the dumps of a call whether a byte has been written and whether it has been read first: in the
tables always, and in the records as far as the area holds them.
-/

namespace MsSanitizer.SimtSummary

open OnlineShadow SimtRace ChangeLog BoundedRuns

/-! ### The transitions -/

/-- `DoRaceCheck`, `DoInitCheck` and `DoMemCheck`. -/
structure Mode where
  raceCheck : Bool
  initCheck : Bool
  memCheck : Bool
  deriving DecidableEq, Repr

/-- A transition: whether `CopyShadowMemoryToMemInfo` is called before, and the new word. -/
structure Transition where
  dumps : Bool
  newValue : ℕ

def loadForRace (m : OnlineMemoryType) (oldValue : ℕ) (a : Access) : Transition :=
  { dumps := extractMemoryStatus oldValue == some .race && !racing m oldValue a
    newValue := (updateLoadStatusForRace m oldValue a).1 }

def storeForRace (m : OnlineMemoryType) (oldValue : ℕ) (a : Access) : Transition :=
  { dumps := extractMemoryStatus oldValue == some .read ||
      extractMemoryStatus oldValue == some .globalRead
    newValue := (updateStoreStatusForRace m oldValue a).1 }

/-- `UpdateLoadStatusForInit`. -/
def loadForInit (m : OnlineMemoryType) (oldValue : ℕ) (a : Access) : Transition :=
  match extractMemoryStatus oldValue with
  | some .default => ⟨false, construct .read a.thread a.pc m false⟩
  | _ => ⟨false, oldValue⟩

/-- `UpdateStoreStatusForInit`. -/
def storeForInit (m : OnlineMemoryType) (oldValue : ℕ) (a : Access) : Transition :=
  match extractMemoryStatus oldValue with
  | some .default => ⟨false, construct .write a.thread a.pc m false⟩
  | some .read => ⟨true, construct .write a.thread a.pc m false⟩
  | _ => ⟨false, oldValue⟩

/-- The body of the loops of `LoadNBytes` and `StoreNBytes`. -/
def Mode.transition (mode : Mode) (m : OnlineMemoryType) (oldValue : ℕ) (a : Access) :
    Transition :=
  if a.isStore then
    if mode.memCheck || mode.raceCheck then storeForRace m oldValue a
    else storeForInit m oldValue a
  else if !mode.raceCheck && !mode.initCheck then ⟨false, oldValue⟩
  else if mode.raceCheck then loadForRace m oldValue a
  else loadForInit m oldValue a

/-! ### A call -/

/-- An access of a thread to one byte. -/
structure ByteAccess where
  addr : ℕ
  addr_lt : addr < 2 ^ 48
  memType : OnlineMemoryType
  access : Access

/-- What happens in a call: a transition, a barrier of all threads, or a dump by a transition whose
word has been replaced meanwhile, so that it starts again. -/
inductive CallEvent
  | access (b : ByteAccess)
  | syncThreads
  | retry

/-- The word that `LookUp` leads to. -/
def word (t : Table) (addr : ℕ) : ℕ := t (l0Idx addr) (l1Idx addr) (l2Idx addr)

def clearSyncThreadState (t : Table) : Table := fun i j k =>
  if statusIsValid (t i j k) then resetSyncStatus (t i j k) else t i j k

/-- The table of a call, and those that have been dumped so far. -/
structure CallState where
  table : Table := fun _ _ _ => 0
  snapshots : List Table := []

def Mode.step (mode : Mode) (s : CallState) : CallEvent → CallState
  | .access b =>
    let t := mode.transition b.memType (word s.table b.addr) b.access
    { table := s.table.store b.addr t.newValue
      snapshots := if t.dumps then s.snapshots ++ [s.table] else s.snapshots }
  | .syncThreads => { s with table := clearSyncThreadState s.table }
  | .retry => { s with snapshots := s.snapshots ++ [s.table] }

def Mode.run (mode : Mode) (es : List CallEvent) : CallState := es.foldl mode.step {}

def CallState.call (s : CallState) (c : Call) : Call :=
  { c with snapshots := s.snapshots, final := s.table }

/-! ### What the dumps tell -/

/-- The kinds of statuses; what is no read is a write for the host. -/
inductive Kind
  | default | read | write
  deriving DecidableEq, Repr

def kindOf (value : ℕ) : Kind :=
  let memStatus := (value >>> 11) &&& 0xF
  if memStatus = 0 then .default else if isReadStatus memStatus then .read else .write

/-- The statuses of a byte in the tables that are dumped, the last one included. -/
def CallState.kinds (s : CallState) (addr : ℕ) : List Kind :=
  (s.snapshots ++ [s.table]).map fun t => kindOf (word t addr)

/-- The statuses of a byte in the records of the dumps. -/
def recordKinds (blocks : List Block) (addr : ℕ) : List Kind :=
  blocks.flatMap fun b => (b.records.flatMap SimtEntryRecord.cells).filterMap fun e =>
    if e.1 = addr then some (kindOf e.2) else none

def accessesTo (addr : ℕ) (es : List CallEvent) : List Access :=
  es.filterMap fun
    | .access b => if b.addr = addr then some b.access else none
    | _ => none

/-- The statuses of a byte tell if it has been written, and if it has been read first. -/
structure Lossless (accesses : List Access) (kinds : List Kind) : Prop where
  write : Kind.write ∈ kinds ↔ ∃ a ∈ accesses, a.isStore = true
  first : (kinds.filter (· ≠ Kind.default)).head? = some .read ↔
    ∃ a, accesses.head? = some a ∧ a.isStore = false

/-! ### What a dump needs -/

def touched (es : List CallEvent) : List ℕ :=
  es.filterMap fun
    | .access b => some b.addr
    | _ => none

def validBytes (es : List CallEvent) (t : Table) : List (ℕ × ℕ) :=
  ((touched es).dedup.map fun addr => (addr, word t addr)).filter fun e => statusIsValid e.2

/-- A dump of these bytes has room for a record of each, and meets none of the three cases in which
it is not exact anyway. -/
structure Fits (limit : ℕ) (a : Area) (bytes : List (ℕ × ℕ)) : Prop where
  room : a.simtEntryUseSize + headSize + bytes.length * recordSize ≤ limit
  inPlace : InPlace bytes
  short : ¬ Window (2 ^ 16) bytes
  fresh : FreshStart a bytes

def AllFit (limit : ℕ) (c : Call) (bytes : Table → List (ℕ × ℕ)) (isSimtEnd : Bool) :
    Device → List Table → Prop
  | _, [] => True
  | d, t :: ts => Fits limit d.area (bytes t) ∧
      AllFit limit c bytes isSimtEnd (d.dump limit c isSimtEnd t) ts

def CallFits (limit : ℕ) (d : Device) (c : Call) (bytes : Table → List (ℕ × ℕ)) : Prop :=
  AllFit limit c bytes false (d.simtCall c.pc) c.snapshots ∧
    AllFit limit c bytes true ((d.simtCall c.pc).dumps limit c false c.snapshots).1 [c.final]

/-! ### Words and kinds -/

def MemoryByteStatus.kind : MemoryByteStatus → Kind
  | .default => .default
  | .read | .globalRead => .read
  | .write | .race => .write

lemma kindOf_eq {w : ℕ} {s : MemoryByteStatus} (h : extractMemoryStatus w = some s) :
    kindOf w = MemoryByteStatus.kind s := by
  unfold extractMemoryStatus at h
  unfold kindOf
  generalize (w >>> 11) &&& 0xF = c at h ⊢
  match c with
  | 0 | 1 | 2 | 3 | 4 => cases h; rfl
  | _ + 5 => cases h

/-- The words of a table: none, or one with a status. Only loads in race mode leave a byte with
several readers. -/
def Known (mode : Mode) (w : ℕ) : Prop :=
  w = 0 ∨ ∃ s, extractMemoryStatus w = some s ∧ s ≠ .default ∧
    (s = .globalRead → mode.raceCheck = true)

lemma Known.status {mode : Mode} {w : ℕ} (h : Known mode w) :
    ∃ s, extractMemoryStatus w = some s ∧ (s = .globalRead → mode.raceCheck = true) := by
  rcases h with rfl | ⟨s, hs, -, hrace⟩
  · exact ⟨.default, rfl, by simp⟩
  · exact ⟨s, hs, hrace⟩

lemma valid_of_status {w : ℕ} {s : MemoryByteStatus} (h : extractMemoryStatus w = some s)
    (hs : s ≠ .default) : statusIsValid w = true := by
  by_contra hv
  have hw : w = 0 ∨ w = 2 ^ 64 - 1 ∨ w = 1 := by
    unfold statusIsValid at hv
    simp only [Bool.not_eq_true, Bool.and_eq_false_iff, bne_eq_false_iff_eq] at hv
    tauto
  rcases hw with rfl | rfl | rfl
  · exact hs (Option.some.inj h).symm
  · cases h
  · exact hs (Option.some.inj h).symm

lemma Known.valid_iff {mode : Mode} {w : ℕ} (h : Known mode w) :
    statusIsValid w = true ↔ kindOf w ≠ .default := by
  rcases h with rfl | ⟨s, hs, hne, -⟩
  · exact ⟨fun h => (by cases h), fun h => absurd rfl h⟩
  · rw [kindOf_eq hs]
    refine iff_of_true (valid_of_status hs hne) ?_
    cases s with
    | default => exact absurd rfl hne
    | _ => decide

lemma Known.reset {mode : Mode} {w : ℕ} (h : Known mode w) :
    Known mode (if statusIsValid w then resetSyncStatus w else w) ∧
      kindOf (if statusIsValid w then resetSyncStatus w else w) = kindOf w := by
  rcases h with rfl | ⟨s, hs, hne⟩
  · exact ⟨.inl rfl, rfl⟩
  · have hreset : extractMemoryStatus (resetSyncStatus w) = some s := by
      rw [extractMemoryStatus_reset, hs]
    rw [if_pos (valid_of_status hs hne.1)]
    exact ⟨.inr ⟨s, hreset, hne⟩, by rw [kindOf_eq hreset, kindOf_eq hs]⟩

/-! ### What a transition does to the kind -/

/-- A store leaves a write, and a load a read, or a write that was there; and a kind that is lost
has been dumped. -/
def Follows (old : Kind) (isStore dumps : Bool) (new : Kind) : Prop :=
  (if isStore then new = .write else new = .read ∨ old = .write ∧ new = .write) ∧
    (old = .default ∨ new = old ∨ dumps = true)

instance (old : Kind) (isStore dumps : Bool) (new : Kind) :
    Decidable (Follows old isStore dumps new) := inferInstanceAs (Decidable (_ ∧ _))

lemma Follows.of_no_dump {old new : Kind} {isStore dumps : Bool}
    (h : Follows old isStore false new) : Follows old isStore dumps new := by
  refine ⟨h.1, ?_⟩
  rcases h.2 with h | h | h
  · exact .inl h
  · exact .inr (.inl h)
  · cases h

/-- The transition of a word with this status follows the rule, and leaves a byte with several
readers only where it may. -/
def Moves (shares : Bool) (s : MemoryByteStatus) (isStore : Bool) (t : Transition) : Prop :=
  ∃ s', extractMemoryStatus t.newValue = some s' ∧ s' ≠ .default ∧
    (s' = .globalRead → s = .globalRead ∨ shares = true) ∧
    Follows (MemoryByteStatus.kind s) isStore t.dumps (MemoryByteStatus.kind s')

section
variable {m : OnlineMemoryType} {w : ℕ} {a : Access} {s : MemoryByteStatus}

lemma samePc_status (s : MemoryByteStatus) :
    extractMemoryStatus (extractSamePcStatus s w m a) = some s := by
  unfold extractSamePcStatus
  split_ifs
  · exact extractMemoryStatus_construct s (extractThreadId_lt w) _ _ _
  · exact extractMemoryStatus_construct s (thread_lt a) _ _ _

lemma own_status (s : MemoryByteStatus) (x : Bool) :
    extractMemoryStatus (construct s a.thread a.pc m x) = some s :=
  extractMemoryStatus_construct s (thread_lt a) _ _ _

lemma loadForRace_moves (hs : extractMemoryStatus w = some s) :
    Moves true s false (loadForRace m w a) := by
  unfold loadForRace updateLoadStatusForRace
  have hold : ∀ pc, extractMemoryStatus
      (construct .race (extractThreadId w) pc m a.isAtomic) = some .race :=
    fun pc => extractMemoryStatus_construct .race (extractThreadId_lt w) _ _ _
  rw [hs]
  cases s with
  | default => exact ⟨.read, own_status _ _, by decide, by simp, .of_no_dump (by decide)⟩
  | read =>
    dsimp only
    split_ifs
    · exact ⟨.read, own_status _ _, by decide, by simp, .of_no_dump (by decide)⟩
    · exact ⟨.globalRead, samePc_status _, by decide, by simp, .of_no_dump (by decide)⟩
  | globalRead => exact ⟨.globalRead, samePc_status _, by decide, by simp, .of_no_dump (by decide)⟩
  | write =>
    dsimp only
    split_ifs
    · exact ⟨.race, hold _, by decide, by simp, .of_no_dump (by decide)⟩
    · exact ⟨.write, hs, by decide, by simp, .of_no_dump (by decide)⟩
  | race =>
    dsimp only
    split_ifs with hr
    · exact ⟨.race, hold _, by decide, by simp, .of_no_dump (by decide)⟩
    · refine ⟨.read, own_status _ _, by decide, by simp, ?_⟩
      simp only [hr]
      decide

lemma storeForRace_moves (hs : extractMemoryStatus w = some s) :
    Moves false s true (storeForRace m w a) := by
  unfold storeForRace updateStoreStatusForRace
  have hdump : Follows .read true true .write := by decide
  rw [hs]
  cases s with
  | default => exact ⟨.write, own_status _ _, by decide, by simp, .of_no_dump (by decide)⟩
  | read =>
    dsimp only
    split_ifs
    · exact ⟨.race, own_status _ _, by decide, by simp, hdump⟩
    · exact ⟨.write, own_status _ _, by decide, by simp, hdump⟩
  | globalRead =>
    dsimp only
    split_ifs
    · exact ⟨.race, own_status _ _, by decide, by simp, hdump⟩
    · exact ⟨.write, own_status _ _, by decide, by simp, hdump⟩
  | write =>
    dsimp only
    split_ifs
    · exact ⟨.race, samePc_status _, by decide, by simp, .of_no_dump (by decide)⟩
    · exact ⟨.write, own_status _ _, by decide, by simp, .of_no_dump (by decide)⟩
  | race =>
    dsimp only
    split_ifs
    · exact ⟨.race, samePc_status _, by decide, by simp, .of_no_dump (by decide)⟩
    · exact ⟨.write, own_status _ _, by decide, by simp, .of_no_dump (by decide)⟩

lemma loadForInit_moves (hs : extractMemoryStatus w = some s) :
    Moves false s false (loadForInit m w a) := by
  unfold loadForInit
  rw [hs]
  cases s with
  | default => exact ⟨.read, own_status _ _, by decide, by simp, .of_no_dump (by decide)⟩
  | read => exact ⟨.read, hs, by decide, by simp, .of_no_dump (by decide)⟩
  | globalRead => exact ⟨.globalRead, hs, by decide, by simp, .of_no_dump (by decide)⟩
  | write => exact ⟨.write, hs, by decide, by simp, .of_no_dump (by decide)⟩
  | race => exact ⟨.race, hs, by decide, by simp, .of_no_dump (by decide)⟩

lemma storeForInit_moves (hs : extractMemoryStatus w = some s) (hne : s ≠ .globalRead) :
    Moves false s true (storeForInit m w a) := by
  unfold storeForInit
  have hdump : Follows .read true true .write := by decide
  rw [hs]
  cases s with
  | default => exact ⟨.write, own_status _ _, by decide, by simp, .of_no_dump (by decide)⟩
  | read => exact ⟨.write, own_status _ _, by decide, by simp, hdump⟩
  | globalRead => exact absurd rfl hne
  | write => exact ⟨.write, hs, by decide, by simp, .of_no_dump (by decide)⟩
  | race => exact ⟨.race, hs, by decide, by simp, .of_no_dump (by decide)⟩

/-- **Every transition follows the rule**, with race check and without. -/
lemma transition_follows {mode : Mode} (hmode : mode.raceCheck = true ∨ mode.initCheck = true)
    (m : OnlineMemoryType) (hw : Known mode w) (a : Access) :
    Known mode (mode.transition m w a).newValue ∧
      Follows (kindOf w) a.isStore (mode.transition m w a).dumps
        (kindOf (mode.transition m w a).newValue) := by
  obtain ⟨s, hs, hshared⟩ := hw.status
  have hmoves : Moves mode.raceCheck s a.isStore (mode.transition m w a) := by
    unfold Mode.transition
    cases hstore : a.isStore with
    | true =>
      cases hrace : mode.raceCheck with
      | true =>
        obtain ⟨s', hs', hne, -, hf⟩ := storeForRace_moves (m := m) (a := a) hs
        simp only [if_true, Bool.or_true]
        exact ⟨s', hs', hne, fun _ => .inr rfl, hf⟩
      | false =>
        cases hmem : mode.memCheck with
        | true => exact storeForRace_moves hs
        | false =>
          refine storeForInit_moves hs fun hglobal => ?_
          rw [hshared hglobal] at hrace
          cases hrace
    | false =>
      cases hrace : mode.raceCheck with
      | true => exact loadForRace_moves hs
      | false =>
        have hinit : mode.initCheck = true := hmode.resolve_left (by simp [hrace])
        rw [hinit]
        exact loadForInit_moves hs
  obtain ⟨s', hs', hne, hglobal, hf⟩ := hmoves
  rw [kindOf_eq hs, kindOf_eq hs']
  refine ⟨.inr ⟨s', hs', hne, fun h => ?_⟩, hf⟩
  exact (hglobal h).elim hshared id

end

/-! ### The history of a byte -/

/-- The kinds a byte goes through with these accesses, one for each, and the last of them. -/
inductive History : List Access → List Kind → Kind → Prop
  | nil : History [] [] .default
  | snoc {accesses : List Access} {history : List Kind} {old new : Kind} {a : Access}
      {dumps : Bool} : History accesses history old → Follows old a.isStore dumps new →
      History (accesses ++ [a]) (history ++ [new]) new

section
variable {accesses : List Access} {history : List Kind} {current : Kind}

lemma History.length_eq (h : History accesses history current) :
    history.length = accesses.length := by
  induction h with
  | nil => rfl
  | snoc _ _ ih => rw [List.length_append, List.length_append, ih]; rfl

lemma History.last (h : History accesses history current) :
    current = .default ∨ current ∈ history := by
  cases h with
  | nil => exact .inl rfl
  | snoc => exact .inr (by simp)

lemma Follows.store {old new : Kind} {dumps : Bool} (h : Follows old true dumps new) :
    new = .write :=
  h.1

lemma Follows.ne_default {old new : Kind} {isStore dumps : Bool}
    (h : Follows old isStore dumps new) : new ≠ .default := by
  cases isStore with
  | true =>
    rw [h.store]
    decide
  | false =>
    rcases h.1 with h | ⟨-, h⟩
    · rw [h]
      decide
    · rw [h]
      decide

lemma History.ne_default (h : History accesses history current) : .default ∉ history := by
  induction h with
  | nil => exact List.not_mem_nil
  | snoc _ hf ih =>
    rw [List.mem_append, List.mem_singleton]
    exact fun h => h.elim ih fun h => hf.ne_default h.symm

/-- The byte has been written if and only if there is a store. -/
lemma History.write_iff (h : History accesses history current) :
    Kind.write ∈ history ↔ ∃ a ∈ accesses, a.isStore = true := by
  induction h with
  | nil => simp
  | @snoc accesses history old new a dumps h hf ih =>
    simp only [List.mem_append, List.mem_singleton, or_and_right, exists_or, exists_eq_left, ih]
    cases hstore : a.isStore with
    | true =>
      rw [hstore] at hf
      rw [hf.store]
      simp
    | false =>
      rw [hstore] at hf
      rcases hf.1 with hnew | ⟨hold, -⟩
      · simp [hnew]
      · -- a load leaves a write only where there has been one
        have hmem : ∃ a ∈ accesses, a.isStore = true := ih.mp <| by
          rcases h.last with hd | hd
          · rw [hd] at hold
            cases hold
          · exact hold ▸ hd
        simp [hmem]

/-- The first kind is a read if and only if the first access is a load. -/
lemma History.first_iff (h : History accesses history current) :
    history.head? = some .read ↔ ∃ a, accesses.head? = some a ∧ a.isStore = false := by
  induction h with
  | nil => simp
  | @snoc accesses history old new a dumps h hf ih =>
    have hlen := h.length_eq
    cases accesses with
    | cons b accesses =>
      cases history with
      | nil => cases hlen
      | cons k history => simpa using ih
    | nil =>
      obtain rfl : history = [] := List.length_eq_zero_iff.mp hlen
      simp only [List.nil_append, List.head?_cons, Option.some.injEq, exists_eq_left']
      cases hstore : a.isStore with
      | true =>
        rw [hstore] at hf
        rw [hf.store]
        simp
      | false =>
        rw [hstore] at hf
        rcases hf.1 with hnew | ⟨hold, -⟩
        · simp [hnew]
        · -- a byte without a history has no status
          rcases h.last with hd | hd
          · rw [hd] at hold
            cases hold
          · cases hd

/-- What goes through the same changes as the history is lossless. -/
lemma History.lossless (h : History accesses history current) {kinds : List Kind}
    (hkinds : changes .default kinds = changes .default history) : Lossless accesses kinds := by
  have hall : history.filter (· ≠ Kind.default) = history :=
    List.filter_eq_self.mpr fun k hk => by
      simp only [ne_eq, decide_not, Bool.not_eq_true', decide_eq_false_iff_not]
      exact fun hd => h.ne_default (hd ▸ hk)
  constructor
  · rw [← h.write_iff]
    have hmem : Kind.write ∈ changes .default kinds ↔ Kind.write ∈ changes .default history := by
      rw [hkinds]
    rw [mem_changes, mem_changes] at hmem
    simpa using hmem
  · rw [← head?_changes, hkinds, head?_changes, hall]
    exact h.first_iff

end

/-! ### The tables of a run -/

section
variable {mode : Mode} {t : Table} {addrs : List ℕ}

lemma word_store_self (t : Table) (addr v : ℕ) : word (t.store addr v) addr = v := by
  rw [word, Table.store, if_pos ⟨rfl, rfl, rfl⟩]

lemma word_store_ne (t : Table) {addr addr' : ℕ} (v : ℕ) (h : addr < 2 ^ 48) (h' : addr' < 2 ^ 48)
    (hne : addr' ≠ addr) : word (t.store addr v) addr' = word t addr' := by
  rw [word, Table.store, if_neg]
  · rfl
  · rintro ⟨h0, h1, h2⟩
    exact hne (idx_inj h' h h0 h1 h2)

/-- All words of a table are known, and belong to these bytes. -/
structure Shown (mode : Mode) (addrs : List ℕ) (t : Table) : Prop where
  known : ∀ i j k, Known mode (t i j k)
  covered : ∀ i j k, t i j k ≠ 0 →
    ∃ addr ∈ addrs, addr < 2 ^ 48 ∧ i = l0Idx addr ∧ j = l1Idx addr ∧ k = l2Idx addr

lemma Shown.mono (h : Shown mode addrs t) {addrs' : List ℕ} (hsub : addrs ⊆ addrs') :
    Shown mode addrs' t :=
  ⟨h.known, fun i j k hne =>
    let ⟨addr, hmem, hidx⟩ := h.covered i j k hne
    ⟨addr, hsub hmem, hidx⟩⟩

lemma Shown.store (h : Shown mode addrs t) {addr v : ℕ} (hv : Known mode v)
    (haddr : addr < 2 ^ 48) :
    Shown mode (addrs ++ [addr]) (t.store addr v) := by
  constructor
  · intro i j k
    rw [Table.store]
    split_ifs
    · exact hv
    · exact h.known i j k
  · intro i j k hne
    rw [Table.store] at hne
    split_ifs at hne with hidx
    · exact ⟨addr, by simp, haddr, hidx⟩
    · obtain ⟨addr', hmem, hidx'⟩ := h.covered i j k hne
      exact ⟨addr', List.mem_append_left _ hmem, hidx'⟩

lemma Shown.clear (h : Shown mode addrs t) : Shown mode addrs (clearSyncThreadState t) := by
  refine ⟨fun i j k => (h.known i j k).reset.1, fun i j k hne => h.covered i j k fun hzero => ?_⟩
  refine hne ?_
  rw [clearSyncThreadState, hzero]
  rfl

end

/-! ### Runs -/

@[simp] lemma accessesTo_retry (addr : ℕ) (es : List CallEvent) :
    accessesTo addr (es ++ [.retry]) = accessesTo addr es := by simp [accessesTo]

@[simp] lemma accessesTo_syncThreads (addr : ℕ) (es : List CallEvent) :
    accessesTo addr (es ++ [.syncThreads]) = accessesTo addr es := by simp [accessesTo]

lemma accessesTo_access (addr : ℕ) (es : List CallEvent) (b : ByteAccess) :
    accessesTo addr (es ++ [.access b]) =
      if b.addr = addr then accessesTo addr es ++ [b.access] else accessesTo addr es := by
  rw [accessesTo, List.filterMap_append]
  split_ifs with h <;> simp [accessesTo, h]

@[simp] lemma touched_retry (es : List CallEvent) : touched (es ++ [.retry]) = touched es := by
  simp [touched]

@[simp] lemma touched_syncThreads (es : List CallEvent) :
    touched (es ++ [.syncThreads]) = touched es := by simp [touched]

@[simp] lemma touched_access (es : List CallEvent) (b : ByteAccess) :
    touched (es ++ [.access b]) = touched es ++ [b.addr] := by simp [touched]

/-- The kinds of a byte in the tables dumped so far, and its kind now. -/
def CallState.log (s : CallState) (addr : ℕ) : Log Kind :=
  ⟨s.snapshots.map fun t => kindOf (word t addr), kindOf (word s.table addr)⟩

lemma kinds_eq (s : CallState) (addr : ℕ) :
    s.kinds addr = (s.log addr).entries ++ [(s.log addr).current] := by
  rw [CallState.kinds, List.map_append]
  rfl

/-- The tables of a run are shown by its accesses, and for every byte the dumps tell its history. -/
structure Summarised (mode : Mode) (es : List CallEvent) (s : CallState) : Prop where
  shown : ∀ t ∈ s.snapshots ++ [s.table], Shown mode (touched es) t
  told : ∀ addr < 2 ^ 48, ∃ history,
    History (accessesTo addr es) history (kindOf (word s.table addr)) ∧
      (s.log addr).told .default = changes .default history

section
variable {mode : Mode} {es : List CallEvent} {s : CallState}

lemma summarised_start (mode : Mode) : Summarised mode [] {} where
  shown t ht := by
    obtain rfl : t = fun _ _ _ => 0 := by simpa using ht
    exact ⟨fun _ _ _ => .inl rfl, fun _ _ _ h => absurd rfl h⟩
  told addr _ := by
    have hkind : kindOf (word ({} : CallState).table addr) = .default := by
      rw [show word ({} : CallState).table addr = 0 from rfl]
      decide
    refine ⟨[], by rw [hkind]; exact .nil, ?_⟩
    rw [CallState.log, hkind]
    rfl

lemma log_snapshot (s : CallState) (addr : ℕ) :
    ({ s with snapshots := s.snapshots ++ [s.table] } : CallState).log addr =
      ⟨(s.log addr).entries ++ [(s.log addr).current], (s.log addr).current⟩ := by
  simp [CallState.log]

lemma Summarised.retry (h : Summarised mode es s) :
    Summarised mode (es ++ [.retry]) (mode.step s .retry) := by
  constructor
  · intro t ht
    rw [touched_retry]
    exact h.shown t (by simpa [Mode.step] using ht)
  · intro addr haddr
    rw [accessesTo_retry, Mode.step, log_snapshot, Log.told_note]
    exact h.told addr haddr

lemma Summarised.syncThreads (h : Summarised mode es s) :
    Summarised mode (es ++ [.syncThreads]) (mode.step s .syncThreads) := by
  have htable : Shown mode (touched es) s.table := h.shown _ (by simp)
  constructor
  · intro t ht
    rw [touched_syncThreads]
    rcases List.mem_append.mp ht with ht | ht
    · exact h.shown t (List.mem_append_left _ ht)
    · rw [List.mem_singleton.mp ht]
      exact htable.clear
  · intro addr haddr
    have hkind : kindOf (word (clearSyncThreadState s.table) addr) = kindOf (word s.table addr) :=
      (htable.known _ _ _).reset.2
    rw [accessesTo_syncThreads, Mode.step, CallState.log]
    dsimp only
    rw [hkind]
    exact h.told addr haddr

/-- The tables that are dumped with a transition are those before, and the one it finds. -/
lemma mem_snapshots {dumps : Bool} {t : Table}
    (ht : t ∈ if dumps then s.snapshots ++ [s.table] else s.snapshots) :
    t ∈ s.snapshots ++ [s.table] := by
  cases dumps with
  | true => exact ht
  | false => exact List.mem_append_left _ ht

/-- A byte that is not accessed keeps its word, and may be dumped. -/
lemma told_frame (s : CallState) {addr : ℕ} {t' : Table} {dumps : Bool}
    (hword : word t' addr = word s.table addr) :
    (({ table := t', snapshots := if dumps then s.snapshots ++ [s.table] else s.snapshots } :
      CallState).log addr).told .default = (s.log addr).told .default := by
  rw [CallState.log]
  dsimp only
  rw [hword]
  cases dumps with
  | true =>
    rw [← Log.told_note (s := s.log addr)]
    simp [CallState.log]
  | false => rfl

lemma told_access (s : CallState) {addr : ℕ} {t' : Table} {isStore dumps : Bool}
    (hf : Follows (kindOf (word s.table addr)) isStore dumps (kindOf (word t' addr))) :
    (({ table := t', snapshots := if dumps then s.snapshots ++ [s.table] else s.snapshots } :
      CallState).log addr).told .default =
        push .default ((s.log addr).told .default) (kindOf (word t' addr)) := by
  cases dumps with
  | true =>
    rw [← Log.told_overwrite]
    simp [CallState.log]
  | false =>
    refine Log.told_set (s := s.log addr) ?_
    rcases hf.2 with h | h | h
    · exact .inl h
    · exact .inr h
    · cases h

lemma Summarised.access (hmode : mode.raceCheck = true ∨ mode.initCheck = true)
    (h : Summarised mode es s) (b : ByteAccess) :
    Summarised mode (es ++ [.access b]) (mode.step s (.access b)) := by
  have htable : Shown mode (touched es) s.table := h.shown _ (by simp)
  obtain ⟨hknown, hf⟩ := transition_follows hmode b.memType (htable.known _ _ _) b.access
  constructor
  · intro t ht
    rw [touched_access]
    rcases List.mem_append.mp ht with ht | ht
    · exact (h.shown t (mem_snapshots ht)).mono (List.subset_append_left _ _)
    · rw [List.mem_singleton.mp ht]
      exact htable.store hknown b.addr_lt
  · intro addr haddr
    obtain ⟨history, hhistory, htold⟩ := h.told addr haddr
    rw [accessesTo_access]
    by_cases hb : b.addr = addr
    · subst hb
      have hnew := word_store_self s.table b.addr
        (mode.transition b.memType (word s.table b.addr) b.access).newValue
      have hfollows : Follows (kindOf (word s.table b.addr)) b.access.isStore
          (mode.transition b.memType (word s.table b.addr) b.access).dumps
          (kindOf (word (mode.step s (.access b)).table b.addr)) := by
        rw [Mode.step]
        dsimp only
        rw [hnew]
        exact hf
      refine ⟨history ++ [kindOf (word (mode.step s (.access b)).table b.addr)], ?_, ?_⟩
      · rw [if_pos rfl]
        exact .snoc hhistory hfollows
      · rw [changes_concat, ← htold]
        exact told_access s hfollows
    · have hframe := word_store_ne s.table
        (mode.transition b.memType (word s.table b.addr) b.access).newValue b.addr_lt haddr
        (Ne.symm hb)
      rw [if_neg hb]
      refine ⟨history, ?_, ?_⟩
      · rw [Mode.step]
        dsimp only
        rw [hframe]
        exact hhistory
      · rw [Mode.step, told_frame s hframe, htold]

/-- **The dumps tell the history of every byte**, after every run. -/
lemma summarised_run (hmode : mode.raceCheck = true ∨ mode.initCheck = true)
    (es : List CallEvent) : Summarised mode es (mode.run es) := by
  induction es using List.reverseRecOn with
  | nil => exact summarised_start mode
  | append_singleton es e ih =>
    rw [Mode.run, List.foldl_append, List.foldl_cons, List.foldl_nil]
    cases e with
    | access b => exact ih.access hmode b
    | syncThreads => exact ih.syncThreads
    | retry => exact ih.retry

lemma Summarised.lossless (h : Summarised mode es s) {addr : ℕ} (haddr : addr < 2 ^ 48) :
    Lossless (accessesTo addr es) (s.kinds addr) := by
  obtain ⟨history, hhistory, htold⟩ := h.told addr haddr
  refine hhistory.lossless ?_
  rw [kinds_eq]
  exact htold

end

/-! ### The records of a dump -/

section
variable {mode : Mode} {es : List CallEvent} {t : Table}

lemma mem_validBytes {e : ℕ × ℕ} :
    e ∈ validBytes es t ↔ e.1 ∈ touched es ∧ e.2 = word t e.1 ∧ statusIsValid e.2 = true := by
  rw [validBytes, List.mem_filter, List.mem_map]
  constructor
  · rintro ⟨⟨addr, haddr, rfl⟩, hv⟩
    exact ⟨List.mem_dedup.mp haddr, rfl, hv⟩
  · rintro ⟨haddr, hword, hv⟩
    exact ⟨⟨e.1, List.mem_dedup.mpr haddr, by rw [← hword]⟩, hv⟩

lemma addr_lt_of_touched {addr : ℕ} (h : addr ∈ touched es) : addr < 2 ^ 48 := by
  obtain ⟨e, -, he⟩ := List.mem_filterMap.mp h
  cases e with
  | access b =>
    cases he
    exact b.addr_lt
  | syncThreads => cases he
  | retry => cases he

lemma storable_validBytes (es : List CallEvent) (t : Table) : Storable (validBytes es t) where
  nodup := by
    refine List.Nodup.sublist (List.filter_sublist.map _) ?_
    rw [List.map_map]
    simpa [Function.comp_def] using List.nodup_dedup (touched es)
  addr_lt e he := addr_lt_of_touched (mem_validBytes.mp he).1
  valid e he := (mem_validBytes.mp he).2.2

lemma Known.valid_of_ne_zero {w : ℕ} (h : Known mode w) (hne : w ≠ 0) : statusIsValid w = true := by
  rcases h with rfl | ⟨s, hs, hdefault, -⟩
  · exact absurd rfl hne
  · exact valid_of_status hs hdefault

/-- A table that is shown is what its bytes with a status make of an empty one. -/
lemma Shown.stored_eq (h : Shown mode (touched es) t) : stored (validBytes es t) = t := by
  have hs := storable_validBytes es t
  have hat : ∀ i j k, t i j k ≠ 0 → stored (validBytes es t) i j k = t i j k := by
    intro i j k hne
    obtain ⟨addr, hmem, -, rfl, rfl, rfl⟩ := h.covered i j k hne
    exact stored_at hs (b := (addr, word t addr))
      (mem_validBytes.mpr ⟨hmem, rfl, (h.known _ _ _).valid_of_ne_zero hne⟩)
  funext i j k
  by_cases hne : t i j k = 0
  · by_contra hstored
    rw [hne] at hstored
    obtain ⟨b, hb, rfl, rfl, rfl⟩ := exists_of_stored hstored
    obtain ⟨-, hword, hv⟩ := mem_validBytes.mp hb
    rw [hword, word, hne] at hv
    cases hv
  · exact hat i j k hne

/-- The kind of a byte in a list of bytes, if it is there. -/
def kindsAt (addr : ℕ) (bytes : List (ℕ × ℕ)) : List Kind :=
  bytes.filterMap fun e => if e.1 = addr then some (kindOf e.2) else none

lemma kindsAt_of_mem {bytes : List (ℕ × ℕ)} (hnd : (bytes.map Prod.fst).Nodup) {addr v : ℕ}
    (h : (addr, v) ∈ bytes) : kindsAt addr bytes = [kindOf v] := by
  induction bytes with
  | nil => cases h
  | cons e bytes ih =>
    rw [List.map_cons, List.nodup_cons] at hnd
    rw [kindsAt, List.filterMap_cons]
    rcases List.mem_cons.mp h with rfl | h
    · have hnone : kindsAt addr bytes = [] := by
        rw [kindsAt, List.filterMap_eq_nil_iff]
        intro e he
        rw [if_neg]
        rintro rfl
        exact hnd.1 (List.mem_map.mpr ⟨e, he, rfl⟩)
      rw [if_pos rfl]
      exact congrArg _ hnone
    · have hne : e.1 ≠ addr := fun heq => hnd.1 (heq ▸ List.mem_map_of_mem (f := Prod.fst) h)
      rw [if_neg hne]
      exact ih hnd.2 h

lemma kindsAt_of_not_mem {bytes : List (ℕ × ℕ)} {addr : ℕ} (h : ∀ e ∈ bytes, e.1 ≠ addr) :
    kindsAt addr bytes = [] := by
  rw [kindsAt, List.filterMap_eq_nil_iff]
  exact fun e he => if_neg (h e he)

/-- The bytes with a status give the kind of every byte that has one. -/
lemma Shown.kindsAt (h : Shown mode (touched es) t) {addr : ℕ} (haddr : addr < 2 ^ 48) :
    kindsAt addr (validBytes es t) = [kindOf (word t addr)].filter (· ≠ Kind.default) := by
  have hknown : Known mode (word t addr) := h.known _ _ _
  by_cases hv : statusIsValid (word t addr) = true
  · have hne : t (l0Idx addr) (l1Idx addr) (l2Idx addr) ≠ 0 := by
      intro hzero
      rw [word, hzero] at hv
      cases hv
    obtain ⟨addr', hmem, haddr', h0, h1, h2⟩ := h.covered _ _ _ hne
    obtain rfl := idx_inj haddr haddr' h0 h1 h2
    have hbyte : (addr, word t addr) ∈ validBytes es t := mem_validBytes.mpr ⟨hmem, rfl, hv⟩
    rw [kindsAt_of_mem (storable_validBytes es t).nodup hbyte]
    exact (List.filter_eq_self.mpr (by simpa using hknown.valid_iff.mp hv)).symm
  · have hdefault : kindOf (word t addr) = .default := by
      by_contra hne
      exact hv (hknown.valid_iff.mpr hne)
    rw [kindsAt_of_not_mem, hdefault]
    · rfl
    · rintro e he rfl
      obtain ⟨-, hword, hvalid⟩ := mem_validBytes.mp he
      exact hv (hword ▸ hvalid)

end

/-! ### Dumps that fit -/

section
variable {mode : Mode} {es : List CallEvent} {limit : ℕ} {c : Call} {isSimtEnd : Bool}

lemma recordKinds_cons (b : Block) (bs : List Block) (addr : ℕ) :
    recordKinds (b :: bs) addr =
      kindsAt addr (b.records.flatMap SimtEntryRecord.cells) ++ recordKinds bs addr :=
  List.flatMap_cons ..

lemma recordKinds_append (bs bs' : List Block) (addr : ℕ) :
    recordKinds (bs ++ bs') addr = recordKinds bs addr ++ recordKinds bs' addr :=
  List.flatMap_append ..

/-- A dump that fits gives the kind of every byte in the table. -/
lemma kindsAt_dump (c : Call) (isSimtEnd : Bool) {d : Device} {t : Table}
    (ht : Shown mode (touched es) t)
    (hfit : Fits limit d.area (validBytes es t)) {addr : ℕ} (haddr : addr < 2 ^ 48) :
    kindsAt addr (((d.dump limit c isSimtEnd t).area.blockAt
      d.area.simtEntryUseSize).records.flatMap SimtEntryRecord.cells) =
        [kindOf (word t addr)].filter (· ≠ Kind.default) := by
  have hround := roundTrip_of limit
    { mainScalarPc := d.getSimtCallPc, threadXDim := c.threadXDim, threadYDim := c.threadYDim,
      threadZDim := c.threadZDim } isSimtEnd (storable_validBytes es t) hfit.room hfit.inPlace
    hfit.short hfit.fresh
  rw [RoundTrip, ht.stored_eq] at hround
  have hperm : (kindsAt addr _).Perm (kindsAt addr (validBytes es t)) := hround.filterMap _
  rw [ht.kindsAt haddr] at hperm
  have hlen : ([kindOf (word t addr)].filter (· ≠ Kind.default)).length ≤ 1 :=
    List.length_filter_le _ _
  -- a list of one element at most has no other order
  generalize [kindOf (word t addr)].filter (· ≠ Kind.default) = ks at hperm hlen
  match ks with
  | [] => exact hperm.eq_nil
  | [k] => exact List.perm_singleton.mp hperm

lemma recordKinds_dumps {d : Device} {ts : List Table}
    (hts : ∀ t ∈ ts, Shown mode (touched es) t)
    (hfit : AllFit limit c (validBytes es) isSimtEnd d ts) {addr : ℕ} (haddr : addr < 2 ^ 48) :
    recordKinds (d.dumps limit c isSimtEnd ts).2 addr =
      (ts.map fun t => kindOf (word t addr)).filter (· ≠ Kind.default) := by
  induction ts generalizing d with
  | nil => rfl
  | cons t ts ih =>
    obtain ⟨hfirst, hrest⟩ := hfit
    have hdump := kindsAt_dump c isSimtEnd (hts t List.mem_cons_self) hfirst haddr
    rw [Device.dumps]
    dsimp only
    rw [recordKinds_cons, hdump, ih (fun t ht => hts t (List.mem_cons_of_mem _ ht)) hrest,
      List.map_cons, ← List.filter_append, List.singleton_append]

/-- If all dumps of a call fit, the records tell what the tables tell. -/
lemma recordKinds_call {s : CallState} (h : Summarised mode es s) {d : Device}
    (hfit : CallFits limit d (s.call c) (validBytes es)) {addr : ℕ} (haddr : addr < 2 ^ 48) :
    recordKinds (d.call limit (s.call c)).2 addr = (s.kinds addr).filter (· ≠ Kind.default) := by
  obtain ⟨hsnapshots, hfinal⟩ := hfit
  have hshown : ∀ t ∈ (s.call c).snapshots ++ [(s.call c).final], Shown mode (touched es) t :=
    h.shown
  have hs := recordKinds_dumps (fun t ht => hshown t (List.mem_append_left _ ht)) hsnapshots haddr
  have he := recordKinds_dumps (fun t ht => hshown t (List.mem_append_right _ ht)) hfinal haddr
  rw [Device.call, recordKinds_append, hs, he, CallState.kinds, List.map_append,
    List.filter_append]
  rfl

end

lemma lossless_filter {accesses : List Access} {kinds : List Kind} (h : Lossless accesses kinds) :
    Lossless accesses (kinds.filter (· ≠ Kind.default)) := by
  constructor
  · rw [← h.write]
    simp
  · rw [← h.first, List.filter_filter]
    simp

/-- **The dumps of a call are lossless** in its tables, and in its records if all of them fit: they
tell of every byte whether it has been written and whether it has been read first. -/
theorem summary_lossless (mode : Mode) (hmode : mode.raceCheck = true ∨ mode.initCheck = true)
    (es : List CallEvent) (addr : ℕ) (haddr : addr < 2 ^ 48) :
    Lossless (accessesTo addr es) ((mode.run es).kinds addr) ∧
      ∀ (limit : ℕ) (d : Device) (c : Call),
        CallFits limit d ((mode.run es).call c) (validBytes es) →
          Lossless (accessesTo addr es)
            (recordKinds (d.call limit ((mode.run es).call c)).2 addr) := by
  have h := summarised_run hmode es
  refine ⟨h.lossless haddr, fun limit d c hfit => ?_⟩
  rw [recordKinds_call h hfit haddr]
  exact lossless_filter (h.lossless haddr)

/-! ### An area that is full -/

/-- Once there is no room for a record, none is written. -/
lemma recordWriteCount_full {limit base : ℕ} {s : CopyState} (h : limit < s.useSize + recordSize)
    (es : List (ℕ × ℕ)) :
    (es.foldl (copyByte limit base) s).recordWriteCount = s.recordWriteCount := by
  induction es generalizing s with
  | nil => rfl
  | cons e es ih =>
    have hbyte : copyByte limit base s e = { s with exceedSize := s.exceedSize + recordSize } :=
      if_neg (not_le.mpr h)
    rw [List.foldl_cons, hbyte]
    exact ih h

/-- A dump into an area without room for a record shows nothing. -/
lemma records_full {limit : ℕ} {d : Device} (h : limit < d.area.simtEntryUseSize + headSize +
    recordSize) (c : Call) (isSimtEnd : Bool) (t : Table) :
    ((d.dump limit c isSimtEnd t).area.blockAt d.area.simtEntryUseSize).records = [] := by
  have hcount : (copyLoop limit d.area t).recordWriteCount = 0 := by
    rw [copyLoop, recordWriteCount_full h]
  obtain ⟨info, harea⟩ := dump_area limit c d isSimtEnd t
  rw [Area.blockAt, harea, Area.close_recordsAt, hcount, List.range_zero, List.map_nil]

def storeOnce : List CallEvent :=
  [.access
    { addr := 0x1000
      addr_lt := by norm_num
      memType := .gm
      access := ⟨0, by decide, 8, true, false⟩ }]

def raceMode : Mode := ⟨true, false, false⟩

def storeCall : Call := (raceMode.run storeOnce).call ⟨8, 32, 1, 1, [], fun _ _ _ => 0⟩

def emptyArea : Device := start (fun _ => {}) fun _ => {}

def loadThenStore : List CallEvent :=
  .access
    { addr := 0x1000
      addr_lt := by norm_num
      memType := .gm
      access := ⟨0, by decide, 8, false, false⟩ } :: storeOnce

/-- The call of the load and the store: the table with the load is dumped before the store. -/
def loadStoreCall : Call := (raceMode.run loadThenStore).call ⟨8, 32, 1, 1, [], fun _ _ _ => 0⟩

/-- One byte fits into an area with room for it that holds nothing there. -/
lemma fits_byte {limit w : ℕ} {a : Area}
    (hroom : a.simtEntryUseSize + headSize + recordSize ≤ limit)
    (hempty : a.records (a.simtEntryUseSize + headSize) = {}) : Fits limit a [(0x1000, w)] where
  room := by simpa using hroom
  inPlace := by
    intro b hb
    rw [List.mem_singleton.mp hb]
    change 0x1000 / onlineLocalMemMask = 0x1000 / 2 ^ 32
    decide
  short := by
    rintro ⟨x, v, hw⟩
    have h0 := hw 0 (by norm_num)
    have h1 := hw 1 (by norm_num)
    simp only [List.mem_singleton, Prod.mk.injEq] at h0 h1
    omega
  fresh := by
    intro b hb _ hmerge
    rw [List.mem_singleton.mp hb, hempty] at hmerge
    have haddr : (0 : ℕ) = 0x1000 := hmerge.2
    omega

/-- The loop over a table with one byte writes one record. -/
lemma copyLoop_byte {limit : ℕ} {a : Area} {t : Table} {e : ℕ × ℕ} (he : entries t = [e])
    (hroom : a.simtEntryUseSize + headSize + recordSize ≤ limit)
    (hfresh : ¬ canMerge (a.records (a.simtEntryUseSize + headSize)) e) :
    copyLoop limit a t =
      { records := Function.update a.records (a.simtEntryUseSize + headSize) ⟨e.1, e.2, 1⟩
        useSize := a.simtEntryUseSize + headSize + recordSize
        recordCount := 1
        recordWriteCount := 1 } := by
  unfold copyLoop
  rw [he, List.foldl_cons, List.foldl_nil, copyByte, if_pos hroom]
  simp only [gt_iff_lt, lt_irrefl, if_false, hfresh, Nat.zero_mul, Nat.add_zero, Nat.zero_add]

/-- Both dumps of the call fit into an area with room for two of them. -/
lemma callFits_loadStoreCall : CallFits 176 emptyArea loadStoreCall (validBytes loadThenStore) := by
  obtain ⟨t, ht⟩ : ∃ t, loadStoreCall.snapshots = [t] := ⟨_, rfl⟩
  have hbytes : loadStoreCall.snapshots.map (validBytes loadThenStore) =
      [[(0x1000, 0x880000800)]] := by decide
  have hfinal : validBytes loadThenStore loadStoreCall.final = [(0x1000, 0x880001800)] := by decide
  rw [ht, List.map_singleton, List.singleton_inj] at hbytes
  -- the table of the snapshot holds the byte of the load and nothing else
  have hshown : Shown raceMode (touched loadThenStore) t := by
    refine (summarised_run (.inl rfl) loadThenStore).shown t (List.mem_append_left _ ?_)
    change t ∈ loadStoreCall.snapshots
    simp [ht]
  have hfits : Fits 176 (emptyArea.simtCall 8).area (validBytes loadThenStore t) :=
    hbytes ▸ fits_byte (by decide) rfl
  have hentries : entries t = [(0x1000, 0x880000800)] := by
    have hperm := hfits.inPlace.entries_perm (storable_validBytes loadThenStore t)
    rwa [hshown.stored_eq, hbytes, List.perm_singleton] at hperm
  obtain ⟨info, harea⟩ := dump_area 176 loadStoreCall (emptyArea.simtCall 8) false t
  rw [copyLoop_byte hentries (by decide) (by decide)] at harea
  refine ⟨ht ▸ ⟨hfits, trivial⟩, ?_, trivial⟩
  rw [ht, hfinal]
  change Fits 176 ((emptyArea.simtCall 8).dump 176 loadStoreCall false t).area _
  rw [harea]
  refine fits_byte ?_ rfl
  change (emptyArea.simtCall 8).area.simtEntryUseSize + headSize + recordSize + headSize +
    recordSize ≤ 176
  decide

/-- The load and the store are found in the tables and, in an area with room for two dumps, in
their records. -/
theorem summary_lossless_loadStore :
    Lossless (accessesTo 0x1000 loadThenStore) ((raceMode.run loadThenStore).kinds 0x1000) ∧
      Lossless (accessesTo 0x1000 loadThenStore)
        (recordKinds (emptyArea.call 176 loadStoreCall).2 0x1000) := by
  obtain ⟨htables, hrecords⟩ :=
    summary_lossless raceMode (.inl rfl) loadThenStore 0x1000 (by norm_num)
  exact ⟨htables, hrecords 176 emptyArea _ callFits_loadStoreCall⟩

/-- In an area with room for a head only, no record tells of the store. -/
theorem full_area_loses_store :
    ¬ Lossless (accessesTo 0x1000 storeOnce)
      (recordKinds (emptyArea.call 64 storeCall).2 0x1000) := by
  intro h
  have hnone : recordKinds (emptyArea.call 64 storeCall).2 0x1000 = [] := by
    have hfull : 64 < (emptyArea.simtCall 8).area.simtEntryUseSize + headSize + recordSize := by
      decide
    have hrecords := records_full hfull storeCall true storeCall.final
    have hblocks : (emptyArea.call 64 storeCall).2 =
        [((emptyArea.simtCall 8).dump 64 storeCall true storeCall.final).area.blockAt
          (emptyArea.simtCall 8).area.simtEntryUseSize] := rfl
    rw [hblocks, recordKinds_cons, hrecords]
    rfl
  rw [hnone] at h
  cases h.write.mpr ⟨_, List.mem_singleton_self _, rfl⟩

end MsSanitizer.SimtSummary
