import MsSanitizer.OnlineShadowTable

/-!
# Races between SIMT threads

One word stands for the history of a byte: its status, the thread and the program counter of one
access, whether this access was atomic, and whether a barrier has come after it. A load or a store
replaces the word by an atomic compare and swap; the steps here are the successful ones. Behind a
barrier of all threads the bit for a possible race is taken from every word, and at the end of a
call the words are cleared. All accesses to a byte are to the same kind of memory.
-/

namespace MsSanitizer.SimtRace

open OnlineShadow (statusIsValid)

inductive MemoryByteStatus
  | default | read | globalRead | write | race
  deriving DecidableEq, Repr

def MemoryByteStatus.code : MemoryByteStatus → ℕ
  | .default => 0 | .read => 1 | .globalRead => 2 | .write => 3 | .race => 4

def MemoryByteStatus.ofCode : ℕ → Option MemoryByteStatus
  | 0 => some .default | 1 => some .read | 2 => some .globalRead | 3 => some .write
  | 4 => some .race | _ => none

inductive OnlineMemoryType
  | gm | ub
  deriving DecidableEq, Repr

def OnlineMemoryType.code : OnlineMemoryType → ℕ
  | .gm => 0 | .ub => 1

/-! ### The word -/

/-- `MemoryByteStatusParser::Construct`, with the default for `syncThreadState`. -/
def construct (memoryStatus : MemoryByteStatus) (threadId pc : ℕ) (memoryType : OnlineMemoryType)
    (isAtomic : Bool) : ℕ :=
  (pc <<< 32) % 2 ^ 64 ||| (1 &&& 0x1) <<< 31 ||| (memoryType.code &&& 0x1) <<< 30 |||
    (isAtomic.toNat &&& 0x1) <<< 15 ||| (memoryStatus.code &&& 0xF) <<< 11 ||| (threadId &&& 0x7FF)

def extractMemoryStatus (val : ℕ) : Option MemoryByteStatus :=
  MemoryByteStatus.ofCode ((val >>> 11) &&& 0xF)

def extractThreadId (val : ℕ) : ℕ := val &&& 0x7FF

def extractPc (val : ℕ) : ℕ := (val >>> 32) &&& 0xFFFF

def extractSyncStatus (val : ℕ) : ℕ := (val >>> 31) &&& 0x1

def extractMemoryType (val : ℕ) : ℕ := (val >>> 30) &&& 0x1

def extractAtomicStatus (val : ℕ) : Bool := (val >>> 15) &&& 0x1 != 0

/-- `ResetSyncStatus`, with `IMPOSSIBLE_RACE`. -/
def resetSyncStatus (value : ℕ) : ℕ := value &&& (2 ^ 64 - 1 - 1 <<< 31)

/-! ### The accesses -/

def existRace (value : ℕ) (space : OnlineMemoryType) : Bool :=
  !extractAtomicStatus value &&
    (extractSyncStatus value == 1 && extractMemoryType value == space.code)

def warpSize : ℕ := 32

def isSameWarp (threadId1 threadId2 : ℕ) : Bool := threadId1 / warpSize == threadId2 / warpSize

def simtThreadMaxSize : ℕ := 2048

/-- An access to the byte. -/
structure Access where
  thread : ℕ
  thread_lt : thread < simtThreadMaxSize
  pc : ℕ
  isStore : Bool
  isAtomic : Bool
  deriving DecidableEq, Repr

def extractSamePcStatus (memoryStatus : MemoryByteStatus) (oldValue : ℕ) (m : OnlineMemoryType)
    (a : Access) : ℕ :=
  if a.pc = extractPc oldValue ∧ extractThreadId oldValue < a.thread then
    construct memoryStatus (extractThreadId oldValue) a.pc m a.isAtomic
  else construct memoryStatus a.thread a.pc m a.isAtomic

inductive RaceType
  | wr | rw | ww
  deriving DecidableEq, Repr

/-- What `AssignErrorInfo` keeps of a race. The overlap error that goes with a race of two stores
is left out. -/
structure Report where
  errorType : RaceType
  conflictedThread : ℕ
  pc : ℕ
  deriving DecidableEq, Repr

def assignErrorInfo (errorType : RaceType) (oldValue : ℕ) : Report :=
  ⟨errorType, extractThreadId oldValue, extractPc oldValue⟩

/-- Threads of one warp at different program counters do not race. -/
def apart (oldValue : ℕ) (a : Access) : Bool :=
  !isSameWarp (extractThreadId oldValue) a.thread || extractPc oldValue == a.pc

/-- The condition of both loads and of a store after one read. -/
def racing (m : OnlineMemoryType) (oldValue : ℕ) (a : Access) : Bool :=
  extractThreadId oldValue != a.thread && existRace oldValue m && apart oldValue a

/-- The loop body of `UpdateLoadStatusForRace`. -/
def updateLoadStatusForRace (m : OnlineMemoryType) (oldValue : ℕ) (a : Access) :
    ℕ × Option Report :=
  match extractMemoryStatus oldValue with
  | some .default => (construct .read a.thread a.pc m a.isAtomic, none)
  | some .read =>
    if extractThreadId oldValue = a.thread then
      (construct .read a.thread a.pc m a.isAtomic, none)
    else (extractSamePcStatus .globalRead oldValue m a, none)
  | some .globalRead => (extractSamePcStatus .globalRead oldValue m a, none)
  | some .write =>
    if racing m oldValue a then
      (construct .race (extractThreadId oldValue) (extractPc oldValue) m a.isAtomic,
        some (assignErrorInfo .wr oldValue))
    else (oldValue, none)
  | some .race =>
    if racing m oldValue a then
      (construct .race (extractThreadId oldValue) (extractPc oldValue) m a.isAtomic,
        some (assignErrorInfo .wr oldValue))
    else (construct .read a.thread a.pc m a.isAtomic, none)
  | none => (oldValue, none)

/-- The loop body of `UpdateStoreStatusForRace`. -/
def updateStoreStatusForRace (m : OnlineMemoryType) (oldValue : ℕ) (a : Access) :
    ℕ × Option Report :=
  match extractMemoryStatus oldValue with
  | some .default => (construct .write a.thread a.pc m a.isAtomic, none)
  | some .read =>
    if racing m oldValue a then
      (construct .race a.thread a.pc m a.isAtomic, some (assignErrorInfo .rw oldValue))
    else (construct .write a.thread a.pc m a.isAtomic, none)
  | some .globalRead =>
    -- the only condition that does not compare the threads
    if existRace oldValue m && apart oldValue a then
      (construct .race a.thread a.pc m a.isAtomic, some (assignErrorInfo .rw oldValue))
    else (construct .write a.thread a.pc m a.isAtomic, none)
  | some .write =>
    if extractThreadId oldValue != a.thread && existRace oldValue m then
      (extractSamePcStatus .race oldValue m a, some (assignErrorInfo .ww oldValue))
    else (construct .write a.thread a.pc m a.isAtomic, none)
  | some .race =>
    if extractThreadId oldValue != a.thread && existRace oldValue m then
      (extractSamePcStatus .race oldValue m a, some (assignErrorInfo .ww oldValue))
    else (construct .write a.thread a.pc m a.isAtomic, none)
  | none => (oldValue, none)

def update (m : OnlineMemoryType) (oldValue : ℕ) (a : Access) : ℕ × Option Report :=
  if a.isStore then updateStoreStatusForRace m oldValue a else updateLoadStatusForRace m oldValue a

/-! ### Runs -/

/-- What happens to a byte: an access, a barrier of all threads, or the end of the call. -/
inductive Event
  | access (a : Access)
  | sync
  | simtEnd
  deriving DecidableEq, Repr

def Event.isAccess : Event → Bool
  | .access _ => true
  | _ => false

/-- The word after an event: `ClearSyncThreadState` at a barrier, the last dump at the end. -/
def step (m : OnlineMemoryType) (value : ℕ) : Event → ℕ
  | .access a => (update m value a).1
  | .sync => if statusIsValid value then resetSyncStatus value else value
  | .simtEnd => if statusIsValid value then 0 else value

def word (m : OnlineMemoryType) (es : List Event) : ℕ := es.foldl (step m) 0

/-- Two accesses of one epoch conflict: they are not atomic, by threads of different warps, and one
of them is a store. -/
def Conflict (a b : Access) : Prop :=
  a.isAtomic = false ∧ b.isAtomic = false ∧ isSameWarp a.thread b.thread = false ∧
    (a.isStore = true ∨ b.isStore = true)

/-- Whenever two accesses of one epoch conflict, a race is reported at the later one or at an
access after it. -/
def Complete (m : OnlineMemoryType) (es : List Event) : Prop :=
  ∀ pre a mid b post, es = pre ++ .access a :: (mid ++ .access b :: post) →
    (∀ e ∈ mid, e.isAccess = true) → Conflict a b →
    ∃ u c v, Event.access b :: post = u ++ .access c :: v ∧
      (update m (word m (pre ++ .access a :: (mid ++ u))) c).2.isSome = true

/-- Whenever a race is reported, the thread it names is another one, has accessed the byte in the
same epoch and not atomically, and one of the two accesses is a store. -/
def Sound (m : OnlineMemoryType) (es : List Event) : Prop :=
  ∀ pre b post r, es = pre ++ .access b :: post → (update m (word m pre) b).2 = some r →
    ∃ before a mid, pre = before ++ .access a :: mid ∧ (∀ e ∈ mid, e.isAccess = true) ∧
      a.thread = r.conflictedThread ∧ a.isAtomic = false ∧ a.thread ≠ b.thread ∧
      (a.isStore = true ∨ b.isStore = true)

/-- Every access of a run meets a condition on what was before it. -/
def AllAccesses (P : List Event → Access → Prop) : List Event → List Event → Prop
  | _, [] => True
  | before, .access a :: es => P before a ∧ AllAccesses P (before ++ [.access a]) es
  | before, e :: es => AllAccesses P (before ++ [e]) es

/-! ### The parts of a word -/

/-- The fields of a word do not overlap, so the parts can be added up. -/
lemma pack_eq (pc : ℕ) {y m x s t : ℕ} (hy : y < 2) (hm : m < 2) (hx : x < 2) (hs : s < 2 ^ 4)
    (ht : t < 2 ^ 11) :
    (pc <<< 32) % 2 ^ 64 ||| (y &&& 0x1) <<< 31 ||| (m &&& 0x1) <<< 30 ||| (x &&& 0x1) <<< 15 |||
        (s &&& 0xF) <<< 11 ||| (t &&& 0x7FF) =
      pc % 2 ^ 32 * 2 ^ 32 + y * 2 ^ 31 + m * 2 ^ 30 + x * 2 ^ 15 + s * 2 ^ 11 + t := by
  have hpc : (pc <<< 32) % 2 ^ 64 = (pc % 2 ^ 32) <<< 32 := by
    rw [Nat.shiftLeft_eq, Nat.shiftLeft_eq]
    omega
  have hbit : ∀ {b : ℕ}, b < 2 → b &&& 0x1 = b := by
    intro b hb
    rw [show 0x1 = 2 ^ 1 - 1 by rfl, Nat.and_two_pow_sub_one_eq_mod, Nat.mod_eq_of_lt hb]
  have h1 : s &&& 0xF = s := by
    rw [show 0xF = 2 ^ 4 - 1 by rfl, Nat.and_two_pow_sub_one_eq_mod, Nat.mod_eq_of_lt hs]
  have h2 : t &&& 0x7FF = t := by
    rw [show 0x7FF = 2 ^ 11 - 1 by rfl, Nat.and_two_pow_sub_one_eq_mod, Nat.mod_eq_of_lt ht]
  rw [hpc, h1, h2, hbit hy, hbit hm, hbit hx]
  simp only [Nat.or_assoc]
  have hb1 : s <<< 11 + t < 2 ^ 15 := by rw [Nat.shiftLeft_eq]; omega
  have hb2 : x <<< 15 + (s <<< 11 + t) < 2 ^ 30 := by rw [Nat.shiftLeft_eq]; omega
  have hb3 : m <<< 30 + (x <<< 15 + (s <<< 11 + t)) < 2 ^ 31 := by
    rw [Nat.shiftLeft_eq]
    omega
  have hb4 : y <<< 31 + (m <<< 30 + (x <<< 15 + (s <<< 11 + t))) < 2 ^ 32 := by
    rw [Nat.shiftLeft_eq]
    omega
  rw [← Nat.shiftLeft_add_eq_or_of_lt ht, ← Nat.shiftLeft_add_eq_or_of_lt hb1,
    ← Nat.shiftLeft_add_eq_or_of_lt hb2, ← Nat.shiftLeft_add_eq_or_of_lt hb3,
    ← Nat.shiftLeft_add_eq_or_of_lt hb4]
  simp only [Nat.shiftLeft_eq]
  omega

lemma construct_eq (s : MemoryByteStatus) {t : ℕ} (ht : t < 2 ^ 11) (pc : ℕ) (m : OnlineMemoryType)
    (x : Bool) :
    construct s t pc m x = pc % 2 ^ 32 * 2 ^ 32 + 2 ^ 31 + m.code * 2 ^ 30 + x.toNat * 2 ^ 15 +
      s.code * 2 ^ 11 + t := by
  have hs : s.code < 2 ^ 4 := by cases s <;> decide
  have hm : m.code < 2 := by cases m <;> decide
  have hx : x.toNat < 2 := by cases x <;> decide
  have hpack := pack_eq pc one_lt_two hm hx hs ht
  rwa [Nat.one_mul] at hpack

lemma field_eq (val k n : ℕ) : (val >>> k) &&& (2 ^ n - 1) = val / 2 ^ k % 2 ^ n := by
  rw [Nat.and_two_pow_sub_one_eq_mod, Nat.shiftRight_eq_div_pow]

section
variable (s : MemoryByteStatus) {t : ℕ} (ht : t < 2 ^ 11) (pc : ℕ) (m : OnlineMemoryType) (x : Bool)
include ht

lemma extractMemoryStatus_construct : extractMemoryStatus (construct s t pc m x) = some s := by
  have hx : x.toNat < 2 := by cases x <;> decide
  have hs : s.code < 2 ^ 4 := by cases s <;> decide
  have hcode : (construct s t pc m x) >>> 11 &&& 0xF = s.code := by
    rw [construct_eq s ht, show 0xF = 2 ^ 4 - 1 by rfl, field_eq]
    omega
  unfold extractMemoryStatus
  rw [hcode]
  cases s <;> rfl

lemma extractThreadId_construct : extractThreadId (construct s t pc m x) = t := by
  unfold extractThreadId
  rw [construct_eq s ht, show 0x7FF = 2 ^ 11 - 1 by rfl, Nat.and_two_pow_sub_one_eq_mod]
  omega

lemma existRace_construct : existRace (construct s t pc m x) m = !x := by
  have hs : s.code < 2 ^ 4 := by cases s <;> decide
  have hm : m.code < 2 := by cases m <;> decide
  have hx : x.toNat < 2 := by cases x <;> decide
  have h1 : extractAtomicStatus (construct s t pc m x) = x := by
    have hfield : (construct s t pc m x) >>> 15 &&& 0x1 = x.toNat := by
      rw [construct_eq s ht, show 0x1 = 2 ^ 1 - 1 by rfl, field_eq]
      omega
    unfold extractAtomicStatus
    rw [hfield]
    cases x <;> rfl
  have h2 : extractSyncStatus (construct s t pc m x) = 1 := by
    unfold extractSyncStatus
    rw [construct_eq s ht, show 0x1 = 2 ^ 1 - 1 by rfl, field_eq]
    omega
  have h3 : extractMemoryType (construct s t pc m x) = m.code := by
    unfold extractMemoryType
    rw [construct_eq s ht, show 0x1 = 2 ^ 1 - 1 by rfl, field_eq]
    omega
  unfold existRace
  rw [h1, h2, h3]
  simp

end

lemma extractThreadId_lt (val : ℕ) : extractThreadId val < 2 ^ 11 := by
  unfold extractThreadId
  rw [show 0x7FF = 2 ^ 11 - 1 by rfl, Nat.and_two_pow_sub_one_eq_mod]
  exact Nat.mod_lt _ (by norm_num)

/-- A barrier takes nothing from a word but the bit for a possible race. -/
lemma extractMemoryStatus_reset (val : ℕ) :
    extractMemoryStatus (resetSyncStatus val) = extractMemoryStatus val := by
  unfold extractMemoryStatus resetSyncStatus
  rw [Nat.shiftRight_and_distrib, Nat.and_assoc]
  congr 2

lemma existRace_reset (val : ℕ) (m : OnlineMemoryType) :
    existRace (resetSyncStatus val) m = false := by
  have h : extractSyncStatus (resetSyncStatus val) = 0 := by
    unfold extractSyncStatus resetSyncStatus
    rw [Nat.shiftRight_and_distrib, Nat.and_assoc]
    exact Nat.and_zero _
  unfold existRace
  rw [h]
  simp

/-- A word that stands for no byte has no possible race in it. -/
lemma existRace_invalid {val : ℕ} (h : statusIsValid val = false) (m : OnlineMemoryType) :
    existRace val m = false := by
  have hval : val = 0 ∨ val = 2 ^ 64 - 1 ∨ val = 1 := by
    unfold statusIsValid at h
    simp only [Bool.and_eq_false_iff, bne_eq_false_iff_eq] at h
    tauto
  rcases hval with rfl | rfl | rfl
  · cases m <;> decide
  · cases m <;> decide
  · cases m <;> decide

/-! ### The accesses of an epoch -/

def addAccess (accesses : List Access) (a : Access) : List Access :=
  if a.isAtomic then accesses else accesses ++ [a]

/-- The accesses since the last barrier that are not atomic. -/
def recent (es : List Event) : List Access :=
  es.foldl (fun accesses e =>
    match e with
    | .access a => addAccess accesses a
    | .sync => []
    | .simtEnd => []) []

lemma recent_access (es : List Event) (a : Access) :
    recent (es ++ [.access a]) = addAccess (recent es) a := by
  unfold recent
  rw [List.foldl_append]
  rfl

lemma recent_barrier (es : List Event) {e : Event} (h : e.isAccess = false) :
    recent (es ++ [e]) = [] := by
  unfold recent
  rw [List.foldl_append]
  cases e with
  | access a => cases h
  | sync => rfl
  | simtEnd => rfl

lemma word_concat (m : OnlineMemoryType) (es : List Event) (e : Event) :
    word m (es ++ [e]) = step m (word m es) e := by
  unfold word
  rw [List.foldl_append]
  rfl

lemma mem_recent {es : List Event} {a : Access} :
    a ∈ recent es ↔ a.isAtomic = false ∧ ∃ pre post, es = pre ++ .access a :: post ∧
      ∀ e ∈ post, e.isAccess = true := by
  induction es using List.reverseRecOn with
  | nil =>
    constructor
    · intro h
      cases h
    · rintro ⟨-, pre, post, h, -⟩
      cases pre <;> cases h
  | append_singleton es e ih =>
    have hsplit : (∃ pre post, es ++ [e] = pre ++ .access a :: post ∧
        ∀ x ∈ post, x.isAccess = true) ↔ e = .access a ∨ (e.isAccess = true ∧
          ∃ pre post, es = pre ++ .access a :: post ∧ ∀ x ∈ post, x.isAccess = true) := by
      constructor
      · rintro ⟨pre, post, h, hpost⟩
        rcases List.eq_nil_or_concat post with rfl | ⟨post, x, rfl⟩
        · obtain ⟨-, hx⟩ := List.append_inj' h rfl
          exact Or.inl (List.cons.inj hx).1
        · rw [List.concat_eq_append, ← List.cons_append, ← List.append_assoc] at h
          obtain ⟨hes, hx⟩ := List.append_inj' h rfl
          obtain rfl := (List.cons.inj hx).1
          refine Or.inr ⟨hpost e (by simp), pre, post, hes, fun y hy => hpost y (by simp [hy])⟩
      · rintro (rfl | ⟨he, pre, post, rfl, hpost⟩)
        · exact ⟨es, [], rfl, fun x hx => (by cases hx)⟩
        · refine ⟨pre, post ++ [e], by simp, fun x hx => ?_⟩
          rcases List.mem_append.1 hx with hx | hx
          · exact hpost x hx
          · rw [List.mem_singleton.1 hx]
            exact he
    rw [hsplit]
    cases e with
    | access b =>
      rw [recent_access, addAccess]
      by_cases hb : b.isAtomic = true
      · rw [if_pos hb, ih]
        constructor
        · rintro ⟨h1, h2⟩
          exact ⟨h1, Or.inr ⟨rfl, h2⟩⟩
        · rintro ⟨h1, h2 | ⟨-, h2⟩⟩
          · cases h2
            rw [hb] at h1
            cases h1
          · exact ⟨h1, h2⟩
      · rw [if_neg hb, List.mem_append, ih, List.mem_singleton]
        constructor
        · rintro (⟨h1, h2⟩ | rfl)
          · exact ⟨h1, Or.inr ⟨rfl, h2⟩⟩
          · exact ⟨by simpa using hb, Or.inl rfl⟩
        · rintro ⟨h1, h2 | ⟨-, h2⟩⟩
          · cases h2
            exact Or.inr rfl
          · exact Or.inl ⟨h1, h2⟩
    | sync =>
      rw [recent_barrier es rfl]
      constructor
      · intro h
        cases h
      · rintro ⟨-, h | ⟨h, -⟩⟩ <;> cases h
    | simtEnd =>
      rw [recent_barrier es rfl]
      constructor
      · intro h
        cases h
      · rintro ⟨-, h | ⟨h, -⟩⟩ <;> cases h

lemma AllAccesses.at {P : List Event → Access → Prop} {pre : List Event} {a : Access}
    {before post : List Event} (h : AllAccesses P before (pre ++ .access a :: post)) :
    P (before ++ pre) a := by
  induction pre generalizing before with
  | nil =>
    rw [List.append_nil]
    exact h.1
  | cons e pre ih =>
    rw [List.append_cons]
    cases e with
    | access b => exact ih h.2
    | sync => exact ih h
    | simtEnd => exact ih h

lemma AllAccesses.of_append {P : List Event → Access → Prop} {before es es' : List Event}
    (h : AllAccesses P before (es ++ es')) : AllAccesses P before es := by
  induction es generalizing before with
  | nil => exact trivial
  | cons e es ih =>
    cases e with
    | access b => exact ⟨h.1, ih h.2⟩
    | sync => exact ih h
    | simtEnd => exact ih h

/-! ### Completeness -/

/-- What a word says about the accesses of its epoch. -/
structure Recorded (m : OnlineMemoryType) (value : ℕ) (accesses : List Access) : Prop where
  status : extractMemoryStatus value ≠ none
  clear : existRace value m = false → accesses = []
  default : extractMemoryStatus value = some .default → accesses = []
  read : extractMemoryStatus value = some .read →
    ∀ a ∈ accesses, a.isStore = false ∧ isSameWarp a.thread (extractThreadId value) = true
  globalRead : extractMemoryStatus value = some .globalRead → ∀ a ∈ accesses, a.isStore = false
  write : extractMemoryStatus value = some .write →
    ∀ a ∈ accesses, isSameWarp a.thread (extractThreadId value) = true

/-- The access takes nothing from the word that a later access has to know:
a load that is not atomic does not come to a write that was atomic or of an earlier epoch, as it
would not be recorded; an atomic access does not mark a word as atomic that stands for one that is
not; a store that is not reported, by the warp of the last of several readers or by the thread of
the last race, finds accesses of its own warp only; and a load that comes to a race of this epoch
is reported. -/
structure Keeps (m : OnlineMemoryType) (value : ℕ) (accesses : List Access) (a : Access) :
    Prop where
  load : extractMemoryStatus value = some .write → a.isStore = false → a.isAtomic = false →
    existRace value m = true
  atomic : a.isAtomic = true → existRace value m = true →
    extractMemoryStatus value = some .write ∧ a.isStore = false ∧ racing m value a = false
  globalRead : extractMemoryStatus value = some .globalRead → a.isStore = true →
    existRace value m = true →
    apart value a = true ∨ ∀ b ∈ accesses, isSameWarp b.thread a.thread = true
  raceStore : extractMemoryStatus value = some .race → a.isStore = true →
    existRace value m = true →
    extractThreadId value ≠ a.thread ∨ ∀ b ∈ accesses, isSameWarp b.thread a.thread = true
  raceLoad : extractMemoryStatus value = some .race → a.isStore = false →
    existRace value m = true → racing m value a = true

lemma isSameWarp_self (t : ℕ) : isSameWarp t t = true := by
  unfold isSameWarp
  exact beq_self_eq_true _

lemma isSameWarp_trans {t u v : ℕ} (h : isSameWarp t u = true) (h' : isSameWarp u v = true) :
    isSameWarp t v = true := by
  unfold isSameWarp at *
  rw [beq_iff_eq] at *
  exact h.trans h'

/-- An access that does not race with the word although it could is by the same warp. -/
lemma sameWarp_of_not_racing {m : OnlineMemoryType} {value : ℕ} {a : Access}
    (h : racing m value a = false) (hr : existRace value m = true) :
    isSameWarp (extractThreadId value) a.thread = true := by
  unfold racing apart at h
  rw [hr] at h
  by_cases ht : extractThreadId value = a.thread
  · rw [ht]
    exact isSameWarp_self _
  · simp only [Bool.and_true, Bool.and_eq_false_iff, bne_eq_false_iff_eq, Bool.or_eq_false_iff,
      Bool.not_eq_false'] at h
    rcases h with h | h
    · exact absurd h ht
    · exact h.1

lemma not_racing_of_clear {m : OnlineMemoryType} {value : ℕ} (a : Access)
    (h : existRace value m = false) : racing m value a = false := by
  unfold racing
  rw [h]
  simp

section
variable {m : OnlineMemoryType} {value : ℕ} {accesses : List Access} {a : Access}

lemma recorded_construct {s : MemoryByteStatus} {t pc : ℕ} {x : Bool} (ht : t < 2 ^ 11)
    (hx : x = true → accesses = []) (hd : s = .default → accesses = [])
    (hr : s = .read → ∀ b ∈ accesses, b.isStore = false ∧ isSameWarp b.thread t = true)
    (hg : s = .globalRead → ∀ b ∈ accesses, b.isStore = false)
    (hw : s = .write → ∀ b ∈ accesses, isSameWarp b.thread t = true) :
    Recorded m (construct s t pc m x) accesses := by
  have hs := extractMemoryStatus_construct s ht pc m x
  have hid := extractThreadId_construct s ht pc m x
  refine ⟨?_, ?_, ?_, ?_, ?_, ?_⟩
  · rw [hs]
    exact fun h => by cases h
  · rw [existRace_construct s ht]
    intro h
    exact hx (by simpa using h)
  · rw [hs]
    exact fun h => hd (Option.some.inj h)
  · rw [hs, hid]
    exact fun h => hr (Option.some.inj h)
  · rw [hs]
    exact fun h => hg (Option.some.inj h)
  · rw [hs, hid]
    exact fun h => hw (Option.some.inj h)

lemma thread_lt (a : Access) : a.thread < 2 ^ 11 := a.thread_lt

/-- A word for several readers, or for a race, may name either thread. -/
lemma recorded_samePc {s : MemoryByteStatus} (hs : s = .globalRead ∨ s = .race)
    (hx : a.isAtomic = true → accesses = [])
    (hg : s = .globalRead → ∀ b ∈ accesses, b.isStore = false) :
    Recorded m (extractSamePcStatus s value m a) accesses := by
  have h1 : s ≠ .default := by rintro rfl; simp at hs
  have h2 : s ≠ .read := by rintro rfl; simp at hs
  have h3 : s ≠ .write := by rintro rfl; simp at hs
  unfold extractSamePcStatus
  split_ifs
  · exact recorded_construct (extractThreadId_lt value) hx (fun h => absurd h h1)
      (fun h => absurd h h2) hg fun h => absurd h h3
  · exact recorded_construct (thread_lt a) hx (fun h => absurd h h1) (fun h => absurd h h2) hg
      fun h => absurd h h3

lemma Recorded.race {t pc : ℕ} (ht : t < 2 ^ 11) (hx : a.isAtomic = false) :
    Recorded m (construct .race t pc m a.isAtomic) accesses :=
  recorded_construct ht (fun h => by rw [hx] at h; cases h) (fun h => by cases h)
    (fun h => by cases h) (fun h => by cases h) fun h => by cases h

lemma Recorded.first_read (hload : a.isStore = false) :
    Recorded m (construct .read a.thread a.pc m false) [a] := by
  refine recorded_construct (thread_lt a) (fun h => by cases h) (fun h => by cases h)
    (fun _ b hb => ?_) (fun h => by cases h) fun h => by cases h
  rw [List.mem_singleton.1 hb]
  exact ⟨hload, isSameWarp_self _⟩

lemma Recorded.first_write : Recorded m (construct .write a.thread a.pc m false) [a] := by
  refine recorded_construct (thread_lt a) (fun h => by cases h) (fun h => by cases h)
    (fun h => by cases h) (fun h => by cases h) fun _ b hb => ?_
  rw [List.mem_singleton.1 hb]
  exact isSameWarp_self _

/-- A word that has just been written by an atomic access, when the epoch has no other. -/
lemma recorded_nil {w : ℕ} (hs : extractMemoryStatus w ≠ none) : Recorded m w [] :=
  ⟨hs, fun _ => rfl, fun _ => rfl, fun _ b hb => (by cases hb), fun _ b hb => (by cases hb),
    fun _ b hb => (by cases hb)⟩

lemma status_construct (s : MemoryByteStatus) {t : ℕ} (ht : t < 2 ^ 11) (pc : ℕ) (x : Bool) :
    extractMemoryStatus (construct s t pc m x) ≠ none := by
  rw [extractMemoryStatus_construct s ht]
  exact fun h => by cases h

lemma status_samePc (s : MemoryByteStatus) :
    extractMemoryStatus (extractSamePcStatus s value m a) ≠ none := by
  unfold extractSamePcStatus
  split_ifs
  · exact status_construct s (extractThreadId_lt value) _ _
  · exact status_construct s (thread_lt a) _ _

lemma update_load (h : a.isStore = false) :
    update m value a = updateLoadStatusForRace m value a := by
  unfold update
  rw [h]
  rfl

lemma update_store (h : a.isStore = true) :
    update m value a = updateStoreStatusForRace m value a := by
  unfold update
  rw [h]
  rfl

lemma update_status (h : extractMemoryStatus value ≠ none) :
    extractMemoryStatus (update m value a).1 ≠ none := by
  have hnew : ∀ s, extractMemoryStatus (construct s a.thread a.pc m a.isAtomic) ≠ none :=
    fun s => status_construct s (thread_lt a) _ _
  have hold : ∀ s pc, extractMemoryStatus
      (construct s (extractThreadId value) pc m a.isAtomic) ≠ none :=
    fun s pc => status_construct s (extractThreadId_lt value) _ _
  cases hst : a.isStore with
  | false =>
    rw [update_load hst]
    unfold updateLoadStatusForRace
    split
    · exact hnew _
    · split_ifs
      · exact hnew _
      · exact status_samePc _
    · exact status_samePc _
    · split_ifs
      · exact hold _ _
      · exact h
    · split_ifs
      · exact hold _ _
      · exact hnew _
    · exact h
  | true =>
    rw [update_store hst]
    unfold updateStoreStatusForRace
    split
    · exact hnew _
    · split_ifs <;> exact hnew _
    · split_ifs <;> exact hnew _
    · split_ifs
      · exact status_samePc _
      · exact hnew _
    · split_ifs
      · exact status_samePc _
      · exact hnew _
    · exact h

lemma Recorded.atomic (h : Recorded m value accesses) (hk : Keeps m value accesses a)
    (hx : a.isAtomic = true) : Recorded m (update m value a).1 accesses := by
  cases hr : existRace value m with
  | true =>
    obtain ⟨hs, hst, hno⟩ := hk.atomic hx hr
    have hsame : (update m value a).1 = value := by
      rw [update_load hst]
      unfold updateLoadStatusForRace
      rw [hs]
      dsimp only
      rw [hno]
      rfl
    rw [hsame]
    exact h
  | false =>
    rw [h.clear hr]
    exact recorded_nil (update_status h.status)

lemma Recorded.first (h : Recorded m value []) (hk : Keeps m value [] a) (hx : a.isAtomic = false)
    (hr : existRace value m = false) : Recorded m (update m value a).1 [a] := by
  have hno := not_racing_of_clear a hr
  cases hst : a.isStore with
  | false =>
    have hread : Recorded m (construct .read a.thread a.pc m a.isAtomic) [a] := by
      rw [hx]
      exact Recorded.first_read hst
    have hglobal : Recorded m (extractSamePcStatus .globalRead value m a) [a] := by
      refine recorded_samePc (Or.inl rfl) (fun h' => by rw [hx] at h'; cases h') fun _ b hb => ?_
      rw [List.mem_singleton.1 hb]
      exact hst
    rw [update_load hst]
    unfold updateLoadStatusForRace
    split
    · exact hread
    · split_ifs
      · exact hread
      · exact hglobal
    · exact hglobal
    · next hs => rw [hk.load hs hst hx] at hr; cases hr
    · rw [hno]
      exact hread
    · next hs => exact absurd hs h.status
  | true =>
    have hwrite : Recorded m (construct .write a.thread a.pc m a.isAtomic) [a] := by
      rw [hx]
      exact Recorded.first_write
    rw [update_store hst]
    unfold updateStoreStatusForRace
    simp only [hno, hr, Bool.false_and, Bool.and_false, Bool.false_eq_true, if_false]
    split
    · exact hwrite
    · exact hwrite
    · exact hwrite
    · exact hwrite
    · exact hwrite
    · next hs => exact absurd hs h.status

lemma forall_mem_concat {P : Access → Prop} (h : ∀ b ∈ accesses, P b) (ha : P a) :
    ∀ b ∈ accesses ++ [a], P b := by
  intro b hb
  rcases List.mem_append.1 hb with hb | hb
  · exact h b hb
  · rw [List.mem_singleton.1 hb]
    exact ha

lemma Recorded.load (h : Recorded m value accesses) (hk : Keeps m value accesses a)
    (hx : a.isAtomic = false) (hr : existRace value m = true) (hst : a.isStore = false) :
    Recorded m (update m value a).1 (accesses ++ [a]) := by
  have hnx : a.isAtomic = true → accesses ++ [a] = [] := fun h' => by rw [hx] at h'; cases h'
  rw [update_load hst]
  unfold updateLoadStatusForRace
  split
  · next hs =>
    rw [h.default hs, hx]
    exact Recorded.first_read hst
  · next hs =>
    have hall := h.read hs
    split_ifs with ht
    · refine recorded_construct (thread_lt a) hnx (fun h' => by cases h')
        (fun _ => forall_mem_concat ?_ ⟨hst, isSameWarp_self _⟩) (fun h' => by cases h')
        fun h' => by cases h'
      rw [← ht]
      exact hall
    · exact recorded_samePc (Or.inl rfl) hnx fun _ =>
        forall_mem_concat (fun b hb => (hall b hb).1) hst
  · next hs =>
    exact recorded_samePc (Or.inl rfl) hnx fun _ => forall_mem_concat (h.globalRead hs) hst
  · next hs =>
    split_ifs with hrace
    · exact Recorded.race (extractThreadId_lt value) hx
    · have hrace' : racing m value a = false := by simpa using hrace
      have hwarp := sameWarp_of_not_racing hrace' hr
      refine ⟨h.status, fun h' => ?_, fun h' => ?_, fun h' => ?_, fun h' => ?_, fun _ => ?_⟩
      · rw [hr] at h'
        cases h'
      · rw [hs] at h'
        cases h'
      · rw [hs] at h'
        cases h'
      · rw [hs] at h'
        cases h'
      · refine forall_mem_concat (h.write hs) ?_
        unfold isSameWarp at *
        rw [beq_iff_eq] at *
        exact hwarp.symm
  · next hs =>
    rw [if_pos (hk.raceLoad hs hst hr)]
    exact Recorded.race (extractThreadId_lt value) hx
  · next hs => exact absurd hs h.status

lemma Recorded.store (h : Recorded m value accesses) (hk : Keeps m value accesses a)
    (hx : a.isAtomic = false) (hr : existRace value m = true) (hst : a.isStore = true) :
    Recorded m (update m value a).1 (accesses ++ [a]) := by
  have hnx : a.isAtomic = true → accesses ++ [a] = [] := fun h' => by rw [hx] at h'; cases h'
  have hsame : Recorded m (extractSamePcStatus .race value m a) (accesses ++ [a]) :=
    recorded_samePc (Or.inr rfl) hnx fun h' => by cases h'
  -- a store by the warp all accesses so far are by
  have hwrite : (∀ b ∈ accesses, isSameWarp b.thread a.thread = true) →
      Recorded m (construct .write a.thread a.pc m a.isAtomic) (accesses ++ [a]) := fun hall =>
    recorded_construct (thread_lt a) hnx (fun h' => by cases h') (fun h' => by cases h')
      (fun h' => by cases h') fun _ => forall_mem_concat hall (isSameWarp_self _)
  rw [update_store hst]
  unfold updateStoreStatusForRace
  split
  · next hs =>
    refine hwrite fun b hb => ?_
    rw [h.default hs] at hb
    cases hb
  · next hs =>
    split_ifs with hrace
    · exact Recorded.race (thread_lt a) hx
    · have hrace' : racing m value a = false := by simpa using hrace
      exact hwrite fun b hb =>
        isSameWarp_trans (h.read hs b hb).2 (sameWarp_of_not_racing hrace' hr)
  · next hs =>
    split_ifs with hap
    · exact Recorded.race (thread_lt a) hx
    · rw [hr, Bool.true_and] at hap
      exact hwrite ((hk.globalRead hs hst hr).resolve_left hap)
  · next hs =>
    split_ifs with hne
    · exact hsame
    · have ht : extractThreadId value = a.thread := by
        rw [hr] at hne
        simpa using hne
      exact hwrite fun b hb => ht ▸ h.write hs b hb
  · next hs =>
    split_ifs with hne
    · exact hsame
    · have ht : ¬ extractThreadId value ≠ a.thread := by
        rw [hr] at hne
        simpa using hne
      exact hwrite ((hk.raceStore hs hst hr).resolve_left ht)
  · next hs => exact absurd hs h.status

lemma Recorded.update (h : Recorded m value accesses) (hk : Keeps m value accesses a) :
    Recorded m (SimtRace.update m value a).1 (addAccess accesses a) := by
  unfold addAccess
  cases hx : a.isAtomic with
  | true => exact h.atomic hk hx
  | false =>
    cases hr : existRace value m with
    | false =>
      have hnil := h.clear hr
      rw [hnil] at h hk ⊢
      exact h.first hk hx hr
    | true =>
      cases hst : a.isStore with
      | false => exact h.load hk hx hr hst
      | true => exact h.store hk hx hr hst

/-- **A conflict is reported** at the access that makes it. -/
lemma Recorded.reports (h : Recorded m value accesses) (hk : Keeps m value accesses a) {b : Access}
    (hb : b ∈ accesses) (hc : Conflict b a) : (SimtRace.update m value a).2.isSome = true := by
  obtain ⟨-, -, hwarp, hstore⟩ := hc
  have hr : existRace value m = true := by
    by_contra hno
    rw [h.clear (by simpa using hno)] at hb
    cases hb
  -- a thread of another warp than the one in the word
  have hother : isSameWarp b.thread (extractThreadId value) = true →
      extractThreadId value ≠ a.thread ∧ apart value a = true := by
    intro hb'
    refine ⟨fun he => ?_, ?_⟩
    · rw [he] at hb'
      rw [hb'] at hwarp
      cases hwarp
    · unfold apart
      cases hs : isSameWarp (extractThreadId value) a.thread with
      | false => rfl
      | true =>
        rw [isSameWarp_trans hb' hs] at hwarp
        cases hwarp
  have halone : ¬ ∀ c ∈ accesses, isSameWarp c.thread a.thread = true := by
    intro hall
    rw [hall b hb] at hwarp
    cases hwarp
  have hracing : extractThreadId value ≠ a.thread ∧ apart value a = true →
      racing m value a = true := by
    rintro ⟨h1, h2⟩
    unfold racing
    rw [hr, h2]
    simpa using h1
  cases hst : a.isStore with
  | false =>
    have hbs : b.isStore = true := by
      rcases hstore with hs | hs
      · exact hs
      · rw [hst] at hs
        cases hs
    rw [update_load hst]
    unfold updateLoadStatusForRace
    split
    · next hs => rw [h.default hs] at hb; cases hb
    · next hs => rw [(h.read hs b hb).1] at hbs; cases hbs
    · next hs => rw [h.globalRead hs b hb] at hbs; cases hbs
    · next hs => rw [if_pos (hracing (hother (h.write hs b hb)))]; rfl
    · next hs => rw [if_pos (hk.raceLoad hs hst hr)]; rfl
    · next hs => exact absurd hs h.status
  | true =>
    rw [update_store hst]
    unfold updateStoreStatusForRace
    split
    · next hs => rw [h.default hs] at hb; cases hb
    · next hs => rw [if_pos (hracing (hother (h.read hs b hb).2))]; rfl
    · next hs =>
      rw [hr, (hk.globalRead hs hst hr).resolve_right halone]
      rfl
    · next hs =>
      have ht := (hother (h.write hs b hb)).1
      rw [if_pos (by rw [hr]; simpa using ht)]
      rfl
    · next hs =>
      have ht := (hk.raceStore hs hst hr).resolve_right halone
      rw [if_pos (by rw [hr]; simpa using ht)]
      rfl
    · next hs => exact absurd hs h.status

end

lemma existRace_barrier {e : Event} (he : e.isAccess = false) (m : OnlineMemoryType) (value : ℕ) :
    existRace (step m value e) m = false := by
  cases e with
  | access a => cases he
  | sync =>
    unfold step
    split_ifs with hv
    · exact existRace_reset value m
    · exact existRace_invalid (by simpa using hv) m
  | simtEnd =>
    unfold step
    split_ifs with hv
    · exact existRace_invalid rfl m
    · exact existRace_invalid (by simpa using hv) m

lemma status_zero : extractMemoryStatus 0 ≠ none := by decide

lemma status_barrier {e : Event} (he : e.isAccess = false) (m : OnlineMemoryType) {value : ℕ}
    (h : extractMemoryStatus value ≠ none) : extractMemoryStatus (step m value e) ≠ none := by
  cases e with
  | access a => cases he
  | sync =>
    unfold step
    split_ifs
    · rw [extractMemoryStatus_reset]
      exact h
    · exact h
  | simtEnd =>
    unfold step
    split_ifs
    · exact status_zero
    · exact h

/-- The word says what it should after every run whose accesses keep it. -/
lemma recorded_run {m : OnlineMemoryType} {es : List Event}
    (h : AllAccesses (fun before a => Keeps m (word m before) (recent before) a) [] es) :
    Recorded m (word m es) (recent es) := by
  induction es using List.reverseRecOn with
  | nil => exact recorded_nil status_zero
  | append_singleton es e ih =>
    have hes := ih h.of_append
    rw [word_concat]
    cases e with
    | access a =>
      rw [recent_access]
      exact hes.update h.at
    | sync =>
      rw [recent_barrier es rfl]
      exact recorded_nil (status_barrier rfl m hes.status)
    | simtEnd =>
      rw [recent_barrier es rfl]
      exact recorded_nil (status_barrier rfl m hes.status)

/-- **Races are found** in every run whose accesses take nothing from the word that a later access
has to know: a conflict is reported at the access that makes it. -/
theorem complete_of_keeps (m : OnlineMemoryType) (es : List Event)
    (h : AllAccesses (fun before a => Keeps m (word m before) (recent before) a) [] es) :
    Complete m es := by
  intro pre a mid b post hes hmid hc
  refine ⟨[], b, post, rfl, ?_⟩
  have hsplit : es = (pre ++ .access a :: mid) ++ .access b :: post := by
    rw [hes, List.append_assoc]
    rfl
  rw [hsplit] at h
  have hmem : a ∈ recent (pre ++ .access a :: mid) := mem_recent.2 ⟨hc.1, pre, mid, rfl, hmid⟩
  rw [List.append_nil]
  exact (recorded_run h.of_append).reports h.at hmem hc

def access (thread : ℕ) (h : thread < simtThreadMaxSize) (pc : ℕ) (isStore : Bool) : Event :=
  .access ⟨thread, h, pc, isStore, false⟩

/-- A thread reads the byte, and one of another warp writes it. -/
theorem complete_read_write :
    Complete .ub [access 0 (by decide) 0x10 false, access 40 (by decide) 0x20 true] := by
  refine complete_of_keeps _ _ ⟨⟨?_, ?_, ?_, ?_, ?_⟩, ⟨?_, ?_, ?_, ?_, ?_⟩, trivial⟩ <;> decide

/-- Two threads of different warps read the byte, then one of the second warp writes it: the word
names the second reader only, and nothing is reported. -/
theorem forgotten_reader : ¬ Complete .ub
    [access 0 (by decide) 0x10 false, access 32 (by decide) 0x20 false,
      access 33 (by decide) 0x30 true] := by
  intro h
  obtain ⟨u, c, v, hsplit, hrep⟩ := h [] ⟨0, by decide, 0x10, false, false⟩
    [access 32 (by decide) 0x20 false] ⟨33, by decide, 0x30, true, false⟩ [] rfl (by decide)
    ⟨rfl, rfl, by decide, Or.inr rfl⟩
  rcases u with _ | ⟨x, u⟩
  · cases hsplit
    revert hrep
    decide
  · cases u <;> cases hsplit

/-! ### Soundness -/

/-- A word with a possible race in it names a thread that has accessed the byte in this epoch, with
a store if the word says so. -/
def Named (m : OnlineMemoryType) (value : ℕ) (accesses : List Access) : Prop :=
  existRace value m = true → ∃ b ∈ accesses, b.thread = extractThreadId value ∧
    (extractMemoryStatus value = some .write ∨ extractMemoryStatus value = some .race →
      b.isStore = true)

/-- The access does not bring a thread back: a load at the program counter of the word, by a higher
thread, takes over the thread of the word only if it has accessed the byte in this epoch; and the
one reader a word for several readers names does not store at the program counter of its load. -/
structure Fresh (m : OnlineMemoryType) (value : ℕ) (accesses : List Access) (a : Access) :
    Prop where
  load : extractMemoryStatus value = some .read ∨ extractMemoryStatus value = some .globalRead →
    a.isStore = false → a.isAtomic = false → existRace value m = false →
    a.pc = extractPc value ∧ extractThreadId value < a.thread →
    ∃ b ∈ accesses, b.thread = extractThreadId value
  store : extractMemoryStatus value = some .globalRead → a.isStore = true →
    existRace value m = true → ¬ (extractThreadId value = a.thread ∧ extractPc value = a.pc)

section
variable {m : OnlineMemoryType} {value : ℕ} {accesses : List Access} {a : Access}

lemma mem_addAccess {b : Access} (h : b ∈ accesses) : b ∈ addAccess accesses a := by
  unfold addAccess
  split_ifs
  · exact h
  · exact List.mem_append_left _ h

lemma named_self {s : MemoryByteStatus} (hs : s = .write ∨ s = .race → a.isStore = true) :
    Named m (construct s a.thread a.pc m a.isAtomic) (addAccess accesses a) := by
  intro hr
  rw [existRace_construct s (thread_lt a)] at hr
  have hx : a.isAtomic = false := by simpa using hr
  unfold addAccess
  rw [hx]
  refine ⟨a, List.mem_append_right _ (List.mem_singleton_self a), ?_, ?_⟩
  · rw [extractThreadId_construct s (thread_lt a)]
  · rw [extractMemoryStatus_construct s (thread_lt a)]
    rintro (h | h)
    · exact hs (Or.inl (Option.some.inj h))
    · exact hs (Or.inr (Option.some.inj h))

lemma named_old {s : MemoryByteStatus} (pc : ℕ)
    (h : a.isAtomic = false → ∃ b ∈ accesses, b.thread = extractThreadId value ∧
      (s = .write ∨ s = .race → b.isStore = true)) :
    Named m (construct s (extractThreadId value) pc m a.isAtomic) (addAccess accesses a) := by
  intro hr
  rw [existRace_construct s (extractThreadId_lt value)] at hr
  obtain ⟨b, hb, hthread, hstore⟩ := h (by simpa using hr)
  refine ⟨b, mem_addAccess hb, ?_, ?_⟩
  · rw [extractThreadId_construct s (extractThreadId_lt value), hthread]
  · rw [extractMemoryStatus_construct s (extractThreadId_lt value)]
    rintro (h' | h')
    · exact hstore (Or.inl (Option.some.inj h'))
    · exact hstore (Or.inr (Option.some.inj h'))

lemma named_globalRead (h : Named m value accesses) (hf : Fresh m value accesses a)
    (hs : extractMemoryStatus value = some .read ∨ extractMemoryStatus value = some .globalRead)
    (hst : a.isStore = false) :
    Named m (extractSamePcStatus .globalRead value m a) (addAccess accesses a) := by
  have hno : ¬ (MemoryByteStatus.globalRead = .write ∨ MemoryByteStatus.globalRead = .race) := by
    decide
  unfold extractSamePcStatus
  split_ifs with htake
  · refine named_old a.pc fun hx => ?_
    cases hr : existRace value m with
    | true =>
      obtain ⟨b, hb, hthread, -⟩ := h hr
      exact ⟨b, hb, hthread, fun h' => absurd h' hno⟩
    | false =>
      obtain ⟨b, hb, hthread⟩ := hf.load hs hst hx hr htake
      exact ⟨b, hb, hthread, fun h' => absurd h' hno⟩
  · exact named_self fun h' => absurd h' hno

lemma Named.writer (h : Named m value accesses) (hr : existRace value m = true)
    (hs : extractMemoryStatus value = some .write ∨ extractMemoryStatus value = some .race)
    (s : MemoryByteStatus) :
    ∃ b ∈ accesses, b.thread = extractThreadId value ∧
      (s = .write ∨ s = .race → b.isStore = true) := by
  obtain ⟨b, hb, hthread, hstore⟩ := h hr
  exact ⟨b, hb, hthread, fun _ => hstore hs⟩

lemma existRace_of_racing (h : racing m value a = true) : existRace value m = true := by
  unfold racing at h
  simp only [Bool.and_eq_true] at h
  exact h.1.2

/-- Every access leaves a word that names a thread of this epoch. -/
lemma Named.update (h : Named m value accesses) (hf : Fresh m value accesses a) :
    Named m (SimtRace.update m value a).1 (addAccess accesses a) := by
  have hkeep : Named m value (addAccess accesses a) := by
    intro hr
    obtain ⟨b, hb, hrest⟩ := h hr
    exact ⟨b, mem_addAccess hb, hrest⟩
  cases hst : a.isStore with
  | false =>
    have hread : Named m (construct .read a.thread a.pc m a.isAtomic) (addAccess accesses a) :=
      named_self fun h' => by rcases h' with h' | h' <;> cases h'
    rw [update_load hst]
    unfold updateLoadStatusForRace
    split
    · exact hread
    · next hs =>
      split_ifs
      · exact hread
      · exact named_globalRead h hf (Or.inl hs) hst
    · next hs => exact named_globalRead h hf (Or.inr hs) hst
    · next hs =>
      split_ifs with hrace
      · exact named_old _ fun _ => h.writer (existRace_of_racing hrace) (Or.inl hs) _
      · exact hkeep
    · next hs =>
      split_ifs with hrace
      · exact named_old _ fun _ => h.writer (existRace_of_racing hrace) (Or.inr hs) _
      · exact hread
    · exact hkeep
  | true =>
    have hself : ∀ s, Named m (construct s a.thread a.pc m a.isAtomic) (addAccess accesses a) :=
      fun s => named_self fun _ => hst
    have hsame : extractMemoryStatus value = some .write ∨
        extractMemoryStatus value = some .race → existRace value m = true →
        Named m (extractSamePcStatus .race value m a) (addAccess accesses a) := by
      intro hs hr
      unfold extractSamePcStatus
      split_ifs
      · exact named_old _ fun _ => h.writer hr hs _
      · exact hself _
    rw [update_store hst]
    unfold updateStoreStatusForRace
    split
    · exact hself _
    · split_ifs <;> exact hself _
    · split_ifs <;> exact hself _
    · next hs =>
      split_ifs with hne
      · exact hsame (Or.inl hs) (Bool.and_eq_true_iff.1 hne).2
      · exact hself _
    · next hs =>
      split_ifs with hne
      · exact hsame (Or.inr hs) (Bool.and_eq_true_iff.1 hne).2
      · exact hself _
    · exact hkeep

lemma racing_ne (h : racing m value a = true) : extractThreadId value ≠ a.thread := by
  unfold racing at h
  simp only [Bool.and_eq_true, bne_iff_ne] at h
  exact h.1.1

/-- **What is reported is true**: the thread in the report is one of this epoch. -/
lemma Named.reported (h : Named m value accesses) (hf : Fresh m value accesses a) {r : Report}
    (hr : (SimtRace.update m value a).2 = some r) :
    ∃ b ∈ accesses, b.thread = r.conflictedThread ∧ b.thread ≠ a.thread ∧
      (b.isStore = true ∨ a.isStore = true) := by
  -- the condition of the branch that reports gives a thread of this epoch
  have hfound : ∀ t, existRace value m = true → extractThreadId value ≠ a.thread →
      (a.isStore = true ∨ extractMemoryStatus value = some .write ∨
        extractMemoryStatus value = some .race) →
      some (assignErrorInfo t value) = some r →
      ∃ b ∈ accesses, b.thread = r.conflictedThread ∧ b.thread ≠ a.thread ∧
        (b.isStore = true ∨ a.isStore = true) := by
    intro t hrace hne hstore heq
    obtain ⟨b, hb, hthread, hbs⟩ := h hrace
    cases heq
    refine ⟨b, hb, hthread, by rw [hthread]; exact hne, ?_⟩
    rcases hstore with hs | hs
    · exact Or.inr hs
    · exact Or.inl (hbs hs)
  cases hst : a.isStore with
  | false =>
    rw [hst] at hfound
    rw [update_load hst] at hr
    unfold updateLoadStatusForRace at hr
    split at hr
    · cases hr
    · split_ifs at hr
    · cases hr
    · next hs =>
      split_ifs at hr with hrace
      exact hfound _ (existRace_of_racing hrace) (racing_ne hrace) (Or.inr (Or.inl hs)) hr
    · next hs =>
      split_ifs at hr with hrace
      exact hfound _ (existRace_of_racing hrace) (racing_ne hrace) (Or.inr (Or.inr hs)) hr
    · cases hr
  | true =>
    rw [hst] at hfound
    rw [update_store hst] at hr
    unfold updateStoreStatusForRace at hr
    split at hr
    · cases hr
    · split_ifs at hr with hrace
      exact hfound _ (existRace_of_racing hrace) (racing_ne hrace) (Or.inl rfl) hr
    · next hs =>
      split_ifs at hr with hrace
      obtain ⟨hex, hap⟩ := Bool.and_eq_true_iff.1 hrace
      refine hfound _ hex (fun he => ?_) (Or.inl rfl) hr
      unfold apart at hap
      rw [he, isSameWarp_self, Bool.not_true, Bool.false_or, beq_iff_eq] at hap
      exact hf.store hs hst hex ⟨he, hap⟩
    · split_ifs at hr with hne
      obtain ⟨hne, hex⟩ := Bool.and_eq_true_iff.1 hne
      exact hfound _ hex (by simpa using hne) (Or.inl rfl) hr
    · split_ifs at hr with hne
      obtain ⟨hne, hex⟩ := Bool.and_eq_true_iff.1 hne
      exact hfound _ hex (by simpa using hne) (Or.inl rfl) hr
    · cases hr

end

lemma named_run {m : OnlineMemoryType} {es : List Event}
    (h : AllAccesses (fun before a => Fresh m (word m before) (recent before) a) [] es) :
    Named m (word m es) (recent es) := by
  induction es using List.reverseRecOn with
  | nil =>
    intro hr
    rw [show word m [] = 0 from rfl, existRace_invalid rfl m] at hr
    cases hr
  | append_singleton es e ih =>
    have hes := ih h.of_append
    have hbarrier : e.isAccess = false → Named m (word m (es ++ [e])) (recent (es ++ [e])) := by
      intro he hr
      rw [word_concat, existRace_barrier he] at hr
      cases hr
    cases e with
    | access a =>
      rw [word_concat, recent_access]
      exact hes.update h.at
    | sync => exact hbarrier rfl
    | simtEnd => exact hbarrier rfl

/-- **Reported races are real** in every run whose accesses bring no thread back. -/
theorem sound_of_fresh (m : OnlineMemoryType) (es : List Event)
    (h : AllAccesses (fun before a => Fresh m (word m before) (recent before) a) [] es) :
    Sound m es := by
  intro pre b post r hes hr
  rw [hes] at h
  obtain ⟨a, ha, hthread, hne, hstore⟩ := (named_run h.of_append).reported h.at hr
  obtain ⟨hx, before, mid, hpre, hmid⟩ := mem_recent.1 ha
  exact ⟨before, a, mid, hpre, hmid, hthread, hx, hne, hstore⟩

/-- A thread reads the byte, and one of another warp writes it. -/
theorem sound_read_write :
    Sound .ub [access 0 (by decide) 0x10 false, access 40 (by decide) 0x20 true] := by
  refine sound_of_fresh _ _ ⟨⟨?_, ?_⟩, ⟨?_, ?_⟩, trivial⟩ <;> decide

/-- A thread reads the byte before a barrier, one of another warp reads it at the same program
counter behind the barrier and then writes it: the first thread is named although it has not
accessed the byte since. -/
theorem reader_brought_back : ¬ Sound .ub
    [access 0 (by decide) 0x10 false, .sync, access 32 (by decide) 0x10 false,
      access 32 (by decide) 0x20 true] := by
  intro h
  obtain ⟨before, a, mid, hpre, hmid, hthread, -⟩ :=
    h [access 0 (by decide) 0x10 false, .sync, access 32 (by decide) 0x10 false]
      ⟨32, by decide, 0x20, true, false⟩ [] ⟨.rw, 0, 0x10⟩ rfl (by decide)
  have ha : a.thread = 0 := hthread
  rcases before with _ | ⟨x, _ | ⟨y, _ | ⟨z, before⟩⟩⟩
  · obtain ⟨-, hrest⟩ := List.cons.inj hpre
    have := hmid .sync (by rw [← hrest]; exact List.mem_cons_self ..)
    cases this
  · cases hpre
  · cases hpre
    cases ha
  · cases before <;> cases hpre

end MsSanitizer.SimtRace
