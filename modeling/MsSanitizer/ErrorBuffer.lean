import MsSanitizer.ClassMerge
import MsSanitizer.RecordDefs

/-!
# The buffer of errors

Equal errors are reported once, with the blocks they occurred in. The buffer is a hash table whose
equality and hash are written by hand. The hash takes a part of what the equality compares, so equal
errors have equal hashes and `find` sees every equal entry. Messages without a bad byte are taken to
be corrupted and are skipped, unless their type says nothing about bytes.
-/

namespace MsSanitizer.ErrorBuffer

open RecordDefs ClassMerge

/-- `std::hash` for the types that are hashed. -/
structure Hashes where
  uint8 : ℕ → ℕ
  uint64 : ℕ → ℕ
  int32 : ℤ → ℕ
  string : String → ℕ

/-- `ErrorMsg::operator==`. -/
def equals (lhs rhs : ErrorMsg) : Bool :=
  if !lhs.isError || !rhs.isError then lhs.isError == rhs.isError
  else
    lhs.isError == rhs.isError && lhs.type == rhs.type &&
      lhs.auxData.badAddr == rhs.auxData.badAddr &&
      lhs.auxData.nBadBytes == rhs.auxData.nBadBytes &&
      lhs.auxData.space == rhs.auxData.space && lhs.auxData.moduleId == rhs.auxData.moduleId &&
      lhs.auxData.fileName == rhs.auxData.fileName && lhs.auxData.lineNo == rhs.auxData.lineNo &&
      lhs.auxData.pc == rhs.auxData.pc && lhs.auxData.isSimt == rhs.auxData.isSimt &&
      lhs.auxData.displayThread == rhs.auxData.displayThread &&
      lhs.auxData.threadLoc == rhs.auxData.threadLoc

/-- `ErrorMsg::operator()` of one message: its hash. -/
def hash (H : Hashes) (error : ErrorMsg) : ℕ :=
  H.uint8 error.type.ctorIdx ^^^ H.uint64 error.auxData.badAddr ^^^
    H.uint64 error.auxData.nBadBytes ^^^ H.uint8 error.auxData.space.ctorIdx ^^^
    H.int32 error.auxData.moduleId ^^^ H.string error.auxData.fileName ^^^
    H.uint64 error.auxData.lineNo ^^^ H.uint64 error.auxData.pc ^^^
    H.uint64 error.auxData.isSimt.toNat ^^^ H.uint64 error.auxData.displayThread.toNat ^^^
    H.uint64 error.auxData.threadLoc.idX ^^^ H.uint64 error.auxData.threadLoc.idY ^^^
    H.uint64 error.auxData.threadLoc.idZ

structure ReducedErrorMsg where
  errorMsg : ErrorMsg
  aivBlocks : Finset ℕ := ∅
  aicBlocks : Finset ℕ := ∅
  aicoreBlocks : Finset ℕ := ∅
  deriving DecidableEq

def hasBadByteSemantics : MemErrorType → Bool
  | .illegalFree => false
  | .internalError => false
  | _ => true

/-- The messages that `Add` skips. -/
def skipped (error : ErrorMsg) : Bool :=
  hasBadByteSemantics error.type && error.auxData.nBadBytes == 0

/-- The core of an error, as `static_cast<uint64_t>` gives it. -/
def coreId (error : ErrorMsg) : ℕ := (error.auxData.coreId % 2 ^ 64).toNat

/-- The entry `Add` looks for. -/
def reducedError (error : ErrorMsg) : ReducedErrorMsg :=
  match error.auxData.blockType with
  | .aivec => { errorMsg := error, aivBlocks := {coreId error} }
  | .aicube => { errorMsg := error, aicBlocks := {coreId error} }
  | .aicore => { errorMsg := error, aicoreBlocks := {coreId error} }

/-- The block of an error is inserted into an entry that is there already. -/
def insertBlock (error : ErrorMsg) (it : ReducedErrorMsg) : ReducedErrorMsg :=
  match error.auxData.blockType with
  | .aivec => { it with aivBlocks := insert (coreId error) it.aivBlocks }
  | .aicube => { it with aicBlocks := insert (coreId error) it.aicBlocks }
  | .aicore => { it with aicoreBlocks := insert (coreId error) it.aicoreBlocks }

section Table

-- the hashes, and the bucket of a hash in a table of a number of entries
variable (H : Hashes) (bucket : ℕ → ℕ → ℕ)

/-- `std::unordered_set::find`: an equal entry in the bucket of the key. -/
def find (errorSet : List ReducedErrorMsg) (key : ReducedErrorMsg) : Option ℕ :=
  errorSet.findIdx? fun e =>
    bucket errorSet.length (hash H key.errorMsg) == bucket errorSet.length (hash H e.errorMsg) &&
      equals key.errorMsg e.errorMsg

def add (errorSet : List ReducedErrorMsg) (error : ErrorMsg) : List ReducedErrorMsg :=
  if skipped error then errorSet
  else
    match find H bucket errorSet (reducedError error) with
    | none => errorSet ++ [reducedError error]
    | some it => errorSet.modify it (insertBlock error)

def addAll (errors : List ErrorMsg) : List ReducedErrorMsg := errors.foldl (add H bucket) []

end Table

/-- The buffer says which errors there are, each once, and in which blocks they occurred. -/
structure Deduplicated (errors : List ErrorMsg) (errorSet : List ReducedErrorMsg) : Prop where
  apart : errorSet.Pairwise fun e e' => equals e.errorMsg e'.errorMsg = false
  occurred : ∀ e ∈ errorSet, e.errorMsg ∈ errors
  present : ∀ error ∈ errors, ∃ e ∈ errorSet, equals e.errorMsg error = true
  aivBlocks : ∀ e ∈ errorSet, ∀ x, x ∈ e.aivBlocks ↔ ∃ error ∈ errors,
    equals e.errorMsg error = true ∧ error.auxData.blockType = .aivec ∧ coreId error = x
  aicBlocks : ∀ e ∈ errorSet, ∀ x, x ∈ e.aicBlocks ↔ ∃ error ∈ errors,
    equals e.errorMsg error = true ∧ error.auxData.blockType = .aicube ∧ coreId error = x
  aicoreBlocks : ∀ e ∈ errorSet, ∀ x, x ∈ e.aicoreBlocks ↔ ∃ error ∈ errors,
    equals e.errorMsg error = true ∧ error.auxData.blockType = .aicore ∧ coreId error = x

/-! ## Equality and hash -/

/-- What the equality compares, of an error. -/
structure ErrorClass where
  type : MemErrorType
  badAddr : ℕ
  nBadBytes : ℕ
  space : AddressSpace
  moduleId : ℤ
  fileName : String
  lineNo : ℕ
  pc : ℕ
  isSimt : Bool
  displayThread : Bool
  threadLoc : SimtThreadLocation

/-- The class of a message; all messages that are no errors are of one class. -/
def errorClass (error : ErrorMsg) : Option ErrorClass :=
  if error.isError then
    some
      { type := error.type
        badAddr := error.auxData.badAddr
        nBadBytes := error.auxData.nBadBytes
        space := error.auxData.space
        moduleId := error.auxData.moduleId
        fileName := error.auxData.fileName
        lineNo := error.auxData.lineNo
        pc := error.auxData.pc
        isSimt := error.auxData.isSimt
        displayThread := error.auxData.displayThread
        threadLoc := error.auxData.threadLoc }
  else none

lemma equals_iff (lhs rhs : ErrorMsg) :
    equals lhs rhs = true ↔ errorClass lhs = errorClass rhs := by
  unfold equals errorClass
  cases hl : lhs.isError <;> cases hr : rhs.isError <;>
    simp [and_assoc]

lemma hash_congr (H : Hashes) {lhs rhs : ErrorMsg} (hl : lhs.isError = true)
    (hr : rhs.isError = true) (h : equals lhs rhs = true) : hash H lhs = hash H rhs := by
  rw [equals_iff, errorClass, errorClass, if_pos hl, if_pos hr, Option.some.injEq,
    ErrorClass.mk.injEq] at h
  obtain ⟨h1, h2, h3, h4, h5, h6, h7, h8, h9, h10, h11⟩ := h
  unfold hash
  rw [h1, h2, h3, h4, h5, h6, h7, h8, h9, h10, h11]

/-! ## The table -/

def same (x e : ReducedErrorMsg) : Bool := equals x.errorMsg e.errorMsg

/-- An entry with the blocks of another one of its class. -/
def update (e x : ReducedErrorMsg) : ReducedErrorMsg :=
  { e with
    aivBlocks := e.aivBlocks ∪ x.aivBlocks
    aicBlocks := e.aicBlocks ∪ x.aicBlocks
    aicoreBlocks := e.aicoreBlocks ∪ x.aicoreBlocks }

lemma classes : Classes same update fun e => errorClass e.errorMsg where
  same_iff _ _ := equals_iff _ _
  cls_update _ _ _ := rfl

lemma errorMsg_reducedError (error : ErrorMsg) : (reducedError error).errorMsg = error := by
  unfold reducedError
  cases error.auxData.blockType <;> rfl

lemma insertBlock_eq (error : ErrorMsg) (e : ReducedErrorMsg) :
    insertBlock error e = update e (reducedError error) := by
  unfold insertBlock update reducedError
  cases error.auxData.blockType <;>
    simp only [Finset.union_empty, Finset.insert_eq, Finset.union_comm]

/-- Among errors the table finds an equal entry wherever there is one. -/
lemma find_eq (H : Hashes) (bucket : ℕ → ℕ → ℕ) {errorSet : List ReducedErrorMsg}
    {key : ReducedErrorMsg} (hkey : key.errorMsg.isError = true)
    (hset : ∀ e ∈ errorSet, e.errorMsg.isError = true) :
    find H bucket errorSet key = errorSet.findIdx? (same key) := by
  rw [find]
  generalize errorSet.length = n
  induction errorSet with
  | nil => rfl
  | cons e errorSet ih =>
    have hpred : (bucket n (hash H key.errorMsg) == bucket n (hash H e.errorMsg) &&
        equals key.errorMsg e.errorMsg) = same key e := by
      unfold same
      cases heq : equals key.errorMsg e.errorMsg with
      | false => rw [Bool.and_false]
      | true => rw [hash_congr H hkey (hset e List.mem_cons_self) heq, beq_self_eq_true,
          Bool.true_and]
    rw [List.findIdx?_cons, List.findIdx?_cons, hpred,
      ih fun e he => hset e (List.mem_cons_of_mem _ he)]

lemma add_eq (H : Hashes) (bucket : ℕ → ℕ → ℕ) {errorSet : List ReducedErrorMsg}
    {error : ErrorMsg} (herror : error.isError = true)
    (hset : ∀ e ∈ errorSet, e.errorMsg.isError = true) (hskip : skipped error = false) :
    add H bucket errorSet error = mergeInto same update (reducedError error) errorSet := by
  rw [add, hskip, find_eq H bucket ((errorMsg_reducedError error).symm ▸ herror) hset,
    mergeInto_eq, if_neg Bool.false_ne_true]
  cases errorSet.findIdx? (same (reducedError error)) with
  | none => rfl
  | some it =>
    simp only
    congr 1
    funext e
    exact insertBlock_eq error e

def kept (errors : List ErrorMsg) : List ErrorMsg := errors.filter fun error => !skipped error

lemma isError_of_merged {errors : List ErrorMsg} {es : List ReducedErrorMsg}
    (herrors : ∀ error ∈ errors, error.isError = true)
    (hm : Merged same update (fun e => errorClass e.errorMsg) (errors.map reducedError) es) :
    ∀ e ∈ es, e.errorMsg.isError = true := by
  intro e he
  have hcls := (hm.mem (errorClass e.errorMsg)).mp (List.mem_map_of_mem he)
  obtain ⟨x, hx, hxe⟩ := List.mem_map.mp hcls
  obtain ⟨error, herror, rfl⟩ := List.mem_map.mp hx
  simp only [errorMsg_reducedError] at hxe
  have hsome := herrors error herror
  by_contra hno
  rw [errorClass, if_pos hsome, errorClass, if_neg hno] at hxe
  cases hxe

/-- The buffer merges the messages that are not skipped. -/
lemma merged_addAll (H : Hashes) (bucket : ℕ → ℕ → ℕ) {errors : List ErrorMsg}
    (herrors : ∀ error ∈ errors, error.isError = true) :
    Merged same update (fun e => errorClass e.errorMsg) ((kept errors).map reducedError)
      (addAll H bucket errors) := by
  induction errors using List.reverseRecOn with
  | nil => exact merged_mergeAll classes []
  | append_singleton errors error ih =>
    have hm := ih fun error herror => herrors error (List.mem_append_left _ herror)
    rw [addAll, List.foldl_append, ← addAll, List.foldl_cons, List.foldl_nil]
    have hset := isError_of_merged (fun error herror => herrors error
      (List.mem_append_left _ (List.mem_filter.mp herror).1)) hm
    cases hskip : skipped error with
    | true =>
      rw [add, hskip, if_pos rfl, kept, List.filter_append, List.filter_singleton, hskip]
      rw [kept] at hm
      simpa using hm
    | false =>
      rw [add_eq H bucket (herrors error (by simp)) hset hskip, kept, List.filter_append,
        List.filter_singleton, hskip]
      simp only [Bool.not_false, List.map_append]
      exact hm.step classes

/-- The blocks of an entry are those of all the messages of its class. -/
lemma mem_foldl_update {f : ReducedErrorMsg → Finset ℕ}
    (hf : ∀ e x, f (update e x) = f e ∪ f x) (a : ReducedErrorMsg) (rest : List ReducedErrorMsg)
    (x : ℕ) : x ∈ f (rest.foldl update a) ↔ ∃ y ∈ a :: rest, x ∈ f y := by
  induction rest generalizing a with
  | nil => simp
  | cons b rest ih =>
    rw [List.foldl_cons, ih]
    simp [hf, or_assoc]

lemma errorMsg_foldl_update (a : ReducedErrorMsg) (rest : List ReducedErrorMsg) :
    (rest.foldl update a).errorMsg = a.errorMsg := by
  induction rest generalizing a with
  | nil => rfl
  | cons b rest ih => exact ih (update a b)

/-- The members of the class of an entry are the messages that are equal to it. -/
lemma mem_class {errors : List ErrorMsg} {e a : ReducedErrorMsg}
    {rest : List ReducedErrorMsg}
    (hfilter : (errors.map reducedError).filter (same e) = a :: rest) (y : ReducedErrorMsg) :
    y ∈ a :: rest ↔
      ∃ error ∈ errors, equals e.errorMsg error = true ∧ reducedError error = y := by
  rw [← hfilter, List.mem_filter, List.mem_map]
  constructor
  · rintro ⟨⟨error, herror, rfl⟩, hsame⟩
    rw [same, errorMsg_reducedError] at hsame
    exact ⟨error, herror, hsame, rfl⟩
  · rintro ⟨error, herror, heq, rfl⟩
    exact ⟨⟨error, herror, rfl⟩, by rwa [same, errorMsg_reducedError]⟩

section Merged

variable {errors : List ErrorMsg} {es : List ReducedErrorMsg}
  (hm : Merged same update (fun e => errorClass e.errorMsg) (errors.map reducedError) es)
include hm

lemma blocks_iff {f : ReducedErrorMsg → Finset ℕ} {b : BlockType}
    (hf : ∀ e x, f (update e x) = f e ∪ f x)
    (hb : ∀ error, f (reducedError error) =
      if error.auxData.blockType = b then {coreId error} else ∅)
    {e : ReducedErrorMsg} (he : e ∈ es) (x : ℕ) :
    x ∈ f e ↔ ∃ error ∈ errors,
      equals e.errorMsg error = true ∧ error.auxData.blockType = b ∧ coreId error = x := by
  obtain ⟨a, rest, hfilter, hfold⟩ := hm.entry e he
  have hmem : x ∈ f e ↔ ∃ y ∈ a :: rest, x ∈ f y := by
    rw [hfold]
    exact mem_foldl_update hf a rest x
  have hx : ∀ error, x ∈ f (reducedError error) ↔
      error.auxData.blockType = b ∧ coreId error = x := by
    intro error
    rw [hb]
    split_ifs with hblock
    · rw [Finset.mem_singleton, eq_comm]
      exact ⟨fun h => ⟨hblock, h⟩, fun h => h.2⟩
    · exact iff_of_false (Finset.notMem_empty x) fun h => hblock h.1
  rw [hmem]
  constructor
  · rintro ⟨y, hy, hxy⟩
    obtain ⟨error, herror, heq, rfl⟩ := (mem_class hfilter y).mp hy
    exact ⟨error, herror, heq, (hx error).mp hxy⟩
  · rintro ⟨error, herror, heq, hblock⟩
    exact ⟨_, (mem_class hfilter _).mpr ⟨error, herror, heq, rfl⟩, (hx error).mpr hblock⟩

lemma deduplicated_of_merged : Deduplicated errors es where
  apart := by
    refine (List.pairwise_map.mp hm.nodup).imp fun {e e'} hne => ?_
    rw [← Bool.not_eq_true, equals_iff]
    exact hne
  occurred e he := by
    obtain ⟨a, rest, hfilter, hfold⟩ := hm.entry e he
    obtain ⟨error, herror, -, ha⟩ := (mem_class hfilter a).mp List.mem_cons_self
    have hmsg : e.errorMsg = error := by
      rw [hfold, errorMsg_foldl_update, ← ha, errorMsg_reducedError]
    rwa [hmsg]
  present error herror := by
    have hcls := (hm.mem (errorClass error)).mpr (List.mem_map.mpr
      ⟨reducedError error, List.mem_map_of_mem herror, by rw [errorMsg_reducedError]⟩)
    obtain ⟨e, he, heq⟩ := List.mem_map.mp hcls
    exact ⟨e, he, (equals_iff _ _).mpr heq⟩
  aivBlocks _ he := blocks_iff hm (fun _ _ => rfl)
    (fun error => by unfold reducedError; cases error.auxData.blockType <;> rfl) he
  aicBlocks _ he := blocks_iff hm (fun _ _ => rfl)
    (fun error => by unfold reducedError; cases error.auxData.blockType <;> rfl) he
  aicoreBlocks _ he := blocks_iff hm (fun _ _ => rfl)
    (fun error => by unfold reducedError; cases error.auxData.blockType <;> rfl) he

end Merged

/-- **The buffer of errors.** Equal errors have equal hashes, and of any errors the buffer has an
entry for each class of those that are not skipped, with the blocks of all of them. -/
theorem addAll_deduplicated (H : Hashes) (bucket : ℕ → ℕ → ℕ) (errors : List ErrorMsg)
    (herrors : ∀ error ∈ errors, error.isError = true) :
    (∀ lhs ∈ errors, ∀ rhs ∈ errors, equals lhs rhs = true → hash H lhs = hash H rhs) ∧
      Deduplicated (kept errors) (addAll H bucket errors) :=
  ⟨fun _ hl _ hr => hash_congr H (herrors _ hl) (herrors _ hr),
    deduplicated_of_merged (merged_addAll H bucket herrors)⟩

/-- Hashes for a run: those of numbers are the numbers. -/
def plainHashes : Hashes where
  uint8 := id
  uint64 := id
  int32 := Int.toNat
  string := String.length

/-- An illegal write at an address, in a vector block. -/
def illegalWrite (addr size : ℕ) (core : ℤ) : ErrorMsg :=
  { type := .illegalAddrWrite, isError := true
    auxData := { badAddr := addr, nBadBytes := size, space := .gm, coreId := core,
                 blockType := .aivec } }

theorem addAll_deduplicated_two :
    (∀ lhs ∈ [illegalWrite 64 8 0, illegalWrite 64 8 3],
      ∀ rhs ∈ [illegalWrite 64 8 0, illegalWrite 64 8 3],
        equals lhs rhs = true → hash plainHashes lhs = hash plainHashes rhs) ∧
      Deduplicated (kept [illegalWrite 64 8 0, illegalWrite 64 8 3])
        (addAll plainHashes (fun n h => h % (n + 1)) [illegalWrite 64 8 0, illegalWrite 64 8 3]) :=
  addAll_deduplicated plainHashes (fun n h => h % (n + 1)) _ (by decide)

/-- An error without a bad byte has no entry. -/
theorem addAll_skips : ¬ Deduplicated [illegalWrite 64 0 0]
    (addAll plainHashes (fun n h => h % (n + 1)) [illegalWrite 64 0 0]) := by
  intro h
  obtain ⟨e, he, -⟩ := h.present (illegalWrite 64 0 0) List.mem_cons_self
  cases he

end MsSanitizer.ErrorBuffer
