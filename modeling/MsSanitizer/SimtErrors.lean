import MsSanitizer.ClassMerge
import MsSanitizer.EventDef
import Mathlib.Data.List.Destutter
import Mathlib.Data.List.Sort
import Mathlib.Data.Prod.Lex
import Mathlib.Data.Sym.Sym2
import Mathlib.Order.Bounds.Basic

/-!
# Races between threads that are merged

The model of `ParseOnlineError` and `MergeSimtErrors` in `race_sanitizer.cpp`. The races that a
kernel reports while it runs are kept until its end. Those that differ in their threads only, or
in the order of their sides, are then shown as one, with the two smallest threads that they name.
-/

namespace MsSanitizer

open RecordDefs EventDef

/-! ## Threads -/

namespace RecordDefs.SimtThreadLocation

/-- `operator<`. -/
def less (a b : SimtThreadLocation) : Bool :=
  if a.mainScalarPc ≠ b.mainScalarPc then decide (a.mainScalarPc < b.mainScalarPc)
  else if a.idZ ≠ b.idZ then decide (a.idZ < b.idZ)
  else if a.idY ≠ b.idY then decide (a.idY < b.idY)
  else decide (a.idX < b.idX)

/-- The fields in the order in which they are compared. -/
def lexKey (a : SimtThreadLocation) : ℕ ×ₗ ℕ ×ₗ ℕ ×ₗ ℕ :=
  toLex (a.mainScalarPc, toLex (a.idZ, toLex (a.idY, a.idX)))

lemma lexKey_injective : Function.Injective lexKey := by
  intro a b h
  simp only [lexKey, EmbeddingLike.apply_eq_iff_eq, Prod.mk.injEq] at h
  obtain ⟨x, y, z, pc⟩ := a
  obtain ⟨x', y', z', pc'⟩ := b
  simp only at h
  obtain ⟨rfl, rfl, rfl, rfl⟩ := h
  rfl

instance : LinearOrder SimtThreadLocation := LinearOrder.lift' lexKey lexKey_injective

lemma less_iff (a b : SimtThreadLocation) : less a b = true ↔ a < b := by
  have hlt : a < b ↔ lexKey a < lexKey b := Iff.rfl
  rw [hlt]
  simp only [lexKey, Prod.Lex.toLex_lt_toLex, less]
  split_ifs <;> simp only [decide_eq_true_eq] <;> omega

end RecordDefs.SimtThreadLocation

/-! ## Errors -/

structure ErrorEvent where
  serialNo : ℕ := 0
  deviceId : ℕ := 0
  kernelIdx : ℕ := 0
  coreId : ℕ := 0
  addr : ℕ := 0
  fileNo : ℕ := 0
  lineNo : ℕ := 0
  pc : ℕ := 0
  accessType : AccessType := .read
  memType : MemType := .l1
  pipeType : ℕ := 0
  blockType : BlockType := .aivec
  threadLoc : SimtThreadLocation := {}
  isSimt : Bool := false
  deriving DecidableEq, Repr

/-- `IsSameSimt` of two sides. -/
def ErrorEvent.isSameSimt (e other : ErrorEvent) : Bool :=
  decide (e.coreId = other.coreId) && decide (e.addr = other.addr) &&
    decide (e.fileNo = other.fileNo) && decide (e.lineNo = other.lineNo) &&
    decide (e.pc = other.pc) && decide (e.accessType = other.accessType) &&
    decide (e.memType = other.memType) && decide (e.pipeType = other.pipeType) &&
    decide (e.blockType = other.blockType) && decide (e.isSimt = other.isSimt)

structure RaceDispInfo where
  p1 : ErrorEvent
  p2 : ErrorEvent
  isMissDcci : Bool := false
  isOnlineError : Bool := false
  deriving DecidableEq, Repr

namespace RaceDispInfo

def isSameSimt (e other : RaceDispInfo) : Bool :=
  (e.p1.isSameSimt other.p1 && e.p2.isSameSimt other.p2) ||
    (e.p1.isSameSimt other.p2 && e.p2.isSameSimt other.p1)

def withThreads (e : RaceDispInfo) (s t : SimtThreadLocation) : RaceDispInfo :=
  { e with p1 := { e.p1 with threadLoc := s }, p2 := { e.p2 with threadLoc := t } }

/-- The sort of `simtLocs` and `std::unique` on it. -/
def sortUnique (l : List SimtThreadLocation) : List SimtThreadLocation :=
  (l.insertionSort fun a b => ¬ b.less a).destutter (· ≠ ·)

def updateMinThreadLoc (e other : RaceDispInfo) : RaceDispInfo :=
  match sortUnique [e.p1.threadLoc, e.p2.threadLoc, other.p1.threadLoc, other.p2.threadLoc] with
  | s :: t :: _ => e.withThreads s t
  | _ => e

def mergeSimtErrors (errors : List RaceDispInfo) : List RaceDispInfo :=
  ClassMerge.mergeAll isSameSimt updateMinThreadLoc errors

end RaceDispInfo

/-- What a kernel reports of a race between two of its threads. -/
inductive ThreadRace
  | rw | wr | ww
  deriving DecidableEq, Repr

/-- `ThreadRaceToAccessType`. -/
def ThreadRace.accessType (errorType : ThreadRace) (isSecondEvent : Bool) : AccessType :=
  match errorType with
  | .rw => if isSecondEvent then .read else .write
  | .wr => if isSecondEvent then .write else .read
  | .ww => .write

/-- `Location`, of which a core and a place in the code are read. -/
structure RaceLocation where
  blockId : ℕ := 0
  pc : ℕ := 0
  fileNo : ℕ := 0
  lineNo : ℕ := 0
  deriving DecidableEq, Repr

/-- `KernelErrorDesc` for a race, with the type of its memory. -/
structure KernelRaceDesc where
  errorType : ThreadRace
  location : RaceLocation := {}
  memType : MemType := .ub
  threadLoc : SimtThreadLocation
  addr : ℕ := 0
  conflictedLocation : RaceLocation := {}
  conflictedThreadLoc : SimtThreadLocation
  deriving DecidableEq, Repr

/-- `ParseOnlineError` for one race, with the device and the kernel of the running context. -/
def parseOnlineError (deviceId kernelIdx : ℕ) (blockType : BlockType) (desc : KernelRaceDesc) :
    RaceDispInfo :=
  let event : ErrorEvent :=
    { deviceId, kernelIdx, coreId := desc.location.blockId, addr := desc.addr,
      pc := desc.location.pc, fileNo := desc.location.fileNo, lineNo := desc.location.lineNo,
      blockType, isSimt := true, accessType := desc.errorType.accessType false,
      memType := desc.memType, threadLoc := desc.threadLoc }
  { isOnlineError := true
    p1 := event
    p2 := { event with
      accessType := desc.errorType.accessType true, pc := desc.conflictedLocation.pc,
      fileNo := desc.conflictedLocation.fileNo, lineNo := desc.conflictedLocation.lineNo,
      threadLoc := desc.conflictedThreadLoc } }

/-! ## Classes -/

def ErrorEvent.bare (e : ErrorEvent) : ErrorEvent := { e with threadLoc := {} }

namespace RaceDispInfo

/-- The errors agree on everything but the threads, possibly with the sides swapped. -/
def Agree (e f : RaceDispInfo) : Prop :=
  e.isMissDcci = f.isMissDcci ∧ e.isOnlineError = f.isOnlineError ∧
    (e.p1.bare = f.p1.bare ∧ e.p2.bare = f.p2.bare ∨ e.p1.bare = f.p2.bare ∧ e.p2.bare = f.p1.bare)

instance (e f : RaceDispInfo) : Decidable (Agree e f) := by unfold Agree; infer_instance

def threads (l : List RaceDispInfo) : Set SimtThreadLocation :=
  {t | ∃ e ∈ l, t = e.p1.threadLoc ∨ t = e.p2.threadLoc}

/-- The two sides of an error as they are shown: the thread with its access. -/
def sides (e : RaceDispInfo) : List (SimtThreadLocation × ℕ × AccessType) :=
  [(e.p1.threadLoc, e.p1.pc, e.p1.accessType), (e.p2.threadLoc, e.p2.pc, e.p2.accessType)]

end RaceDispInfo

/-! ## The two smallest threads -/

section TwoSmallest

variable {α : Type*} [LinearOrder α] {S T : Set α} {a b s t : α}

/-- `s` and `t` are the two smallest elements. -/
def TwoSmallest (T : Set α) (s t : α) : Prop :=
  s ∈ T ∧ t ∈ T ∧ s ≠ t ∧ ∀ u ∈ T, u = s ∨ u = t ∨ (s < u ∧ t < u)

/-- The two smallest elements of a union, from those of its parts. -/
lemma TwoSmallest.union (h : TwoSmallest S a b) (hT : TwoSmallest ({a, b} ∪ T) s t) :
    TwoSmallest (S ∪ T) s t := by
  obtain ⟨ha, hb, hne, hS⟩ := h
  obtain ⟨hs, ht, hst, hall⟩ := hT
  have hsub : ∀ u ∈ ({a, b} ∪ T : Set α), u ∈ S ∪ T := by
    rintro u ((rfl | rfl) | hu)
    · exact .inl ha
    · exact .inl hb
    · exact .inr hu
  refine ⟨hsub s hs, hsub t ht, hst, fun u hu => ?_⟩
  rcases hu with hu | hu
  · have ha' := hall a (.inl (.inl rfl))
    have hb' := hall b (.inl (.inr rfl))
    rcases hS u hu with rfl | rfl | ⟨hau, hbu⟩
    · exact ha'
    · exact hb'
    · refine .inr (.inr ?_)
      rcases ha' with rfl | rfl | ⟨hsa, hta⟩
      · rcases hb' with rfl | rfl | ⟨hsb, htb⟩
        · exact absurd rfl hne
        · exact ⟨hau, hbu⟩
        · exact ⟨hau, htb.trans hbu⟩
      · rcases hb' with rfl | rfl | ⟨hsb, htb⟩
        · exact ⟨hbu, hau⟩
        · exact absurd rfl hne
        · exact ⟨hsb.trans hbu, hau⟩
      · exact ⟨hsa.trans hau, hta.trans hau⟩
  · exact hall u (.inr hu)

lemma TwoSmallest.isLeast (h : TwoSmallest T s t) (hlt : s < t) :
    IsLeast T s ∧ IsLeast (T \ {s}) t := by
  obtain ⟨hs, ht, -, hall⟩ := h
  refine ⟨⟨hs, fun u hu => ?_⟩, ⟨ht, hlt.ne'⟩, fun u hu => ?_⟩
  · rcases hall u hu with rfl | rfl | ⟨hsu, -⟩
    · exact le_rfl
    · exact hlt.le
    · exact hsu.le
  · rcases hall u hu.1 with rfl | rfl | ⟨-, htu⟩
    · exact absurd rfl hu.2
    · exact le_rfl
    · exact htu.le

lemma twoSmallest_of_pairwise {l : List α} (h : (s :: t :: l).Pairwise (· < ·)) :
    s < t ∧ TwoSmallest {u | u ∈ s :: t :: l} s t := by
  rw [List.pairwise_cons, List.pairwise_cons] at h
  obtain ⟨hs, ht, -⟩ := h
  have hst := hs t List.mem_cons_self
  refine ⟨hst, List.mem_cons_self, List.mem_cons_of_mem _ List.mem_cons_self, hst.ne,
    fun u hu => ?_⟩
  rcases List.mem_cons.mp hu with rfl | hu
  · exact .inl rfl
  · rcases List.mem_cons.mp hu with rfl | hu
    · exact .inr (.inl rfl)
    · exact .inr (.inr ⟨hs u (List.mem_cons_of_mem _ hu), ht u hu⟩)

end TwoSmallest

namespace RaceDispInfo

lemma sortUnique_spec (l : List SimtThreadLocation) :
    (sortUnique l).Pairwise (· < ·) ∧ ∀ t, t ∈ sortUnique l ↔ t ∈ l := by
  have hrel : ∀ a b : SimtThreadLocation, ¬ b.less a = true ↔ a ≤ b := fun a b => by
    rw [SimtThreadLocation.less_iff, not_lt]
  have : Std.Total fun a b : SimtThreadLocation => ¬ b.less a = true :=
    ⟨fun a b => by rw [hrel, hrel]; exact le_total a b⟩
  have : IsTrans SimtThreadLocation fun a b => ¬ b.less a = true :=
    ⟨fun a b c => by rw [hrel, hrel, hrel]; exact le_trans⟩
  have hsort : (l.insertionSort fun a b => ¬ b.less a).Pairwise (· ≤ ·) :=
    (List.pairwise_insertionSort _ l).imp fun {a b} h => (hrel a b).mp h
  rw [sortUnique, hsort.destutter_eq_dedup]
  refine ⟨?_, fun t => by rw [List.mem_dedup, List.mem_insertionSort]⟩
  have hle := hsort.sublist (List.dedup_sublist _)
  exact (hle.and (List.nodup_dedup _)).imp fun {a b} h => lt_of_le_of_ne h.1 h.2

/-- `UpdateMinThreadLoc` of errors that name two threads each. -/
lemma updateMinThreadLoc_spec {e other : RaceDispInfo} (he : e.p1.threadLoc ≠ e.p2.threadLoc) :
    ∃ s t, e.updateMinThreadLoc other = e.withThreads s t ∧ s < t ∧
      TwoSmallest ({e.p1.threadLoc, e.p2.threadLoc} ∪ threads [other]) s t := by
  obtain ⟨hsorted, hmem⟩ := sortUnique_spec
    [e.p1.threadLoc, e.p2.threadLoc, other.p1.threadLoc, other.p2.threadLoc]
  unfold updateMinThreadLoc
  generalize sortUnique [e.p1.threadLoc, e.p2.threadLoc, other.p1.threadLoc,
    other.p2.threadLoc] = l at hsorted hmem ⊢
  rcases l with _ | ⟨s, _ | ⟨t, l⟩⟩
  · exact absurd ((hmem e.p1.threadLoc).mpr List.mem_cons_self) List.not_mem_nil
  · have h₁ := (hmem e.p1.threadLoc).mpr List.mem_cons_self
    have h₂ := (hmem e.p2.threadLoc).mpr (List.mem_cons_of_mem _ List.mem_cons_self)
    rw [List.mem_singleton] at h₁ h₂
    exact absurd (h₁.trans h₂.symm) he
  · obtain ⟨hst, hsmall⟩ := twoSmallest_of_pairwise hsorted
    refine ⟨s, t, rfl, hst, ?_⟩
    have hset : ({e.p1.threadLoc, e.p2.threadLoc} ∪ threads [other] : Set SimtThreadLocation) =
        {u | u ∈ s :: t :: l} := by
      ext u
      rw [Set.mem_ofPred_eq, hmem]
      simp [threads, or_assoc]
    rw [hset]
    exact hsmall

/-! ## Errors of a class -/

end RaceDispInfo

/-- The fields that `IsSameSimt` compares. -/
def ErrorEvent.compared (e : ErrorEvent) : ErrorEvent :=
  { e with serialNo := 0, deviceId := 0, kernelIdx := 0, threadLoc := {} }

lemma ErrorEvent.isSameSimt_iff (e f : ErrorEvent) :
    e.isSameSimt f = true ↔ e.compared = f.compared := by
  simp only [isSameSimt, compared, Bool.and_eq_true, decide_eq_true_eq, ErrorEvent.mk.injEq,
    true_and, and_assoc]

namespace RaceDispInfo

/-- The class of an error: what is compared of its two sides, in either order. -/
def cls (e : RaceDispInfo) : Sym2 ErrorEvent := s(e.p1.compared, e.p2.compared)

lemma isSameSimt_iff (e f : RaceDispInfo) : e.isSameSimt f = true ↔ e.cls = f.cls := by
  simp only [isSameSimt, Bool.or_eq_true, Bool.and_eq_true, ErrorEvent.isSameSimt_iff, cls,
    Sym2.eq_iff]

lemma cls_withThreads (e : RaceDispInfo) (s t : SimtThreadLocation) :
    (e.withThreads s t).cls = e.cls := rfl

lemma updateMinThreadLoc_eq (e other : RaceDispInfo) :
    ∃ s t, e.updateMinThreadLoc other = e.withThreads s t := by
  unfold updateMinThreadLoc
  rcases sortUnique [e.p1.threadLoc, e.p2.threadLoc, other.p1.threadLoc,
    other.p2.threadLoc] with _ | ⟨s, _ | ⟨t, l⟩⟩
  · exact ⟨e.p1.threadLoc, e.p2.threadLoc, rfl⟩
  · exact ⟨e.p1.threadLoc, e.p2.threadLoc, rfl⟩
  · exact ⟨s, t, rfl⟩

lemma classes : ClassMerge.Classes isSameSimt updateMinThreadLoc cls where
  same_iff := isSameSimt_iff
  cls_update e x _ := by
    obtain ⟨s, t, h⟩ := e.updateMinThreadLoc_eq x
    rw [h, cls_withThreads]

lemma threads_append (l l' : List RaceDispInfo) : threads (l ++ l') = threads l ∪ threads l' := by
  ext u
  simp only [threads, List.mem_append, Set.mem_union, Set.mem_ofPred_eq]
  constructor
  · rintro ⟨e, he | he, hu⟩
    · exact .inl ⟨e, he, hu⟩
    · exact .inr ⟨e, he, hu⟩
  · rintro (⟨e, he, hu⟩ | ⟨e, he, hu⟩)
    · exact ⟨e, .inl he, hu⟩
    · exact ⟨e, .inr he, hu⟩

/-- An error that is updated with others names the two smallest threads of all. -/
lemma foldl_updateMinThreadLoc (e : RaceDispInfo) (he : e.p1.threadLoc ≠ e.p2.threadLoc)
    (rest : List RaceDispInfo) :
    ∃ s t, rest.foldl updateMinThreadLoc e = e.withThreads s t ∧
      TwoSmallest (threads (e :: rest)) s t ∧ (rest ≠ [] → s < t) := by
  induction rest using List.reverseRecOn with
  | nil =>
    refine ⟨e.p1.threadLoc, e.p2.threadLoc, rfl, ⟨⟨e, List.mem_cons_self, .inl rfl⟩,
      ⟨e, List.mem_cons_self, .inr rfl⟩, he, ?_⟩, fun h => absurd rfl h⟩
    rintro u ⟨f, hf, hu⟩
    rw [List.mem_singleton.mp hf] at hu
    exact hu.imp_right .inl
  | append_singleton rest x ih =>
    obtain ⟨a, b, hfold, hsmall, -⟩ := ih
    obtain ⟨s, t, hupdate, hlt, hnext⟩ :=
      @updateMinThreadLoc_spec (e.withThreads a b) x hsmall.2.2.1
    refine ⟨s, t, ?_, ?_, fun _ => hlt⟩
    · rw [List.foldl_append, hfold, List.foldl_cons, List.foldl_nil, hupdate]
      rfl
    · rw [← List.cons_append, threads_append]
      exact hsmall.union hnext

/-- The errors of one kernel, as `ParseOnlineError` makes them. -/
structure OfKernel (deviceId kernelIdx : ℕ) (e : RaceDispInfo) : Prop where
  p1 : e.p1.serialNo = 0 ∧ e.p1.deviceId = deviceId ∧ e.p1.kernelIdx = kernelIdx
  p2 : e.p2.serialNo = 0 ∧ e.p2.deviceId = deviceId ∧ e.p2.kernelIdx = kernelIdx
  flags : e.isMissDcci = false ∧ e.isOnlineError = true

lemma ofKernel_parseOnlineError (deviceId kernelIdx : ℕ) (blockType : BlockType)
    (desc : KernelRaceDesc) :
    (parseOnlineError deviceId kernelIdx blockType desc).OfKernel deviceId kernelIdx :=
  ⟨⟨rfl, rfl, rfl⟩, ⟨rfl, rfl, rfl⟩, rfl, rfl⟩

lemma OfKernel.withThreads {d k : ℕ} {e : RaceDispInfo} (h : e.OfKernel d k)
    (s t : SimtThreadLocation) : (e.withThreads s t).OfKernel d k :=
  ⟨h.p1, h.p2, h.flags⟩

lemma bare_eq_iff {e f : ErrorEvent} {d k : ℕ}
    (he : e.serialNo = 0 ∧ e.deviceId = d ∧ e.kernelIdx = k)
    (hf : f.serialNo = 0 ∧ f.deviceId = d ∧ f.kernelIdx = k) :
    e.bare = f.bare ↔ e.compared = f.compared := by
  simp only [ErrorEvent.bare, ErrorEvent.compared, ErrorEvent.mk.injEq, he, hf, true_and]

/-- Of one kernel, `IsSameSimt` compares everything but the threads. -/
lemma OfKernel.agree_iff {d k : ℕ} {e f : RaceDispInfo} (he : e.OfKernel d k)
    (hf : f.OfKernel d k) : e.Agree f ↔ e.cls = f.cls := by
  simp only [Agree, he.flags, hf.flags, true_and, cls, Sym2.eq_iff, bare_eq_iff he.p1 hf.p1,
    bare_eq_iff he.p2 hf.p2, bare_eq_iff he.p1 hf.p2, bare_eq_iff he.p2 hf.p1]

/-- An entry is the first error of its class, with the two smallest threads of the class. -/
lemma entry_of_mem {errors : List RaceDispInfo}
    (hdistinct : ∀ e ∈ errors, e.p1.threadLoc ≠ e.p2.threadLoc) {x : RaceDispInfo}
    (hx : x ∈ mergeSimtErrors errors) :
    ∃ first rest, errors.filter x.isSameSimt = first :: rest ∧
      ∃ s t, x = first.withThreads s t ∧ (rest = [] → x = first) ∧
        TwoSmallest (threads (first :: rest)) s t ∧ (rest ≠ [] → s < t) := by
  obtain ⟨first, rest, hfilter, hfold⟩ := (ClassMerge.merged_mergeAll classes errors).entry x hx
  have hmem : first ∈ errors.filter x.isSameSimt := by
    rw [hfilter]
    exact List.mem_cons_self
  obtain ⟨s, t, hthreads, hsmall, hlt⟩ :=
    first.foldl_updateMinThreadLoc (hdistinct first (List.mem_filter.mp hmem).1) rest
  refine ⟨first, rest, hfilter, s, t, hfold.trans hthreads, fun hnil => ?_, hsmall, hlt⟩
  rw [hfold, hnil, List.foldl_nil]

end RaceDispInfo

/-- **Merged races of a kernel.** There is one entry for each class of races that agree, possibly
with the sides swapped, on everything but the threads. It is the first race of its class, as it is
where no other has come; else its threads are the two smallest ones that the class names. -/
theorem mergeSimtErrors_classes (deviceId kernelIdx : ℕ)
    (descs : List (BlockType × KernelRaceDesc))
    (h : ∀ desc ∈ descs, desc.2.threadLoc ≠ desc.2.conflictedThreadLoc) :
    let errors := descs.map fun desc => parseOnlineError deviceId kernelIdx desc.1 desc.2
    let entries := RaceDispInfo.mergeSimtErrors errors
    entries.Pairwise (fun x y => ¬ x.Agree y) ∧ (∀ e ∈ errors, ∃ x ∈ entries, x.Agree e) ∧
      ∀ x ∈ entries, ∃ first rest, errors.filter (fun e => x.Agree e) = first :: rest ∧
        x = first.withThreads x.p1.threadLoc x.p2.threadLoc ∧ (rest = [] → x = first) ∧
        (rest ≠ [] → IsLeast (RaceDispInfo.threads (first :: rest)) x.p1.threadLoc ∧
          IsLeast (RaceDispInfo.threads (first :: rest) \ {x.p1.threadLoc}) x.p2.threadLoc) := by
  intro errors entries
  have hmerged := ClassMerge.merged_mergeAll RaceDispInfo.classes errors
  have hkernel : ∀ e ∈ errors, e.OfKernel deviceId kernelIdx := by
    intro e he
    obtain ⟨desc, -, rfl⟩ := List.mem_map.mp he
    exact RaceDispInfo.ofKernel_parseOnlineError _ _ _ _
  have hdistinct : ∀ e ∈ errors, e.p1.threadLoc ≠ e.p2.threadLoc := by
    intro e he
    obtain ⟨desc, hdesc, rfl⟩ := List.mem_map.mp he
    exact h desc hdesc
  have hkernel' : ∀ x ∈ entries, x.OfKernel deviceId kernelIdx := by
    intro x hx
    obtain ⟨first, rest, hfilter, s, t, hx', -⟩ := RaceDispInfo.entry_of_mem hdistinct hx
    have hmem : first ∈ errors.filter x.isSameSimt := by
      rw [hfilter]
      exact List.mem_cons_self
    rw [hx']
    exact (hkernel first (List.mem_filter.mp hmem).1).withThreads s t
  refine ⟨?_, fun e he => ?_, fun x hx => ?_⟩
  · have hnodup : entries.Pairwise fun x y => x.cls ≠ y.cls := List.pairwise_map.mp hmerged.nodup
    exact hnodup.imp_of_mem fun {x y} hx hy hne hagree =>
      hne (((hkernel' x hx).agree_iff (hkernel' y hy)).mp hagree)
  · have hmem : e.cls ∈ entries.map RaceDispInfo.cls :=
      (hmerged.mem _).mpr (List.mem_map_of_mem he)
    obtain ⟨x, hx, hcls⟩ := List.mem_map.mp hmem
    exact ⟨x, hx, ((hkernel' x hx).agree_iff (hkernel e he)).mpr hcls⟩
  · obtain ⟨first, rest, hfilter, s, t, hx', hone, hsmall, hlt⟩ :=
      RaceDispInfo.entry_of_mem hdistinct hx
    refine ⟨first, rest, ?_, ?_, hone, fun hne => ?_⟩
    · rw [← hfilter]
      refine List.filter_congr fun e he => ?_
      rw [Bool.eq_iff_iff, decide_eq_true_eq, (hkernel' x hx).agree_iff (hkernel e he),
        RaceDispInfo.isSameSimt_iff]
    · rw [hx']
      rfl
    · rw [hx']
      exact hsmall.isLeast (hlt hne)

/-- Two races of two pairs of threads at the same places. -/
def twoRaces : List (BlockType × KernelRaceDesc) :=
  [(.aivec, { errorType := .rw, threadLoc := { idX := 1 }, conflictedThreadLoc := { idX := 2 } }),
    (.aivec, { errorType := .rw, threadLoc := { idX := 0 }, conflictedThreadLoc := { idX := 3 } })]

theorem mergeSimtErrors_classes_two :
    let errors := twoRaces.map fun desc => parseOnlineError 0 0 desc.1 desc.2
    (RaceDispInfo.mergeSimtErrors errors).Pairwise fun x y => ¬ x.Agree y :=
  (mergeSimtErrors_classes 0 0 twoRaces (by decide)).1

/-- The merged race is of the threads `0` and `1`, which have not raced. -/
theorem mergeSimtErrors_drifts :
    let errors := twoRaces.map fun desc => parseOnlineError 0 0 desc.1 desc.2
    (∀ desc ∈ twoRaces, desc.2.threadLoc ≠ desc.2.conflictedThreadLoc) ∧
      ¬ ∀ x ∈ RaceDispInfo.mergeSimtErrors errors, ∃ e ∈ errors, x.Agree e ∧
        x.sides.Perm e.sides := by
  decide

end MsSanitizer
