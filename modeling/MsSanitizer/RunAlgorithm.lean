import MsSanitizer.ClassMerge
import MsSanitizer.PlainScan
import MsSanitizer.SimtErrors

/-!
# The results of the check

The model of `RunAlgorithm` for the two checks inside a block, with the DCCI check off. The pairs of
the scan become errors, and an error that equals an earlier one up to the order of its sides is
left out. `ErrorEvent::Init` is here that of a plain memory event.
-/

namespace MsSanitizer.MemEventChecker

open RecordDefs EventDef Words

/-- `RaceCheckType`, of the checks inside a block. -/
inductive RaceCheckType
  | singleBlock | singlePipe
  deriving DecidableEq, Repr

/-- The constructor of `MemEvent` from an event. -/
def MemEvent.ofEvent (event : SanEvent) : MemEvent :=
  let e : MemEvent :=
    { serialNo := event.serialNo
      closedRingStartSerialNo := event.closedRingStartSerialNo
      loc := event.loc
      pipe := event.pipe
      isAtomicMode := event.isAtomicMode }
  match event.info with
  | .dynamicMem op => { e with dynamicMemInfo := op, isDynamic := true }
  | .mem op => { e with memInfo := op }
  | _ => e

/-- `checkTypeMap_`. -/
def checkFunc (cfg : Platform) (events : List MemEvent) : RaceCheckType → CheckTypeFunc
  | .singleBlock => isInnerCoreRaceEvent cfg events
  | .singlePipe => isSinglePipeRaceEvent events

def scanlineAlgorithm (cfg : Platform) (checkType : RaceCheckType) (events : List MemEvent) :
    Option RaceMemEventsIdx :=
  let data := buildScanlineMetaData events
  if events.any MemEvent.isDynamic then
    some (scanGeneric events (checkFunc cfg events checkType) data)
  else
    match checkType with
    | .singlePipe => some (scanSinglePipeWindow events (checkFunc cfg events .singlePipe) data)
    | .singleBlock => scanSingleBlockFast cfg events data

/-- `ErrorEvent::Init`. -/
def errorEvent (e : MemEvent) : ErrorEvent where
  serialNo := e.serialNo
  deviceId := e.loc.deviceId
  kernelIdx := e.loc.kernelIdx
  coreId := e.loc.coreId
  addr := e.memInfo.addr
  fileNo := e.loc.fileNo
  lineNo := e.loc.lineNo
  pc := e.loc.pc
  accessType := e.memInfo.opType
  memType := e.memInfo.memType
  pipeType := e.pipe.idx
  blockType := e.loc.blockType

def fillRaceDispInfo (isMissDcci : Bool) (event1 event2 : MemEvent) : RaceDispInfo where
  p1 := errorEvent event1
  p2 := errorEvent event2
  isMissDcci := isMissDcci

/-- `operator ==` of two sides. -/
def sameSide (e other : ErrorEvent) : Bool :=
  decide (e.accessType = other.accessType) && decide (e.memType = other.memType) &&
    decide (e.addr = other.addr) && decide (e.fileNo = other.fileNo) &&
    decide (e.lineNo = other.lineNo) && decide (e.pc = other.pc) &&
    decide (e.pipeType = other.pipeType) && decide (e.coreId = other.coreId) &&
    decide (e.threadLoc = other.threadLoc) && decide (e.isSimt = other.isSimt)

def errorEventEqual (rd1 rd2 : RaceDispInfo) : Bool :=
  decide (rd1.isMissDcci = rd2.isMissDcci) &&
    ((sameSide rd1.p1 rd2.p1 && sameSide rd1.p2 rd2.p2) ||
      (sameSide rd1.p1 rd2.p2 && sameSide rd1.p2 rd2.p1))

/-- `raceSet_.emplace` and, where the error is new, `result_->emplace_back`. -/
def addResult (result : List RaceDispInfo) (info : RaceDispInfo) : List RaceDispInfo :=
  if result.any (errorEventEqual info) then result else result ++ [info]

/-- `RunAlgorithm`: the contents of `result_`. -/
def runAlgorithm (cfg : Platform) (checkType : RaceCheckType) (events : List MemEvent) :
    Option (List RaceDispInfo) :=
  (scanlineAlgorithm cfg checkType events).map fun pairs =>
    (pairs.map fun p => fillRaceDispInfo false (eventAt events p.1.eventIdx)
      (eventAt events p.2.eventIdx)).foldl addResult []

/-! ## Equal errors -/

/-- The fields that `operator ==` compares. -/
def comparedSide (e : ErrorEvent) : ErrorEvent :=
  { e with serialNo := 0, deviceId := 0, kernelIdx := 0, blockType := .aivec }

lemma sameSide_iff (e f : ErrorEvent) : sameSide e f = true ↔ comparedSide e = comparedSide f := by
  simp only [sameSide, comparedSide, Bool.and_eq_true, decide_eq_true_eq, ErrorEvent.mk.injEq,
    true_and]
  tauto

/-- The class of an error: its kind and what is compared of its two sides, in either order. -/
def errorClass (r : RaceDispInfo) : Bool × Sym2 ErrorEvent :=
  (r.isMissDcci, s(comparedSide r.p1, comparedSide r.p2))

lemma errorEventEqual_iff (r r' : RaceDispInfo) :
    errorEventEqual r r' = true ↔ errorClass r = errorClass r' := by
  simp only [errorEventEqual, errorClass, Bool.and_eq_true, decide_eq_true_eq, Bool.or_eq_true,
    sameSide_iff, Prod.mk.injEq, Sym2.eq_iff]

lemma errorEventEqual_swap (r : RaceDispInfo) (isMissDcci : Bool) (x y : MemEvent) :
    errorEventEqual r (fillRaceDispInfo isMissDcci x y) =
      errorEventEqual r (fillRaceDispInfo isMissDcci y x) := by
  have hcls : errorClass (fillRaceDispInfo isMissDcci x y) =
      errorClass (fillRaceDispInfo isMissDcci y x) :=
    congrArg (Prod.mk isMissDcci) Sym2.eq_swap
  rw [Bool.eq_iff_iff, errorEventEqual_iff, errorEventEqual_iff, hcls]

lemma classes_error :
    ClassMerge.Classes errorEventEqual (fun e _ => e) errorClass where
  same_iff := errorEventEqual_iff
  cls_update _ _ _ := rfl

lemma mergeInto_eq_addResult (info : RaceDispInfo) (result : List RaceDispInfo) :
    ClassMerge.mergeInto errorEventEqual (fun e _ => e) info result = addResult result info := by
  induction result with
  | nil => rfl
  | cons r result ih =>
    rw [ClassMerge.mergeInto, ih]
    unfold addResult
    rw [List.any_cons]
    by_cases hr : errorEventEqual info r = true
    · simp [hr]
    · by_cases hany : result.any (errorEventEqual info) = true <;> simp [hr, hany]

/-- The results are the errors of the pairs, one of each class. -/
structure Results (events : List MemEvent) (pairs : RaceMemEventsIdx)
    (result : List RaceDispInfo) : Prop where
  sound : ∀ r ∈ result, ∃ c h, (c, h) ∈ idxPairs pairs ∧
    r = fillRaceDispInfo false (eventAt events c) (eventAt events h)
  complete : ∀ c h, (c, h) ∈ idxPairs pairs → ∃ r ∈ result,
    errorEventEqual r (fillRaceDispInfo false (eventAt events c) (eventAt events h)) = true
  once : result.Pairwise fun r r' => errorEventEqual r r' = false

lemma Results.reported {events : List MemEvent} {pairs : RaceMemEventsIdx}
    {result : List RaceDispInfo} (hres : Results events pairs result) {c h : ℕ}
    (hpair : (c, h) ∈ idxPairs pairs ∨ (h, c) ∈ idxPairs pairs) : ∃ r ∈ result,
      errorEventEqual r (fillRaceDispInfo false (eventAt events c) (eventAt events h)) = true := by
  rcases hpair with hpair | hpair
  · exact hres.complete c h hpair
  · obtain ⟨r, hr, heq⟩ := hres.complete h c hpair
    exact ⟨r, hr, (errorEventEqual_swap r false _ _).trans heq⟩

lemma runAlgorithm_results {cfg : Platform} {checkType : RaceCheckType} {events : List MemEvent}
    {pairs : RaceMemEventsIdx} (hp : scanlineAlgorithm cfg checkType events = some pairs) :
    ∃ result, runAlgorithm cfg checkType events = some result ∧ Results events pairs result := by
  refine ⟨_, by rw [runAlgorithm, hp, Option.map_some], ?_⟩
  have hm := ClassMerge.merged_mergeAll classes_error
    ((idxPairs pairs).map fun p => fillRaceDispInfo false (eventAt events p.1) (eventAt events p.2))
  unfold ClassMerge.mergeAll at hm
  simp only [mergeInto_eq_addResult] at hm
  have hmap : (idxPairs pairs).map (fun p =>
      fillRaceDispInfo false (eventAt events p.1) (eventAt events p.2)) =
      pairs.map fun p => fillRaceDispInfo false (eventAt events p.1.eventIdx)
        (eventAt events p.2.eventIdx) := by
    rw [idxPairs, List.map_map]
    rfl
  rw [← hmap]
  refine ⟨fun r hr => ?_, fun c h hch => ?_, ?_⟩
  · obtain ⟨a, rest, hfilter, hfold⟩ := hm.entry r hr
    have hra : r = a := by
      rw [hfold]
      clear hfilter hfold
      induction rest with
      | nil => rfl
      | cons x rest ih => exact ih
    have hmem : a ∈ (a :: rest) := List.mem_cons_self
    rw [← hfilter, List.mem_filter, List.mem_map] at hmem
    obtain ⟨⟨⟨c, h⟩, hch, heq⟩, -⟩ := hmem
    exact ⟨c, h, hch, hra.trans heq.symm⟩
  · have hmem := (hm.mem (errorClass (fillRaceDispInfo false (eventAt events c)
      (eventAt events h)))).mpr (List.mem_map_of_mem (List.mem_map.mpr ⟨(c, h), hch, rfl⟩))
    obtain ⟨r, hr, hcls⟩ := List.mem_map.mp hmem
    exact ⟨r, hr, (errorEventEqual_iff _ _).mpr hcls⟩
  · refine (List.pairwise_map.mp hm.nodup).imp fun hne => ?_
    rw [← Bool.not_eq_true, errorEventEqual_iff]
    exact hne

end MsSanitizer.MemEventChecker
