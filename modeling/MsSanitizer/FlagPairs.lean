import MsSanitizer.CancelStacks
import MsSanitizer.EntryMap
import MsSanitizer.EventDef

/-!
# Sets and waits of flags that have no partner

The model of `DoMatchCheck` and `ReportUnpairedInfo` in `sync_sanitizer.cpp`. A set and a wait of
one flag cancel each other, in whatever order they come. What is left is kept under an id that the
core, the kind of its block, the two pipes and four bits of the event id are packed into, so two
event ids that agree in these bits share one place.
-/

namespace MsSanitizer

open RecordDefs EventDef SortedEntries CancelStacks

/-- `SyncDispInfo` of a match check, with the fields that tell flags apart. -/
structure SyncDispInfo where
  serialNo : ℕ := 0
  coreId : ℕ
  blockType : BlockType
  srcPipe : PipeType
  dstPipe : PipeType
  eventId : ℕ
  opType : SyncType
  deriving DecidableEq, Repr

/-- A flag between two pipes of a block. -/
@[ext]
structure FlagKey where
  coreId : ℕ
  blockType : BlockType
  srcPipe : PipeType
  dstPipe : PipeType
  eventId : ℕ
  deriving DecidableEq, Repr

def SyncDispInfo.key (x : SyncDispInfo) : FlagKey :=
  ⟨x.coreId, x.blockType, x.srcPipe, x.dstPipe, x.eventId⟩

/-- The value of a `BlockType`. -/
def RecordDefs.BlockType.code : BlockType → ℕ
  | .aivec => 0 | .aicube => 1 | .aicore => 2

namespace SyncSanitizer

def calcSetFlagSyncID (loc : LocInfo) (info : SyncOpInfo) : ℕ :=
  (loc.coreId &&& 0xFFFF) <<< 20 ||| (loc.blockType.code &&& 0xF) <<< 16 |||
    (info.srcPipe.idx &&& 0xF) <<< 12 ||| (info.dstPipe.idx &&& 0xF) <<< 8 |||
    (info.eventId &&& 0xF) <<< 4

def calcWaitFlagSyncID (loc : LocInfo) (info : SyncOpInfo) : ℕ := calcSetFlagSyncID loc info + 1

abbrev SyncEvents := List (ℕ × List SyncDispInfo)

def dispInfo (event : SanEvent) (info : SyncOpInfo) : SyncDispInfo where
  serialNo := event.serialNo
  coreId := event.loc.coreId
  blockType := event.loc.blockType
  srcPipe := info.srcPipe
  dstPipe := info.dstPipe
  eventId := info.eventId
  opType := info.opType

/-- The end of `DoMatchCheck`: a partner is removed, or the event is kept. -/
def matchOrKeep (m : SyncEvents) (selfSyncID peerSyncID : ℕ) (self : SyncDispInfo) : SyncEvents :=
  if m.any fun e => e.1 == peerSyncID then
    if 1 < (look [] m peerSyncID).length then put peerSyncID (look [] m peerSyncID).dropLast m
    else erase peerSyncID m
  else put selfSyncID (look [] m selfSyncID ++ [self]) m

def doMatchCheck (m : SyncEvents) (event : SanEvent) : SyncEvents :=
  match event.info with
  | .sync info =>
    if info.opType = .setFlag then
      matchOrKeep m (calcSetFlagSyncID event.loc info) (calcWaitFlagSyncID event.loc info)
        (dispInfo event info)
    else if info.opType = .waitFlag then
      matchOrKeep m (calcWaitFlagSyncID event.loc info) (calcSetFlagSyncID event.loc info)
        (dispInfo event info)
    else m
  | _ => m

/-- `DoMatchCheck` on event after event. -/
def matchAll (events : List SanEvent) : SyncEvents := events.foldl doMatchCheck []

def kept (m : SyncEvents) : List SyncDispInfo := m.flatMap fun e => e.2

/-- The events that `ReportUnpairedInfo` reports. -/
def reportUnpairedInfo (m : SyncEvents) : List SyncDispInfo :=
  m.flatMap fun e => if e.1 &&& 0xF = 0 then e.2 else []

/-- The flags that the parser can produce: native event ids, the one of generated flags, and those
that stand for `HSET_FLAG` and `HWAIT_FLAG`. -/
def IsEventId (eventId : ℕ) : Prop := eventId < 8 ∨ eventId = 11 ∨ 120 ≤ eventId ∧ eventId < 124

/-- A set or a wait of a flag, as the parser can produce it. -/
def IsFlagEvent (event : SanEvent) : Prop :=
  ∃ info, event.info = .sync info ∧ (info.opType = .setFlag ∨ info.opType = .waitFlag) ∧
    event.loc.coreId < 65536 ∧ IsEventId info.eventId

/-- The number of the sets or of the waits of a flag among some events. -/
def flagCount (key : FlagKey) (opType : SyncType) (events : List SanEvent) : ℕ :=
  events.countP fun event =>
    match event.info with
    | .sync info => (dispInfo event info).key == key && info.opType == opType
    | _ => false

/-- The check is right about some events: of every flag those sets and waits are kept that have no
partner, and the sets among them are reported. -/
def MatchedRight (events : List SanEvent) : Prop :=
  (∀ key, (kept (matchAll events)).countP (fun x => x.key == key && x.opType == .setFlag) =
      flagCount key .setFlag events - flagCount key .waitFlag events ∧
    (kept (matchAll events)).countP (fun x => x.key == key && x.opType == .waitFlag) =
      flagCount key .waitFlag events - flagCount key .setFlag events) ∧
  reportUnpairedInfo (matchAll events) =
    (kept (matchAll events)).filter fun x => x.opType == .setFlag

/-! ## Ids -/

def flagId (key : FlagKey) : ℕ :=
  key.coreId % 65536 * 2 ^ 20 + key.blockType.code * 2 ^ 16 + key.srcPipe.idx * 2 ^ 12 +
    key.dstPipe.idx * 2 ^ 8 + key.eventId % 16 * 2 ^ 4

lemma shiftLeft_or {a b n : ℕ} (hb : b < 2 ^ n) : a * 2 ^ n ||| b = a * 2 ^ n + b := by
  rw [← Nat.shiftLeft_eq, Nat.shiftLeft_add_eq_or_of_lt hb]

lemma nibbles_or {c b s d e : ℕ} (hb : b < 16) (hs : s < 16) (hd : d < 16) (he : e < 16) :
    c * 2 ^ 20 ||| b * 2 ^ 16 ||| s * 2 ^ 12 ||| d * 2 ^ 8 ||| e * 2 ^ 4 =
      c * 2 ^ 20 + b * 2 ^ 16 + s * 2 ^ 12 + d * 2 ^ 8 + e * 2 ^ 4 := by
  have h₁ : c * 2 ^ 20 ||| b * 2 ^ 16 = (c * 16 + b) * 2 ^ 16 := by
    rw [shiftLeft_or (by omega)]
    omega
  have h₂ : (c * 16 + b) * 2 ^ 16 ||| s * 2 ^ 12 = ((c * 16 + b) * 16 + s) * 2 ^ 12 := by
    rw [shiftLeft_or (by omega)]
    omega
  have h₃ : ((c * 16 + b) * 16 + s) * 2 ^ 12 ||| d * 2 ^ 8 =
      (((c * 16 + b) * 16 + s) * 16 + d) * 2 ^ 8 := by
    rw [shiftLeft_or (by omega)]
    omega
  rw [h₁, h₂, h₃, shiftLeft_or (by omega)]
  omega

lemma blockType_code_lt (b : BlockType) : b.code < 16 := by cases b <;> decide

lemma calcSetFlagSyncID_eq (event : SanEvent) (info : SyncOpInfo) :
    calcSetFlagSyncID event.loc info = flagId (dispInfo event info).key := by
  have hcore : event.loc.coreId &&& 0xFFFF = event.loc.coreId % 65536 :=
    Nat.and_two_pow_sub_one_eq_mod _ 16
  have hlow : ∀ n : ℕ, n &&& 0xF = n % 16 := fun n => Nat.and_two_pow_sub_one_eq_mod n 4
  have hblock := blockType_code_lt event.loc.blockType
  have hsrc : info.srcPipe.idx < 16 := info.srcPipe.idx_lt.trans (by decide)
  have hdst : info.dstPipe.idx < 16 := info.dstPipe.idx_lt.trans (by decide)
  have hid := Nat.mod_lt info.eventId (by decide : 0 < 16)
  simp only [calcSetFlagSyncID, flagId, SyncDispInfo.key, dispInfo, hcore, hlow,
    Nat.mod_eq_of_lt hblock, Nat.mod_eq_of_lt hsrc, Nat.mod_eq_of_lt hdst, Nat.shiftLeft_eq]
  exact nibbles_or hblock hsrc hdst hid

lemma flagId_inj {a b : FlagKey} (ha : a.coreId < 65536) (hb : b.coreId < 65536)
    (h : flagId a = flagId b) :
    a.coreId = b.coreId ∧ a.blockType = b.blockType ∧ a.srcPipe = b.srcPipe ∧
      a.dstPipe = b.dstPipe ∧ a.eventId % 16 = b.eventId % 16 := by
  have hba := blockType_code_lt a.blockType
  have hbb := blockType_code_lt b.blockType
  have hsa := a.srcPipe.idx_lt
  have hsb := b.srcPipe.idx_lt
  have hda := a.dstPipe.idx_lt
  have hdb := b.dstPipe.idx_lt
  have hsize : pipeSize = 12 := rfl
  unfold flagId at h
  have hblock : a.blockType.code = b.blockType.code := by omega
  have hsrc : a.srcPipe.idx = b.srcPipe.idx := by omega
  have hdst : a.dstPipe.idx = b.dstPipe.idx := by omega
  refine ⟨by omega, ?_, PipeType.idx_injective hsrc, PipeType.idx_injective hdst, by omega⟩
  revert hblock
  cases a.blockType <;> cases b.blockType <;> decide

/-! ## One place of the map -/

def flagInfo (event : SanEvent) : SyncOpInfo :=
  match event.info with
  | .sync info => info
  | _ => { opType := .setFlag, srcPipe := .s, dstPipe := .s }

def disp (event : SanEvent) : SyncDispInfo := dispInfo event (flagInfo event)

def eventKey (event : SanEvent) : FlagKey := (disp event).key

def isSet (event : SanEvent) : Bool := (flagInfo event).opType == .setFlag

/-- What an id of a set has more than that of a wait, negated. -/
def bit (p : Bool) : ℕ := if p then 0 else 1

lemma bit_true : bit true = 0 := rfl

lemma bit_false : bit false = 1 := rfl

def atId (q : ℕ) (events : List SanEvent) : List SanEvent :=
  events.filter fun event => flagId (eventKey event) == q

variable {m : SyncEvents} {events : List SanEvent} {event : SanEvent}

lemma IsFlagEvent.spec (h : IsFlagEvent event) :
    event.info = .sync (flagInfo event) ∧ (disp event).coreId < 65536 ∧
      IsEventId (disp event).eventId ∧
      (disp event).opType = (if isSet event then .setFlag else .waitFlag) := by
  obtain ⟨info, hinfo, hop, hcore, hid⟩ := h
  have hflag : flagInfo event = info := by rw [flagInfo, hinfo]
  rw [isSet, disp, hflag]
  refine ⟨hinfo, hcore, hid, ?_⟩
  rcases hop with hop | hop
  · rw [hop]
    exact hop
  · rw [hop]
    exact hop

/-- The map holds under each id what is not cancelled there. -/
structure Tracks (m : SyncEvents) (events : List SanEvent) : Prop where
  sorted : Sorted m
  ne : ∀ e ∈ m, e.2 ≠ []
  ids : ∀ e ∈ m, ∃ q p, 16 ∣ q ∧ e.1 = q + bit p
  look_eq : ∀ q p, 16 ∣ q → look [] m (q + bit p) = (cancel isSet (atId q events) p).map disp

lemma dvd_flagId (key : FlagKey) : 16 ∣ flagId key := by
  unfold flagId
  omega

lemma any_iff_look (hs : Sorted m) (hne : ∀ e ∈ m, e.2 ≠ []) (i : ℕ) :
    (m.any fun e => e.1 == i) = true ↔ look [] m i ≠ [] := by
  rw [List.any_eq_true]
  constructor
  · rintro ⟨e, he, hi⟩
    rw [beq_iff_eq] at hi
    rw [← hi, look_of_mem hs he]
    exact hne e he
  · intro h
    by_contra hc
    push Not at hc
    refine h (look_of_ne fun e he hi => hc e he ?_)
    rw [beq_iff_eq]
    exact hi

lemma matchOrKeep_spec (hs : Sorted m) (hne : ∀ e ∈ m, e.2 ≠ []) (a b : ℕ) (x : SyncDispInfo) :
    Sorted (matchOrKeep m a b x) ∧ (∀ e ∈ matchOrKeep m a b x, e.2 ≠ []) ∧
      (∀ e ∈ matchOrKeep m a b x, e.1 = a ∨ e.1 = b ∨ ∃ e' ∈ m, e.1 = e'.1) ∧
      ∀ i, look [] (matchOrKeep m a b x) i =
        if look [] m b = [] then
          if i = a then look [] m a ++ [x] else look [] m i
        else if i = b then (look [] m b).dropLast
        else look [] m i := by
  unfold matchOrKeep
  by_cases hb : look [] m b = []
  · have hany : ¬ (m.any fun e => e.1 == b) = true := fun hc =>
      (any_iff_look hs hne b).mp hc hb
    rw [if_neg hany]
    refine ⟨sorted_put hs, fun e he => ?_, fun e he => ?_, fun i => ?_⟩
    · rcases (mem_put hs).mp he with rfl | ⟨he, -⟩
      · simp
      · exact hne e he
    · rcases (mem_put hs).mp he with rfl | ⟨he, -⟩
      · exact .inl rfl
      · exact .inr (.inr ⟨e, he, rfl⟩)
    · rw [look_put, if_pos hb]
  · rw [if_pos ((any_iff_look hs hne b).mpr hb)]
    simp only [if_neg hb]
    split_ifs with hlength
    · refine ⟨sorted_put hs, fun e he => ?_, fun e he => ?_, fun i => ?_⟩
      · rcases (mem_put hs).mp he with rfl | ⟨he, -⟩
        · intro hnil
          have := congrArg List.length hnil
          rw [List.length_dropLast, List.length_nil] at this
          omega
        · exact hne e he
      · rcases (mem_put hs).mp he with rfl | ⟨he, -⟩
        · exact .inr (.inl rfl)
        · exact .inr (.inr ⟨e, he, rfl⟩)
      · rw [look_put]
    · refine ⟨sorted_erase hs, fun e he => hne e (mem_erase.mp he).1,
        fun e he => .inr (.inr ⟨e, (mem_erase.mp he).1, rfl⟩), fun i => ?_⟩
      have hpos := List.length_pos_iff.mpr hb
      have hdrop : (look [] m b).dropLast = [] := by
        rw [← List.length_eq_zero_iff, List.length_dropLast]
        omega
      rw [look_erase, hdrop]

lemma doMatchCheck_eq (h : IsFlagEvent event) (m : SyncEvents) :
    doMatchCheck m event = matchOrKeep m (flagId (eventKey event) + bit (isSet event))
      (flagId (eventKey event) + bit (!isSet event)) (disp event) := by
  obtain ⟨hinfo, -, -, hop⟩ := h.spec
  have hid := calcSetFlagSyncID_eq event (flagInfo event)
  change _ = flagId (eventKey event) at hid
  change (flagInfo event).opType = _ at hop
  unfold doMatchCheck
  rw [hinfo]
  dsimp only
  cases hset : isSet event with
  | true =>
    rw [hset, if_pos rfl] at hop
    rw [if_pos hop, calcWaitFlagSyncID, hid, Bool.not_true, bit_true, bit_false, disp,
      Nat.add_zero (flagId (eventKey event))]
  | false =>
    rw [hset, if_neg (by simp)] at hop
    have hne : (flagInfo event).opType ≠ .setFlag := by
      rw [hop]
      decide
    rw [if_neg hne, if_pos hop, calcWaitFlagSyncID, hid, Bool.not_false, bit_true, bit_false, disp,
      Nat.add_zero (flagId (eventKey event))]

lemma bit_inj {q q' : ℕ} {p p' : Bool} (hq : 16 ∣ q) (hq' : 16 ∣ q')
    (h : q + bit p = q' + bit p') : q = q' ∧ p = p' := by
  cases p <;> cases p' <;> simp only [bit_true, bit_false] at h ⊢
  · exact ⟨by omega, trivial⟩
  · omega
  · omega
  · exact ⟨by omega, trivial⟩

lemma Tracks.step (h : Tracks m events) (he : IsFlagEvent event) :
    Tracks (doMatchCheck m event) (events ++ [event]) := by
  have hdvd := dvd_flagId (eventKey event)
  rw [doMatchCheck_eq he]
  obtain ⟨hsorted, hne, hids, hlook⟩ := matchOrKeep_spec h.sorted h.ne
    (flagId (eventKey event) + bit (isSet event)) (flagId (eventKey event) + bit (!isSet event))
    (disp event)
  refine ⟨hsorted, hne, fun e hmem => ?_, fun q p hq => ?_⟩
  · rcases hids e hmem with hi | hi | ⟨e', he', hi⟩
    · exact ⟨_, _, hdvd, hi⟩
    · exact ⟨_, _, hdvd, hi⟩
    · rw [hi]
      exact h.ids e' he'
  · rw [hlook, h.look_eq _ _ hdvd, h.look_eq _ _ hdvd, h.look_eq q p hq]
    simp only [List.map_eq_nil_iff]
    have hat : atId q (events ++ [event]) =
        atId q events ++ if flagId (eventKey event) = q then [event] else [] := by
      rw [atId, List.filter_append, List.filter_singleton, ← atId]
      simp only [beq_iff_eq, Bool.cond_eq_ite]
    rw [hat]
    by_cases hqe : flagId (eventKey event) = q
    · subst hqe
      rw [if_pos rfl, cancel_concat]
      by_cases hempty : cancel isSet (atId (flagId (eventKey event)) events) (!isSet event) = []
      · rw [if_pos hempty, step_of_isEmpty hempty]
        by_cases hp : p = isSet event
        · rw [hp, if_pos rfl, Function.update_self, List.map_append, List.map_singleton]
        · rw [if_neg fun hc => hp (bit_inj hdvd hdvd hc).2, Function.update_of_ne hp]
      · rw [if_neg hempty, step_of_ne hempty]
        by_cases hp : p = !isSet event
        · rw [hp, if_pos rfl, Function.update_self, List.map_dropLast]
        · rw [if_neg fun hc => hp (bit_inj hdvd hdvd hc).2, Function.update_of_ne hp]
    · have hself : ∀ p', q + bit p ≠ flagId (eventKey event) + bit p' := fun p' hc =>
        hqe (bit_inj hq hdvd hc).1.symm
      rw [if_neg hqe, List.append_nil, if_neg (hself _), if_neg (hself _), ite_self]

/-- **The map after all events.** -/
lemma tracks_matchAll (h : ∀ event ∈ events, IsFlagEvent event) :
    Tracks (matchAll events) events := by
  induction events using List.reverseRecOn with
  | nil =>
    exact ⟨sorted_nil, fun _ h => (by cases h), fun _ h => (by cases h), fun _ _ _ => rfl⟩
  | append_singleton events event ih =>
    have hstep := (ih fun e he => h e (List.mem_append_left _ he)).step
      (h event (List.mem_append_right _ List.mem_cons_self))
    rw [matchAll, List.foldl_append]
    exact hstep

/-! ## What is kept and reported -/

lemma Tracks.of_mem (h : Tracks m events) (hall : ∀ event ∈ events, IsFlagEvent event)
    {e : ℕ × List SyncDispInfo} (he : e ∈ m) {x : SyncDispInfo} (hx : x ∈ e.2) :
    ∃ p, e.1 = flagId x.key + bit p ∧ x.opType = (if p then .setFlag else .waitFlag) := by
  obtain ⟨q, p, hq, hi⟩ := h.ids e he
  have hlook := look_of_mem (d := []) h.sorted he
  rw [hi, h.look_eq q p hq] at hlook
  rw [← hlook] at hx
  obtain ⟨event, hevent, rfl⟩ := List.mem_map.mp hx
  obtain ⟨hmem, hsign⟩ := sign_of_mem_cancel hevent
  obtain ⟨hmem, hid⟩ := List.mem_filter.mp hmem
  rw [beq_iff_eq] at hid
  refine ⟨p, by rw [hi, ← hid]; rfl, ?_⟩
  rw [(hall event hmem).spec.2.2.2, hsign]

lemma countP_kept (hs : Sorted m) (P : SyncDispInfo → Bool) (i : ℕ)
    (h : ∀ e ∈ m, ∀ x ∈ e.2, P x = true → e.1 = i) :
    (kept m).countP P = (look [] m i).countP P := by
  induction m with
  | nil => rfl
  | cons e m ih =>
    obtain ⟨he, hs⟩ := sorted_cons.mp hs
    have hrest := ih hs fun e' he' => h e' (List.mem_cons_of_mem _ he')
    rw [kept, List.flatMap_cons, List.countP_append, ← kept, hrest, look_cons]
    by_cases hi : e.1 = i
    · rw [if_pos hi, look_of_ne fun e' he' hc => (he e' he').ne (hi.trans hc.symm)]
      rfl
    · rw [if_neg hi, List.countP_eq_zero.mpr, Nat.zero_add]
      intro x hx hp
      exact hi (h e List.mem_cons_self x hx hp)

/-- `SET_FLAG` or `WAIT_FLAG`. -/
def opOf (p : Bool) : SyncType := if p then .setFlag else .waitFlag

lemma opOf_inj {p p' : Bool} (h : opOf p = opOf p') : p = p' := by
  cases p <;> cases p' <;> first | rfl | cases h

lemma opType_disp (he : IsFlagEvent event) : (disp event).opType = opOf (isSet event) :=
  he.spec.2.2.2

/-- What is kept of a flag is what is not cancelled under its id. -/
lemma countP_kept_matchAll (h : ∀ event ∈ events, IsFlagEvent event) (key : FlagKey) (p : Bool) :
    (kept (matchAll events)).countP (fun x => x.key == key && x.opType == opOf p) =
      (cancel isSet (atId (flagId key) events) p).countP fun event => eventKey event == key := by
  have htracks := tracks_matchAll h
  rw [countP_kept htracks.sorted _ (flagId key + bit p) fun e he x hx hP => ?_,
    htracks.look_eq _ _ (dvd_flagId key), List.countP_map]
  · refine List.countP_congr fun event hevent => ?_
    obtain ⟨hmem, hsign⟩ := sign_of_mem_cancel hevent
    have hop := opType_disp (h event (List.mem_filter.mp hmem).1)
    rw [hsign] at hop
    simp [hop, eventKey]
  · obtain ⟨p', hid, hop⟩ := htracks.of_mem h he hx
    rw [Bool.and_eq_true, beq_iff_eq, beq_iff_eq] at hP
    have hp : p' = p := opOf_inj (hop.symm.trans hP.2)
    rw [hid, hP.1, hp]

lemma flagCount_eq (h : ∀ event ∈ events, IsFlagEvent event) (key : FlagKey) (p : Bool) :
    flagCount key (opOf p) events = amount isSet eventKey key p (atId (flagId key) events) := by
  unfold flagCount amount atId
  rw [List.countP_filter]
  refine List.countP_congr fun event hevent => ?_
  have he := h event hevent
  have hop := opType_disp he
  rw [he.spec.1]
  change ((eventKey event == key && (disp event).opType == opOf p) = true) ↔ _
  rw [hop]
  simp only [Bool.and_eq_true, beq_iff_eq]
  constructor
  · rintro ⟨hkey, hp⟩
    exact ⟨⟨hkey, opOf_inj hp⟩, by rw [hkey]⟩
  · rintro ⟨⟨hkey, hp⟩, -⟩
    exact ⟨hkey, by rw [hp]⟩

lemma flagCount_eq_zero (h : ∀ event ∈ events, IsFlagEvent event) {key : FlagKey}
    (hcore : ¬ key.coreId < 65536) {opType : SyncType} : flagCount key opType events = 0 := by
  refine List.countP_eq_zero.mpr fun event hevent => ?_
  obtain ⟨hinfo, hlt, -, -⟩ := (h event hevent).spec
  rw [hinfo]
  intro hkey
  rw [Bool.and_eq_true, beq_iff_eq] at hkey
  rw [← hkey.1] at hcore
  exact hcore hlt

lemma reportUnpairedInfo_eq (h : ∀ event ∈ events, IsFlagEvent event) :
    reportUnpairedInfo (matchAll events) =
      (kept (matchAll events)).filter fun x => x.opType == .setFlag := by
  have htracks := tracks_matchAll h
  unfold reportUnpairedInfo kept
  rw [List.filter_flatMap]
  refine List.flatMap_congr fun e he => ?_
  have hlow : e.1 &&& 0xF = e.1 % 16 := Nat.and_two_pow_sub_one_eq_mod _ 4
  obtain ⟨q, p, hq, hi⟩ := htracks.ids e he
  rw [hlow, hi]
  have hop : ∀ x ∈ e.2, x.opType = opOf p := by
    intro x hx
    obtain ⟨p', hid, hop⟩ := htracks.of_mem h he hx
    rw [hop, (bit_inj hq (dvd_flagId _) (hi.symm.trans hid)).2]
    rfl
  cases p with
  | true =>
    rw [if_pos (by rw [bit_true]; omega), List.filter_eq_self.mpr]
    intro x hx
    rw [hop x hx]
    rfl
  | false =>
    rw [if_neg (by rw [bit_false]; omega), List.filter_eq_nil_iff.mpr]
    intro x hx
    rw [hop x hx]
    decide

/-- The check is right when under each id the keys are left with their own differences. -/
lemma matchedRight_iff (h : ∀ event ∈ events, IsFlagEvent event) :
    MatchedRight events ↔ ∀ q, Exact isSet eventKey (atId q events) := by
  have hflags : ∀ key p, flagCount key (opOf p) events - flagCount key (opOf !p) events =
      amount isSet eventKey key p (atId (flagId key) events) -
        amount isSet eventKey key (!p) (atId (flagId key) events) := fun key p => by
    rw [flagCount_eq h, flagCount_eq h]
  constructor
  · rintro ⟨hkept, -⟩ q key p
    by_cases hq : flagId key = q
    · subst hq
      rw [← countP_kept_matchAll h, ← hflags]
      cases p with
      | true => exact (hkept key).1
      | false => exact (hkept key).2
    · have hnone : ∀ event ∈ atId q events, eventKey event ≠ key := by
        intro event hevent hkey
        have hid := (List.mem_filter.mp hevent).2
        rw [beq_iff_eq, hkey] at hid
        exact hq hid
      have hzero : ∀ p, amount isSet eventKey key p (atId q events) = 0 := fun p =>
        List.countP_eq_zero.mpr fun event hevent => by simp [hnone event hevent]
      rw [hzero, hzero, List.countP_eq_zero.mpr]
      intro event hevent
      simp [hnone event (sign_of_mem_cancel hevent).1]
  · intro hexact
    refine ⟨fun key => ⟨?_, ?_⟩, reportUnpairedInfo_eq h⟩
    · exact (countP_kept_matchAll h key true).trans
        ((hexact _ key true).trans (hflags key true).symm)
    · exact (countP_kept_matchAll h key false).trans
        ((hexact _ key false).trans (hflags key false).symm)

/-- The flags `11` and `123` between two pipes of a block do not disturb each other: one of them
does not occur, or only sets of them do, or only waits, or each has as many sets as waits. -/
def SharedApart (events : List SanEvent) (coreId : ℕ) (blockType : BlockType)
    (srcPipe dstPipe : PipeType) : Prop :=
  let count := fun opType eventId =>
    flagCount ⟨coreId, blockType, srcPipe, dstPipe, eventId⟩ opType events
  let sets := count .setFlag
  let waits := count .waitFlag
  (sets 11 = 0 ∧ waits 11 = 0) ∨ (sets 123 = 0 ∧ waits 123 = 0) ∨
    (waits 11 = 0 ∧ waits 123 = 0) ∨ (sets 11 = 0 ∧ sets 123 = 0) ∨
    (sets 11 = waits 11 ∧ sets 123 = waits 123)

lemma flagId_shared (coreId : ℕ) (blockType : BlockType) (srcPipe dstPipe : PipeType) :
    flagId ⟨coreId, blockType, srcPipe, dstPipe, 123⟩ =
      flagId ⟨coreId, blockType, srcPipe, dstPipe, 11⟩ := by
  simp only [flagId, Nat.reduceMod]

lemma sharedApart_iff (h : ∀ event ∈ events, IsFlagEvent event) (coreId : ℕ)
    (blockType : BlockType) (srcPipe dstPipe : PipeType) :
    SharedApart events coreId blockType srcPipe dstPipe ↔
      Apart isSet eventKey ⟨coreId, blockType, srcPipe, dstPipe, 11⟩
        ⟨coreId, blockType, srcPipe, dstPipe, 123⟩
        (atId (flagId ⟨coreId, blockType, srcPipe, dstPipe, 11⟩) events) := by
  have hset := fun key => flagCount_eq h key true
  have hwait := fun key => flagCount_eq h key false
  simp only [opOf, if_true, Bool.false_eq_true, if_false] at hset hwait
  simp only [SharedApart, Apart, hset, hwait, flagId_shared, Bool.forall_bool, Bool.exists_bool,
    Bool.not_true, Bool.not_false]
  constructor <;> intro hcases <;> omega

/-- Only the event ids `11` and `123` share their low bits. -/
lemma eventId_of_mod {i j : ℕ} (hi : IsEventId i) (hj : IsEventId j) (h : i % 16 = j % 16) :
    i = j ∨ (i = 11 ∨ i = 123) ∧ (j = 11 ∨ j = 123) := by
  unfold IsEventId at hi hj
  omega

/-- Two flags that share an id are the same, unless they are the flags `11` and `123`. -/
lemma eventKey_of_flagId {e e' : SanEvent} (he : IsFlagEvent e) (he' : IsFlagEvent e')
    (h : flagId (eventKey e') = flagId (eventKey e))
    (hne : ¬ ((eventKey e).eventId = 11 ∨ (eventKey e).eventId = 123)) :
    eventKey e' = eventKey e := by
  have hid : IsEventId (eventKey e).eventId := he.spec.2.2.1
  have hid' : IsEventId (eventKey e').eventId := he'.spec.2.2.1
  obtain ⟨hcore, hblock, hsrc, hdst, hmod⟩ := flagId_inj he'.spec.2.1 he.spec.2.1 h
  have heq := (eventId_of_mod hid' hid hmod).resolve_right fun hc => hne hc.2
  exact FlagKey.ext hcore hblock hsrc hdst heq

lemma eventKey_of_mem_atId (h : ∀ event ∈ events, IsFlagEvent event) {coreId : ℕ}
    (hcore : coreId < 65536) {blockType : BlockType} {srcPipe dstPipe : PipeType} :
    ∀ e ∈ atId (flagId ⟨coreId, blockType, srcPipe, dstPipe, 11⟩) events,
      eventKey e = ⟨coreId, blockType, srcPipe, dstPipe, 11⟩ ∨
        eventKey e = ⟨coreId, blockType, srcPipe, dstPipe, 123⟩ := by
  intro e he
  obtain ⟨hmem, hid⟩ := List.mem_filter.mp he
  rw [beq_iff_eq] at hid
  have hflag : IsEventId (eventKey e).eventId := (h e hmem).spec.2.2.1
  obtain ⟨hc, hb, hs, hd, hmod⟩ := flagId_inj (h e hmem).spec.2.1 hcore hid
  dsimp only at hc hb hs hd hmod
  have hcases : (eventKey e).eventId = 11 ∨ (eventKey e).eventId = 123 := by
    unfold IsEventId at hflag
    omega
  rcases hcases with hi | hi
  · exact .inl (FlagKey.ext hc hb hs hd hi)
  · exact .inr (FlagKey.ext hc hb hs hd hi)

/-- An order of the events in which those of an id have a given order. -/
lemma exists_perm_atId {q : ℕ} {l : List SanEvent} (h : l.Perm (atId q events)) :
    ∃ events', events'.Perm events ∧ atId q events' = l := by
  have hl : ∀ e ∈ l, flagId (eventKey e) = q := fun e he => by
    have := (List.mem_filter.mp (h.mem_iff.mp he)).2
    rwa [beq_iff_eq] at this
  refine ⟨l ++ events.filter fun e => !(flagId (eventKey e) == q), ?_, ?_⟩
  · exact (h.append_right _).trans (List.filter_append_perm _ _)
  · have hfirst : l.filter (fun e => flagId (eventKey e) == q) = l :=
      List.filter_eq_self.mpr fun e he => by rw [hl e he, beq_self_eq_true]
    have hrest : (events.filter fun e => !(flagId (eventKey e) == q)).filter
        (fun e => flagId (eventKey e) == q) = [] :=
      List.filter_eq_nil_iff.mpr fun e he => by
        have := (List.mem_filter.mp he).2
        simpa using this
    rw [atId, List.filter_append, hfirst, hrest, List.append_nil]

end SyncSanitizer

open SyncSanitizer in
/-- **The pairing check is right in every order exactly when no flags disturb each other.** After
the sets and the waits of flags have come, of each flag those are kept that have no partner, and
the sets among them are reported, in whatever order they have come, if and only if for no two pipes
of a block the flags `11` and `123` cancel each other. -/
theorem matchedRight_iff_sharedApart (events : List SanEvent)
    (h : ∀ event ∈ events, IsFlagEvent event) :
    (∀ events', events'.Perm events → MatchedRight events') ↔
      ∀ coreId blockType srcPipe dstPipe, SharedApart events coreId blockType srcPipe dstPipe := by
  have hne : ∀ coreId blockType srcPipe dstPipe,
      (⟨coreId, blockType, srcPipe, dstPipe, 11⟩ : FlagKey) ≠
        ⟨coreId, blockType, srcPipe, dstPipe, 123⟩ := fun _ _ _ _ hc => by
    cases hc
  constructor
  · intro hright coreId blockType srcPipe dstPipe
    by_cases hcore : coreId < 65536
    · rw [sharedApart_iff h, ← exact_iff_apart (hne _ _ _ _) (eventKey_of_mem_atId h hcore)]
      intro l hl
      obtain ⟨events', hperm, rfl⟩ := exists_perm_atId hl
      have hflags : ∀ event ∈ events', IsFlagEvent event := fun event he =>
        h event (hperm.mem_iff.mp he)
      exact (matchedRight_iff hflags).mp (hright events' hperm) _
    · have hzero : ∀ eventId opType,
          flagCount ⟨coreId, blockType, srcPipe, dstPipe, eventId⟩ opType events = 0 :=
        fun _ _ => flagCount_eq_zero h hcore
      exact .inl ⟨hzero _ _, hzero _ _⟩
  · intro hapart events' hperm
    have hflags : ∀ event ∈ events', IsFlagEvent event := fun event he =>
      h event (hperm.mem_iff.mp he)
    rw [matchedRight_iff hflags]
    intro q
    rcases (atId q events').eq_nil_or_concat' with hnil | ⟨l, e, hl⟩
    · rw [hnil]
      exact exact_of_sign (p := true) fun _ hx => by cases hx
    have hat : ∀ {e}, e ∈ atId q events' → IsFlagEvent e ∧ flagId (eventKey e) = q := by
      intro e he
      obtain ⟨hmem, hid⟩ := List.mem_filter.mp he
      rw [beq_iff_eq] at hid
      exact ⟨hflags e hmem, hid⟩
    obtain ⟨he, hid⟩ := hat (hl ▸ List.mem_append_right l List.mem_cons_self)
    by_cases hshared : (eventKey e).eventId = 11 ∨ (eventKey e).eventId = 123
    · have hq : q = flagId ⟨(eventKey e).coreId, (eventKey e).blockType, (eventKey e).srcPipe,
          (eventKey e).dstPipe, 11⟩ := by
        rw [← hid]
        rcases hshared with hi | hi
        · exact congrArg flagId (FlagKey.ext rfl rfl rfl rfl hi)
        · rw [← flagId_shared]
          exact congrArg flagId (FlagKey.ext rfl rfl rfl rfl hi)
      rw [hq]
      exact (exact_iff_apart (hne _ _ _ _) (eventKey_of_mem_atId h he.spec.2.1)).mpr
        ((sharedApart_iff h _ _ _ _).mp (hapart _ _ _ _)) _ (hperm.filter _)
    · refine exact_of_key (a := eventKey e) fun e' he' => ?_
      obtain ⟨hflag, hid'⟩ := hat he'
      exact eventKey_of_flagId he hflag (hid'.trans hid.symm) hshared

namespace SyncSanitizer

/-- A set or a wait of a flag from the cube to the fix pipe. -/
def cubeFlag (opType : SyncType) (eventId : ℕ) : SanEvent :=
  { pipe := .m, info := .sync { opType, srcPipe := .m, dstPipe := .fix, eventId } }

lemma isFlagEvent_cubeFlag {opType : SyncType} {eventId : ℕ}
    (hop : opType = .setFlag ∨ opType = .waitFlag) (hid : IsEventId eventId) :
    IsFlagEvent (cubeFlag opType eventId) := ⟨_, rfl, hop, Nat.zero_lt_succ _, hid⟩

lemma isEventId_shared : IsEventId 11 ∧ IsEventId 123 := by
  unfold IsEventId
  omega

end SyncSanitizer

open SyncSanitizer in
/-- Two sets of the flag `123` and a wait of it do not disturb another, also if the wait has come
first. -/
theorem matchedRight_iff_sharedApart_cube :
    MatchedRight [cubeFlag .waitFlag 123, cubeFlag .setFlag 123, cubeFlag .setFlag 123] := by
  have hflags : ∀ event ∈ [cubeFlag .setFlag 123, cubeFlag .waitFlag 123, cubeFlag .setFlag 123],
      IsFlagEvent event := by
    simp only [List.forall_mem_cons]
    exact ⟨isFlagEvent_cubeFlag (.inl rfl) isEventId_shared.2,
      isFlagEvent_cubeFlag (.inr rfl) isEventId_shared.2,
      isFlagEvent_cubeFlag (.inl rfl) isEventId_shared.2, fun _ h => by cases h⟩
  refine (matchedRight_iff_sharedApart _ hflags).mpr ?_ _ (List.Perm.swap _ _ _)
  refine fun coreId blockType srcPipe dstPipe => .inl ?_
  constructor <;> simp [flagCount, cubeFlag, dispInfo, SyncDispInfo.key]

open SyncSanitizer in
/-- A set of the flag `11` and a wait of the flag `123` leave nothing. -/
theorem matchedRight_sharedIds :
    ¬ ∀ events, (∀ event ∈ events, IsFlagEvent event) → MatchedRight events := by
  intro hall
  have hflags : ∀ event ∈ [cubeFlag .setFlag 11, cubeFlag .waitFlag 123], IsFlagEvent event := by
    simp only [List.forall_mem_cons]
    exact ⟨isFlagEvent_cubeFlag (.inl rfl) isEventId_shared.1,
      isFlagEvent_cubeFlag (.inr rfl) isEventId_shared.2, fun _ h => by cases h⟩
  have hset := ((hall _ hflags).1 ⟨0, .aivec, .m, .fix, 11⟩).1
  revert hset
  decide

end MsSanitizer
