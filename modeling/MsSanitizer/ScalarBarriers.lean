import MsSanitizer.RingSound
import MsSanitizer.WaitGraph

/-!
# Barriers that are inferred at scalar waits

When the scalar pipe waits for a pipe, the parser inserts a barrier on every pipe that this one
has waited for, directly or not. The barrier is right when all accesses on its pipe happen
before the wait. The graph it reads forgets which set a wait was matched with and when; it is
right as long as every wait that the search follows is fresh.
-/

namespace MsSanitizer.RecordParse

open RecordDefs EventDef FifoTrace WaitGraph Relation

/-- The events as operations at pipes, issued by the scalar pipe. -/
def eventOps : Ops SanEvent FlagKey PipeType where
  place := SanEvent.pipe
  isAccess e := EventInfo.isMem e.info
  setOf := setOf
  waitOf := waitOf
  src := FlagKey.srcPipe
  dst := FlagKey.dstPipe
  root := .s

/-! ## The search -/

lemma mem_dfsSrcGraph {graph : PipeType → List PipeType} {q : PipeType} :
    ∀ (fuel : ℕ) (p : PipeType) (visited : List PipeType),
      q ∈ dfsSrcGraph graph fuel p visited →
        q ∈ visited ∨ ReflTransGen (fun a b => b ∈ graph a) p q := by
  intro fuel
  induction fuel with
  | zero =>
    intro p visited h
    exact Or.inl h
  | succ fuel ih =>
    intro p visited h
    -- the loop over the neighbours: what is visited so far was there or is reachable
    have hloop : ∀ (l : List PipeType), (∀ b ∈ l, b ∈ graph p) → ∀ vis,
        q ∈ l.foldl (fun visited neighbor =>
          if neighbor ∈ visited then visited else dfsSrcGraph graph fuel neighbor visited) vis →
        q ∈ vis ∨ ReflTransGen (fun a b => b ∈ graph a) p q := by
      intro l
      induction l with
      | nil =>
        intro _ vis h
        exact Or.inl h
      | cons b l ihl =>
        intro hl vis h
        rw [List.foldl_cons] at h
        rcases ihl (fun x hx => hl x (List.mem_cons_of_mem _ hx)) _ h with h | h
        · split_ifs at h
          · exact Or.inl h
          · rcases ih b vis h with h | h
            · exact Or.inl h
            · exact Or.inr (ReflTransGen.head (hl b List.mem_cons_self) h)
        · exact Or.inr h
    rw [dfsSrcGraph] at h
    rcases hloop _ (fun _ h => h) _ h with h | h
    · rcases List.mem_append.1 h with h | h
      · exact Or.inl h
      · rw [List.mem_singleton.1 h]
        exact Or.inr .refl
    · exact Or.inr h

def unvisited (visited : List PipeType) : Finset PipeType :=
  MemEventChecker.allPipes.toFinset \ visited.toFinset

lemma mem_unvisited {visited : List PipeType} {p : PipeType} :
    p ∈ unvisited visited ↔ p ∉ visited := by
  have hall : p ∈ MemEventChecker.allPipes := by cases p <;> decide
  simp [unvisited, hall]

lemma unvisited_card_lt {visited vis : List PipeType} {p : PipeType} (hp : p ∉ visited)
    (hpv : p ∈ vis) (hsub : visited ⊆ vis) : (unvisited vis).card < (unvisited visited).card := by
  refine Finset.card_lt_card ⟨?_, ?_⟩
  · intro q hq
    exact mem_unvisited.2 fun h => mem_unvisited.1 hq (hsub h)
  · intro h
    exact mem_unvisited.1 (h (mem_unvisited.2 hp)) hpv

/-- With a depth of one for each pipe that is left, the search visits its start, keeps what was
visited, and follows every edge of what it visits. -/
lemma dfsSrcGraph_closed {graph : PipeType → List PipeType} :
    ∀ (fuel : ℕ) (p : PipeType) (visited : List PipeType), p ∉ visited →
      (unvisited visited).card ≤ fuel →
        p ∈ dfsSrcGraph graph fuel p visited ∧ visited ⊆ dfsSrcGraph graph fuel p visited ∧
          ∀ x ∈ dfsSrcGraph graph fuel p visited, x ∉ visited →
            ∀ y ∈ graph x, y ∈ dfsSrcGraph graph fuel p visited := by
  intro fuel
  induction fuel with
  | zero =>
    intro p visited hp hcard
    have := Finset.card_pos.2 ⟨p, mem_unvisited.2 hp⟩
    omega
  | succ fuel ih =>
    intro p visited hp hcard
    -- the loop keeps: new pipes other than the start have all their neighbours
    have hloop : ∀ (l vis : List PipeType), visited ⊆ vis → p ∈ vis →
        (∀ x ∈ vis, x ∉ visited → x ≠ p → ∀ y ∈ graph x, y ∈ vis) →
        ∀ vis', vis' = l.foldl (fun visited neighbor =>
          if neighbor ∈ visited then visited else dfsSrcGraph graph fuel neighbor visited) vis →
        vis ⊆ vis' ∧ (∀ b ∈ l, b ∈ vis') ∧
          ∀ x ∈ vis', x ∉ visited → x ≠ p → ∀ y ∈ graph x, y ∈ vis' := by
      intro l
      induction l with
      | nil =>
        rintro vis _ _ hclosed _ rfl
        exact ⟨fun _ h => h, by simp, hclosed⟩
      | cons b l ihl =>
        rintro vis hsub hpv hclosed _ rfl
        rw [List.foldl_cons]
        by_cases hb : b ∈ vis
        · rw [if_pos hb]
          obtain ⟨h1, h2, h3⟩ := ihl vis hsub hpv hclosed _ rfl
          refine ⟨h1, ?_, h3⟩
          intro x hx
          rcases List.mem_cons.1 hx with rfl | hx
          · exact h1 hb
          · exact h2 x hx
        · rw [if_neg hb]
          have hlt := unvisited_card_lt hp hpv hsub
          obtain ⟨hbin, hkeep, hnew⟩ := ih b vis hb (by omega)
          obtain ⟨h1, h2, h3⟩ := ihl (dfsSrcGraph graph fuel b vis) (fun _ h => hkeep (hsub h))
            (hkeep hpv) (by
              intro x hx hxv hxp y hy
              by_cases hxvis : x ∈ vis
              · exact hkeep (hclosed x hxvis hxv hxp y hy)
              · exact hnew x hx hxvis y hy) _ rfl
          refine ⟨fun _ h => h1 (hkeep h), ?_, h3⟩
          intro x hx
          rcases List.mem_cons.1 hx with rfl | hx
          · exact h1 hbin
          · exact h2 x hx
    obtain ⟨h1, h2, h3⟩ := hloop (graph p) (visited ++ [p]) (fun _ h => List.mem_append_left _ h)
      (by simp) (by
        intro x hx hxv hxp
        rcases List.mem_append.1 hx with hx | hx
        · exact absurd hx hxv
        · exact absurd (List.mem_singleton.1 hx) hxp) _ rfl
    refine ⟨h1 (by simp), fun _ h => h1 (List.mem_append_left _ h), ?_⟩
    intro x hx hxv y hy
    by_cases hxp : x = p
    · subst hxp
      exact h2 y hy
    · exact h3 x hx hxv hxp y hy

lemma mem_reachable_iff {graph : PipeType → List PipeType} {p q : PipeType} :
    q ∈ reachable graph p ↔ ReflTransGen (fun a b => b ∈ graph a) p q := by
  obtain ⟨hp, -, hclosed⟩ := @dfsSrcGraph_closed graph pipeSize p [] (by simp) (by decide)
  constructor
  · intro h
    exact (mem_dfsSrcGraph pipeSize p [] h).resolve_left (by simp)
  · intro h
    induction h with
    | refl => exact hp
    | tail _ hedge ih => exact hclosed _ ih (by simp) _ hedge

/-! ## Memory and flag records -/

/-- Memory instructions, whose accesses are on one pipe, and flags. -/
def KernelRecord.isMemOrFlag (r : KernelRecord) : Prop :=
  match r.payload with
  | .instr _ bodies => ∃ p, ∀ b ∈ bodies, b.1 = p ∧ EventInfo.isMem b.2 = true
  | .matmul .. | .movFp .. | .setFlag .. | .waitFlag .. => True
  | _ => False

lemma KernelRecord.isMemOrFlag.isRingRecord {r : KernelRecord} (hr : r.isMemOrFlag) :
    r.isRingRecord := by
  rw [KernelRecord.isMemOrFlag] at hr
  rw [KernelRecord.isRingRecord]
  cases hpay : r.payload <;> simp only [hpay] at hr ⊢
  obtain ⟨p, hp⟩ := hr
  intro b hb
  have := (hp b hb).2
  cases hi : b.2 <;> simp [hi, EventInfo.isMem] at this ⊢

variable (ctx : Context)

/-- The events that the handler of a memory or flag record appends, with their label. -/
def handledEvent (st : ParseState) (r : KernelRecord) (b : Body) : SanEvent :=
  setRecordType r.recordType (newEvent ctx st r b)

def handled (st : ParseState) (r : KernelRecord) : List SanEvent :=
  (r.payload.bodies r.blockType).map (handledEvent ctx st r)

/-- The accesses of a record with a unit flag, which is what is looked at, and the pipe that
waits for them. -/
def KernelRecord.unitFlag? (r : KernelRecord) : Option (PipeType × PipeType) :=
  match r.payload with
  | .matmul _ _ true => some (.m, .fix)
  | .movFp _ _ true => some (.fix, .m)
  | _ => none

/-- What may follow the accesses of a record. -/
inductive Flags (r : KernelRecord) (p : PipeType) : List Body → List Body → Prop
  | none (accs) : Flags r p accs []
  | set (rec : SyncRecord) : Flags r p [] [flagSync .setFlag rec]
  | wait (rec : SyncRecord) : Flags r p [] [flagSync .waitFlag rec]
  | unit (accs) (x : PipeType) (h : r.unitFlag? = some (p, x)) :
      Flags r p accs [crossPipeSync .setFlag p x, crossPipeSync .waitFlag p x]

/-- A memory or flag record has accesses on one pipe and then flags. -/
lemma bodies_shape {r : KernelRecord} (hr : r.isMemOrFlag) :
    ∃ p accs flags, r.payload.bodies r.blockType = accs ++ flags ∧
      (∀ b ∈ accs, b.1 = p ∧ EventInfo.isMem b.2 = true) ∧ Flags r p accs flags := by
  have hmap : ∀ (p : PipeType) (ops : List MemOpInfo),
      ∀ b ∈ ops.map (fun op => (p, EventInfo.mem op)), b.1 = p ∧ EventInfo.isMem b.2 = true := by
    intro p ops b hb
    obtain ⟨op, _, rfl⟩ := List.mem_map.1 hb
    exact ⟨rfl, rfl⟩
  rw [KernelRecord.isMemOrFlag] at hr
  cases hpay : r.payload <;> simp only [hpay, Payload.bodies] at hr ⊢
  case instr t bodies =>
    obtain ⟨p, hp⟩ := hr
    exact ⟨p, bodies, [], (List.append_nil _).symm, hp, .none _⟩
  case matmul t ops en =>
    cases en with
    | false => exact ⟨.m, _, [], rfl, hmap .m ops, .none _⟩
    | true =>
      exact ⟨.m, _, _, rfl, hmap .m ops, .unit _ .fix (by rw [KernelRecord.unitFlag?, hpay])⟩
  case movFp t ops en =>
    cases en with
    | false => exact ⟨.fix, _, [], rfl, hmap .fix ops, .none _⟩
    | true =>
      exact ⟨.fix, _, _, rfl, hmap .fix ops, .unit _ .m (by rw [KernelRecord.unitFlag?, hpay])⟩
  case setFlag f rec =>
    exact ⟨.s, [], [flagSync .setFlag rec], rfl, by simp, .set rec⟩
  case waitFlag f rec =>
    exact ⟨.s, [], [flagSync .waitFlag rec], rfl, by simp, .wait rec⟩

lemma Flags.isSync {r : KernelRecord} {p : PipeType} {accs flags : List Body}
    (h : Flags r p accs flags) : ∀ b ∈ flags, ∃ info, b.2 = .sync info ∧
      (info.opType = .setFlag ∧ b.1 = info.srcPipe ∨
        info.opType = .waitFlag ∧ b.1 = info.dstPipe) := by
  cases h with
  | none => simp
  | set rec => simp [flagSync]
  | wait rec => simp [flagSync]
  | unit accs x h => simp [crossPipeSync]

lemma bodies_noH {r : KernelRecord} (hr : r.isMemOrFlag) :
    ∀ b ∈ r.payload.bodies r.blockType, ∀ i, b.2 ≠ .hSync i := by
  obtain ⟨p, accs, flags, heq, haccs, hflags⟩ := bodies_shape hr
  rw [heq]
  intro b hb i hi
  rcases List.mem_append.1 hb with hb | hb
  · have := (haccs b hb).2
    rw [hi] at this
    cases this
  · obtain ⟨info, hinfo, _⟩ := hflags.isSync b hb
    rw [hi] at hinfo
    cases hinfo

/-- Without pending hset records the lowering does nothing. -/
lemma processHsetWaitSync_of_noH {room : ℕ} {events : List SanEvent}
    (h : ∀ e ∈ events, ∀ i, e.info ≠ .hSync i) :
    processHsetWaitSync room events [] = (events, []) := by
  rw [processHsetWaitSync, hsetWaitLoop_of_noH h, List.append_nil]
  rfl

lemma lowered_of_isMemOrFlag {r : KernelRecord} (hr : r.isMemOrFlag) {st : ParseState}
    (hst : st.hsetSyncMap = []) :
    lowered ctx st r = handled ctx st r ∧ (step ctx st r).hsetSyncMap = [] := by
  have hproc : processHsetWaitSync ctx.room
      ((parseFunc ctx r st).1.map (setRecordType r.recordType)) st.hsetSyncMap =
        (handled ctx st r, []) := by
    rw [parseFunc_of_isRingRecord ctx hr.isRingRecord, hst, List.map_map]
    refine processHsetWaitSync_of_noH ?_
    intro e he i
    obtain ⟨b, hb, rfl⟩ := List.mem_map.1 he
    exact bodies_noH hr b hb i
  refine ⟨by rw [lowered, hproc], ?_⟩
  rw [(raise_nil ctx (isFinish_of_isRingRecord hr.isRingRecord) st).1]
  have hmap : (loweredState ctx st r).hsetSyncMap = [] := by rw [loweredState, hproc]
  have hkeep : ∀ events st', (updateSyncInPipe ctx r events st').2.hsetSyncMap =
      st'.hsetSyncMap := by
    intro events st'
    rw [updateSyncInPipe]
    split_ifs
    · rfl
    · split
      · rfl
      · split
        · rfl
        · split
          · rfl
          · simp only
            split_ifs <;> (rw [ParseState.waitRing]; split <;> rfl)
          · rfl
        · rfl
  rw [hkeep, hmap]

/-! ## The graph of the parser -/

/-- What the last event of a record does to the graph. -/
def lookAt (g : PipeType → List PipeType) (e : SanEvent) : PipeType → List PipeType :=
  match e.info with
  | .mem _ => fun d => (g d).filter fun p => !(p == e.pipe)
  | _ =>
    match waitOf e with
    | some k => Function.update g k.dstPipe (insertPipe k.srcPipe (g k.dstPipe))
    | none => g

lemma waitRing_graph (st : ParseState) (a b : PipeType) (e : ℕ) :
    (st.waitRing a b e).dstSrcGraph =
      Function.update st.dstSrcGraph b (insertPipe a (st.dstSrcGraph b)) := by
  rw [ParseState.waitRing]
  split <;> rfl

lemma step_graph {r : KernelRecord} (hr : r.isFinish = false) (st : ParseState) :
    (step ctx st r).dstSrcGraph =
      ((lowered ctx st r).getLast?.map (lookAt st.dstSrcGraph)).getD st.dstSrcGraph := by
  have hst : (loweredState ctx st r).dstSrcGraph = st.dstSrcGraph := (parseFunc_ring ctx r st).1
  rw [(raise_nil ctx hr st).1, updateSyncInPipe, if_neg (by simp [hr])]
  cases (lowered ctx st r).getLast? with
  | none => exact hst
  | some e =>
    rw [Option.map_some, Option.getD_some, lookAt]
    cases hinfo : e.info with
    | mem op => simp only [hinfo, ParseState.pruneSrc, hst]
    | sync info =>
      cases hop : info.opType with
      | setFlag => simp [flagOf, hinfo, hop, ParseState.setRing, hst]
      | waitFlag =>
        simp only [flagOf, hinfo, hop, if_true]
        split_ifs <;> simp only [waitRing_graph, hst]
      | _ => simp [flagOf, hinfo, hop, hst]
    | _ => simp [flagOf, hinfo, hst]

lemma mem_lookAt_mem {g : PipeType → List PipeType} {e : SanEvent}
    (he : EventInfo.isMem e.info = true) {d p : PipeType} (h : p ∈ lookAt g e d) :
    p ∈ g d ∧ p ≠ e.pipe := by
  cases hinfo : e.info with
  | mem op =>
    simp only [lookAt, hinfo, List.mem_filter] at h
    exact ⟨h.1, by simpa using h.2⟩
  | _ =>
    rw [hinfo] at he
    cases he

lemma mem_lookAt_wait {g : PipeType → List PipeType} {e : SanEvent} {k : FlagKey}
    (hk : waitOf e = some k) {d p : PipeType} (h : p ∈ lookAt g e d) :
    p ∈ g d ∨ (d = k.dstPipe ∧ p = k.srcPipe) := by
  obtain ⟨info, hinfo, _⟩ := flagOf_eq_some.1 hk
  simp only [lookAt, hinfo, hk] at h
  by_cases hd : d = k.dstPipe
  · subst hd
    rw [Function.update_self, insertPipe] at h
    split_ifs at h
    · exact Or.inl h
    · rcases List.mem_append.1 h with h | h
      · exact Or.inl h
      · exact Or.inr ⟨rfl, List.mem_singleton.1 h⟩
  · rw [Function.update_of_ne hd] at h
    exact Or.inl h

/-- An edge that stays over more events: none of them is an access at its end. -/
lemma graph_append_of {U : ℕ → Prop} {tr : List SanEvent} {d p : PipeType}
    (h : eventOps.graph U tr d p)
    (l : List SanEvent) (hl : ∀ e ∈ l, eventOps.isAccess e = true → e.pipe ≠ p) :
    eventOps.graph U (tr ++ l) d p := by
  induction l using List.reverseRecOn with
  | nil => rwa [List.append_nil]
  | append_singleton l e ih =>
    rw [← List.append_assoc, graph_concat, Ops.graphStep]
    have hold := ih fun x hx => hl x (List.mem_append_left _ hx)
    split
    · rename_i hacc
      exact ⟨hold, fun heq => hl e (by simp) hacc heq.symm⟩
    · exact Or.inl hold

lemma graph_append_others {U : ℕ → Prop} (tr : List SanEvent) {l : List SanEvent}
    (hl : ∀ e ∈ l, eventOps.isAccess e = false ∧ waitOf e = none) :
    eventOps.graph U (tr ++ l) = eventOps.graph U tr := by
  induction l using List.reverseRecOn with
  | nil => rw [List.append_nil]
  | append_singleton l e ih =>
    obtain ⟨hacc, hwait⟩ := hl e (by simp)
    rw [← List.append_assoc, graph_other hacc (.inl hwait),
      ih fun x hx => hl x (List.mem_append_left _ hx)]

lemma graph_append_wait {U : ℕ → Prop} {tr l : List SanEvent} {e : SanEvent} {k : FlagKey}
    (hk : waitOf e = some k) (hU : U (tr ++ l).length) :
    eventOps.graph U (tr ++ (l ++ [e])) k.dstPipe k.srcPipe := by
  have hacc : eventOps.isAccess e = false := by
    obtain ⟨info, hinfo, _⟩ := flagOf_eq_some.1 hk
    simp [eventOps, hinfo, EventInfo.isMem]
  rw [← List.append_assoc, graph_concat, Ops.graphStep, if_neg (by simp [hacc])]
  exact Or.inr ⟨hU, k, hk, rfl, rfl⟩

abbrev traceGraph (tr : List SanEvent) : PipeType → PipeType → Prop :=
  eventOps.graph (fun _ => True) tr

lemma pipe_of_handled {r : KernelRecord} {st st' : ParseState} {P : PipeType}
    {accs flags : List Body} (heq : r.payload.bodies r.blockType = accs ++ flags)
    (haccs : ∀ b ∈ accs, b.1 = P ∧ EventInfo.isMem b.2 = true) (hflags : Flags r P accs flags)
    {e : SanEvent} (he : e ∈ (handled ctx st r).map (stampRing st'))
    (hacc : eventOps.isAccess e = true) : e.pipe = P := by
  obtain ⟨e', he', rfl⟩ := List.mem_map.1 he
  rw [handled, heq, List.map_append] at he'
  rcases List.mem_append.1 he' with he' | he'
  · obtain ⟨b, hb, rfl⟩ := List.mem_map.1 he'
    exact (haccs b hb).1
  · obtain ⟨b, hb, rfl⟩ := List.mem_map.1 he'
    obtain ⟨info, hinfo, _⟩ := hflags.isSync b hb
    have hacc' : EventInfo.isMem b.2 = true := hacc
    rw [hinfo] at hacc'
    cases hacc'

/-- The edges of the parser are in the graph of the trace, if a unit flag hides no access. -/
lemma graph_step {r : KernelRecord} (hr : r.isMemOrFlag) {st : ParseState}
    (hst : st.hsetSyncMap = []) {tr : List SanEvent} {d : PipeType}
    (h : ∀ p, p ∈ st.dstSrcGraph d → traceGraph tr d p)
    (hunit : ∀ p x, r.unitFlag? = some (p, x) → p ∈ st.dstSrcGraph d → d = x) :
    ∀ p, p ∈ (step ctx st r).dstSrcGraph d → traceGraph (tr ++ out ctx st r) d p := by
  have hfin := isFinish_of_isRingRecord hr.isRingRecord
  obtain ⟨P, accs, flags, hbodies, haccs, hflags⟩ := bodies_shape hr
  intro p hp
  rw [step_graph ctx hfin, (lowered_of_isMemOrFlag ctx hr hst).1] at hp
  rw [(raise_nil ctx hfin st).2, (lowered_of_isMemOrFlag ctx hr hst).1, List.map_append,
    ← List.append_assoc]
  -- the barriers change nothing
  refine graph_append_of ?_ _ ?_
  swap
  · intro e he hacc
    obtain ⟨b, hb, rfl⟩ := List.mem_map.1 he
    obtain ⟨_, _, rfl⟩ := eq_of_mem_barriers ctx hfin hb
    cases hacc
  have hhandled : handled ctx st r =
      accs.map (handledEvent ctx st r) ++ flags.map (handledEvent ctx st r) := by
    rw [handled, hbodies, List.map_append]
  have hkeep : p ∈ st.dstSrcGraph d → p ≠ P →
      traceGraph (tr ++ (handled ctx st r).map (stampRing (step ctx st r))) d p :=
    fun hmem hne => graph_append_of (h p hmem) _ fun e he hacc heq =>
      hne (heq.symm.trans (pipe_of_handled ctx hbodies haccs hflags he hacc))
  cases hflags with
  | none =>
    rw [List.map_nil, List.append_nil] at hhandled
    rcases List.eq_nil_or_concat' accs with rfl | ⟨l, b, rfl⟩
    · rw [hhandled] at hp ⊢
      rw [List.map_nil, List.map_nil, List.append_nil]
      exact h p hp
    · rw [hhandled, List.map_append, List.map_singleton, List.getLast?_concat, Option.map_some,
        Option.getD_some] at hp
      obtain ⟨hb, hmem⟩ := haccs b (by simp)
      obtain ⟨hp, hne⟩ := mem_lookAt_mem hmem hp
      exact hkeep hp fun hpP => hne (hpP.trans hb.symm)
  | set rec =>
    rw [hhandled] at hp ⊢
    refine graph_append_of (h p hp) _ ?_
    intro e he hacc
    rw [List.mem_singleton.1 he] at hacc
    cases hacc
  | wait rec =>
    rw [hhandled] at hp ⊢
    have hwait : waitOf (handledEvent ctx st r (flagSync .waitFlag rec)) =
        some ⟨rec.src, rec.dst, rec.eventID % validEventIdSize, rec.isGenerated⟩ := rfl
    have hp' : p ∈ lookAt st.dstSrcGraph (handledEvent ctx st r (flagSync .waitFlag rec)) d := hp
    rcases mem_lookAt_wait hwait hp' with hp₁ | ⟨rfl, rfl⟩
    · refine graph_append_of (h p hp₁) _ ?_
      intro e he hacc
      rw [List.mem_singleton.1 he] at hacc
      cases hacc
    · exact graph_append_wait (l := []) rfl trivial
  | unit accs x hx =>
    have hsplit : handled ctx st r =
        (accs.map (handledEvent ctx st r) ++
          [handledEvent ctx st r (crossPipeSync .setFlag P x)]) ++
            [handledEvent ctx st r (crossPipeSync .waitFlag P x)] := by
      rw [hhandled]
      simp
    rw [hsplit, List.getLast?_concat, Option.map_some, Option.getD_some] at hp
    rw [hsplit, List.map_append, List.map_singleton] at hkeep ⊢
    have hwait : waitOf (handledEvent ctx st r (crossPipeSync .waitFlag P x)) =
        some ⟨P, x, 11, true⟩ := rfl
    have hback : waitOf (stampRing (step ctx st r)
        (handledEvent ctx st r (crossPipeSync .waitFlag P x))) = some ⟨P, x, 11, true⟩ := rfl
    rcases mem_lookAt_wait hwait hp with hp₁ | ⟨hd, hpP⟩
    · by_cases hpP : p = P
      · -- the edge that the record puts back
        rw [hpP] at hp₁ ⊢
        rw [hunit P x hx hp₁]
        exact graph_append_wait hback trivial
      · exact hkeep hp₁ hpP
    · rw [hd, hpP]
      exact graph_append_wait hback trivial

/-! ## Runs -/

/-- A set is at its source and a wait at its destination. -/
lemma eventOps_inPlace {e : SanEvent}
    (h : ∀ info, e.info = .sync info → (info.opType = .setFlag → e.pipe = info.srcPipe) ∧
      (info.opType = .waitFlag → e.pipe = info.dstPipe)) : eventOps.InPlace e := by
  refine ⟨?_, ?_⟩
  · intro k hk
    obtain ⟨info, hinfo, hop, rfl⟩ := flagOf_eq_some.1 hk
    refine ⟨(h info hinfo).1 hop, ?_, ?_⟩
    · simp [eventOps, flagOf, hinfo, hop]
    · simp [eventOps, hinfo, EventInfo.isMem]
  · intro k hk
    obtain ⟨info, hinfo, hop, rfl⟩ := flagOf_eq_some.1 hk
    refine ⟨(h info hinfo).2 hop, ?_⟩
    simp [eventOps, hinfo, EventInfo.isMem]

lemma out_inPlace {r : KernelRecord} (hr : r.isMemOrFlag) {st : ParseState}
    (hst : st.hsetSyncMap = []) : ∀ e ∈ out ctx st r, eventOps.InPlace e := by
  have hfin := isFinish_of_isRingRecord hr.isRingRecord
  obtain ⟨P, accs, flags, heq, haccs, hflags⟩ := bodies_shape hr
  intro e he
  apply eventOps_inPlace
  intro info hinfo
  rw [(raise_nil ctx hfin st).2, (lowered_of_isMemOrFlag ctx hr hst).1, handled, heq] at he
  obtain ⟨e', he', rfl⟩ := List.mem_map.1 he
  rcases List.mem_append.1 he' with he' | he'
  · obtain ⟨b, hb, rfl⟩ := List.mem_map.1 he'
    have hb2 : b.2 = .sync info := hinfo
    rcases List.mem_append.1 hb with hb | hb
    · have := (haccs b hb).2
      rw [hb2] at this
      cases this
    · obtain ⟨info', hinfo', hcases⟩ := hflags.isSync b hb
      rw [hb2] at hinfo'
      cases hinfo'
      rcases hcases with ⟨hop, hp⟩ | ⟨hop, hp⟩
      · exact ⟨fun _ => hp, fun h => absurd (hop.symm.trans h) (by decide)⟩
      · exact ⟨fun h => absurd (hop.symm.trans h) (by decide), fun _ => hp⟩
  · obtain ⟨_, _, rfl⟩ := eq_of_mem_barriers ctx hfin he'
    cases hinfo
    exact ⟨fun h => (by cases h), fun h => (by cases h)⟩

/-- The search of the scalar wait that is record `n` follows an edge that the wait at a position of
the trace has put into the graph. -/
def Follows (st : ParseState) (rs : List KernelRecord) (n : ℕ) (src : PipeType) (m : ℕ) : Prop :=
  ∃ e k, (raised ctx st (rs.take n))[m]? = some e ∧ waitOf e = some k ∧
    k.dstPipe ∈ reachable (stateAfter ctx st (rs.take (n + 1))).dstSrcGraph src ∧
    k.srcPipe ∈ (stateAfter ctx st (rs.take (n + 1))).dstSrcGraph k.dstPipe ∧
    ∀ i b, m < i → (raised ctx st (rs.take n))[i]? = some b → EventInfo.isMem b.info = true →
      b.pipe ≠ k.srcPipe

/-- A scalar wait and those that its search follows belong to a set of waits each of which is
fresh and adds nothing to what other pipes reach by waits of the set; and no unit flag hides an
access from the search: its pipe is in no other edge than the one the record puts back. -/
structure WaitsFresh (st : ParseState) (rs : List KernelRecord) : Prop where
  waits : ∀ n r form rec, rs[n]? = some r → r.payload = .waitFlag form rec → rec.dst = .s →
    ∃ U : ℕ → Prop, U (raised ctx st (rs.take n)).length ∧
      (∀ m, Follows ctx st rs n rec.src m → U m) ∧
      ∀ m e k, U m → m ≤ (raised ctx st (rs.take n)).length → (raised ctx st rs)[m]? = some e →
        waitOf e = some k → eventOps.WaitOk U ((raised ctx st rs).take m) e k
  unitFlags : ∀ n r form rec, rs[n]? = some r → r.payload = .waitFlag form rec → rec.dst = .s →
    ∀ i r' p x, i < n → rs[i]? = some r' → r'.unitFlag? = some (p, x) →
      ∀ d ∈ reachable (stateAfter ctx st (rs.take (n + 1))).dstSrcGraph rec.src,
        p ∈ (stateAfter ctx st (rs.take i)).dstSrcGraph d → d = x

/-- The state of the parser at the start of a block, as far as waits are concerned. -/
structure StartState (st : ParseState) : Prop where
  graph : ∀ d, st.dstSrcGraph d = []
  hset : st.hsetSyncMap = []

section Runs

variable {st : ParseState} (hst : StartState st) {rs : List KernelRecord}
  (hrs : ∀ r ∈ rs, r.isMemOrFlag)
include hst hrs

lemma hsetSyncMap_take (n : ℕ) : (stateAfter ctx st (rs.take n)).hsetSyncMap = [] := by
  induction n with
  | zero => exact hst.hset
  | succ n ih =>
    cases hr : rs[n]? with
    | none => rwa [List.take_add_one, hr, Option.toList_none, List.append_nil]
    | some r =>
      rw [stateAfter_take_succ ctx st hr]
      exact (lowered_of_isMemOrFlag ctx (hrs r (List.mem_of_getElem? hr)) ih).2

lemma raised_inPlace : ∀ e ∈ raised ctx st rs, eventOps.InPlace e := by
  intro e he
  obtain ⟨i, r, hr, he⟩ := mem_raised ctx he
  exact out_inPlace ctx (hrs r (List.mem_of_getElem? hr)) (hsetSyncMap_take ctx hst hrs i) e he

lemma graph_take {n : ℕ} {d : PipeType} (hunit : ∀ i r p x, i < n → rs[i]? = some r →
      r.unitFlag? = some (p, x) → p ∈ (stateAfter ctx st (rs.take i)).dstSrcGraph d → d = x) :
    ∀ p, p ∈ (stateAfter ctx st (rs.take n)).dstSrcGraph d →
      traceGraph (raised ctx st (rs.take n)) d p := by
  induction n with
  | zero =>
    intro p hp
    rw [List.take_zero] at hp
    rw [show (stateAfter ctx st []).dstSrcGraph d = [] from hst.graph d] at hp
    cases hp
  | succ n ih =>
    have ih := ih fun i r p x hi => hunit i r p x (hi.trans n.lt_succ_self)
    cases hr : rs[n]? with
    | none => rwa [List.take_add_one, hr, Option.toList_none, List.append_nil]
    | some r =>
      rw [stateAfter_take_succ ctx st hr, raised_take_succ ctx st hr]
      exact graph_step ctx (hrs r (List.mem_of_getElem? hr)) (hsetSyncMap_take ctx hst hrs n) ih
        fun p x hx => hunit n r p x n.lt_succ_self hr hx

end Runs

/-- A barrier that `UpdateSyncInPipe` inserts. -/
def isBarrier (e : SanEvent) : Prop := ∃ info, e.info = .sync info ∧ info.opType = .pipeBarrier

/-- Whenever a wait of the scalar pipe inserts a barrier on a pipe, every access recorded on this
pipe before happens before the wait. -/
def BarriersSound (st : ParseState) (rs : List KernelRecord) : Prop :=
  ∀ n r form rec, rs[n]? = some r → r.payload = .waitFlag form rec → rec.dst = .s →
    ∀ b ∈ (parse ctx r [] (stateAfter ctx st (rs.take n))).1, isBarrier b →
      ∀ i e, i < (raised ctx st (rs.take n)).length → (raised ctx st rs)[i]? = some e →
        EventInfo.isMem e.info = true → e.pipe = b.pipe →
        eventOps.HappensBefore (raised ctx st rs) i (raised ctx st (rs.take n)).length

/-- The pipes that get a barrier at a wait are those that its source reaches. -/
lemma mem_reachable_of_barrier {st : ParseState} {r : KernelRecord} {form : FlagForm}
    {rec : SyncRecord} (hpay : r.payload = .waitFlag form rec) {b : SanEvent}
    (hb : b ∈ (parse ctx r [] st).1) (hbar : isBarrier b) :
    b.pipe ∈ reachable (step ctx st r).dstSrcGraph rec.src := by
  have hfin : r.isFinish = false := by rw [KernelRecord.isFinish, hpay]
  obtain ⟨info, hinfo, hop⟩ := hbar
  rw [parse_eq] at hb
  obtain ⟨b', hb', rfl⟩ := List.mem_map.1 hb
  rw [(raise_nil ctx hfin st).2, lowered_waitFlag ctx hpay] at hb'
  obtain ⟨e, he, rfl⟩ := List.mem_map.1 hb'
  rcases List.mem_append.1 he with he | he
  · -- the wait itself is no barrier
    rw [List.mem_singleton.1 he] at hinfo
    simp only [replacePipeScalar, stampRing, setRecordType, newEvent, flagSync] at hinfo
    split_ifs at hinfo <;> cases hinfo <;> cases hop
  · rcases barriers_eq_nil_or ctx hfin st with hnil | ⟨st', w, k, hlast, hk, _, heq⟩
    · rw [hnil] at he
      cases he
    · rw [lowered_waitFlag ctx hpay, List.getLast?_singleton] at hlast
      obtain rfl := Option.some.inj hlast
      obtain ⟨info', hinfo', _, rfl⟩ := flagOf_eq_some.1 hk
      cases hinfo'
      rw [heq] at he
      obtain ⟨p, hp, rfl⟩ := List.mem_map.1 he
      exact hp

lemma out_waitFlag {r : KernelRecord} {form : FlagForm} {rec : SyncRecord}
    (hpay : r.payload = .waitFlag form rec) (st : ParseState) :
    ∃ w, waitOf w = some ⟨rec.src, rec.dst, rec.eventID % validEventIdSize, rec.isGenerated⟩ ∧
      ∃ l, (∀ x ∈ l, eventOps.isAccess x = false ∧ waitOf x = none) ∧
        out ctx st r = [w] ++ l := by
  have hfin : r.isFinish = false := by rw [KernelRecord.isFinish, hpay]
  refine ⟨stampRing (step ctx st r) (handledEvent ctx st r (flagSync .waitFlag rec)), rfl,
    (barriers ctx st r).map (stampRing (step ctx st r)), ?_, ?_⟩
  · intro x hx
    obtain ⟨b, hb, rfl⟩ := List.mem_map.1 hx
    obtain ⟨_, _, rfl⟩ := eq_of_mem_barriers ctx hfin hb
    exact ⟨rfl, rfl⟩
  · rw [(raise_nil ctx hfin st).2, lowered_waitFlag ctx hpay]
    rfl

/-- An access on the vector pipe, a set to the scalar pipe, and the wait of the scalar pipe. -/
def freshWait : List KernelRecord :=
  [{ serialNo := 1, payload := .instr .vector [(.v, .mem {})] },
    { serialNo := 2, payload := .setFlag .plain { src := .v, dst := .s } },
    { serialNo := 3, payload := .waitFlag .plain { src := .v, dst := .s } }]

/-- The set comes before the access, and the wait after it. -/
def staleSet : List KernelRecord :=
  [{ serialNo := 1, payload := .setFlag .plain { src := .v, dst := .s } },
    { serialNo := 2, payload := .instr .vector [(.v, .mem {})] },
    { serialNo := 3, payload := .waitFlag .plain { src := .v, dst := .s } }]

/-- The access of `staleSet` comes before nothing but the barrier that is inserted after the
wait. -/
lemma staleSet_direct {i j : ℕ} (hi : i = 1 ∨ i = 3)
    (h : eventOps.Direct (raised {} {} staleSet) i j) : j = 3 := by
  rcases h with ⟨hlt, a, b, ha, hb, hp⟩ | ⟨k, hk, _, _⟩
  · have hj : j < 4 := (List.getElem?_eq_some_iff.1 hb).1
    by_contra hne
    obtain ⟨rfl, rfl⟩ : i = 1 ∧ j = 2 := by omega
    obtain rfl := Option.some.inj ha
    obtain rfl := Option.some.inj hb
    revert hp
    decide
  · rcases hi with rfl | rfl <;> cases hk

end MsSanitizer.RecordParse
