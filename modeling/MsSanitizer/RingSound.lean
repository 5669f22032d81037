import MsSanitizer.RingComplete

/-!
# What a closed ring means

A watermark is the serial number of a set. Behind it stands a chain of set/wait pairs, matched
first-in first-out, as long as no wait runs while the newest set on its edge is still unmatched:
the edge keeps only the largest start points, so a wait gets those of the newest set, whichever
set it is matched with.
-/

namespace MsSanitizer.RecordParse

open RecordDefs EventDef FifoTrace

/-- A chain of set/wait pairs in a trace of events. -/
abbrev RingChain : List SanEvent → PipeType → ℕ → PipeType → ℕ → Prop :=
  Chain setOf waitOf FlagKey.srcPipe FlagKey.dstPipe

/-! ## The newest set on an edge -/

/-- The edge on which a record with these events puts start points: only the last event of a
record is looked at. -/
def setEdge (l : List SanEvent) : Option (PipeType × PipeType × ℕ) :=
  (l.getLast?.bind setOf).map FlagKey.edge

/-- The position of the newest set on an edge, with the length of the trace. -/
def newestSetFrom (edge : PipeType × PipeType × ℕ) (x : ℕ × Option ℕ) (l : List SanEvent) :
    ℕ × Option ℕ :=
  (x.1 + l.length, if setEdge l = some edge then some (x.1 + l.length - 1) else x.2)

def newestSet (edge : PipeType × PipeType × ℕ) (ls : List (List SanEvent)) : Option ℕ :=
  (ls.foldl (newestSetFrom edge) (0, none)).2

lemma newestSetFrom_length (edge : PipeType × PipeType × ℕ) (ls : List (List SanEvent)) :
    (ls.foldl (newestSetFrom edge) (0, none)).1 = ls.flatten.length := by
  induction ls using List.reverseRecOn with
  | nil => rfl
  | append_singleton ls l ih =>
    rw [List.foldl_append, List.flatten_append, List.length_append, ← ih]
    simp [newestSetFrom]

lemma newestSet_concat (edge : PipeType × PipeType × ℕ) (ls : List (List SanEvent))
    (l : List SanEvent) :
    newestSet edge (ls ++ [l]) =
      if setEdge l = some edge then some (ls.flatten.length + l.length - 1)
      else newestSet edge ls := by
  rw [newestSet, List.foldl_append, ← newestSetFrom_length edge ls]
  rfl

lemma getLast?_append_bind {f : SanEvent → Option FlagKey} {l l' : List SanEvent}
    (hl : l.getLast?.bind f = none) (hl' : ∀ e ∈ l', f e = none) :
    (l ++ l').getLast?.bind f = none := by
  rcases List.eq_nil_or_concat' l' with rfl | ⟨t, a, rfl⟩
  · rw [List.append_nil]
    exact hl
  · rw [← List.append_assoc, List.getLast?_concat]
    exact hl' a (by simp)

variable (ctx : Context)

lemma barriers_setOf {r : KernelRecord} (hr : r.isFinish = false) (st : ParseState) :
    ∀ e ∈ barriers ctx st r, setOf e = none ∧ waitOf e = none := by
  intro e he
  obtain ⟨_, _, rfl⟩ := eq_of_mem_barriers ctx hr he
  exact ⟨rfl, rfl⟩

/-- The set that a record is looked at for is the last of the events that it raises. -/
lemma lastSet_out {r : KernelRecord} (hr : r.isFinish = false) (st : ParseState) :
    (out ctx st r).getLast?.bind setOf = (lowered ctx st r).getLast?.bind setOf := by
  have hstamp : (out ctx st r).getLast?.bind setOf =
      (lowered ctx st r ++ barriers ctx st r).getLast?.bind setOf := by
    rw [(raise_nil ctx hr st).2, List.getLast?_map]
    cases (lowered ctx st r ++ barriers ctx st r).getLast? <;> rfl
  rw [hstamp]
  rcases barriers_eq_nil_or ctx hr st with h | ⟨_, e, k, hlast, hk, _, _⟩
  · rw [h, List.append_nil]
  · have hset : (lowered ctx st r).getLast?.bind setOf = none := by
      obtain ⟨info, hinfo, hop, _⟩ := flagOf_eq_some.1 hk
      simp [hlast, flagOf, hinfo, hop]
    rw [hset]
    exact getLast?_append_bind hset fun e he => (barriers_setOf ctx hr st e he).1

/-! ## The invariant -/

/-- `n` is the serial number at a position, and all later ones are larger. -/
def StartAt (tr : List SanEvent) (s n : ℕ) : Prop :=
  (∃ e, tr[s]? = some e ∧ e.serialNo = n) ∧ ∀ i e, s < i → tr[i]? = some e → n < e.serialNo

/-- A start point `n` of `p` that the set at `σ` on `a` passes on: it is the number of this set,
or a chain has brought it to `a` before. -/
def Passes (tr : List SanEvent) (p : PipeType) (n : ℕ) (a : PipeType) (σ : ℕ) : Prop :=
  (p = a ∧ StartAt tr σ n) ∨ ∃ s₀ w, RingChain tr p s₀ a w ∧ w < σ ∧ StartAt tr s₀ n

/-- Every start point in the rings has its chain, up to the newest set of an edge. -/
structure RingInv (ls : List (List SanEvent)) (g : Ring) : Prop where
  inherited : ∀ q p, 0 < g.inherited q p →
    ∃ s₀ w, RingChain ls.flatten p s₀ q w ∧ StartAt ls.flatten s₀ (g.inherited q p)
  closed : ∀ p, 0 < g.closed p →
    ∃ s₀ w, RingChain ls.flatten p s₀ p w ∧ StartAt ls.flatten s₀ (g.closed p)
  edge : ∀ a b e starts, g.edge a b e = some starts →
    ∃ σ k, newestSet (a, b, e) ls = some σ ∧ HasKey setOf ls.flatten k σ ∧ k.srcPipe = a ∧
      k.dstPipe = b ∧ ∀ p, 0 < starts p → Passes ls.flatten p (starts p) a σ

section Append

variable {tr l : List SanEvent} {m : ℕ} (htr : ∀ e ∈ tr, e.serialNo < m)
  (hl : ∀ e ∈ l, e.serialNo = m)
include htr

lemma StartAt.lt {s n : ℕ} (h : StartAt tr s n) : n < m := by
  obtain ⟨⟨e, he, rfl⟩, _⟩ := h
  exact htr e (List.mem_of_getElem? he)

include hl

lemma StartAt.append {s n : ℕ} (h : StartAt tr s n) : StartAt (tr ++ l) s n := by
  have hn := h.lt htr
  obtain ⟨⟨e, he, hen⟩, hlater⟩ := h
  have hs : s < tr.length := (List.getElem?_eq_some_iff.1 he).1
  refine ⟨⟨e, by rw [List.getElem?_append_left hs, he], hen⟩, ?_⟩
  intro i e' hi he'
  rcases Nat.lt_or_ge i tr.length with hlt | hge
  · rw [List.getElem?_append_left hlt] at he'
    exact hlater i e' hi he'
  · rw [List.getElem?_append_right hge] at he'
    rw [hl e' (List.mem_of_getElem? he')]
    exact hn

lemma Passes.append {p a : PipeType} {n σ : ℕ} (h : Passes tr p n a σ) :
    Passes (tr ++ l) p n a σ := by
  rcases h with ⟨hp, hs⟩ | ⟨s₀, w, hc, hw, hs⟩
  · exact Or.inl ⟨hp, hs.append htr hl⟩
  · exact Or.inr ⟨s₀, w, hc.append l, hw, hs.append htr hl⟩

lemma RingChain.append_start {p q : PipeType} {n : ℕ}
    (h : ∃ s₀ w, RingChain tr p s₀ q w ∧ StartAt tr s₀ n) :
    ∃ s₀ w, RingChain (tr ++ l) p s₀ q w ∧ StartAt (tr ++ l) s₀ n := by
  obtain ⟨s₀, w, hc, hs⟩ := h
  exact ⟨s₀, w, hc.append l, hs.append htr hl⟩

omit htr in
lemma startAt_last {k : FlagKey} (h : l.getLast?.bind setOf = some k) :
    StartAt (tr ++ l) (tr.length + l.length - 1) m ∧
      HasKey setOf (tr ++ l) k (tr.length + l.length - 1) := by
  rcases List.eq_nil_or_concat' l with rfl | ⟨t, a, rfl⟩
  · cases h
  · rw [List.getLast?_concat] at h
    have hpos : tr.length + (t ++ [a]).length - 1 = (tr ++ t).length := by
      simp only [List.length_append, List.length_singleton]
      omega
    have hget : (tr ++ (t ++ [a]))[(tr ++ t).length]? = some a := by
      rw [← List.append_assoc, List.getElem?_append_right le_rfl, Nat.sub_self]
      rfl
    rw [hpos]
    refine ⟨⟨⟨a, hget, hl a (by simp)⟩, ?_⟩, ?_⟩
    · intro i e hi he
      have hlen := (List.getElem?_eq_some_iff.1 he).1
      simp only [List.length_append, List.length_singleton] at hi hlen
      omega
    · rw [HasKey, hget]
      exact h

end Append

/-- What stays as it was when a record neither sets nor waits. -/
lemma RingInv.append {ls : List (List SanEvent)} {l : List SanEvent} {g : Ring} {m : ℕ}
    (htr : ∀ e ∈ ls.flatten, e.serialNo < m) (hl : ∀ e ∈ l, e.serialNo = m)
    (h : RingInv ls g) (hset : setEdge l = none) : RingInv (ls ++ [l]) g := by
  have hflat : (ls ++ [l]).flatten = ls.flatten ++ l := by simp
  refine ⟨?_, ?_, ?_⟩
  · intro q p hpos
    rw [hflat]
    exact RingChain.append_start htr hl (h.inherited q p hpos)
  · intro p hpos
    rw [hflat]
    exact RingChain.append_start htr hl (h.closed p hpos)
  · intro a b e starts hstarts
    obtain ⟨σ, k, hσ, hk, ha, hb, hpass⟩ := h.edge a b e starts hstarts
    refine ⟨σ, k, ?_, ?_, ha, hb, ?_⟩
    · rw [newestSet_concat, hset, if_neg (by simp), hσ]
    · rw [hflat]
      exact hk.append l
    · intro p hp
      rw [hflat]
      exact (hpass p hp).append htr hl

lemma setEdge_eq {l : List SanEvent} {k : FlagKey} (h : l.getLast?.bind setOf = some k) :
    setEdge l = some k.edge := by
  rw [setEdge, h]
  rfl

/-- What a set merges before its own number: a start point that was on the edge or at the pipe
has come to the pipe by a chain that is over, or it is the number of an earlier set. -/
lemma RingInv.merged {ls : List (List SanEvent)} {st : ParseState} {m : ℕ}
    (htr : ∀ e ∈ ls.flatten, e.serialNo < m) (h : RingInv ls st.ring) {a b : PipeType} {e : ℕ}
    {p : PipeType} (hpos : 0 < mergeStarts (st.ring.starts a b e) (st.inheritedStartPoints a) p) :
    mergeStarts (st.ring.starts a b e) (st.inheritedStartPoints a) p < m ∧
      (p ≠ a → ∃ s₀ w, RingChain ls.flatten p s₀ a w ∧ StartAt ls.flatten s₀
        (mergeStarts (st.ring.starts a b e) (st.inheritedStartPoints a) p)) := by
  rw [mergeStarts] at hpos ⊢
  rcases max_choice (st.ring.starts a b e p) (st.inheritedStartPoints a p) with hc | hc
  · rw [hc] at hpos ⊢
    rw [Ring.starts] at hpos ⊢
    cases hs : st.ring.edge a b e with
    | none =>
      rw [hs] at hpos
      exact absurd hpos (lt_irrefl 0)
    | some old =>
      rw [hs, Option.getD_some] at hpos
      obtain ⟨σ, _, _, _, _, _, hpass⟩ := h.edge _ _ _ old hs
      rw [Option.getD_some]
      rcases hpass p hpos with ⟨hp, hat⟩ | ⟨s₀, w, hchain, _, hat⟩
      · exact ⟨hat.lt htr, fun hne => absurd hp hne⟩
      · exact ⟨hat.lt htr, fun _ => ⟨s₀, w, hchain, hat⟩⟩
  · rw [hc] at hpos ⊢
    obtain ⟨s₀, w, hchain, hat⟩ := h.inherited a p hpos
    exact ⟨hat.lt htr, fun _ => ⟨s₀, w, hchain, hat⟩⟩

/-- The edge of a set gets what the pipe has, and the number of the set. -/
lemma RingInv.set_edge {ls : List (List SanEvent)} {l : List SanEvent} {st : ParseState} {m : ℕ}
    (htr : ∀ e ∈ ls.flatten, e.serialNo < m) (hl : ∀ e ∈ l, e.serialNo = m)
    (h : RingInv ls st.ring) {k : FlagKey} (hk : l.getLast?.bind setOf = some k) {e : ℕ}
    {p : PipeType}
    (hpos : 0 < (st.setRing m k.srcPipe k.dstPipe e).ring.starts k.srcPipe k.dstPipe e p) :
    Passes (ls.flatten ++ l) p
      ((st.setRing m k.srcPipe k.dstPipe e).ring.starts k.srcPipe k.dstPipe e p) k.srcPipe
      (ls.flatten.length + l.length - 1) := by
  have hlen : 0 < l.length := by
    rw [List.length_pos_iff_ne_nil]
    rintro rfl
    cases hk
  rw [setRing_starts] at hpos ⊢
  by_cases hp : p = k.srcPipe
  · subst hp
    rw [Function.update_self] at hpos ⊢
    have hle : mergeStarts (st.ring.starts k.srcPipe k.dstPipe e)
        (st.inheritedStartPoints k.srcPipe) k.srcPipe ≤ m := by
      rcases Nat.eq_zero_or_pos (mergeStarts (st.ring.starts k.srcPipe k.dstPipe e)
        (st.inheritedStartPoints k.srcPipe) k.srcPipe) with h0 | h0
      · omega
      · exact (h.merged htr h0).1.le
    rw [max_eq_right hle]
    exact Or.inl ⟨rfl, (startAt_last hl hk).1⟩
  · rw [Function.update_of_ne hp] at hpos ⊢
    obtain ⟨s₀, w, hchain, hat⟩ := (h.merged htr hpos).2 hp
    have hw : w < ls.flatten.length := by
      obtain ⟨_, hlast, _⟩ := hchain.last
      exact hlast.lt_length
    exact Or.inr ⟨s₀, w, hchain.append l, by omega, hat.append htr hl⟩

lemma RingInv.set {ls : List (List SanEvent)} {l : List SanEvent} {st : ParseState} {m : ℕ}
    (htr : ∀ e ∈ ls.flatten, e.serialNo < m) (hl : ∀ e ∈ l, e.serialNo = m)
    (h : RingInv ls st.ring) {k : FlagKey} (hk : l.getLast?.bind setOf = some k) :
    RingInv (ls ++ [l])
      (st.setRing m k.srcPipe k.dstPipe (k.eventId % validEventIdSize)).ring := by
  have hflat : (ls ++ [l]).flatten = ls.flatten ++ l := by simp
  refine ⟨?_, ?_, ?_⟩
  · intro q p hpos
    rw [hflat]
    exact RingChain.append_start htr hl (h.inherited q p hpos)
  · intro p hpos
    rw [hflat]
    exact RingChain.append_start htr hl (h.closed p hpos)
  · intro a b e starts hstarts
    rw [hflat]
    by_cases hedge : a = k.srcPipe ∧ b = k.dstPipe ∧ e = k.eventId % validEventIdSize
    · obtain ⟨rfl, rfl, rfl⟩ := hedge
      refine ⟨ls.flatten.length + l.length - 1, k, ?_, (startAt_last hl hk).2, rfl, rfl, ?_⟩
      · rw [newestSet_concat, setEdge_eq hk, FlagKey.edge, if_pos rfl]
      · have hst : (st.setRing m k.srcPipe k.dstPipe
            (k.eventId % validEventIdSize)).ring.starts k.srcPipe k.dstPipe
              (k.eventId % validEventIdSize) = starts := by
          rw [Ring.starts, hstarts, Option.getD_some]
        intro p hpos
        rw [← hst] at hpos ⊢
        exact h.set_edge htr hl hk hpos
    · have hold : st.ring.edge a b e = some starts := by
        simpa [ParseState.ring, ParseState.setRing, hedge] using hstarts
      obtain ⟨σ, k', hσ, hk', ha, hb, hpass⟩ := h.edge a b e starts hold
      refine ⟨σ, k', ?_, hk'.append l, ha, hb, fun p hp => (hpass p hp).append htr hl⟩
      have hne : ¬ some k.edge = some (a, b, e) := by
        intro heq
        simp only [FlagKey.edge, Option.some.injEq, Prod.mk.injEq] at heq
        exact hedge ⟨heq.1.symm, heq.2.1.symm, heq.2.2.symm⟩
      rw [newestSet_concat, setEdge_eq hk, if_neg hne, hσ]

/-- A start point on an edge whose newest set is matched has a chain to the pipe that waits. -/
lemma RingInv.over_edge {ls : List (List SanEvent)} {l : List SanEvent} {g : Ring} {m : ℕ}
    (htr : ∀ e ∈ ls.flatten, e.serialNo < m) (hl : ∀ e ∈ l, e.serialNo = m) (h : RingInv ls g)
    {a b : PipeType} {e : ℕ}
    (hok : ∀ σ, newestSet (a, b, e) ls = some σ →
      ∃ w, Matched setOf waitOf (ls.flatten ++ l) σ w)
    {p : PipeType} (hpos : 0 < g.starts a b e p) :
    ∃ s₀ w, RingChain (ls.flatten ++ l) p s₀ b w ∧
      StartAt (ls.flatten ++ l) s₀ (g.starts a b e p) := by
  rw [Ring.starts] at hpos ⊢
  cases hs : g.edge a b e with
  | none =>
    rw [hs] at hpos
    exact absurd hpos (lt_irrefl 0)
  | some starts =>
    rw [hs, Option.getD_some] at hpos
    rw [Option.getD_some]
    obtain ⟨σ, k, hσ, hk, rfl, rfl, hpass⟩ := h.edge _ _ _ starts hs
    obtain ⟨w', hm⟩ := hok σ hσ
    have hk' := hk.append l
    rcases hpass p hpos with ⟨rfl, hat⟩ | ⟨s₀, w, hchain, hw, hat⟩
    · exact ⟨σ, w', .start hk' rfl hm, hat.append htr hl⟩
    · exact ⟨s₀, w', .link (hchain.append l) hw hk' rfl hm, hat.append htr hl⟩

/-- A wait keeps the invariant if the newest set on its edge is matched. -/
lemma RingInv.wait {ls : List (List SanEvent)} {l : List SanEvent} {st : ParseState} {m : ℕ}
    (htr : ∀ e ∈ ls.flatten, e.serialNo < m) (hl : ∀ e ∈ l, e.serialNo = m)
    (h : RingInv ls st.ring) (hset : setEdge l = none) {a b : PipeType} {e : ℕ}
    (hok : ∀ σ, newestSet (a, b, e) ls = some σ →
      ∃ w, Matched setOf waitOf (ls.flatten ++ l) σ w) :
    RingInv (ls ++ [l]) (st.waitRing a b e).ring := by
  have hflat : (ls ++ [l]).flatten = ls.flatten ++ l := by simp
  have happ := h.append htr hl hset
  refine ⟨?_, ?_, ?_⟩
  · intro q p hpos
    by_cases hq : q = b
    · subst hq
      have heq : (st.waitRing a q e).ring.inherited q p =
          max (st.ring.inherited q p) (st.ring.starts a q e p) := waitRing_inherited st a q e p
      rw [heq] at hpos ⊢
      rcases max_choice (st.ring.inherited q p) (st.ring.starts a q e p) with hc | hc
      · rw [hc] at hpos ⊢
        exact happ.inherited q p hpos
      · rw [hc] at hpos ⊢
        rw [hflat]
        exact h.over_edge htr hl hok hpos
    · have heq : (st.waitRing a b e).ring.inherited q p = st.ring.inherited q p :=
        congrFun (waitRing_of_ne st a e hq).1 p
      rw [heq] at hpos ⊢
      exact happ.inherited q p hpos
  · intro p hpos
    by_cases hp : p = b
    · subst hp
      have heq : (st.waitRing a p e).ring.closed p =
          max (st.ring.closed p) (st.ring.starts a p e p) := waitRing_closed st a p e
      rw [heq] at hpos ⊢
      rcases max_choice (st.ring.closed p) (st.ring.starts a p e p) with hc | hc
      · rw [hc] at hpos ⊢
        exact happ.closed p hpos
      · rw [hc] at hpos ⊢
        rw [hflat]
        exact h.over_edge htr hl hok hpos
    · have heq : (st.waitRing a b e).ring.closed p = st.ring.closed p :=
        (waitRing_of_ne st a e hp).2
      rw [heq] at hpos ⊢
      exact happ.closed p hpos
  · intro a' b' e' starts hstarts
    exact happ.edge a' b' e' starts (by
      rwa [ParseState.ring, waitRing_edge] at hstarts)

/-! ## Streams whose waits keep up -/

/-- The newest set on the edge of the wait that a record is looked at for has been matched, by
this wait or an earlier one. -/
def KeepsUp (st : ParseState) (rs : List KernelRecord) (r : KernelRecord) : Prop :=
  ∀ k, (lowered ctx (stateAfter ctx st rs) r).getLast?.bind waitOf = some k →
    ∀ σ, newestSet k.edge (outs ctx st rs) = some σ →
      ∃ w, Matched setOf waitOf (raised ctx st (rs ++ [r])) σ w

/-- No wait of a stream runs while the newest set on its edge is unmatched. -/
def WaitsKeepUp (st : ParseState) (rs : List KernelRecord) : Prop :=
  ∀ n r, rs[n]? = some r → KeepsUp ctx st (rs.take n) r

lemma RingInv.step {st : ParseState} {rs : List KernelRecord} {r : KernelRecord}
    (hr : r.isFinish = false) (htr : ∀ e ∈ raised ctx st rs, e.serialNo < r.serialNo)
    (h : RingInv (outs ctx st rs) (stateAfter ctx st rs).ring) (hok : KeepsUp ctx st rs r) :
    RingInv (outs ctx st (rs ++ [r])) (stateAfter ctx st (rs ++ [r])).ring := by
  rw [outs_concat, stateAfter_concat]
  have hl := out_serialNo ctx hr (stateAfter ctx st rs)
  have hlast := lastSet_out ctx hr (stateAfter ctx st rs)
  obtain ⟨e, k, he, hk, hring⟩ | ⟨e, k, he, hk, hring⟩ | ⟨hno, hring⟩ :=
    step_ring ctx hr (stateAfter ctx st rs)
  · rw [hring]
    exact h.set htr hl (by rw [hlast, he]; exact hk)
  · have hset : setEdge (out ctx (stateAfter ctx st rs) r) = none := by
      obtain ⟨info, hinfo, hop, _⟩ := flagOf_eq_some.1 hk
      rw [setEdge, hlast, he]
      simp [flagOf, hinfo, hop]
    rw [hring]
    refine h.wait htr hl hset ?_
    intro σ hσ
    rw [← raised, ← raised_concat]
    exact hok k (by rw [he]; exact hk) σ hσ
  · have hset : setEdge (out ctx (stateAfter ctx st rs) r) = none := by
      rw [setEdge, hlast]
      cases hlow : (lowered ctx (stateAfter ctx st rs) r).getLast? with
      | none => rfl
      | some e =>
        rw [Option.bind_some, (hno e hlow).1]
        rfl
    rw [hring]
    exact h.append htr hl hset

/-- Records of one block in the order of their serial numbers, which are counted from one. -/
structure BlockStream (rs : List KernelRecord) : Prop where
  noFinish : ∀ r ∈ rs, r.isFinish = false
  increasing : (0 :: rs.map KernelRecord.serialNo).Pairwise (· < ·)

lemma BlockStream.raised_lt {rs : List KernelRecord} (hrs : BlockStream rs) (st : ParseState)
    {n : ℕ} {r : KernelRecord} (hr : rs[n]? = some r) :
    ∀ e ∈ raised ctx st (rs.take n), e.serialNo < r.serialNo := by
  intro e he
  obtain ⟨i, r', hr', he'⟩ := mem_raised ctx he
  have hi : i < n := by
    have := (List.getElem?_eq_some_iff.1 hr').1
    rw [List.length_take] at this
    omega
  rw [List.getElem?_take_of_lt hi] at hr'
  rw [out_serialNo ctx (hrs.noFinish r' (List.mem_of_getElem? hr')) _ e he']
  exact serialNo_lt (List.pairwise_cons.1 hrs.increasing).2 hr' hr hi

/-- The invariant holds after every part of a stream whose waits keep up. -/
lemma ringInv_take {st : ParseState} (hst : st.ring = ({} : ParseState).ring)
    {rs : List KernelRecord} (hrs : BlockStream rs) (hok : WaitsKeepUp ctx st rs) (n : ℕ) :
    RingInv (outs ctx st (rs.take n)) (stateAfter ctx st (rs.take n)).ring := by
  induction n with
  | zero =>
    rw [List.take_zero]
    change RingInv [] st.ring
    rw [hst]
    exact ⟨fun _ _ h => absurd h (lt_irrefl 0), fun _ h => absurd h (lt_irrefl 0),
      fun _ _ _ _ h => by cases h⟩
  | succ n ih =>
    cases hr : rs[n]? with
    | none => rwa [List.take_add_one, hr, Option.toList_none, List.append_nil]
    | some r =>
      rw [List.take_add_one, hr, Option.toList_some]
      exact ih.step ctx (hrs.noFinish r (List.mem_of_getElem? hr)) (hrs.raised_lt ctx st hr)
        (hok n r hr)

/-! ## The records of an access -/

/-- The records that rings are made of: memory instructions, flags and barriers. -/
def KernelRecord.isRingRecord (r : KernelRecord) : Prop :=
  match r.payload with
  | .instr _ bodies => ∀ b ∈ bodies, ∃ op, b.2 = .mem op
  | .matmul .. | .movFp .. | .setFlag .. | .waitFlag .. | .hsetFlag .. | .hwaitFlag ..
  | .pipeBarrier _ | .dsb .. => True
  | _ => False

/-- An access among the events of a record was appended by its handler. -/
lemma mem_out_of_mem {st : ParseState} {r : KernelRecord} (hr : r.isFinish = false)
    {e : SanEvent} (he : e ∈ out ctx st r) {op : MemOpInfo} (hop : e.info = .mem op) :
    ∃ b ∈ (parseFunc ctx r st).1, b.info = .mem op ∧ b.pipe = e.pipe := by
  have hstable : LoweringStable fun e : SanEvent => ∀ op, e.info = .mem op →
      ∃ b ∈ (parseFunc ctx r st).1, b.info = .mem op ∧ b.pipe = e.pipe :=
    ⟨fun _ _ _ _ _ h => (by cases h), fun _ _ _ _ _ _ _ h => (by cases h)⟩
  refine forall_out ctx hstable hr (fun _ _ h => h) (fun _ _ h => h) ?_ ?_ e he op hop
  · intro _ _ _ h
    cases h
  · exact fun b hb _ hinfo => ⟨b, hb, hinfo, rfl⟩

lemma mem_lowered_of_noH {st : ParseState} {r : KernelRecord}
    (h : ∀ e ∈ (parseFunc ctx r st).1, ∀ i, e.info ≠ .hSync i) {e : SanEvent}
    (he : e ∈ lowered ctx st r) :
    (∃ b ∈ (parseFunc ctx r st).1, e = setRecordType r.recordType b) ∨ waitOf e = none := by
  have hnoH : ∀ b ∈ (parseFunc ctx r st).1.map (setRecordType r.recordType),
      ∀ i, b.info ≠ .hSync i := by
    intro b hb i
    obtain ⟨b', hb', rfl⟩ := List.mem_map.1 hb
    exact h b' hb' i
  rw [lowered, processHsetWaitSync, hsetWaitLoop_of_noH hnoH, List.append_nil,
    hsetMatchLoop] at he
  split at he
  · rcases List.mem_append.1 he with he | he
    · obtain ⟨b, hb, rfl⟩ := List.mem_map.1 he
      exact Or.inl ⟨b, hb, rfl⟩
    · rw [List.mem_singleton.1 he]
      exact Or.inr rfl
  · obtain ⟨b, hb, rfl⟩ := List.mem_map.1 he
    exact Or.inl ⟨b, hb, rfl⟩

lemma parseFunc_of_isRingRecord {r : KernelRecord} (hr : r.isRingRecord) (st : ParseState) :
    parseFunc ctx r st = ((r.payload.bodies r.blockType).map (newEvent ctx st r), st) := by
  rw [KernelRecord.isRingRecord] at hr
  rw [parseFunc]
  split at hr <;> simp_all

def EventInfo.isMem : EventInfo → Bool
  | .mem _ => true
  | _ => false

lemma pipeAllSync_isMem : ∀ b ∈ pipeAllSync, EventInfo.isMem b.2 = false := by decide

lemma pipeDdrSync_isMem : ∀ b ∈ pipeDdrSync, EventInfo.isMem b.2 = false := by decide

/-- What a handler may append together with an access: accesses, and flags on other pipes. -/
def BesideAccess (p : PipeType) : Body → Prop
  | (_, .mem _) => True
  | (_, .sync info) => info.opType = .waitFlag → info.dstPipe ≠ p
  | _ => False

lemma unitFlagSync_spec (en isWriteMode : Bool) {p : PipeType}
    (hp : p = if isWriteMode then .m else .fix) :
    ∀ b ∈ if en then unitFlagSync isWriteMode else [],
      EventInfo.isMem b.2 = false ∧ BesideAccess p b := by
  intro b hb
  cases en with
  | false => cases hb
  | true =>
    rw [if_pos rfl, unitFlagSync] at hb
    subst hp
    cases isWriteMode <;> simp [crossPipeSync] at hb <;>
      rcases hb with rfl | rfl <;> simp [EventInfo.isMem, BesideAccess]

lemma besideAccess_of_flags {p : PipeType} {accesses : List MemOpInfo} {flags : List Body}
    (hflags : ∀ b ∈ flags, EventInfo.isMem b.2 = false ∧ BesideAccess p b) {b b' : Body}
    (hb : b ∈ accesses.map (fun op => (p, EventInfo.mem op)) ++ flags)
    (hmem : EventInfo.isMem b.2 = true)
    (hb' : b' ∈ accesses.map (fun op => (p, EventInfo.mem op)) ++ flags) :
    BesideAccess b.1 b' := by
  have hpipe : b.1 = p := by
    rcases List.mem_append.1 hb with hb | hb
    · obtain ⟨op, _, rfl⟩ := List.mem_map.1 hb
      rfl
    · rw [(hflags b hb).1] at hmem
      cases hmem
  rcases List.mem_append.1 hb' with hb' | hb'
  · obtain ⟨op, _, rfl⟩ := List.mem_map.1 hb'
    trivial
  · rw [hpipe]
    exact (hflags b' hb').2

/-- The waits that a handler appends together with an access are on other pipes. -/
lemma bodies_besideAccess {r : KernelRecord} (hr : r.isRingRecord) {b b' : Body}
    (hb : b ∈ r.payload.bodies r.blockType) (hmem : EventInfo.isMem b.2 = true)
    (hb' : b' ∈ r.payload.bodies r.blockType) : BesideAccess b.1 b' := by
  -- the records without accesses are those whose bodies are all of another kind
  have hnone : (∀ x ∈ r.payload.bodies r.blockType, EventInfo.isMem x.2 = false) →
      BesideAccess b.1 b' := by
    intro h
    rw [h b hb] at hmem
    cases hmem
  rw [KernelRecord.isRingRecord] at hr
  cases hpay : r.payload with
  | instr t bodies =>
    simp only [hpay, Payload.bodies] at hr hb'
    obtain ⟨op, hop⟩ := hr b' hb'
    obtain ⟨p, i⟩ := b'
    obtain rfl : i = .mem op := hop
    trivial
  | matmul t accesses en =>
    rw [hpay, Payload.bodies] at hb hb'
    exact besideAccess_of_flags (unitFlagSync_spec en true rfl) hb hmem hb'
  | movFp t accesses en =>
    rw [hpay, Payload.bodies] at hb hb'
    exact besideAccess_of_flags (unitFlagSync_spec en false rfl) hb hmem hb'
  | setFlag f rec => exact hnone (by simp [hpay, Payload.bodies, flagSync, EventInfo.isMem])
  | waitFlag f rec => exact hnone (by simp [hpay, Payload.bodies, flagSync, EventInfo.isMem])
  | hsetFlag i rec =>
    refine hnone ?_
    rw [hpay, Payload.bodies, hardSync]
    split_ifs <;> simp [EventInfo.isMem]
  | hwaitFlag i rec =>
    refine hnone ?_
    rw [hpay, Payload.bodies, hardSync]
    split_ifs <;> simp [EventInfo.isMem]
  | pipeBarrier p =>
    refine hnone ?_
    rw [hpay, Payload.bodies]
    split_ifs
    · exact pipeAllSync_isMem
    · simp [innerPipeSync, EventInfo.isMem]
  | dsb p d =>
    refine hnone ?_
    rw [hpay, Payload.bodies, dsbSync]
    split_ifs
    · exact pipeAllSync_isMem
    · exact pipeDdrSync_isMem
    · simp [EventInfo.isMem]
  | _ => simp [hpay] at hr

lemma isFinish_of_isRingRecord {r : KernelRecord} (hr : r.isRingRecord) : r.isFinish = false := by
  rw [KernelRecord.isRingRecord] at hr
  rw [KernelRecord.isFinish]
  split at hr <;> simp_all

/-- No wait among the events of a record with an access is on the pipe of the access. -/
lemma wait_ne_access {st : ParseState} {r : KernelRecord} (hr : r.isRingRecord) {c e : SanEvent}
    (hc : c ∈ out ctx st r) {op : MemOpInfo} (hop : c.info = .mem op) (he : e ∈ out ctx st r)
    {k : FlagKey} (hk : waitOf e = some k) : k.dstPipe ≠ c.pipe := by
  have hfin := isFinish_of_isRingRecord hr
  obtain ⟨c', hc', hopc, hpc⟩ := mem_out_of_mem ctx hfin hc hop
  rw [parseFunc_of_isRingRecord ctx hr] at hc'
  obtain ⟨b, hb, rfl⟩ := List.mem_map.1 hc'
  have hbmem : EventInfo.isMem b.2 = true := by
    have hb2 : b.2 = .mem op := hopc
    rw [hb2, EventInfo.isMem]
  have hbeside : ∀ b' ∈ r.payload.bodies r.blockType, BesideAccess b.1 b' :=
    fun b' hb' => bodies_besideAccess hr hb hbmem hb'
  have hnoH : ∀ x ∈ (parseFunc ctx r st).1, ∀ i, x.info ≠ .hSync i := by
    intro x hx i hi
    rw [parseFunc_of_isRingRecord ctx hr] at hx
    obtain ⟨⟨q, i'⟩, hb', rfl⟩ := List.mem_map.1 hx
    obtain rfl : i' = .hSync i := hi
    exact hbeside _ hb'
  rw [← hpc]
  rw [(raise_nil ctx hfin st).2] at he
  obtain ⟨e', he', rfl⟩ := List.mem_map.1 he
  rcases List.mem_append.1 he' with he' | he'
  · rcases mem_lowered_of_noH ctx hnoH he' with ⟨x, hx, rfl⟩ | hnone
    · rw [parseFunc_of_isRingRecord ctx hr] at hx
      obtain ⟨⟨q, i'⟩, hb', rfl⟩ := List.mem_map.1 hx
      obtain ⟨info, hinfo, hop', rfl⟩ := flagOf_eq_some.1 hk
      obtain rfl : i' = .sync info := hinfo
      exact hbeside _ hb' hop'
    · rw [show waitOf (stampRing (step ctx st r) e') = waitOf e' from rfl, hnone] at hk
      cases hk
  · rw [show waitOf (stampRing (step ctx st r) e') = waitOf e' from rfl,
      (barriers_setOf ctx hfin st e' he').2] at hk
    cases hk

/-! ## Rings are sound -/

/-- Ring protection hides no race: behind two accesses on a pipe of which the first lies before
the watermark of the second there is a chain of matched pairs, which starts with a set on this
pipe after the first access and ends with a wait on it before the second. -/
def RingsSound (st : ParseState) (rs : List KernelRecord) : Prop :=
  ∀ (i j : ℕ) (A C : SanEvent) (opA opC : MemOpInfo), (parseRun ctx st rs)[i]? = some A →
    (parseRun ctx st rs)[j]? = some C → i < j → A.info = .mem opA → C.info = .mem opC →
    A.pipe = C.pipe → A.serialNo ≤ C.closedRingStartSerialNo →
    ∃ s₀ w, i < s₀ ∧ w < j ∧ RingChain (raised ctx st rs) C.pipe s₀ C.pipe w

lemma raised_of_parseRun {st : ParseState} {rs : List KernelRecord} {i : ℕ} {e : SanEvent}
    {op : MemOpInfo} (h : (parseRun ctx st rs)[i]? = some e) (hop : e.info = .mem op) :
    (raised ctx st rs)[i]? = some e := by
  rw [parseRun_eq, List.getElem?_map, Option.map_eq_some_iff] at h
  obtain ⟨e', he', rfl⟩ := h
  rw [replacePipeScalar_eq_mem hop, he']

/-- **Ring protection hides no race** in any stream of memory, flag and barrier records of one
block whose waits keep up. -/
theorem rings_sound_of_waitsKeepUp {st : ParseState} (hst : st.ring = ({} : ParseState).ring)
    {rs : List KernelRecord} (hring : ∀ r ∈ rs, r.isRingRecord) (hrs : BlockStream rs)
    (hok : WaitsKeepUp ctx st rs) : RingsSound ctx st rs := by
  intro i j A C opA opC hA hC hij hopA hopC _ hle
  have hA' := raised_of_parseRun ctx hA hopA
  obtain ⟨n, r, hr, hn, hCout⟩ := raised_getElem? ctx (raised_of_parseRun ctx hC hopC)
  have hrmem := List.mem_of_getElem? hr
  have hfin := hrs.noFinish r hrmem
  have hCmem := List.mem_of_getElem? hCout
  -- the trace up to the record of `C`
  have htr := raised_take_succ ctx st hr
  have hsplit := raised_take_append_drop ctx st rs (n + 1)
  have hinv := ringInv_take ctx hst hrs hok (n + 1)
  have hjlt : j < (raised ctx st (rs.take (n + 1))).length := by
    have := (List.getElem?_eq_some_iff.1 hCout).1
    rw [htr, List.length_append]
    omega
  have hAtr : (raised ctx st (rs.take (n + 1)))[i]? = some A := by
    rw [hsplit, List.getElem?_append_left (by omega)] at hA'
    exact hA'
  -- the watermark of `C` is not zero, so it has a chain
  have hclosed := out_closedRing ctx hfin C hCmem
  rw [← stateAfter_take_succ ctx st hr] at hclosed
  have hApos : 0 < A.serialNo := by
    obtain ⟨m, r', hr', hAout⟩ := mem_raised ctx (List.mem_of_getElem? hA')
    rw [out_serialNo ctx (hrs.noFinish r' (List.mem_of_getElem? hr')) _ A hAout]
    exact (List.pairwise_cons.1 hrs.increasing).1 _
      (List.mem_map_of_mem (List.mem_of_getElem? hr'))
  obtain ⟨s₀, w, hchain, hstart⟩ := hinv.closed C.pipe (show 0 < _ by
    rw [hclosed] at hle
    exact hApos.trans_le hle)
  refine ⟨s₀, w, ?_, ?_, ?_⟩
  · by_contra hge
    rcases Nat.lt_or_ge s₀ i with hlt | hge'
    · have := hstart.2 i A hlt hAtr
      rw [hclosed] at hle
      exact absurd this (not_lt.2 hle)
    · obtain rfl : i = s₀ := by omega
      obtain ⟨k, hk, _⟩ := hchain.first
      rw [HasKey, ← raised, hAtr] at hk
      simp [flagOf, hopA] at hk
  · by_contra hge
    obtain ⟨k, hk, hdst⟩ := hchain.last
    rw [HasKey, ← raised, htr, List.getElem?_append_right (by omega)] at hk
    obtain ⟨e, he, hke⟩ := Option.bind_eq_some_iff.1 hk
    exact wait_ne_access ctx (hring r hrmem) hCmem hopC (List.mem_of_getElem? he) hke hdst
  · rw [hsplit]
    exact hchain.append _

theorem rings_sound_roundTrip : RingsSound {} {} roundTrip := by
  refine rings_sound_of_waitsKeepUp {} rfl ?_ ⟨by decide, by decide⟩ ?_
  · intro r hr
    fin_cases hr
    · exact fun b hb => ⟨{}, by rw [List.mem_singleton.1 hb]⟩
    · trivial
    · trivial
    · trivial
    · trivial
    · exact fun b hb => ⟨{}, by rw [List.mem_singleton.1 hb]⟩
  · intro n r hr k hk σ hσ
    match n, hr with
    | 0, rfl => cases hk
    | 1, rfl => cases hk
    | 2, rfl =>
      cases hk
      cases hσ
      exact ⟨2, _, rfl, rfl, rfl⟩
    | 3, rfl => cases hk
    | 4, rfl =>
      cases hk
      cases hσ
      exact ⟨4, _, rfl, rfl, rfl⟩
    | 5, rfl => cases hk

/-- A set before the first access and one after it on the same edge, and a single wait: it is
matched with the first set, but the edge has the number of the second. -/
def setAhead : List KernelRecord :=
  [{ serialNo := 1, payload := .setFlag .plain { src := .v, dst := .m } },
    { serialNo := 2, payload := .instr .vector [(.v, .mem {})] },
    { serialNo := 3, payload := .setFlag .plain { src := .v, dst := .m } },
    { serialNo := 4, payload := .waitFlag .plain { src := .v, dst := .m } },
    { serialNo := 5, payload := .setFlag .plain { src := .m, dst := .v } },
    { serialNo := 6, payload := .waitFlag .plain { src := .m, dst := .v } },
    { serialNo := 7, payload := .instr .vector [(.v, .mem {})] }]

/-- The second set of `setAhead` has no partner, and no other set on the pipe follows. -/
lemma setAhead_unmatched {s₀ w : ℕ} {p : PipeType} (hs : 1 < s₀)
    (h : RingChain (raised {} {} setAhead) .v s₀ p w) : False := by
  have hm : ∃ w', Matched setOf waitOf (raised {} {} setAhead) s₀ w' := by
    induction h with
    | start _ _ hm => exact ⟨_, hm⟩
    | link _ _ _ _ _ ih => exact ih
  obtain ⟨k, hk, hsrc⟩ := h.first
  obtain ⟨w', k', hk', hw', hn⟩ := hm
  have hs₀ : s₀ < 7 := hk.lt_length
  have hlt : w' < 7 := hw'.lt_length
  interval_cases s₀
  · obtain rfl : (⟨.v, .m, 0, false⟩ : FlagKey) = k' := Option.some.inj hk'
    have hset : before setOf (raised {} {} setAhead) ⟨.v, .m, 0, false⟩ 2 = 1 := by decide
    have hwait : before waitOf (raised {} {} setAhead) ⟨.v, .m, 0, false⟩ 3 = 0 := by decide
    rw [hset] at hn
    interval_cases w'
    all_goals first
      | (cases hw'; done)
      | (rw [hwait] at hn; cases hn)
  · cases hk
  · cases hk
    cases hsrc
  · cases hk
  · cases hk

theorem rings_not_sound_setAhead :
    (∀ r ∈ setAhead, r.isFinish = false) ∧
      (0 :: setAhead.map KernelRecord.serialNo).Pairwise (· < ·) ∧ ¬ RingsSound {} {} setAhead := by
  refine ⟨by decide, by decide, ?_⟩
  intro h
  obtain ⟨s₀, w, hs, _, hchain⟩ := h 1 6 _ _ {} {} rfl rfl (by omega) rfl rfl rfl (by decide)
  exact setAhead_unmatched hs hchain

end MsSanitizer.RecordParse
