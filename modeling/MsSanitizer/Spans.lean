import MsSanitizer.Segs

/-!
# Unions of spans

The model of `spans.hpp`: a vector of half-open spans, in order and apart from each other, to which
spans are added. `std::upper_bound` is the split before the first span that satisfies its predicate.
-/

namespace MsSanitizer.Spans

open Segs

variable {T : Type*} [LinearOrder T]

structure Span (T : Type*) where
  vmin : T
  vmax : T
  deriving DecidableEq, Repr

/-- The loop of `Union`: the span `it` takes in those after it that it reaches. -/
def absorb (it : Span T) : List (Span T) → List (Span T)
  | [] => [it]
  | next :: rest =>
    if it.vmax < next.vmin then it :: next :: rest
    else absorb { it with vmax := max it.vmax next.vmax } rest

def union (spans : List (Span T)) (span : Span T) : List (Span T) :=
  let (before, after) := splitAtFirst (fun b : Span T => decide (span.vmin < b.vmin)) spans
  match before.getLast? with
  | some prev =>
    if span.vmin ≤ prev.vmax then
      before.dropLast ++ absorb { prev with vmax := max prev.vmax span.vmax } after
    else before ++ absorb span after
  | none => absorb span after

/-- The loop of `HasIntersection`. -/
def intersects (span : Span T) : List (Span T) → Bool
  | [] => false
  | it :: rest =>
    if span.vmin < it.vmax ∧ it.vmin < span.vmax then true
    else if span.vmax ≤ it.vmin then false
    else intersects span rest

def hasIntersection (spans : List (Span T)) (span : Span T) : Bool :=
  intersects span (splitAtFirst (fun b : Span T => decide (span.vmin < b.vmax)) spans).2

def points (s : Span T) : Set T := Set.Ico s.vmin s.vmax

def cover (l : List (Span T)) : Set T := {x | ∃ s ∈ l, x ∈ points s}

/-- Spans in order, none touching the next; a span may be empty. -/
@[mk_iff] structure Apart (l : List (Span T)) : Prop where
  wf : ∀ s ∈ l, s.vmin ≤ s.vmax
  ord : l.Pairwise fun s t => s.vmax < t.vmin

@[simp] lemma mem_points {s : Span T} {x : T} : x ∈ points s ↔ s.vmin ≤ x ∧ x < s.vmax := Iff.rfl

@[simp] lemma cover_nil : cover ([] : List (Span T)) = ∅ := by
  ext x
  simp [cover]

@[simp] lemma cover_cons (s : Span T) (l : List (Span T)) :
    cover (s :: l) = points s ∪ cover l := by
  ext x
  simp [cover]

@[simp] lemma cover_append (l m : List (Span T)) : cover (l ++ m) = cover l ∪ cover m := by
  induction l with
  | nil => simp
  | cons s l ih => simp [ih, Set.union_assoc]

lemma apart_nil : Apart ([] : List (Span T)) := ⟨by simp, List.Pairwise.nil⟩

lemma apart_cons {s : Span T} {l : List (Span T)} :
    Apart (s :: l) ↔ s.vmin ≤ s.vmax ∧ (∀ t ∈ l, s.vmax < t.vmin) ∧ Apart l := by
  simp only [apart_iff, ordered_cons]

lemma apart_append {l m : List (Span T)} :
    Apart (l ++ m) ↔ Apart l ∧ Apart m ∧ ∀ s ∈ l, ∀ t ∈ m, s.vmax < t.vmin := by
  simp only [apart_iff, ordered_append]

/-! ## Taking in the spans that follow -/

lemma le_of_mem_absorb {it : Span T} {l : List (Span T)} {b : T} (hb : b < it.vmin)
    (hl : ∀ t ∈ l, b < t.vmin) : ∀ t ∈ absorb it l, b < t.vmin := by
  induction l generalizing it with
  | nil => simpa [absorb] using hb
  | cons next rest ih =>
    rw [absorb]
    split_ifs with h
    · intro t ht
      rcases List.mem_cons.mp ht with rfl | ht
      · exact hb
      · exact hl t ht
    · exact ih hb fun t ht => hl t (List.mem_cons_of_mem _ ht)

lemma Apart.absorb {it : Span T} {l : List (Span T)} (hit : it.vmin ≤ it.vmax) (hl : Apart l) :
    Apart (absorb it l) := by
  induction l generalizing it with
  | nil => exact apart_cons.mpr ⟨hit, by simp, apart_nil⟩
  | cons next rest ih =>
    obtain ⟨hn, hnr, hr⟩ := apart_cons.mp hl
    rw [Spans.absorb]
    split_ifs with h
    · refine apart_cons.mpr ⟨hit, fun t ht => ?_, hl⟩
      rcases List.mem_cons.mp ht with rfl | ht
      · exact h
      · exact h.trans (hn.trans_lt (hnr t ht))
    · exact ih (le_max_of_le_left hit) hr

/-- Two spans of which the second starts inside the first or at its end. -/
lemma points_max {a b c d : T} (hac : a ≤ c) (hcb : c ≤ b) :
    points ⟨a, max b d⟩ = points ⟨a, b⟩ ∪ points ⟨c, d⟩ := by
  ext x
  simp only [mem_points, Set.mem_union, lt_max_iff]
  constructor
  · rintro ⟨hax, hx | hx⟩
    · exact Or.inl ⟨hax, hx⟩
    · rcases lt_or_ge x b with hb | hb
      · exact Or.inl ⟨hax, hb⟩
      · exact Or.inr ⟨hcb.trans hb, hx⟩
  · rintro (⟨hax, hx⟩ | ⟨hcx, hx⟩)
    · exact ⟨hax, Or.inl hx⟩
    · exact ⟨hac.trans hcx, Or.inr hx⟩

lemma cover_absorb {it : Span T} {l : List (Span T)} (hit : it.vmin ≤ it.vmax)
    (hl : ∀ t ∈ l, it.vmin ≤ t.vmin) : cover (absorb it l) = points it ∪ cover l := by
  induction l generalizing it with
  | nil => simp [absorb]
  | cons next rest ih =>
    rw [absorb]
    split_ifs with h
    · simp
    · have hc := @ih ⟨it.vmin, max it.vmax next.vmax⟩ (le_max_of_le_left hit)
        fun t ht => hl t (List.mem_cons_of_mem _ ht)
      rw [hc, cover_cons, ← Set.union_assoc, points_max (hl next (by simp)) (not_lt.mp h)]

/-! ## `Union` -/

lemma Apart.pairwise_vmin {l : List (Span T)} (h : Apart l) :
    l.Pairwise fun s t => s.vmin ≤ t.vmin :=
  List.Pairwise.imp_of_mem (fun hs _ hst => (h.wf _ hs).trans hst.le) h.ord

lemma Apart.pairwise_vmax {l : List (Span T)} (h : Apart l) :
    l.Pairwise fun s t => s.vmax ≤ t.vmax :=
  List.Pairwise.imp_of_mem (fun _ ht hst => hst.le.trans (h.wf _ ht)) h.ord

/-- Adding a span keeps the spans apart and adds its points. -/
lemma union_spec {spans : List (Span T)} (h : Apart spans) {span : Span T}
    (hs : span.vmin ≤ span.vmax) :
    Apart (union spans span) ∧ cover (union spans span) = cover spans ∪ points span := by
  obtain ⟨before, after, hsplit, rfl, hbefore, hafter⟩ :=
    split_mono Span.vmin h.pairwise_vmin span.vmin
  obtain ⟨hb, ha, hba⟩ := apart_append.mp h
  have hge : ∀ t ∈ after, span.vmin ≤ t.vmin := fun t ht => (hafter t ht).le
  simp only [union, hsplit]
  rcases List.eq_nil_or_concat before with rfl | ⟨init, prev, rfl⟩
  · simp only [List.getLast?_nil, List.nil_append]
    exact ⟨ha.absorb hs, by rw [cover_absorb hs hge, Set.union_comm]⟩
  simp only [List.concat_eq_append] at *
  obtain ⟨hi, hp, hip⟩ := apart_append.mp hb
  obtain ⟨hprev, -, -⟩ := apart_cons.mp hp
  have hprevle : prev.vmin ≤ span.vmin := hbefore prev (by simp)
  have hpt : ∀ t ∈ after, prev.vmax < t.vmin := fun t ht => hba prev (by simp) t ht
  simp only [List.getLast?_append, List.getLast?_singleton, Option.some_or, List.dropLast_concat]
  split_ifs with hreach
  · -- the last span before the new one reaches it and grows
    have hgrown : prev.vmin ≤ max prev.vmax span.vmax := le_max_of_le_left hprev
    refine ⟨apart_append.mpr ⟨hi, ha.absorb hgrown, fun s hs' => ?_⟩, ?_⟩
    · exact le_of_mem_absorb (hip s hs' prev (by simp)) fun t ht => hba s (by simp [hs']) t ht
    · have hc := @cover_absorb T _ ⟨prev.vmin, max prev.vmax span.vmax⟩ after hgrown
        fun t ht => hprev.trans (hpt t ht).le
      rw [cover_append, hc, points_max hprevle hreach]
      simp only [cover_append, cover_cons, cover_nil, Set.union_empty]
      ext x
      simp only [Set.mem_union]
      tauto
  · -- the new span stands on its own before the ones after it
    refine ⟨apart_append.mpr ⟨hb, ha.absorb hs, fun s hs' => ?_⟩, ?_⟩
    · refine le_of_mem_absorb ?_ fun t ht => hba s hs' t ht
      have hsp : s.vmax ≤ prev.vmax := by
        rcases List.mem_append.mp hs' with h' | h'
        · exact (hip s h' prev (by simp)).le.trans hprev
        · rw [List.mem_singleton.mp h']
      exact hsp.trans_lt (not_le.mp hreach)
    · rw [cover_append _ (absorb span after), cover_absorb hs hge, cover_append _ after,
        Set.union_assoc, Set.union_comm (points span)]

/-- The spans after a sequence of `Union` calls. -/
def unions (spans : List (Span T)) : List (Span T) := spans.foldl union []

lemma unions_spec {spans : List (Span T)} (h : ∀ s ∈ spans, s.vmin ≤ s.vmax) :
    Apart (unions spans) ∧ cover (unions spans) = cover spans := by
  induction spans using List.reverseRecOn with
  | nil => exact ⟨apart_nil, rfl⟩
  | append_singleton spans span ih =>
    obtain ⟨hap, hcov⟩ := ih fun s hs => h s (by simp [hs])
    obtain ⟨hap', hcov'⟩ := union_spec hap (h span (by simp))
    simp only [unions, List.foldl_append, List.foldl_cons, List.foldl_nil] at *
    refine ⟨hap', ?_⟩
    rw [hcov', hcov, cover_append, cover_cons, cover_nil, Set.union_empty]

/-! ## `HasIntersection` -/

lemma intersects_iff {span : Span T} {l : List (Span T)} (h : Apart l)
    (hl : ∀ s ∈ l, span.vmin < s.vmax) :
    intersects span l = true ↔ ∃ s ∈ l, s.vmin < span.vmax := by
  induction l with
  | nil => simp [intersects]
  | cons it rest ih =>
    obtain ⟨hit, hlt, hr⟩ := apart_cons.mp h
    rw [intersects]
    split_ifs with h1 h2
    · exact iff_of_true rfl ⟨it, by simp, h1.2⟩
    · refine iff_of_false (by simp) ?_
      rintro ⟨s, hs, hlo⟩
      rcases List.mem_cons.mp hs with rfl | hs
      · exact absurd hlo (not_lt.mpr h2)
      · exact absurd (hlo.trans_le h2) (not_lt.mpr (hit.trans (hlt s hs).le))
    · exact absurd ⟨hl it (by simp), not_le.mp h2⟩ h1

/-- A query that shares a point with the spans meets them. -/
lemma hasIntersection_of_mem {spans : List (Span T)} (h : Apart spans) {span : Span T} {x : T}
    (hx : x ∈ points span) (hc : x ∈ cover spans) : hasIntersection spans span = true := by
  obtain ⟨before, after, hsplit, rfl, hbefore, hafter⟩ :=
    split_mono Span.vmax h.pairwise_vmax span.vmin
  obtain ⟨-, ha, -⟩ := apart_append.mp h
  obtain ⟨s, hs, hx1, hx2⟩ := hc
  simp only [hasIntersection, hsplit]
  rw [intersects_iff ha hafter]
  rcases List.mem_append.mp hs with hsb | hsa
  · exact absurd (hx.1.trans_lt hx2) (not_lt.mpr (hbefore s hsb))
  · exact ⟨s, hsa, hx1.trans_lt hx.2⟩

/-- Spans that are not empty meet a query only in a point of both. -/
lemma exists_mem_of_hasIntersection {spans : List (Span T)} (h : Apart spans)
    (hlt : ∀ s ∈ spans, s.vmin < s.vmax) {span : Span T} (hspan : span.vmin < span.vmax)
    (hmeet : hasIntersection spans span = true) : ∃ x ∈ points span, x ∈ cover spans := by
  obtain ⟨before, after, hsplit, rfl, -, hafter⟩ :=
    split_mono Span.vmax h.pairwise_vmax span.vmin
  obtain ⟨-, ha, -⟩ := apart_append.mp h
  simp only [hasIntersection, hsplit] at hmeet
  obtain ⟨s, hs, hlo⟩ := (intersects_iff ha hafter).mp hmeet
  have hmem : s ∈ before ++ after := List.mem_append_right _ hs
  refine ⟨max span.vmin s.vmin, ⟨le_max_left _ _, max_lt hspan hlo⟩, s, hmem, le_max_right _ _, ?_⟩
  exact max_lt (hafter s hs) (hlt s hmem)

/-! ## Spans that are not empty -/

lemma lt_of_mem_absorb {it : Span T} {l : List (Span T)} (hit : it.vmin < it.vmax)
    (hl : ∀ t ∈ l, t.vmin < t.vmax) : ∀ t ∈ absorb it l, t.vmin < t.vmax := by
  induction l generalizing it with
  | nil =>
    intro t ht
    rw [List.mem_singleton.mp ht]
    exact hit
  | cons next rest ih =>
    rw [absorb]
    split_ifs with h
    · exact List.forall_mem_cons.mpr ⟨hit, hl⟩
    · exact ih (lt_max_of_lt_left hit) fun t ht => hl t (List.mem_cons_of_mem _ ht)

lemma lt_of_mem_union {spans : List (Span T)} (h : ∀ s ∈ spans, s.vmin < s.vmax) {span : Span T}
    (hs : span.vmin < span.vmax) : ∀ s ∈ union spans span, s.vmin < s.vmax := by
  have hsplit := splitAtFirst_append (fun b : Span T => decide (span.vmin < b.vmin)) spans
  generalize hparts : splitAtFirst (fun b : Span T => decide (span.vmin < b.vmin)) spans = parts
    at hsplit
  obtain ⟨before, after⟩ := parts
  subst hsplit
  have hafter := fun t ht => h t (List.mem_append_right before ht)
  simp only [union, hparts]
  rcases before.eq_nil_or_concat' with rfl | ⟨init, prev, rfl⟩
  · exact lt_of_mem_absorb hs hafter
  · have hprev := h prev (by simp)
    have hinit : ∀ t ∈ init, t.vmin < t.vmax := fun t ht => h t (by simp [ht])
    simp only [List.getLast?_concat, List.dropLast_concat]
    split_ifs with hreach
    · exact List.forall_mem_append.mpr ⟨hinit,
        lt_of_mem_absorb (lt_max_of_lt_left hprev) hafter⟩
    · exact List.forall_mem_append.mpr ⟨fun t ht => h t (List.mem_append_left _ ht),
        lt_of_mem_absorb hs hafter⟩

lemma lt_of_mem_unions {spans : List (Span T)} (h : ∀ s ∈ spans, s.vmin < s.vmax) :
    ∀ s ∈ unions spans, s.vmin < s.vmax := by
  induction spans using List.reverseRecOn with
  | nil => exact fun s hs => by cases hs
  | append_singleton spans span ih =>
    rw [unions, List.foldl_append]
    exact lt_of_mem_union (ih fun s hs => h s (List.mem_append_left _ hs)) (h span (by simp))

/-- **The spans after any sequence of unions.** They are in order, apart from each other without
touching, not empty, and cover what was added; a query meets them if and only if it shares a point
with what was added. -/
theorem unions_exact (spans : List (Span T)) (h : ∀ s ∈ spans, s.vmin < s.vmax) :
    (∀ s ∈ unions spans, s.vmin < s.vmax) ∧
      (unions spans).Pairwise (fun s t => s.vmax < t.vmin) ∧
      cover (unions spans) = cover spans ∧
      ∀ span : Span T, span.vmin < span.vmax →
        (hasIntersection (unions spans) span = true ↔ ∃ x ∈ points span, x ∈ cover spans) := by
  obtain ⟨hapart, hcover⟩ := unions_spec fun s hs => (h s hs).le
  refine ⟨lt_of_mem_unions h, hapart.ord, hcover, fun span hspan => ?_⟩
  rw [← hcover]
  constructor
  · exact exists_mem_of_hasIntersection hapart (lt_of_mem_unions h) hspan
  · rintro ⟨x, hx, hc⟩
    exact hasIntersection_of_mem hapart hx hc

/-- A span that fills the gap between two others. -/
theorem unions_exact_gap :
    cover (unions [⟨0, 2⟩, ⟨4, 6⟩, ⟨2, 4⟩]) = cover ([⟨0, 2⟩, ⟨4, 6⟩, ⟨2, 4⟩] : List (Span ℕ)) :=
  (unions_exact [⟨0, 2⟩, ⟨4, 6⟩, ⟨2, 4⟩] (by decide)).2.2.1

end MsSanitizer.Spans
