import MsSanitizer.Compaction
import MsSanitizer.Spans

/-!
# Runs of spans

Spans in the order of their starts are joined with the span before them when they touch it. The
runs that are left cover the same points and stand apart from each other. Where a run starts can be
told from the spans: at a span that no span before it reaches. So the place of the run with a point
is the number of these starts up to the point.
-/

namespace MsSanitizer.Spans

variable {T : Type*} [LinearOrder T]

/-- The second span starts inside the first or at its end. -/
def touches (a x : Span T) : Bool := decide (x.vmin ≤ a.vmax)

def join (a x : Span T) : Span T := ⟨a.vmin, max a.vmax x.vmax⟩

def runs (l : List (Span T)) : List (Span T) := l.foldl (Compaction.push touches join) []

def starts (l : List (Span T)) : Finset T :=
  (l.map Span.vmin).toFinset.filter fun a => ∀ s ∈ l, s.vmin < a → s.vmax < a

def place (l : List (Span T)) (x : T) : ℕ := ((starts l).filter (· ≤ x)).card - 1

variable {l : List (Span T)} {s t : Span T} {a x : T}

lemma mem_starts : a ∈ starts l ↔ (∃ s ∈ l, s.vmin = a) ∧ ∀ s ∈ l, s.vmin < a → s.vmax < a := by
  rw [starts, Finset.mem_filter, List.mem_toFinset, List.mem_map]

lemma runs_concat (l : List (Span T)) (x : Span T) :
    runs (l ++ [x]) = Compaction.push touches join (runs l) x := by
  rw [runs, List.foldl_append]
  rfl

/-- The order of the spans does not matter for where runs start. -/
lemma place_perm {l' : List (Span T)} (h : l.Perm l') (x : T) : place l x = place l' x := by
  have hstarts : starts l = starts l' := by
    ext a
    rw [mem_starts, mem_starts]
    exact and_congr (exists_congr fun s => and_congr_left' h.mem_iff)
      (forall_congr' fun s => imp_congr_left h.mem_iff)
  rw [place, place, hstarts]

lemma cover_perm {l' : List (Span T)} (h : l.Perm l') : cover l = cover l' := by
  ext x
  exact exists_congr fun s => and_congr_left' h.mem_iff

lemma foldl_max_le_iff {m : List T} {a b : T} : m.foldl max a ≤ b ↔ a ≤ b ∧ ∀ x ∈ m, x ≤ b := by
  induction m generalizing a with
  | nil => simp
  | cons x m ih => rw [List.foldl_cons, ih, max_le_iff, List.forall_mem_cons, and_assoc]

/-- What the runs are for the spans. -/
structure IsRuns (l b : List (Span T)) : Prop where
  apart : Apart b
  cover_eq : cover b = cover l
  start_iff : ∀ a, a ∈ starts l ↔ ∃ s ∈ b, s.vmin = a
  within : ∀ s ∈ l, ∃ t ∈ b, t.vmin ≤ s.vmin ∧ s.vmax ≤ t.vmax
  last : ∀ t, b.getLast? = some t → (∃ s ∈ l, s.vmax = t.vmax) ∧ ∀ s ∈ l, s.vmax ≤ t.vmax
  nil : b = [] → l = []

/-- A span that starts above those before it starts a run unless one of them reaches it. -/
lemma mem_starts_concat (hle : ∀ t ∈ l, t.vmin ≤ s.vmin) : a ∈ starts (l ++ [s]) ↔
    a ∈ starts l ∨ s.vmin = a ∧ ∀ t ∈ l, t.vmin < a → t.vmax < a := by
  have hs : ∀ u ∈ l ++ [s], u.vmin = a → s.vmin < a → s.vmax < a := by
    rintro u hu rfl hlt
    rcases List.mem_append.mp hu with hu | hu
    · exact absurd hlt (not_lt.mpr (hle u hu))
    · rw [List.mem_singleton.mp hu] at hlt
      exact absurd hlt (lt_irrefl _)
  rw [mem_starts, mem_starts, ← or_and_right]
  constructor
  · rintro ⟨⟨u, hu, hua⟩, hreach⟩
    refine ⟨?_, fun w hw => hreach w (List.mem_append_left _ hw)⟩
    rcases List.mem_append.mp hu with hu | hu
    · exact .inl ⟨u, hu, hua⟩
    · rw [List.mem_singleton.mp hu] at hua
      exact .inr hua
  · rintro ⟨hstart, hreach⟩
    obtain ⟨u, hu, hua⟩ : ∃ u ∈ l ++ [s], u.vmin = a := by
      rcases hstart with ⟨u, hu, hua⟩ | hsa
      · exact ⟨u, List.mem_append_left _ hu, hua⟩
      · exact ⟨s, List.mem_append_right _ List.mem_cons_self, hsa⟩
    refine ⟨⟨u, hu, hua⟩, fun w hw => ?_⟩
    rcases List.mem_append.mp hw with hw | hw
    · exact hreach w hw
    · rw [List.mem_singleton.mp hw]
      exact hs u hu hua

lemma greatest_concat {v : T} (h : (∃ u ∈ l, u.vmax = v) ∧ ∀ u ∈ l, u.vmax ≤ v)
    (s : Span T) : (∃ u ∈ l ++ [s], u.vmax = max v s.vmax) ∧
      ∀ u ∈ l ++ [s], u.vmax ≤ max v s.vmax := by
  obtain ⟨⟨m, hm, hmax⟩, hle⟩ := h
  constructor
  · rcases le_total v s.vmax with hvs | hvs
    · exact ⟨s, List.mem_append_right _ List.mem_cons_self, (max_eq_right hvs).symm⟩
    · exact ⟨m, List.mem_append_left _ hm, hmax.trans (max_eq_left hvs).symm⟩
  · intro u hu
    rcases List.mem_append.mp hu with hu | hu
    · exact (hle u hu).trans (le_max_left _ _)
    · rw [List.mem_singleton.mp hu]
      exact le_max_right _ _

lemma isRuns_singleton (hx : s.vmin ≤ s.vmax) : IsRuns [s] [s] where
  apart := apart_cons.mpr ⟨hx, fun _ h => (by cases h), apart_nil⟩
  cover_eq := rfl
  start_iff a := by
    rw [← List.nil_append [s], mem_starts_concat fun _ h => (by cases h)]
    simp [starts]
  within u hu := ⟨u, hu, le_rfl, le_rfl⟩
  last t ht := by
    obtain rfl : s = t := by simpa using ht
    exact ⟨⟨s, List.mem_cons_self, rfl⟩, fun u hu => by rw [List.mem_singleton.mp hu]⟩
  nil hc := absurd hc (List.cons_ne_nil _ _)

lemma IsRuns.push_join {b : List (Span T)} (h : IsRuns l (b ++ [t])) (hts : t.vmin ≤ s.vmin)
    (hle : ∀ u ∈ l, u.vmin ≤ s.vmin) (htouch : s.vmin ≤ t.vmax) :
    IsRuns (l ++ [s]) (b ++ [join t s]) where
  apart := by
    obtain ⟨hb, -, hbt⟩ := apart_append.mp h.apart
    refine apart_append.mpr ⟨hb, apart_cons.mpr ⟨?_, fun _ h => (by cases h), apart_nil⟩, ?_⟩
    · exact (hts.trans htouch).trans (le_max_left _ _)
    · intro u hu w hw
      rw [List.mem_singleton.mp hw]
      exact hbt u hu t List.mem_cons_self
  cover_eq := by
    have hcover := h.cover_eq
    rw [cover_append, cover_cons, cover_nil, Set.union_empty] at hcover
    rw [cover_append, cover_append, cover_cons, cover_cons, cover_nil, Set.union_empty,
      Set.union_empty, join, points_max hts htouch, ← Set.union_assoc, hcover]
  start_iff a := by
    have hold : (∃ u ∈ b ++ [join t s], u.vmin = a) ↔ ∃ u ∈ b ++ [t], u.vmin = a := by
      simp [join]
    rw [hold, ← h.start_iff a, mem_starts_concat hle, or_iff_left_iff_imp]
    -- the span starts no run, unless the one before it that ends last starts there too
    rintro ⟨rfl, hreach⟩
    obtain ⟨⟨m, hm, hmax⟩, -⟩ := h.last t List.getLast?_concat
    refine mem_starts.mpr ⟨⟨m, hm, ?_⟩, hreach⟩
    by_contra hne
    have hlt := hreach m hm (lt_of_le_of_ne (hle m hm) hne)
    rw [hmax] at hlt
    exact absurd htouch (not_le.mpr hlt)
  within u hu := by
    rcases List.mem_append.mp hu with hu | hu
    · obtain ⟨w, hw, hwu, huw⟩ := h.within u hu
      rcases List.mem_append.mp hw with hw | hw
      · exact ⟨w, List.mem_append_left _ hw, hwu, huw⟩
      · rw [List.mem_singleton.mp hw] at hwu huw
        exact ⟨join t s, List.mem_append_right _ List.mem_cons_self, hwu,
          huw.trans (le_max_left _ _)⟩
    · rw [List.mem_singleton.mp hu]
      exact ⟨join t s, List.mem_append_right _ List.mem_cons_self, hts, le_max_right _ _⟩
  last w hw := by
    obtain rfl : join t s = w := by simpa using hw
    exact greatest_concat (h.last t List.getLast?_concat) s
  nil hc := by simp at hc

lemma IsRuns.push_apart {b : List (Span T)} (h : IsRuns l (b ++ [t])) (hx : s.vmin ≤ s.vmax)
    (hts : t.vmin ≤ s.vmin) (hle : ∀ u ∈ l, u.vmin ≤ s.vmin) (hlt : t.vmax < s.vmin) :
    IsRuns (l ++ [s]) (b ++ [t] ++ [s]) where
  apart := by
    obtain ⟨-, -, hbt⟩ := apart_append.mp h.apart
    refine apart_append.mpr ⟨h.apart, apart_cons.mpr ⟨hx, fun _ h => (by cases h), apart_nil⟩, ?_⟩
    intro u hu w hw
    rw [List.mem_singleton.mp hw]
    rcases List.mem_append.mp hu with hu | hu
    · have hut := hbt u hu t List.mem_cons_self
      exact hut.trans_le hts
    · rw [List.mem_singleton.mp hu]
      exact hlt
  cover_eq := by rw [cover_append, h.cover_eq, cover_append]
  start_iff a := by
    have hnew : (∃ u ∈ b ++ [t] ++ [s], u.vmin = a) ↔
        (∃ u ∈ b ++ [t], u.vmin = a) ∨ s.vmin = a := by
      simp only [List.mem_append, or_and_right, exists_or, List.mem_singleton, exists_eq_left]
    rw [hnew, ← h.start_iff a, mem_starts_concat hle]
    refine or_congr_right (and_iff_left_of_imp ?_)
    rintro rfl u hu -
    exact ((h.last t List.getLast?_concat).2 u hu).trans_lt hlt
  within u hu := by
    rcases List.mem_append.mp hu with hu | hu
    · obtain ⟨w, hw, hwu⟩ := h.within u hu
      exact ⟨w, List.mem_append_left _ hw, hwu⟩
    · exact ⟨u, List.mem_append_right _ hu, le_rfl, le_rfl⟩
  last w hw := by
    obtain rfl : s = w := by simpa using hw
    have hgreatest := greatest_concat (h.last t List.getLast?_concat) s
    rw [max_eq_right (hlt.le.trans hx)] at hgreatest
    exact hgreatest
  nil hc := by simp at hc

lemma IsRuns.push {b : List (Span T)} (h : IsRuns l b) (hx : s.vmin ≤ s.vmax)
    (hle : ∀ t ∈ l, t.vmin ≤ s.vmin) : IsRuns (l ++ [s]) (Compaction.push touches join b s) := by
  rcases b.eq_nil_or_concat' with rfl | ⟨b, t, rfl⟩
  · obtain rfl := h.nil rfl
    exact isRuns_singleton hx
  · have hts : t.vmin ≤ s.vmin := by
      obtain ⟨u, hu, hut⟩ := (mem_starts.mp ((h.start_iff t.vmin).mpr ⟨t, by simp, rfl⟩)).1
      rw [← hut]
      exact hle u hu
    by_cases htouch : s.vmin ≤ t.vmax
    · rw [Compaction.push_concat_of_joins _ (decide_eq_true htouch)]
      exact h.push_join hts hle htouch
    · rw [Compaction.push_concat_of_not _ (decide_eq_false htouch)]
      exact h.push_apart hx hts hle (not_le.mp htouch)

/-- **The runs of spans in order.** -/
theorem isRuns_runs (hwf : ∀ s ∈ l, s.vmin ≤ s.vmax)
    (hs : l.Pairwise fun s t => s.vmin ≤ t.vmin) : IsRuns l (runs l) := by
  induction l using List.reverseRecOn with
  | nil => exact ⟨apart_nil, rfl, fun a => by simp [mem_starts, runs], fun _ h => (by cases h),
      fun _ h => (by cases h), fun _ => rfl⟩
  | append_singleton l s ih =>
    obtain ⟨hl, -, hls⟩ := List.pairwise_append.mp hs
    have hwf' := fun t ht => hwf t (List.mem_append_left _ ht)
    rw [runs_concat]
    exact (ih hwf' hl).push (hwf s (List.mem_append_right _ List.mem_cons_self))
      fun t ht => hls t ht s List.mem_cons_self

/-- Spans that start below the end of the last run only make it longer. -/
lemma foldl_push_low {m : List (Span T)} (b : List (Span T)) (h : ∀ s ∈ m, s.vmin ≤ t.vmax) :
    m.foldl (Compaction.push touches join) (b ++ [t]) =
      b ++ [⟨t.vmin, (m.map Span.vmax).foldl max t.vmax⟩] := by
  induction m generalizing t with
  | nil => rfl
  | cons s m ih =>
    rw [List.foldl_cons, Compaction.push_concat_of_joins _
      (decide_eq_true (h s List.mem_cons_self))]
    exact ih fun u hu => (h u (List.mem_cons_of_mem _ hu)).trans (le_max_left _ _)

lemma IsRuns.place_eq {before after : List (Span T)} (h : IsRuns l (before ++ t :: after))
    (hx : x ∈ points t) : place l x = before.length := by
  obtain ⟨hbefore, ht, hbt⟩ := apart_append.mp h.apart
  obtain ⟨-, hta, -⟩ := apart_cons.mp ht
  have hstarts : (starts l).filter (· ≤ x) = ((before ++ [t]).map Span.vmin).toFinset := by
    ext a
    rw [Finset.mem_filter, h.start_iff, List.mem_toFinset, List.mem_map]
    constructor
    · rintro ⟨⟨u, hu, rfl⟩, hle⟩
      refine ⟨u, ?_, rfl⟩
      rw [← List.singleton_append, ← List.append_assoc] at hu
      refine (List.mem_append.mp hu).resolve_right fun hu => ?_
      exact absurd (hx.2.trans (hta u hu)) (not_lt.mpr hle)
    · rintro ⟨u, hu, rfl⟩
      rcases List.mem_append.mp hu with hu | hu
      · refine ⟨⟨u, List.mem_append_left _ hu, rfl⟩, ?_⟩
        have hlt := hbt u hu t List.mem_cons_self
        exact (hbefore.wf u hu).trans (hlt.le.trans hx.1)
      · rw [List.mem_singleton.mp hu]
        exact ⟨⟨t, by simp, rfl⟩, hx.1⟩
  have hnodup : ((before ++ [t]).map Span.vmin).Nodup := by
    have happart : Apart (before ++ [t]) := by
      rw [← List.singleton_append, ← List.append_assoc] at h
      exact (apart_append.mp h.apart).1
    rw [List.Nodup, List.pairwise_map]
    refine List.Pairwise.imp_of_mem (fun {u w} hu _ huw => ?_) happart.ord
    exact ((happart.wf u hu).trans_lt huw).ne
  rw [place, hstarts, List.toFinset_card_of_nodup hnodup, List.length_map, List.length_append,
    List.length_singleton, Nat.add_sub_cancel]

end MsSanitizer.Spans
