import Mathlib.Tactic

/-!
# Runs with a bounded counter

Cells with increasing positions arrive one by one. A cell that continues the last run, with the
same value at the next position, is counted to it; any other cell begins a run. The counter of a
run is kept modulo `N`. As long as no run is as long as `N`, the runs say exactly which cells
arrived; the first run that is, loses all its cells, and they never come back.
-/

namespace MsSanitizer.BoundedRuns

variable {α : Type*}

structure Run (α : Type*) where
  start : ℕ
  val : α
  len : ℕ
  deriving DecidableEq, Repr

def Run.cells (r : Run α) : List (ℕ × α) := (List.range r.len).map fun i => (r.start + i, r.val)

/-- The cells of a list of runs, the last run first. -/
def expand : List (Run α) → List (ℕ × α)
  | [] => []
  | r :: rs => expand rs ++ r.cells

section push
variable [DecidableEq α] (N : ℕ)

def push (rs : List (Run α)) (e : ℕ × α) : List (Run α) :=
  match rs with
  | [] => [⟨e.1, e.2, 1⟩]
  | r :: rs =>
    if r.val = e.2 ∧ r.start + r.len = e.1 then { r with len := (r.len + 1) % N } :: rs
    else ⟨e.1, e.2, 1⟩ :: r :: rs

def pushAll (es : List (ℕ × α)) : List (Run α) := es.foldl (push N) []

end push

/-- `N` cells in a row with one value. -/
def Window (N : ℕ) (es : List (ℕ × α)) : Prop := ∃ a v, ∀ j < N, (a + j, v) ∈ es

/-- The runs stand for the cells, the counter of the last one has not run over, and no cell
before it could have been counted to it. -/
structure Lossless (N : ℕ) (es : List (ℕ × α)) (rs : List (Run α)) : Prop where
  cells : expand rs = es
  last : ∀ r rest, rs = r :: rest →
    1 ≤ r.len ∧ r.len < N ∧ ∀ f ∈ expand rest, ¬ (f.2 = r.val ∧ f.1 + 1 = r.start)

lemma length_cells (r : Run α) : r.cells.length = r.len := by simp [Run.cells]

lemma mem_cells {r : Run α} {e : ℕ × α} :
    e ∈ r.cells ↔ e.2 = r.val ∧ r.start ≤ e.1 ∧ e.1 < r.start + r.len := by
  rcases e with ⟨a, v⟩
  simp only [Run.cells, List.mem_map, List.mem_range, Prod.mk.injEq]
  constructor
  · rintro ⟨i, hi, rfl, rfl⟩
    exact ⟨rfl, by omega, by omega⟩
  · rintro ⟨rfl, h1, h2⟩
    exact ⟨a - r.start, by omega, by omega, rfl⟩

/-- One more in the counter is one more cell at the end. -/
lemma cells_succ (r : Run α) :
    ({ r with len := r.len + 1 } : Run α).cells = r.cells ++ [(r.start + r.len, r.val)] := by
  simp [Run.cells, List.range_succ]

def Sorted (es : List (ℕ × α)) : Prop := es.Pairwise fun x y => x.1 < y.1

lemma Sorted.concat {es : List (ℕ × α)} {e : ℕ × α} (h : Sorted (es ++ [e])) :
    Sorted es ∧ ∀ f ∈ es, f.1 < e.1 := by
  obtain ⟨h1, -, h2⟩ := List.pairwise_append.1 h
  exact ⟨h1, fun f hf => h2 f hf e (List.mem_singleton_self e)⟩

variable {N : ℕ}

lemma Lossless.last_cell {es : List (ℕ × α)} {r : Run α} {rest : List (Run α)}
    (h : Lossless N es (r :: rest)) : (r.start + r.len - 1, r.val) ∈ r.cells := by
  obtain ⟨h1, -, -⟩ := h.last r rest rfl
  exact mem_cells.2 ⟨rfl, by dsimp only; omega, by dsimp only; omega⟩

/-- The cell before a new one is the last cell of the last run. -/
lemma Lossless.eq_last {es : List (ℕ × α)} {e f : ℕ × α} {r : Run α} {rest : List (Run α)}
    (h : Lossless N es (r :: rest)) (hs : Sorted (es ++ [e])) (hf : f ∈ es)
    (hnext : f.1 + 1 = e.1) : f.2 = r.val ∧ r.start + r.len = e.1 := by
  obtain ⟨hes, hlt⟩ := hs.concat
  have hcells := h.cells
  simp only [expand] at hcells
  have hlast := h.last_cell
  have hle : r.start + r.len - 1 < e.1 :=
    hlt _ (hcells ▸ List.mem_append_right _ hlast)
  rw [← hcells] at hf
  rcases List.mem_append.1 hf with hf | hf
  · rw [← hcells] at hes
    have := (List.pairwise_append.1 hes).2.2 f hf _ hlast
    dsimp only at this
    omega
  · obtain ⟨hv, _, h2⟩ := mem_cells.1 hf
    exact ⟨hv, by omega⟩

section
variable [DecidableEq α]

lemma push_extend {r : Run α} {e : ℕ × α} (rs : List (Run α))
    (h : r.val = e.2 ∧ r.start + r.len = e.1) :
    push N (r :: rs) e = { r with len := (r.len + 1) % N } :: rs := if_pos h

lemma push_begin {r : Run α} {e : ℕ × α} (rs : List (Run α))
    (h : ¬ (r.val = e.2 ∧ r.start + r.len = e.1)) :
    push N (r :: rs) e = ⟨e.1, e.2, 1⟩ :: r :: rs := if_neg h

lemma length_push_le (rs : List (Run α)) (e : ℕ × α) :
    (expand (push N rs e)).length ≤ (expand rs).length + 1 := by
  cases rs with
  | nil => simp [push, expand, length_cells]
  | cons r rs =>
    by_cases h : r.val = e.2 ∧ r.start + r.len = e.1
    · rw [push_extend rs h]
      simp only [expand, List.length_append, length_cells]
      have := Nat.mod_le (r.len + 1) N
      omega
    · rw [push_begin rs h]
      simp only [expand, List.length_append, length_cells]
      omega

lemma pushAll_concat (es : List (ℕ × α)) (e : ℕ × α) :
    pushAll N (es ++ [e]) = push N (pushAll N es) e := by
  unfold pushAll
  rw [List.foldl_append]
  rfl

lemma Lossless.push {es : List (ℕ × α)} {rs : List (Run α)} {e : ℕ × α} (hN : 1 < N)
    (h : Lossless N es rs) (hs : Sorted (es ++ [e]))
    (hroom : ∀ r rest, rs = r :: rest → r.val = e.2 ∧ r.start + r.len = e.1 → r.len + 1 < N) :
    Lossless N (es ++ [e]) (push N rs e) := by
  cases rs with
  | nil =>
    have hes : es = [] := h.cells.symm
    subst hes
    refine ⟨by simp [BoundedRuns.push, expand, Run.cells], fun r rest hr => ?_⟩
    cases hr
    exact ⟨le_rfl, hN, fun f hf => by cases hf⟩
  | cons r rest =>
    have hcells := h.cells
    obtain ⟨h1, h2, h3⟩ := h.last r rest rfl
    by_cases hext : r.val = e.2 ∧ r.start + r.len = e.1
    · rw [push_extend rest hext, Nat.mod_eq_of_lt (hroom r rest rfl hext)]
      refine ⟨?_, fun r' rest' hr => ?_⟩
      · simp only [expand] at hcells ⊢
        rw [cells_succ, ← List.append_assoc, hcells, hext.1, hext.2]
      · cases hr
        exact ⟨by dsimp only; omega, hroom r rest rfl hext, h3⟩
    · rw [push_begin rest hext]
      refine ⟨?_, fun r' rest' hr => ?_⟩
      · rw [expand, hcells]
        simp [Run.cells]
      · cases hr
        refine ⟨le_rfl, hN, fun f hf hbad => hext ?_⟩
        rw [hcells] at hf
        obtain ⟨hv, hpos⟩ := h.eq_last hs hf hbad.2
        exact ⟨hv.symm.trans hbad.1, hpos⟩

/-- A cell that makes the counter run over loses the whole run. -/
lemma Lossless.push_loses {es : List (ℕ × α)} {e : ℕ × α} {r : Run α} {rest : List (Run α)}
    (h : Lossless N es (r :: rest)) (hext : r.val = e.2 ∧ r.start + r.len = e.1)
    (hfull : r.len + 1 = N) :
    (expand (BoundedRuns.push N (r :: rest) e)).length < (es ++ [e]).length := by
  have hcells := h.cells
  rw [push_extend rest hext, hfull, Nat.mod_self]
  rw [← hcells]
  simp only [expand, List.length_append, length_cells, List.length_singleton]
  omega

/-- A new window ends with the new cell, and the last run is one cell short of it. -/
lemma Lossless.window_concat {es : List (ℕ × α)} {rs : List (Run α)} {e : ℕ × α} (hN : 1 < N)
    (h : Lossless N es rs) (hs : Sorted (es ++ [e])) (hno : ¬ Window N es) :
    Window N (es ++ [e]) ↔
      ∃ r rest, rs = r :: rest ∧ (r.val = e.2 ∧ r.start + r.len = e.1) ∧ r.len + 1 = N := by
  obtain ⟨hes, hlt⟩ := hs.concat
  constructor
  · rintro ⟨a, v, hw⟩
    -- all cells of the window but the last have arrived before
    have hin : ∀ j < N, (a + j, v) ∈ es ∨ (a + j, v) = e := by
      intro j hj
      simpa using hw j hj
    have hlast : (a + (N - 1), v) = e := by
      by_contra hne
      refine hno ⟨a, v, fun j hj => ?_⟩
      rcases hin j hj with hmem | he
      · exact hmem
      · exfalso
        rcases hin (N - 1) (by omega) with hmem | he'
        · have := hlt _ hmem
          rw [← he] at this
          dsimp only at this
          omega
        · exact hne he'
    have hbefore : ∀ j < N - 1, (a + j, v) ∈ es := by
      intro j hj
      rcases hin j (by omega) with hmem | he
      · exact hmem
      · have := congrArg Prod.fst (he.trans hlast.symm)
        dsimp only at this
        omega
    have hprev := hbefore (N - 2) (by omega)
    rcases rs with _ | ⟨r, rest⟩
    · have hnil : es = [] := h.cells.symm
      rw [hnil] at hprev
      cases hprev
    have he1 : e.1 = a + (N - 1) := by rw [← hlast]
    have he2 : e.2 = v := by rw [← hlast]
    obtain ⟨hv, hpos⟩ := h.eq_last hs hprev (by dsimp only; omega)
    dsimp only at hv
    refine ⟨r, rest, rfl, ⟨hv.symm.trans he2.symm, hpos⟩, ?_⟩
    obtain ⟨h1, h2, h3⟩ := h.last r rest rfl
    by_contra hshort
    -- the cell before the last run would have been counted to it
    have hmem := hbefore (N - 2 - r.len) (by omega)
    rw [← h.cells, expand] at hmem
    rcases List.mem_append.1 hmem with hmem | hmem
    · exact h3 _ hmem ⟨hv, by dsimp only; omega⟩
    · have := (mem_cells.1 hmem).2.1
      dsimp only at this
      omega
  · rintro ⟨r, rest, rfl, ⟨hv, hpos⟩, hfull⟩
    refine ⟨r.start, r.val, fun j hj => ?_⟩
    by_cases hj' : j = r.len
    · refine List.mem_append_right _ (List.mem_singleton.2 ?_)
      rw [hj', hpos, hv]
    · refine List.mem_append_left _ ?_
      rw [← h.cells]
      exact List.mem_append_right _
        (mem_cells.2 ⟨rfl, by dsimp only; omega, by dsimp only; omega⟩)

/-- **The runs of a list of cells.** Without a window nothing is lost; with one, cells are. -/
lemma pushAll_spec (hN : 1 < N) {es : List (ℕ × α)} (hs : Sorted es) :
    (¬ Window N es → Lossless N es (pushAll N es)) ∧
      (Window N es → (expand (pushAll N es)).length < es.length) := by
  induction es using List.reverseRecOn with
  | nil =>
    refine ⟨fun _ => ⟨rfl, fun r rest h => by cases h⟩, fun hw => ?_⟩
    obtain ⟨a, v, hw⟩ := hw
    exact absurd (hw 0 (by omega)) List.not_mem_nil
  | append_singleton es e ih =>
    obtain ⟨ih1, ih2⟩ := ih hs.concat.1
    rw [pushAll_concat]
    by_cases hold : Window N es
    · -- what is lost stays lost
      have hlost := ih2 hold
      have hnew : Window N (es ++ [e]) := by
        obtain ⟨a, v, hw⟩ := hold
        exact ⟨a, v, fun j hj => List.mem_append_left _ (hw j hj)⟩
      refine ⟨fun hno => absurd hnew hno, fun _ => ?_⟩
      have := length_push_le (N := N) (pushAll N es) e
      rw [List.length_append, List.length_singleton]
      omega
    · have hl := ih1 hold
      have hiff := hl.window_concat hN hs hold
      constructor
      · intro hno
        refine hl.push hN hs fun r rest hr hext => ?_
        have h2 := (hl.last r rest hr).2.1
        by_contra hge
        exact hno (hiff.2 ⟨r, rest, hr, hext, by omega⟩)
      · intro hw
        obtain ⟨r, rest, hr, hext, hfull⟩ := hiff.1 hw
        rw [hr] at hl ⊢
        exact hl.push_loses hext hfull

end

end MsSanitizer.BoundedRuns
