import MsSanitizer.FifoTrace
import Mathlib.Logic.Relation

/-!
# What a graph of waits knows

Operations happen at places. A flag orders what was done at its source before the set before
what is done at its destination after the wait; one place, the root, issues all operations, so
that what is done there comes before everything recorded later.

The graph of some of the waits has an edge from a place to another one it has waited for. An
access at a place takes away the edges to it. When every wait of the graph is fresh, and adds
nothing to what is reachable from places that had their own wait before, every access at a place
that is reachable from `d` happens before all that is recorded at `d` from now on.
-/

namespace MsSanitizer.WaitGraph

open Relation FifoTrace

/-- Operations with their places and flags. -/
structure Ops (α κ π : Type*) where
  place : α → π
  isAccess : α → Bool
  setOf : α → Option κ
  waitOf : α → Option κ
  src : κ → π
  dst : κ → π
  root : π

variable {α κ π : Type*} (o : Ops α κ π)

/-- A set is at the source of its flag and a wait at the destination; an access is neither. -/
structure Ops.InPlace (a : α) : Prop where
  set : ∀ k, o.setOf a = some k → o.place a = o.src k ∧ o.waitOf a = none ∧ o.isAccess a = false
  wait : ∀ k, o.waitOf a = some k → o.place a = o.dst k ∧ o.isAccess a = false

/-! ## Positions -/

lemma getElem?_append_of {tr : List α} {i : ℕ} {a : α} (h : tr[i]? = some a) (l : List α) :
    (tr ++ l)[i]? = some a := by
  rw [List.getElem?_append_left (List.getElem?_eq_some_iff.1 h).1, h]

lemma getElem?_concat_cases {tr : List α} {a b : α} {i : ℕ} (h : (tr ++ [a])[i]? = some b) :
    tr[i]? = some b ∨ (i = tr.length ∧ b = a) := by
  rcases Nat.lt_or_ge i tr.length with hlt | hge
  · rw [List.getElem?_append_left hlt] at h
    exact Or.inl h
  · have hlen := (List.getElem?_eq_some_iff.1 h).1
    rw [List.length_append, List.length_singleton] at hlen
    obtain rfl : i = tr.length := by omega
    rw [List.getElem?_append_right le_rfl, Nat.sub_self] at h
    exact Or.inr ⟨rfl, (Option.some.inj h).symm⟩

lemma getElem?_concat_length (tr : List α) (a : α) : (tr ++ [a])[tr.length]? = some a := by
  rw [List.getElem?_append_right le_rfl, Nat.sub_self]
  rfl

lemma hasKey_concat_cases {f : α → Option κ} {tr : List α} {a : α} {k : κ} {s : ℕ}
    (h : HasKey f (tr ++ [a]) k s) : HasKey f tr k s ∨ (s = tr.length ∧ f a = some k) := by
  obtain ⟨b, hb, hk⟩ := Option.bind_eq_some_iff.1 h
  rcases getElem?_concat_cases hb with hb | ⟨rfl, rfl⟩
  · exact Or.inl (by rw [HasKey, hb]; exact hk)
  · exact Or.inr ⟨rfl, hk⟩

/-! ## The graph -/

/-- An edge: a wait at one of the positions in `U`, with no access at its source since. -/
def Ops.graph (U : ℕ → Prop) (tr : List α) (d r : π) : Prop :=
  ∃ m a k, tr[m]? = some a ∧ o.waitOf a = some k ∧ o.isAccess a = false ∧ U m ∧ d = o.dst k ∧
    r = o.src k ∧ ∀ i b, m < i → tr[i]? = some b → o.isAccess b = true → o.place b ≠ r

/-- An access takes away the edges to its place, a wait adds one. -/
def Ops.graphStep (u : Prop) (g : π → π → Prop) (a : α) : π → π → Prop := fun d r =>
  if o.isAccess a then g d r ∧ r ≠ o.place a
  else g d r ∨ (u ∧ ∃ k, o.waitOf a = some k ∧ d = o.dst k ∧ r = o.src k)

abbrev Ops.Reach (U : ℕ → Prop) (tr : List α) : π → π → Prop := ReflTransGen (o.graph U tr)

variable {o} {U : ℕ → Prop}

lemma old_access {tr : List α} {a b : α} {i : ℕ} (ha : o.isAccess a = false)
    (hb : (tr ++ [a])[i]? = some b) (hacc : o.isAccess b = true) : tr[i]? = some b := by
  rcases getElem?_concat_cases hb with hb | ⟨_, rfl⟩
  · exact hb
  · rw [ha] at hacc
    cases hacc

/-- An edge after one more operation is an old one, or the one of a wait that was added. -/
lemma graph_concat (tr : List α) (a : α) :
    o.graph U (tr ++ [a]) = o.graphStep (U tr.length) (o.graph U tr) a := by
  funext d r
  apply propext
  unfold Ops.graphStep
  constructor
  · rintro ⟨m, b, k, hb, hk, hacc, hm, rfl, rfl, hlast⟩
    have hold : tr[m]? = some b → o.graph U tr (o.dst k) (o.src k) := fun hb =>
      ⟨m, b, k, hb, hk, hacc, hm, rfl, rfl,
        fun i c hi hc => hlast i c hi (getElem?_append_of hc [a])⟩
    rcases getElem?_concat_cases hb with hb | ⟨rfl, rfl⟩
    · split_ifs with ha
      · exact ⟨hold hb, (hlast tr.length a (List.getElem?_eq_some_iff.1 hb).1
          (getElem?_concat_length tr a) ha).symm⟩
      · exact Or.inl (hold hb)
    · rw [if_neg (by simp [hacc])]
      exact Or.inr ⟨hm, k, hk, rfl, rfl⟩
  · intro h
    have hold (hg : o.graph U tr d r) (hne : o.isAccess a = true → r ≠ o.place a) :
        o.graph U (tr ++ [a]) d r := by
      obtain ⟨m, b, k, hb, hk, hacc, hm, hd, hr, hlast⟩ := hg
      refine ⟨m, b, k, getElem?_append_of hb [a], hk, hacc, hm, hd, hr, fun i c hi hc hc' => ?_⟩
      rcases getElem?_concat_cases hc with hc | ⟨_, rfl⟩
      · exact hlast i c hi hc hc'
      · exact (hne hc').symm
    split_ifs at h with ha
    · exact hold h.1 fun _ => h.2
    · rcases h with h | ⟨hm, k, hk, rfl, rfl⟩
      · exact hold h fun hc => absurd hc ha
      · refine ⟨tr.length, a, k, getElem?_concat_length tr a, hk, by simpa using ha, hm, rfl, rfl,
          fun i b hi hb => ?_⟩
        have := (List.getElem?_eq_some_iff.1 hb).1
        rw [List.length_append, List.length_singleton] at this
        omega

lemma reach_access {tr : List α} {a : α} (ha : o.isAccess a = true) {d q : π}
    (h : o.Reach U (tr ++ [a]) d q) : o.Reach U tr d q ∧ (q = o.place a → d = q) := by
  rw [Ops.Reach, graph_concat] at h
  induction h with
  | refl => exact ⟨.refl, fun _ => rfl⟩
  | tail _ hedge ih =>
    rw [Ops.graphStep, if_pos ha] at hedge
    exact ⟨ih.1.tail hedge.1, fun hq => absurd hq hedge.2⟩

/-- A path in the graph with a new edge uses only old ones, or goes on from the new one. -/
lemma reach_wait {tr : List α} {a : α} {k : κ} (ha : o.isAccess a = false)
    (hk : o.waitOf a = some k) {d q : π} (h : o.Reach U (tr ++ [a]) d q) :
    o.Reach U tr d q ∨ (o.Reach U tr d (o.dst k) ∧ o.Reach U tr (o.src k) q) := by
  rw [Ops.Reach, graph_concat] at h
  induction h with
  | refl => exact Or.inl .refl
  | tail _ hedge ih =>
    rw [Ops.graphStep, if_neg (by simp [ha])] at hedge
    rcases hedge with hedge | ⟨-, k', hk', rfl, rfl⟩
    · exact ih.imp (fun h => h.tail hedge) fun h => ⟨h.1, h.2.tail hedge⟩
    · obtain rfl : k = k' := Option.some.inj (hk.symm.trans hk')
      exact Or.inr ⟨ih.elim id fun h => h.1, .refl⟩

/-- Another operation, or a wait that does not count, changes nothing. -/
lemma graph_other {tr : List α} {a : α} (ha : o.isAccess a = false)
    (hk : o.waitOf a = none ∨ ¬ U tr.length) : o.graph U (tr ++ [a]) = o.graph U tr := by
  rw [graph_concat]
  funext d r
  unfold Ops.graphStep
  rw [if_neg (by simp [ha])]
  rcases hk with hk | hk <;> simp [hk]


variable (o)

/-- No access and no wait at a place after a position. -/
def Ops.Quiet (tr : List α) (p : π) (s : ℕ) : Prop :=
  ∀ i a, s < i → tr[i]? = some a → o.place a = p → o.isAccess a = false ∧ o.waitOf a = none

variable {o}

lemma Ops.Quiet.of_concat {tr : List α} {a : α} {p : π} {s : ℕ}
    (h : o.Quiet (tr ++ [a]) p s) : o.Quiet tr p s :=
  fun i b hi hb => h i b hi (getElem?_append_of hb [a])

variable [DecidableEq κ]

/-! ## Happens before -/

variable (o)

/-- Program order at a place, issue order from the root, and matched pairs. -/
def Ops.Direct (tr : List α) (i j : ℕ) : Prop :=
  (i < j ∧ ∃ a b, tr[i]? = some a ∧ tr[j]? = some b ∧
    (o.place a = o.place b ∨ o.place a = o.root)) ∨ Matched o.setOf o.waitOf tr i j

def Ops.HappensBefore (tr : List α) : ℕ → ℕ → Prop := TransGen (o.Direct tr)

/-- What is done at `i` comes before all that is recorded at `d` from now on. -/
def Ops.Known (tr : List α) (d : π) (i : ℕ) : Prop :=
  ∃ z b, tr[z]? = some b ∧ (o.place b = d ∨ o.place b = o.root) ∧
    (i = z ∨ o.HappensBefore tr i z)

variable {o}

lemma direct_append {tr : List α} {i j : ℕ} (h : o.Direct tr i j) (l : List α) :
    o.Direct (tr ++ l) i j := by
  rcases h with ⟨hlt, a, b, ha, hb, hp⟩ | hm
  · exact Or.inl ⟨hlt, a, b, getElem?_append_of ha l, getElem?_append_of hb l, hp⟩
  · exact Or.inr (hm.append l)

lemma happensBefore_append {tr : List α} {i j : ℕ} (h : o.HappensBefore tr i j) (l : List α) :
    o.HappensBefore (tr ++ l) i j :=
  TransGen.mono (fun _ _ h => direct_append h l) _ _ h

lemma Ops.Known.append {tr : List α} {d : π} {i : ℕ} (h : o.Known tr d i) (l : List α) :
    o.Known (tr ++ l) d i := by
  obtain ⟨z, b, hz, hp, hi⟩ := h
  exact ⟨z, b, getElem?_append_of hz l, hp, hi.imp_right fun h => happensBefore_append h l⟩

lemma Ops.Known.of_root {tr : List α} {i : ℕ} (h : o.Known tr o.root i) (d : π) :
    o.Known tr d i := by
  obtain ⟨z, b, hz, hp, hi⟩ := h
  exact ⟨z, b, hz, Or.inr (hp.elim id id), hi⟩

/-- What is known at a place happens before an operation recorded there. -/
lemma Ops.Known.happensBefore {tr : List α} {d : π} {i j : ℕ} {a : α} (h : o.Known tr d i)
    (ha : tr[j]? = some a) (hd : o.place a = d) (hlt : ∀ z b, tr[z]? = some b → z ≤ j)
    (hij : i ≠ j) : o.HappensBefore tr i j := by
  obtain ⟨z, b, hz, hp, hi⟩ := h
  by_cases hzj : z = j
  · subst hzj
    exact hi.resolve_left hij
  · have hdirect : o.Direct tr z j := by
      refine Or.inl ⟨lt_of_le_of_ne (hlt z b hz) hzj, b, a, hz, ha, ?_⟩
      exact hp.imp_left fun h => h.trans hd.symm
    rcases hi with rfl | hi
    · exact TransGen.single hdirect
    · exact TransGen.tail hi hdirect

/-! ## The invariant -/

variable (o) (U)

/-- A wait, of which `tr` is what was recorded before, is fresh: its set is there, and nothing
that matters was recorded at its source since. And it adds nothing to what is reachable from
other places. -/
structure Ops.WaitOk (tr : List α) (a : α) (k : κ) : Prop where
  fresh : o.src k ≠ o.root →
    ∃ s, Matched o.setOf o.waitOf (tr ++ [a]) s tr.length ∧ o.Quiet tr (o.src k) s
  closed : o.dst k ≠ o.root → ∀ d, d ≠ o.dst k → o.Reach U tr d (o.dst k) →
    ∀ q, o.Reach U tr (o.src k) q → o.Reach U tr d q

structure Ops.Inv (tr : List α) : Prop where
  known : ∀ d q, o.Reach U tr d q → ∀ i a, tr[i]? = some a → o.isAccess a = true →
    o.place a = q → o.Known tr d i
  ready : ∀ s k, HasKey o.setOf tr k s → o.src k ≠ o.root → o.Quiet tr (o.src k) s →
    ∀ q, o.Reach U tr (o.src k) q → ∀ i a, tr[i]? = some a → o.isAccess a = true →
      o.place a = q → o.HappensBefore tr i s ∨ o.Known tr o.root i

variable {o} {U}

lemma inv_nil : o.Inv U [] :=
  ⟨fun _ _ _ _ _ h => (by cases h), fun _ _ h => (by cases h)⟩

/-- An access: its place is reachable from itself only. -/
lemma Ops.Inv.access {tr : List α} {a : α} (h : o.Inv U tr) (ha : o.isAccess a = true)
    (hset : o.setOf a = none) : o.Inv U (tr ++ [a]) := by
  refine ⟨?_, ?_⟩
  · intro d q hreach i b hb hacc hq
    obtain ⟨hold, hself⟩ := reach_access ha hreach
    rcases getElem?_concat_cases hb with hb | ⟨rfl, rfl⟩
    · exact (h.known d q hold i b hb hacc hq).append [a]
    · have hd : d = q := hself hq.symm
      exact ⟨tr.length, b, getElem?_concat_length tr b, Or.inl (hq.trans hd.symm), Or.inl rfl⟩
  · intro s k hk hroot hquiet q hreach i b hb hacc hq
    obtain ⟨hold, hself⟩ := reach_access ha hreach
    rcases hasKey_concat_cases hk with hk₁ | ⟨_, hk₁⟩
    · rcases getElem?_concat_cases hb with hb | ⟨rfl, rfl⟩
      · exact (h.ready s k hk₁ hroot hquiet.of_concat q hold i b hb hacc hq).imp
          (fun h => happensBefore_append h [a]) fun h => h.append [a]
      · -- the new access is at the source, which is then not quiet
        have hsrc : o.src k = q := hself hq.symm
        have := (hquiet tr.length b hk₁.lt_length (getElem?_concat_length tr b)
          (hq.trans hsrc.symm)).1
        rw [this] at hacc
        cases hacc
    · rw [hset] at hk₁
      cases hk₁

/-- A set: what is known at its place happens before it. -/
lemma Ops.Inv.set {tr : List α} {a : α} {k : κ} (h : o.Inv U tr) (hk : o.setOf a = some k)
    (hp : o.InPlace a) : o.Inv U (tr ++ [a]) := by
  obtain ⟨hplace, hwait, ha⟩ := hp.set k hk
  have hg : o.graph U (tr ++ [a]) = o.graph U tr := graph_other ha (.inl hwait)
  have hknown : ∀ d q, o.Reach U (tr ++ [a]) d q → ∀ i b, (tr ++ [a])[i]? = some b →
      o.isAccess b = true → o.place b = q → o.Known (tr ++ [a]) d i ∧ i < tr.length := by
    intro d q hreach i b hb hacc hq
    rw [Ops.Reach, hg] at hreach
    rcases getElem?_concat_cases hb with hb | ⟨_, rfl⟩
    · exact ⟨(h.known d q hreach i b hb hacc hq).append [a], (List.getElem?_eq_some_iff.1 hb).1⟩
    · rw [ha] at hacc
      cases hacc
  refine ⟨fun d q hreach i b hb hacc hq => (hknown d q hreach i b hb hacc hq).1, ?_⟩
  intro s k' hk' hroot hquiet q hreach i b hb hacc hq
  obtain ⟨hkn, hi⟩ := hknown _ q hreach i b hb hacc hq
  rcases hasKey_concat_cases hk' with hk₁ | ⟨rfl, hk₁⟩
  · rcases getElem?_concat_cases hb with hb | ⟨rfl, _⟩
    · rw [Ops.Reach, hg] at hreach
      exact (h.ready s k' hk₁ hroot hquiet.of_concat q hreach i b hb hacc hq).imp
        (fun h => happensBefore_append h [a]) fun h => h.append [a]
    · omega
  · obtain rfl : k = k' := Option.some.inj (hk.symm.trans hk₁)
    refine Or.inl (hkn.happensBefore (getElem?_concat_length tr a) hplace ?_ (by omega))
    intro z c hz
    have := (List.getElem?_eq_some_iff.1 hz).1
    rw [List.length_append, List.length_singleton] at this
    omega

/-- A fresh wait: its place knows what is reachable from its source. -/
lemma Ops.Inv.known_at_wait {tr : List α} {a : α} {k : κ} (h : o.Inv U tr)
    (hk : o.waitOf a = some k) (hp : o.InPlace a) (hok : o.WaitOk U tr a k) {q : π}
    (hreach : o.Reach U tr (o.src k) q) {i : ℕ} {b : α} (hb : tr[i]? = some b)
    (hacc : o.isAccess b = true) (hq : o.place b = q) : o.Known (tr ++ [a]) (o.dst k) i := by
  by_cases hroot : o.src k = o.root
  · rw [hroot] at hreach
    exact ((h.known _ q hreach i b hb hacc hq).append [a]).of_root _
  · obtain ⟨s, hm, hquiet⟩ := hok.fresh hroot
    obtain ⟨k', hs, hw, hn⟩ := hm
    have hget := getElem?_concat_length tr a
    have hkk : o.waitOf a = some k' := by
      rw [HasKey, hget] at hw
      exact hw
    obtain rfl : k = k' := Option.some.inj (hk.symm.trans hkk)
    rcases hasKey_concat_cases hs with hs₁ | ⟨_, hset⟩
    · rcases h.ready s k hs₁ hroot hquiet q hreach i b hb hacc hq with hhb | hknown
      · refine ⟨tr.length, a, hget, Or.inl (hp.wait k hk).1, Or.inr ?_⟩
        exact (happensBefore_append hhb [a]).tail (Or.inr ⟨k, hs, hw, hn⟩)
      · exact (hknown.append [a]).of_root _
    · rw [(hp.set k hset).2.1] at hk
      cases hk

lemma Ops.Inv.wait {tr : List α} {a : α} {k : κ} (h : o.Inv U tr) (hk : o.waitOf a = some k)
    (hp : o.InPlace a) (hok : o.WaitOk U tr a k) : o.Inv U (tr ++ [a]) := by
  have ha := (hp.wait k hk).2
  refine ⟨?_, ?_⟩
  · intro d q hreach i b hb hacc hq
    have hb' := old_access ha hb hacc
    rcases reach_wait ha hk hreach with hreach | ⟨hd, hreach⟩
    · exact (h.known d q hreach i b hb' hacc hq).append [a]
    · have hx := h.known_at_wait hk hp hok hreach hb' hacc hq
      by_cases hdx : d = o.dst k
      · rw [hdx]
        exact hx
      · by_cases hroot : o.dst k = o.root
        · rw [hroot] at hx
          exact hx.of_root d
        · exact (h.known d q (hok.closed hroot d hdx hd q hreach) i b hb' hacc hq).append [a]
  · intro s k' hk' hroot' hquiet q hreach i b hb hacc hq
    have hb' := old_access ha hb hacc
    have hs : HasKey o.setOf tr k' s := by
      rcases hasKey_concat_cases hk' with hs | ⟨_, hset⟩
      · exact hs
      · rw [(hp.set k' hset).2.1] at hk
        cases hk
    -- the source of the set is quiet, so this wait is somewhere else
    have hne : o.src k' ≠ o.dst k := by
      intro heq
      have := (hquiet tr.length a hs.lt_length (getElem?_concat_length tr a)
        ((hp.wait k hk).1.trans heq.symm)).2
      rw [hk] at this
      cases this
    have hready : o.Reach U tr (o.src k') q →
        o.HappensBefore (tr ++ [a]) i s ∨ o.Known (tr ++ [a]) o.root i := fun hreach =>
      (h.ready s k' hs hroot' hquiet.of_concat q hreach i b hb' hacc hq).imp
        (fun h => happensBefore_append h [a]) fun h => h.append [a]
    rcases reach_wait ha hk hreach with hreach | ⟨hd, hreach⟩
    · exact hready hreach
    · by_cases hroot : o.dst k = o.root
      · have hx := h.known_at_wait hk hp hok hreach hb' hacc hq
        rw [hroot] at hx
        exact Or.inr hx
      · exact hready (hok.closed hroot _ hne hd q hreach)

/-- Anything else keeps the invariant, and so does a wait that does not count. -/
lemma Ops.Inv.other {tr : List α} {a : α} (h : o.Inv U tr) (ha : o.isAccess a = false)
    (hs : o.setOf a = none) (hw : o.waitOf a = none ∨ ¬ U tr.length) :
    o.Inv U (tr ++ [a]) := by
  have hg : o.graph U (tr ++ [a]) = o.graph U tr := graph_other ha hw
  refine ⟨?_, ?_⟩
  · intro d q hreach i b hb hacc hq
    rw [Ops.Reach, hg] at hreach
    exact (h.known d q hreach i b (old_access ha hb hacc) hacc hq).append [a]
  · intro s k hk hroot hquiet q hreach i b hb hacc hq
    rw [Ops.Reach, hg] at hreach
    rcases hasKey_concat_cases hk with hk₁ | ⟨_, hk₁⟩
    · exact (h.ready s k hk₁ hroot hquiet.of_concat q hreach i b (old_access ha hb hacc) hacc
        hq).imp (fun h => happensBefore_append h [a]) fun h => h.append [a]
    · rw [hs] at hk₁
      cases hk₁

/-- **The graph of waits is honest.** Along a trace whose waits in `U` are fresh and add nothing to
other places, the invariant holds. -/
theorem inv_of_waits {tr : List α} (hp : ∀ a ∈ tr, o.InPlace a)
    (hok : ∀ n a k, U n → tr[n]? = some a → o.waitOf a = some k → o.WaitOk U (tr.take n) a k) :
    o.Inv U tr := by
  induction tr using List.reverseRecOn with
  | nil => exact inv_nil
  | append_singleton tr a ih =>
    have hpa := hp a (by simp)
    have hinv : o.Inv U tr := by
      refine ih (fun b hb => hp b (List.mem_append_left _ hb)) ?_
      intro n b k hn hb hk
      have hlt := (List.getElem?_eq_some_iff.1 hb).1
      have := hok n b k hn (getElem?_append_of hb [a]) hk
      rwa [List.take_append_of_le_length hlt.le] at this
    cases hw : o.waitOf a with
    | some k =>
      by_cases hn : U tr.length
      · have := hok tr.length a k hn (getElem?_concat_length tr a) hw
        rw [List.take_left] at this
        exact hinv.wait hw hpa this
      · have hset : o.setOf a = none := by
          by_contra hc
          obtain ⟨k', hk'⟩ := Option.ne_none_iff_exists'.1 hc
          rw [(hpa.set k' hk').2.1] at hw
          cases hw
        exact hinv.other (hpa.wait k hw).2 hset (.inr hn)
    | none =>
      cases hs : o.setOf a with
      | some k => exact hinv.set hs hpa
      | none =>
        cases ha : o.isAccess a with
        | true => exact hinv.access ha hs
        | false => exact hinv.other ha hs (.inl hw)

end MsSanitizer.WaitGraph
