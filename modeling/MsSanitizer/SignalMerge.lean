import MsSanitizer.SyncDatabases
import Mathlib.Data.Prod.Lex
import Mathlib.Order.WithBot

/-!
# Signals that are accumulated

`Accumulate` keeps the larger value and the join of the clocks. A signal is read as an element of
a semilattice, a value with the components of a clock, or nothing. There a run of `Accumulate` is
a join, so the order of the operations does not matter, and what a `Wait` for a lower bound sees
can only grow.
-/

namespace MsSanitizer.SignalDatabase

open RecordDefs EventDef VectorTime

/-- The stored clocks have the shape that the operations on clocks keep. -/
def Good (db : SignalDatabase) : Prop := ∀ a v t, db a = some (v, t) → Wf t

/-- What a signal stands for: nothing, or a value and the components of a clock. -/
abbrev Signal := WithBot (ℤ × (ℕ → ℕ))

def signal (db : SignalDatabase) (a : ℕ) : Signal :=
  match db a with
  | none => ⊥
  | some (v, t) => ((v, t.get) : ℤ × (ℕ → ℕ))

/-- A set of a signal with the clock it is made with. -/
abbrev SignalSet := MstxSignalSet × VectorTime

def added (a : ℕ) (x : SignalSet) : Signal :=
  if x.1.addr = a then ((x.1.value, x.2.get) : ℤ × (ℕ → ℕ)) else ⊥

def accumulateAll (db : SignalDatabase) (l : List SignalSet) : SignalDatabase :=
  l.foldl (fun db x => db.accumulate x.1 x.2) db

variable {db : SignalDatabase} {a : ℕ}

lemma good_empty : Good empty := by
  intro a v t h
  cases h

lemma signal_of_some {v : ℤ} {t : VectorTime} (h : db a = some (v, t)) :
    signal db a = ((v, t.get) : ℤ × (ℕ → ℕ)) := by
  rw [signal, h]

lemma signal_of_none (h : db a = none) : signal db a = ⊥ := by rw [signal, h]

lemma accumulate_of_ne (x : SignalSet) (h : x.1.addr ≠ a) : db.accumulate x.1 x.2 a = db a := by
  unfold accumulate
  cases db x.1.addr with
  | none => exact Function.update_of_ne (Ne.symm h) _ _
  | some y => exact Function.update_of_ne (Ne.symm h) _ _

lemma accumulate_self (x : SignalSet) :
    db.accumulate x.1 x.2 x.1.addr =
      match db x.1.addr with
      | none => some (x.1.value, x.2)
      | some (v, t) => some (max v x.1.value, updateVectorTime x.2 t) := by
  unfold accumulate
  cases db x.1.addr with
  | none => exact Function.update_self _ _ _
  | some y => exact Function.update_self _ _ _

lemma Good.accumulate (h : Good db) {x : SignalSet} (hx : Wf x.2) :
    Good (db.accumulate x.1 x.2) := by
  intro a v t ha
  by_cases hne : x.1.addr = a
  · subst hne
    rw [accumulate_self] at ha
    cases hdb : db x.1.addr with
    | none =>
      rw [hdb] at ha
      cases ha
      exact hx
    | some y =>
      rw [hdb] at ha
      cases ha
      exact (hx.updateVectorTime (h _ _ _ hdb)).1
  · rw [accumulate_of_ne x hne] at ha
    exact h a v t ha

lemma signal_accumulate (h : Good db) {x : SignalSet} (hx : Wf x.2) (a : ℕ) :
    signal (db.accumulate x.1 x.2) a = signal db a ⊔ added a x := by
  by_cases hne : x.1.addr = a
  · subst hne
    have hself := @accumulate_self db x
    rw [added, if_pos rfl]
    cases hdb : db x.1.addr with
    | none =>
      rw [hdb] at hself
      rw [signal_of_none hdb, signal_of_some hself, bot_sup_eq]
    | some y =>
      obtain ⟨v, t⟩ := y
      rw [hdb] at hself
      have hclock : (updateVectorTime x.2 t).get = t.get ⊔ x.2.get := funext fun i =>
        ((hx.updateVectorTime (h _ _ _ hdb)).2 i)
      rw [signal_of_some hdb, signal_of_some hself, hclock]
      rfl
  · rw [added, if_neg hne, sup_bot_eq, signal, signal, accumulate_of_ne x hne]

lemma Good.accumulateAll (h : Good db) {l : List SignalSet} (hl : ∀ x ∈ l, Wf x.2) :
    Good (db.accumulateAll l) := by
  induction l generalizing db with
  | nil => exact h
  | cons x l ih =>
    exact ih (h.accumulate (hl x (by simp))) fun y hy => hl y (by simp [hy])

/-- A run of `Accumulate` is the join of all that is added. -/
lemma signal_accumulateAll (h : Good db) {l : List SignalSet} (hl : ∀ x ∈ l, Wf x.2) (a : ℕ) :
    signal (db.accumulateAll l) a = l.foldl (fun s x => s ⊔ added a x) (signal db a) := by
  induction l generalizing db with
  | nil => rfl
  | cons x l ih =>
    rw [List.foldl_cons, ← signal_accumulate h (hl x (by simp)) a]
    exact ih (h.accumulate (hl x (by simp))) fun y hy => hl y (by simp [hy])

lemma le_foldl_sup (l : List SignalSet) (s : Signal) :
    s ≤ l.foldl (fun s x => s ⊔ added a x) s ∧
      ∀ x ∈ l, added a x ≤ l.foldl (fun s x => s ⊔ added a x) s := by
  induction l generalizing s with
  | nil => exact ⟨le_rfl, fun x hx => by cases hx⟩
  | cons y l ih =>
    obtain ⟨hs, hl⟩ := ih (s ⊔ added a y)
    refine ⟨le_sup_left.trans hs, fun x hx => ?_⟩
    rcases List.mem_cons.mp hx with rfl | hx
    · exact le_sup_right.trans hs
    · exact hl x hx

/-- Two signals that stand for the same are both missing, or have the same value and the same
clock. -/
lemma eq_of_signal_eq {db' : SignalDatabase} (h : Good db) (h' : Good db')
    (heq : signal db a = signal db' a) :
    (db a = none ↔ db' a = none) ∧
      ∀ v t v' t', db a = some (v, t) → db' a = some (v', t') → v = v' ∧ t.eq t' = true := by
  cases hdb : db a with
  | none =>
    cases hdb' : db' a with
    | none => exact ⟨Iff.rfl, fun _ _ _ _ hc => by cases hc⟩
    | some y =>
      rw [signal_of_none hdb, signal_of_some hdb'] at heq
      cases heq
  | some x =>
    cases hdb' : db' a with
    | none =>
      rw [signal_of_some hdb, signal_of_none hdb'] at heq
      cases heq
    | some y =>
      refine ⟨by simp, fun v t v' t' hx hy => ?_⟩
      cases hx
      cases hy
      rw [signal_of_some hdb, signal_of_some hdb', WithBot.coe_inj, Prod.mk.injEq] at heq
      exact ⟨heq.1, ((h _ _ _ hdb).eq_iff (h' _ _ _ hdb')).mpr (congrFun heq.2)⟩

/-- A condition that holds of all larger values once it holds. -/
lemma compare_mono {op : CompareOp} (hop : op = .ge ∨ op = .gt) {v v' c : ℤ} (hv : v ≤ v')
    (h : compare op v c = true) : compare op v' c = true := by
  rcases hop with rfl | rfl
  · exact decide_eq_true ((of_decide_eq_true h).trans hv)
  · exact decide_eq_true ((of_decide_eq_true h).trans_le hv)

/-- A wait for a lower bound on a signal that has grown. -/
lemma wait_mono {db' : SignalDatabase} {w : MstxSignalWait} (hop : w.cmpOp = .ge ∨ w.cmpOp = .gt)
    (hle : signal db w.addr ≤ signal db' w.addr) {t : VectorTime} (hw : db.wait w = some t) :
    ∃ v' t', db' w.addr = some (v', t') ∧ db'.wait w = some t' ∧ t ≤ t' := by
  unfold wait at hw
  cases hdb : db w.addr with
  | none =>
    rw [hdb] at hw
    cases hw
  | some x =>
    obtain ⟨v, u⟩ := x
    rw [hdb] at hw
    dsimp only at hw
    split_ifs at hw with hc
    cases hw
    rw [signal_of_some hdb] at hle
    cases hdb' : db' w.addr with
    | none =>
      rw [signal_of_none hdb'] at hle
      exact absurd hle (WithBot.not_coe_le_bot _)
    | some y =>
      obtain ⟨v', t'⟩ := y
      rw [signal_of_some hdb', WithBot.coe_le_coe] at hle
      refine ⟨v', t', rfl, ?_, hle.2⟩
      simp only [wait, hdb', compare_mono hop hle.1 hc, if_true]

/-- **Accumulated signals do not depend on the schedule.** Any two orders of the same sets leave
the same value and the same clock under each address. And once a wait for a lower bound would
succeed, it succeeds after any further sets, with a clock that has only grown and is at least the
clock of every set of the signal. -/
theorem accumulate_schedule (h : Good db) :
    (∀ l l' : List SignalSet, l.Perm l' → (∀ x ∈ l, Wf x.2) → ∀ a,
      (db.accumulateAll l a = none ↔ db.accumulateAll l' a = none) ∧
        ∀ v t v' t', db.accumulateAll l a = some (v, t) → db.accumulateAll l' a = some (v', t') →
          v = v' ∧ t.eq t' = true) ∧
    ∀ (w : MstxSignalWait) (l more : List SignalSet) (t : VectorTime),
      w.cmpOp = .ge ∨ w.cmpOp = .gt → (∀ x ∈ l ++ more, Wf x.2) →
      (db.accumulateAll l).wait w = some t →
      ∃ t', (db.accumulateAll (l ++ more)).wait w = some t' ∧ t ≤ t' ∧
        ∀ x ∈ l ++ more, x.1.addr = w.addr → x.2 ≤ t' := by
  refine ⟨fun l l' hp hl a => ?_, fun w l more t hop hl hw => ?_⟩
  · have hl' : ∀ x ∈ l', Wf x.2 := fun x hx => hl x (hp.mem_iff.mpr hx)
    refine eq_of_signal_eq (h.accumulateAll hl) (h.accumulateAll hl') ?_
    rw [signal_accumulateAll h hl, signal_accumulateAll h hl']
    exact hp.foldl_eq' (fun x _ y _ s => sup_right_comm s (added a x) (added a y)) _
  · have hbefore : ∀ x ∈ l, Wf x.2 := fun x hx => hl x (List.mem_append_left _ hx)
    have hafter : ∀ x ∈ more, Wf x.2 := fun x hx => hl x (List.mem_append_right _ hx)
    have hgood := h.accumulateAll hbefore
    have hrun : db.accumulateAll (l ++ more) = (db.accumulateAll l).accumulateAll more :=
      List.foldl_append
    have hle : signal (db.accumulateAll l) w.addr ≤
        signal (db.accumulateAll (l ++ more)) w.addr := by
      rw [hrun, signal_accumulateAll hgood hafter]
      exact (le_foldl_sup more _).1
    obtain ⟨v', t', hdb', hwait, htt⟩ := wait_mono hop hle hw
    refine ⟨t', hwait, htt, fun x hx hxa => ?_⟩
    have hadd : added w.addr x ≤ signal (db.accumulateAll (l ++ more)) w.addr := by
      rw [signal_accumulateAll h hl]
      exact (le_foldl_sup (l ++ more) _).2 x hx
    rw [added, if_pos hxa, signal_of_some hdb', WithBot.coe_le_coe] at hadd
    exact hadd.2

/-- Two sets of one signal. -/
theorem accumulate_schedule_two :
    ∃ t', (accumulateAll empty [⟨⟨1, 5⟩, {}⟩, ⟨⟨1, 3⟩, {}⟩]).wait ⟨1, 4, .ge⟩ = some t' := by
  have hwf : ∀ x ∈ [⟨⟨1, 5⟩, {}⟩] ++ ([⟨⟨1, 3⟩, {}⟩] : List SignalSet), Wf x.2 := by
    intro x hx
    rcases List.mem_append.mp hx with hx | hx
    all_goals
      rw [List.mem_singleton] at hx
      rw [hx]
      exact wf_default
  have hfirst : (accumulateAll empty [⟨⟨1, 5⟩, {}⟩]).wait ⟨1, 4, .ge⟩ = some {} := rfl
  obtain ⟨t', hwait, -⟩ :=
    (accumulate_schedule good_empty).2 ⟨1, 4, .ge⟩ _ [⟨⟨1, 3⟩, {}⟩] {} (.inl rfl) hwf hfirst
  exact ⟨t', hwait⟩

end MsSanitizer.SignalDatabase
