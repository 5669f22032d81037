import Mathlib.Data.Nat.Count
import Mathlib.Tactic

/-!
# First-in first-out matching in a trace

A trace is a list of operations, some of which set a flag and some of which wait for one. The
flags have keys; under each key the `n`-th set goes with the `n`-th wait. A chain goes from a
set to its wait, on from there to a later set at the same place, and so on.
-/

namespace MsSanitizer.FifoTrace

variable {α κ π : Type*}

/-- The operation at a position has the key under `f`. -/
def HasKey (f : α → Option κ) (tr : List α) (k : κ) (i : ℕ) : Prop := tr[i]?.bind f = some k

variable {f : α → Option κ}

lemma HasKey.lt_length {tr : List α} {k : κ} {i : ℕ} (h : HasKey f tr k i) : i < tr.length := by
  by_contra hlen
  rw [HasKey, List.getElem?_eq_none (by omega)] at h
  cases h

lemma hasKey_append {tr : List α} (l : List α) {k : κ} {i : ℕ} (hi : i < tr.length) :
    HasKey f (tr ++ l) k i ↔ HasKey f tr k i := by
  rw [HasKey, HasKey, List.getElem?_append_left hi]

lemma HasKey.append {tr : List α} {k : κ} {i : ℕ} (h : HasKey f tr k i) (l : List α) :
    HasKey f (tr ++ l) k i :=
  (hasKey_append l h.lt_length).2 h

variable [DecidableEq κ]

instance (tr : List α) (k : κ) : DecidablePred (HasKey f tr k) := fun _ =>
  inferInstanceAs (Decidable (_ = _))

/-- The number of operations with a key before a position. -/
def before (f : α → Option κ) (tr : List α) (k : κ) (i : ℕ) : ℕ := Nat.count (HasKey f tr k) i

lemma before_append {tr : List α} (l : List α) (k : κ) {i : ℕ} (hi : i ≤ tr.length) :
    before f (tr ++ l) k i = before f tr k i := by
  induction i with
  | zero => simp [before]
  | succ i ih =>
    have hlt : i < tr.length := by omega
    have := ih (by omega)
    simp only [before, Nat.count_succ, hasKey_append l hlt] at this ⊢
    rw [this]

lemma eq_of_before_eq {tr : List α} {k : κ} {i j : ℕ} (hi : HasKey f tr k i)
    (hj : HasKey f tr k j) (h : before f tr k i = before f tr k j) : i = j :=
  Nat.count_injective hi hj h

/-! ## Matching -/

variable (setOf waitOf : α → Option κ)

/-- The set at `s` and the wait at `w` have the same key and the same number under it. -/
def Matched (tr : List α) (s w : ℕ) : Prop :=
  ∃ k, HasKey setOf tr k s ∧ HasKey waitOf tr k w ∧ before setOf tr k s = before waitOf tr k w

variable {setOf waitOf}

lemma Matched.append {tr : List α} {s w : ℕ} (h : Matched setOf waitOf tr s w) (l : List α) :
    Matched setOf waitOf (tr ++ l) s w := by
  obtain ⟨k, hs, hw, hn⟩ := h
  refine ⟨k, hs.append l, hw.append l, ?_⟩
  rw [before_append l k hs.lt_length.le, before_append l k hw.lt_length.le, hn]

lemma Matched.unique {tr : List α} {s s' w : ℕ} (h : Matched setOf waitOf tr s w)
    (h' : Matched setOf waitOf tr s' w) : s = s' := by
  obtain ⟨k, hs, hw, hn⟩ := h
  obtain ⟨k', hs', hw', hn'⟩ := h'
  have hk : k = k' := Option.some_injective _ (hw.symm.trans hw')
  subst hk
  exact eq_of_before_eq hs hs' (hn.trans hn'.symm)

/-! ## What was sent -/

section Sent

variable {β : Type*} (val : α → β)

/-- The values of the operations with a key, in order. -/
def sent (f : α → Option κ) (val : α → β) (tr : List α) (k : κ) : List β :=
  (tr.filter fun a => f a = some k).map val

def tally (f : α → Option κ) (tr : List α) (k : κ) : ℕ := tr.countP fun a => f a = some k

lemma sent_concat (tr : List α) (a : α) (k : κ) :
    sent f val (tr ++ [a]) k = sent f val tr k ++ if f a = some k then [val a] else [] := by
  unfold sent
  by_cases h : f a = some k <;> simp [h]

lemma tally_concat (tr : List α) (a : α) (k : κ) :
    tally f (tr ++ [a]) k = tally f tr k + if f a = some k then 1 else 0 := by
  unfold tally
  by_cases h : f a = some k <;> simp [h]

lemma take_succ_of_getElem? {tr : List α} {i : ℕ} {a : α} (h : tr[i]? = some a) :
    tr.take (i + 1) = tr.take i ++ [a] := by
  rw [List.take_add_one, h]
  rfl

lemma tally_take {tr : List α} {i : ℕ} (hi : i ≤ tr.length) (k : κ) :
    tally f (tr.take i) k = before f tr k i := by
  induction i with
  | zero => simp [tally, before]
  | succ i ih =>
    obtain ⟨a, ha⟩ : ∃ a, tr[i]? = some a := ⟨_, List.getElem?_eq_getElem (by omega)⟩
    have hkey : HasKey f tr k i ↔ f a = some k := by rw [HasKey, ha]; rfl
    rw [take_succ_of_getElem? ha, tally_concat, ih (by omega), before, before, Nat.count_succ]
    simp only [hkey]

/-- The `n`-th value is that of the `n`-th operation with the key. -/
lemma getElem?_sent {tr : List α} {i : ℕ} (hi : i ≤ tr.length) {k : κ} {n : ℕ} {v : β}
    (h : (sent f val (tr.take i) k)[n]? = some v) :
    ∃ j < i, HasKey f tr k j ∧ before f tr k j = n ∧ tr[j]?.map val = some v := by
  induction i with
  | zero => simp [sent] at h
  | succ i ih =>
    obtain ⟨a, ha⟩ : ∃ a, tr[i]? = some a := ⟨_, List.getElem?_eq_getElem (by omega)⟩
    have hkey : HasKey f tr k i ↔ f a = some k := by rw [HasKey, ha]; rfl
    have hlen : (sent f val (tr.take i) k).length = before f tr k i := by
      rw [← tally_take (by omega), sent, tally, List.length_map, List.countP_eq_length_filter]
    rw [take_succ_of_getElem? ha, sent_concat, List.getElem?_append] at h
    split_ifs at h with hn hk
    · obtain ⟨j, hj, hrest⟩ := ih (by omega) h
      exact ⟨j, by omega, hrest⟩
    · have hzero : n - (sent f val (tr.take i) k).length = 0 := by
        have := List.getElem?_eq_some_iff.mp h
        obtain ⟨hlt, -⟩ := this
        simpa using hlt
      rw [hzero] at h
      refine ⟨i, by omega, hkey.mpr hk, by omega, ?_⟩
      rw [ha]
      exact h
    · simp at h

end Sent

/-! ## Chains -/

section Chains

variable (src dst : κ → π) (setOf waitOf)

/-- A chain of matched pairs that starts with the set at `s₀` on `p`; the last wait is at `w`, on
`q`. Each further set is recorded after the wait before it, at the place of that wait. -/
inductive Chain (tr : List α) (p : π) (s₀ : ℕ) : π → ℕ → Prop
  | start {k w} (hs : HasKey setOf tr k s₀) (hp : src k = p)
      (hm : Matched setOf waitOf tr s₀ w) : Chain tr p s₀ (dst k) w
  | link {q w k s w'} (hc : Chain tr p s₀ q w) (hlt : w < s) (hs : HasKey setOf tr k s)
      (hq : src k = q) (hm : Matched setOf waitOf tr s w') : Chain tr p s₀ (dst k) w'

variable {src dst setOf waitOf}

lemma Chain.append {tr : List α} {p q : π} {s₀ w : ℕ}
    (h : Chain setOf waitOf src dst tr p s₀ q w) (l : List α) :
    Chain setOf waitOf src dst (tr ++ l) p s₀ q w := by
  induction h with
  | start hs hp hm => exact .start (hs.append l) hp (hm.append l)
  | link _ hlt hs hq hm ih => exact .link ih hlt (hs.append l) hq (hm.append l)

lemma Chain.first {tr : List α} {p q : π} {s₀ w : ℕ}
    (h : Chain setOf waitOf src dst tr p s₀ q w) : ∃ k, HasKey setOf tr k s₀ ∧ src k = p := by
  induction h with
  | start hs hp _ => exact ⟨_, hs, hp⟩
  | link _ _ _ _ _ ih => exact ih

/-- The wait a chain ends with is at the place the chain has reached. -/
lemma Chain.last {tr : List α} {p q : π} {s₀ w : ℕ}
    (h : Chain setOf waitOf src dst tr p s₀ q w) : ∃ k, HasKey waitOf tr k w ∧ dst k = q := by
  have key : ∀ {k s w}, HasKey setOf tr k s → Matched setOf waitOf tr s w →
      HasKey waitOf tr k w := by
    rintro k s w hs ⟨k', hs', hw', _⟩
    rw [HasKey] at hs hs'
    rw [hs] at hs'
    cases hs'
    exact hw'
  cases h with
  | start hs _ hm => exact ⟨_, key hs hm, rfl⟩
  | link _ _ hs _ hm => exact ⟨_, key hs hm, rfl⟩

end Chains

end MsSanitizer.FifoTrace
