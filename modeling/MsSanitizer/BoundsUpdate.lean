import MsSanitizer.Bounds

/-!
What `Add`, `Remove` and `SetPermission` do to the bytes of a discrete bounds table.

A table is a partial function from bytes to permissions. Adding and removing a range and
changing its permission are meant to overwrite that function on the range and to leave it
alone elsewhere.
-/

namespace MsSanitizer.BoundsUpdate

open MsSanitizer.RecordDefs MsSanitizer.Segs MsSanitizer.Words MsSanitizer.Bounds

lemma overflowBytes_eq_zero {addr size : ℕ} (hs : size < 2 ^ 64) :
    overflowBytes addr size = 0 ↔ addr + size ≤ globalMemMask ∨ size = 0 := by
  unfold overflowBytes
  rcases le_or_gt addr globalMemMask with h | h
  · rw [sub64_eq h (by decide)]
    rcases lt_or_ge (globalMemMask - addr) size with h2 | h2
    · rw [sub64_eq h2.le hs, if_pos ⟨h, h2⟩]
      omega
    · rw [if_neg (by omega), if_neg (by omega)]
      omega
  · rw [if_neg (by omega), if_pos h]
    omega

lemma checkOverflow_ok {addr size : ℕ} (hs : size < 2 ^ 64) :
    (checkOverflow addr size).isError = false ↔ addr + size ≤ globalMemMask ∨ size = 0 := by
  rw [← overflowBytes_eq_zero hs]
  unfold checkOverflow
  by_cases h : 0 < overflowBytes addr size
  · simp [h, h.ne']
  · simp only [if_neg h, true_iff]
    omega

lemma add64_of_admitted {addr size : ℕ} (ha : addr < 2 ^ 64) (hs : size < 2 ^ 64)
    (h : (checkOverflow addr size).isError = false) : add64 addr size = addr + size := by
  have hm : globalMemMask < 2 ^ 64 := by decide
  rcases (checkOverflow_ok hs).mp h with h | h
  · exact add64_eq (by omega)
  · subst h; exact add64_zero ha

/-! ### `Add` -/

lemma absorb_ge {p : ℕ} {after : List Range} (it : Range)
    (hge : ∀ s ∈ after, it.addrL ≤ s.addrL) (hit : it.addrL ≤ it.addrR) :
    ∀ s ∈ absorb p it after, it.addrL ≤ s.addrL := by
  induction after generalizing it with
  | nil => simp [absorb]
  | cons next rest ih =>
    intro s hs
    have hrest : ∀ t ∈ rest, it.addrL ≤ t.addrL := fun t ht => hge t (by simp [ht])
    unfold absorb at hs
    split_ifs at hs with h1 h2
    · rcases List.mem_cons.mp hs with rfl | hs
      · exact le_rfl
      · exact hge s hs
    · rcases List.mem_cons.mp hs with rfl | hs
      · exact le_rfl
      · rcases List.mem_cons.mp hs with rfl | hs
        · exact hit
        · exact hrest s hs
    · exact ih { it with addrR := max it.addrR next.addrR } hrest
        (le_max_of_le_left hit) s hs

lemma absorb_laid {p : ℕ} {after : List Range} {it : Range} (hit : it.addrL ≤ it.addrR)
    (hl : Laid after) : Laid (absorb p it after) := by
  induction after generalizing it with
  | nil => simpa [absorb, laid_singleton] using hit
  | cons next rest ih =>
    obtain ⟨hn, hnr, hrest⟩ := laid_cons.mp hl
    simp only [lo_eq, hi_eq] at hn hnr
    unfold absorb
    split_ifs with h1 h2
    · refine laid_cons.mpr ⟨hit, fun t ht => ?_, hl⟩
      rcases List.mem_cons.mp ht with rfl | ht
      · exact h1.le
      · exact h1.le.trans (hn.trans (hnr t ht))
    · refine laid_cons.mpr ⟨hit, fun t ht => ?_, laid_cons.mpr ⟨h2.1.le, hnr, hrest⟩⟩
      rcases List.mem_cons.mp ht with rfl | ht
      · exact le_rfl
      · exact h2.1.le.trans (hnr t ht)
    · exact ih (le_max_of_le_left hit) hrest

/-- Growing a range over the ones right of it overwrites them and nothing else. -/
lemma absorb_look {p : ℕ} {after : List Range} (it : Range) (hp : it.permission = p)
    (hit : it.addrL ≤ it.addrR) (hl : Laid after) (hge : ∀ s ∈ after, it.addrL ≤ s.addrL) (x : ℕ) :
    look (absorb p it after) x
      = if it.addrL ≤ x ∧ x < it.addrR then some p else look after x := by
  induction after generalizing it with
  | nil => simp [absorb, look_cons, hp]
  | cons next rest ih =>
    obtain ⟨hn, hnr, hrest⟩ := laid_cons.mp hl
    have hgr : ∀ t ∈ rest, it.addrL ≤ t.addrL := fun t ht => hge t (by simp [ht])
    have hgn : it.addrL ≤ next.addrL := hge next (by simp)
    simp only [lo_eq, hi_eq] at hn hnr
    rw [look_cons next, absorb]
    simp only [lo_eq, hi_eq, tag_eq]
    by_cases h1 : it.addrR < next.addrL
    · simp only [if_pos h1, look_cons, lo_eq, hi_eq, tag_eq, hp]
    by_cases h2 : it.addrR < next.addrR ∧ next.permission ≠ p
    · simp only [if_neg h1, if_pos h2, look_cons, lo_eq, hi_eq, tag_eq, hp]
      split_ifs <;> first | rfl | omega
    rw [if_neg h1, if_neg h2,
      ih { it with addrR := max it.addrR next.addrR } hp (le_max_of_le_left hit) hrest hgr]
    simp only [lt_max_iff]
    -- either `next` lies inside the new range, or it has the same permission
    by_cases hin : next.addrR ≤ it.addrR
    · split_ifs <;> first | rfl | omega
    · have hpn : next.permission = p := by
        by_contra hne
        exact h2 ⟨by omega, hne⟩
      rw [hpn]
      split_ifs <;> first | rfl | omega

/-- The ranges that `Add` cuts short: one of another permission that starts at or before
the new range and reaches past its end. -/
def Loses (addr size permission : ℕ) (ranges : List Range) : Prop :=
  ∃ r ∈ ranges, r.addrL ≤ addr ∧ addr + size < r.addrR ∧ r.permission ≠ permission

/-- A table split before the first range that starts after `addr`. -/
structure SplitL (addr : ℕ) (before after : List Range) : Prop where
  laid : Laid (before ++ after)
  le : ∀ s ∈ before, s.addrL ≤ addr
  gt : ∀ s ∈ after, addr < s.addrL

/-- The table `Add` leaves, when it is admitted and its arguments do not wrap. -/
def addTo (addr size permission : ℕ) (before after : List Range) : List Range :=
  match before.getLast? with
  | none => absorb permission ⟨addr, addr + size, permission⟩ after
  | some prev =>
    if addr ≤ prev.addrR then
      if prev.permission = permission then
        before.dropLast ++
          absorb permission { prev with addrR := max prev.addrR (addr + size) } after
      else
        before.dropLast ++ { prev with addrR := addr } ::
          absorb permission ⟨addr, addr + size, permission⟩ after
    else before ++ absorb permission ⟨addr, addr + size, permission⟩ after

lemma add_eq {addr size : ℕ} (permission : ℕ) {ranges : List Range} (hl : Laid ranges)
    (ha : addr < 2 ^ 64) (hs : size < 2 ^ 64) (h : (checkOverflow addr size).isError = false) :
    ∃ before after, ranges = before ++ after ∧ SplitL addr before after ∧
      (add addr size permission ranges).2 = addTo addr size permission before after := by
  obtain ⟨before, after, hsp, rfl, hb, hg⟩ := hl.split_lo addr
  refine ⟨before, after, rfl, ⟨hl, hb, hg⟩, ?_⟩
  simp only [lo_eq] at hsp
  unfold add addTo
  simp only [h, Bool.false_eq_true, if_false, hsp, add64_of_admitted ha hs h]
  cases before.getLast? with
  | none => rfl
  | some prev => simp only; split_ifs <;> rfl

/-- In a split table the last range before the split is followed by later ranges only. -/
lemma SplitL.last {addr : ℕ} {init after : List Range} {prev : Range}
    (h : SplitL addr (init ++ [prev]) after) :
    Laid init ∧ Laid after ∧ prev.addrL ≤ prev.addrR ∧ prev.addrL ≤ addr ∧
      (∀ s ∈ init, s.addrR ≤ prev.addrL) ∧ (∀ s ∈ after, prev.addrR ≤ s.addrL) ∧
      ∀ s ∈ init, ∀ t ∈ after, s.addrR ≤ t.addrL := by
  obtain ⟨hip, hl, hc⟩ := laid_append.mp h.laid
  obtain ⟨hi, hp, hc'⟩ := laid_append.mp hip
  refine ⟨hi, hl, laid_singleton.mp hp, h.le prev (by simp), fun s hs => ?_, fun s hs => ?_,
    fun s hs t ht => ?_⟩
  · exact hc' s hs prev (by simp)
  · exact hc prev (by simp) s hs
  · exact hc s (by simp [hs]) t ht

lemma addTo_laid {addr size permission : ℕ} {before after : List Range}
    (h : SplitL addr before after) : Laid (addTo addr size permission before after) := by
  have hge : ∀ s ∈ after, addr ≤ s.addrL := fun s hs => (h.gt s hs).le
  have hla : Laid after := (laid_append.mp h.laid).2.1
  have hnew : Laid (absorb permission ⟨addr, addr + size, permission⟩ after) :=
    absorb_laid (by simp) hla
  have hnewge : ∀ s ∈ absorb permission ⟨addr, addr + size, permission⟩ after, addr ≤ s.addrL :=
    absorb_ge ⟨addr, addr + size, permission⟩ hge (by simp)
  rcases List.eq_nil_or_concat' before with rfl | ⟨init, prev, rfl⟩
  · simpa [addTo] using hnew
  obtain ⟨hi, -, hpw, hpa, hip, hpaf, -⟩ := h.last
  simp only [addTo, List.getLast?_append, List.getLast?_singleton, Option.some_or,
    List.dropLast_concat]
  split_ifs with h1 h2
  · refine laid_append.mpr ⟨hi, absorb_laid (le_max_of_le_left hpw) hla, fun s hs t ht => ?_⟩
    have hpg : ∀ u ∈ after, prev.addrL ≤ u.addrL := fun u hu => hpw.trans (hpaf u hu)
    exact (hip s hs).trans (absorb_ge
      { prev with addrR := max prev.addrR (addr + size) } hpg (le_max_of_le_left hpw) t ht)
  · refine laid_append.mpr ⟨hi, laid_cons.mpr ⟨hpa, hnewge, hnew⟩, fun s hs t ht => ?_⟩
    rcases List.mem_cons.mp ht with rfl | ht
    · exact hip s hs
    · exact (hip s hs).trans (hpa.trans (hnewge t ht))
  · refine laid_append.mpr ⟨(laid_append.mp h.laid).1, hnew, fun s hs t ht => ?_⟩
    have hprev : s.addrR ≤ prev.addrR := by
      rcases List.mem_append.mp hs with hs | hs
      · exact (hip s hs).trans hpw
      · rw [List.mem_singleton.mp hs]
    have := hnewge t ht
    simp only [hi_eq, lo_eq]
    omega

/-- Unless a range of another permission reaches past the new one, `Add` overwrites. -/
lemma addTo_look {addr size permission : ℕ} {before after : List Range}
    (h : SplitL addr before after) (hno : ¬ Loses addr size permission (before ++ after)) (x : ℕ) :
    look (addTo addr size permission before after) x =
      if addr ≤ x ∧ x < addr + size then some permission else look (before ++ after) x := by
  have hge : ∀ s ∈ after, addr ≤ s.addrL := fun s hs => (h.gt s hs).le
  have hla : Laid after := (laid_append.mp h.laid).2.1
  have hnew := absorb_look (p := permission) ⟨addr, addr + size, permission⟩ rfl (by simp)
    hla hge x
  simp only at hnew
  rcases List.eq_nil_or_concat' before with rfl | ⟨init, prev, rfl⟩
  · simpa [addTo] using hnew
  obtain ⟨hi, -, hpw, hpa, hip, hpaf, -⟩ := h.last
  have hinit : addr ≤ x → look init x = none := fun hx =>
    look_eq_none_of_ge fun s hs => (hip s hs).trans (hpa.trans hx)
  have hprev : prev.addrR ≤ addr + size ∨ prev.permission = permission := by
    by_contra hc
    push Not at hc
    exact hno ⟨prev, by simp, hpa, hc.1, hc.2⟩
  simp only [addTo, List.getLast?_append, List.getLast?_singleton, Option.some_or,
    List.dropLast_concat]
  by_cases h1 : addr ≤ prev.addrR
  · by_cases h2 : prev.permission = permission
    · have hpg : ∀ u ∈ after, prev.addrL ≤ u.addrL := fun u hu => hpw.trans (hpaf u hu)
      rw [if_pos h1, if_pos h2, look_append, absorb_look
        { prev with addrR := max prev.addrR (addr + size) } h2 (le_max_of_le_left hpw)
        hla hpg]
      simp only [List.append_assoc, List.singleton_append, look_append, look_cons, lo_eq, hi_eq,
        tag_eq, h2, lt_max_iff]
      rcases lt_or_ge x addr with hx | hx
      · rw [if_neg (show ¬ (addr ≤ x ∧ x < addr + size) by omega)]
        split_ifs <;> first | rfl | omega
      · rw [hinit hx, Option.none_or, Option.none_or]
        split_ifs <;> first | rfl | omega
    · rw [if_pos h1, if_neg h2]
      simp only [List.append_assoc, List.singleton_append, look_append, look_cons, lo_eq, hi_eq,
        tag_eq, hnew]
      rcases lt_or_ge x addr with hx | hx
      · rw [if_neg (show ¬ (addr ≤ x ∧ x < addr + size) by omega)]
        split_ifs <;> first | rfl | omega
      · rw [hinit hx, Option.none_or, Option.none_or]
        split_ifs <;> first | rfl | omega
  · rw [if_neg h1]
    simp only [List.append_assoc, List.singleton_append, look_append, look_cons, lo_eq, hi_eq,
      tag_eq, hnew]
    rcases lt_or_ge x addr with hx | hx
    · simp only [if_neg (show ¬ (addr ≤ x ∧ x < addr + size) by omega)]
    · rw [hinit hx, Option.none_or, Option.none_or]
      split_ifs <;> first | rfl | omega

/-- A range of another permission that reaches past the new one loses its tail. -/
lemma addTo_loses {addr size permission : ℕ} {before after : List Range}
    (h : SplitL addr before after) (hlo : Loses addr size permission (before ++ after)) :
    look (before ++ after) (addr + size) ≠ none ∧
      look (addTo addr size permission before after) (addr + size) = none := by
  obtain ⟨r, hr, hrl, hrr, hrp⟩ := hlo
  have hla : Laid after := (laid_append.mp h.laid).2.1
  refine ⟨by rw [h.laid.look_eq hr ⟨by simp only [lo_eq]; omega, hrr⟩]; simp, ?_⟩
  -- it is the last range that starts at or before the new one
  have hrb : r ∈ before := by
    rcases List.mem_append.mp hr with hr | hr
    · exact hr
    · have := h.gt r hr; omega
  rcases List.eq_nil_or_concat' before with rfl | ⟨init, prev, rfl⟩
  · simp at hrb
  obtain ⟨hi, -, hpw, hpa, hip, hpaf, -⟩ := h.last
  have hrprev : r = prev := by
    rcases List.mem_append.mp hrb with hr | hr
    · have := hip r hr; omega
    · exact List.mem_singleton.mp hr
  subst hrprev
  have hafter : look after (addr + size) = none := look_eq_none_of_lt fun s hs => by
    have := hpaf s hs
    simp only [lo_eq]; omega
  have hinit : look init (addr + size) = none := look_eq_none_of_ge fun s hs => by
    have := hip s hs
    simp only [hi_eq]; omega
  simp only [addTo, List.getLast?_append, List.getLast?_singleton, Option.some_or,
    List.dropLast_concat]
  rw [if_pos (by omega), if_neg hrp, look_append, hinit, look_cons,
    absorb_look ⟨addr, addr + size, permission⟩ rfl (by simp) hla
      (fun s hs => (h.gt s hs).le), hafter]
  simp

/-! ### `Remove` -/

lemma eraseUpTo_ge {e : ℕ} {l : List Range} (hl : Laid l) :
    ∀ s ∈ eraseUpTo e l, e ≤ s.addrL := by
  induction l with
  | nil => simp [eraseUpTo]
  | cons next rest ih =>
    obtain ⟨hn, hnr, hrest⟩ := laid_cons.mp hl
    simp only [lo_eq, hi_eq] at hn hnr
    intro s hs
    unfold eraseUpTo at hs
    split_ifs at hs with h1 h2
    · rcases List.mem_cons.mp hs with rfl | hs
      · exact h1
      · exact h1.trans (hn.trans (hnr s hs))
    · rcases List.mem_cons.mp hs with rfl | hs
      · exact le_rfl
      · exact h2.le.trans (hnr s hs)
    · exact ih hrest s hs

lemma eraseUpTo_laid {e : ℕ} {l : List Range} (hl : Laid l) : Laid (eraseUpTo e l) := by
  induction l with
  | nil => simp [eraseUpTo]
  | cons next rest ih =>
    obtain ⟨-, hnr, hrest⟩ := laid_cons.mp hl
    unfold eraseUpTo
    split_ifs with h1 h2
    · exact hl
    · exact laid_cons.mpr ⟨h2.le, hnr, hrest⟩
    · exact ih hrest

lemma eraseUpTo_look {e : ℕ} {l : List Range} (hl : Laid l) (x : ℕ) :
    look (eraseUpTo e l) x = if x < e then none else look l x := by
  rcases lt_or_ge x e with hx | hx
  · rw [if_pos hx, look_eq_none_of_lt fun s hs => lt_of_lt_of_le hx (eraseUpTo_ge hl s hs)]
  rw [if_neg (by omega)]
  induction l with
  | nil => rfl
  | cons next rest ih =>
    obtain ⟨hn, -, hrest⟩ := laid_cons.mp hl
    rw [eraseUpTo]
    by_cases h1 : e ≤ next.addrL
    · rw [if_pos h1]
    by_cases h2 : e < next.addrR
    · simp only [if_neg h1, if_pos h2, look_cons, lo_eq, hi_eq, tag_eq]
      split_ifs <;> first | rfl | omega
    · rw [if_neg h1, if_neg h2, ih hrest, look_cons, if_neg (by simp only [hi_eq]; omega)]

/-- A table split before the first range that ends after `addr`. -/
structure SplitR (addr : ℕ) (before after : List Range) : Prop where
  laid : Laid (before ++ after)
  le : ∀ s ∈ before, s.addrR ≤ addr
  gt : ∀ s ∈ after, addr < s.addrR

lemma SplitR.of_laid {ranges : List Range} (hl : Laid ranges) (addr : ℕ) :
    ∃ before after, upperBound (fun b => addr < b.addrR) ranges = (before, after) ∧
      ranges = before ++ after ∧ SplitR addr before after := by
  obtain ⟨before, after, hsp, rfl, hb, hg⟩ := hl.split_hi addr
  exact ⟨before, after, hsp, rfl, hl, hb, hg⟩

/-- In a split table only the first range after the split can hold bytes before `addr`. -/
lemma SplitR.head {addr : ℕ} {before rest : List Range} {it : Range}
    (h : SplitR addr before (it :: rest)) :
    Laid before ∧ Laid (it :: rest) ∧ addr < it.addrR ∧ (∀ s ∈ before, s.addrR ≤ it.addrL) ∧
      ∀ s ∈ rest, it.addrR ≤ s.addrL := by
  obtain ⟨hb, ha, hc⟩ := laid_append.mp h.laid
  exact ⟨hb, ha, h.gt it (by simp), fun s hs => hc s hs it (by simp), (laid_cons.mp ha).2.1⟩

/-- The ranges before the split hold no byte from `addr` on. -/
lemma SplitR.look_before {addr : ℕ} {before after : List Range} (h : SplitR addr before after)
    {x : ℕ} (hx : addr ≤ x) : look before x = none :=
  look_eq_none_of_ge fun s hs => (h.le s hs).trans hx

lemma SplitR.look_rest {addr : ℕ} {before rest : List Range} {it : Range}
    (h : SplitR addr before (it :: rest)) {x : ℕ} (hx : x < addr) : look rest x = none := by
  obtain ⟨-, -, hit, -, hir⟩ := h.head
  refine look_eq_none_of_lt fun s hs => ?_
  have := hir s hs
  simp only [lo_eq]
  omega

/-- **`Remove` uncovers its range and nothing else.** -/
lemma remove_spec {addr size : ℕ} {ranges : List Range} (hl : Laid ranges)
    (ha : addr < 2 ^ 64) (hs : size < 2 ^ 64) (h : (checkOverflow addr size).isError = false) :
    Laid (remove addr size ranges).2 ∧ ∀ x, look (remove addr size ranges).2 x =
      if addr ≤ x ∧ x < addr + size then none else look ranges x := by
  obtain ⟨before, after, hsp, rfl, hr⟩ := SplitR.of_laid hl addr
  unfold remove
  simp only [h, Bool.false_eq_true, if_false, hsp, add64_of_admitted ha hs h]
  rcases after with _ | ⟨it, rest⟩
  · refine ⟨by simpa using hl, fun x => ?_⟩
    rcases lt_or_ge x addr with hx | hx
    · rw [if_neg (by omega)]; simp
    · simp [hr.look_before hx]
  obtain ⟨hlb, hla, hit, hbi, hir⟩ := hr.head
  have hge := eraseUpTo_ge (e := addr + size) hla
  have her := eraseUpTo_laid (e := addr + size) hla
  simp only
  by_cases h1 : it.addrL < addr
  · rw [if_pos h1]
    constructor
    · refine laid_append.mpr ⟨hlb, laid_cons.mpr ⟨h1.le, fun t ht => ?_, her⟩, fun s hs t ht => ?_⟩
      · exact (Nat.le_add_right _ _).trans (hge t ht)
      · rcases List.mem_cons.mp ht with rfl | ht
        · exact hbi s hs
        · exact (hr.le s hs).trans ((Nat.le_add_right _ _).trans (hge t ht))
    · intro x
      rw [look_append, look_cons, eraseUpTo_look hla, look_append, look_cons]
      simp only [lo_eq, hi_eq, tag_eq]
      rcases lt_or_ge x addr with hx | hx
      · rw [hr.look_rest hx]
        split_ifs <;> first | rfl | omega
      · rw [hr.look_before hx]
        split_ifs <;> first | rfl | omega
  · rw [if_neg h1]
    constructor
    · exact laid_append.mpr ⟨hlb, her, fun s hs t ht =>
        (hr.le s hs).trans ((Nat.le_add_right _ _).trans (hge t ht))⟩
    · intro x
      rw [look_append, eraseUpTo_look hla, look_append, look_cons]
      simp only [lo_eq, hi_eq, tag_eq]
      rcases lt_or_ge x addr with hx | hx
      · rw [hr.look_rest hx]
        split_ifs <;> first | rfl | omega
      · rw [hr.look_before hx]
        split_ifs <;> first | rfl | omega

/-! ### `SetPermission` -/

lemma retag_ge {e p a : ℕ} {l : List Range} (hge : ∀ s ∈ l, a ≤ s.addrL) :
    ∀ s ∈ retag e p l, a ≤ s.addrL := by
  induction l with
  | nil => simp [retag]
  | cons it rest ih =>
    have hit : a ≤ it.addrL := hge it (by simp)
    have hrest : ∀ s ∈ rest, a ≤ s.addrL := fun s hs => hge s (by simp [hs])
    unfold retag
    split_ifs with h1 h2
    · exact hge
    · intro s hs
      simp only [List.mem_cons] at hs
      rcases hs with rfl | rfl | hs
      · exact hit
      · exact hit.trans (not_le.mp h1).le
      · exact hrest s hs
    · intro s hs
      rcases List.mem_cons.mp hs with rfl | hs
      · exact hit
      · exact ih hrest s hs

lemma retag_laid {e p : ℕ} {l : List Range} (hl : Laid l) : Laid (retag e p l) := by
  induction l with
  | nil => simp [retag]
  | cons it rest ih =>
    obtain ⟨hi, hir, hrest⟩ := laid_cons.mp hl
    unfold retag
    split_ifs with h1 h2
    · exact hl
    · refine laid_cons.mpr ⟨(not_le.mp h1).le, fun t ht => ?_, laid_cons.mpr ⟨h2.le, hir, hrest⟩⟩
      rcases List.mem_cons.mp ht with rfl | ht
      · exact le_rfl
      · exact h2.le.trans (hir t ht)
    · exact laid_cons.mpr ⟨hi, retag_ge hir, ih hrest⟩

lemma retag_look {e p : ℕ} {l : List Range} (hl : Laid l) (x : ℕ) :
    look (retag e p l) x = if x < e then (look l x).map fun _ => p else look l x := by
  induction l with
  | nil => simp [retag]
  | cons it rest ih =>
    obtain ⟨hi, hir, hrest⟩ := laid_cons.mp hl
    simp only [lo_eq, hi_eq] at hi hir
    have hlt : x < it.addrR → look rest x = none := fun hx =>
      look_eq_none_of_lt fun s hs => lt_of_lt_of_le hx (hir s hs)
    rw [retag]
    by_cases h1 : e ≤ it.addrL
    · rw [if_pos h1]
      rcases lt_or_ge x e with hx | hx
      · rw [look_cons, hlt (by omega), if_neg (by simp only [lo_eq]; omega)]
        simp
      · rw [if_neg (by omega)]
    by_cases h2 : e < it.addrR
    · simp only [if_neg h1, if_pos h2, look_cons, lo_eq, hi_eq, tag_eq]
      rcases lt_or_ge x e with hx | hx
      · rw [hlt (by omega)]
        split_ifs <;> first | rfl | omega
      · split_ifs <;> first | rfl | omega
    · rw [if_neg h1, if_neg h2, look_cons, ih hrest, look_cons]
      simp only [lo_eq, hi_eq, tag_eq]
      split_ifs <;> first | rfl | omega

/-- **`SetPermission` changes the permission of the covered bytes of its range.** -/
lemma setPermission_spec {addr size : ℕ} (permission : ℕ) {ranges : List Range} (hl : Laid ranges)
    (ha : addr < 2 ^ 64) (hs : size < 2 ^ 64) (h : (checkOverflow addr size).isError = false) :
    Laid (setPermission addr size permission ranges).2 ∧
      ∀ x, look (setPermission addr size permission ranges).2 x =
        if addr ≤ x ∧ x < addr + size then (look ranges x).map fun _ => permission
        else look ranges x := by
  obtain ⟨before, after, hsp, rfl, hr⟩ := SplitR.of_laid hl addr
  unfold setPermission
  simp only [h, Bool.false_eq_true, if_false, hsp, add64_of_admitted ha hs h]
  rcases after with _ | ⟨it, rest⟩
  · refine ⟨by simpa using hl, fun x => ?_⟩
    rcases lt_or_ge x addr with hx | hx
    · rw [if_neg (by omega)]; simp
    · simp [hr.look_before hx]
  obtain ⟨hlb, hla, hit, hbi, hir⟩ := hr.head
  simp only
  by_cases h1 : it.addrL < addr ∧ permission ≠ it.permission
  · -- the range is cut at `addr` first
    have hcut : Laid ({ it with addrL := addr } :: rest) :=
      laid_cons.mpr ⟨hit.le, hir, (laid_cons.mp hla).2.2⟩
    have hge : ∀ s ∈ retag (addr + size) permission ({ it with addrL := addr } :: rest),
        addr ≤ s.addrL := retag_ge fun s hs => by
      rcases List.mem_cons.mp hs with rfl | hs
      · exact le_rfl
      · exact hit.le.trans (hir s hs)
    rw [if_pos h1]
    constructor
    · refine laid_append.mpr ⟨hlb, laid_cons.mpr ⟨h1.1.le, hge, retag_laid hcut⟩,
        fun s hs t ht => ?_⟩
      rcases List.mem_cons.mp ht with rfl | ht
      · exact hbi s hs
      · exact (hr.le s hs).trans (hge t ht)
    · intro x
      rw [look_append, look_cons, retag_look hcut, look_append, look_cons, look_cons]
      simp only [lo_eq, hi_eq, tag_eq]
      rcases lt_or_ge x addr with hx | hx
      · rw [hr.look_rest hx]
        split_ifs <;> first | rfl | omega
      · rw [hr.look_before hx]
        split_ifs <;> first | rfl | omega
  · rw [if_neg h1]
    constructor
    · refine laid_append.mpr ⟨hlb, retag_laid hla, fun s hs t ht => ?_⟩
      have hge : ∀ u ∈ retag (addr + size) permission (it :: rest), it.addrL ≤ u.addrL :=
        retag_ge fun u hu => by
          rcases List.mem_cons.mp hu with rfl | hu
          · exact le_rfl
          · exact (laid_cons.mp hla).1.trans (hir u hu)
      exact (hbi s hs).trans (hge t ht)
    · intro x
      rw [look_append, retag_look hla, look_append, look_cons]
      simp only [lo_eq, hi_eq, tag_eq]
      rcases lt_or_ge x addr with hx | hx
      · -- bytes of `it` before `addr` keep their permission: it is the new one
        rw [hr.look_rest hx]
        by_cases h2 : it.addrL < addr
        · have hp : permission = it.permission := by
            by_contra hne
            exact h1 ⟨h2, hne⟩
          rw [hp]
          split_ifs <;> first | rfl | omega
        · split_ifs <;> first | rfl | omega
      · rw [hr.look_before hx]
        split_ifs <;> first | rfl | omega

/-! ### Runs -/

/-- The tables that calls of `Add`, `Remove` and `SetPermission` reach from the empty one. -/
inductive Reachable : List Range → Prop
  | empty : Reachable []
  | add {ranges : List Range} {addr size : ℕ} (permission : ℕ) (ha : addr < 2 ^ 64)
      (hs : size < 2 ^ 64) (h : Reachable ranges) : Reachable (add addr size permission ranges).2
  | remove {ranges : List Range} {addr size : ℕ} (ha : addr < 2 ^ 64) (hs : size < 2 ^ 64)
      (h : Reachable ranges) : Reachable (remove addr size ranges).2
  | setPermission {ranges : List Range} {addr size : ℕ} (permission : ℕ) (ha : addr < 2 ^ 64)
      (hs : size < 2 ^ 64) (h : Reachable ranges) :
      Reachable (setPermission addr size permission ranges).2

lemma add_laid {addr size permission : ℕ} {ranges : List Range} (hl : Laid ranges)
    (ha : addr < 2 ^ 64) (hs : size < 2 ^ 64) : Laid (add addr size permission ranges).2 := by
  rcases hc : (checkOverflow addr size).isError with _ | _
  · obtain ⟨before, after, -, hsp, heq⟩ := add_eq permission hl ha hs hc
    rw [heq]
    exact addTo_laid hsp
  · simpa [add, hc] using hl

/-- The three operations keep a table laid out, whatever they do to its bytes. -/
lemma Reachable.laid {ranges : List Range} (h : Reachable ranges) : Laid ranges := by
  induction h with
  | empty => simp
  | add permission ha hs _ ih => exact add_laid ih ha hs
  | @remove ranges addr size ha hs _ ih =>
    rcases hc : (checkOverflow addr size).isError with _ | _
    · exact (remove_spec ih ha hs hc).1
    · simpa [Bounds.remove, hc] using ih
  | @setPermission ranges addr size permission ha hs _ ih =>
    rcases hc : (checkOverflow addr size).isError with _ | _
    · exact (setPermission_spec permission ih ha hs hc).1
    · simpa [Bounds.setPermission, hc] using ih

/-- `after` is `before` with the bytes of `[addr, addr + size)` given the permission, and
still in order. -/
def Overwrites (addr size permission : ℕ) (before after : List Range) : Prop :=
  (∀ x, addr ≤ x → x < addr + size → look after x = some permission) ∧
    (∀ x, ¬ (addr ≤ x ∧ x < addr + size) → look after x = look before x) ∧ Laid after

/-- **When `Add` overwrites.** From every reachable table an admitted `Add` gives the
bytes of its range the permission and leaves all others alone, unless a range of another
permission that starts at or before it reaches past its end: that range loses its tail. -/
theorem add_overwrites_iff {ranges : List Range} (hr : Reachable ranges) {addr size : ℕ}
    (permission : ℕ) (ha : addr < 2 ^ 64) (hs : size < 2 ^ 64)
    (h : (checkOverflow addr size).isError = false) :
    Overwrites addr size permission ranges (add addr size permission ranges).2 ↔
      ¬ ∃ r ∈ ranges, r.addrL ≤ addr ∧ addr + size < r.addrR ∧ r.permission ≠ permission := by
  obtain ⟨before, after, rfl, hsp, heq⟩ := add_eq permission hr.laid ha hs h
  rw [heq]
  constructor
  · rintro ⟨-, hout, -⟩ hlo
    obtain ⟨hsome, hnone⟩ := addTo_loses hsp hlo
    exact hsome ((hout (addr + size) (by omega)).symm.trans hnone)
  · intro hno
    refine ⟨fun x hx1 hx2 => ?_, fun x hx => ?_, addTo_laid hsp⟩
    · rw [addTo_look hsp hno, if_pos ⟨hx1, hx2⟩]
    · rw [addTo_look hsp hno, if_neg hx]

theorem add_overwrites_iff_at :
    Overwrites 10 10 1 [⟨0, 100, 1⟩] (add 10 10 1 [⟨0, 100, 1⟩]).2 :=
  (@add_overwrites_iff (add 0 100 1 []).2 (.add 1 (by decide) (by decide) .empty) 10 10 1
    (by decide) (by decide) (by decide)).mpr (by decide)

/-- Ten bytes of permission `1` added in the middle of a hundred of permission `3`. -/
theorem add_loses_tail : Reachable [⟨0, 100, 3⟩] ∧ (checkOverflow 10 10).isError = false ∧
    ¬ Overwrites 10 10 1 [⟨0, 100, 3⟩] (add 10 10 1 [⟨0, 100, 3⟩]).2 := by
  refine ⟨@Reachable.add [] 0 100 3 (by decide) (by decide) .empty, by decide, fun h => ?_⟩
  have h20 := h.2.1 20 (by decide)
  revert h20
  decide

/-- **`Remove` and `SetPermission` are exact**, and a rejected call changes nothing. -/
theorem remove_setPermission_exact {ranges : List Range} (hl : Laid ranges) {addr size : ℕ}
    (permission : ℕ) (ha : addr < 2 ^ 64) (hs : size < 2 ^ 64) :
    ((checkOverflow addr size).isError = false →
      (∀ x, look (remove addr size ranges).2 x =
        if addr ≤ x ∧ x < addr + size then none else look ranges x) ∧
      Laid (remove addr size ranges).2 ∧
      (∀ x, look (setPermission addr size permission ranges).2 x =
        if addr ≤ x ∧ x < addr + size then (look ranges x).map fun _ => permission
        else look ranges x) ∧
      Laid (setPermission addr size permission ranges).2) ∧
    ((checkOverflow addr size).isError = true →
      remove addr size ranges = (checkOverflow addr size, ranges) ∧
      setPermission addr size permission ranges = (checkOverflow addr size, ranges)) := by
  refine ⟨fun h => ?_, fun h => ⟨by simp [remove, h], by simp [setPermission, h]⟩⟩
  obtain ⟨hrl, hrx⟩ := remove_spec hl ha hs h
  obtain ⟨hsl, hsx⟩ := setPermission_spec permission hl ha hs h
  exact ⟨hrx, hrl, hsx, hsl⟩

theorem remove_setPermission_exact_at :
    look (remove 10 10 [⟨0, 100, 3⟩]).2 20 = some 3 := by
  have h := @remove_setPermission_exact [⟨0, 100, 3⟩] (laid_singleton.mpr (by decide))
    10 10 1 (by decide) (by decide)
  rw [(h.1 (by decide)).1 20]
  decide

end MsSanitizer.BoundsUpdate
