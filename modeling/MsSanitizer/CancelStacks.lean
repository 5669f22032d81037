import Mathlib.Data.List.Induction
import Mathlib.Data.List.Perm.Basic
import Mathlib.Logic.Function.Basic

/-!
# Items that cancel each other

An item has a sign and a key. An item cancels the last item of the other sign that is held, whatever
its key, and is held itself when there is none. So never are items of both signs held, and how many
are held is the difference of the numbers of the signs. When all items have one key, or one sign, or
each key has as many items of both signs, every key is left with its own difference; of two keys no
other items are left so in every order.
-/

namespace MsSanitizer.CancelStacks

variable {α κ : Type*} (sign : α → Bool) (key : α → κ)

def step (held : Bool → List α) (x : α) : Bool → List α :=
  if (held (!sign x)).isEmpty then Function.update held (sign x) (held (sign x) ++ [x])
  else Function.update held (!sign x) (held (!sign x)).dropLast

/-- The items of each sign that are held after all items have come. -/
def cancel (l : List α) : Bool → List α := l.foldl (step sign) fun _ => []

def signed (p : Bool) (l : List α) : ℕ := l.countP fun x => sign x == p

variable [DecidableEq κ]

def amount (k : κ) (p : Bool) (l : List α) : ℕ := l.countP fun x => key x == k && sign x == p

/-- Every key is left with the difference of its items. -/
def Exact (l : List α) : Prop :=
  ∀ k p, (cancel sign l p).countP (fun x => key x == k) =
    amount sign key k p l - amount sign key k (!p) l

variable {sign key} {held : Bool → List α} {l l' : List α} {k a b : κ} {p : Bool}

/-! ## What is held -/

lemma step_of_isEmpty {x : α} (h : held (!sign x) = []) :
    step sign held x = Function.update held (sign x) (held (sign x) ++ [x]) := by
  rw [step, h, List.isEmpty_nil, if_pos rfl]

lemma step_of_ne {x : α} (h : held (!sign x) ≠ []) :
    step sign held x = Function.update held (!sign x) (held (!sign x)).dropLast := by
  rw [step, if_neg (by rw [List.isEmpty_iff]; exact h)]

lemma cancel_concat (l : List α) (x : α) :
    cancel sign (l ++ [x]) = step sign (cancel sign l) x := by
  rw [cancel, List.foldl_append]
  rfl

lemma signed_concat (l : List α) (x : α) (p : Bool) :
    signed sign p (l ++ [x]) = signed sign p l + if sign x = p then 1 else 0 := by
  simp [signed, List.countP_append, List.countP_cons]

lemma length_cancel (l : List α) (p : Bool) :
    (cancel sign l p).length = signed sign p l - signed sign (!p) l := by
  induction l using List.reverseRecOn generalizing p with
  | nil => rfl
  | append_singleton l x ih =>
    have hself := ih (sign x)
    have hother := ih (!sign x)
    rw [Bool.not_not] at hother
    rw [cancel_concat, signed_concat, signed_concat]
    by_cases hempty : cancel sign l (!sign x) = []
    · rw [hempty, List.length_nil] at hother
      rw [step_of_isEmpty hempty]
      by_cases hp : sign x = p
      · subst hp
        rw [Function.update_self, List.length_append, hself]
        simp
        omega
      · obtain rfl : p = !sign x := by cases p <;> cases hx : sign x <;> simp_all
        rw [Function.update_of_ne (by simp), hempty]
        simp
        omega
    · have hpos := List.length_pos_iff.mpr hempty
      rw [step_of_ne hempty]
      by_cases hp : sign x = p
      · subst hp
        rw [Function.update_of_ne (by simp), hself]
        simp
        omega
      · obtain rfl : p = !sign x := by cases p <;> cases hx : sign x <;> simp_all
        rw [Function.update_self, List.length_dropLast, hother]
        simp
        omega

lemma cancel_sublist (l : List α) (p : Bool) :
    (cancel sign l p).Sublist (l.filter fun x => sign x == p) := by
  induction l using List.reverseRecOn generalizing p with
  | nil => exact .slnil
  | append_singleton l x ih =>
    rw [cancel_concat, List.filter_append]
    by_cases hempty : cancel sign l (!sign x) = []
    · rw [step_of_isEmpty hempty]
      by_cases hp : p = sign x
      · subst hp
        rw [Function.update_self, List.filter_singleton, beq_self_eq_true]
        exact (ih _).append (List.Sublist.refl _)
      · rw [Function.update_of_ne hp]
        exact (ih p).trans (List.sublist_append_left _ _)
    · rw [step_of_ne hempty]
      by_cases hp : p = !sign x
      · subst hp
        rw [Function.update_self]
        exact ((List.dropLast_sublist _).trans (ih _)).trans (List.sublist_append_left _ _)
      · rw [Function.update_of_ne hp]
        exact (ih p).trans (List.sublist_append_left _ _)

lemma sign_of_mem_cancel {x : α} (h : x ∈ cancel sign l p) : x ∈ l ∧ sign x = p := by
  have hmem := (cancel_sublist l p).subset h
  rw [List.mem_filter, beq_iff_eq] at hmem
  exact hmem

/-! ## Keys that do not disturb each other -/

lemma amount_le_signed (k : κ) (p : Bool) (l : List α) :
    amount sign key k p l ≤ signed sign p l :=
  List.countP_mono_left fun _ _ hx => (Bool.and_eq_true_iff.mp hx).2

lemma amount_perm (h : l.Perm l') (k : κ) (p : Bool) :
    amount sign key k p l = amount sign key k p l' := h.countP_eq _

lemma exact_of_key (h : ∀ x ∈ l, key x = a) : Exact sign key l := by
  intro k p
  by_cases hk : k = a
  · subst hk
    have hamount : ∀ p, amount sign key k p l = signed sign p l := fun p =>
      List.countP_congr fun x hx => by simp [h x hx]
    rw [hamount, hamount, ← length_cancel, List.countP_eq_length]
    intro x hx
    rw [h x (sign_of_mem_cancel hx).1, beq_self_eq_true]
  · have hzero : ∀ p, amount sign key k p l = 0 := fun p =>
      List.countP_eq_zero.mpr fun x hx => by simp [h x hx, Ne.symm hk]
    rw [hzero, hzero, List.countP_eq_zero.mpr]
    intro x hx
    simp [h x (sign_of_mem_cancel hx).1, Ne.symm hk]

lemma exact_of_sign (h : ∀ x ∈ l, sign x = p) : Exact sign key l := by
  have hnone : signed sign (!p) l = 0 :=
    List.countP_eq_zero.mpr fun x hx => by simp [h x hx]
  have hall : l.filter (fun x => sign x == p) = l :=
    List.filter_eq_self.mpr fun x hx => by simp [h x hx]
  have hself : cancel sign l p = l := by
    have hsub : (cancel sign l p).Sublist (l.filter fun x => sign x == p) := cancel_sublist l p
    rw [hall] at hsub
    refine hsub.eq_of_length ?_
    rw [length_cancel, hnone, Nat.sub_zero, signed, List.countP_eq_length_filter, hall]
  have hother : cancel sign l (!p) = [] := by
    rw [← List.length_eq_zero_iff, length_cancel, hnone, Nat.zero_sub]
  have hamount : ∀ k, amount sign key k p l = l.countP fun x => key x == k := fun k =>
    List.countP_congr fun x hx => by simp [h x hx]
  have hzero : ∀ k, amount sign key k (!p) l = 0 := fun k =>
    Nat.le_zero.mp (hnone ▸ amount_le_signed k (!p) l)
  intro k q
  by_cases hq : q = p
  · subst hq
    rw [hself, hamount, hzero, Nat.sub_zero]
  · obtain rfl : q = !p := by cases p <;> cases q <;> simp_all
    rw [hother, hzero, List.countP_nil, Nat.zero_sub]

lemma signed_eq_add (hab : a ≠ b) (h : ∀ x ∈ l, key x = a ∨ key x = b) (p : Bool) :
    signed sign p l = amount sign key a p l + amount sign key b p l := by
  induction l with
  | nil => rfl
  | cons x l ih =>
    have hrest := ih fun y hy => h y (List.mem_cons_of_mem _ hy)
    simp only [signed, amount, List.countP_cons] at hrest ⊢
    rcases h x List.mem_cons_self with hx | hx
    · simp [hx, hab]
      omega
    · simp [hx, hab.symm]
      omega

lemma exact_of_balanced (hab : a ≠ b) (h : ∀ x ∈ l, key x = a ∨ key x = b)
    (ha : ∀ p, amount sign key a p l = amount sign key a (!p) l)
    (hb : ∀ p, amount sign key b p l = amount sign key b (!p) l) : Exact sign key l := by
  intro k p
  have hempty : cancel sign l p = [] := by
    rw [← List.length_eq_zero_iff, length_cancel, signed_eq_add hab h, signed_eq_add hab h, ha p,
      hb p, Nat.sub_self]
  have hamount : amount sign key k p l = amount sign key k (!p) l := by
    by_cases hka : k = a
    · rw [hka, ha p]
    · by_cases hkb : k = b
      · rw [hkb, hb p]
      · have hzero : ∀ p, amount sign key k p l = 0 := fun p =>
          List.countP_eq_zero.mpr fun x hx => by
            rcases h x hx with hx | hx
            · simp [hx, Ne.symm hka]
            · simp [hx, Ne.symm hkb]
        rw [hzero, hzero]
  rw [hempty, hamount, Nat.sub_self, List.countP_nil]

/-- Two keys do not disturb each other: one of them has no items, or a sign has none, or both keys
have as many items of both signs. -/
def Apart (sign : α → Bool) (key : α → κ) (a b : κ) (l : List α) : Prop :=
  (∀ p, amount sign key a p l = 0) ∨ (∀ p, amount sign key b p l = 0) ∨
    (∃ p, amount sign key a p l = 0 ∧ amount sign key b p l = 0) ∨
    ∀ p, amount sign key a p l = amount sign key a (!p) l ∧
      amount sign key b p l = amount sign key b (!p) l

lemma ne_of_amount_eq_zero (h : ∀ p, amount sign key a p l = 0) : ∀ x ∈ l, key x ≠ a := by
  intro x hx hkey
  have := List.countP_eq_zero.mp (h (sign x)) x hx
  simp [hkey] at this

lemma Apart.exact (hab : a ≠ b) (h : ∀ x ∈ l, key x = a ∨ key x = b)
    (hapart : Apart sign key a b l) : Exact sign key l := by
  rcases hapart with ha | hb | ⟨p, ha, hb⟩ | hbalanced
  · exact exact_of_key fun x hx => (h x hx).resolve_left (ne_of_amount_eq_zero ha x hx)
  · exact exact_of_key fun x hx => (h x hx).resolve_right (ne_of_amount_eq_zero hb x hx)
  · refine exact_of_sign (p := !p) fun x hx => ?_
    by_contra hsign
    obtain hsign : sign x = p := by cases p <;> cases hx : sign x <;> simp_all
    rcases h x hx with hkey | hkey
    · have := List.countP_eq_zero.mp ha x hx
      simp [hkey, hsign] at this
    · have := List.countP_eq_zero.mp hb x hx
      simp [hkey, hsign] at this
  · exact exact_of_balanced hab h (fun p => (hbalanced p).1) fun p => (hbalanced p).2

/-! ## Keys that do -/

lemma foldl_step_push (h : ∀ x ∈ l, sign x = p) (held : Bool → List α) (hnil : held (!p) = []) :
    l.foldl (step sign) held = Function.update held p (held p ++ l) := by
  induction l generalizing held with
  | nil => rw [List.foldl_nil, List.append_nil, Function.update_eq_self]
  | cons x l ih =>
    have hx := h x List.mem_cons_self
    have hrest := ih (fun y hy => h y (List.mem_cons_of_mem _ hy))
      (Function.update held p (held p ++ [x])) (by rw [Function.update_of_ne (by simp), hnil])
    rw [List.foldl_cons, step_of_isEmpty (by rw [hx, hnil]), hx, hrest, Function.update_self,
      Function.update_idem, List.append_assoc, List.singleton_append]

lemma foldl_step_pop (h : ∀ x ∈ l, sign x = !p) (held : Bool → List α)
    (hlength : l.length ≤ (held p).length) :
    l.foldl (step sign) held p = (held p).take ((held p).length - l.length) := by
  induction l generalizing held with
  | nil => rw [List.foldl_nil, List.length_nil, Nat.sub_zero, List.take_length]
  | cons x l ih =>
    have hx := h x List.mem_cons_self
    rw [List.length_cons] at hlength
    have hne : held (!sign x) ≠ [] := by
      rw [hx, Bool.not_not]
      intro hc
      rw [hc, List.length_nil] at hlength
      omega
    have hstep : step sign held x p = (held p).dropLast := by
      rw [step_of_ne hne, hx, Bool.not_not, Function.update_self]
    rw [List.foldl_cons, ih (fun y hy => h y (List.mem_cons_of_mem _ hy)) _ (by
      rw [hstep, List.length_dropLast]
      omega), hstep, List.length_dropLast, List.dropLast_eq_take, List.take_take,
      List.length_cons]
    congr 1
    omega

/-- The items of each key of one sign, and those of the other sign. -/
lemma split_perm (hab : a ≠ b) (h : ∀ x ∈ l, key x = a ∨ key x = b) (p : Bool) :
    ((l.filter fun x => key x == b && sign x == p) ++
        (l.filter fun x => key x == a && sign x == p) ++
      l.filter fun x => sign x == !p).Perm l := by
  have hkeys := List.filter_append_perm (fun x => key x == b) (l.filter fun x => sign x == p)
  have hsigns := List.filter_append_perm (fun x => sign x == p) l
  rw [List.filter_filter, List.filter_filter] at hkeys
  have ha : (l.filter fun x => !(key x == b) && sign x == p) =
      l.filter fun x => key x == a && sign x == p := by
    refine List.filter_congr fun x hx => ?_
    rcases h x hx with hx | hx
    · simp [hx, hab]
    · simp [hx, hab.symm]
  have hother : (l.filter fun x => !(sign x == p)) = l.filter fun x => sign x == !p := by
    refine List.filter_congr fun x _ => ?_
    cases sign x <;> cases p <;> rfl
  rw [ha] at hkeys
  rw [hother] at hsigns
  exact (hkeys.append_right _).trans hsigns

/-- Items of `b`, then items of `a` of the same sign, then all items of the other sign: too few of
`a` are left. -/
lemma not_exact_of_lt (hab : a ≠ b) (h : ∀ x ∈ l, key x = a ∨ key x = b)
    (hmore : amount sign key a (!p) l < amount sign key a p l)
    (hleast : amount sign key b (!p) l ≤ amount sign key b p l)
    (hother : 0 < amount sign key b (!p) l) : ∃ l', l'.Perm l ∧ ¬ Exact sign key l' := by
  have hsigned : ∀ p, signed sign p l = amount sign key a p l + amount sign key b p l :=
    signed_eq_add hab h
  obtain ⟨bs, hbs⟩ : ∃ bs, bs = l.filter fun x => key x == b && sign x == p := ⟨_, rfl⟩
  obtain ⟨as, has⟩ : ∃ as, as = l.filter fun x => key x == a && sign x == p := ⟨_, rfl⟩
  obtain ⟨rest, hrest⟩ : ∃ rest, rest = l.filter fun x => sign x == !p := ⟨_, rfl⟩
  have hbslen : bs.length = amount sign key b p l := by
    rw [hbs, amount, List.countP_eq_length_filter]
  have haslen : as.length = amount sign key a p l := by
    rw [has, amount, List.countP_eq_length_filter]
  have hrestlen : rest.length = signed sign (!p) l := by
    rw [hrest, signed, List.countP_eq_length_filter]
  have hperm : (bs ++ as ++ rest).Perm l := by
    rw [hbs, has, hrest]
    exact split_perm hab h p
  refine ⟨bs ++ as ++ rest, hperm, fun hexact => ?_⟩
  have hpush : ∀ x ∈ bs ++ as, sign x = p := by
    intro x hx
    rcases List.mem_append.mp hx with hx | hx
    · rw [hbs, List.mem_filter, Bool.and_eq_true, beq_iff_eq, beq_iff_eq] at hx
      exact hx.2.2
    · rw [has, List.mem_filter, Bool.and_eq_true, beq_iff_eq, beq_iff_eq] at hx
      exact hx.2.2
  have hpop : ∀ x ∈ rest, sign x = !p := by
    intro x hx
    rw [hrest, List.mem_filter, beq_iff_eq] at hx
    exact hx.2
  have hheld : cancel sign (bs ++ as ++ rest) p =
      (bs ++ as).take (bs.length + as.length - rest.length) := by
    rw [cancel, List.foldl_append, foldl_step_push hpush _ rfl, foldl_step_pop hpop]
    · rw [Function.update_self, List.nil_append, List.length_append]
    · rw [Function.update_self, List.nil_append, List.length_append, hbslen, haslen, hrestlen,
        hsigned]
      omega
  have hcount := hexact b p
  rw [hheld, amount_perm hperm, amount_perm hperm] at hcount
  have hall : ∀ n, ((bs.take n).countP fun x => key x == b) = min n bs.length := by
    intro n
    rw [List.countP_eq_length.mpr, List.length_take]
    intro x hx
    have hmem := List.mem_of_mem_take hx
    rw [hbs, List.mem_filter, Bool.and_eq_true] at hmem
    exact hmem.2.1
  rw [List.take_append, List.countP_append, hall] at hcount
  rw [hbslen, haslen, hrestlen, hsigned] at hcount
  omega

/-- No key has more of one sign while the other key has some of the other sign. -/
lemma not_clash_of_exact (hab : a ≠ b) (h : ∀ x ∈ l, key x = a ∨ key x = b)
    (hexact : ∀ l', l'.Perm l → Exact sign key l') (p : Bool) :
    ¬ (amount sign key a (!p) l < amount sign key a p l ∧ 0 < amount sign key b (!p) l) := by
  rintro ⟨hmore, hother⟩
  by_cases hleast : amount sign key b (!p) l ≤ amount sign key b p l
  · obtain ⟨l', hperm, hno⟩ := not_exact_of_lt hab h hmore hleast hother
    exact hno (hexact l' hperm)
  · -- items of both signs would have to be held
    have hself := hexact l (List.Perm.refl l)
    have ha := hself a p
    have hb := hself b (!p)
    rw [Bool.not_not] at hb
    have hla := List.countP_le_length (p := fun x => key x == a) (l := cancel sign l p)
    have hlb := List.countP_le_length (p := fun x => key x == b) (l := cancel sign l (!p))
    rw [length_cancel] at hla hlb
    rw [Bool.not_not] at hlb
    omega

/-- **Two keys are left with their own differences in every order exactly when they do not disturb
each other.** -/
theorem exact_iff_apart (hab : a ≠ b) (h : ∀ x ∈ l, key x = a ∨ key x = b) :
    (∀ l', l'.Perm l → Exact sign key l') ↔ Apart sign key a b l := by
  refine ⟨fun hexact => ?_, fun hapart l' hperm => ?_⟩
  · by_contra hnot
    simp only [Apart, not_or, not_exists, not_forall, not_and] at hnot
    obtain ⟨⟨pa, ha⟩, ⟨pb, hb⟩, hsign, pc, hbalanced⟩ := hnot
    have hab₁ := not_clash_of_exact hab h hexact true
    have hab₂ := not_clash_of_exact hab h hexact false
    have hba₁ := not_clash_of_exact hab.symm (fun x hx => (h x hx).symm) hexact true
    have hba₂ := not_clash_of_exact hab.symm (fun x hx => (h x hx).symm) hexact false
    have hsign₁ := hsign true
    have hsign₂ := hsign false
    simp only [Bool.not_true, Bool.not_false] at hab₁ hab₂ hba₁ hba₂
    cases pa <;> cases pb <;> cases pc <;>
      simp only [Bool.not_true, Bool.not_false] at hbalanced <;> omega
  · have h' : ∀ x ∈ l', key x = a ∨ key x = b := fun x hx => h x (hperm.mem_iff.mp hx)
    refine Apart.exact hab h' ?_
    unfold Apart at hapart ⊢
    simpa only [amount_perm hperm] using hapart

end MsSanitizer.CancelStacks
