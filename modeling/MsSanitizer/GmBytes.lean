import MsSanitizer.PmBytes

/-!
The map of the global memory as an array of bytes.

The chunks of the table are `2 ^ 36 - 1` bytes long, one less than a primary map can hold.
`Set` and `RangeHasStatus` round the end of a range up to a chunk; when the rounded end
reaches `2 ^ 48` its index starts again at zero and they do nothing.
-/

namespace MsSanitizer.GmBytes

open MsSanitizer.Words MsSanitizer.RangeWrites MsSanitizer.Pm MsSanitizer.Pm.GmPM
open MsSanitizer.PmBytes

lemma chunkSize_eq : chunkSize = 68719476735 := by decide
lemma pmNum_eq : pmNum = 4097 := by decide
lemma globalMemMask_eq : globalMemMask = 281474976710655 := by decide

/-- Where the rounded end of a range starts to wrap: `2 ^ 48 - 2 ^ 36 + 1`. -/
def setLimit : ℕ := globalMemMask + 1 - chunkSize

lemma setLimit_eq : setLimit = 281406257233921 := by decide

lemma and_globalMemMask (a : ℕ) : a &&& globalMemMask = a % 2 ^ 48 := by
  have hm : globalMemMask = 2 ^ 48 - 1 := by decide
  rw [hm, Nat.and_two_pow_sub_one_eq_mod]

lemma getBlockIdx_eq {a : ℕ} (h : a < 2 ^ 48) : GmPM.getBlockIdx a = a / chunkSize := by
  rw [GmPM.getBlockIdx, and_globalMemMask, Nat.mod_eq_of_lt h]

lemma getBlockOffset_eq {a : ℕ} (h : a < 2 ^ 48) : GmPM.getBlockOffset a = a % chunkSize := by
  rw [GmPM.getBlockOffset, and_globalMemMask, Nat.mod_eq_of_lt h]

/-- The index of a rounded end past the address space is that of the first chunk. -/
lemma getBlockIdx_wrap {a : ℕ} (h : 2 ^ 48 ≤ a) (h' : a < 2 ^ 48 + chunkSize) :
    GmPM.getBlockIdx a = 0 := by
  rw [GmPM.getBlockIdx, and_globalMemMask, chunkSize_eq]
  rw [chunkSize_eq] at h'
  omega

lemma idx_lt {a : ℕ} (h : a < 2 ^ 48) : a / chunkSize < pmNum := by
  rw [chunkSize_eq, pmNum_eq]
  omega

/-- The table holds primary maps of full size over an untouched base. -/
structure Wf (gm : GmPM) : Prop where
  base : gm.toPM = PM.new localMemMask gm.memInitVal
  maps : ∀ i pm, gm.pmList i = some pm → blockSize * pm.smNum = 2 ^ 36

lemma wf_new (init : UInt8) : Wf (GmPM.new init) := ⟨rfl, by simp [GmPM.new]⟩

lemma new_smNum_eq (init : UInt8) : blockSize * (PM.new localMemMask init).smNum = 2 ^ 36 := by
  simp only [PM.new]
  decide

/-- The primary map of a chunk, fresh when there is none. -/
def chunkPM (gm : GmPM) (i : ℕ) : PM :=
  (gm.pmList i).getD (PM.new gm.toPM.byteNum gm.memInitVal)

lemma Wf.byteNum {gm : GmPM} (h : Wf gm) : gm.toPM.byteNum = localMemMask := by
  rw [h.base]
  rfl

lemma Wf.chunkPM_smNum {gm : GmPM} (h : Wf gm) (i : ℕ) :
    blockSize * (chunkPM gm i).smNum = 2 ^ 36 := by
  unfold chunkPM
  rcases hpm : gm.pmList i with _ | pm
  · rw [Option.getD_none, h.byteNum]
    exact new_smNum_eq _
  · exact h.maps i pm hpm

lemma queryPM_eq (gm : GmPM) {a : ℕ} (ha : a < 2 ^ 48) :
    gm.queryPM a = gm.pmList (a / chunkSize) := by
  rw [queryPM, getBlockIdx_eq ha, if_neg (not_le.mpr (idx_lt ha))]

lemma getPM_eq (gm : GmPM) {a : ℕ} (ha : a < 2 ^ 48) :
    gm.getPM a = some (chunkPM gm (a / chunkSize)) := by
  rw [getPM, getBlockIdx_eq ha, if_neg (not_le.mpr (idx_lt ha))]
  rfl

/-- A chunk without a map reads like one with a fresh map. -/
lemma Wf.getBits_eq {gm : GmPM} (h : Wf gm) {a : ℕ} (ha : a < 2 ^ 48) :
    gm.getBits a = (chunkPM gm (a / chunkSize)).getBits (a % chunkSize) := by
  rw [GmPM.getBits, queryPM_eq gm ha, getBlockIdx_eq ha, getBlockOffset_eq ha, chunkPM]
  rcases hpm : gm.pmList (a / chunkSize) with _ | pm
  · rw [Option.getD_none, new_getBits, h.base]
    rfl
  · rfl

/-! ### `Set` -/

def putPM (gm : GmPM) (i : ℕ) (pm : PM) : GmPM :=
  { gm with pmList := Function.update gm.pmList i (some pm) }

lemma chunkPM_putPM (gm : GmPM) (i : ℕ) (pm : PM) (j : ℕ) :
    chunkPM (putPM gm i pm) j = if j = i then pm else chunkPM gm j := by
  unfold chunkPM putPM
  by_cases h : j = i
  · simp [h]
  · simp [h]

lemma Wf.putPM {gm : GmPM} (h : Wf gm) (i : ℕ) {pm : PM} (hpm : blockSize * pm.smNum = 2 ^ 36) :
    Wf (putPM gm i pm) := by
  refine ⟨h.base, fun j pm' hj => ?_⟩
  unfold GmBytes.putPM at hj
  by_cases hji : j = i
  · simp only [hji, Function.update_self, Option.some.injEq] at hj
    rw [← hj]
    exact hpm
  · simp only [Function.update_of_ne hji] at hj
    exact h.maps j pm' hj

/-- One chunk of `Set`. -/
def setChunk (gm : GmPM) (addr size : ℕ) (bits : UInt8) : GmPM :=
  putPM gm (addr / chunkSize) ((chunkPM gm (addr / chunkSize)).set (addr % chunkSize) size bits)

lemma Wf.setChunk {gm : GmPM} (h : Wf gm) (addr size : ℕ) (bits : UInt8) :
    Wf (setChunk gm addr size bits) :=
  h.putPM _ (by rw [set_smNum]; exact h.chunkPM_smNum _)

lemma Wf.setChunk_getBits {gm : GmPM} (h : Wf gm) {addr size a : ℕ} (bits : UInt8)
    (hsz : addr % chunkSize + size ≤ chunkSize) (ha : a < 2 ^ 48) :
    (GmBytes.setChunk gm addr size bits).getBits a =
      if addr ≤ a ∧ a < addr + size then bits else gm.getBits a := by
  have hC := chunkSize_eq
  have h1 := Nat.div_add_mod addr chunkSize
  have h2 := Nat.div_add_mod a chunkSize
  have hlt : a % chunkSize < chunkSize := Nat.mod_lt a (by decide)
  rw [(h.setChunk addr size bits).getBits_eq ha, h.getBits_eq ha]
  by_cases hi : a / chunkSize = addr / chunkSize
  · have hsm := h.chunkPM_smNum (addr / chunkSize)
    rw [GmBytes.setChunk, chunkPM_putPM, if_pos hi, hi,
      getBits_set bits (by rw [hsm]; omega) (by omega) (by omega)]
    rw [hi] at h2
    have hiff : (addr % chunkSize ≤ a % chunkSize ∧ a % chunkSize < addr % chunkSize + size) ↔
        (addr ≤ a ∧ a < addr + size) := by
      generalize chunkSize * (addr / chunkSize) = b at h1 h2
      generalize addr % chunkSize = r at h1 ⊢
      generalize a % chunkSize = r' at h2 ⊢
      omega
    simp only [hiff]
  · have hout : ¬ (addr ≤ a ∧ a < addr + size) := by
      rintro ⟨hle, hlt'⟩
      have hdiv : addr / chunkSize ≤ a / chunkSize := Nat.div_le_div_right hle
      have hmul : chunkSize * (addr / chunkSize + 1) ≤ chunkSize * (a / chunkSize) :=
        Nat.mul_le_mul_left _ (by omega)
      rw [Nat.mul_add, Nat.mul_one] at hmul
      omega
    rw [if_neg hout, GmBytes.setChunk, chunkPM_putPM, if_neg hi]

/-- The loop of `Set`, over enough chunks to hold the range. -/
lemma Wf.setLoop {gm : GmPM} (h : Wf gm) {addr size n : ℕ} (bits : UInt8)
    (hlt : addr + size < 2 ^ 48) (hn : size = 0 ∨ addr % chunkSize + size ≤ chunkSize * n) :
    Wf (GmPM.setLoop bits n addr size gm) ∧ ∀ a < 2 ^ 48,
      (GmPM.setLoop bits n addr size gm).getBits a =
        if addr ≤ a ∧ a < addr + size then bits else gm.getBits a := by
  have hC := chunkSize_eq
  induction n generalizing gm addr size with
  | zero =>
    refine ⟨h, fun a _ => ?_⟩
    rw [GmPM.setLoop, if_neg (by omega)]
  | succ n ih =>
    obtain ⟨len, hlen⟩ : ∃ len, len = min (chunkSize - addr % chunkSize) size := ⟨_, rfl⟩
    have hstep : GmPM.setLoop bits (n + 1) addr size gm =
        GmPM.setLoop bits n (addr + len) (size - len) (GmBytes.setChunk gm addr len bits) := by
      rw [GmPM.setLoop, getPM_eq gm (by omega)]
      simp only [getBlockOffset_eq (by omega : addr < 2 ^ 48),
        getBlockIdx_eq (by omega : addr < 2 ^ 48), ← hlen]
      rw [add64_eq (by omega), sub64_eq (by omega) (by omega)]
      rfl
    have hchunk : addr % chunkSize + len ≤ chunkSize := by
      rw [hC] at hlen ⊢; omega
    have hn' : size - len = 0 ∨ (addr + len) % chunkSize + (size - len) ≤ chunkSize * n := by
      rw [hC] at hlen hn ⊢; omega
    obtain ⟨hw, hg⟩ := ih (h.setChunk addr len bits) (by omega) hn'
    rw [hstep]
    refine ⟨hw, fun a ha => ?_⟩
    rw [hg a ha, h.setChunk_getBits bits hchunk ha]
    split_ifs <;> first | rfl | omega

lemma roundUp_eq {addr size : ℕ} (h : addr + size < 2 ^ 48) :
    sub64 (add64 (add64 addr size) chunkSize) 1 = addr + size + chunkSize - 1 := by
  have hC := chunkSize_eq
  have hadd : add64 addr size = addr + size := add64_eq (by omega)
  rw [hadd, add64_eq (by omega), sub64_eq (by omega) (by omega)]

/-- **`Set` writes its range and nothing else** when the range ends by the limit. -/
lemma Wf.set {gm : GmPM} (h : Wf gm) {addr size : ℕ} (bits : UInt8)
    (hend : addr + size ≤ setLimit) :
    Wf (gm.set addr size bits) ∧ ∀ a < 2 ^ 48, (gm.set addr size bits).getBits a =
      if addr ≤ a ∧ a < addr + size then bits else gm.getBits a := by
  have hC := chunkSize_eq
  have hS := setLimit_eq
  unfold GmPM.set
  rw [roundUp_eq (by omega), getBlockIdx_eq (by omega), getBlockIdx_eq (by omega)]
  exact h.setLoop bits (by omega) (Or.inr (by rw [hC]; omega))

lemma set_wrap (gm : GmPM) {addr size : ℕ} (bits : UInt8) (hlt : addr + size ≤ globalMemMask)
    (hend : setLimit < addr + size) : gm.set addr size bits = gm := by
  have hC := chunkSize_eq
  have hS := setLimit_eq
  have hM := globalMemMask_eq
  have hwrap : GmPM.getBlockIdx (addr + size + chunkSize - 1) = 0 :=
    getBlockIdx_wrap (by omega) (by omega)
  unfold GmPM.set
  rw [roundUp_eq (by omega), hwrap]
  simp only [Nat.zero_sub, GmPM.setLoop]

/-! ### `UnifiedSizeAfter` -/

/-- The piece of a range that lies in the chunk of `addr`, as the primary map sees it. -/
lemma unifiedSizeAfter_eq {baseAddr size addr : ℕ} (hb : baseAddr ≤ addr)
    (hlt : addr < baseAddr + size) (hend : baseAddr + size ≤ globalMemMask) :
    ∃ b n, b + n ≤ chunkSize ∧ addr % chunkSize < b + n ∧
      addr + (b + n - addr % chunkSize) ≤ baseAddr + size ∧ ∀ gm, Wf gm →
        gm.unifiedSizeAfter baseAddr size addr =
          (chunkPM gm (addr / chunkSize)).unifiedSizeAfter b n (addr % chunkSize) := by
  have hC := chunkSize_eq
  have hM := globalMemMask_eq
  have hpm : ∀ gm, Wf gm → (gm.queryPM addr).getD gm.toPM = chunkPM gm (addr / chunkSize) := by
    intro gm h
    rw [queryPM_eq gm (by omega), chunkPM, h.byteNum, ← h.base]
  unfold GmPM.unifiedSizeAfter
  simp only [getBlockIdx_eq (by omega : baseAddr < 2 ^ 48),
    getBlockIdx_eq (by omega : addr < 2 ^ 48), getBlockOffset_eq (by omega : addr < 2 ^ 48)]
  by_cases hidx : baseAddr / chunkSize < addr / chunkSize
  · -- the range started in an earlier chunk
    obtain ⟨n, hn⟩ : ∃ n, n = min chunkSize (size - (addr / chunkSize * chunkSize - baseAddr)) :=
      ⟨_, rfl⟩
    have h1 : 0 + n ≤ chunkSize := by rw [hn, Nat.zero_add]; exact min_le_left _ _
    have h2 : addr % chunkSize < 0 + n := by
      rw [hC] at hn hidx ⊢; omega
    have h3 : addr + (0 + n - addr % chunkSize) ≤ baseAddr + size := by
      rw [hC] at hn hidx ⊢; omega
    refine ⟨0, n, h1, h2, h3, fun gm h => ?_⟩
    have hnb : addr / chunkSize * chunkSize < 2 ^ 48 := by rw [hC]; omega
    have hsub : sub64 (addr / chunkSize * chunkSize) baseAddr
        = addr / chunkSize * chunkSize - baseAddr :=
      sub64_eq (by rw [hC] at hidx ⊢; omega) (hnb.trans (by decide))
    have hsub2 : sub64 size (addr / chunkSize * chunkSize - baseAddr)
        = size - (addr / chunkSize * chunkSize - baseAddr) :=
      sub64_eq (by rw [hC] at hidx ⊢; omega) (by omega)
    have hoff : addr / chunkSize * chunkSize % chunkSize = 0 := Nat.mul_mod_left _ _
    simp only [if_pos hidx, getBlockOffset_eq hnb, hsub, hsub2, hoff, ← hn, hpm gm h]
  · obtain ⟨n, hn⟩ : ∃ n, n = min ((addr / chunkSize + 1) * chunkSize - baseAddr) size := ⟨_, rfl⟩
    have h1 : baseAddr % chunkSize + n ≤ chunkSize := by
      rw [hC] at hn hidx ⊢; omega
    have h2 : addr % chunkSize < baseAddr % chunkSize + n := by
      rw [hC] at hn hidx ⊢; omega
    have h3 : addr + (baseAddr % chunkSize + n - addr % chunkSize) ≤ baseAddr + size := by
      rw [hC] at hn hidx ⊢; omega
    refine ⟨baseAddr % chunkSize, n, h1, h2, h3, fun gm h => ?_⟩
    have hsub : sub64 ((addr / chunkSize + 1) * chunkSize) baseAddr
        = (addr / chunkSize + 1) * chunkSize - baseAddr :=
      sub64_eq (by rw [hC] at hidx ⊢; omega) (by rw [hC]; omega)
    simp only [if_neg hidx, getBlockOffset_eq (by omega : baseAddr < 2 ^ 48), hsub, ← hn, hpm gm h]

/-- **A run found in the global map is not empty, stays in its range and is uniform.** -/
lemma Wf.unifiedSizeAfter {gm : GmPM} (h : Wf gm) {baseAddr size addr m : ℕ}
    (hb : baseAddr ≤ addr) (hlt : addr < baseAddr + size) (hend : baseAddr + size ≤ globalMemMask)
    (hm : m = gm.unifiedSizeAfter baseAddr size addr) :
    1 ≤ m ∧ addr + m ≤ baseAddr + size ∧ ∀ k < m, gm.getBits (addr + k) = gm.getBits addr := by
  have hC := chunkSize_eq
  have hM := globalMemMask_eq
  obtain ⟨b, n, hbn, hlt', hfit, hpiece⟩ := unifiedSizeAfter_eq hb hlt hend
  have heq := hpiece gm h
  have hspec := unifiedSizeAfter_spec (chunkPM gm (addr / chunkSize)) hlt'
    (by omega : b + n < 2 ^ 36)
  simp only [← heq, ← hm] at hspec
  obtain ⟨⟨hone, hle, hall⟩, -⟩ := hspec
  unfold blockBound at hle
  refine ⟨hone, by omega, fun k hk => ?_⟩
  have hk' := hall k hk
  have hdiv : (addr + k) / chunkSize = addr / chunkSize := by
    rw [hC] at hbn hle ⊢; omega
  have hmod : (addr + k) % chunkSize = addr % chunkSize + k := by
    rw [hC] at hbn hle ⊢; omega
  rw [h.getBits_eq (by omega : addr + k < 2 ^ 48), h.getBits_eq (by omega : addr < 2 ^ 48), hdiv,
    hmod]
  exact hk'

/-! ### `RangeHasStatus` -/

/-- The piece of a range ending at `e` that lies in the chunk of `a` is really scanned: the
chunk has no map of its own, or the piece ends more than a block before the chunk does. -/
def Seen (gm : GmPM) (e a : ℕ) : Prop :=
  gm.pmList (a / chunkSize) = none ∨
    min e ((a / chunkSize + 1) * chunkSize) - a / chunkSize * chunkSize + blockSize ≤ 2 ^ 36

lemma idx_le {bi : ℕ} (h : bi * chunkSize ≤ globalMemMask) : bi ≤ 4096 := by
  have hdiv := Nat.div_le_div_right (c := chunkSize) h
  rw [Nat.mul_div_cancel _ (by decide)] at hdiv
  exact hdiv.trans (by decide)

lemma queryPM_chunk (gm : GmPM) {bi : ℕ} (hbi : bi ≤ 4096) :
    gm.queryPM (mul64 bi chunkSize) = gm.pmList bi := by
  have hmul : bi * chunkSize < 2 ^ 48 :=
    lt_of_le_of_lt (Nat.mul_le_mul_right chunkSize hbi) (by decide)
  rw [mul64_eq (hmul.trans (by decide)), queryPM_eq gm hmul, Nat.mul_div_cancel _ (by decide)]

lemma Wf.chunkHit_iff {gm : GmPM} (h : Wf gm) (s : MemStatus) {bi offset len : ℕ}
    (hbi : bi ≤ 4096) (hlen : 0 < len) (hoff : offset + len ≤ chunkSize) :
    gm.chunkHit s.code bi offset len = true ↔
      (gm.pmList bi = none ∨ offset + len + blockSize ≤ 2 ^ 36) ∧
        ∃ k < len, getMemStatus ((chunkPM gm bi).getBits (offset + k)) = s := by
  rw [GmPM.chunkHit, queryPM_chunk gm hbi, chunkPM]
  rcases hpm : gm.pmList bi with _ | pm
  · have hsm : bi < gm.toPM.smNum := by
      rw [h.base]
      exact lt_of_le_of_lt hbi (by simp only [PM.new]; decide)
    have hcommon : gm.toPM.commonBitsList bi = gm.memInitVal := by rw [h.base]; rfl
    simp only [pieceHasStatus, hsm, decide_true, Bool.true_and, hcommon, beq_iff_eq, code_eq_iff,
      true_or, true_and, Option.getD_none, new_getBits]
    constructor
    · exact fun hs => ⟨0, hlen, hs⟩
    · rintro ⟨_, _, hs⟩
      exact hs
  · have hlt : offset + len < 2 ^ 36 := lt_of_le_of_lt hoff (by decide)
    simp only [pieceHasStatus, Option.getD_some, reduceCtorEq, false_or]
    rcases le_or_gt (offset + len + blockSize) (2 ^ 36) with hle | hgt
    · simp only [hle, true_and, rangeHasStatus_iff pm s hle]
    · simp only [rangeHasStatus_wrap pm s.code hlt hgt, Bool.false_eq_true, not_le.mpr hgt,
        false_and]

lemma div_chunk {bi o : ℕ} (ho : o < chunkSize) : (bi * chunkSize + o) / chunkSize = bi := by
  rw [Nat.mul_comm, Nat.mul_add_div (by decide), Nat.div_eq_of_lt ho, Nat.add_zero]

lemma mod_chunk {bi o : ℕ} (ho : o < chunkSize) : (bi * chunkSize + o) % chunkSize = o := by
  rw [Nat.mul_comm, Nat.mul_add_mod, Nat.mod_eq_of_lt ho]

/-- The first piece of a range of `r` bytes at offset `o` of a chunk of `c` bytes at `b`. -/
lemma piece {b o r c len : ℕ} (ho : o < c) (hpos : 0 < r) (hlen : len = min r (c - o)) :
    0 < len ∧ len ≤ r ∧ o + len ≤ c ∧ min (b + (o + r)) (b + c) - b = o + len ∧
      (r - len ≠ 0 → o + len = c) := by
  omega

/-- The loop over the chunks finds the bytes of the status in the pieces it really scans. -/
lemma Wf.statusLoop_iff {gm : GmPM} (h : Wf gm) (s : MemStatus) {n bi offset remaining : ℕ}
    (ho : offset < chunkSize) (hpos : 0 < remaining)
    (hend : bi * chunkSize + (offset + remaining) ≤ globalMemMask)
    (hn : offset + remaining ≤ chunkSize * n) :
    gm.statusLoop s.code n bi offset remaining = true ↔
      ∃ k < remaining, Seen gm (bi * chunkSize + (offset + remaining))
          (bi * chunkSize + (offset + k)) ∧
        getMemStatus (gm.getBits (bi * chunkSize + (offset + k))) = s := by
  induction n generalizing bi offset remaining with
  | zero => omega
  | succ n ih =>
    obtain ⟨len, hlen⟩ : ∃ len, len = min remaining (chunkSize - offset) := ⟨_, rfl⟩
    obtain ⟨hlpos, hle, hfit, hmin, hfull⟩ := piece (b := bi * chunkSize) ho hpos hlen
    have hbi : bi ≤ 4096 := idx_le ((Nat.le_add_right _ _).trans hend)
    have hhit := h.chunkHit_iff s hbi hlpos hfit
    have hrem : remaining < 2 ^ 64 :=
      lt_of_le_of_lt ((Nat.le_add_left remaining offset).trans ((Nat.le_add_left _ _).trans hend))
        (by decide)
    -- the bytes of the first piece
    have hbyte : ∀ k < len, gm.getBits (bi * chunkSize + (offset + k))
        = (chunkPM gm bi).getBits (offset + k) := by
      intro k hk
      have hlt : offset + k < chunkSize := by omega
      have ha : bi * chunkSize + (offset + k) < 2 ^ 48 := by
        refine lt_of_le_of_lt ((Nat.add_le_add_left ?_ _).trans hend) (by decide)
        omega
      rw [h.getBits_eq ha, div_chunk hlt, mod_chunk hlt]
    have hseen : ∀ k < len, Seen gm (bi * chunkSize + (offset + remaining))
        (bi * chunkSize + (offset + k)) ↔
          (gm.pmList bi = none ∨ offset + len + blockSize ≤ 2 ^ 36) := by
      intro k hk
      have hlt : offset + k < chunkSize := by omega
      rw [Seen, div_chunk hlt, Nat.add_mul, Nat.one_mul, hmin]
    unfold GmPM.statusLoop
    simp only [← hlen, sub64_eq hle hrem]
    by_cases h1 : gm.chunkHit s.code bi offset len = true
    · rw [if_pos h1]
      obtain ⟨hs, k, hk, hks⟩ := hhit.mp h1
      exact iff_of_true rfl ⟨k, by omega, (hseen k hk).mpr hs, by rw [hbyte k hk]; exact hks⟩
    rw [if_neg h1]
    -- nothing is found in the first piece
    have hnot : ∀ k < len, Seen gm (bi * chunkSize + (offset + remaining))
        (bi * chunkSize + (offset + k)) →
          getMemStatus (gm.getBits (bi * chunkSize + (offset + k))) ≠ s := by
      intro k hk hs heq
      rw [hbyte k hk] at heq
      exact h1 (hhit.mpr ⟨(hseen k hk).mp hs, k, hk, heq⟩)
    by_cases h2 : remaining - len = 0
    · rw [if_pos h2]
      refine iff_of_false (by simp) ?_
      rintro ⟨k, hk, hs, hks⟩
      exact hnot k (by omega) hs hks
    · -- the rest of the range starts at the next chunk
      rw [if_neg h2]
      have hnext : ∀ k, (bi + 1) * chunkSize + (0 + k)
          = bi * chunkSize + (offset + (len + k)) := by
        intro k
        rw [Nat.add_mul, Nat.one_mul, ← hfull h2]
        omega
      have hsum : len + (remaining - len) = remaining := by omega
      have hn' : 0 + (remaining - len) ≤ chunkSize * n := by
        have hc := hfull h2
        rw [Nat.mul_add, Nat.mul_one] at hn
        generalize chunkSize * n = m at hn ⊢
        omega
      have hend' : (bi + 1) * chunkSize + (0 + (remaining - len)) ≤ globalMemMask := by
        rw [hnext, hsum]
        exact hend
      refine (ih (Nat.lt_of_le_of_lt (Nat.zero_le _) ho) (by omega) hend' hn').trans ?_
      simp only [hnext, hsum]
      constructor
      · rintro ⟨k, hk, hs, hks⟩
        exact ⟨len + k, by omega, hs, hks⟩
      · rintro ⟨k, hk, hs, hks⟩
        rcases Nat.lt_or_ge k len with hlt | hge
        · exact absurd hks (hnot k hlt hs)
        · have hk' : len + (k - len) = k := by omega
          exact ⟨k - len, by omega, by rw [hk']; exact hs, by rw [hk']; exact hks⟩

/-- **What `RangeHasStatus` finds**: the bytes of the status in the pieces it scans, and
nothing at all when the range ends past the limit. -/
lemma Wf.rangeHasStatus_iff {gm : GmPM} (h : Wf gm) (s : MemStatus) {addr size : ℕ}
    (hend : addr + size ≤ globalMemMask) :
    gm.rangeHasStatus addr size s.code = true ↔
      addr + size ≤ setLimit ∧ ∃ k < size, Seen gm (addr + size) (addr + k) ∧
        getMemStatus (gm.getBits (addr + k)) = s := by
  have hC := chunkSize_eq
  have hS := setLimit_eq
  have hM := globalMemMask_eq
  unfold GmPM.rangeHasStatus
  by_cases h0 : size = 0
  · simp [h0]
  rw [if_neg h0, roundUp_eq (by omega)]
  rcases le_or_gt (addr + size) setLimit with hle | hgt
  · have hn : addr % chunkSize + size
        ≤ chunkSize * ((addr + size + chunkSize - 1) / chunkSize - addr / chunkSize) := by
      rw [hC]; omega
    have hmod : addr % chunkSize < chunkSize := Nat.mod_lt _ (by decide)
    rw [getBlockIdx_eq (by omega), getBlockIdx_eq (by omega), getBlockOffset_eq (by omega)]
    have hdm : ∀ k, addr / chunkSize * chunkSize + (addr % chunkSize + k) = addr + k := by
      intro k
      rw [← Nat.add_assoc, Nat.div_add_mod']
    refine (h.statusLoop_iff s hmod (by omega) (by rw [hdm]; exact hend) hn).trans ?_
    simp only [hdm, hle, true_and]
  · have hwrap : GmPM.getBlockIdx (addr + size + chunkSize - 1) = 0 :=
      getBlockIdx_wrap (by omega) (by omega)
    rw [hwrap]
    simp only [Nat.zero_sub, GmPM.statusLoop, Bool.false_eq_true, not_le.mpr hgt, false_and]

/-! ### Runs of `Set` -/

def setWrite (gm : GmPM) (w : Write UInt8) : GmPM := gm.set w.addr w.size w.val

/-- The ranges that `ValidateRange` leaves as they are. -/
def Admitted (w : Write UInt8) : Prop := w.addr + w.size ≤ globalMemMask

instance (w : Write UInt8) : Decidable (Admitted w) := inferInstanceAs (Decidable (_ ≤ _))

def run (init : UInt8) (ws : List (Write UInt8)) : GmPM := ws.foldl setWrite (GmPM.new init)

@[simp] lemma run_nil (init : UInt8) : run init [] = GmPM.new init := rfl

lemma run_concat (init : UInt8) (ws : List (Write UInt8)) (w : Write UInt8) :
    run init (ws ++ [w]) = setWrite (run init ws) w := by
  unfold run
  rw [List.foldl_append, List.foldl_cons, List.foldl_nil]

lemma Wf.setWrite {gm : GmPM} (h : Wf gm) {w : Write UInt8} (hw : Admitted w) :
    Wf (setWrite gm w) := by
  rcases le_or_gt (w.addr + w.size) setLimit with hle | hgt
  · exact (h.set w.val hle).1
  · rw [GmBytes.setWrite, set_wrap gm w.val hw hgt]
    exact h

lemma wf_run (init : UInt8) {ws : List (Write UInt8)} (hws : ∀ w ∈ ws, Admitted w) :
    Wf (run init ws) := by
  induction ws using List.reverseRecOn with
  | nil => exact wf_new init
  | append_singleton ws w ih =>
    rw [run_concat]
    exact (ih fun v hv => hws v (by simp [hv])).setWrite (hws w (by simp))

lemma gm_new_getBits (init : UInt8) {a : ℕ} (ha : a < 2 ^ 48) :
    (GmPM.new init).getBits a = init := by
  have hnone : (GmPM.new init).pmList (a / chunkSize) = none := rfl
  rw [(wf_new init).getBits_eq ha, chunkPM, hnone, Option.getD_none, new_getBits]
  rfl

/-- After every write of the sequence, every byte reads as the last write left it. -/
def ReadsLast (init : UInt8) (ws : List (Write UInt8)) : Prop :=
  ∀ p, p <+: ws → ∀ a < 2 ^ 48, (run init p).getBits a = last init p a

/-- A write that is lost changes what should be read, unless its bytes are there already. -/
lemma lost_write {init : UInt8} {p : List (Write UInt8)} {w : Write UInt8} (hw : Admitted w)
    (hgt : setLimit < w.addr + w.size)
    (h : ∀ a < 2 ^ 48, (run init p).getBits a = last init p a)
    (h' : ∀ a < 2 ^ 48, (run init (p ++ [w])).getBits a = last init (p ++ [w]) a) :
    ∀ a, w.Covers a → last init p a = w.val := by
  intro a ha
  have hlt : a < 2 ^ 48 := by
    have := globalMemMask_eq
    have h1 : w.addr + w.size ≤ globalMemMask := hw
    have h2 := ha.2
    omega
  have h1 := h' a hlt
  rw [run_concat, setWrite, set_wrap _ w.val hw hgt, h a hlt, last_concat, if_pos ha] at h1
  exact h1

/-- **The global map is a byte array** after each of a sequence of writes, exactly when no
write of the sequence is lost: every one is empty, or ends by `2 ^ 48 - 2 ^ 36 + 1`, or finds
its bits in place. -/
theorem gm_readsLast_iff (init : UInt8) (ws : List (Write UInt8)) (hws : ∀ w ∈ ws, Admitted w) :
    ReadsLast init ws ↔ ∀ p w, p ++ [w] <+: ws →
      w.size = 0 ∨ w.addr + w.size ≤ setLimit ∨
        ∀ a, w.Covers a → last init p a = w.val := by
  constructor
  · intro h p w hp
    have hw : Admitted w := hws w (hp.subset (by simp))
    rcases le_or_gt (w.addr + w.size) setLimit with hle | hgt
    · exact Or.inr (Or.inl hle)
    · have hpre : p <+: ws := (List.prefix_append p [w]).trans hp
      exact Or.inr (Or.inr (lost_write hw hgt (h p hpre) (h _ hp)))
  · intro h p hp
    induction p using List.reverseRecOn with
    | nil => exact fun a ha => gm_new_getBits init ha
    | append_singleton p w ih =>
      have hpre : p <+: ws := (List.prefix_append p [w]).trans hp
      have hw : Admitted w := hws w (hp.subset (by simp))
      have hwf : Wf (run init p) := wf_run init fun v hv => hws v (hpre.subset hv)
      intro a ha
      have hread := ih hpre a ha
      rw [run_concat, setWrite, last_concat, ← hread]
      rcases le_or_gt (w.addr + w.size) setLimit with hle | hgt
      · exact (hwf.set w.val hle).2 a ha
      · -- the write is lost, so it has to find its bits in place
        rw [set_wrap _ w.val hw hgt]
        by_cases hc : w.Covers a
        · rw [if_pos hc, hread]
          have hc' := hc
          unfold Write.Covers at hc'
          rcases h p w hp with h0 | h1 | h2
          · omega
          · omega
          · exact h2 a hc
        · rw [if_neg hc]

/-- A write over the border of the first two chunks. -/
theorem gm_readsLast_iff_at : ReadsLast 253 [⟨2 ^ 36 - 3, 4, 9⟩] := by
  refine (gm_readsLast_iff 253 [⟨2 ^ 36 - 3, 4, 9⟩] (by decide)).mpr fun p w hp => ?_
  have hw : w ∈ [⟨2 ^ 36 - 3, 4, 9⟩] := hp.subset (by simp)
  rw [List.mem_singleton.mp hw]
  exact Or.inr (Or.inl (by decide))

/-- One byte written at `2 ^ 48 - 2 ^ 36 + 1` is not read back. -/
theorem gm_loses_write : Admitted ⟨2 ^ 48 - 2 ^ 36 + 1, 1, 9⟩ ∧
    ¬ ReadsLast 253 [⟨2 ^ 48 - 2 ^ 36 + 1, 1, 9⟩] := by
  refine ⟨by decide, fun h => ?_⟩
  have hread :=
    h [⟨2 ^ 48 - 2 ^ 36 + 1, 1, 9⟩] (List.prefix_refl _) (2 ^ 48 - 2 ^ 36 + 1) (by decide)
  rw [← List.nil_append [_], run_concat, setWrite, set_wrap _ _ (by decide) (by decide), run_nil,
    gm_new_getBits _ (by decide), last_concat, if_pos (by decide)] at hread
  revert hread
  decide

end MsSanitizer.GmBytes
