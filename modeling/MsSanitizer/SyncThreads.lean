import MsSanitizer.KeyTallies

/-!
# Barriers of the SIMT threads

The model of the check of `syncthreads` in `online_check.h`. Each thread keeps the program counters
of the barriers it has executed and how often, in the order in which they came. When the last thread
ends, the counts of all threads are brought to one order, threads that have executed a barrier less
often than others are reported, and the tables are emptied. The order is found with the low 32 bits
of the program counters of all threads but the first.
-/

namespace MsSanitizer

open KeyTallies

def simtThreadMaxPcNum : ℕ := 64

/-- The tables of `SimtRecordBlockHead`. -/
structure SimtRecordBlockHead where
  syncThreadPC : List ℕ := List.replicate simtThreadMaxPcNum 0
  syncThreadNum : List ℕ := List.replicate simtThreadMaxPcNum 0
  deriving DecidableEq, Repr

namespace SyncThreads

def updateSyncThreadPcNum (head : SimtRecordBlockHead) (pc : ℕ) : Bool × SimtRecordBlockHead :=
  match head.syncThreadPC.findIdx? fun x => x == 0 || x == pc with
  | some i =>
    (true, { syncThreadPC := head.syncThreadPC.set i pc
             syncThreadNum := head.syncThreadNum.set i
              ((head.syncThreadNum.getD i 0 + 1) % 2 ^ 32) })
  | none => (false, head)

def record (history : List ℕ) : SimtRecordBlockHead :=
  history.foldl (fun head pc => (updateSyncThreadPcNum head pc).2) {}

/-- The inner loop of `SortSyncThreadPcNumInPlace` over the entries of a thread: `validPCArray` up
to `validPcNum`, `tmpCounts`, and whether there was room. -/
def collect : List (ℕ × ℕ) → List ℕ → List ℕ → List ℕ × List ℕ × Bool
  | [], validPCArray, tmpCounts => (validPCArray, tmpCounts, true)
  | (pc64, count) :: entries, validPCArray, tmpCounts =>
    let pc := pc64 % 2 ^ 32
    if pc = 0 then (validPCArray, tmpCounts, true)
    else
      match validPCArray.findIdx? fun x => x == pc with
      | some j => collect entries validPCArray (tmpCounts.set j count)
      | none =>
        if validPCArray.length < simtThreadMaxPcNum then
          collect entries (validPCArray ++ [pc]) (tmpCounts.set validPCArray.length count)
        else (validPCArray, tmpCounts, false)

/-- The outer loop of `SortSyncThreadPcNumInPlace`: `validPCArray`, `tmpCounts`, `isSortedAll` and
the tables that are written back. -/
def sortThreads : List SimtRecordBlockHead → List ℕ → List ℕ → Bool →
    List ℕ × List ℕ × Bool × List SimtRecordBlockHead
  | [], validPCArray, tmpCounts, isSortedAll => (validPCArray, tmpCounts, isSortedAll, [])
  | head :: heads, validPCArray, tmpCounts, isSortedAll =>
    let (valid, counts, ok) :=
      collect (head.syncThreadPC.zip head.syncThreadNum) validPCArray tmpCounts
    let sorted := { head with
      syncThreadNum := counts.take valid.length ++ head.syncThreadNum.drop valid.length }
    let (valids, tmps, oks, rest) :=
      sortThreads heads valid (List.replicate valid.length 0 ++ counts.drop valid.length)
        (isSortedAll && ok)
    (valids, tmps, oks, sorted :: rest)

def sortSyncThreadPcNumInPlace :
    List SimtRecordBlockHead → List ℕ × List ℕ × Bool × List SimtRecordBlockHead
  | [] => ([], List.replicate simtThreadMaxPcNum 0, true, [])
  | first :: heads =>
    let (valid, counts, ok, rest) := sortThreads heads (first.syncThreadPC.takeWhile (· ≠ 0))
      (List.replicate simtThreadMaxPcNum 0) true
    (valid, counts, ok, first :: rest)

/-- `GetMaxSyncThreadPcNum`, for one place. -/
def getMaxSyncThreadPcNum (heads : List SimtRecordBlockHead) (pcIdx : ℕ) : ℕ :=
  heads.foldl (fun maxNum head => if maxNum < head.syncThreadNum.getD pcIdx 0 then
    head.syncThreadNum.getD pcIdx 0 else maxNum) 0

/-- The check when the last thread ends: the errors `THREADS_ASYNC_IN_BLOCK`, each with the number
of the thread and the program counter, and the tables. An entry is emptied after it has been
read. -/
def checkSyncThreads (heads : List SimtRecordBlockHead) :
    List (ℕ × ℕ) × List SimtRecordBlockHead :=
  let (valid, _, _, sorted) := sortSyncThreadPcNumInPlace heads
  ((List.range valid.length).flatMap fun pcIdx =>
      (List.range sorted.length).filterMap fun threadIdx =>
        if (sorted.getD threadIdx {}).syncThreadNum.getD pcIdx 0 <
            getMaxSyncThreadPcNum sorted pcIdx then
          some (threadIdx, valid.getD pcIdx 0)
        else none,
    sorted.map fun head => {
      syncThreadPC := List.replicate valid.length 0 ++ head.syncThreadPC.drop valid.length
      syncThreadNum := List.replicate valid.length 0 ++ head.syncThreadNum.drop valid.length })

/-- Histories that the tables have room for: every program counter is a positive 64-bit number, and
there are not too many of them. -/
structure Fits (histories : List (List ℕ)) : Prop where
  pc : ∀ history ∈ histories, ∀ pc ∈ history, pc ≠ 0 ∧ pc < 2 ^ 64
  card : (histories.flatten.toFinset).card ≤ simtThreadMaxPcNum

/-- The check is right about the histories of the threads: a thread is reported at a barrier if
another one has executed it more often, and the tables are empty afterwards. -/
structure CheckedRight (histories : List (List ℕ)) : Prop where
  reported : ∀ threadIdx pc, (threadIdx, pc) ∈ (checkSyncThreads (histories.map record)).1 ↔
    ∃ history, histories[threadIdx]? = some history ∧
      ∃ other ∈ histories, history.count pc < other.count pc
  empty : ∀ head ∈ (checkSyncThreads (histories.map record)).2, head = {}

/-- No thread executes a barrier `2 ^ 32` times. -/
def Counted (histories : List (List ℕ)) : Prop :=
  ∀ history ∈ histories, ∀ pc, history.count pc < 2 ^ 32

/-- No thread but the first executes a barrier at a program counter from `2 ^ 32` on. -/
def Narrow (histories : List (List ℕ)) : Prop :=
  ∀ history ∈ histories.tail, ∀ pc ∈ history, pc < 2 ^ 32

/-! ## The tables of a thread -/

variable {keys : List ℕ} {pc : ℕ} {history : List ℕ} {head : SimtRecordBlockHead}

lemma findIdx?_of_mem {p : ℕ → Bool} (hp : ∀ x ∈ keys, p x = true ↔ x = pc) (h : pc ∈ keys)
    (rest : List ℕ) : ∃ j, (keys ++ rest).findIdx? p = some j ∧ keys[j]? = some pc := by
  have hsome : (keys.findIdx? p).isSome = true := by
    rw [List.findIdx?_isSome, List.any_eq_true]
    exact ⟨pc, h, (hp pc h).mpr rfl⟩
  obtain ⟨j, hj⟩ := Option.isSome_iff_exists.mp hsome
  obtain ⟨hlt, hpj, -⟩ := List.findIdx?_eq_some_iff_getElem.mp hj
  refine ⟨j, ?_, ?_⟩
  · rw [List.findIdx?_append, hj, Option.some_or]
  · rw [List.getElem?_eq_getElem hlt, (hp _ (List.getElem_mem hlt)).mp hpj]

lemma findIdx?_of_not_mem {p : ℕ → Bool} (hp : ∀ x ∈ keys, p x = true ↔ x = pc) (h : pc ∉ keys) :
    keys.findIdx? p = none := by
  rw [List.findIdx?_eq_none_iff]
  intro x hx
  rw [Bool.eq_false_iff]
  intro hpx
  exact h ((hp x hx).mp hpx ▸ hx)

/-- The tables hold the barriers of a history. -/
structure Recorded (keys history : List ℕ) (head : SimtRecordBlockHead) : Prop where
  mem_iff : ∀ pc, pc ∈ keys ↔ pc ∈ history
  ne_zero : ∀ pc ∈ keys, pc ≠ 0
  pcs : head.syncThreadPC = pad simtThreadMaxPcNum 0 keys
  nums : Tally simtThreadMaxPcNum keys history.count head.syncThreadNum

lemma Recorded.length_eq (h : Recorded keys history head) :
    keys.length = history.toFinset.card := by
  rw [← List.toFinset_card_of_nodup h.nums.nodup]
  congr 1
  ext pc
  rw [List.mem_toFinset, List.mem_toFinset, h.mem_iff]

lemma count_concat (history : List ℕ) (pc : ℕ) :
    (history ++ [pc]).count = Function.update history.count pc (history.count pc + 1) := by
  funext x
  rw [List.count_append, List.count_singleton]
  by_cases hx : x = pc
  · subst hx
    rw [Function.update_self, if_pos (beq_self_eq_true x)]
  · rw [Function.update_of_ne hx, if_neg (by simpa using Ne.symm hx), Nat.add_zero]

lemma Recorded.update (h : Recorded keys history head) (hpc : pc ≠ 0)
    (hcard : (history ++ [pc]).toFinset.card ≤ simtThreadMaxPcNum)
    (hcount : (history ++ [pc]).count pc < 2 ^ 32) :
    ∃ keys', Recorded keys' (history ++ [pc]) (updateSyncThreadPcNum head pc).2 := by
  have hp : ∀ x ∈ keys, (x == 0 || x == pc) = true ↔ x = pc := by
    intro x hx
    simp [h.ne_zero x hx]
  rw [List.count_append, List.count_singleton_self] at hcount
  by_cases hmem : pc ∈ keys
  · obtain ⟨j, hfind, hj⟩ := findIdx?_of_mem hp hmem
      (List.replicate (simtThreadMaxPcNum - keys.length) 0)
    obtain ⟨hlt, hget⟩ := List.getElem?_eq_some_iff.mp hj
    rw [updateSyncThreadPcNum, h.pcs, pad, hfind]
    refine ⟨keys, fun x => ?_, h.ne_zero, ?_, ?_⟩
    · rw [h.mem_iff, List.mem_append, List.mem_singleton]
      constructor
      · exact .inl
      · rintro (hx | rfl)
        · exact hx
        · exact (h.mem_iff x).mp hmem
    · dsimp only
      rw [← pad, set_pad_of_lt hlt, ← hget, List.set_getElem_self]
    · dsimp only
      rw [count_concat, h.nums.getD hj, Nat.mod_eq_of_lt hcount]
      exact h.nums.set hj _
  · have hlength : keys.length < simtThreadMaxPcNum := by
      have hnew : (history ++ [pc]).toFinset = insert pc history.toFinset := by
        ext x
        simp
      rw [hnew, Finset.card_insert_of_notMem (by rwa [List.mem_toFinset, ← h.mem_iff]),
        ← h.length_eq] at hcard
      exact hcard
    have hfind : (pad simtThreadMaxPcNum 0 keys).findIdx? (fun x => x == 0 || x == pc) =
        some keys.length := by
      have hsub : simtThreadMaxPcNum - keys.length = simtThreadMaxPcNum - keys.length - 1 + 1 := by
        omega
      rw [pad, List.findIdx?_append, findIdx?_of_not_mem hp hmem, hsub, List.replicate_succ,
        List.findIdx?_cons]
      simp
    have hzero : head.syncThreadNum.getD keys.length 0 = 0 := by
      rw [h.nums.vals_eq]
      exact getD_pad_of_le (by rw [List.length_map])
    have hnone : history.count pc = 0 := h.nums.zero pc hmem
    rw [updateSyncThreadPcNum, h.pcs, hfind]
    refine ⟨keys ++ [pc], fun x => ?_, fun x hx => ?_, ?_, ?_⟩
    · rw [List.mem_append, List.mem_append, h.mem_iff]
    · rcases List.mem_append.mp hx with hx | hx
      · exact h.ne_zero x hx
      · rw [List.mem_singleton.mp hx]
        exact hpc
    · exact set_pad_length hlength pc
    · dsimp only
      rw [count_concat, hzero, hnone, Nat.mod_eq_of_lt (by decide)]
      exact h.nums.push hmem hlength 1

/-- **The tables after the barriers of a thread.** -/
lemma exists_recorded (hpc : ∀ pc ∈ history, pc ≠ 0)
    (hcard : history.toFinset.card ≤ simtThreadMaxPcNum)
    (hcount : ∀ pc, history.count pc < 2 ^ 32) :
    ∃ keys, Recorded keys history (record history) := by
  induction history using List.reverseRecOn with
  | nil =>
    exact ⟨[], fun _ => Iff.rfl, fun _ h => (by cases h), rfl, List.nodup_nil, Nat.zero_le _, rfl,
      fun _ _ => rfl⟩
  | append_singleton history pc ih =>
    have hsub : history.toFinset.card ≤ (history ++ [pc]).toFinset.card := by
      refine Finset.card_le_card fun x hx => ?_
      rw [List.mem_toFinset] at hx ⊢
      exact List.mem_append_left _ hx
    obtain ⟨keys, h⟩ := ih (fun x hx => hpc x (List.mem_append_left _ hx)) (hsub.trans hcard)
      fun x => (List.Sublist.count_le x (List.sublist_append_left _ _)).trans_lt (hcount x)
    rw [record, List.foldl_append]
    exact h.update (hpc pc (List.mem_append_right _ List.mem_cons_self)) hcard (hcount pc)

/-! ## One order for all threads -/

section Order

variable {valid tmp : List ℕ} {f g : ℕ → ℕ} {histories : List (List ℕ)}

lemma length_lt_of_room (h : valid.Nodup) {k : ℕ} {U : Finset ℕ} (hk : k ∉ valid)
    (hvalid : ∀ x ∈ valid, x ∈ U) (hkU : k ∈ U) (hU : U.card ≤ simtThreadMaxPcNum) :
    valid.length < simtThreadMaxPcNum := by
  rw [← List.toFinset_card_of_nodup h]
  have hssub : valid.toFinset ⊂ U :=
    ⟨fun x hx => hvalid x (List.mem_toFinset.mp hx), fun hc => hk (List.mem_toFinset.mp (hc hkU))⟩
  exact (Finset.card_lt_card hssub).trans_le hU

/-- The counts of a thread, brought to the order of all. -/
lemma collect_spec {U : Finset ℕ} (hU : U.card ≤ simtThreadMaxPcNum) (g : ℕ → ℕ) (m : ℕ)
    (hkeys : ∀ k ∈ keys, k ≠ 0 ∧ k < 2 ^ 32 ∧ k ∈ U) (hvalid : ∀ k ∈ valid, k ∈ U)
    (h : Tally simtThreadMaxPcNum valid f tmp) :
    ∃ more tmp', collect ((keys.map fun k => (k, g k)) ++ List.replicate m (0, 0)) valid tmp =
        (valid ++ more, tmp', true) ∧
      Tally simtThreadMaxPcNum (valid ++ more) (fun k => if k ∈ keys then g k else f k) tmp' ∧
      (∀ k ∈ more, k ∈ keys) ∧ ∀ k ∈ keys, k ∈ valid ++ more := by
  induction keys generalizing valid tmp f with
  | nil =>
    refine ⟨[], tmp, ?_, ?_, fun _ hk => hk, fun _ hk => (by cases hk)⟩
    · rw [List.append_nil]
      cases m with
      | zero => rfl
      | succ m => rfl
    · rw [List.append_nil]
      simpa using h
  | cons k keys ih =>
    obtain ⟨hk, hk32, hkU⟩ := hkeys k List.mem_cons_self
    have hrest := fun x hx => hkeys x (List.mem_cons_of_mem k hx)
    have hp : ∀ x ∈ valid, (x == k) = true ↔ x = k := fun x _ => beq_iff_eq
    have hamount : ∀ f' : ℕ → ℕ, f' = Function.update f k (g k) →
        (fun x => if x ∈ keys then g x else f' x) =
          fun x => if x ∈ k :: keys then g x else f x := by
      rintro f' rfl
      funext x
      by_cases hx : x = k
      · subst hx
        rw [Function.update_self, if_pos List.mem_cons_self, ite_self]
      · rw [Function.update_of_ne hx]
        simp [hx]
    rw [List.map_cons, List.cons_append, collect, Nat.mod_eq_of_lt hk32, if_neg hk]
    by_cases hmem : k ∈ valid
    · obtain ⟨j, hfind, hj⟩ := findIdx?_of_mem hp hmem []
      rw [List.append_nil] at hfind
      rw [hfind]
      obtain ⟨more, tmp', hcollect, htally, hmore, hall⟩ := ih hrest hvalid (h.set hj (g k))
      rw [hamount _ rfl] at htally
      refine ⟨more, tmp', hcollect, htally, fun x hx => List.mem_cons_of_mem _ (hmore x hx), ?_⟩
      intro x hx
      rcases List.mem_cons.mp hx with rfl | hx
      · exact List.mem_append_left _ hmem
      · exact hall x hx
    · rw [findIdx?_of_not_mem hp hmem]
      have hlt := length_lt_of_room h.nodup hmem hvalid hkU hU
      dsimp only
      rw [if_pos hlt]
      have hvalid' : ∀ x ∈ valid ++ [k], x ∈ U := by
        intro x hx
        rcases List.mem_append.mp hx with hx | hx
        · exact hvalid x hx
        · rw [List.mem_singleton.mp hx]
          exact hkU
      obtain ⟨more, tmp', hcollect, htally, hmore, hall⟩ :=
        ih hrest hvalid' (h.push hmem hlt (g k))
      rw [hamount _ rfl, List.append_assoc, List.singleton_append] at htally
      rw [List.append_assoc, List.singleton_append] at hcollect
      refine ⟨k :: more, tmp', hcollect, htally, fun x hx => ?_, fun x hx => ?_⟩
      · rcases List.mem_cons.mp hx with rfl | hx
        · exact List.mem_cons_self
        · exact List.mem_cons_of_mem _ (hmore x hx)
      · rcases List.mem_cons.mp hx with rfl | hx
        · exact List.mem_append_right _ List.mem_cons_self
        · have := hall x hx
          rwa [List.append_assoc, List.singleton_append] at this

/-- The tables of a thread when its counts stand in the order of `valid`. -/
def tables (valid history : List ℕ) : SimtRecordBlockHead :=
  { record history with
    syncThreadNum := pad simtThreadMaxPcNum 0 (valid.map fun pc => history.count pc) }

lemma zip_pad (keys : List ℕ) (g : ℕ → ℕ) (n : ℕ) : (pad n 0 keys).zip (pad n 0 (keys.map g)) =
    (keys.map fun k => (k, g k)) ++ List.replicate (n - keys.length) (0, 0) := by
  rw [pad, pad, List.zip_append (List.length_map g).symm, List.length_map, List.zip_replicate',
    List.zip_map_right]
  congr 1
  induction keys with
  | nil => rfl
  | cons k keys ih => simpa using ih

/-- What the histories of a block allow. -/
structure Room (histories : List (List ℕ)) (U : Finset ℕ) : Prop where
  pc : ∀ history ∈ histories, ∀ pc ∈ history, pc ≠ 0 ∧ pc ∈ U
  count : ∀ history ∈ histories, ∀ pc, history.count pc < 2 ^ 32
  card : U.card ≤ simtThreadMaxPcNum

lemma Room.recorded {U : Finset ℕ} (h : Room histories U) (hmem : history ∈ histories) :
    ∃ keys, Recorded keys history (record history) := by
  refine exists_recorded (fun pc hpc => (h.pc history hmem pc hpc).1) ?_ (h.count history hmem)
  refine (Finset.card_le_card fun pc hpc => ?_).trans h.card
  exact (h.pc history hmem pc (List.mem_toFinset.mp hpc)).2

lemma collect_record {U : Finset ℕ} (h : Room (history :: histories) U)
    (hnarrow : ∀ pc ∈ history, pc < 2 ^ 32) (hnodup : valid.Nodup)
    (hlength : valid.length ≤ simtThreadMaxPcNum) (hvalid : ∀ pc ∈ valid, pc ∈ U) :
    ∃ more tmp', collect ((record history).syncThreadPC.zip (record history).syncThreadNum) valid
        (pad simtThreadMaxPcNum 0 []) = (valid ++ more, tmp', true) ∧
      Tally simtThreadMaxPcNum (valid ++ more) history.count tmp' ∧ (∀ pc ∈ more, pc ∈ U) ∧
      ∀ pc ∈ history, pc ∈ valid ++ more := by
  obtain ⟨keys, hrec⟩ := h.recorded List.mem_cons_self
  have hkeys : ∀ k ∈ keys, k ≠ 0 ∧ k < 2 ^ 32 ∧ k ∈ U := fun k hk =>
    have hmem := (hrec.mem_iff k).mp hk
    ⟨hrec.ne_zero k hk, hnarrow k hmem, (h.pc history List.mem_cons_self k hmem).2⟩
  obtain ⟨more, tmp', hcollect, htally, hmore, hall⟩ := collect_spec h.card history.count
    (simtThreadMaxPcNum - keys.length) hkeys hvalid (tally_zero hnodup hlength)
  have hamount : (fun k => if k ∈ keys then history.count k else 0) = history.count := by
    funext k
    split_ifs with hk
    · rfl
    · exact (hrec.nums.zero k hk).symm
  rw [hamount] at htally
  refine ⟨more, tmp', ?_, htally, fun pc hpc => (hkeys pc (hmore pc hpc)).2.2,
    fun pc hpc => hall pc ((hrec.mem_iff pc).mpr hpc)⟩
  rw [hrec.pcs, hrec.nums.vals_eq, zip_pad]
  exact hcollect

/-- The counts that a thread gets back stand in the order of every list that goes on. -/
lemma counts_of_tally {more : List ℕ} (hrec : Recorded keys history (record history))
    (h : Tally simtThreadMaxPcNum valid history.count tmp) (hall : ∀ pc ∈ history, pc ∈ valid)
    (hnodup : (valid ++ more).Nodup) (hlength : (valid ++ more).length ≤ simtThreadMaxPcNum) :
    tmp.take valid.length ++ (record history).syncThreadNum.drop valid.length =
      pad simtThreadMaxPcNum 0 ((valid ++ more).map history.count) := by
  have hsub : keys.length ≤ valid.length :=
    (hrec.nums.nodup.subperm fun k hk => hall k ((hrec.mem_iff k).mp hk)).length_le
  have htake := @take_pad _ simtThreadMaxPcNum 0 (valid.map history.count)
  rw [List.length_map] at htake
  rw [← (h.append hnodup hlength).vals_eq, h.vals_eq, hrec.nums.vals_eq,
    drop_pad (by rwa [List.length_map]), htake, pad, List.length_map]

lemma sortThreads_spec {U : Finset ℕ} (h : Room histories U)
    (hnarrow : ∀ history ∈ histories, ∀ pc ∈ history, pc < 2 ^ 32) (hnodup : valid.Nodup)
    (hvalid : ∀ pc ∈ valid, pc ∈ U) (ok : Bool) :
    ∃ more tmp', sortThreads (histories.map record) valid (pad simtThreadMaxPcNum 0 []) ok =
        (valid ++ more, tmp', ok, histories.map (tables (valid ++ more))) ∧
      (valid ++ more).Nodup ∧ (valid ++ more).length ≤ simtThreadMaxPcNum ∧
      (∀ pc ∈ more, pc ∈ U) ∧ ∀ history ∈ histories, ∀ pc ∈ history, pc ∈ valid ++ more := by
  have hlength : valid.length ≤ simtThreadMaxPcNum := by
    rw [← List.toFinset_card_of_nodup hnodup]
    exact (Finset.card_le_card fun x hx => hvalid x (List.mem_toFinset.mp hx)).trans h.card
  induction histories generalizing valid ok with
  | nil =>
    refine ⟨[], pad simtThreadMaxPcNum 0 [], ?_, ?_, ?_, fun _ hk => (by cases hk),
      fun _ hk => (by cases hk)⟩
    · rw [List.append_nil]
      rfl
    · rwa [List.append_nil]
    · rwa [List.append_nil]
  | cons history histories ih =>
    obtain ⟨keys, hrec⟩ := h.recorded List.mem_cons_self
    have hroom : Room histories U := ⟨fun x hx => h.pc x (List.mem_cons_of_mem _ hx),
      fun x hx => h.count x (List.mem_cons_of_mem _ hx), h.card⟩
    obtain ⟨more, tmp', hcollect, htally, hmore, hall⟩ :=
      collect_record h (hnarrow history List.mem_cons_self) hnodup hlength hvalid
    have hmem : ∀ pc ∈ valid ++ more, pc ∈ U := by
      intro pc hpc
      rcases List.mem_append.mp hpc with hpc | hpc
      · exact hvalid pc hpc
      · exact hmore pc hpc
    obtain ⟨more', tmps, hsort, hnodup', hlength', hmoreU, hcover⟩ :=
      ih hroom (fun x hx => hnarrow x (List.mem_cons_of_mem _ hx)) htally.nodup hmem ok
        htally.length_le
    have hclear : List.replicate (valid ++ more).length 0 ++ tmp'.drop (valid ++ more).length =
        pad simtThreadMaxPcNum 0 [] := by
      rw [htally.vals_eq]
      exact clear_pad (by rw [List.length_map]) htally.length_le
    have hcounts := counts_of_tally hrec htally hall hnodup' hlength'
    rw [List.append_assoc valid] at hnodup' hlength'
    refine ⟨more ++ more', tmps, ?_, hnodup', hlength', ?_, ?_⟩
    · rw [List.map_cons, sortThreads, hcollect]
      dsimp only
      rw [hclear, Bool.and_true, hsort, hcounts, List.append_assoc, List.map_cons]
      rfl
    · intro pc hpc
      rcases List.mem_append.mp hpc with hpc | hpc
      · exact hmore pc hpc
      · exact hmoreU pc hpc
    · intro x hx pc hpc
      rw [← List.append_assoc]
      rcases List.mem_cons.mp hx with rfl | hx
      · exact List.mem_append_left _ (hall pc hpc)
      · exact hcover x hx pc hpc

/-- The place behind the last program counter ends the first list. -/
lemma takeWhile_pad (h : ∀ k ∈ keys, k ≠ 0) (n : ℕ) :
    (pad n 0 keys).takeWhile (· ≠ 0) = keys := by
  rw [pad, List.takeWhile_append_of_pos fun k hk => by simpa using h k hk]
  cases n - keys.length with
  | zero => exact List.append_nil _
  | succ m => rw [List.replicate_succ, List.takeWhile_cons_of_neg (by simp), List.append_nil]

lemma sort_spec {U : Finset ℕ} (h : Room histories U)
    (hnarrow : ∀ history ∈ histories.tail, ∀ pc ∈ history, pc < 2 ^ 32) :
    ∃ valid tmp', sortSyncThreadPcNumInPlace (histories.map record) =
        (valid, tmp', true, histories.map (tables valid)) ∧
      valid.Nodup ∧ valid.length ≤ simtThreadMaxPcNum ∧
      ∀ history ∈ histories, ∀ pc ∈ history, pc ∈ valid := by
  cases histories with
  | nil => exact ⟨[], _, rfl, List.nodup_nil, Nat.zero_le _, fun _ hk => (by cases hk)⟩
  | cons history histories =>
    obtain ⟨keys, hrec⟩ := h.recorded List.mem_cons_self
    have hroom : Room histories U := ⟨fun x hx => h.pc x (List.mem_cons_of_mem _ hx),
      fun x hx => h.count x (List.mem_cons_of_mem _ hx), h.card⟩
    have hkeys : ∀ k ∈ keys, k ∈ U := fun k hk =>
      (h.pc history List.mem_cons_self k ((hrec.mem_iff k).mp hk)).2
    obtain ⟨more, tmp', hsort, hnodup, hlength, -, hcover⟩ :=
      sortThreads_spec hroom hnarrow hrec.nums.nodup hkeys true
    have hfirst : tables (keys ++ more) history = record history := by
      rw [tables, ← (hrec.nums.append hnodup hlength).vals_eq]
    refine ⟨keys ++ more, tmp', ?_, hnodup, hlength, fun x hx pc hpc => ?_⟩
    · have htake : (record history).syncThreadPC.takeWhile (· ≠ 0) = keys := by
        rw [hrec.pcs]
        exact takeWhile_pad hrec.ne_zero _
      have hzeros : List.replicate simtThreadMaxPcNum 0 = pad simtThreadMaxPcNum 0 [] := rfl
      rw [List.map_cons, sortSyncThreadPcNumInPlace, htake, hzeros, hsort, List.map_cons, hfirst]
    · rcases List.mem_cons.mp hx with rfl | hx
      · exact List.mem_append_left _ ((hrec.mem_iff pc).mpr hpc)
      · exact hcover x hx pc hpc

/-- A thread has a smaller count than the largest exactly when another one has a larger. -/
lemma lt_getMax_iff (heads : List SimtRecordBlockHead) (pcIdx n : ℕ) :
    n < getMaxSyncThreadPcNum heads pcIdx ↔
      ∃ head ∈ heads, n < head.syncThreadNum.getD pcIdx 0 := by
  have hfold : ∀ m, n < heads.foldl (fun maxNum head =>
      if maxNum < head.syncThreadNum.getD pcIdx 0 then head.syncThreadNum.getD pcIdx 0
      else maxNum) m ↔ n < m ∨ ∃ head ∈ heads, n < head.syncThreadNum.getD pcIdx 0 := by
    induction heads with
    | nil => intro m; simp
    | cons head heads ih =>
      intro m
      rw [List.foldl_cons, ih, List.exists_mem_cons_iff, ← or_assoc]
      refine or_congr_left ?_
      split_ifs with hlt
      · omega
      · omega
  rw [getMaxSyncThreadPcNum, hfold, or_iff_right (Nat.not_lt_zero n)]

lemma mem_reports {heads : List SimtRecordBlockHead} {valid tmp : List ℕ} {ok : Bool}
    {sorted : List SimtRecordBlockHead}
    (h : sortSyncThreadPcNumInPlace heads = (valid, tmp, ok, sorted)) {threadIdx pc : ℕ} :
    (threadIdx, pc) ∈ (checkSyncThreads heads).1 ↔
      ∃ pcIdx head, valid[pcIdx]? = some pc ∧ sorted[threadIdx]? = some head ∧
        ∃ other ∈ sorted, head.syncThreadNum.getD pcIdx 0 < other.syncThreadNum.getD pcIdx 0 := by
  have hget : ∀ {i : ℕ} (hi : i < sorted.length), sorted.getD i {} = sorted[i] := fun hi => by
    rw [List.getD_eq_getElem?_getD, List.getElem?_eq_getElem hi, Option.getD_some]
  rw [checkSyncThreads, h]
  dsimp only
  simp only [List.mem_flatMap, List.mem_filterMap, List.mem_range, Option.ite_none_right_eq_some,
    Option.some_inj, Prod.mk.injEq, lt_getMax_iff]
  constructor
  · rintro ⟨pcIdx, hpc, i, hi, hlt, rfl, rfl⟩
    refine ⟨pcIdx, sorted[i], ?_, List.getElem?_eq_getElem hi, ?_⟩
    · rw [List.getD_eq_getElem?_getD, List.getElem?_eq_getElem hpc, Option.getD_some]
    · rwa [hget hi] at hlt
  · rintro ⟨pcIdx, head, hpc, hhead, hlt⟩
    obtain ⟨hi, rfl⟩ := List.getElem?_eq_some_iff.mp hhead
    obtain ⟨hj, rfl⟩ := List.getElem?_eq_some_iff.mp hpc
    refine ⟨pcIdx, hj, threadIdx, hi, ?_, rfl, ?_⟩
    · rwa [hget hi]
    · rw [List.getD_eq_getElem?_getD, List.getElem?_eq_getElem hj, Option.getD_some]

/-- **The check with narrow program counters.** -/
lemma checkedRight_of_room {U : Finset ℕ} (h : Room histories U)
    (hnarrow : ∀ history ∈ histories.tail, ∀ pc ∈ history, pc < 2 ^ 32) :
    CheckedRight histories := by
  obtain ⟨valid, tmp', hsort, hnodup, hlength, hcover⟩ := sort_spec h hnarrow
  have hnum : ∀ {pcIdx pc : ℕ}, valid[pcIdx]? = some pc → ∀ history : List ℕ,
      (tables valid history).syncThreadNum.getD pcIdx 0 = history.count pc := by
    intro pcIdx pc hpc history
    obtain ⟨hlt, -⟩ := List.getElem?_eq_some_iff.mp hpc
    rw [tables, List.getD_eq_getElem?_getD, getElem?_pad_of_lt (by rwa [List.length_map]),
      List.getElem?_map, hpc]
    rfl
  refine ⟨fun threadIdx pc => ?_, fun head hhead => ?_⟩
  · rw [mem_reports hsort]
    constructor
    · rintro ⟨pcIdx, head, hpc, hhead, other, hother, hlt⟩
      rw [List.getElem?_map, Option.map_eq_some_iff] at hhead
      obtain ⟨history, hhistory, rfl⟩ := hhead
      obtain ⟨late, hlate, rfl⟩ := List.mem_map.mp hother
      rw [hnum hpc, hnum hpc] at hlt
      exact ⟨history, hhistory, late, hlate, hlt⟩
    · rintro ⟨history, hhistory, other, hother, hlt⟩
      have hmem : pc ∈ valid :=
        hcover other hother pc (List.count_pos_iff.mp ((Nat.zero_le _).trans_lt hlt))
      obtain ⟨pcIdx, hpcIdx⟩ := List.getElem?_of_mem hmem
      refine ⟨pcIdx, tables valid history, hpcIdx, ?_, tables valid other,
        List.mem_map_of_mem hother, ?_⟩
      · rw [List.getElem?_map, hhistory, Option.map_some]
      · rwa [hnum hpcIdx, hnum hpcIdx]
  · rw [checkSyncThreads, hsort] at hhead
    dsimp only at hhead
    rw [List.map_map, List.mem_map] at hhead
    obtain ⟨history, hhistory, rfl⟩ := hhead
    obtain ⟨keys, hrec⟩ := h.recorded hhistory
    have hsub : keys.length ≤ valid.length :=
      (hrec.nums.nodup.subperm fun k hk =>
        hcover history hhistory k ((hrec.mem_iff k).mp hk)).length_le
    have hpcs := @clear_pad _ simtThreadMaxPcNum 0 keys valid.length hsub hlength
    have hnums := @clear_pad _ simtThreadMaxPcNum 0 (valid.map fun pc => history.count pc)
      valid.length (by rw [List.length_map]) hlength
    rw [Function.comp_apply, tables]
    dsimp only
    rw [hrec.pcs, hpcs, hnums]
    rfl

end Order

/-! ## Program counters that are cut off -/

section Wide

variable {valid tmp : List ℕ} {pcIdx : ℕ}

/-- The low 32 bits of a program counter are never found at the place of a wide one. -/
lemma collect_wide (hpc : 2 ^ 32 ≤ pc) (entries : List (ℕ × ℕ)) (hvalid : valid[pcIdx]? = some pc)
    (hlength : pcIdx < tmp.length) :
    ∃ valid' tmp' ok, collect entries valid tmp = (valid', tmp', ok) ∧ valid'[pcIdx]? = some pc ∧
      pcIdx < tmp'.length ∧ tmp'.getD pcIdx 0 = tmp.getD pcIdx 0 := by
  have hset : ∀ {j : ℕ} (v : ℕ), j ≠ pcIdx → (tmp.set j v).getD pcIdx 0 = tmp.getD pcIdx 0 :=
    fun v hj => by
      rw [List.getD_eq_getElem?_getD, List.getElem?_set_ne hj, ← List.getD_eq_getElem?_getD]
  induction entries generalizing valid tmp with
  | nil => exact ⟨valid, tmp, true, rfl, hvalid, hlength, rfl⟩
  | cons entry entries ih =>
    obtain ⟨pc64, count⟩ := entry
    rw [collect]
    by_cases hzero : pc64 % 2 ^ 32 = 0
    · exact ⟨valid, tmp, true, by rw [if_pos hzero], hvalid, hlength, rfl⟩
    rw [if_neg hzero]
    obtain ⟨hlt, hget⟩ := List.getElem?_eq_some_iff.mp hvalid
    cases hfind : valid.findIdx? fun x => x == pc64 % 2 ^ 32 with
    | some j =>
      obtain ⟨hj, hpj, -⟩ := List.findIdx?_eq_some_iff_getElem.mp hfind
      have hne : j ≠ pcIdx := by
        rintro rfl
        rw [hget, beq_iff_eq] at hpj
        have := Nat.mod_lt pc64 (Nat.two_pow_pos 32)
        omega
      obtain ⟨valid', tmp', ok, hcollect, hvalid', hlength', hsame⟩ :=
        @ih valid (tmp.set j count) hvalid (by rwa [List.length_set]) fun v hj => by
          rw [List.getD_eq_getElem?_getD, List.getElem?_set_ne hj, ← List.getD_eq_getElem?_getD]
      exact ⟨valid', tmp', ok, hcollect, hvalid', hlength', hsame.trans (hset count hne)⟩
    | none =>
      dsimp only
      split_ifs with hroom
      · obtain ⟨valid', tmp', ok, hcollect, hvalid', hlength', hsame⟩ :=
          @ih (valid ++ [pc64 % 2 ^ 32]) (tmp.set valid.length count)
            (by rwa [List.getElem?_append_left hlt]) (by rwa [List.length_set]) fun v hj => by
              rw [List.getD_eq_getElem?_getD, List.getElem?_set_ne hj, ← List.getD_eq_getElem?_getD]
        exact ⟨valid', tmp', ok, hcollect, hvalid', hlength', hsame.trans (hset count hlt.ne')⟩
      · exact ⟨valid, tmp, false, rfl, hvalid, hlength, rfl⟩

/-- No later thread has a count at the place of a wide program counter. -/
lemma sortThreads_wide (hpc : 2 ^ 32 ≤ pc) (heads : List SimtRecordBlockHead) (ok : Bool)
    (hvalid : valid[pcIdx]? = some pc) (hlength : pcIdx < tmp.length)
    (hzero : tmp.getD pcIdx 0 = 0) :
    ∃ valid' tmp' ok' sorted, sortThreads heads valid tmp ok = (valid', tmp', ok', sorted) ∧
      valid'[pcIdx]? = some pc ∧ sorted.length = heads.length ∧
      ∀ head ∈ sorted, head.syncThreadNum.getD pcIdx 0 = 0 := by
  induction heads generalizing valid tmp ok with
  | nil => exact ⟨valid, tmp, ok, [], rfl, hvalid, rfl, fun _ h => (by cases h)⟩
  | cons head heads ih =>
    obtain ⟨valid', tmp', ok', hcollect, hvalid', hlength', hsame⟩ :=
      collect_wide hpc (head.syncThreadPC.zip head.syncThreadNum) hvalid hlength
    obtain ⟨hlt, -⟩ := List.getElem?_eq_some_iff.mp hvalid'
    have hreset : (List.replicate valid'.length 0 ++ tmp'.drop valid'.length).getD pcIdx 0 = 0 := by
      rw [List.getD_eq_getElem?_getD, List.getElem?_append_left (by rwa [List.length_replicate]),
        List.getElem?_replicate, if_pos hlt, Option.getD_some]
    obtain ⟨valids, tmps, oks, sorted, hsort, hvalids, hsorted, hall⟩ :=
      ih (ok && ok') hvalid' (by
        rw [List.length_append, List.length_replicate]
        omega) hreset
    have hfirst : (tmp'.take valid'.length ++ head.syncThreadNum.drop valid'.length).getD pcIdx 0 =
        0 := by
      rw [List.getD_eq_getElem?_getD, List.getElem?_append_left (by
        rw [List.length_take]
        omega), List.getElem?_take_of_lt hlt, ← List.getD_eq_getElem?_getD, hsame, hzero]
    rw [sortThreads, hcollect]
    dsimp only
    rw [hsort]
    refine ⟨valids, tmps, oks, _, rfl, hvalids, by rw [List.length_cons, hsorted, List.length_cons],
      fun x hx => ?_⟩
    rcases List.mem_cons.mp hx with rfl | hx
    · exact hfirst
    · exact hall x hx

/-- A wide program counter of a later thread, when all threads have executed the same barriers
equally often. -/
lemma not_checkedRight_of_wide {histories : List (List ℕ)} {U : Finset ℕ} (h : Room histories U)
    (hsame : ∀ history ∈ histories, ∀ other ∈ histories, ∀ pc,
      history.count pc = other.count pc)
    (hhistory : history ∈ histories.tail) (hmem : pc ∈ history) (hpc : 2 ^ 32 ≤ pc) :
    ¬ CheckedRight histories := by
  intro hright
  cases histories with
  | nil => cases hhistory
  | cons first histories =>
    obtain ⟨keys, hrec⟩ := h.recorded List.mem_cons_self
    have hcount := hsame first List.mem_cons_self history (List.mem_cons_of_mem _ hhistory) pc
    have hpos := List.count_pos_iff.mpr hmem
    rw [← hcount] at hpos
    obtain ⟨pcIdx, hpcIdx⟩ :=
      List.getElem?_of_mem ((hrec.mem_iff pc).mpr (List.count_pos_iff.mp hpos))
    obtain ⟨hlt, -⟩ := List.getElem?_eq_some_iff.mp hpcIdx
    obtain ⟨valid, tmp, ok, sorted, hsort, hvalid, hsorted, hzero⟩ := sortThreads_wide hpc
      (histories.map record) true hpcIdx
      (by simpa using hlt.trans_le hrec.nums.length_le : pcIdx <
        (List.replicate simtThreadMaxPcNum 0).length) (by
        rw [List.getD_eq_getElem?_getD, List.getElem?_replicate]
        split_ifs
        · rfl
        · rfl)
    obtain ⟨i, hi, rfl⟩ := List.getElem_of_mem hhistory
    rw [List.tail_cons] at hi
    have hreported : (i + 1, pc) ∈ (checkSyncThreads ((first :: histories).map record)).1 := by
      have hwhole : sortSyncThreadPcNumInPlace ((first :: histories).map record) =
          (valid, tmp, ok, record first :: sorted) := by
        have htake : (record first).syncThreadPC.takeWhile (· ≠ 0) = keys := by
          rw [hrec.pcs]
          exact takeWhile_pad hrec.ne_zero _
        rw [List.map_cons, sortSyncThreadPcNumInPlace, htake, hsort]
      have hi' : i < sorted.length := by rwa [hsorted, List.length_map]
      refine (mem_reports hwhole).mpr ⟨pcIdx, sorted[i], hvalid, ?_, record first,
        List.mem_cons_self, ?_⟩
      · rw [List.getElem?_cons_succ, List.getElem?_eq_getElem hi']
      · rw [hzero _ (List.getElem_mem hi'), hrec.nums.getD hpcIdx]
        exact hpos
    obtain ⟨history, hget, other, hother, hless⟩ := (hright.reported _ _).mp hreported
    have := hsame history (List.mem_of_getElem? hget) other hother pc
    omega

end Wide

end SyncThreads

namespace SyncThreads

lemma Fits.room {histories : List (List ℕ)} (h : Fits histories) (hcounted : Counted histories) :
    Room histories histories.flatten.toFinset := by
  refine ⟨fun history hhistory pc hpc => ⟨(h.pc history hhistory pc hpc).1, ?_⟩, hcounted, h.card⟩
  exact List.mem_toFinset.mpr (List.mem_flatten_of_mem hhistory hpc)

lemma counted_of_length {histories : List (List ℕ)}
    (h : ∀ history ∈ histories, history.length < 2 ^ 32) : Counted histories :=
  fun history hhistory _ => List.count_le_length.trans_lt (h history hhistory)

end SyncThreads

open SyncThreads in
/-- **The barrier check with narrow program counters.** When the last thread ends, exactly the
threads are reported that have executed a barrier less often than another one, and the tables are
empty afterwards, if no thread but the first has executed a barrier at a program counter from
`2 ^ 32` on and no thread has executed one `2 ^ 32` times. When all threads have executed the same
barriers equally often, the check is right only then. -/
theorem checkSyncThreads_right (histories : List (List ℕ)) (hfits : Fits histories) :
    (Counted histories ∧ Narrow histories → CheckedRight histories) ∧
      (Counted histories →
        (∀ history ∈ histories, ∀ other ∈ histories, ∀ pc,
          history.count pc = other.count pc) →
        (CheckedRight histories ↔ Narrow histories)) := by
  have hnarrow : Counted histories ∧ Narrow histories → CheckedRight histories :=
    fun h => checkedRight_of_room (hfits.room h.1) h.2
  refine ⟨hnarrow, fun hcounted hsame => ⟨fun hright history hhistory pc hpc => ?_, fun h =>
    hnarrow ⟨hcounted, h⟩⟩⟩
  by_contra hwide
  exact not_checkedRight_of_wide (hfits.room hcounted) hsame hhistory hpc (not_lt.mp hwide) hright

open SyncThreads in
/-- Two threads, of which the second executes a barrier less often. -/
theorem checkSyncThreads_right_two : CheckedRight [[8, 8, 9], [9, 8]] :=
  (checkSyncThreads_right [[8, 8, 9], [9, 8]] ⟨by decide, by decide⟩).1
    ⟨counted_of_length (by decide), by unfold Narrow; decide⟩

open SyncThreads in
/-- Two threads that execute the same barrier at a wide program counter. -/
theorem checkSyncThreads_wide : ¬ ∀ histories, Fits histories → CheckedRight histories := by
  intro hall
  have hfits : Fits [[2 ^ 32 + 8], [2 ^ 32 + 8]] := ⟨by decide, by decide⟩
  refine @not_checkedRight_of_wide (2 ^ 32 + 8) [2 ^ 32 + 8] _ _
    (hfits.room (counted_of_length (by decide))) ?_ List.mem_cons_self List.mem_cons_self
    (Nat.le_add_right _ _) (hall _ hfits)
  simp

end MsSanitizer
