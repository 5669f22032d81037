import MsSanitizer.PipeLineSteps

/-!
# The queues of events

The model of `SanEventQueue`: events in chunks of fixed capacity, with a position in the first
chunk and a counter of 32 bits. A chunk that is used up is dropped. The pipeline works on lists;
here the chunks are shown to be such a list, as long as a queue holds fewer than `2 ^ 32` events.
-/

namespace MsSanitizer

open EventDef PipeLine

structure SanEventQueue where
  chunks : List (List SanEvent) := []
  head : ℕ := 0
  size : ℕ := 0

namespace SanEventQueue

def chunkCap : ℕ := 64

def ensureChunk (q : SanEventQueue) : SanEventQueue :=
  if q.chunks = [] ∨ (q.chunks.getLast?.getD []).length = chunkCap then
    { q with chunks := q.chunks ++ [[]] }
  else q

def push (q : SanEventQueue) (event : SanEvent) : SanEventQueue :=
  let q := q.ensureChunk
  { q with
    chunks := q.chunks.dropLast ++ [q.chunks.getLast?.getD [] ++ [event]]
    size := (q.size + 1) % 2 ^ 32 }

def front (q : SanEventQueue) : Option SanEvent := (q.chunks.headD [])[q.head]?

def pop (q : SanEventQueue) : SanEventQueue :=
  if q.head + 1 = (q.chunks.headD []).length then
    { chunks := q.chunks.tail, head := 0, size := (q.size + 2 ^ 32 - 1) % 2 ^ 32 }
  else { q with head := q.head + 1, size := (q.size + 2 ^ 32 - 1) % 2 ^ 32 }

def empty (q : SanEventQueue) : Bool := q.size == 0

def toList (q : SanEventQueue) : List SanEvent := q.chunks.flatten.drop q.head

/-- No chunk is empty, and the position is in the first one. -/
structure Good (q : SanEventQueue) : Prop where
  nonempty : ∀ c ∈ q.chunks, c ≠ []
  head : q.chunks = [] ∧ q.head = 0 ∨ q.head < (q.chunks.headD []).length
  size : q.size = q.toList.length % 2 ^ 32

variable {q : SanEventQueue}

lemma good_default : Good {} := ⟨by simp, .inl ⟨rfl, rfl⟩, rfl⟩

/-- The chunks of a queue after a push: the last one grows, or a new one comes. -/
lemma push_cases (q : SanEventQueue) (e : SanEvent) :
    (q.push e).head = q.head ∧ (q.push e).size = (q.size + 1) % 2 ^ 32 ∧
      ((q.push e).chunks = q.chunks ++ [[e]] ∨
        ∃ init last, q.chunks = init ++ [last] ∧ (q.push e).chunks = init ++ [last ++ [e]]) := by
  unfold push ensureChunk
  split_ifs with hnew
  · refine ⟨rfl, rfl, .inl ?_⟩
    simp
  · refine ⟨rfl, rfl, .inr ?_⟩
    have hne : q.chunks ≠ [] := fun h => hnew (.inl h)
    refine ⟨q.chunks.dropLast, q.chunks.getLast hne, (List.dropLast_append_getLast hne).symm, ?_⟩
    dsimp only
    rw [List.getLast?_eq_some_getLast hne, Option.getD_some]

lemma Good.head_le (h : Good q) : q.head ≤ q.chunks.flatten.length := by
  rcases h.head with ⟨-, h0⟩ | hlt
  · rw [h0]
    exact Nat.zero_le _
  · cases hc : q.chunks with
    | nil => rw [hc] at hlt; exact absurd hlt (Nat.not_lt_zero _)
    | cons c cs =>
      rw [hc, List.headD_cons] at hlt
      rw [List.flatten_cons, List.length_append]
      omega

lemma Good.push (h : Good q) (e : SanEvent) :
    Good (q.push e) ∧ (q.push e).toList = q.toList ++ [e] := by
  obtain ⟨hhead, hsize, hchunks⟩ := q.push_cases e
  have hflat : (q.push e).chunks.flatten = q.chunks.flatten ++ [e] := by
    rcases hchunks with heq | ⟨init, last, hq, heq⟩
    · rw [heq, List.flatten_append, List.flatten_singleton]
    · rw [heq, hq, List.flatten_append, List.flatten_append, List.flatten_singleton,
        List.flatten_singleton, List.append_assoc]
  have hlist : (q.push e).toList = q.toList ++ [e] := by
    rw [toList, hflat, hhead, List.drop_append_of_le_length h.head_le, toList]
  refine ⟨⟨?_, ?_, ?_⟩, hlist⟩
  · intro c hc
    rcases hchunks with heq | ⟨init, last, hq, heq⟩
    · rw [heq, List.mem_append, List.mem_singleton] at hc
      rcases hc with hc | rfl
      · exact h.nonempty c hc
      · exact List.cons_ne_nil _ _
    · rw [heq, List.mem_append, List.mem_singleton] at hc
      rcases hc with hc | rfl
      · exact h.nonempty c (by rw [hq]; exact List.mem_append_left _ hc)
      · exact List.append_ne_nil_of_right_ne_nil _ (List.cons_ne_nil _ _)
  · refine .inr ?_
    rw [hhead]
    rcases hchunks with heq | ⟨init, last, hq, heq⟩
    · rw [heq]
      rcases h.head with ⟨hnil, h0⟩ | hlt
      · rw [hnil, h0]
        exact Nat.one_pos
      · cases hc : q.chunks with
        | nil => rw [hc] at hlt; exact absurd hlt (Nat.not_lt_zero _)
        | cons c cs => rw [hc] at hlt; exact hlt
    · rcases h.head with ⟨hnil, -⟩ | hlt
      · rw [hnil] at hq
        exact absurd hq.symm (List.append_ne_nil_of_right_ne_nil _ (List.cons_ne_nil _ _))
      · rw [heq]
        rw [hq] at hlt
        cases init with
        | nil =>
          rw [List.nil_append, List.headD_cons] at hlt ⊢
          rw [List.length_append]
          exact Nat.lt_add_right _ hlt
        | cons c cs => exact hlt
  · rw [hsize, hlist, List.length_append, List.length_singleton, h.size, Nat.mod_add_mod]

lemma Good.front_eq (h : Good q) : q.front = q.toList.head? := by
  rw [front, toList, List.head?_drop]
  cases hc : q.chunks with
  | nil => rfl
  | cons c cs =>
    rcases h.head with ⟨hnil, -⟩ | hlt
    · rw [hc] at hnil
      cases hnil
    · rw [hc, List.headD_cons] at hlt
      rw [List.headD_cons, List.flatten_cons, List.getElem?_append_left hlt]

lemma Good.pop (h : Good q) (hne : q.toList ≠ []) :
    Good q.pop ∧ q.pop.toList = q.toList.tail := by
  cases hc : q.chunks with
  | nil =>
    rw [toList, hc, List.flatten_nil, List.drop_nil] at hne
    exact absurd rfl hne
  | cons c cs =>
    have hlt : q.head < c.length := by
      rcases h.head with ⟨hnil, -⟩ | hlt
      · rw [hc] at hnil
        cases hnil
      · rwa [hc] at hlt
    have hlist : q.pop.toList = q.toList.tail := by
      rw [SanEventQueue.pop, hc, List.headD_cons, toList, toList, hc, List.flatten_cons,
        List.tail_drop]
      split_ifs with hlast
      · rw [hlast, List.drop_left' rfl]
        rfl
      · rfl
    have hsize : q.pop.size = q.pop.toList.length % 2 ^ 32 := by
      have hpos := List.length_pos_of_ne_nil hne
      have hs : q.pop.size = (q.size + 2 ^ 32 - 1) % 2 ^ 32 := by
        rw [SanEventQueue.pop]
        split_ifs <;> rfl
      rw [hs, hlist, List.length_tail, h.size]
      omega
    refine ⟨⟨?_, ?_, hsize⟩, hlist⟩
    · intro a ha
      refine h.nonempty a ?_
      rw [SanEventQueue.pop] at ha
      split_ifs at ha
      · exact List.mem_of_mem_tail ha
      · exact ha
    · rw [SanEventQueue.pop, hc, List.headD_cons]
      split_ifs with hlast
      · rw [List.tail_cons]
        cases hcs : cs with
        | nil => exact .inl ⟨rfl, rfl⟩
        | cons c' cs' =>
          refine .inr (List.length_pos_of_ne_nil (h.nonempty c' ?_))
          rw [hc, hcs]
          simp
      · refine .inr ?_
        dsimp only
        rw [List.headD_cons]
        omega

/-- The counter tells an empty queue, as long as it has not wrapped. -/
lemma Good.empty_iff (h : Good q) (hlt : q.toList.length < 2 ^ 32) :
    q.empty = true ↔ q.toList = [] := by
  rw [empty, beq_iff_eq, h.size, Nat.mod_eq_of_lt hlt, List.length_eq_zero_iff]

lemma Good.foldl_push (h : Good q) (events : List SanEvent) :
    Good (events.foldl SanEventQueue.push q) ∧
      (events.foldl SanEventQueue.push q).toList = q.toList ++ events := by
  induction events generalizing q with
  | nil => exact ⟨h, (List.append_nil _).symm⟩
  | cons e events ih =>
    obtain ⟨hgood, hlist⟩ := h.push e
    obtain ⟨hgood', hlist'⟩ := ih hgood
    refine ⟨hgood', ?_⟩
    rw [List.foldl_cons, hlist', hlist, List.append_assoc, List.singleton_append]

end SanEventQueue

/-! ## The queues of a container -/

/-- Queues of chunks that hold what the container of the model holds. -/
structure Chunked (ques : ℕ → SanEventQueue) (c : EventContainer) : Prop where
  good : ∀ i, (ques i).Good
  view : ∀ i, (ques i).toList = c.ques i

namespace Chunked

variable {ques : ℕ → SanEventQueue} {c : EventContainer}

lemma init (blockNum deviceNum : ℕ) : Chunked (fun _ => {}) (.init blockNum deviceNum) :=
  ⟨fun _ => SanEventQueue.good_default, fun _ => rfl⟩

lemma push (h : Chunked ques c) (p : Push) :
    Chunked (fun i => if c.target p = some i then
      (EventContainer.parts p.event).foldl .push (ques i) else ques i) (c.push p) := by
  refine ⟨fun i => ?_, fun i => ?_⟩
  · split_ifs
    · exact ((h.good i).foldl_push _).1
    · exact h.good i
  · rw [EventContainer.push_ques]
    split_ifs
    · rw [((h.good i).foldl_push _).2, h.view]
    · rw [h.view, List.append_nil]

/-- `Pop` of the container, after the test that its queue is not empty. -/
lemma pop (h : Chunked ques c) (hne : c.ques c.getQueIndex ≠ []) :
    Chunked (fun i => if i = c.getQueIndex then (ques i).pop else ques i) c.pop := by
  refine ⟨fun i => ?_, fun i => ?_⟩
  · split_ifs with hi
    · refine ((h.good i).pop ?_).1
      rw [h.view, hi]
      exact hne
    · exact h.good i
  · rw [EventContainer.pop_ques]
    split_ifs with hi
    · rw [((h.good i).pop (by rw [h.view, hi]; exact hne)).2, h.view]
    · exact h.view i

/-- `Front` and `Empty` of a queue, where the counter has not wrapped. -/
lemma front_empty (h : Chunked ques c) (i : ℕ) (hlt : (c.ques i).length < 2 ^ 32) :
    (ques i).front = (c.ques i).head? ∧ (ques i).empty = (c.ques i).isEmpty := by
  refine ⟨by rw [(h.good i).front_eq, h.view], ?_⟩
  rw [Bool.eq_iff_iff, (h.good i).empty_iff (by rw [h.view]; exact hlt), h.view,
    List.isEmpty_iff]

end Chunked

end MsSanitizer
