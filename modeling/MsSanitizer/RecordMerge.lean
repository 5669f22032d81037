import MsSanitizer.Compaction
import MsSanitizer.MemRecords

/-!
# Merging as records are made

`MemRecordSink` merges a record into the last one when it is made, `MergeRecords` compacts the
finished vector. Both join a record to the last one that was kept, in the same cases.
-/

namespace MsSanitizer.RecordMerge

open RecordDefs EventDef Words MemRecords

def joins (last record : MemOpRecord) : Bool :=
  isSameOp last record && isContinuousAddr last record

lemma emplaceBack_eq (records : List MemOpRecord) (record : MemOpRecord) :
    emplaceBack records record = Compaction.push joins MemOpRecord.grow records record := by
  unfold emplaceBack Compaction.push joins
  cases records.getLast? <;> rfl

lemma sink_eq_foldl (records l : List MemOpRecord) :
    sink records l = l.foldl (Compaction.push joins MemOpRecord.grow) records := by
  unfold sink
  congr 1
  funext records record
  exact emplaceBack_eq records record

lemma mergeRecords_eq_compact (records : List MemOpRecord) :
    mergeRecords records = Compaction.compact joins MemOpRecord.grow {} records := rfl

/-- `MergeRecords` gives what a new sink gives. -/
lemma mergeRecords_eq_sink (records : List MemOpRecord) :
    mergeRecords records = sink [] records := by
  rw [mergeRecords_eq_compact, Compaction.compact_eq_foldl, sink_eq_foldl]

/-- A record that has taken in others starts where it did, with the same kind of access. -/
lemma joins_grow (a b c : MemOpRecord) : joins a (MemOpRecord.grow b c) = joins a b := rfl

lemma mergeRecords_idempotent (records : List MemOpRecord) :
    mergeRecords (mergeRecords records) = mergeRecords records := by
  rw [mergeRecords_eq_sink records, mergeRecords_eq_sink, sink_eq_foldl, sink_eq_foldl]
  exact Compaction.foldl_push_idempotent joins_grow records

lemma sink_append (records l l' : List MemOpRecord) :
    sink records (l ++ l') = sink (sink records l) l' := by
  simp [sink]

/-- Whether the records are merged while they are converted or afterwards, after any records
that were there before. -/
lemma convertEventsToRecords_eq (initCheck : Bool) (events : List SanEvent)
    (records : List MemOpRecord) :
    convertEventsToRecords initCheck events records =
      mergeRecords (records ++ events.flatMap convertEventRecords) := by
  cases initCheck with
  | false => rfl
  | true =>
    rw [mergeRecords_eq_sink, sink_append, ← mergeRecords_eq_sink]
    rfl

/-- **The sink merges as `MergeRecords` does.** For every list of events, after every prefix of
the events and after every prefix of their records, the sink holds what `MergeRecords` makes of
the records so far; and `MergeRecords` changes nothing in its own result. -/
theorem sink_eq_mergeRecords (events : List SanEvent) :
    (∀ n, sink [] ((events.take n).flatMap convertEventRecords) =
      mergeRecords ((events.take n).flatMap convertEventRecords)) ∧
    (∀ n, sink [] ((events.flatMap convertEventRecords).take n) =
      mergeRecords ((events.flatMap convertEventRecords).take n)) ∧
    (∀ records, convertEventsToRecords true events records =
      convertEventsToRecords false events records) ∧
    ∀ records, mergeRecords (mergeRecords records) = mergeRecords records := by
  refine ⟨fun n => ?_, fun n => ?_, fun records => ?_, mergeRecords_idempotent⟩
  · rw [mergeRecords_eq_sink]
  · rw [mergeRecords_eq_sink]
  · rw [convertEventsToRecords_eq, convertEventsToRecords_eq]

end MsSanitizer.RecordMerge
