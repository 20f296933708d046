import HegelCpp.Report.Output
import Mathlib.Data.List.Forall2

/-! Grouped output does not depend on the schedule. The lines without a worker
cut the records into segments; grouping rearranges every segment by itself. -/
namespace Hegel

open Logic

variable {α β : Type}

namespace WorkerOutputLine

/-- A line without a worker. -/
def isSeparator (record : WorkerOutputLine) : Bool := record.worker.isNone

/-- A line of the worker with this index. -/
def isOf (index : Nat) (record : WorkerOutputLine) : Bool := record.worker == some index

end WorkerOutputLine

def segments (records : List WorkerOutputLine) : List (List WorkerOutputLine) :=
  records.splitOnP WorkerOutputLine.isSeparator

def separators (records : List WorkerOutputLine) : List WorkerOutputLine :=
  records.filter WorkerOutputLine.isSeparator

/-- Segments with the separators put back between them. -/
def spliced : List (List α) → List α → List α
  | [], _ => []
  | segment :: _, [] => segment
  | segment :: segments, separator :: separators =>
      segment ++ separator :: spliced segments separators

theorem map_spliced (f : α → β) (segments : List (List α)) (separators : List α) :
    (spliced segments separators).map f = spliced (segments.map (List.map f)) (separators.map f) := by
  induction segments generalizing separators with
  | nil => rfl
  | cons segment segments ih =>
      cases separators with
      | nil => rfl
      | cons separator separators => simp [spliced, ih]

theorem segments_round {round : List WorkerOutputLine}
    (h : ∀ record ∈ round, record.isSeparator = false) :
    segments round = [round] ∧ separators round = [] :=
  ⟨List.splitOnP_eq_singleton h, by simpa [separators] using h⟩

theorem segments_append {round : List WorkerOutputLine} (rest : List WorkerOutputLine)
    {record : WorkerOutputLine} (h : ∀ record ∈ round, record.isSeparator = false)
    (hSeparator : record.isSeparator = true) :
    segments (round ++ record :: rest) = round :: segments rest ∧
      separators (round ++ record :: rest) = record :: separators rest := by
  constructor
  · exact List.splitOnP_append_cons_of_forall_mem h record hSeparator rest
  · have hRound := (segments_round h).2
    unfold separators at hRound ⊢
    rw [List.filter_append, hRound, List.filter_cons_of_pos hSeparator]
    rfl

/-- Records are their first segment and what a separator leaves behind it. -/
theorem records_induction {p : List WorkerOutputLine → Prop}
    (round : ∀ round, (∀ record ∈ round, record.isSeparator = false) → p round)
    (append : ∀ round record rest, (∀ record ∈ round, record.isSeparator = false) →
      record.isSeparator = true → p rest → p (round ++ record :: rest))
    (records : List WorkerOutputLine) : p records := by
  have hWaiting : ∀ waiting, (∀ record ∈ waiting, record.isSeparator = false) →
      p (waiting ++ records) := by
    induction records with
    | nil =>
        intro waiting hWaiting
        rw [List.append_nil]
        exact round waiting hWaiting
    | cons record rest ih =>
        intro waiting hWaiting
        cases hSeparator : record.isSeparator with
        | true => exact append waiting record rest hWaiting hSeparator (ih [] (List.forall_mem_nil _))
        | false =>
            rw [List.append_cons]
            apply ih
            rw [List.forall_mem_append, List.forall_mem_singleton]
            exact ⟨hWaiting, hSeparator⟩
  exact hWaiting [] (List.forall_mem_nil _)

/-- The segments and the separators are all there is. -/
theorem spliced_segments (records : List WorkerOutputLine) :
    spliced (segments records) (separators records) = records := by
  induction records using records_induction with
  | round round hRound =>
      rw [(segments_round hRound).1, (segments_round hRound).2]
      rfl
  | append round record rest hRound hSeparator ih =>
      obtain ⟨hSegments, hSeparators⟩ := segments_append rest hRound hSeparator
      rw [hSegments, hSeparators, spliced, ih]

theorem isSeparator_eq_true {record : WorkerOutputLine} :
    record.isSeparator = true ↔ record.worker = none := Option.isNone_iff_eq_none

theorem isSeparator_eq_false {record : WorkerOutputLine} :
    record.isSeparator = false ↔ record.worker ≠ none := by
  rw [← Bool.not_eq_true, isSeparator_eq_true]

theorem of_mem_segments {records segment : List WorkerOutputLine}
    (h : segment ∈ segments records) : ∀ record ∈ segment, record.isSeparator = false := by
  induction records using records_induction with
  | round round hRound =>
      rw [(segments_round hRound).1, List.mem_singleton] at h
      rwa [h]
  | append round record rest hRound hSeparator ih =>
      rw [(segments_append rest hRound hSeparator).1, List.mem_cons] at h
      rcases h with rfl | h
      · exact hRound
      · exact ih h

/-- Every segment is grouped by itself. -/
theorem groupRecords_eq (records : List WorkerOutputLine) :
    groupRecords records =
      spliced ((segments records).map groupedWorkerLines) (separators records) := by
  induction records using records_induction with
  | round round hRound =>
      rw [(segments_round hRound).1, (segments_round hRound).2,
        groupRecords_round fun record hRecord => isSeparator_eq_false.mp (hRound record hRecord)]
      rfl
  | append round record rest hRound hSeparator ih =>
      obtain ⟨hSegments, hSeparators⟩ := segments_append rest hRound hSeparator
      rw [hSegments, hSeparators, groupRecords_append round rest (isSeparator_eq_true.mp hSeparator),
        ih, groupRecords_round fun record hRecord =>
          isSeparator_eq_false.mp (hRound record hRecord)]
      rfl

/-- The lines of a segment in the order of the workers, each worker's lines in
their own order. -/
structure Arranges (segment lines : List WorkerOutputLine) : Prop where
  perm : lines.Perm segment
  ascending : lines.Pairwise fun a b =>
    ∀ i j, a.worker = some i → b.worker = some j → i ≤ j
  ofWorker : ∀ index, lines.filter (·.isOf index) = segment.filter (·.isOf index)

/-- Both have the same text lines for every worker. -/
def SameTraces (segment segment' : List WorkerOutputLine) : Prop :=
  ∀ index, (segment.filter (·.isOf index)).map (·.text) =
    (segment'.filter (·.isOf index)).map (·.text)

theorem key_eq_iff {record : WorkerOutputLine} (h : record.isSeparator = false) (index : Nat) :
    record.key = index ↔ record.isOf index = true := by
  obtain ⟨i, hWorker⟩ := Option.ne_none_iff_exists'.mp (isSeparator_eq_false.mp h)
  simp [WorkerOutputLine.key, WorkerOutputLine.isOf, hWorker]

section Segment

variable {segment : List WorkerOutputLine}

theorem filter_key_eq (h : ∀ record ∈ segment, record.isSeparator = false) (index : Nat) :
    segment.filter (fun record => record.key = index) = segment.filter (·.isOf index) := by
  apply List.filter_congr
  intro record hRecord
  rw [Bool.eq_iff_iff, decide_eq_true_iff]
  exact key_eq_iff (h record hRecord) index

theorem groupedWorkerLines_arranges (h : ∀ record ∈ segment, record.isSeparator = false) :
    Arranges segment (groupedWorkerLines segment) where
  perm := groupedWorkerLines_perm segment
  ascending := by
    apply (StableSort.pairwise_sortBy WorkerOutputLine.key segment).imp
    intro a b hLe i j hA hB
    simpa [WorkerOutputLine.key, hA, hB] using hLe
  ofWorker index := by
    have hGrouped : ∀ record ∈ groupedWorkerLines segment, record.isSeparator = false := by
      intro record hRecord
      exact h record ((groupedWorkerLines_perm segment).mem_iff.mp hRecord)
    rw [← filter_key_eq h, ← filter_key_eq hGrouped]
    exact StableSort.filter_sortBy WorkerOutputLine.key index segment

/-- A line as far as it is printed: its worker and its text. -/
def WorkerOutputLine.printed (record : WorkerOutputLine) : Nat × String :=
  (record.key, record.text)

theorem filter_printed (lines : List WorkerOutputLine) (index : Nat) :
    (lines.map WorkerOutputLine.printed).filter (fun line => line.1 = index) =
      ((lines.filter (fun record => record.key = index)).map (·.text)).map (index, ·) := by
  rw [List.filter_map, List.map_map]
  apply List.map_congr_left
  intro record hRecord
  have hKey : record.key = index := of_decide_eq_true (List.mem_filter.mp hRecord).2
  rw [WorkerOutputLine.printed, hKey]
  rfl

theorem pairwise_printed (segment : List WorkerOutputLine) :
    ((groupedWorkerLines segment).map WorkerOutputLine.printed).Pairwise
      fun a b => a.1 ≤ b.1 :=
  List.pairwise_map.mpr (StableSort.pairwise_sortBy WorkerOutputLine.key segment)

/-- Segments with the same lines for every worker are printed alike. -/
theorem printed_groupedWorkerLines {segment' : List WorkerOutputLine}
    (h : ∀ record ∈ segment, record.isSeparator = false)
    (h' : ∀ record ∈ segment', record.isSeparator = false) (hSame : SameTraces segment segment') :
    (groupedWorkerLines segment).map (·.text) = (groupedWorkerLines segment').map (·.text) := by
  have hPrinted : (groupedWorkerLines segment).map WorkerOutputLine.printed =
      (groupedWorkerLines segment').map WorkerOutputLine.printed := by
    apply StableSort.eq_of_filter_eq Prod.fst (pairwise_printed segment) (pairwise_printed segment')
    intro index
    rw [filter_printed, filter_printed, groupedWorkerLines, groupedWorkerLines,
      StableSort.filter_sortBy, StableSort.filter_sortBy, filter_key_eq h, filter_key_eq h',
      hSame index]
  have hTexts := congrArg (List.map Prod.snd) hPrinted
  rw [List.map_map, List.map_map] at hTexts
  exact hTexts

theorem printed_segments {segments segments' : List (List WorkerOutputLine)}
    (h : ∀ segment ∈ segments, ∀ record ∈ segment, record.isSeparator = false)
    (h' : ∀ segment ∈ segments', ∀ record ∈ segment, record.isSeparator = false)
    (hSame : List.Forall₂ SameTraces segments segments') :
    (segments.map groupedWorkerLines).map (List.map (·.text)) =
      (segments'.map groupedWorkerLines).map (List.map (·.text)) := by
  induction hSame with
  | nil => rfl
  | cons hFirst hRest ih =>
      rw [List.forall_mem_cons] at h h'
      simp only [List.map_cons, List.cons.injEq]
      exact ⟨printed_groupedWorkerLines h.1 h'.1 hFirst, ih h.2 h'.2⟩

end Segment

/-- Grouping permutes the lines. The separators stay where they are, the lines
between two of them stand in the order of the workers and each worker's lines in
their own order, and two schedules of the same traces are printed alike. -/
theorem grouped_output_independent_of_schedule (records : List WorkerOutputLine) :
    (groupConcurrentOutput records).Perm (records.map (·.text)) ∧
    records = spliced (segments records) (separators records) ∧
    (∃ grouped, List.Forall₂ Arranges (segments records) grouped ∧
      groupConcurrentOutput records = (spliced grouped (separators records)).map (·.text)) ∧
    ∀ records', (separators records).map (·.text) = (separators records').map (·.text) →
      List.Forall₂ SameTraces (segments records) (segments records') →
      groupConcurrentOutput records = groupConcurrentOutput records' := by
  refine ⟨(groupRecords_perm records).map _, (spliced_segments records).symm, ?_, ?_⟩
  · refine ⟨(segments records).map groupedWorkerLines, ?_, ?_⟩
    · rw [List.forall₂_map_right_iff, List.forall₂_same]
      intro segment hSegment
      exact groupedWorkerLines_arranges (of_mem_segments hSegment)
    · rw [groupConcurrentOutput, groupRecords_eq]
  · intro records' hSeparators hSame
    rw [groupConcurrentOutput, groupConcurrentOutput, groupRecords_eq, groupRecords_eq,
      map_spliced, map_spliced, hSeparators,
      printed_segments (fun _ => of_mem_segments) (fun _ => of_mem_segments) hSame]

/-- Two workers that take turns in either order. -/
theorem grouped_output_independent_of_schedule_swap :
    groupConcurrentOutput [⟨none, "// Round 1", .main⟩, ⟨some 1, "b", .main⟩, ⟨some 0, "a", .main⟩] =
      groupConcurrentOutput
        [⟨none, "// Round 1", .main⟩, ⟨some 0, "a", .main⟩, ⟨some 1, "b", .main⟩] := by
  have hAll := grouped_output_independent_of_schedule
    [⟨none, "// Round 1", .main⟩, ⟨some 1, "b", .main⟩, ⟨some 0, "a", .main⟩]
  refine hAll.2.2.2 _ rfl ?_
  refine .cons (fun _ => rfl) (.cons ?_ .nil)
  intro index
  match index with
  | 0 => rfl
  | 1 => rfl
  | index + 2 => rfl

end Hegel
