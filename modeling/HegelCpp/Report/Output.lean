import HegelCpp.Logic.StableSort
import Mathlib.Logic.Function.Iterate
import Mathlib.Order.Nat

/-! The output of a test case whose lines are buffered for a nondeterministic
failure report: the handles, `note`, and the grouping of the recorded lines. -/
namespace Hegel

open Logic

inductive Verbosity where
  | quiet
  | normal
  | verbose
  | debug
  deriving DecidableEq, Repr

/-- The fields of `TestCaseData` that decide what is recorded. The live copy on
standard error is not recorded and left out. -/
structure TestCaseData where
  isFinal : Bool
  verbosity : Verbosity
  noteIndent : Nat := 0
  workerIndex : Option Nat := none
  bufferOutput : Bool := false
  deriving DecidableEq, Repr

/-- Ghost: who emitted a line. A worker emits in a round, through a handle that
is `depth` clones away from its own. -/
inductive Emitter where
  | main
  | header (round : Nat)
  | worker (index round depth : Nat)
  deriving DecidableEq, Repr

structure WorkerOutputLine where
  worker : Option Nat
  text : String
  emitter : Emitter
  deriving DecidableEq, Repr

namespace TestCaseData

/-- `TestCaseData::should_log`. -/
def shouldLog (data : TestCaseData) : Bool :=
  match data.verbosity with
  | .quiet => false
  | .normal => data.isFinal || data.bufferOutput
  | .verbose | .debug => true

/-- `TestCase::clone`. The new `TestCaseData` is built from the fields it is
given; the worker's index is not among them. -/
def clone (data : TestCaseData) : TestCaseData :=
  { isFinal := data.isFinal, verbosity := data.verbosity, noteIndent := data.noteIndent
    bufferOutput := data.bufferOutput }

/-- `set_concurrent_worker`. -/
def setConcurrentWorker (data : TestCaseData) (index : Nat) : TestCaseData :=
  { data with workerIndex := some index }

def indentPrefix (data : TestCaseData) : String :=
  String.ofList (List.replicate (2 * data.noteIndent) ' ')

/-- The attribution in front of a line; `elapsed` is the worker's clock. -/
def workerPrefix (data : TestCaseData) (elapsed : String) : String :=
  match data.workerIndex with
  | some index => "[worker " ++ toString index ++ " +" ++ elapsed ++ "ms] "
  | none => ""

def splitLines (message : String) : List String :=
  (message.toList.splitOn '\n').map String.ofList

/-- A note on the handle is recorded. -/
def records (data : TestCaseData) : Bool := data.shouldLog && data.bufferOutput

/-- `TestCase::note`: the lines it adds to `output_lines`. -/
def note (data : TestCaseData) (elapsed message : String) (emitter : Emitter) :
    List WorkerOutputLine :=
  if data.records then
    (splitLines message).map fun line =>
      { worker := data.workerIndex
        text := data.workerPrefix elapsed ++ data.indentPrefix ++ line
        emitter }
  else []

variable {data : TestCaseData} {elapsed message : String} {emitter : Emitter}

/-- A line carries the index of the handle and the emitter it came from. -/
theorem of_mem_note {line : WorkerOutputLine} (h : line ∈ data.note elapsed message emitter) :
    line.worker = data.workerIndex ∧ line.emitter = emitter ∧ data.records = true := by
  unfold note at h
  split at h
  · next hRecords =>
      obtain ⟨_, _, rfl⟩ := List.mem_map.mp h
      exact ⟨rfl, rfl, hRecords⟩
  · cases h

/-- A note that is recorded has at least one line. -/
theorem note_ne_nil (hRecords : data.records = true) : data.note elapsed message emitter ≠ [] := by
  rw [note, if_pos hRecords, splitLines]
  simp [List.splitOn_ne_nil]

theorem records_iterate (depth : Nat) : (clone^[depth] data).records = data.records := by
  induction depth generalizing data with
  | zero => rfl
  | succ depth ih => exact ih

@[simp] theorem workerIndex_clone : data.clone.workerIndex = none := rfl

/-- Cloning at least once loses the attribution. -/
theorem workerIndex_iterate (depth : Nat) :
    (clone^[depth] data).workerIndex = if depth = 0 then data.workerIndex else none := by
  cases depth with
  | zero => rfl
  | succ depth => rw [Function.iterate_succ_apply', workerIndex_clone, if_neg (Nat.succ_ne_zero _)]

end TestCaseData

/-- The comparison key of a grouped line, which has a worker. -/
def WorkerOutputLine.key (line : WorkerOutputLine) : Nat := line.worker.getD 0

/-- The buffered lines of the current round, sorted stably by worker. -/
def groupedWorkerLines (round : List WorkerOutputLine) : List WorkerOutputLine :=
  StableSort.sortBy WorkerOutputLine.key round

/-- One record of the loop in `group_concurrent_output`: the lines so far, and
the buffered round. -/
def groupRecord (acc : List WorkerOutputLine × List WorkerOutputLine)
    (record : WorkerOutputLine) : List WorkerOutputLine × List WorkerOutputLine :=
  match record.worker with
  | some _ => (acc.1, acc.2 ++ [record])
  | none => (acc.1 ++ groupedWorkerLines acc.2 ++ [record], [])

def groupRecords (records : List WorkerOutputLine) : List WorkerOutputLine :=
  let acc := records.foldl groupRecord ([], [])
  acc.1 ++ groupedWorkerLines acc.2

/-- `group_concurrent_output`. -/
def groupConcurrentOutput (records : List WorkerOutputLine) : List String :=
  (groupRecords records).map (·.text)

theorem groupedWorkerLines_perm (round : List WorkerOutputLine) :
    (groupedWorkerLines round).Perm round := StableSort.sortBy_perm WorkerOutputLine.key round

private theorem foldl_groupRecord_perm (records : List WorkerOutputLine)
    (acc : List WorkerOutputLine × List WorkerOutputLine) :
    ((records.foldl groupRecord acc).1 ++ (records.foldl groupRecord acc).2).Perm
      (acc.1 ++ acc.2 ++ records) := by
  induction records generalizing acc with
  | nil => simp
  | cons record rest ih =>
      apply (ih (groupRecord acc record)).trans
      unfold groupRecord
      cases record.worker with
      | some index => simp
      | none =>
          have hSorted := (groupedWorkerLines_perm acc.2).append_left acc.1
          simpa using hSorted.append_right (record :: rest)

/-- No line is lost or repeated. -/
theorem groupRecords_perm (records : List WorkerOutputLine) :
    (groupRecords records).Perm records := by
  have hSorted := (groupedWorkerLines_perm (records.foldl groupRecord ([], [])).2).append_left
    (records.foldl groupRecord ([], [])).1
  exact hSorted.trans (by simpa using foldl_groupRecord_perm records ([], []))

/-- The lines already grouped only stand in front. -/
private theorem foldl_groupRecord (records lines round : List WorkerOutputLine) :
    records.foldl groupRecord (lines, round) =
      (lines ++ (records.foldl groupRecord ([], round)).1,
        (records.foldl groupRecord ([], round)).2) := by
  induction records generalizing lines round with
  | nil => simp
  | cons record rest ih =>
      simp only [List.foldl_cons, groupRecord]
      cases record.worker with
      | some index => exact ih lines _
      | none =>
          simp only
          rw [ih, ih ([] ++ groupedWorkerLines round ++ [record])]
          simp

/-- A line without a worker ends the round before it. -/
theorem groupRecords_append (before rest : List WorkerOutputLine) {record : WorkerOutputLine}
    (hMain : record.worker = none) :
    groupRecords (before ++ record :: rest) =
      groupRecords before ++ record :: groupRecords rest := by
  unfold groupRecords
  simp only [List.foldl_append, List.foldl_cons]
  rw [show ∀ acc, groupRecord acc record = (acc.1 ++ groupedWorkerLines acc.2 ++ [record], []) by
    intro acc
    simp [groupRecord, hMain], foldl_groupRecord]
  simp

/-- Lines that all have a worker form one round. -/
theorem groupRecords_round {round : List WorkerOutputLine}
    (h : ∀ record ∈ round, record.worker ≠ none) : groupRecords round = groupedWorkerLines round := by
  have hFold (start : List WorkerOutputLine) :
      round.foldl groupRecord ([], start) = ([], start ++ round) := by
    induction round generalizing start with
    | nil => simp
    | cons record rest ih =>
        obtain ⟨index, hIndex⟩ := Option.ne_none_iff_exists'.mp (h record List.mem_cons_self)
        rw [List.foldl_cons, groupRecord, hIndex]
        simp only
        rw [ih fun other hMem => h other (List.mem_cons_of_mem _ hMem)]
        simp
  unfold groupRecords
  rw [hFold []]
  rfl

end Hegel
