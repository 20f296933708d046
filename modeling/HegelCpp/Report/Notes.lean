import HegelCpp.Logic.Monitor
import HegelCpp.Logic.Segments
import HegelCpp.Report.Output

/-! What `note` prints and records for a test case and its clones, which share
one mutex, one list of lines and the flag that something was printed. The loop
of `note` runs under the mutex, line by line, for both the live and the
recorded copy. -/
namespace Hegel.Notes

open Logic

/-- What `note` reads of a handle. The program sets `in_report` only where it
leaves `buffer_output` alone. -/
structure NoteData extends TestCaseData where
  inReport : Bool := false
  framed : inReport = true → bufferOutput = false

namespace NoteData

/-- The handle of `replay_failure`. -/
def replayed (verbosity : Verbosity) (inReport : Bool) : NoteData where
  isFinal := true
  verbosity := verbosity
  noteIndent := if inReport then 1 else 0
  inReport := inReport
  framed := fun _ => rfl

/-- The handle of a case in `run_from_engine`. -/
def generated (verbosity : Verbosity) (nondeterministic : Bool) : NoteData where
  isFinal := false
  verbosity := verbosity
  bufferOutput := nondeterministic
  inReport := false
  framed := nofun

def clone (data : NoteData) : NoteData :=
  { data.toTestCaseData.clone with inReport := data.inReport, framed := data.framed }

def setConcurrentWorker (data : NoteData) (index : Nat) : NoteData :=
  { data with toTestCaseData := data.toTestCaseData.setConcurrentWorker index }

/-- `NoteIndentScope`. -/
def indented (data : NoteData) : NoteData := { data with noteIndent := data.noteIndent + 1 }

/-- The line is printed now, whether or not it is recorded. -/
def emitLive (data : NoteData) : Bool :=
  !data.bufferOutput || data.verbosity == .verbose || data.verbosity == .debug

end NoteData

/-- The handles that come from one test case. A scope that ends gives back an
indent the handle had before. -/
inductive Family (root : NoteData) : NoteData → Prop where
  | root : Family root root
  | clone {data : NoteData} (h : Family root data) : Family root data.clone
  | setConcurrentWorker {data : NoteData} (h : Family root data) (index : Nat) :
      Family root (data.setConcurrentWorker index)
  | indented {data : NoteData} (h : Family root data) : Family root data.indented

/-- A call on a handle of the family. The clock is read once, and is printed as
a number. -/
structure NoteCall (root : NoteData) where
  handle : NoteData
  member : Family root handle
  message : String
  elapsed : String := ""
  plain : '\n' ∉ elapsed.toList
  emitter : Emitter := .main

variable {root : NoteData}

namespace NoteCall

/-- What stands in front of every line of the call. -/
def lead (call : NoteCall root) : String :=
  call.handle.workerPrefix call.elapsed ++ call.handle.indentPrefix

/-- The line of a segment, as it is recorded. -/
def line (call : NoteCall root) (segment : List Char) : WorkerOutputLine where
  worker := call.handle.workerIndex
  text := call.lead ++ String.ofList segment
  emitter := call.emitter

end NoteCall

/-- What the family shares. `live` is what `note` wrote to standard error.
Ghost: the calls, in the order in which they took the mutex. -/
structure Output (root : NoteData) where
  live : String := ""
  outputLines : List WorkerOutputLine := []
  printedOutput : Bool := false
  calls : List (NoteCall root) := []

namespace Output

/-- `note` before its loop. -/
def begin (out : Output root) (call : NoteCall root) : Output root where
  live :=
    if call.handle.inReport && !out.printedOutput && call.handle.emitLive then out.live ++ "\n"
    else out.live
  outputLines := out.outputLines
  printedOutput := true
  calls := out.calls ++ [call]

/-- One round of the loop. `std::endl` ends the last line as a newline does. -/
def emit (out : Output root) (call : NoteCall root) (segment : List Char) : Output root :=
  { out with
    outputLines :=
      if call.handle.bufferOutput then out.outputLines ++ [call.line segment] else out.outputLines
    live :=
      if call.handle.emitLive then out.live ++ ((call.line segment).text ++ "\n") else out.live }

/-- The loop of `note`. -/
def loop (out : Output root) (call : NoteCall root) (rest : List Char) : Output root :=
  match _h : nextSegment '\n' rest with
  | (segment, none) => out.emit call segment
  | (segment, some rest') => (out.emit call segment).loop call rest'
termination_by rest.length
decreasing_by exact length_of_nextSegment _h

/-- `TestCase::note`. -/
def note (out : Output root) (call : NoteCall root) : Output root :=
  if call.handle.shouldLog then (out.begin call).loop call call.message.toList else out

end Output

/-- Where a thread stands in `note` while it holds the mutex. -/
inductive Place (root : NoteData) where
  | entered (call : NoteCall root)
  | writing (call : NoteCall root) (rest : List Char)

inductive Writes (out : Output root) : Place root → Output root → Place root → Prop where
  | begin (call : NoteCall root) :
      Writes out (.entered call) (out.begin call) (.writing call call.message.toList)
  | line (call : NoteCall root) (rest segment rest' : List Char)
      (hNext : nextSegment '\n' rest = (segment, some rest')) :
      Writes out (.writing call rest) (out.emit call segment) (.writing call rest')

inductive Returns (out : Output root) : Place root → Output root → Prop where
  | lastLine (call : NoteCall root) (rest segment : List Char)
      (hNext : nextSegment '\n' rest = (segment, none)) :
      Returns out (.writing call rest) (out.emit call segment)

/-- The calls of `note` on the family. A call that logs nothing returns before
it takes the mutex. -/
def monitor (root : NoteData) : Monitor (Output root) (Place root) where
  init := fun out => out = {}
  enter := fun place => ∃ call, call.handle.shouldLog = true ∧ place = .entered call
  step := Writes
  leave := Returns

/-! What the sinks are to hold. -/

/-- All lines of a call. -/
def NoteCall.lines (call : NoteCall root) : List WorkerOutputLine :=
  (call.message.toList.splitOn '\n').map call.line

/-- The lines on standard error. -/
def printed (lines : List WorkerOutputLine) : String :=
  String.join (lines.map fun line => line.text ++ "\n")

/-- The blank line that opens the body of a framed report. -/
def Output.opening (out : Output root) : String :=
  if root.inReport && !out.calls.isEmpty then "\n" else ""

/-- The sinks that are in use hold the lines, and the others nothing. -/
structure Output.Holds (out : Output root) (written : List WorkerOutputLine) : Prop where
  live : out.live = if root.emitLive then out.opening ++ printed written else ""
  outputLines : out.outputLines = if root.bufferOutput then written else []
  printedOutput : out.printedOutput = !out.calls.isEmpty

/-- The calls one after the other, of which only the last may have lines left
to write. -/
def InOrder (calls : List (NoteCall root)) (written : List WorkerOutputLine) : Prop :=
  ∃ (whole : List (NoteCall root)) (current : Option (NoteCall root))
    (part : List WorkerOutputLine),
    calls = whole ++ current.toList ∧ part <+: current.toList.flatMap NoteCall.lines ∧
      written = whole.flatMap NoteCall.lines ++ part

/-- The lines of a call give its message back. -/
structure NoteCall.Splits (call : NoteCall root) : Prop where
  length : call.lines.length = call.message.toList.count '\n' + 1
  texts : ∃ segments : List String,
    call.lines.map (·.text) = segments.map (call.lead ++ ·) ∧
      "\n".intercalate segments = call.message
  oneLine : ∀ line ∈ call.lines, '\n' ∉ line.text.toList

/-! The lines of one call. -/

theorem newline_not_lead (call : NoteCall root) : '\n' ∉ call.lead.toList := by
  have hIndent : '\n' ∉ call.handle.indentPrefix.toList := by
    simp [TestCaseData.indentPrefix, List.mem_replicate]
  have hWorker : '\n' ∉ (call.handle.workerPrefix call.elapsed).toList := by
    unfold TestCaseData.workerPrefix
    cases call.handle.workerIndex with
    | none => simp
    | some index =>
        have hIndex : '\n' ∉ Nat.toDigits 10 index := fun hMem =>
          absurd (Nat.isDigit_of_mem_toDigits (by omega) (by omega) hMem) (by decide)
        simp [hIndex, call.plain]
  rw [NoteCall.lead, String.toList_append, List.mem_append]
  exact not_or.mpr ⟨hWorker, hIndent⟩

theorem intercalate_splitLines (message : String) :
    "\n".intercalate (TestCaseData.splitLines message) = message := by
  apply String.toList_injective
  have hSegments : (TestCaseData.splitLines message).map String.toList =
      message.toList.splitOn '\n' := by simp [TestCaseData.splitLines, Function.comp_def]
  rw [String.toList_intercalate, hSegments]
  exact List.intercalate_splitOn '\n'

theorem NoteCall.splits (call : NoteCall root) : call.Splits where
  length := by rw [lines, List.length_map, length_splitOn]
  texts := ⟨TestCaseData.splitLines call.message,
    by simp [lines, line, TestCaseData.splitLines, Function.comp_def],
    intercalate_splitLines call.message⟩
  oneLine := by
    intro line hLine
    obtain ⟨segment, hSegment, rfl⟩ := List.mem_map.mp hLine
    rw [NoteCall.line, String.toList_append, String.toList_ofList, List.mem_append]
    exact not_or.mpr ⟨newline_not_lead call, notMem_of_mem_splitOn hSegment⟩

/-- A call that is recorded leaves the lines that the grouping reads. -/
theorem NoteCall.lines_eq (call : NoteCall root) (hRecords : call.handle.records = true) :
    call.lines = call.handle.note call.elapsed call.message call.emitter := by
  rw [TestCaseData.note, if_pos hRecords, TestCaseData.splitLines, List.map_map]
  rfl

/-! The family. -/

/-- What no handle of the family changes. -/
theorem Family.agrees {data : NoteData} (h : Family root data) :
    data.inReport = root.inReport ∧ data.bufferOutput = root.bufferOutput ∧
      data.emitLive = root.emitLive ∧ data.shouldLog = root.shouldLog := by
  induction h with
  | root => exact ⟨rfl, rfl, rfl, rfl⟩
  | clone _ ih => exact ih
  | setConcurrentWorker _ _ ih => exact ih
  | indented _ ih => exact ih

@[simp] theorem NoteCall.inReport_eq (call : NoteCall root) :
    call.handle.inReport = root.inReport := call.member.agrees.1

@[simp] theorem NoteCall.bufferOutput_eq (call : NoteCall root) :
    call.handle.bufferOutput = root.bufferOutput := call.member.agrees.2.1

@[simp] theorem NoteCall.emitLive_eq (call : NoteCall root) :
    call.handle.emitLive = root.emitLive := call.member.agrees.2.2.1

/-- The body of a framed report is printed at once. -/
theorem NoteData.emitLive_of_inReport {data : NoteData} (h : data.inReport = true) :
    data.emitLive = true := by
  simp [emitLive, data.framed h]

/-! What each piece of `note` does to the sinks. -/

@[simp] theorem printed_append (lines more : List WorkerOutputLine) :
    printed (lines ++ more) = printed lines ++ printed more := by
  simp [printed, String.join_append]

@[simp] theorem printed_singleton (line : WorkerOutputLine) :
    printed [line] = line.text ++ "\n" := by simp [printed]

theorem holds_empty : ({} : Output root).Holds [] where
  live := by simp [Output.opening, printed]
  outputLines := by simp
  printedOutput := rfl

/-- The first call of the family opens the body, and no later one. -/
theorem Output.Holds.begin {out : Output root}
    (h : out.Holds (out.calls.flatMap NoteCall.lines)) (call : NoteCall root) :
    (out.begin call).Holds (out.calls.flatMap NoteCall.lines) where
  live := by
    obtain ⟨hLive, -, hPrinted⟩ := h
    cases hEmit : root.emitLive with
    | false => simpa [Output.begin, hEmit] using hLive
    | true =>
        cases hCalls : out.calls with
        | nil =>
            cases hReport : root.inReport <;>
              simp_all [Output.begin, Output.opening, printed]
        | cons first rest => simp_all [Output.begin, Output.opening]
  outputLines := h.outputLines
  printedOutput := by simp [Output.begin]

theorem Output.Holds.emit {out : Output root} {written : List WorkerOutputLine}
    (h : out.Holds written) (call : NoteCall root) (segment : List Char) :
    (out.emit call segment).Holds (written ++ [call.line segment]) where
  live := by
    rw [Output.emit, h.live]
    cases hEmit : root.emitLive with
    | false => simp [hEmit]
    | true => simp [hEmit, Output.opening, String.append_assoc]
  outputLines := by
    rw [Output.emit, h.outputLines]
    cases hBuffer : root.bufferOutput <;> simp [hBuffer]
  printedOutput := h.printedOutput

theorem Output.loop_of_some {out : Output root} {call : NoteCall root}
    {rest segment rest' : List Char} (hNext : nextSegment '\n' rest = (segment, some rest')) :
    out.loop call rest = (out.emit call segment).loop call rest' := by
  rw [Output.loop]
  split <;> simp_all

theorem Output.loop_of_none {out : Output root} {call : NoteCall root} {rest segment : List Char}
    (hNext : nextSegment '\n' rest = (segment, none)) :
    out.loop call rest = out.emit call segment := by
  rw [Output.loop]
  split <;> simp_all

/-! Every interleaving. -/

/-- What holds while a thread is in `note`: the lines that its call has written
and those still to come are the lines of the call. -/
def Place.Holds (out : Output root) : Place root → Prop
  | .entered _ => out.Holds (out.calls.flatMap NoteCall.lines)
  | .writing call rest => ∃ whole part, out.calls = whole ++ [call] ∧
      part ++ (rest.splitOn '\n').map call.line = call.lines ∧
      out.Holds (whole.flatMap NoteCall.lines ++ part)

theorem monitor_keeps (root : NoteData) : (monitor root).Keeps
    (fun out => out.Holds (out.calls.flatMap NoteCall.lines)) (fun place out => place.Holds out) where
  init := by
    rintro _ rfl
    exact holds_empty
  enter := by
    rintro _ out ⟨call, -, rfl⟩ h
    exact h
  step := by
    intro out place out' place' hWrites h
    cases hWrites with
    | begin call =>
        refine ⟨out.calls, [], rfl, rfl, ?_⟩
        rw [List.append_nil]
        exact h.begin call
    | line call rest segment rest' hNext =>
        obtain ⟨whole, part, hCalls, hLines, hHolds⟩ := h
        refine ⟨whole, part ++ [call.line segment], hCalls, ?_, ?_⟩
        · rw [← hLines, splitOn_of_nextSegment_some hNext]
          simp
        · rw [← List.append_assoc]
          exact hHolds.emit call segment
  leave := by
    intro out place out' hReturns h
    cases hReturns with
    | lastLine call rest segment hNext =>
        obtain ⟨whole, part, hCalls, hLines, hHolds⟩ := h
        rw [splitOn_of_nextSegment_none hNext] at hLines
        have hAll : (out.emit call segment).calls.flatMap NoteCall.lines =
            whole.flatMap NoteCall.lines ++ part ++ [call.line segment] := by
          rw [show (out.emit call segment).calls = whole ++ [call] from hCalls]
          simp [← hLines]
        rw [hAll]
        exact hHolds.emit call segment

/-- All calls so far, and none in progress. -/
theorem inOrder_all (calls : List (NoteCall root)) :
    InOrder calls (calls.flatMap NoteCall.lines) :=
  ⟨calls, none, [], by simp, List.nil_prefix, by simp⟩

theorem Place.Holds.inOrder {place : Place root} {out : Output root} (h : place.Holds out) :
    ∃ written, out.Holds written ∧ InOrder out.calls written := by
  cases place with
  | entered call => exact ⟨_, h, inOrder_all out.calls⟩
  | writing call rest =>
      obtain ⟨whole, part, hCalls, hLines, hHolds⟩ := h
      exact ⟨_, hHolds, whole, some call, part, hCalls, ⟨_, by simpa using hLines⟩, rfl⟩

variable {ι : Type} [DecidableEq ι]

/-- What the calls leave when one thread makes them one after the other. -/
def serial (calls : List (NoteCall root)) : Output root := calls.foldl Output.note {}

/-- What the call in progress is going to leave is what one thread would. -/
def Place.Serial (out : Output root) : Place root → Prop
  | .entered call => call.handle.shouldLog = true ∧ out = serial out.calls
  | .writing call rest => out.loop call rest = serial out.calls

theorem monitor_keeps_serial (root : NoteData) : (monitor root).Keeps
    (fun out => out = serial out.calls) (fun place out => place.Serial out) where
  init := by
    rintro _ rfl
    rfl
  enter := by
    rintro _ out ⟨call, hLogs, rfl⟩ h
    exact ⟨hLogs, h⟩
  step := by
    intro out place out' place' hWrites h
    cases hWrites with
    | begin call =>
        obtain ⟨hLogs, hSerial⟩ := h
        calc (out.begin call).loop call call.message.toList
            = out.note call := (if_pos hLogs).symm
          _ = (serial out.calls).note call := congrArg (·.note call) hSerial
          _ = serial (out.begin call).calls := by simp [serial, Output.begin]
    | line call rest segment rest' hNext =>
        rw [Place.Serial, Output.loop_of_some hNext] at h
        exact h
  leave := by
    intro out place out' hReturns h
    cases hReturns with
    | lastLine call rest segment hNext =>
        rw [Place.Serial, Output.loop_of_none hNext] at h
        exact h

/-- Between calls the threads cannot tell the run from one without concurrency. -/
theorem serial_of_reachable {s : Monitor.State ι (Output root) (Place root)}
    (h : ((monitor root).system ι).Reachable s) (hFree : s.mutex = none) :
    s.shared = serial s.shared.calls := ((monitor_keeps_serial root).reachable h).1 hFree

/-- The rest of a call, without another thread in between. -/
theorem reachable_loop (i : ι) (call : NoteCall root) (rest : List Char) (out : Output root)
    (h : ((monitor root).system ι).Reachable
      { shared := out, mutex := some i
        places := Function.update (fun _ => none) i (some (.writing call rest)) }) :
    ((monitor root).system ι).Reachable (.idle ι (out.loop call rest)) := by
  induction rest using nextSegment_induction '\n' generalizing out with
  | last rest segment hNext =>
      have hReturned := h.step (.release i _ _ (by simp) (.lastLine call rest segment hNext))
      rw [Output.loop_of_none hNext]
      simpa [Monitor.State.idle] using hReturned
  | more rest segment rest' hNext ih =>
      have hWritten := h.step (.inside i _ _ _ (by simp) (.line call rest segment rest' hNext))
      rw [Output.loop_of_some hNext]
      exact ih _ (by simpa using hWritten)

/-- Any thread may call `note` when nobody is in it. -/
theorem reachable_note {out : Output root} (h : ((monitor root).system ι).Reachable (.idle ι out))
    (i : ι) (call : NoteCall root) (hLogs : call.handle.shouldLog = true) :
    ((monitor root).system ι).Reachable (.idle ι (out.note call)) := by
  have hEntered := h.step (.acquire i (.entered call) rfl rfl ⟨call, hLogs, rfl⟩)
  have hBegun := hEntered.step (.inside i _ _ _ (by simp) (.begin call))
  rw [Output.note, if_pos hLogs]
  exact reachable_loop i call _ _ (by simpa [Monitor.State.idle] using hBegun)

/-- A note of three lines on the handle of a replay, and an empty one on a clone. -/
def bodyNote : NoteCall (.replayed .normal true) where
  handle := .replayed .normal true
  member := .root
  message := "a\n\nb"
  plain := by simp

def cloneNote : NoteCall (.replayed .normal true) where
  handle := (NoteData.replayed .normal true).clone.setConcurrentWorker 1
  member := .setConcurrentWorker (.clone .root) 1
  message := ""
  elapsed := "0.125"
  plain := by decide

def afterTwoNotes : Output (.replayed .normal true) := (({} : Output _).note bodyNote).note cloneNote

theorem afterTwoNotes_reachable :
    ((monitor (.replayed .normal true)).system Bool).Reachable (.idle Bool afterTwoNotes) := by
  have hStart : ((monitor (.replayed .normal true)).system Bool).Reachable (.idle Bool {}) :=
    .init ⟨rfl, rfl, fun _ => rfl⟩
  exact reachable_note (reachable_note hStart true bodyNote rfl) false cloneNote rfl

/-- Whatever threads call `note` on handles of one family, and however they
interleave: both copies hold the lines of the calls in the order of the calls,
each call's lines together, and the live copy of a report opens with one blank
line if anything was noted. When no thread is in `note` they are what the calls
leave one after the other. -/
theorem notes_faithful {s : Monitor.State ι (Output root) (Place root)}
    (h : ((monitor root).system ι).Reachable s) :
    (∀ call ∈ s.shared.calls, call.Splits) ∧
      (root.inReport = true → root.emitLive = true) ∧
      ∃ written, s.shared.Holds written ∧ InOrder s.shared.calls written ∧
        (s.mutex = none → written = s.shared.calls.flatMap NoteCall.lines ∧
          s.shared = s.shared.calls.foldl Output.note {}) := by
  refine ⟨fun call _ => call.splits, NoteData.emitLive_of_inReport, ?_⟩
  obtain ⟨hFree, hInside⟩ := (monitor_keeps root).reachable h
  cases hMutex : s.mutex with
  | none =>
      exact ⟨_, hFree hMutex, inOrder_all s.shared.calls,
        fun _ => ⟨rfl, serial_of_reachable h hMutex⟩⟩
  | some i =>
      obtain ⟨place, hPlace⟩ := Monitor.owner_inside h hMutex
      obtain ⟨written, hHolds, hOrder⟩ := (hInside i place hPlace).inOrder
      exact ⟨written, hHolds, hOrder, nofun⟩

theorem notes_faithful_afterTwoNotes :
    ∃ written, afterTwoNotes.Holds written ∧
      written = afterTwoNotes.calls.flatMap NoteCall.lines := by
  obtain ⟨-, -, written, hHolds, -, hAll⟩ := notes_faithful afterTwoNotes_reachable
  exact ⟨written, hHolds, (hAll rfl).1⟩

end Hegel.Notes
