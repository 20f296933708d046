import HegelCpp.Logic.Decoder
import HegelCpp.Logic.Segments
import HegelCpp.Stateful.Runner

/-! What the printed lines of `stateful::run` tell about its steps. The lines
of the run itself stand at its indent and start with a letter; what its rules
note stands deeper. -/
namespace Hegel

open Logic Decoder

variable {S : Type}

/-- A step of a run: its number, the name of its rule, and whether it was rejected. -/
structure StepTaken where
  number : Nat
  rule : String
  rejected : Bool := false
  deriving DecidableEq, Repr

/-- The latest step, which stands first, was rejected. -/
def rejectLatest : List StepTaken → List StepTaken
  | [] => []
  | step :: earlier => { step with rejected := true } :: earlier

theorem length_rejectLatest (steps : List StepTaken) :
    (rejectLatest steps).length = steps.length := by
  cases steps <;> rfl

/-! The steps that were taken, from the history. -/

def takeStep (names : List String) (handle : Nat) (steps : List StepTaken) :
    Event S → List StepTaken
  | .call machine (.rule index) =>
      if machine = handle then
        { number := steps.length + 1, rule := names.getD index "" } :: steps
      else steps
  | .call machine (.ended (some e)) =>
      if machine = handle ∧ e.isReject = true then rejectLatest steps else steps
  | _ => steps

def stepsTaken (names : List String) (handle : Nat) (history : List (Event S)) :
    List StepTaken :=
  (history.foldl (takeStep names handle) []).reverse

/-! The steps that were taken, from the output. -/

/-- The lines of a note, each behind its indent. -/
def Event.lines : Event S → List (List Char)
  | .note indent text =>
      (text.toList.splitOn '\n').map (List.replicate (2 * indent) ' ' ++ ·)
  | _ => []

theorem Event.lines_note {indent : Nat} {text : String} (hPlain : '\n' ∉ text.toList) :
    (Event.note (S := S) indent text).lines = [List.replicate (2 * indent) ' ' ++ text.toList] := by
  rw [Event.lines, List.splitOn_eq_singleton hPlain, List.map_singleton]

def printedLines (history : List (Event S)) : List (List Char) := history.flatMap Event.lines

theorem printedLines_append (first second : List (Event S)) :
    printedLines (first ++ second) = printedLines first ++ printedLines second :=
  List.flatMap_append

/-- What the notes print. -/
def printedText (history : List (Event S)) : List Char :=
  (printedLines history).flatMap (· ++ ['\n'])

/-- The number in a line that reads `Step 1: name`; the name is left. -/
def stepHeader : Decoder Char Nat := natural.framed "Step ".toList ": ".toList

/-- Read a line of a run that stands at `indent`. -/
def readLine (indent : Nat) (steps : List StepTaken) (line : List Char) : List StepTaken :=
  match expect (List.replicate (2 * indent) ' ') line with
  | none => steps
  | some (_, own) => match stepHeader own with
    | some (number, rule) => { number, rule := String.ofList rule } :: steps
    | none => if own = rejectedNote.toList then rejectLatest steps else steps

def readSteps (indent : Nat) (output : List Char) : List StepTaken :=
  ((output.splitOn '\n').foldl (readLine indent) []).reverse

theorem stepHeader_eq (number : Nat) (rule : List Char) :
    stepHeader ("Step ".toList ++ (Nat.toDigits 10 number ++ ": ".toList) ++ rule) =
      some (number, rule) := by
  have hStops (rest : List Char) (_ : True) : NoDigit (": ".toList ++ rest) := by
    intro c hc
    obtain rfl : ':' = c := by simpa using hc
    decide
  exact natural_inverts.framed hStops number rule trivial

/-- No header starts with another letter. -/
theorem stepHeader_eq_none {line : List Char} {c : Char} (h : line.head? = some c)
    (hFirst : c ≠ 'S') : stepHeader line = none := by
  have hStep : ¬ "Step ".toList <+: line := by
    rintro ⟨rest, rfl⟩
    exact hFirst (by simpa using h.symm)
  rw [stepHeader, framed, expect_eq_none hStep]
  rfl

section Lines

variable {indent : Nat} {steps : List StepTaken} {line : List Char}

theorem readLine_own : readLine indent steps (List.replicate (2 * indent) ' ' ++ line) =
    match stepHeader line with
    | some (number, rule) => { number, rule := String.ofList rule } :: steps
    | none => if line = rejectedNote.toList then rejectLatest steps else steps := by
  rw [readLine, expect_append]

/-- A line that starts neither like a header nor like the note about a rejected rule. -/
theorem readLine_other {c : Char} (h : line.head? = some c) (hStep : c ≠ 'S') (hRule : c ≠ 'R') :
    readLine indent steps (List.replicate (2 * indent) ' ' ++ line) = steps := by
  have hNote : line ≠ rejectedNote.toList := by
    rintro rfl
    obtain rfl : 'R' = c := by simpa [rejectedNote] using h
    exact hRule rfl
  rw [readLine_own, stepHeader_eq_none h hStep]
  exact if_neg hNote

theorem header_plain (number : Nat) {rule : String} (hPlain : '\n' ∉ rule.toList) :
    '\n' ∉ ("Step " ++ toString number ++ ": " ++ rule).toList := by
  have hNumber : '\n' ∉ Nat.toDigits 10 number := fun hMem => by
    cases isDigit_of_mem_toDigits hMem
  simp [hNumber, hPlain]

theorem readLine_header (number : Nat) (rule : String) :
    readLine indent steps (List.replicate (2 * indent) ' ' ++
        ("Step " ++ toString number ++ ": " ++ rule).toList) =
      { number, rule } :: steps := by
  have hText : ("Step " ++ toString number ++ ": " ++ rule).toList =
      "Step ".toList ++ (Nat.toDigits 10 number ++ ": ".toList) ++ rule.toList := by
    simp [toString]
  rw [readLine_own, hText, stepHeader_eq]
  simp

theorem readLine_rejected :
    readLine indent steps (List.replicate (2 * indent) ' ' ++ rejectedNote.toList) =
      rejectLatest steps := by
  have hHeader : stepHeader rejectedNote.toList = none :=
    stepHeader_eq_none (c := 'R') rfl (by decide)
  rw [readLine_own, hHeader]
  exact if_pos rfl

/-- A line of deeper code starts with a blank where the run's own have a letter. -/
theorem readLine_deeper {deeper : Nat} (h : indent < deeper) :
    readLine indent steps (List.replicate (2 * deeper) ' ' ++ line) = steps := by
  have hBlank : List.replicate (2 * deeper) ' ' ++ line = List.replicate (2 * indent) ' ' ++
      (' ' :: (List.replicate (2 * (deeper - indent) - 1) ' ' ++ line)) := by
    rw [← List.cons_append, ← List.replicate_succ, ← List.append_assoc, ← List.replicate_add]
    congr 2
    omega
  rw [hBlank]
  exact readLine_other (c := ' ') rfl (by decide) (by decide)

end Lines

/-- The text is the lines, and an empty one behind them, which tells nothing. -/
theorem readSteps_printedText (indent : Nat) (history : List (Event S)) :
    readSteps indent (printedText history) =
      ((printedLines history).foldl (readLine indent) []).reverse := by
  have hEmpty (steps : List StepTaken) : readLine indent steps [] = steps := by
    cases indent with
    | zero => rfl
    | succ indent => rfl
  have hPlain : ∀ line ∈ printedLines history, '\n' ∉ line := by
    intro line hLine
    obtain ⟨event, -, hEvent⟩ := List.mem_flatMap.mp hLine
    cases event with
    | note deeper text =>
        obtain ⟨segment, hSegment, rfl⟩ := List.mem_map.mp hEvent
        intro hMem
        rcases List.mem_append.mp hMem with hMem | hMem
        · cases (List.mem_replicate.mp hMem).2
        · exact notMem_of_mem_splitOn hSegment hMem
    | _ => cases hEvent
  have hSplit (lines : List (List Char)) (hLines : ∀ line ∈ lines, '\n' ∉ line) :
      (lines.flatMap (· ++ ['\n'])).splitOn '\n' = lines ++ [[]] := by
    induction lines with
    | nil => rfl
    | cons line lines ih =>
        obtain ⟨hLine, hLines⟩ := List.forall_mem_cons.mp hLines
        rw [List.flatMap_cons, List.append_assoc, List.singleton_append,
          List.splitOn_append_cons_self_of_not_mem hLine, ih hLines, List.cons_append]
  rw [readSteps, printedText, hSplit _ hPlain, List.foldl_append, List.foldl_cons, hEmpty,
    List.foldl_nil]

end Hegel
