import HegelCpp.Logic.Ghost
import HegelCpp.Report.Notes
import HegelCpp.Run.DatabaseKey
import HegelCpp.Run.Handles

/-! What `hegel::test` writes to standard error. The console is kept beside the
run, which does not depend on it. -/
namespace Hegel.Session

open Logic Program Origin DatabaseKey Notes

inductive RerunForm where
  | call
  | annotation
  deriving DecidableEq, Repr

/-- What the report is made of, besides the run. -/
structure Frame where
  verbosity : Verbosity := .normal
  printBlob : Bool := true
  location : Option TestLocation := none
  rerunForm : RerunForm := .call
  deriving DecidableEq, Repr

namespace Frame

def quiet (frame : Frame) : Bool := frame.verbosity == .quiet

def title (frame : Frame) : String :=
  match frame.location with
  | none => "Failure"
  | some location => "Failure" ++ ": " ++ location.name ++ " (" ++ location.file ++ ":" ++
      toString location.line ++ ")"

/-- `frame_width`. -/
def width : Nat := 72

/-- The rule that opens the report. A title that fills the frame still gets
three dashes. -/
def rule (frame : Frame) : String :=
  let lead := "--- " ++ frame.title ++ " "
  let dashes := if width ≤ lead.utf8ByteSize + 3 then 3 else width - lead.utf8ByteSize
  (cStr lead).text ++ String.ofList (List.replicate dashes '-') ++ "\n"

/-- `print_failure_header`. -/
def header (frame : Frame) (casesRun casesDiscarded : Nat) : String :=
  frame.rule ++ "Falsified after " ++ toString casesRun ++ " test case" ++
    (if casesRun = 1 then "" else "s") ++ " (" ++ toString casesDiscarded ++ " discarded):\n"

/-- The exception of an outcome. -/
def exceptionLine (outcome : BodyOutcome) : String :=
  "Exception: " ++ (cStr outcome.typeName).text ++
    (if outcome.message.isEmpty then "" else (cStr (": " ++ outcome.message)).text) ++ "\n"

/-- The line that replays a counterexample. -/
def rerunLine (frame : Frame) (blob : String) : String :=
  match frame.rerunForm, frame.location with
  | RerunForm.annotation, some location =>
      "rerun with: HEGEL_REPRODUCE_FAILURE(" ++ (cStr location.name).text ++ ", \"" ++
        (cStr blob).text ++ "\")\n"
  | _, _ => "rerun with: hegel::test(test_fn, settings, \x7b\"" ++ (cStr blob).text ++ "\"\x7d)\n"

/-- `print_failure_body`. -/
def body (frame : Frame) (outcome : BodyOutcome) (blob : String) (printedOutput : Bool) : String :=
  (if printedOutput then "\n" else "") ++ exceptionLine outcome ++
    if frame.printBlob then frame.rerunLine blob else ""

/-- The heading of one of several failures. -/
def heading (count index : Nat) : String :=
  "\nFailure " ++ toString (index + 1) ++ " of " ++ toString count ++ ":\n"

end Frame

/-- What the generation loop keeps of the cases. -/
structure Progress where
  casesRun : Nat := 0
  casesDiscarded : Nat := 0
  seenInteresting : Bool := false
  nondeterministicFailure : Option (BodyOutcome × List WorkerOutputLine) := none

/-- One case of the generation loop. -/
def Progress.step (progress : Progress) (nondeterministic : Bool) (outcome : BodyOutcome)
    (lines : List WorkerOutputLine) : Progress :=
  let progress := { progress with
    nondeterministicFailure :=
      if nondeterministic && outcome.status == .interesting then some (outcome, lines)
      else progress.nondeterministicFailure }
  if progress.seenInteresting then progress
  else match outcome.status with
    | .interesting => { progress with casesRun := progress.casesRun + 1, seenInteresting := true }
    | .valid => { progress with casesRun := progress.casesRun + 1 }
    | .invalid => { progress with casesDiscarded := progress.casesDiscarded + 1 }
    | .overrun => progress

/-- The runner beside what it has written to standard error. -/
abbrev Printing (α : Type) : Type := Program Leaving (State × String) α

namespace Printing

def print (text : String) : Printing Unit := tell fun console => console ++ text

/-- What is only written when the verbosity is not `Quiet`. -/
def report (frame : Frame) (text : String) : Printing Unit :=
  if frame.quiet then pure () else print text

def check (reply : Reply) : Printing Unit := lift (Session.check reply)

def fail {α : Type} (exn : Exn) : Printing α := Program.throw (some exn)

def log (event : HandleEvent) : Printing Unit := lift (Session.log event)

variable (dladdr : Dladdr) (bodies : Nat → BodyRun)
  (notes : Nat → (root : NoteData) → List (NoteCall root)) (frame : Frame)

/-- What the notes of the `k`-th call of the body leave. -/
def noted (k : Nat) (root : NoteData) : Output root := serial (notes k root)

def callBody (id : Nat) (root : NoteData) : Printing (BodyOutcome × Output root) := do
  let state ← lift Program.get
  let outcome ← lift (Session.callBody dladdr bodies id)
  let output := noted notes state.calls root
  print output.live
  pure (outcome, output)

def onHandle {α : Type} (body : Nat → Printing α) : Printing α := do
  let state ← lift Program.get
  log (.obtained state.calls)
  let result ← (body state.calls).tryCatch fun leaving => do
    log (.freed state.calls)
    Program.throw leaving
  log (.freed state.calls)
  pure result

def runTestCase (reply : CaseReply) (root : NoteData) : Printing (BodyOutcome × Output root) :=
  onHandle fun id => do
    check reply.isNondeterministic
    let result ← callBody dladdr bodies notes id root
    lift (markComplete id result.1 reply.markComplete)
    pure result

/-- The generation loop of `run_from_engine`. -/
def generate : List CaseReply → Progress → Printing Progress
  | [], progress => do
      log .nextTestCase
      pure progress
  | reply :: rest, progress => do
      log .nextTestCase
      let (outcome, output) ← runTestCase dladdr bodies notes reply
        (.generated frame.verbosity reply.nondeterministic)
      generate rest (progress.step reply.nondeterministic outcome output.outputLines)

/-- `replay_failure`. -/
def replayFailure (reply : ReplayReply) (inReport : Bool) : Printing (BodyOutcome × Bool) := do
  check reply.fromBlob
  if reply.null then fail (runtimeError "Unreachable: failure blob produced a null test case.")
  else onHandle fun id => do
    let (outcome, output) ← callBody dladdr bodies notes id (.replayed frame.verbosity inReport)
    lift (markComplete id outcome reply.markComplete)
    pure (outcome, output.printedOutput)

/-- `handle_failure`. -/
def handleFailure (reply : FailureReply) : Printing BodyOutcome := do
  check reply.blob
  match reply.reproductionBlob with
  | none => fail (runtimeError "internal error: failure has no reproduction blob")
  | some blob => do
      let (outcome, printedOutput) ← replayFailure dladdr bodies notes frame reply.replay
        (!frame.quiet)
      if outcome.status = .interesting then do
        report frame (frame.body outcome blob printedOutput)
        pure outcome
      else fail (runtimeError flakyDiagnostic)

/-- `run_from_blob`. -/
def runFromBlob (engine : Engine) (blob : String) : Printing Unit := do
  let replayed ← replayFailure dladdr bodies notes frame engine.blobReplay false
  match replayed.1.exception with
  | none => fail notReproduced
  | some exn => do
      report frame ("Failure blob " ++ (cStr blob).text ++ " reproduced an error\n")
      Program.throw (some exn)

/-- The loop over the distinct failures, from `index` on. -/
def handleFailures (engine : Engine) : (remaining index : Nat) → Printing Unit
  | 0, _ => pure ()
  | remaining + 1, index => do
      check (engine.failures index).failure
      report frame (Frame.heading engine.failureCount index)
      let _ ← handleFailure dladdr bodies notes frame (engine.failures index)
      handleFailures engine remaining (index + 1)

/-- What follows the run when its status is `FAILED`. -/
def reportFailures (engine : Engine) (progress : Progress) : Printing Unit := do
  check engine.failureCountReply
  report frame (frame.header progress.casesRun progress.casesDiscarded)
  if engine.failureCount = 1 then do
    check (engine.failures 0).failure
    let outcome ← handleFailure dladdr bodies notes frame (engine.failures 0)
    Program.throw outcome.exception
  else do
    handleFailures dladdr bodies notes frame engine engine.failureCount 0
    fail (runtimeError ("Hegel test failed with " ++ toString engine.failureCount ++
      " distinct failures"))

/-- The report of a run whose output was buffered. -/
def nondeterministicReport (progress : Progress) (outcome : BodyOutcome)
    (lines : List WorkerOutputLine) : String :=
  let lines := groupConcurrentOutput lines
  frame.header progress.casesRun progress.casesDiscarded ++
    String.join (lines.map fun line => (cStr line).text ++ "\n") ++
    (if lines.isEmpty then "" else "\n") ++ Frame.exceptionLine outcome

/-- What `run_from_engine` does with the run's status. -/
def reportRun (engine : Engine) (progress : Progress) : Printing Unit :=
  match engine.status with
  | .passed => pure ()
  | .error => do
      check engine.errorReply
      fail (runtimeError ("Hegel run error: " ++ engine.error.getD "unknown error"))
  | .failedNondeterministic =>
      match progress.nondeterministicFailure with
      | none => fail (runtimeError "internal error: nondeterministic failure was not captured")
      | some (outcome, lines) => do
          report frame (nondeterministicReport frame progress outcome lines)
          Program.throw outcome.exception
  | .failed => reportFailures dladdr bodies notes frame engine progress

/-- `run_from_engine`. -/
def runFromEngine (engine : Engine) : Printing Unit := do
  check engine.runStart
  let progress ← generate dladdr bodies notes frame engine.cases {}
  check engine.lastTestCase
  check engine.result
  check engine.statusReply
  reportRun dladdr bodies notes frame engine progress

/-- `run_test`. -/
def test (engine : Engine) (statefulStepCount : Int) (failureBlobs : List String) :
    Printing Unit := do
  check engine.settingsNew
  if statefulStepCount < 1 then
    fail (invalidArgument "Settings::stateful_step_count must be at least 1")
  else do
    lift (checkAll engine.setters)
    match failureBlobs with
    | [] => runFromEngine dladdr bodies notes frame engine
    | blob :: _ => runFromBlob dladdr bodies notes frame engine blob

end Printing

/-! The console decides nothing. -/
section Erased

variable {dladdr : Dladdr} {bodies : Nat → BodyRun}
  {notes : Nat → (root : NoteData) → List (NoteCall root)} {frame : Frame} {α β : Type}

theorem erases_report {text : String} {p : Printing α} {q : Runner α} (h : Erases p q) :
    Erases (Printing.report frame text >>= fun _ => p) q := by
  intro fuel world ghost
  cases hQuiet : frame.quiet with
  | true =>
      rw [Printing.report, if_pos hQuiet]
      exact h fuel world ghost
  | false =>
      rw [Printing.report, hQuiet]
      exact h fuel world (ghost ++ text)

theorem map_tryCatch {ε σ : Type} (f : α → β) (p : Program ε σ α)
    (handler : ε → Program ε σ α) :
    f <$> p.tryCatch handler = (f <$> p).tryCatch fun e => f <$> handler e := by
  funext fuel world
  change Program.bind (p.tryCatch handler) (fun a => pure (f a)) fuel world =
    (Program.bind p fun a => pure (f a)).tryCatch
      (fun e => Program.bind (handler e) fun a => pure (f a)) fuel world
  simp only [Program.bind, Program.tryCatch]
  cases p fuel world with
  | none => rfl
  | some ending =>
      obtain ⟨result, world'⟩ := ending
      cases result <;> rfl

theorem erases_onHandle {body : Nat → Printing α} {body' : Nat → Runner β} {f : α → β}
    (h : ∀ id, Erases (f <$> body id) (body' id)) :
    Erases (f <$> Printing.onHandle body) (onHandle body') := by
  simp only [Printing.onHandle, map_bind, map_pure]
  refine .bind (.lift _) fun state => .bind (.lift _) fun _ => .bindMap (f := f) ?_ fun result => ?_
  · rw [map_tryCatch]
    refine .tryCatch (h _) fun leaving => ?_
    simp only [map_bind]
    exact .bind (.lift _) fun _ => .throw leaving
  · exact .bind (.lift _) fun _ => .pure _

theorem erases_callBody (id : Nat) (root : NoteData) :
    Erases (Prod.fst <$> Printing.callBody dladdr bodies notes id root)
      (callBody dladdr bodies id) := by
  simp only [Printing.callBody, map_bind, map_pure]
  intro fuel world ghost
  rfl

theorem erases_runTestCase (reply : CaseReply) (root : NoteData) :
    Erases (Prod.fst <$> Printing.runTestCase dladdr bodies notes reply root)
      (runTestCase dladdr bodies reply) := by
  refine erases_onHandle fun id => ?_
  simp only [map_bind, map_pure]
  refine .bind (.lift _) fun _ => .bindMap (erases_callBody id root) fun result => ?_
  exact .bind (.lift _) fun _ => .pure _

theorem nondeterministicFailure_step (progress : Progress) (nondeterministic : Bool)
    (outcome : BodyOutcome) (lines : List WorkerOutputLine) :
    (progress.step nondeterministic outcome lines).nondeterministicFailure =
      if nondeterministic && outcome.status == .interesting then some (outcome, lines)
      else progress.nondeterministicFailure := by
  unfold Progress.step
  dsimp only
  split
  · rfl
  · split <;> rfl

theorem erases_generate (cases : List CaseReply) (progress : Progress) :
    Erases ((fun progress => progress.nondeterministicFailure.map Prod.fst) <$>
        Printing.generate dladdr bodies notes frame cases progress)
      (generate dladdr bodies cases (progress.nondeterministicFailure.map Prod.fst)) := by
  induction cases generalizing progress with
  | nil =>
      simp only [Printing.generate, map_bind, map_pure]
      exact .bind (.lift _) fun _ => .pure _
  | cons reply rest ih =>
      simp only [Printing.generate, map_bind]
      refine .bind (.lift _) fun _ => .bindMap (erases_runTestCase reply _) fun result => ?_
      have hRest := ih (progress.step reply.nondeterministic result.1 result.2.outputLines)
      rw [nondeterministicFailure_step, apply_ite (Option.map Prod.fst)] at hRest
      exact hRest

theorem erases_replayFailure (reply : ReplayReply) (inReport : Bool) :
    Erases (Prod.fst <$> Printing.replayFailure dladdr bodies notes frame reply inReport)
      (replayFailure dladdr bodies reply) := by
  simp only [Printing.replayFailure, map_bind]
  refine .bind (.lift _) fun _ => ?_
  rw [apply_ite (Prod.fst <$> ·)]
  refine .ite (.throw _) (erases_onHandle fun id => ?_)
  simp only [map_bind, map_pure]
  refine .bindMap (erases_callBody id _) fun result => ?_
  exact .bind (.lift _) fun _ => .pure _

theorem erases_handleFailure (reply : FailureReply) :
    Erases (Printing.handleFailure dladdr bodies notes frame reply)
      (handleFailure dladdr bodies reply) := by
  refine .bind (.lift _) fun _ => ?_
  cases reply.reproductionBlob with
  | none => exact .throw _
  | some blob =>
      refine .bindMap (erases_replayFailure _ _) fun result => .ite ?_ (.throw _)
      exact erases_report (.pure _)

theorem erases_handleFailures (engine : Engine) (remaining index : Nat) :
    Erases (Printing.handleFailures dladdr bodies notes frame engine remaining index)
      (handleFailures dladdr bodies engine remaining index) := by
  induction remaining generalizing index with
  | zero => exact .pure ()
  | succ remaining ih =>
      refine .bind (.lift _) fun _ => erases_report ?_
      exact .bind (erases_handleFailure _) fun _ => ih (index + 1)

theorem erases_reportRun (engine : Engine) (progress : Progress) :
    Erases (Printing.reportRun dladdr bodies notes frame engine progress)
      (reportRun dladdr bodies engine (progress.nondeterministicFailure.map Prod.fst)) := by
  unfold Printing.reportRun reportRun
  cases engine.status with
  | passed => exact .pure ()
  | error => exact .bind (.lift _) fun _ => .throw _
  | failedNondeterministic =>
      cases progress.nondeterministicFailure with
      | none => exact .throw _
      | some failure => exact erases_report (.throw _)
  | failed =>
      refine .bind (.lift _) fun _ => erases_report (.ite ?_ ?_)
      · exact .bind (.lift _) fun _ => .bind (erases_handleFailure _) fun _ => .throw _
      · exact .bind (erases_handleFailures engine _ 0) fun _ => .throw _

/-- The run with the console is the run of the session. -/
theorem erases_test (engine : Engine) (statefulStepCount : Int) (failureBlobs : List String) :
    Erases (Printing.test dladdr bodies notes frame engine statefulStepCount failureBlobs)
      (test dladdr bodies engine statefulStepCount failureBlobs) := by
  refine .bind (.lift _) fun _ => .ite (.throw _) (.bind (.lift _) fun _ => ?_)
  cases failureBlobs with
  | nil =>
      refine .bind (.lift _) fun _ => .bindMap (erases_generate engine.cases {}) fun progress => ?_
      refine .bind (.lift _) fun _ => .bind (.lift _) fun _ => .bind (.lift _) fun _ => ?_
      exact erases_reportRun engine progress
  | cons blob rest =>
      refine .bindMap (erases_replayFailure _ _) fun result => ?_
      cases result.1.exception with
      | none => exact .throw _
      | some exn => exact erases_report (.throw _)

/-- A run with the console ends as the run of the session does. -/
theorem printing_ends (dladdr : Dladdr) (bodies : Nat → BodyRun)
    (notes : Nat → (root : NoteData) → List (NoteCall root)) (frame : Frame) (engine : Engine)
    (statefulStepCount : Int) (failureBlobs : List String) (fuel : Nat) (state : State)
    (console : String) :
    ∃ result state' console',
      Printing.test dladdr bodies notes frame engine statefulStepCount failureBlobs fuel
        (state, console) = some (result, (state', console')) ∧
      test dladdr bodies engine statefulStepCount failureBlobs fuel state =
        some (result, state') := by
  have hErases : Erases
      (Printing.test dladdr bodies notes frame engine statefulStepCount failureBlobs)
      (test dladdr bodies engine statefulStepCount failureBlobs) := erases_test engine _ _
  obtain ⟨result, state', hSession⟩ :=
    total_test dladdr bodies engine statefulStepCount failureBlobs fuel state
  rw [← hErases fuel state console] at hSession
  obtain ⟨⟨ending, after, console'⟩, hEnd, hSame⟩ := Option.map_eq_some_iff.mp hSession
  obtain ⟨rfl, rfl⟩ := Prod.mk.inj hSame
  exact ⟨ending, after, console', hEnd, (hErases fuel state console).symm.trans hSession⟩

end Erased

end Hegel.Session
