import HegelCpp.Engine.Calls
import HegelCpp.Report.RunBody

/-! `hegel::test`: the loop that runs the engine's test cases, the replays of the
failures it reports, and what is thrown in the end. The engine is the sequence of
its answers, the test body the sequence of the ways it ends. -/
namespace Hegel.Session

open Logic Origin

/-- How a call of the test body ends. For a foreign exception the ABI supplies no
`type_info`, and it may not supply an `exception_ptr`. -/
inductive Ending where
  | returns
  | throws (exn : Exn)
  | foreign (exception : Option Exn)
  deriving DecidableEq, Repr

/-- What the thread did in a call of the test body, and how the body ended. -/
structure BodyRun where
  events : List ThreadEvent
  ending : Ending
  deriving DecidableEq, Repr

def foreignException : Exn := runtimeError "test body raised a foreign (non-C++) exception"

section Outcomes

variable {dladdr : Dladdr}

/-- `run_body`, with its handler for foreign exceptions. -/
def runEnding (ending : Ending) (thread : ThreadState dladdr) :
    BodyOutcome × ThreadState dladdr :=
  match ending with
  | .returns => runBody none thread
  | .throws exn => runBody (some exn) thread
  | .foreign exception =>
      let (origin, thread) := takeOrigin none "unknown_exception" thread
      ({ status := .interesting, origin, typeName := "unknown_exception"
         exception := some (exception.getD foreignException) }, thread)

/-- The thread when the body ended. -/
def BodyRun.reached (run : BodyRun) (thread : ThreadState dladdr) : ThreadState dladdr :=
  run.events.foldl ThreadState.step thread

variable (dladdr) (bodies : Nat → BodyRun)

/-- The thread before the `k`-th call of the body. -/
def threadBefore : Nat → ThreadState dladdr
  | 0 => {}
  | k + 1 => (runEnding (bodies k).ending ((bodies k).reached (threadBefore k))).2

/-- The thread when `run_body` catches what left the `k`-th call. -/
def threadAt (k : Nat) : ThreadState dladdr := (bodies k).reached (threadBefore dladdr bodies k)

/-- What `run_body` returns for the `k`-th call. -/
def outcomeAt (k : Nat) : BodyOutcome :=
  (runEnding (bodies k).ending (threadAt dladdr bodies k)).1

end Outcomes

inductive RunStatus where
  | passed
  | failed
  | failedNondeterministic
  | error
  deriving DecidableEq, Repr

/-- The return code of a call that goes through `check_rc`. -/
structure Reply where
  rc : ResultCode := .ok
  lastError : String := ""
  deriving DecidableEq, Repr

/-- A test case of the run: what `test_case_is_nondeterministic` and
`mark_complete` answer. -/
structure CaseReply where
  isNondeterministic : Reply := {}
  nondeterministic : Bool := false
  markComplete : Reply := {}
  deriving DecidableEq, Repr

/-- A replay: the handle from the blob is null in case of a bug of the engine. -/
structure ReplayReply where
  fromBlob : Reply := {}
  null : Bool := false
  markComplete : Reply := {}
  deriving DecidableEq, Repr

structure FailureReply where
  failure : Reply := {}
  blob : Reply := {}
  reproductionBlob : Option String
  replay : ReplayReply := {}
  deriving DecidableEq, Repr

/-- The engine's answers to one call of `hegel::test`. -/
structure Engine where
  settingsNew : Reply := {}
  /-- One for each setting and location that is passed on. -/
  setters : List Reply := []
  runStart : Reply := {}
  cases : List CaseReply := []
  /-- The call of `next_test_case` that gives no test case. -/
  lastTestCase : Reply := {}
  result : Reply := {}
  statusReply : Reply := {}
  status : RunStatus
  errorReply : Reply := {}
  error : Option String := none
  failureCountReply : Reply := {}
  failureCount : Nat := 0
  failures : Nat → FailureReply := fun _ => { reproductionBlob := some "" }
  /-- The replay of the first of the blobs `hegel::test` was given. -/
  blobReplay : ReplayReply := {}

/-- What happens to the handles of the test cases. -/
inductive HandleEvent where
  | nextTestCase
  | obtained (id : Nat)
  | ran (id : Nat) (outcome : BodyOutcome)
  | marked (id : Nat) (status : Status) (origin : Option String)
  | freed (id : Nat)
  deriving DecidableEq, Repr

structure State where
  /-- How often the body was called; every handle is obtained for one call. -/
  calls : Nat := 0
  trace : List HandleEvent := []

/-- An exception that leaves. It is absent when `std::rethrow_exception` was
given a null pointer. -/
abbrev Leaving : Type := Option Exn

abbrev Runner (α : Type) : Type := Program Leaving State α

def fail {α : Type} (exn : Exn) : Runner α := Program.throw (some exn)

def log (event : HandleEvent) : Runner Unit :=
  Program.modify fun state => { state with trace := state.trace ++ [event] }

def check (reply : Reply) : Runner Unit :=
  match checkRc reply.rc reply.lastError with
  | none => pure ()
  | some exn => fail exn

variable (dladdr : Dladdr) (bodies : Nat → BodyRun)

def callBody (id : Nat) : Runner BodyOutcome := do
  let state ← Program.get
  let outcome := outcomeAt dladdr bodies state.calls
  Program.modify fun state => { state with calls := state.calls + 1 }
  log (.ran id outcome)
  pure outcome

/-- The origin `mark_complete` passes on. -/
def reported (outcome : BodyOutcome) : Option String :=
  if outcome.origin.isEmpty then none else some outcome.origin

def markComplete (id : Nat) (outcome : BodyOutcome) (reply : Reply) : Runner Unit := do
  log (.marked id outcome.status (reported outcome))
  check reply

/-- A handle that was obtained is owned by a `TestCaseData`, which frees it
however the code that runs on it ends. -/
def onHandle {α : Type} (body : Nat → Runner α) : Runner α := do
  let state ← Program.get
  log (.obtained state.calls)
  let result ← (body state.calls).tryCatch fun leaving => do
    log (.freed state.calls)
    Program.throw leaving
  log (.freed state.calls)
  pure result

/-- The body on a fresh handle, and its conclusion. -/
def runAndMark (reply : Reply) : Runner BodyOutcome :=
  onHandle fun id => do
    let outcome ← callBody dladdr bodies id
    markComplete id outcome reply
    pure outcome

/-- A test case of the run. A handle that `test_case_is_nondeterministic` does
not accept is freed at once. -/
def runTestCase (reply : CaseReply) : Runner BodyOutcome :=
  onHandle fun id => do
    check reply.isNondeterministic
    let outcome ← callBody dladdr bodies id
    markComplete id outcome reply.markComplete
    pure outcome

/-- The generation loop of `run_from_engine`. It keeps the last failure of a
nondeterministic case. -/
def generate : List CaseReply → Option BodyOutcome → Runner (Option BodyOutcome)
  | [], captured => do
      log .nextTestCase
      pure captured
  | reply :: rest, captured => do
      log .nextTestCase
      let outcome ← runTestCase dladdr bodies reply
      generate rest (if reply.nondeterministic && outcome.status == .interesting then some outcome
        else captured)

/-- `replay_failure`. -/
def replayFailure (reply : ReplayReply) : Runner BodyOutcome := do
  check reply.fromBlob
  if reply.null then fail (runtimeError "Unreachable: failure blob produced a null test case.")
  else runAndMark dladdr bodies reply.markComplete

def flakyDiagnostic : String :=
  "Flaky test detected: Your test produced different outcomes when " ++
  "run with the same generated data — it failed when it previously " ++
  "succeeded, or succeeded when it previously failed. This usually " ++
  "means your test depends on external state such as global " ++
  "variables, system time, or external random number generators."

/-- `handle_failure`. -/
def handleFailure (reply : FailureReply) : Runner BodyOutcome := do
  check reply.blob
  match reply.reproductionBlob with
  | none => fail (runtimeError "internal error: failure has no reproduction blob")
  | some _ => do
      let outcome ← replayFailure dladdr bodies reply.replay
      if outcome.status = .interesting then pure outcome
      else fail (runtimeError flakyDiagnostic)

/-- `std::rethrow_exception`. -/
def rethrowException {α : Type} (exception : Option Exn) : Runner α := Program.throw exception

def notReproduced : Exn := runtimeError "The failure blob did not reproduce an error"

/-- `run_from_blob`. -/
def runFromBlob (engine : Engine) : Runner Unit := do
  let outcome ← replayFailure dladdr bodies engine.blobReplay
  match outcome.exception with
  | none => fail notReproduced
  | some exn => rethrowException (some exn)

/-- The loop over the distinct failures, from `index` on. -/
def handleFailures (engine : Engine) : (remaining index : Nat) → Runner Unit
  | 0, _ => pure ()
  | remaining + 1, index => do
      check (engine.failures index).failure
      let _ ← handleFailure dladdr bodies (engine.failures index)
      handleFailures engine remaining (index + 1)

/-- What follows the run when its status is `FAILED`. -/
def reportFailures (engine : Engine) : Runner Unit := do
  check engine.failureCountReply
  if engine.failureCount = 1 then do
    check (engine.failures 0).failure
    let outcome ← handleFailure dladdr bodies (engine.failures 0)
    rethrowException outcome.exception
  else do
    handleFailures dladdr bodies engine engine.failureCount 0
    fail (runtimeError ("Hegel test failed with " ++ toString engine.failureCount ++
      " distinct failures"))

/-- What `run_from_engine` does with the run's status. -/
def reportRun (engine : Engine) (captured : Option BodyOutcome) : Runner Unit :=
  match engine.status with
  | .passed => pure ()
  | .error => do
      check engine.errorReply
      fail (runtimeError ("Hegel run error: " ++ engine.error.getD "unknown error"))
  | .failedNondeterministic =>
      match captured with
      | none => fail (runtimeError "internal error: nondeterministic failure was not captured")
      | some outcome => rethrowException outcome.exception
  | .failed => reportFailures dladdr bodies engine

/-- `run_from_engine`. -/
def runFromEngine (engine : Engine) : Runner Unit := do
  check engine.runStart
  let captured ← generate dladdr bodies engine.cases none
  check engine.lastTestCase
  check engine.result
  check engine.statusReply
  reportRun dladdr bodies engine captured

def checkAll : List Reply → Runner Unit
  | [] => pure ()
  | reply :: rest => do
      check reply
      checkAll rest

/-- `run_test`, with `apply_settings` and `apply_test_location`. -/
def test (engine : Engine) (statefulStepCount : Int) (failureBlobs : List String) :
    Runner Unit := do
  check engine.settingsNew
  if statefulStepCount < 1 then
    fail (invalidArgument "Settings::stateful_step_count must be at least 1")
  else do
    checkAll engine.setters
    if failureBlobs.isEmpty then runFromEngine dladdr bodies engine
    else runFromBlob dladdr bodies engine

/-! The answers decide how long the loops run, so every call ends. -/
section Total

open Program

theorem total_fail {α : Type} (exn : Exn) : Total (fail exn : Runner α) := total_throw _

theorem total_check (reply : Reply) : Total (check reply) := by
  unfold check
  split
  · exact total_pure ()
  · exact total_fail _

theorem total_onHandle {α : Type} {body : Nat → Runner α} (hBody : ∀ id, Total (body id)) :
    Total (onHandle body) := by
  apply total_bind total_get
  intro state
  apply total_bind (total_modify _)
  intro _
  apply total_bind
  · apply total_tryCatch (hBody _)
    exact fun leaving => total_bind (total_modify _) fun _ => total_throw _
  · exact fun result => total_bind (total_modify _) fun _ => total_pure _

/-- The call of the body and the conclusion of its handle. -/
theorem total_concludes (reply : Reply) (id : Nat) : Total (do
    let outcome ← callBody dladdr bodies id
    markComplete id outcome reply
    pure outcome : Runner BodyOutcome) := by
  have hCall : Total (callBody dladdr bodies id) :=
    total_bind total_get fun _ => total_bind (total_modify _) fun _ =>
      total_bind (total_modify _) fun _ => total_pure _
  apply total_bind hCall
  intro outcome
  have hMark : Total (markComplete id outcome reply) :=
    total_bind (total_modify _) fun _ => total_check reply
  exact total_bind hMark fun _ => total_pure _

theorem total_runAndMark (reply : Reply) : Total (runAndMark dladdr bodies reply) :=
  total_onHandle fun id => total_concludes dladdr bodies reply id

theorem total_runTestCase (reply : CaseReply) : Total (runTestCase dladdr bodies reply) :=
  total_onHandle fun id => total_bind (total_check _) fun _ =>
    total_concludes dladdr bodies reply.markComplete id

theorem total_generate (cases : List CaseReply) (captured : Option BodyOutcome) :
    Total (generate dladdr bodies cases captured) := by
  induction cases generalizing captured with
  | nil => exact total_bind (total_modify _) fun _ => total_pure _
  | cons reply rest ih =>
      apply total_bind (total_modify _)
      intro _
      exact total_bind (total_runTestCase dladdr bodies reply) fun outcome => ih _

theorem total_replayFailure (reply : ReplayReply) : Total (replayFailure dladdr bodies reply) := by
  apply total_bind (total_check _)
  intro _
  exact total_ite (total_fail _) (total_runAndMark dladdr bodies _)

theorem total_handleFailure (reply : FailureReply) : Total (handleFailure dladdr bodies reply) := by
  apply total_bind (total_check _)
  intro _
  cases reply.reproductionBlob with
  | none => exact total_fail _
  | some blob =>
      apply total_bind (total_replayFailure dladdr bodies _)
      exact fun outcome => total_ite (total_pure _) (total_fail _)

theorem total_handleFailures (engine : Engine) (remaining index : Nat) :
    Total (handleFailures dladdr bodies engine remaining index) := by
  induction remaining generalizing index with
  | zero => exact total_pure ()
  | succ remaining ih =>
      apply total_bind (total_check _)
      intro _
      exact total_bind (total_handleFailure dladdr bodies _) fun _ => ih (index + 1)

theorem total_runFromEngine (engine : Engine) : Total (runFromEngine dladdr bodies engine) := by
  have hReport : Total (reportFailures dladdr bodies engine) := by
    apply total_bind (total_check _)
    intro _
    apply total_ite
    · apply total_bind (total_check _)
      exact fun _ => total_bind (total_handleFailure dladdr bodies _) fun _ => total_throw _
    · exact total_bind (total_handleFailures dladdr bodies engine _ 0) fun _ => total_fail _
  apply total_bind (total_check _)
  intro _
  apply total_bind (total_generate dladdr bodies _ _)
  intro captured
  apply total_bind (total_check _)
  intro _
  apply total_bind (total_check _)
  intro _
  apply total_bind (total_check _)
  intro _
  unfold reportRun
  cases engine.status with
  | passed => exact total_pure ()
  | failed => exact hReport
  | failedNondeterministic =>
      cases captured with
      | none => exact total_fail _
      | some outcome => exact total_throw _
  | error => exact total_bind (total_check _) fun _ => total_fail _

theorem total_test (engine : Engine) (statefulStepCount : Int) (failureBlobs : List String) :
    Total (test dladdr bodies engine statefulStepCount failureBlobs) := by
  have hAll (replies : List Reply) : Total (checkAll replies) := by
    induction replies with
    | nil => exact total_pure ()
    | cons reply rest ih => exact total_bind (total_check reply) fun _ => ih
  have hBlob : Total (runFromBlob dladdr bodies engine) := by
    apply total_bind (total_replayFailure dladdr bodies _)
    intro outcome
    cases outcome.exception with
    | none => exact total_fail _
    | some exn => exact total_throw _
  apply total_bind (total_check _)
  intro _
  apply total_ite (total_fail _)
  apply total_bind (hAll _)
  intro _
  exact total_ite (total_runFromEngine dladdr bodies engine) hBlob

end Total

end Hegel.Session
