import HegelCpp.Run.Report
import HegelCpp.Run.Verdict

/-! What stands on standard error when `hegel::test` is left: nothing under
`Quiet`; after a failed run, the report with a section for each of the failures
that were replayed. -/
namespace Hegel.Session

open Logic Program Origin DatabaseKey Notes

variable {dladdr : Dladdr} {bodies : Nat → BodyRun}
  {notes : Nat → (root : NoteData) → List (NoteCall root)} {frame : Frame} {engine : Engine}
  {α β : Type}

/-- However the code ends, it has written nothing. -/
abbrev Silent (p : Printing α) : Prop := Preserves (fun a b => b.2 = a.2) p

section Quiet

theorem silent_bind {p : Printing α} {k : α → Printing β} (hp : Silent p) (hk : ∀ a, Silent (k a)) :
    Silent (p >>= k) := preserves_bind (fun _ _ _ hab hbc => hbc.trans hab) hp hk

theorem silent_pure (a : α) : Silent (pure a : Printing α) := fun _ => ensures_pure a rfl

theorem silent_throw (leaving : Leaving) : Silent (throw leaving : Printing α) :=
  fun _ => ensures_throw _ rfl

theorem silent_lift (p : Runner α) : Silent (lift p : Printing α) :=
  fun _ => ensures_lift fun _ _ _ _ => rfl

theorem silent_tryCatch {p : Printing α} {handler : Leaving → Printing α} (hp : Silent p)
    (hHandler : ∀ leaving, Silent (handler leaving)) : Silent (p.tryCatch handler) :=
  preserves_tryCatch (fun _ _ _ hab hbc => hbc.trans hab) hp hHandler

theorem silent_ite {c : Prop} [Decidable c] {p q : Printing α} (hp : Silent p) (hq : Silent q) :
    Silent (if c then p else q) := preserves_ite hp hq

theorem silent_onHandle {body : Nat → Printing α} (hBody : ∀ id, Silent (body id)) :
    Silent (Printing.onHandle body) := by
  refine silent_bind (silent_lift _) fun state => silent_bind (silent_lift _) fun _ => ?_
  refine silent_bind (silent_tryCatch (hBody _) fun leaving => ?_) fun result => ?_
  · exact silent_bind (silent_lift _) fun _ => silent_throw leaving
  · exact silent_bind (silent_lift _) fun _ => silent_pure result

/-- A handle that logs nothing prints nothing. -/
theorem noted_eq_empty {root : NoteData} (hLogs : root.shouldLog = false) (k : Nat) :
    Printing.noted notes k root = {} := by
  have hCalls (calls : List (NoteCall root)) (out : Output root) :
      calls.foldl Output.note out = out := by
    induction calls generalizing out with
    | nil => rfl
    | cons call rest ih =>
        have hNone : out.note call = out := by
          rw [Output.note, if_neg]
          rw [call.member.agrees.2.2.2, hLogs]
          exact Bool.false_ne_true
        rw [List.foldl_cons, hNone, ih]
  exact hCalls _ _

theorem silent_callBody (id : Nat) {root : NoteData} (hLogs : root.shouldLog = false) :
    Silent (Printing.callBody dladdr bodies notes id root) := by
  refine silent_bind (silent_lift _) fun state => silent_bind (silent_lift _) fun outcome => ?_
  rw [noted_eq_empty hLogs]
  refine silent_bind (fun after => ensures_modify _ ?_) fun _ => silent_pure _
  exact String.append_empty

variable (hQuiet : frame.quiet = true)

include hQuiet

theorem silent_report (text : String) : Silent (Printing.report frame text) := by
  rw [Printing.report, if_pos hQuiet]
  exact silent_pure ()

theorem verbosity_eq_quiet : frame.verbosity = .quiet := eq_of_beq hQuiet

theorem silent_generate (cases : List CaseReply) (progress : Progress) :
    Silent (Printing.generate dladdr bodies notes frame cases progress) := by
  induction cases generalizing progress with
  | nil => exact silent_bind (silent_lift _) fun _ => silent_pure _
  | cons reply rest ih =>
      refine silent_bind (silent_lift _) fun _ => silent_bind ?_ fun result => ih _
      refine silent_onHandle fun id => silent_bind (silent_lift _) fun _ => ?_
      refine silent_bind (silent_callBody id ?_) fun result => ?_
      · rw [verbosity_eq_quiet hQuiet]
        rfl
      · exact silent_bind (silent_lift _) fun _ => silent_pure _

theorem silent_replayFailure (reply : ReplayReply) (inReport : Bool) :
    Silent (Printing.replayFailure dladdr bodies notes frame reply inReport) := by
  refine silent_bind (silent_lift _) fun _ => silent_ite (silent_throw _) ?_
  refine silent_onHandle fun id => silent_bind (silent_callBody id ?_) fun result => ?_
  · rw [verbosity_eq_quiet hQuiet]
    rfl
  · exact silent_bind (silent_lift _) fun _ => silent_pure _

theorem silent_handleFailure (reply : FailureReply) :
    Silent (Printing.handleFailure dladdr bodies notes frame reply) := by
  refine silent_bind (silent_lift _) fun _ => ?_
  cases reply.reproductionBlob with
  | none => exact silent_throw _
  | some blob =>
      refine silent_bind (silent_replayFailure hQuiet _ _) fun result => ?_
      refine silent_ite ?_ (silent_throw _)
      exact silent_bind (silent_report hQuiet _) fun _ => silent_pure _

theorem silent_handleFailures (remaining index : Nat) :
    Silent (Printing.handleFailures dladdr bodies notes frame engine remaining index) := by
  induction remaining generalizing index with
  | zero => exact silent_pure ()
  | succ remaining ih =>
      refine silent_bind (silent_lift _) fun _ => silent_bind (silent_report hQuiet _) fun _ => ?_
      exact silent_bind (silent_handleFailure hQuiet _) fun _ => ih (index + 1)

theorem silent_reportRun (progress : Progress) :
    Silent (Printing.reportRun dladdr bodies notes frame engine progress) := by
  unfold Printing.reportRun
  cases engine.status with
  | passed => exact silent_pure ()
  | error => exact silent_bind (silent_lift _) fun _ => silent_throw _
  | failedNondeterministic =>
      cases progress.nondeterministicFailure with
      | none => exact silent_throw _
      | some failure => exact silent_bind (silent_report hQuiet _) fun _ => silent_throw _
  | failed =>
      refine silent_bind (silent_lift _) fun _ => silent_bind (silent_report hQuiet _) fun _ => ?_
      refine silent_ite ?_ ?_
      · refine silent_bind (silent_lift _) fun _ => ?_
        exact silent_bind (silent_handleFailure hQuiet _) fun _ => silent_throw _
      · exact silent_bind (silent_handleFailures hQuiet _ 0) fun _ => silent_throw _

theorem silent_test (statefulStepCount : Int) (failureBlobs : List String) :
    Silent (Printing.test dladdr bodies notes frame engine statefulStepCount failureBlobs) := by
  refine silent_bind (silent_lift _) fun _ => silent_ite (silent_throw _) ?_
  refine silent_bind (silent_lift _) fun _ => ?_
  cases failureBlobs with
  | nil =>
      refine silent_bind (silent_lift _) fun _ => silent_bind (silent_generate hQuiet _ _) ?_
      intro progress
      refine silent_bind (silent_lift _) fun _ => silent_bind (silent_lift _) fun _ => ?_
      exact silent_bind (silent_lift _) fun _ => silent_reportRun hQuiet progress
  | cons blob rest =>
      refine silent_bind (silent_replayFailure hQuiet _ _) fun result => ?_
      cases result.1.exception with
      | none => exact silent_throw _
      | some exn => exact silent_bind (silent_report hQuiet _) fun _ => silent_throw _

omit hQuiet

/-- Under `Quiet` nothing is written, whatever the engine answers and whatever
the test notes, and the run ends as it does for any other verbosity. -/
theorem quiet_writes_nothing (dladdr : Dladdr) (bodies : Nat → BodyRun)
    (notes : Nat → (root : NoteData) → List (NoteCall root)) {frame : Frame}
    (hQuiet : frame.quiet = true) (other : Frame) (engine : Engine) (statefulStepCount : Int)
    (failureBlobs : List String) (fuel : Nat) (state : State) (console : String) :
    ∃ result state' written,
      Printing.test dladdr bodies notes frame engine statefulStepCount failureBlobs fuel
        (state, console) = some (result, (state', console)) ∧
      Printing.test dladdr bodies notes other engine statefulStepCount failureBlobs fuel
        (state, console) = some (result, (state', written)) ∧
      test dladdr bodies engine statefulStepCount failureBlobs fuel state =
        some (result, state') := by
  obtain ⟨result, state', console', hEnd, hSession⟩ := printing_ends dladdr bodies notes frame
    engine statefulStepCount failureBlobs fuel state console
  obtain ⟨result', state'', written, hOther, hSession'⟩ := printing_ends dladdr bodies notes other
    engine statefulStepCount failureBlobs fuel state console
  obtain ⟨rfl, rfl⟩ := Prod.mk.inj (Option.some.inj (hSession.symm.trans hSession'))
  have hSame : console' = console := silent_test hQuiet _ _ (state, console) fuel _ _ hEnd
  subst hSame
  exact ⟨result, state', written, hEnd, hOther, hSession⟩

/-- The report of a failure is left out, and no more than that. -/
theorem quiet_writes_nothing_oneFailure :
    ∃ result state written,
      Printing.test (fun _ => none) (fun _ => ⟨[], .throws (runtimeError "failed")⟩)
        (fun _ _ => []) { verbosity := .quiet } oneFailure 50 [] 0 ({}, "") =
          some (result, (state, "")) ∧
      Printing.test (fun _ => none) (fun _ => ⟨[], .throws (runtimeError "failed")⟩)
        (fun _ _ => []) { verbosity := .verbose } oneFailure 50 [] 0 ({}, "") =
          some (result, (state, written)) := by
  obtain ⟨result, state, written, hEnd, hOther, -⟩ := quiet_writes_nothing (fun _ => none)
    (fun _ => ⟨[], .throws (runtimeError "failed")⟩) (fun _ _ => [])
    (show Frame.quiet { verbosity := .quiet } = true from rfl) { verbosity := .verbose } oneFailure
    50 [] 0 {} ""
  exact ⟨result, state, written, hEnd, hOther⟩

end Quiet

end Hegel.Session
