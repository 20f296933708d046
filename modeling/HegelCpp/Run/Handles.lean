import HegelCpp.Report.Origins
import HegelCpp.Run.Session

/-! How the handles of the test cases are concluded, in the run loop and in the
replays. -/
namespace Hegel.Session

open Logic Program Origin

variable {dladdr : Dladdr} {bodies : Nat → BodyRun}

/-- The events of the calls of the body from `first` up to `last`: each handle is
obtained, used for one call, concluded with its outcome and freed. -/
inductive Blocks (dladdr : Dladdr) (bodies : Nat → BodyRun) : Nat → Nat → List HandleEvent → Prop
  | nil (n : Nat) : Blocks dladdr bodies n n []
  | next {n m : Nat} {trace : List HandleEvent} (rest : Blocks dladdr bodies n m trace) :
      Blocks dladdr bodies n m (.nextTestCase :: trace)
  | handle {n m : Nat} {trace : List HandleEvent} (rest : Blocks dladdr bodies (n + 1) m trace) :
      Blocks dladdr bodies n m (.obtained n :: .ran n (outcomeAt dladdr bodies n) ::
        .marked n (outcomeAt dladdr bodies n).status (reported (outcomeAt dladdr bodies n)) ::
        .freed n :: trace)

theorem Blocks.append {n m l : Nat} {trace trace' : List HandleEvent}
    (h : Blocks dladdr bodies n m trace) (h' : Blocks dladdr bodies m l trace') :
    Blocks dladdr bodies n l (trace ++ trace') := by
  induction h with
  | nil n => exact h'
  | next rest ih => exact .next (ih h')
  | handle rest ih => exact .handle (ih h')

/-- `test_case_is_nondeterministic` fails for an invalid handle only. -/
def Engine.AcceptsHandles (engine : Engine) : Prop :=
  ∀ reply ∈ engine.cases, reply.isNondeterministic.rc = .ok

/-- What the code adds to the trace consists of such blocks. -/
def Adds (dladdr : Dladdr) (bodies : Nat → BodyRun) (a b : State) : Prop :=
  ∃ trace, b.trace = a.trace ++ trace ∧ Blocks dladdr bodies a.calls b.calls trace

theorem adds_refl (a : State) : Adds dladdr bodies a a :=
  ⟨[], (List.append_nil _).symm, .nil _⟩

theorem adds_trans ⦃a b c : State⦄ (hab : Adds dladdr bodies a b) (hbc : Adds dladdr bodies b c) :
    Adds dladdr bodies a c := by
  obtain ⟨trace, hTrace, hBlocks⟩ := hab
  obtain ⟨trace', hTrace', hBlocks'⟩ := hbc
  exact ⟨trace ++ trace', by rw [hTrace', hTrace, List.append_assoc], hBlocks.append hBlocks'⟩

variable {α : Type}

theorem fail_adds (exn : Exn) : Preserves (Adds dladdr bodies) (fail exn : Runner α) :=
  preserves_throw adds_refl _

theorem check_adds (reply : Reply) : Preserves (Adds dladdr bodies) (check reply) := by
  unfold check
  split
  · exact preserves_pure adds_refl ()
  · exact fail_adds _

theorem nextTestCase_adds : Preserves (Adds dladdr bodies) (log .nextTestCase) :=
  fun _ => ensures_modify _ ⟨[.nextTestCase], rfl, .next (.nil _)⟩

/-- The state after a call of the body whose handle was concluded and freed. -/
def concluded (dladdr : Dladdr) (bodies : Nat → BodyRun) (state : State) : State where
  calls := state.calls + 1
  trace := state.trace ++ [.obtained state.calls,
    .ran state.calls (outcomeAt dladdr bodies state.calls),
    .marked state.calls (outcomeAt dladdr bodies state.calls).status
      (reported (outcomeAt dladdr bodies state.calls)), .freed state.calls]

theorem adds_concluded (state : State) :
    Adds dladdr bodies state (concluded dladdr bodies state) :=
  ⟨_, rfl, .handle (.nil _)⟩

theorem check_ensures {post : Except Leaving Unit → State → Prop} {state : State} (reply : Reply)
    (hOk : checkRc reply.rc reply.lastError = none → post (.ok ()) state)
    (hError : ∀ exn, checkRc reply.rc reply.lastError = some exn → post (.error (some exn)) state) :
    (check reply).Ensures state post := by
  unfold check
  split
  · next hNone => exact ensures_pure _ (hOk hNone)
  · next exn hSome => exact ensures_throw _ (hError exn hSome)

/-- The handle is concluded and freed whether or not `mark_complete` succeeds. -/
theorem runAndMark_ensures {post : Except Leaving BodyOutcome → State → Prop} {state : State}
    (reply : Reply)
    (hOk : checkRc reply.rc reply.lastError = none →
      post (.ok (outcomeAt dladdr bodies state.calls)) (concluded dladdr bodies state))
    (hError : ∀ exn, checkRc reply.rc reply.lastError = some exn →
      post (.error (some exn)) (concluded dladdr bodies state)) :
    (runAndMark dladdr bodies reply).Ensures state post := by
  have hFreed : { calls := state.calls + 1
                  trace := state.trace ++ [.obtained state.calls] ++
                    [.ran state.calls (outcomeAt dladdr bodies state.calls)] ++
                    [.marked state.calls (outcomeAt dladdr bodies state.calls).status
                      (reported (outcomeAt dladdr bodies state.calls))] ++
                    [.freed state.calls] : State } = concluded dladdr bodies state := by
    simp [concluded]
  refine ensures_bind (ensures_get (ensures_bind (ensures_modify _ ?_)))
  refine ensures_bind (ensures_tryCatch ?_)
  refine ensures_bind (ensures_bind (ensures_get (ensures_bind (ensures_modify _ ?_))))
  refine ensures_bind (ensures_modify _ (ensures_pure _ ?_))
  refine ensures_bind (ensures_bind (ensures_modify _ ?_))
  refine check_ensures reply (fun hNone => ?_) fun exn hSome => ?_
  · refine ensures_pure _ (ensures_bind (ensures_modify _ (ensures_pure _ ?_)))
    exact hFreed ▸ hOk hNone
  · refine ensures_bind (ensures_modify _ (ensures_throw _ ?_))
    exact hFreed ▸ hError exn hSome

theorem checkRc_eq_none {reply : Reply} :
    checkRc reply.rc reply.lastError = none ↔ reply.rc = .ok := by
  unfold checkRc
  cases reply.rc <;> simp

theorem check_bind {reply : Reply} (h : reply.rc = .ok) (k : Unit → Runner α) :
    (check reply >>= k) = k () := by
  unfold check
  rw [checkRc_eq_none.mpr h]
  rfl

/-- A handle that is accepted is concluded like that of a replay. -/
theorem runTestCase_eq {reply : CaseReply} (h : reply.isNondeterministic.rc = .ok) :
    runTestCase dladdr bodies reply = runAndMark dladdr bodies reply.markComplete :=
  congrArg onHandle (funext fun _ => check_bind h _)

theorem runAndMark_adds (reply : Reply) :
    Preserves (Adds dladdr bodies) (runAndMark dladdr bodies reply) :=
  fun state => runAndMark_ensures reply (fun _ => adds_concluded state) fun _ _ =>
    adds_concluded state

section Adds

/-- The preorder's rule for two pieces of code. -/
theorem bind_adds {β : Type} {p : Runner α} {k : α → Runner β}
    (hp : Preserves (Adds dladdr bodies) p) (hk : ∀ a, Preserves (Adds dladdr bodies) (k a)) :
    Preserves (Adds dladdr bodies) (p >>= k) := preserves_bind adds_trans hp hk

theorem pure_adds (a : α) : Preserves (Adds dladdr bodies) (pure a : Runner α) :=
  preserves_pure adds_refl a

theorem rethrow_adds (exception : Option Exn) :
    Preserves (Adds dladdr bodies) (rethrowException exception : Runner α) :=
  preserves_throw adds_refl _

theorem generate_adds {cases : List CaseReply}
    (hHandles : ∀ reply ∈ cases, reply.isNondeterministic.rc = .ok)
    (captured : Option BodyOutcome) :
    Preserves (Adds dladdr bodies) (generate dladdr bodies cases captured) := by
  induction cases generalizing captured with
  | nil => exact bind_adds nextTestCase_adds fun _ => pure_adds captured
  | cons reply rest ih =>
      have hFirst := hHandles reply List.mem_cons_self
      have hRest (other : CaseReply) (hOther : other ∈ rest) : other.isNondeterministic.rc = .ok :=
        hHandles other (List.mem_cons_of_mem _ hOther)
      apply bind_adds nextTestCase_adds
      intro _
      rw [runTestCase_eq hFirst]
      exact bind_adds (runAndMark_adds _) fun outcome => ih hRest _

theorem replayFailure_adds (reply : ReplayReply) :
    Preserves (Adds dladdr bodies) (replayFailure dladdr bodies reply) := by
  apply bind_adds (check_adds _)
  intro _
  exact preserves_ite (fail_adds _) (runAndMark_adds _)

theorem handleFailure_adds (reply : FailureReply) :
    Preserves (Adds dladdr bodies) (handleFailure dladdr bodies reply) := by
  apply bind_adds (check_adds _)
  intro _
  cases reply.reproductionBlob with
  | none => exact fail_adds _
  | some blob =>
      apply bind_adds (replayFailure_adds _)
      intro outcome
      exact preserves_ite (pure_adds _) (fail_adds _)

theorem handleFailures_adds (engine : Engine) (remaining index : Nat) :
    Preserves (Adds dladdr bodies) (handleFailures dladdr bodies engine remaining index) := by
  induction remaining generalizing index with
  | zero => exact pure_adds ()
  | succ remaining ih =>
      apply bind_adds (check_adds _)
      intro _
      exact bind_adds (handleFailure_adds _) fun _ => ih (index + 1)

theorem reportFailures_adds (engine : Engine) :
    Preserves (Adds dladdr bodies) (reportFailures dladdr bodies engine) := by
  apply bind_adds (check_adds _)
  intro _
  apply preserves_ite
  · apply bind_adds (check_adds _)
    intro _
    exact bind_adds (handleFailure_adds _) fun outcome => rethrow_adds _
  · exact bind_adds (handleFailures_adds engine _ 0) fun _ => fail_adds _

theorem runFromEngine_adds {engine : Engine} (hHandles : engine.AcceptsHandles) :
    Preserves (Adds dladdr bodies) (runFromEngine dladdr bodies engine) := by
  apply bind_adds (check_adds _)
  intro _
  apply bind_adds (generate_adds hHandles _)
  intro captured
  apply bind_adds (check_adds _)
  intro _
  apply bind_adds (check_adds _)
  intro _
  apply bind_adds (check_adds _)
  intro _
  unfold reportRun
  cases engine.status with
  | passed => exact pure_adds ()
  | failed => exact reportFailures_adds engine
  | failedNondeterministic =>
      cases captured with
      | none => exact fail_adds _
      | some outcome => exact rethrow_adds _
  | error => exact bind_adds (check_adds _) fun _ => fail_adds _

theorem runFromBlob_adds (engine : Engine) :
    Preserves (Adds dladdr bodies) (runFromBlob dladdr bodies engine) := by
  apply bind_adds (replayFailure_adds _)
  intro outcome
  cases outcome.exception with
  | none => exact fail_adds _
  | some exn => exact rethrow_adds _

theorem checkAll_adds (replies : List Reply) :
    Preserves (Adds dladdr bodies) (checkAll replies) := by
  induction replies with
  | nil => exact pure_adds ()
  | cons reply rest ih => exact bind_adds (check_adds reply) fun _ => ih

theorem test_adds {engine : Engine} (hHandles : engine.AcceptsHandles) (statefulStepCount : Int)
    (failureBlobs : List String) :
    Preserves (Adds dladdr bodies) (test dladdr bodies engine statefulStepCount failureBlobs) := by
  apply bind_adds (check_adds _)
  intro _
  apply preserves_ite (fail_adds _)
  apply bind_adds (checkAll_adds _)
  intro _
  exact preserves_ite (runFromEngine_adds hHandles) (runFromBlob_adds engine)

end Adds

/-! The origins that reach the engine. -/

/-- The origin argument is non-null exactly for an interesting case. -/
def LawfulOrigin (status : Status) (origin : Option String) : Prop :=
  origin.isSome = true ↔ status = .interesting

/-- Every handle, from number `id` on, was concluded once, with the status of the
body that ran on it and a lawful origin, before it was freed and the next test
case was asked for. -/
inductive Concluded : Nat → List HandleEvent → Prop
  | nil (id : Nat) : Concluded id []
  | next {id : Nat} {trace : List HandleEvent} (rest : Concluded id trace) :
      Concluded id (.nextTestCase :: trace)
  | handle {id : Nat} {trace : List HandleEvent} (outcome : BodyOutcome) (origin : Option String)
      (hOrigin : LawfulOrigin outcome.status origin) (rest : Concluded (id + 1) trace) :
      Concluded id (.obtained id :: .ran id outcome :: .marked id outcome.status origin ::
        .freed id :: trace)

/-- The text that names a failing body is not empty. It is the origin that a
failure of `run_concurrent` left behind, else what `failure_origin()` returns,
else the type, which has a name, with the throw site. -/
def Named (thread : ThreadState dladdr) : Ending → Prop
  | .returns => True
  | .throws exn => Fails exn →
      match thread.concurrentExceptionOrigin, namedByHandler exn with
      | some origin, _ => origin ≠ ""
      | none, some origin => origin ≠ ""
      | none, none => exn.typeName ≠ "" ∨ siteOf dladdr thread.lastThrowAddress ≠ ""
  | .foreign _ => thread.concurrentExceptionOrigin ≠ some ""

theorem typeAt_ne_empty (type site : String) : typeAt type site ≠ "" ↔ type ≠ "" ∨ site ≠ "" := by
  unfold typeAt
  by_cases hSite : site = ""
  · simp [hSite]
  · have hAt : (" at " : String) ≠ "" := by decide
    simp [hSite, hAt]

section Origin

variable (thread : ThreadState dladdr)

/-- The origin both failing handlers compute is empty in three ways. -/
theorem takeOrigin_ne_empty (named : Option String) (type : String) :
    (takeOrigin named type thread).1 ≠ "" ↔
      match thread.concurrentExceptionOrigin, named with
      | some origin, _ => origin ≠ ""
      | none, some origin => origin ≠ ""
      | none, none => type ≠ "" ∨ siteOf dladdr thread.lastThrowAddress ≠ "" := by
  unfold takeOrigin
  cases thread.concurrentExceptionOrigin with
  | some origin => exact Iff.rfl
  | none =>
      cases named with
      | some origin => exact Iff.rfl
      | none =>
          simp only
          rw [originOf_none]
          exact typeAt_ne_empty _ _

theorem isSome_reported (outcome : BodyOutcome) :
    (reported outcome).isSome = true ↔ outcome.origin ≠ "" := by
  unfold reported
  by_cases h : outcome.origin = "" <;> simp [h]

theorem lawfulOrigin_iff (ending : Ending) :
    LawfulOrigin (runEnding ending thread).1.status (reported (runEnding ending thread).1) ↔
      Named thread ending := by
  rw [LawfulOrigin, isSome_reported]
  cases ending with
  | returns => simp [runEnding, runBody, Named]
  | throws exn =>
      by_cases hFails : Fails exn
      · obtain ⟨hStatus, hOrigin, -⟩ := @runBody_fails dladdr thread exn hFails
        simp only [runEnding, hStatus, hOrigin, iff_true, Named]
        rw [takeOrigin_ne_empty]
        exact ⟨fun h _ => h, fun h => h hFails⟩
      · have hNamed : Named thread (.throws exn) := fun h => absurd h hFails
        refine iff_of_true ?_ hNamed
        obtain ⟨cls, typeName, what, failureOrigin⟩ := exn
        cases cls with
        | stopTest => simp [runEnding, runBody]
        | reject => simp [runEnding, runBody]
        | _ => exact absurd (by simp [Fails]) hFails
  | foreign exception =>
      have hOrigin := takeOrigin_ne_empty thread none "unknown_exception"
      simp only [runEnding, iff_true]
      rw [hOrigin, Named]
      cases thread.concurrentExceptionOrigin with
      | some origin => simp
      | none => simp

end Origin

theorem Blocks.le {n m : Nat} {trace : List HandleEvent} (h : Blocks dladdr bodies n m trace) :
    n ≤ m := by
  induction h with
  | nil n => exact Nat.le_refl n
  | next rest ih => exact ih
  | handle rest ih => exact Nat.le_of_succ_le ih

/-- The handles are concluded lawfully when every body that was called is named. -/
theorem Blocks.concluded_iff {n m : Nat} {trace : List HandleEvent}
    (h : Blocks dladdr bodies n m trace) :
    Concluded n trace ↔
      ∀ k, n ≤ k → k < m → Named (threadAt dladdr bodies k) (bodies k).ending := by
  induction h with
  | nil n => exact ⟨fun _ k hFirst hLast => absurd hFirst (by omega), fun _ => .nil n⟩
  | next rest ih =>
      rw [← ih]
      constructor
      · intro hConcluded
        cases hConcluded with
        | next hRest => exact hRest
      · exact .next
  | @handle n m trace rest ih =>
      have hOne := lawfulOrigin_iff (threadAt dladdr bodies n) (bodies n).ending
      have hMore := rest.le
      constructor
      · intro hConcluded k hFirst hLast
        cases hConcluded with
        | handle outcome origin hOrigin hRest =>
            rcases Nat.eq_or_lt_of_le hFirst with rfl | hLater
            · exact hOne.mp hOrigin
            · exact ih.mp hRest k hLater hLast
      · intro hNamed
        refine .handle _ _ (hOne.mpr (hNamed n (Nat.le_refl n) (by omega))) (ih.mpr ?_)
        exact fun k hFirst hLast => hNamed k (by omega) hLast

/-- `hegel::test` ends, and every handle it obtained was concluded lawfully
exactly when no body it called failed under an empty name. -/
theorem handles_concluded_iff (dladdr : Dladdr) (bodies : Nat → BodyRun) (engine : Engine)
    (hHandles : engine.AcceptsHandles) (statefulStepCount : Int) (failureBlobs : List String)
    (fuel : Nat) :
    ∃ result state,
      test dladdr bodies engine statefulStepCount failureBlobs fuel {} = some (result, state) ∧
        (Concluded 0 state.trace ↔
          ∀ k < state.calls, Named (threadAt dladdr bodies k) (bodies k).ending) := by
  refine (total_test dladdr bodies engine statefulStepCount failureBlobs).ends
    ((test_adds hHandles statefulStepCount failureBlobs {}).mono ?_) fuel
  rintro result state ⟨trace, hTrace, hBlocks⟩
  rw [hTrace, List.nil_append, hBlocks.concluded_iff]
  exact ⟨fun h k hLast => h k (Nat.zero_le k) hLast, fun h k _ hLast => h k hLast⟩

/-- A body that returns, and an engine that runs it twice. -/
theorem handles_concluded_iff_twoCases :
    ∃ result state, test (fun _ => none) (fun _ => ⟨[], .returns⟩)
        { cases := [{}, { nondeterministic := true }], status := .passed } 50 [] 0 {} =
          some (result, state) ∧ Concluded 0 state.trace := by
  obtain ⟨result, state, hEnd, hIff⟩ := handles_concluded_iff (fun _ => none)
    (fun _ => ⟨[], .returns⟩) { cases := [{}, { nondeterministic := true }], status := .passed }
    (by simp [Engine.AcceptsHandles]) 50 [] 0
  exact ⟨result, state, hEnd, hIff.mpr fun _ _ => trivial⟩

/-- A body that throws an exception whose `failure_origin()` is empty. -/
def unnamedFailure : BodyRun where
  events := []
  ending := .throws { cls := .stdException, typeName := "CheckFailed", failureOrigin := some "" }

/-- The case is concluded as interesting with a null origin. -/
theorem not_every_handle_concluded :
    ∃ result state, test (fun _ => none) (fun _ => unnamedFailure)
        { cases := [{}], status := .passed } 50 [] 0 {} = some (result, state) ∧
      .marked 0 .interesting none ∈ state.trace ∧ ¬Concluded 0 state.trace := by
  refine ⟨_, _, rfl, by decide, fun hConcluded => ?_⟩
  cases hConcluded with
  | next hRest =>
      cases hRest with
      | handle outcome origin hOrigin rest => cases hOrigin.mpr rfl

end Hegel.Session
