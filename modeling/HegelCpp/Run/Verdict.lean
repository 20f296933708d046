import HegelCpp.Run.Handles

/-! What `hegel::test` throws, and that it only returns for a run that passed. -/
namespace Hegel.Session

open Logic Program Origin

/-- The exception a failing body is reported by: its own, if there is an object
for it. -/
def Ending.own : Ending → Option Exn
  | returns => none
  | throws exn => if Fails exn then some exn else none
  | foreign exception => some (exception.getD foreignException)

section Outcome

variable {dladdr : Dladdr}

theorem runEnding_exception (ending : Ending) (thread : ThreadState dladdr) :
    (runEnding ending thread).1.exception = ending.own := by
  cases ending with
  | returns => rfl
  | foreign exception => rfl
  | throws exn =>
      obtain ⟨cls, typeName, what, failureOrigin⟩ := exn
      cases cls <;> rfl

theorem runEnding_interesting (ending : Ending) (thread : ThreadState dladdr) :
    (runEnding ending thread).1.status = .interesting ↔ ending.own ≠ none := by
  cases ending with
  | returns => simp [runEnding, runBody, Ending.own]
  | foreign exception => simp [runEnding, Ending.own]
  | throws exn =>
      obtain ⟨cls, typeName, what, failureOrigin⟩ := exn
      cases cls <;> simp [runEnding, runBody, Ending.own, Fails]

end Outcome

variable {dladdr : Dladdr} {bodies : Nat → BodyRun} {engine : Engine} {α β : Type}

theorem outcomeAt_exception (k : Nat) :
    (outcomeAt dladdr bodies k).exception = (bodies k).ending.own := runEnding_exception _ _

theorem outcomeAt_interesting (k : Nat) :
    (outcomeAt dladdr bodies k).status = .interesting ↔ (bodies k).ending.own ≠ none :=
  runEnding_interesting _ _

/-! Whatever the engine answers, no null pointer is rethrown, and the end of the
code is only reached for a run that passed. -/

/-- The code returns a value with `post`, or throws an exception. -/
abbrev Throws (p : Runner α) (post : α → Prop) : Prop :=
  ∀ state, p.Ensures state (andThen (fun a _ => post a) fun leaving _ => leaving ≠ none)

theorem Throws.bind {p : Runner α} {k : α → Runner β} {post : α → Prop} {post' : β → Prop}
    (hp : Throws p post) (hk : ∀ a, post a → Throws (k a) post') : Throws (p >>= k) post' := by
  intro state
  refine ensures_bind ((hp state).mono ?_)
  rintro (leaving | a) state' hEnd
  · exact hEnd
  · exact hk a hEnd state'

theorem throws_pure {post : α → Prop} {a : α} (h : post a) : Throws (pure a : Runner α) post :=
  fun _ => ensures_pure a h

theorem throws_fail {post : α → Prop} (exn : Exn) : Throws (fail exn : Runner α) post :=
  fun _ => ensures_throw _ (Option.some_ne_none exn)

theorem throws_rethrow {post : α → Prop} {exception : Option Exn} (h : exception ≠ none) :
    Throws (rethrowException exception : Runner α) post := fun _ => ensures_throw _ h

theorem throws_check (reply : Reply) : Throws (check reply) fun _ => reply.rc = .ok := by
  intro state
  exact check_ensures reply checkRc_eq_none.mp fun exn _ => Option.some_ne_none exn

theorem throws_ite {c : Prop} [Decidable c] {p q : Runner α} {post : α → Prop}
    (hp : c → Throws p post) (hq : ¬c → Throws q post) : Throws (if c then p else q) post := by
  split
  · exact hp ‹_›
  · exact hq ‹_›

/-- The exception of an interesting outcome is there. -/
def Sound (outcome : BodyOutcome) : Prop :=
  outcome.status = .interesting → outcome.exception ≠ none

theorem throws_log (event : HandleEvent) : Throws (log event) fun _ => True :=
  fun _ => ensures_modify _ trivial

theorem throws_onHandle {body : Nat → Runner α} {post : α → Prop}
    (hBody : ∀ id, Throws (body id) post) : Throws (onHandle body) post := by
  intro state
  refine ensures_bind (ensures_get (ensures_bind (ensures_modify _ ?_)))
  refine ensures_bind (ensures_tryCatch ((hBody _ _).mono ?_))
  rintro (leaving | a) state' hEnd
  · exact ensures_bind (ensures_modify _ (ensures_throw _ hEnd))
  · exact ensures_bind (ensures_modify _ (ensures_pure _ hEnd))

theorem throws_concludes (reply : Reply) (id : Nat) : Throws (do
    let outcome ← callBody dladdr bodies id
    markComplete id outcome reply
    pure outcome : Runner BodyOutcome) Sound := by
  have hCall : Throws (callBody dladdr bodies id) Sound := by
    intro state
    refine ensures_bind (ensures_get (ensures_bind (ensures_modify _ ?_)))
    refine ensures_bind (ensures_modify _ (ensures_pure _ fun hInteresting => ?_))
    rw [outcomeAt_exception]
    exact (outcomeAt_interesting _).mp hInteresting
  refine hCall.bind fun outcome hSound => ?_
  have hMark : Throws (markComplete id outcome reply) fun _ => reply.rc = .ok :=
    (throws_log _).bind fun _ _ => throws_check reply
  exact hMark.bind fun _ _ => throws_pure hSound

theorem throws_runAndMark (reply : Reply) : Throws (runAndMark dladdr bodies reply) Sound :=
  throws_onHandle fun id => throws_concludes reply id

theorem throws_runTestCase (reply : CaseReply) : Throws (runTestCase dladdr bodies reply) Sound :=
  throws_onHandle fun id => (throws_check _).bind fun _ _ => throws_concludes reply.markComplete id

theorem throws_generate (cases : List CaseReply) (captured : Option BodyOutcome)
    (hCaptured : ∀ outcome ∈ captured, outcome.exception ≠ none) :
    Throws (generate dladdr bodies cases captured)
      fun captured => ∀ outcome ∈ captured, outcome.exception ≠ none := by
  induction cases generalizing captured with
  | nil => exact (throws_log _).bind fun _ _ => throws_pure hCaptured
  | cons reply rest ih =>
      refine (throws_log _).bind fun _ _ => (throws_runTestCase _).bind fun outcome hSound => ?_
      refine ih _ ?_
      split
      · next hFailed =>
          intro other hOther
          cases hOther
          exact hSound (eq_of_beq (Bool.and_eq_true_iff.mp hFailed).2)
      · exact hCaptured

theorem throws_replayFailure (reply : ReplayReply) :
    Throws (replayFailure dladdr bodies reply) Sound :=
  (throws_check _).bind fun _ _ => throws_ite (fun _ => throws_fail _) fun _ => throws_runAndMark _

theorem throws_handleFailure (reply : FailureReply) :
    Throws (handleFailure dladdr bodies reply) fun outcome => outcome.exception ≠ none := by
  refine (throws_check _).bind fun _ _ => ?_
  cases reply.reproductionBlob with
  | none => exact throws_fail _
  | some blob =>
      refine (throws_replayFailure _).bind fun outcome hSound => ?_
      refine throws_ite (fun hInteresting => ?_) fun _ => throws_fail _
      exact throws_pure (hSound hInteresting)

theorem throws_handleFailures (remaining index : Nat) :
    Throws (handleFailures dladdr bodies engine remaining index) fun _ => True := by
  induction remaining generalizing index with
  | zero => exact throws_pure trivial
  | succ remaining ih =>
      exact (throws_check _).bind fun _ _ => (throws_handleFailure _).bind fun _ _ => ih (index + 1)

theorem throws_reportFailures : Throws (reportFailures dladdr bodies engine) fun _ => False := by
  refine (throws_check _).bind fun _ _ => throws_ite (fun _ => ?_) fun _ => ?_
  · refine (throws_check _).bind fun _ _ => ?_
    exact (throws_handleFailure _).bind fun outcome hOutcome => throws_rethrow hOutcome
  · exact (throws_handleFailures _ 0).bind fun _ _ => throws_fail _

/-- The run was started, and it was the engine that said it passed. -/
structure Engine.Passed (engine : Engine) : Prop where
  runStart : engine.runStart.rc = .ok
  result : engine.result.rc = .ok
  statusReply : engine.statusReply.rc = .ok
  status : engine.status = .passed

theorem throws_runFromEngine :
    Throws (runFromEngine dladdr bodies engine) fun _ => engine.Passed := by
  refine (throws_check _).bind fun _ hStart => ?_
  refine (throws_generate _ none nofun).bind fun captured hCaptured => ?_
  refine (throws_check _).bind fun _ _ => (throws_check _).bind fun _ hResult => ?_
  refine (throws_check _).bind fun _ hRead => ?_
  unfold reportRun
  cases hStatus : engine.status with
  | passed => exact throws_pure ⟨hStart, hResult, hRead, hStatus⟩
  | error => exact (throws_check _).bind fun _ _ => throws_fail _
  | failedNondeterministic =>
      cases captured with
      | none => exact throws_fail _
      | some outcome => exact throws_rethrow (hCaptured outcome rfl)
  | failed => exact fun state => (throws_reportFailures state).mono (by
      rintro (leaving | u) state' hEnd
      · exact hEnd
      · exact hEnd.elim)

theorem throws_runFromBlob : Throws (runFromBlob dladdr bodies engine) fun _ => False := by
  refine (throws_replayFailure _).bind fun outcome _ => ?_
  cases outcome.exception with
  | none => exact throws_fail _
  | some exn => exact throws_rethrow (Option.some_ne_none exn)

theorem throws_test (statefulStepCount : Int) (failureBlobs : List String) :
    Throws (test dladdr bodies engine statefulStepCount failureBlobs)
      fun _ => failureBlobs = [] ∧ engine.Passed := by
  have hAll (replies : List Reply) : Throws (checkAll replies) fun _ => True := by
    induction replies with
    | nil => exact throws_pure trivial
    | cons reply rest ih => exact (throws_check reply).bind fun _ _ => ih
  refine (throws_check _).bind fun _ _ => throws_ite (fun _ => throws_fail _) fun _ => ?_
  refine (hAll _).bind fun _ _ => throws_ite (fun hBlobs => ?_) fun _ => ?_
  · intro state
    refine (throws_runFromEngine state).mono ?_
    rintro (leaving | u) state' hEnd
    · exact hEnd
    · exact ⟨List.isEmpty_iff.mp hBlobs, hEnd⟩
  · intro state
    refine (throws_runFromBlob state).mono ?_
    rintro (leaving | u) state' hEnd
    · exact hEnd
    · exact hEnd.elim

/-! What is thrown when every call into the engine succeeds. -/

structure CaseReply.Lawful (reply : CaseReply) : Prop where
  isNondeterministic : reply.isNondeterministic.rc = .ok
  markComplete : reply.markComplete.rc = .ok

structure ReplayReply.Lawful (reply : ReplayReply) : Prop where
  fromBlob : reply.fromBlob.rc = .ok
  handle : reply.null = false
  markComplete : reply.markComplete.rc = .ok

structure FailureReply.Lawful (reply : FailureReply) : Prop where
  failure : reply.failure.rc = .ok
  blob : reply.blob.rc = .ok
  reproductionBlob : reply.reproductionBlob ≠ none
  replay : reply.replay.Lawful

/-- Every call returns `HEGEL_OK`, with a blob for each failure and a handle for
each blob. -/
structure Engine.Lawful (engine : Engine) : Prop where
  settingsNew : engine.settingsNew.rc = .ok
  setters : ∀ reply ∈ engine.setters, reply.rc = .ok
  runStart : engine.runStart.rc = .ok
  cases : ∀ reply ∈ engine.cases, reply.Lawful
  lastTestCase : engine.lastTestCase.rc = .ok
  result : engine.result.rc = .ok
  statusReply : engine.statusReply.rc = .ok
  failureCount : engine.failureCountReply.rc = .ok
  failures : ∀ i < engine.failureCount, (engine.failures i).Lawful
  blobReplay : engine.blobReplay.Lawful

section Lawful

theorem checkAll_bind {replies : List Reply} (h : ∀ reply ∈ replies, reply.rc = .ok)
    (k : Unit → Runner α) : (checkAll replies >>= k) = k () := by
  have hAll : checkAll replies = pure () := by
    induction replies with
    | nil => rfl
    | cons reply rest ih =>
        rw [checkAll, check_bind (h reply List.mem_cons_self)]
        exact ih fun other hOther => h other (List.mem_cons_of_mem _ hOther)
  rw [hAll]
  rfl

theorem runAndMark_lawful {reply : Reply} (h : reply.rc = .ok) {state : State}
    {post : Except Leaving BodyOutcome → State → Prop}
    (hPost : ∀ state', state'.calls = state.calls + 1 →
      post (.ok (outcomeAt dladdr bodies state.calls)) state') :
    (runAndMark dladdr bodies reply).Ensures state post := by
  refine runAndMark_ensures reply (fun _ => hPost _ rfl) fun exn hSome => ?_
  rw [checkRc_eq_none.mpr h] at hSome
  cases hSome

theorem replayFailure_lawful {reply : ReplayReply} (h : reply.Lawful) {state : State}
    {post : Except Leaving BodyOutcome → State → Prop}
    (hPost : ∀ state', state'.calls = state.calls + 1 →
      post (.ok (outcomeAt dladdr bodies state.calls)) state') :
    (replayFailure dladdr bodies reply).Ensures state post := by
  rw [replayFailure, check_bind h.fromBlob, h.handle]
  exact runAndMark_lawful h.markComplete hPost

/-- A replay that does not fail again is flaky. -/
theorem handleFailure_lawful {reply : FailureReply} (h : reply.Lawful) {state : State}
    {post : Except Leaving BodyOutcome → State → Prop}
    (hFails : (bodies state.calls).ending.own ≠ none → ∀ state', state'.calls = state.calls + 1 →
      post (.ok (outcomeAt dladdr bodies state.calls)) state')
    (hFlaky : (bodies state.calls).ending.own = none → ∀ state',
      post (.error (some (runtimeError flakyDiagnostic))) state') :
    (handleFailure dladdr bodies reply).Ensures state post := by
  obtain ⟨blob, hBlob⟩ := Option.ne_none_iff_exists'.mp h.reproductionBlob
  rw [handleFailure, check_bind h.blob, hBlob]
  refine ensures_bind (replayFailure_lawful h.replay fun state' hCalls => ?_)
  refine ensures_ite (fun hInteresting => ?_) fun hOther => ?_
  · exact ensures_pure _ (hFails ((outcomeAt_interesting _).mp hInteresting) state' hCalls)
  · refine ensures_throw _ (hFlaky ?_ state')
    exact not_not.mp fun hOwn => hOther ((outcomeAt_interesting _).mpr hOwn)

/-- The first of the failures that does not fail again ends the loop. -/
theorem handleFailures_flaky {remaining index first : Nat}
    (h : ∀ i < remaining, (engine.failures (index + i)).Lawful) {i : Nat} (hLast : i < remaining)
    (hAgain : ∀ j < i, (bodies (first + j)).ending.own ≠ none)
    (hFlaky : (bodies (first + i)).ending.own = none) {state : State}
    (hCalls : state.calls = first) :
    (handleFailures dladdr bodies engine remaining index).Ensures state fun result _ =>
      result = .error (some (runtimeError flakyDiagnostic)) := by
  induction remaining generalizing index first i state with
  | zero => cases hLast
  | succ remaining ih =>
      have hFirst : (engine.failures index).Lawful := h 0 (Nat.zero_lt_succ _)
      rw [handleFailures, check_bind hFirst.failure]
      subst hCalls
      refine ensures_bind (handleFailure_lawful hFirst (fun hOwn state' hNext => ?_) fun _ _ => rfl)
      cases i with
      | zero => exact absurd hFlaky hOwn
      | succ i =>
          have hNextLast : i < remaining := Nat.lt_of_succ_lt_succ hLast
          refine ih (fun j hj => ?_) hNextLast (fun j hj => ?_) ?_ hNext
          · rw [Nat.add_right_comm]
            exact h (j + 1) (Nat.succ_lt_succ hj)
          · rw [Nat.add_right_comm]
            exact hAgain (j + 1) (Nat.succ_lt_succ hj)
          · rw [Nat.add_right_comm]
            exact hFlaky

/-- The `k`-th case is the last failure of a nondeterministic case; the calls of
the body are numbered from `first` on. -/
structure LastFailure (bodies : Nat → BodyRun) (first : Nat) (cases : List CaseReply) (k : Nat) :
    Prop where
  nondeterministic : ∃ reply, cases[k]? = some reply ∧ reply.nondeterministic = true
  fails : (bodies (first + k)).ending.own ≠ none
  last : ∀ j > k, ∀ reply, cases[j]? = some reply → reply.nondeterministic = true →
    (bodies (first + j)).ending.own = none

/-- The run captures its last nondeterministic failure, if it has one. -/
theorem generate_lawful {cases : List CaseReply} {captured : Option BodyOutcome}
    (h : ∀ reply ∈ cases, reply.Lawful) {state : State} {first : Nat}
    (hCalls : state.calls = first) :
    (generate dladdr bodies cases captured).Ensures state (andThen (fun captured' state' =>
        state'.calls = first + cases.length ∧
        (∀ k, LastFailure bodies first cases k →
          captured' = some (outcomeAt dladdr bodies (first + k))) ∧
        ((∀ j reply, cases[j]? = some reply → reply.nondeterministic = true →
          (bodies (first + j)).ending.own = none) → captured' = captured)) fun _ _ => False) := by
  induction cases generalizing captured state first with
  | nil =>
      refine ensures_bind (ensures_modify _ (ensures_pure _ ?_))
      refine ⟨hCalls, fun k hLast => ?_, fun _ => rfl⟩
      obtain ⟨reply, hReply, -⟩ := hLast.nondeterministic
      cases hReply
  | cons reply rest ih =>
      subst hCalls
      have hFirst := h reply List.mem_cons_self
      refine ensures_bind (ensures_modify _ ?_)
      rw [runTestCase_eq hFirst.isNondeterministic]
      refine ensures_bind (runAndMark_lawful hFirst.markComplete fun state' hNext => ?_)
      refine (ih (fun other hOther => h other (List.mem_cons_of_mem _ hOther)) hNext).mono ?_
      rintro (leaving | captured') state'' hEnd
      · exact hEnd
      obtain ⟨hLength, hCaptured, hKept⟩ := hEnd
      refine ⟨?_, fun k hLast => ?_, fun hNone => ?_⟩
      · rw [hLength, List.length_cons, Nat.add_assoc, Nat.add_comm 1]
      · cases k with
        | zero =>
            obtain ⟨other, hOther, hNondeterministic⟩ := hLast.nondeterministic
            cases hOther
            have hInteresting : (outcomeAt dladdr _ _).status = .interesting :=
              (outcomeAt_interesting _).mpr hLast.fails
            rw [hKept fun j other hOther hMore => ?_]
            · simp only [Nat.add_zero] at hInteresting ⊢
              simp [hNondeterministic, hInteresting]
            · rw [Nat.add_right_comm]
              exact hLast.last (j + 1) (Nat.succ_pos j) other hOther hMore
        | succ k =>
            rw [hCaptured k ⟨hLast.nondeterministic, ?_, fun j hj => ?_⟩, Nat.add_right_comm]
            · rfl
            · rw [Nat.add_right_comm]
              exact hLast.fails
            · rw [Nat.add_right_comm]
              exact hLast.last (j + 1) (Nat.succ_lt_succ hj)
      · rw [hKept fun j other hOther hMore => ?_]
        · have hPassed : ¬(reply.nondeterministic &&
              (outcomeAt dladdr bodies state.calls).status == .interesting) = true := by
            rw [Bool.and_eq_true, beq_iff_eq]
            rintro ⟨hMore, hInteresting⟩
            exact (outcomeAt_interesting _).mp hInteresting (hNone 0 reply rfl hMore)
          rw [if_neg hPassed]
        · rw [Nat.add_right_comm]
          exact hNone (j + 1) other hOther hMore

variable (hLawful : engine.Lawful) {statefulStepCount : Int} (hSteps : 1 ≤ statefulStepCount)

include hLawful

theorem runFromEngine_eq :
    runFromEngine dladdr bodies engine =
      generate dladdr bodies engine.cases none >>= reportRun dladdr bodies engine := by
  rw [runFromEngine, check_bind hLawful.runStart]
  refine congrArg _ (funext fun captured => ?_)
  rw [check_bind hLawful.lastTestCase, check_bind hLawful.result, check_bind hLawful.statusReply]

/-- After the generation loop, the run's status decides. -/
theorem runFromEngine_lawful {post : Except Leaving Unit → State → Prop}
    (h : ∀ captured state, state.calls = engine.cases.length →
      (∀ k, LastFailure bodies 0 engine.cases k → captured = some (outcomeAt dladdr bodies k)) →
      (reportRun dladdr bodies engine captured).Ensures state post) :
    (runFromEngine dladdr bodies engine).Ensures {} post := by
  rw [runFromEngine_eq hLawful]
  refine ensures_bind ((generate_lawful hLawful.cases rfl).mono ?_)
  rintro (leaving | captured) state hEnd
  · exact hEnd.elim
  · obtain ⟨hCalls, hCaptured, -⟩ := hEnd
    refine h captured state ?_ fun k hLast => ?_
    · rw [hCalls]
      exact Nat.zero_add _
    · rw [hCaptured k hLast]
      exact congrArg _ (congrArg _ (Nat.zero_add k))

include hSteps

theorem test_engine :
    test dladdr bodies engine statefulStepCount [] = runFromEngine dladdr bodies engine := by
  rw [test, check_bind hLawful.settingsNew, if_neg (Int.not_lt.mpr hSteps),
    checkAll_bind hLawful.setters]
  rfl

theorem test_blobs {failureBlobs : List String} (hBlobs : failureBlobs ≠ []) :
    test dladdr bodies engine statefulStepCount failureBlobs =
      runFromBlob dladdr bodies engine := by
  have hSome : ¬failureBlobs.isEmpty = true := fun h => hBlobs (List.isEmpty_iff.mp h)
  rw [test, check_bind hLawful.settingsNew, if_neg (Int.not_lt.mpr hSteps),
    checkAll_bind hLawful.setters, if_neg hSome]

/-- The replay of a blob throws what the body threw, or that it did not reproduce. -/
theorem blob_verdict {failureBlobs : List String} (hBlobs : failureBlobs ≠ []) :
    (test dladdr bodies engine statefulStepCount failureBlobs).Ensures {} fun result _ =>
      result = .error (some ((bodies 0).ending.own.getD notReproduced)) := by
  rw [test_blobs hLawful hSteps hBlobs]
  refine ensures_bind (replayFailure_lawful hLawful.blobReplay fun state hCalls => ?_)
  have hOwn : (outcomeAt dladdr bodies ({} : State).calls).exception = (bodies 0).ending.own :=
    outcomeAt_exception 0
  rw [andThen_ok, hOwn]
  cases (bodies 0).ending.own with
  | none => exact ensures_throw _ rfl
  | some exn => exact ensures_throw _ rfl

theorem captured_verdict (hStatus : engine.status = .failedNondeterministic) {k : Nat}
    (hLast : LastFailure bodies 0 engine.cases k) :
    (test dladdr bodies engine statefulStepCount []).Ensures {} fun result _ =>
      result = .error (bodies k).ending.own := by
  rw [test_engine hLawful hSteps]
  refine runFromEngine_lawful hLawful fun captured state _ hCaptured => ?_
  unfold reportRun
  rw [hStatus, hCaptured k hLast]
  exact ensures_throw _ (congrArg _ (outcomeAt_exception k))

/-- A run that failed ends with the report of its failures. -/
theorem test_failed (hStatus : engine.status = .failed)
    {post : Except Leaving Unit → State → Prop}
    (h : ∀ state, state.calls = engine.cases.length →
      (reportFailures dladdr bodies engine).Ensures state post) :
    (test dladdr bodies engine statefulStepCount []).Ensures {} post := by
  rw [test_engine hLawful hSteps]
  refine runFromEngine_lawful hLawful fun captured state hCalls _ => ?_
  unfold reportRun
  rw [hStatus]
  exact h state hCalls

theorem single_verdict (hStatus : engine.status = .failed) (hOne : engine.failureCount = 1)
    (hFails : (bodies engine.cases.length).ending.own ≠ none) :
    (test dladdr bodies engine statefulStepCount []).Ensures {} fun result _ =>
      result = .error (bodies engine.cases.length).ending.own := by
  have hFirst := hLawful.failures 0 (by omega)
  refine test_failed hLawful hSteps hStatus fun state hCalls => ?_
  rw [reportFailures, check_bind hLawful.failureCount, if_pos hOne, check_bind hFirst.failure]
  rw [← hCalls] at hFails ⊢
  refine ensures_bind (handleFailure_lawful hFirst (fun _ state' _ => ?_) fun hOwn => ?_)
  · exact ensures_throw _ (congrArg _ (outcomeAt_exception _))
  · exact absurd hOwn hFails

theorem flaky_verdict (hStatus : engine.status = .failed) {i : Nat}
    (hIndex : i < engine.failureCount)
    (hAgain : ∀ j < i, (bodies (engine.cases.length + j)).ending.own ≠ none)
    (hFlaky : (bodies (engine.cases.length + i)).ending.own = none) :
    (test dladdr bodies engine statefulStepCount []).Ensures {} fun result _ =>
      result = .error (some (runtimeError flakyDiagnostic)) := by
  refine test_failed hLawful hSteps hStatus fun state hCalls => ?_
  rw [reportFailures, check_bind hLawful.failureCount]
  refine ensures_ite (fun hOne => ?_) fun _ => ensures_bind ?_
  · obtain rfl : i = 0 := by omega
    have hFirst := hLawful.failures 0 hIndex
    rw [check_bind hFirst.failure]
    rw [Nat.add_zero, ← hCalls] at hFlaky
    exact ensures_bind (handleFailure_lawful hFirst (fun hOwn => absurd hFlaky hOwn) fun _ _ => rfl)
  · have hLoop : (handleFailures dladdr bodies engine engine.failureCount 0).Ensures state
        fun result _ => result = .error (some (runtimeError flakyDiagnostic)) := by
      refine handleFailures_flaky (fun j hj => ?_) hIndex hAgain hFlaky hCalls
      rw [Nat.zero_add]
      exact hLawful.failures j hj
    refine hLoop.mono ?_
    rintro result state' rfl
    rfl

end Lawful

/-- Every setting is accepted and every call into the engine succeeds. -/
structure Undisturbed (engine : Engine) (statefulStepCount : Int) : Prop where
  engine : engine.Lawful
  settings : 1 ≤ statefulStepCount

/-- What `hegel::test` throws, and when it returns. -/
structure Verdict (bodies : Nat → BodyRun) (engine : Engine) (statefulStepCount : Int)
    (failureBlobs : List String) (result : Except Leaving Unit) : Prop where
  neverNull : result ≠ .error none
  returns : result = .ok () → failureBlobs = [] ∧ engine.Passed
  reproduced : Undisturbed engine statefulStepCount → failureBlobs ≠ [] →
    ∀ exn, (bodies 0).ending.own = some exn → result = .error (some exn)
  notReproduced : Undisturbed engine statefulStepCount → failureBlobs ≠ [] →
    (bodies 0).ending.own = none → result = .error (some Session.notReproduced)
  captured : Undisturbed engine statefulStepCount → failureBlobs = [] →
    engine.status = .failedNondeterministic → ∀ k, LastFailure bodies 0 engine.cases k →
      result = .error (bodies k).ending.own
  /-- The replays call the body after all the cases of the run. -/
  single : Undisturbed engine statefulStepCount → failureBlobs = [] → engine.status = .failed →
    engine.failureCount = 1 → ∀ exn, (bodies engine.cases.length).ending.own = some exn →
      result = .error (some exn)
  flaky : Undisturbed engine statefulStepCount → failureBlobs = [] → engine.status = .failed →
    ∀ i < engine.failureCount,
      (∀ j < i, (bodies (engine.cases.length + j)).ending.own ≠ none) →
      (bodies (engine.cases.length + i)).ending.own = none →
      result = .error (some (runtimeError flakyDiagnostic))

/-- A failing property does not pass: `hegel::test` ends with its verdict. -/
theorem test_verdict (dladdr : Dladdr) (bodies : Nat → BodyRun) (engine : Engine)
    (statefulStepCount : Int) (failureBlobs : List String) (fuel : Nat) :
    ∃ result state,
      test dladdr bodies engine statefulStepCount failureBlobs fuel {} = some (result, state) ∧
        Verdict bodies engine statefulStepCount failureBlobs result := by
  obtain ⟨result, state, hEnd⟩ := total_test dladdr bodies engine statefulStepCount failureBlobs
    fuel {}
  have hThrows := throws_test statefulStepCount failureBlobs {} fuel result state hEnd
  refine ⟨result, state, hEnd, ?_, ?_, ?_, ?_, ?_, ?_, ?_⟩
  · rintro rfl
    exact hThrows rfl
  · rintro rfl
    exact hThrows
  · intro hUndisturbed hBlobs exn hOwn
    have hVerdict := blob_verdict hUndisturbed.engine hUndisturbed.settings hBlobs fuel result
      state hEnd
    rwa [hOwn] at hVerdict
  · intro hUndisturbed hBlobs hOwn
    have hVerdict := blob_verdict hUndisturbed.engine hUndisturbed.settings hBlobs fuel result
      state hEnd
    rwa [hOwn] at hVerdict
  · rintro hUndisturbed rfl hStatus k hLast
    exact captured_verdict hUndisturbed.engine hUndisturbed.settings hStatus hLast fuel result
      state hEnd
  · rintro hUndisturbed rfl hStatus hOne exn hOwn
    have hFails : (bodies engine.cases.length).ending.own ≠ none := by rw [hOwn]; nofun
    rw [← hOwn]
    exact single_verdict hUndisturbed.engine hUndisturbed.settings hStatus hOne hFails fuel result
      state hEnd
  · rintro hUndisturbed rfl hStatus i hIndex hAgain hFlaky
    exact flaky_verdict hUndisturbed.engine hUndisturbed.settings hStatus hIndex hAgain hFlaky fuel
      result state hEnd

/-- An engine that finds one failure, in its first case. -/
def oneFailure : Engine := { cases := [{}], status := .failed, failureCount := 1 }

theorem oneFailure_lawful : oneFailure.Lawful where
  settingsNew := rfl
  setters := nofun
  runStart := rfl
  cases := by
    intro reply hReply
    rw [List.mem_singleton.mp hReply]
    exact ⟨rfl, rfl⟩
  lastTestCase := rfl
  result := rfl
  statusReply := rfl
  failureCount := rfl
  failures _ _ := ⟨rfl, rfl, nofun, rfl, rfl, rfl⟩
  blobReplay := ⟨rfl, rfl, rfl⟩

/-- The body throws on every call: its own exception leaves the test. -/
theorem test_verdict_oneFailure :
    ∃ result state, test (fun _ => none) (fun _ => ⟨[], .throws (runtimeError "failed")⟩) oneFailure
        50 [] 0 {} = some (result, state) ∧ result = .error (some (runtimeError "failed")) := by
  obtain ⟨result, state, hEnd, hVerdict⟩ := test_verdict (fun _ => none)
    (fun _ => ⟨[], .throws (runtimeError "failed")⟩) oneFailure 50 [] 0
  exact ⟨result, state, hEnd,
    hVerdict.single ⟨oneFailure_lawful, by decide⟩ rfl rfl rfl _ (by decide)⟩

end Hegel.Session
