import HegelCpp.Run.Printed

/-! The layout of the report of a run that failed: what the cases noted, the
header, and a section for each failure up to the first that is flaky. -/
namespace Hegel.Session

open Logic Program Origin DatabaseKey Notes

section Layout

variable (dladdr : Dladdr) (bodies : Nat → BodyRun)
  (notes : Nat → (root : NoteData) → List (NoteCall root)) (frame : Frame) (engine : Engine)

/-- What the cases write while the run goes on. The calls are numbered from
`first` on. -/
def generatedOutput (first : Nat) : List CaseReply → String
  | [] => ""
  | reply :: rest =>
      (Printing.noted notes first (.generated frame.verbosity reply.nondeterministic)).live ++
        generatedOutput (first + 1) rest

/-- What the cases leave in the counters of the loop. -/
def progressed (first : Nat) : List CaseReply → Progress → Progress
  | [], progress => progress
  | reply :: rest, progress =>
      progressed (first + 1) rest (progress.step reply.nondeterministic
        (outcomeAt dladdr bodies first) (Printing.noted notes first
          (.generated frame.verbosity reply.nondeterministic)).outputLines)

/-- How the calls of the body are concluded. -/
def statuses (first count : Nat) : List Status :=
  (List.range' first count).map fun k => (outcomeAt dladdr bodies k).status

/-- The replay of a failure that failed the `k`-th call of the body. -/
def replayed (k : Nat) : Output (.replayed frame.verbosity true) := Printing.noted notes k _

/-- What opens the section of a failure, and the output of its replay. -/
def opened (index : Nat) : String :=
  (if engine.failureCount = 1 then "" else Frame.heading engine.failureCount index) ++
    (replayed notes frame (engine.cases.length + index)).live

/-- The section of a failure that failed again. -/
def failureSection (index : Nat) : String :=
  opened notes frame engine index ++
    frame.body (outcomeAt dladdr bodies (engine.cases.length + index))
      ((engine.failures index).reproductionBlob.getD "")
      (replayed notes frame (engine.cases.length + index)).printedOutput

/-- The sections from `index` on, of which the first `complete` are whole. -/
def sections (index complete : Nat) : String :=
  String.join ((List.range' index complete).map (failureSection dladdr bodies notes frame engine))

end Layout

/-- The cases that count as run: the valid ones before the first failure, and
that failure. -/
def casesRun (statuses : List Status) : Nat :=
  (statuses.takeWhile (· != .interesting)).count .valid + if .interesting ∈ statuses then 1 else 0

/-- The cases that were discarded before the first failure. -/
def casesDiscarded (statuses : List Status) : Nat :=
  (statuses.takeWhile (· != .interesting)).count .invalid

variable {dladdr : Dladdr} {bodies : Nat → BodyRun}
  {notes : Nat → (root : NoteData) → List (NoteCall root)} {frame : Frame} {engine : Engine}
  {α β : Type}

section Counters

@[simp] theorem step_seenInteresting (progress : Progress) (nondeterministic : Bool)
    (outcome : BodyOutcome) (lines : List WorkerOutputLine) :
    (progress.step nondeterministic outcome lines).seenInteresting =
      (progress.seenInteresting || outcome.status == .interesting) := by
  cases hSeen : progress.seenInteresting <;> cases hStatus : outcome.status <;>
    simp [Progress.step, hSeen, hStatus]

theorem statuses_succ (first count : Nat) :
    statuses dladdr bodies first (count + 1) =
      (outcomeAt dladdr bodies first).status :: statuses dladdr bodies (first + 1) count := by
  simp [statuses, List.range'_succ]

/-- The cases after the first failure are not counted. -/
theorem progressed_casesRun (first : Nat) (cases : List CaseReply) (progress : Progress) :
    (progressed dladdr bodies notes frame first cases progress).casesRun = progress.casesRun +
      if progress.seenInteresting then 0
      else casesRun (statuses dladdr bodies first cases.length) := by
  induction cases generalizing first progress with
  | nil => simp [progressed, statuses, casesRun]
  | cons reply rest ih =>
      rw [progressed, ih, List.length_cons, statuses_succ, step_seenInteresting]
      cases hSeen : progress.seenInteresting with
      | true => simp [Progress.step, hSeen]
      | false =>
          cases hStatus : (outcomeAt dladdr bodies first).status <;>
            simp [Progress.step, hSeen, hStatus, casesRun]
          omega

theorem progressed_casesDiscarded (first : Nat) (cases : List CaseReply) (progress : Progress) :
    (progressed dladdr bodies notes frame first cases progress).casesDiscarded =
      progress.casesDiscarded + if progress.seenInteresting then 0
      else casesDiscarded (statuses dladdr bodies first cases.length) := by
  induction cases generalizing first progress with
  | nil => simp [progressed, statuses, casesDiscarded]
  | cons reply rest ih =>
      rw [progressed, ih, List.length_cons, statuses_succ, step_seenInteresting]
      cases hSeen : progress.seenInteresting with
      | true => simp [Progress.step, hSeen]
      | false =>
          cases hStatus : (outcomeAt dladdr bodies first).status <;>
            simp [Progress.step, hSeen, hStatus, casesDiscarded]
          omega

theorem lastFailure_tail {first k : Nat} {reply : CaseReply} {rest : List CaseReply}
    (h : LastFailure bodies first (reply :: rest) (k + 1)) :
    LastFailure bodies (first + 1) rest k where
  nondeterministic := h.nondeterministic
  fails := by
    rw [Nat.add_right_comm]
    exact h.fails
  last j hj := by
    rw [Nat.add_right_comm]
    exact h.last (j + 1) (Nat.succ_lt_succ hj)

/-- No case from the `first`-th call on is a nondeterministic failure. -/
def NoneFails (bodies : Nat → BodyRun) (first : Nat) (cases : List CaseReply) : Prop :=
  ∀ j reply, cases[j]? = some reply → reply.nondeterministic = true →
    (bodies (first + j)).ending.own = none

theorem noneFails_tail {first : Nat} {reply : CaseReply} {rest : List CaseReply}
    (h : NoneFails bodies first (reply :: rest)) : NoneFails bodies (first + 1) rest := by
  intro j other hOther hNondeterministic
  rw [Nat.add_right_comm]
  exact h (j + 1) other hOther hNondeterministic

theorem progressed_keeps {first : Nat} {cases : List CaseReply} {progress : Progress}
    (h : NoneFails bodies first cases) :
    (progressed dladdr bodies notes frame first cases progress).nondeterministicFailure =
      progress.nondeterministicFailure := by
  induction cases generalizing first progress with
  | nil => rfl
  | cons reply rest ih =>
      rw [progressed, ih (noneFails_tail h), nondeterministicFailure_step, if_neg]
      rw [Bool.and_eq_true, beq_iff_eq]
      rintro ⟨hNondeterministic, hInteresting⟩
      exact (outcomeAt_interesting _).mp hInteresting (h 0 reply rfl hNondeterministic)

/-- The last failure of a nondeterministic case is captured, with its output. -/
theorem progressed_captures {first k : Nat} {cases : List CaseReply} {progress : Progress}
    (h : LastFailure bodies first cases k) :
    (progressed dladdr bodies notes frame first cases progress).nondeterministicFailure =
      some (outcomeAt dladdr bodies (first + k), (Printing.noted notes (first + k)
        (.generated frame.verbosity true)).outputLines) := by
  induction cases generalizing first k progress with
  | nil =>
      obtain ⟨reply, hReply, -⟩ := h.nondeterministic
      cases hReply
  | cons reply rest ih =>
      cases k with
      | zero =>
          obtain ⟨other, hOther, hNondeterministic⟩ := h.nondeterministic
          obtain rfl : reply = other := Option.some.inj hOther
          have hInteresting : (outcomeAt dladdr bodies first).status = .interesting :=
            (outcomeAt_interesting _).mpr h.fails
          have hRest : NoneFails bodies (first + 1) rest := by
            intro j other hOther hMore
            rw [Nat.add_right_comm]
            exact h.last (j + 1) (Nat.succ_pos j) other hOther hMore
          rw [progressed, progressed_keeps hRest, nondeterministicFailure_step, hNondeterministic,
            hInteresting]
          rfl
      | succ k =>
          rw [progressed, ih (lastFailure_tail h), Nat.add_right_comm]
          rfl

end Counters

/-- The code, started before the `calls`-th call of the body, ends with the
result before the `calls'`-th, and has written the text. -/
def Prints (p : Printing α) (calls : Nat) (result : Except Leaving α) (calls' : Nat)
    (text : String) : Prop :=
  ∀ state console, state.calls = calls → p.Ensures (state, console) fun ending after =>
    ending = result ∧ after.1.calls = calls' ∧ after.2 = console ++ text

namespace Prints

variable {p : Printing α} {k : α → Printing β} {calls middle last : Nat} {text text' : String}

protected theorem pure (a : α) : Prints (pure a) calls (.ok a) calls "" := by
  intro state console hCalls
  exact ensures_pure a ⟨rfl, hCalls, String.append_empty.symm⟩

protected theorem throw (leaving : Leaving) :
    Prints (throw leaving : Printing α) calls (.error leaving) calls "" := by
  intro state console hCalls
  exact ensures_throw leaving ⟨rfl, hCalls, String.append_empty.symm⟩

protected theorem bind {a : α} {result : Except Leaving β} (hp : Prints p calls (.ok a) middle text)
    (hk : Prints (k a) middle result last text') :
    Prints (p >>= k) calls result last (text ++ text') := by
  intro state console hCalls
  refine ensures_bind ((hp state console hCalls).mono ?_)
  rintro ending ⟨state', console'⟩ ⟨rfl, hMiddle, hConsole⟩
  refine (hk state' console' hMiddle).mono ?_
  rintro ending after ⟨hResult, hLast, hAfter⟩
  refine ⟨hResult, hLast, ?_⟩
  rw [hAfter, show console' = console ++ text from hConsole, String.append_assoc]

protected theorem bind_error {leaving : Leaving}
    (hp : Prints p calls (.error leaving) middle text) :
    Prints (p >>= k) calls (.error leaving) middle text := by
  intro state console hCalls
  refine ensures_bind ((hp state console hCalls).mono ?_)
  rintro ending after ⟨rfl, hMiddle, hConsole⟩
  exact ⟨rfl, hMiddle, hConsole⟩

protected theorem of_eq {result result' : Except Leaving α} {last' : Nat}
    (h : Prints p calls result last text) (hResult : result = result') (hLast : last = last')
    (hText : text = text') : Prints p calls result' last' text' := by
  subst hResult hLast hText
  exact h

/-- What comes before writes nothing and calls nothing. -/
protected theorem skip {a : α} {result : Except Leaving β} (hp : Prints p calls (.ok a) calls "")
    (hk : Prints (k a) calls result last text) : Prints (p >>= k) calls result last text := by
  have hBoth := hp.bind hk
  rwa [String.empty_append] at hBoth

/-- What comes after writes nothing. -/
protected theorem silently {a : α} {result : Except Leaving β}
    (hp : Prints p calls (.ok a) middle text) (hk : Prints (k a) middle result last "") :
    Prints (p >>= k) calls result last text := by
  have hBoth := hp.bind hk
  rwa [String.append_empty] at hBoth

protected theorem print (text : String) :
    Prints (Printing.print text) calls (.ok ()) calls text := by
  intro state console hCalls
  exact ensures_modify _ ⟨rfl, hCalls, rfl⟩

protected theorem log (event : HandleEvent) :
    Prints (Printing.log event) calls (.ok ()) calls "" := by
  intro state console hCalls
  exact ensures_lift (ensures_modify _ ⟨rfl, hCalls, String.append_empty.symm⟩)

protected theorem check {reply : Reply} (h : reply.rc = .ok) :
    Prints (Printing.check reply) calls (.ok ()) calls "" := by
  rw [Printing.check, check, checkRc_eq_none.mpr h]
  exact Prints.pure ()

protected theorem checkAll {replies : List Reply} (h : ∀ reply ∈ replies, reply.rc = .ok) :
    Prints (lift (checkAll replies)) calls (.ok ()) calls "" := by
  have hAll := checkAll_bind (α := Unit) h pure
  rw [bind_pure] at hAll
  rw [hAll]
  exact Prints.pure ()

protected theorem report (hLoud : frame.quiet = false) (text : String) :
    Prints (Printing.report frame text) calls (.ok ()) calls text := by
  rw [Printing.report, if_neg (by rw [hLoud]; exact Bool.false_ne_true)]
  exact .print text

protected theorem callBody (id : Nat) (root : NoteData) :
    Prints (Printing.callBody dladdr bodies notes id root) calls
      (.ok (outcomeAt dladdr bodies calls, Printing.noted notes calls root)) (calls + 1)
      (Printing.noted notes calls root).live := by
  rintro state console rfl
  refine ensures_bind (ensures_lift (ensures_get ?_))
  refine ensures_bind (ensures_lift (ensures_bind (ensures_get ?_)))
  refine ensures_bind (ensures_modify _ (ensures_bind (ensures_modify _ (ensures_pure _ ?_))))
  exact ensures_bind (ensures_modify _ (ensures_pure _ ⟨rfl, rfl, rfl⟩))

protected theorem markComplete {reply : Reply} (h : reply.rc = .ok) (id : Nat)
    (outcome : BodyOutcome) :
    Prints (lift (markComplete id outcome reply)) calls (.ok ()) calls "" := by
  intro state console hCalls
  refine ensures_lift (ensures_bind (ensures_modify _ ?_))
  rw [check, checkRc_eq_none.mpr h]
  exact ensures_pure () ⟨rfl, hCalls, String.append_empty.symm⟩

protected theorem onHandle {body : Nat → Printing α} {a : α}
    (h : Prints (body calls) calls (.ok a) last text) :
    Prints (Printing.onHandle body) calls (.ok a) last text := by
  rintro state console rfl
  refine ensures_bind (ensures_lift (ensures_get ?_))
  refine ensures_bind (ensures_lift (ensures_modify _ (ensures_bind (ensures_tryCatch ?_))))
  refine (h { calls := state.calls, trace := state.trace ++ [.obtained state.calls] } console
    rfl).mono ?_
  rintro ending after ⟨rfl, hLast, hAfter⟩
  exact ensures_bind (ensures_lift (ensures_modify _ (ensures_pure a ⟨rfl, hLast, hAfter⟩)))

protected theorem runTestCase {reply : CaseReply} (hReply : reply.Lawful) (root : NoteData) :
    Prints (Printing.runTestCase dladdr bodies notes reply root) calls
      (.ok (outcomeAt dladdr bodies calls, Printing.noted notes calls root)) (calls + 1)
      (Printing.noted notes calls root).live := by
  refine .onHandle ((Prints.check hReply.isNondeterministic).skip ?_)
  exact (Prints.callBody calls root).silently
    ((Prints.markComplete hReply.markComplete _ _).skip (.pure _))

protected theorem replayFailure {reply : ReplayReply} (hReply : reply.Lawful) (inReport : Bool) :
    Prints (Printing.replayFailure dladdr bodies notes frame reply inReport) calls
      (.ok (outcomeAt dladdr bodies calls,
        (Printing.noted notes calls (.replayed frame.verbosity inReport)).printedOutput))
      (calls + 1) (Printing.noted notes calls (.replayed frame.verbosity inReport)).live := by
  refine (Prints.check hReply.fromBlob).skip ?_
  rw [hReply.handle, if_neg Bool.false_ne_true]
  refine .onHandle ((Prints.callBody calls _).silently ?_)
  exact (Prints.markComplete hReply.markComplete _ _).skip (.pure _)

/-- A failure that fails again closes its section. -/
protected theorem handleFailure {reply : FailureReply} (hReply : reply.Lawful)
    (hLoud : frame.quiet = false) (hAgain : (bodies calls).ending.own ≠ none) :
    Prints (Printing.handleFailure dladdr bodies notes frame reply) calls
      (.ok (outcomeAt dladdr bodies calls)) (calls + 1)
      ((replayed notes frame calls).live ++
        frame.body (outcomeAt dladdr bodies calls) (reply.reproductionBlob.getD "")
          (replayed notes frame calls).printedOutput) := by
  obtain ⟨blob, hBlob⟩ := Option.ne_none_iff_exists'.mp hReply.reproductionBlob
  refine (Prints.check hReply.blob).skip ?_
  rw [hBlob, hLoud]
  refine (Prints.replayFailure hReply.replay true).bind ?_
  dsimp only
  rw [if_pos ((outcomeAt_interesting _).mpr hAgain)]
  exact (Prints.report hLoud _).silently (.pure _)

/-- A failure that is flaky leaves its section open. -/
protected theorem handleFailure_flaky {reply : FailureReply} (hReply : reply.Lawful)
    (hLoud : frame.quiet = false) (hFlaky : (bodies calls).ending.own = none) :
    Prints (Printing.handleFailure dladdr bodies notes frame reply) calls
      (.error (some (runtimeError flakyDiagnostic))) (calls + 1)
      (replayed notes frame calls).live := by
  obtain ⟨blob, hBlob⟩ := Option.ne_none_iff_exists'.mp hReply.reproductionBlob
  refine (Prints.check hReply.blob).skip ?_
  rw [hBlob, hLoud]
  refine (Prints.replayFailure hReply.replay true).silently ?_
  dsimp only
  rw [if_neg fun hInteresting => (outcomeAt_interesting _).mp hInteresting hFlaky]
  exact .throw _

protected theorem generate {cases : List CaseReply} (hCases : ∀ reply ∈ cases, reply.Lawful)
    (calls : Nat) (progress : Progress) :
    Prints (Printing.generate dladdr bodies notes frame cases progress) calls
      (.ok (progressed dladdr bodies notes frame calls cases progress))
      (calls + cases.length) (generatedOutput notes frame calls cases) := by
  induction cases generalizing calls progress with
  | nil => exact (Prints.log _).skip (.pure progress)
  | cons reply rest ih =>
      have hFirst := hCases reply List.mem_cons_self
      have hRest := ih (fun other hOther => hCases other (List.mem_cons_of_mem _ hOther))
        (calls + 1) (progress.step reply.nondeterministic (outcomeAt dladdr bodies calls)
          (Printing.noted notes calls
            (.generated frame.verbosity reply.nondeterministic)).outputLines)
      rw [List.length_cons, Nat.add_comm rest.length, ← Nat.add_assoc]
      exact (Prints.log _).skip ((Prints.runTestCase hFirst _).bind hRest)

end Prints

/-- The header counts the cases of the run. -/
def countsHeader (dladdr : Dladdr) (bodies : Nat → BodyRun) (frame : Frame) (engine : Engine) :
    String :=
  frame.header (casesRun (statuses dladdr bodies 0 engine.cases.length))
    (casesDiscarded (statuses dladdr bodies 0 engine.cases.length))

theorem progressed_header :
    frame.header (progressed dladdr bodies notes frame 0 engine.cases {}).casesRun
      (progressed dladdr bodies notes frame 0 engine.cases {}).casesDiscarded =
    countsHeader dladdr bodies frame engine := by
  rw [progressed_casesRun, progressed_casesDiscarded]
  simp [countsHeader]

/-- The run up to its status: what the cases note is written first. -/
theorem prints_run (hLawful : engine.Lawful) {statefulStepCount : Int}
    (hSteps : 1 ≤ statefulStepCount) {result : Except Leaving Unit} {last : Nat} {text : String}
    (h : Prints (Printing.reportRun dladdr bodies notes frame engine
      (progressed dladdr bodies notes frame 0 engine.cases {})) engine.cases.length result last
      text) :
    Prints (Printing.test dladdr bodies notes frame engine statefulStepCount []) 0 result last
      (generatedOutput notes frame 0 engine.cases ++ text) := by
  refine (Prints.check hLawful.settingsNew).skip ?_
  rw [if_neg (Int.not_lt.mpr hSteps)]
  refine (Prints.checkAll hLawful.setters).skip ((Prints.check hLawful.runStart).skip ?_)
  refine ((Prints.generate hLawful.cases 0 {}).of_eq rfl (Nat.zero_add _) rfl).bind ?_
  refine (Prints.check hLawful.lastTestCase).skip ?_
  exact (Prints.check hLawful.result).skip ((Prints.check hLawful.statusReply).skip h)

/-- The run ends, so what it writes is what is on the console. -/
theorem Prints.ends {statefulStepCount : Int} {failureBlobs : List String}
    {result : Except Leaving Unit} {text : String} {last : Nat}
    (h : Prints (Printing.test dladdr bodies notes frame engine statefulStepCount failureBlobs)
      0 result last text) (fuel : Nat) :
    ∃ state, state.calls = last ∧
      Printing.test dladdr bodies notes frame engine statefulStepCount failureBlobs fuel ({}, "") =
        some (result, (state, text)) := by
  obtain ⟨ending, state, console, hEnd, -⟩ := printing_ends dladdr bodies notes frame engine
    statefulStepCount failureBlobs fuel {} ""
  obtain ⟨hEnding, hCalls, hConsole⟩ := h {} "" rfl fuel _ _ hEnd
  change console = "" ++ text at hConsole
  refine ⟨state, hCalls, hEnd.trans ?_⟩
  rw [hEnding, hConsole, String.empty_append]

/-- Of the failures whose replays are the calls from `first` on, the first
`complete` fail again; the one after them, if there is one, does not. -/
structure Replays (bodies : Nat → BodyRun) (first remaining complete : Nat) : Prop where
  le : complete ≤ remaining
  again : ∀ i < complete, (bodies (first + i)).ending.own ≠ none
  flaky : complete < remaining → (bodies (first + complete)).ending.own = none

theorem exists_replays (bodies : Nat → BodyRun) (first remaining : Nat) :
    ∃ complete, Replays bodies first remaining complete := by
  induction remaining with
  | zero => exact ⟨0, Nat.le_refl 0, nofun, nofun⟩
  | succ remaining ih =>
      obtain ⟨complete, hLe, hAgain, hFlaky⟩ := ih
      rcases Nat.lt_or_eq_of_le hLe with hLt | rfl
      · exact ⟨complete, Nat.le_succ_of_le hLe, hAgain, fun _ => hFlaky hLt⟩
      · by_cases hOwn : (bodies (first + complete)).ending.own = none
        · exact ⟨complete, Nat.le_succ complete, hAgain, fun _ => hOwn⟩
        · refine ⟨complete + 1, Nat.le_refl _, fun i hi => ?_, fun h => absurd h (Nat.lt_irrefl _)⟩
          rcases Nat.lt_or_eq_of_le (Nat.le_of_lt_succ hi) with hBefore | rfl
          · exact hAgain i hBefore
          · exact hOwn

/-- The first of the failures is replayed. -/
theorem Replays.tail {first remaining complete : Nat}
    (h : Replays bodies first (remaining + 1) (complete + 1)) :
    Replays bodies (first + 1) remaining complete where
  le := Nat.le_of_succ_le_succ h.le
  again i hi := by
    rw [Nat.add_right_comm]
    exact h.again (i + 1) (Nat.succ_lt_succ hi)
  flaky hLt := by
    rw [Nat.add_right_comm]
    exact h.flaky (Nat.succ_lt_succ hLt)

/-- What the loop over the failures throws. -/
def loopResult (remaining complete : Nat) : Except Leaving Unit :=
  if complete < remaining then .error (some (runtimeError flakyDiagnostic)) else .ok ()

/-- The section that the flaky failure leaves open. -/
def unfinished (notes : Nat → (root : NoteData) → List (NoteCall root)) (frame : Frame)
    (engine : Engine) (index remaining complete : Nat) : String :=
  if complete < remaining then opened notes frame engine (index + complete) else ""

theorem prints_handleFailures (hLoud : frame.quiet = false) (hMany : engine.failureCount ≠ 1)
    {remaining complete : Nat} (index : Nat)
    (hFailures : ∀ i < remaining, (engine.failures (index + i)).Lawful)
    (hReplays : Replays bodies (engine.cases.length + index) remaining complete) :
    Prints (Printing.handleFailures dladdr bodies notes frame engine remaining index)
      (engine.cases.length + index) (loopResult remaining complete)
      (engine.cases.length + index + min (complete + 1) remaining)
      (sections dladdr bodies notes frame engine index complete ++
        unfinished notes frame engine index remaining complete) := by
  induction remaining generalizing index complete with
  | zero =>
      obtain rfl : complete = 0 := Nat.le_zero.mp hReplays.le
      exact (Prints.pure ()).of_eq rfl rfl rfl
  | succ remaining ih =>
      have hFirst : (engine.failures index).Lawful := hFailures 0 (Nat.zero_lt_succ _)
      have hHeading : Prints (Printing.report frame (Frame.heading engine.failureCount index))
          (engine.cases.length + index) (.ok ()) (engine.cases.length + index)
          (if engine.failureCount = 1 then "" else Frame.heading engine.failureCount index) := by
        rw [if_neg hMany]
        exact .report hLoud _
      refine (Prints.check hFirst.failure).skip ?_
      cases complete with
      | zero =>
          have hFlaky := hReplays.flaky (Nat.succ_pos remaining)
          rw [Nat.add_zero] at hFlaky
          refine (hHeading.bind (Prints.handleFailure_flaky hFirst hLoud hFlaky).bind_error).of_eq
            rfl ?_ ?_
          · simp
          · simp [sections, unfinished, opened]
      | succ complete =>
          have hRest := ih (index + 1) (fun i hi => by
            rw [Nat.add_right_comm]
            exact hFailures (i + 1) (Nat.succ_lt_succ hi)) hReplays.tail
          have hAgain := hReplays.again 0 (Nat.zero_lt_succ _)
          refine (hHeading.bind ((Prints.handleFailure hFirst hLoud hAgain).bind hRest)).of_eq
            ?_ ?_ ?_
          · simp [loopResult]
          · omega
          · simp [sections, unfinished, opened, failureSection, List.range'_succ,
              String.append_assoc, Nat.add_assoc, Nat.add_comm 1]

/-- What `hegel::test` throws after the report of a run that failed. -/
def failureVerdict (bodies : Nat → BodyRun) (engine : Engine) (complete : Nat) : Leaving :=
  if complete < engine.failureCount then some (runtimeError flakyDiagnostic)
  else if engine.failureCount = 1 then (bodies engine.cases.length).ending.own
  else some (runtimeError ("Hegel test failed with " ++ toString engine.failureCount ++
    " distinct failures"))

section Failed

variable {complete : Nat} (hLawful : engine.Lawful) (hLoud : frame.quiet = false)
  (hReplays : Replays bodies engine.cases.length engine.failureCount complete)

include hLawful hLoud hReplays

/-- The sections of the report. -/
theorem prints_reportFailures (progress : Progress) :
    Prints (Printing.reportFailures dladdr bodies notes frame engine progress) engine.cases.length
      (.error (failureVerdict bodies engine complete))
      (engine.cases.length + min (complete + 1) engine.failureCount)
      (frame.header progress.casesRun progress.casesDiscarded ++
        (sections dladdr bodies notes frame engine 0 complete ++
          unfinished notes frame engine 0 engine.failureCount complete)) := by
  refine (Prints.check hLawful.failureCount).skip ((Prints.report hLoud _).bind ?_)
  by_cases hOne : engine.failureCount = 1
  · have hFirst : (engine.failures 0).Lawful := hLawful.failures 0 (by omega)
    rw [if_pos hOne]
    refine (Prints.check hFirst.failure).skip ?_
    by_cases hAgain : (bodies engine.cases.length).ending.own = none
    · obtain rfl : complete = 0 := by
        by_contra hPos
        exact hReplays.again 0 (Nat.pos_of_ne_zero hPos) hAgain
      refine (Prints.handleFailure_flaky hFirst hLoud hAgain).bind_error.of_eq ?_ ?_ ?_
      · simp [failureVerdict, hOne]
      · simp [hOne]
      · simp [sections, unfinished, opened, hOne]
    · obtain rfl : complete = 1 := by
        by_contra hOther
        have hLe := hReplays.le
        obtain rfl : complete = 0 := by omega
        exact hAgain (hReplays.flaky (by omega))
      refine ((Prints.handleFailure hFirst hLoud hAgain).silently (.throw _)).of_eq ?_ ?_ ?_
      · simp [failureVerdict, hOne, outcomeAt_exception]
      · simp [hOne]
      · simp [sections, unfinished, failureSection, opened, hOne]
  · rw [if_neg hOne]
    have hFailures (i : Nat) (hi : i < engine.failureCount) :
        (engine.failures (0 + i)).Lawful := by
      rw [Nat.zero_add]
      exact hLawful.failures i hi
    have hLoop : Prints (Printing.handleFailures dladdr bodies notes frame engine _ 0) _ _ _ _ :=
      prints_handleFailures hLoud hOne 0 hFailures hReplays
    by_cases hFlaky : complete < engine.failureCount
    · rw [loopResult, if_pos hFlaky] at hLoop
      refine hLoop.bind_error.of_eq ?_ rfl rfl
      rw [failureVerdict, if_pos hFlaky]
    · rw [loopResult, if_neg hFlaky] at hLoop
      refine (hLoop.silently (.throw _)).of_eq ?_ rfl rfl
      rw [failureVerdict, if_neg hFlaky, if_neg hOne]

variable {statefulStepCount : Int} (hSteps : 1 ≤ statefulStepCount)

include hSteps

theorem prints_test (hStatus : engine.status = .failed) :
    Prints (Printing.test dladdr bodies notes frame engine statefulStepCount []) 0
      (.error (failureVerdict bodies engine complete))
      (engine.cases.length + min (complete + 1) engine.failureCount)
      (generatedOutput notes frame 0 engine.cases ++
        (countsHeader dladdr bodies frame engine ++
          (sections dladdr bodies notes frame engine 0 complete ++
            unfinished notes frame engine 0 engine.failureCount complete))) := by
  refine prints_run hLawful hSteps ?_
  unfold Printing.reportRun
  rw [hStatus]
  refine (prints_reportFailures hLawful hLoud hReplays _).of_eq rfl rfl ?_
  rw [progressed_header]

end Failed

/-- The report of a run that failed, from its first case to what is thrown. -/
theorem failure_report (dladdr : Dladdr) (bodies : Nat → BodyRun)
    (notes : Nat → (root : NoteData) → List (NoteCall root)) {frame : Frame}
    (hLoud : frame.quiet = false) {engine : Engine} {statefulStepCount : Int}
    (hUndisturbed : Undisturbed engine statefulStepCount) (hStatus : engine.status = .failed)
    (fuel : Nat) :
    ∃ complete state, Replays bodies engine.cases.length engine.failureCount complete ∧
      state.calls = engine.cases.length + min (complete + 1) engine.failureCount ∧
      Printing.test dladdr bodies notes frame engine statefulStepCount [] fuel ({}, "") =
        some (.error (failureVerdict bodies engine complete), (state,
          generatedOutput notes frame 0 engine.cases ++
          (countsHeader dladdr bodies frame engine ++
            (sections dladdr bodies notes frame engine 0 complete ++
              unfinished notes frame engine 0 engine.failureCount complete)))) := by
  obtain ⟨complete, hReplays⟩ :=
    exists_replays bodies engine.cases.length engine.failureCount
  obtain ⟨state, hCalls, hEnd⟩ := (prints_test hUndisturbed.engine hLoud hReplays
    hUndisturbed.settings hStatus).ends fuel
  exact ⟨complete, state, hReplays, hCalls, hEnd⟩

/-- A body that fails on every call. -/
def failing (_ : Nat) : BodyRun := ⟨[], .throws (runtimeError "failed")⟩

/-- The failure fails again, and its section ends the report. -/
theorem failure_report_oneFailure :
    ∃ state, Printing.test (fun _ => none) failing (fun _ _ => []) {} oneFailure 50 [] 0 ({}, "") =
      some (.error (some (runtimeError "failed")), (state,
        Frame.header {} 1 0 ++ ("Exception: std::runtime_error: failed\n" ++
          "rerun with: hegel::test(test_fn, settings, \x7b\"\"\x7d)\n"))) := by
  obtain ⟨complete, state, hReplays, -, hEnd⟩ := failure_report (fun _ => none) failing
    (fun _ _ => []) (show Frame.quiet {} = false from rfl)
    (show Undisturbed oneFailure 50 from ⟨oneFailure_lawful, by decide⟩) rfl 0
  obtain rfl : complete = 1 := by
    by_contra hOther
    have hLe : complete ≤ 1 := hReplays.le
    have hNone : some (runtimeError "failed") = none := hReplays.flaky (show complete < 1 by omega)
    cases hNone
  have hVerdict : failureVerdict failing oneFailure 1 = some (runtimeError "failed") := by decide
  have hHeader : countsHeader (fun _ => none) failing {} oneFailure = Frame.header {} 1 0 := by
    have hRun : casesRun (statuses (fun _ => none) failing 0 1) = 1 := by decide
    have hDiscarded : casesDiscarded (statuses (fun _ => none) failing 0 1) = 0 := by decide
    exact congrArg₂ (Frame.header {}) hRun hDiscarded
  have hBody : Frame.body {} (outcomeAt (fun _ => none) failing 1) "" false =
      "Exception: std::runtime_error: failed\n" ++
        "rerun with: hegel::test(test_fn, settings, \x7b\"\"\x7d)\n" := by decide
  refine ⟨state, hEnd.trans ?_⟩
  rw [hVerdict, hHeader]
  simp [oneFailure, generatedOutput, sections, failureSection, opened, unfinished, replayed,
    Printing.noted, serial, hBody]

/-- What is left of a nondeterministic failure: its output was buffered, and is
written in groups. -/
def nondeterministicSection (dladdr : Dladdr) (bodies : Nat → BodyRun)
    (notes : Nat → (root : NoteData) → List (NoteCall root)) (frame : Frame) (k : Nat) : String :=
  let lines := groupConcurrentOutput
    (Printing.noted notes k (.generated frame.verbosity true)).outputLines
  String.join (lines.map fun line => (cStr line).text ++ "\n") ++
    ((if lines.isEmpty then "" else "\n") ++ Frame.exceptionLine (outcomeAt dladdr bodies k))

/-- The report of a run that failed in a nondeterministic case shows the last
such case, without a replay. -/
theorem nondeterministic_report (dladdr : Dladdr) (bodies : Nat → BodyRun)
    (notes : Nat → (root : NoteData) → List (NoteCall root)) {frame : Frame}
    (hLoud : frame.quiet = false) {engine : Engine} {statefulStepCount : Int}
    (hUndisturbed : Undisturbed engine statefulStepCount)
    (hStatus : engine.status = .failedNondeterministic) {k : Nat}
    (hLast : LastFailure bodies 0 engine.cases k) (fuel : Nat) :
    ∃ state, state.calls = engine.cases.length ∧
      Printing.test dladdr bodies notes frame engine statefulStepCount [] fuel ({}, "") =
        some (.error (bodies k).ending.own, (state,
          generatedOutput notes frame 0 engine.cases ++
          (countsHeader dladdr bodies frame engine ++
            nondeterministicSection dladdr bodies notes frame k))) := by
  refine (prints_run hUndisturbed.engine hUndisturbed.settings ?_).ends fuel
  unfold Printing.reportRun
  rw [hStatus, progressed_captures hLast, Nat.zero_add]
  refine ((Prints.report hLoud _).silently (.throw _)).of_eq ?_ rfl ?_
  · rw [outcomeAt_exception]
  · rw [Printing.nondeterministicReport, progressed_header]
    simp [nondeterministicSection, String.append_assoc]

/-- An engine whose one case is nondeterministic. -/
def oneNondeterministic : Engine :=
  { cases := [{ nondeterministic := true }], status := .failedNondeterministic }

theorem oneNondeterministic_lawful : oneNondeterministic.Lawful where
  settingsNew := rfl
  setters := nofun
  runStart := rfl
  cases := by
    intro reply hReply
    rw [List.mem_singleton.mp hReply]
    exact ⟨rfl, rfl⟩
  lastTestCase := rfl
  result := rfl
  statusReply := rfl
  failureCount := rfl
  failures i hi := absurd hi (Nat.not_lt_zero i)
  blobReplay := ⟨rfl, rfl, rfl⟩

theorem failing_last : LastFailure failing 0 oneNondeterministic.cases 0 where
  nondeterministic := ⟨_, rfl, rfl⟩
  fails h := by cases h
  last j hj reply hReply := by
    cases j with
    | zero => cases hj
    | succ j => cases hReply

/-- The body notes nothing before it fails. -/
theorem nondeterministic_report_failing :
    ∃ state, Printing.test (fun _ => none) failing (fun _ _ => []) {} oneNondeterministic 50 [] 0
      ({}, "") = some (.error (some (runtimeError "failed")), (state,
        countsHeader (fun _ => none) failing {} oneNondeterministic ++
          "Exception: std::runtime_error: failed\n")) := by
  obtain ⟨state, -, hEnd⟩ := nondeterministic_report (fun _ => none) failing (fun _ _ => [])
    (show Frame.quiet {} = false from rfl)
    (show Undisturbed oneNondeterministic 50 from ⟨oneNondeterministic_lawful, by decide⟩) rfl
    failing_last 0
  have hException : Frame.exceptionLine (outcomeAt (fun _ => none) failing 0) =
      "Exception: std::runtime_error: failed\n" := by decide
  have hGroup : groupConcurrentOutput [] = [] := by
    rw [groupConcurrentOutput, (groupRecords_perm []).eq_nil, List.map_nil]
  refine ⟨state, hEnd.trans ?_⟩
  simp [nondeterministicSection, generatedOutput, oneNondeterministic, Printing.noted, serial,
    hGroup, hException, failing, Ending.own, Fails, runtimeError]

end Hegel.Session
