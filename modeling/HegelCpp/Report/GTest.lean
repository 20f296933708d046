import HegelCpp.Logic.Decoder
import HegelCpp.Logic.Program
import HegelCpp.Report.Origins

/-! The GoogleTest integration: a reporter records the assertions of one test
case, and `run_case` raises the failed ones as one exception when the body is
over. Is a failed assertion ever lost? -/
namespace Hegel.GTest

open Logic Program Origin

inductive PartKind where
  | success
  | nonFatalFailure
  | fatalFailure
  | skip
  deriving DecidableEq, Repr

/-- `testing::TestPartResult`. The file name is absent when GoogleTest could not
place the assertion. -/
structure TestPartResult where
  kind : PartKind
  fileName : Option String
  lineNumber : Int
  message : String
  deriving DecidableEq, Repr

namespace TestPartResult

def fatallyFailed (part : TestPartResult) : Bool := part.kind == .fatalFailure

def failed (part : TestPartResult) : Bool :=
  part.kind == .nonFatalFailure || part.kind == .fatalFailure

end TestPartResult

/-- Where one failed assertion is written. -/
def position (part : TestPartResult) : String :=
  match part.fileName with
  | none => "<unknown>"
  | some file => file ++ ":" ++ String.ofList (Decoder.decimal part.lineNumber)

/-- Thrown when an assertion fails fatally. -/
def fatalFailure : Exn :=
  { cls := .nonStandard, typeName := "hegel::internal::gtest_hooks::FatalFailure" }

def gtestFailure (origin message : String) : Exn :=
  { cls := .stdException, typeName := "hegel::GTestFailure", what := message
    failureOrigin := some origin }

structure Failures where
  message : String := ""
  origin : String := ""

/-- One turn of the loop in `raise_failures`. -/
def Failures.add (out : Failures) (part : TestPartResult) : Failures :=
  if part.failed then
    let out := if out.message.isEmpty then out
      else { message := out.message ++ "\n", origin := out.origin ++ ", " }
    { message := out.message ++ (position part ++ ": " ++ part.message)
      origin := out.origin ++ position part }
  else out

/-- `raise_failures`: what it throws, if anything. -/
def raiseFailures (recorded : List TestPartResult) : Option Exn :=
  let out := recorded.foldl Failures.add {}
  if out.message.isEmpty then none
  else some (gtestFailure ("hegel::GTestFailure at " ++ out.origin) out.message)

/-- A test-case body, as far as its assertions and exceptions go: `step` stands
for anything else it does with its memory and the engine. -/
inductive Body (S : Type) : Type → Type 1 where
  | ret {α : Type} (a : α) : Body S α
  | bind {α β : Type} (p : Body S α) (k : α → Body S β) : Body S β
  | tryCatch {α : Type} (p : Body S α) (handler : Exn → Body S α) : Body S α
  | loop {α κ : Type} (body : κ → Body S (κ ⊕ α)) (k : κ) : Body S α
  | step {α : Type} (f : S → Except Exn α × S) : Body S α
  | report (part : TestPartResult) : Body S Unit

/-- `Reporter::ReportTestPartResult`. -/
def reportTestPartResult {S : Type} (part : TestPartResult) :
    Program Exn (S × List TestPartResult) Unit := do
  Program.modify fun state => (state.1, state.2 ++ [part])
  if part.fatallyFailed then Program.throw fatalFailure else pure ()

variable {S α : Type}

/-- Run a body under the reporter. -/
def Body.run : {α : Type} → Body S α → Program Exn (S × List TestPartResult) α
  | _, ret a => pure a
  | _, bind p k => p.run >>= fun a => (k a).run
  | _, tryCatch p handler => p.run.tryCatch fun e => (handler e).run
  | _, loop body k => Program.loop (fun k => (body k).run) k
  | _, step f => do
      let state ← Program.get
      Program.modify fun state => ((f state.1).2, state.2)
      match (f state.1).1 with
      | .ok a => pure a
      | .error e => Program.throw e
  | _, report part => reportTestPartResult part

/-- `run_case`, inside a GoogleTest test. -/
def runCase (body : Body S Unit) : Program Exn (S × List TestPartResult) Unit := do
  Program.modify fun state => (state.1, [])
  Program.tryCatch body.run fun e => if e = fatalFailure then pure () else Program.throw e
  let state ← Program.get
  (raiseFailures state.2).elim (pure ()) Program.throw

/-! The exception `raise_failures` makes of the recorded assertions. -/

theorem append_isEmpty (s t : String) : (s ++ t).isEmpty = (s.isEmpty && t.isEmpty) := by
  rw [Bool.eq_iff_iff, Bool.and_eq_true]
  simp only [String.isEmpty_iff, String.append_eq_empty_iff]

/-- One failed assertion leaves a message behind for good. -/
theorem add_isEmpty (out : Failures) (part : TestPartResult) :
    (out.add part).message.isEmpty = (out.message.isEmpty && !part.failed) := by
  have hColon : (": " : String).isEmpty = false := rfl
  unfold Failures.add
  cases part.failed with
  | false => simp
  | true => simp only [if_true, append_isEmpty, hColon]; simp

/-- The message is empty only as long as nothing failed. -/
theorem message_isEmpty (recorded : List TestPartResult) (out : Failures) :
    (recorded.foldl Failures.add out).message.isEmpty =
      (out.message.isEmpty && recorded.all fun part => !part.failed) := by
  induction recorded generalizing out with
  | nil => simp
  | cons part recorded ih =>
      rw [List.foldl_cons, ih, List.all_cons, add_isEmpty, Bool.and_assoc]

def SomeFailed (recorded : List TestPartResult) : Prop := ∃ part ∈ recorded, part.failed = true

instance (recorded : List TestPartResult) : Decidable (SomeFailed recorded) :=
  inferInstanceAs (Decidable (∃ part ∈ recorded, part.failed = true))

theorem nothing_raised {recorded : List TestPartResult} (h : ¬SomeFailed recorded) :
    raiseFailures recorded = none := by
  have hAll : (recorded.all fun part => !part.failed) = true := by
    rw [List.all_eq_true]
    intro part hPart
    cases hFailed : part.failed with
    | false => rfl
    | true => exact absurd ⟨part, hPart, hFailed⟩ h
  have hEmpty := message_isEmpty recorded {}
  rw [hAll] at hEmpty
  exact if_pos hEmpty

theorem failures_raised {recorded : List TestPartResult} (h : SomeFailed recorded) :
    raiseFailures recorded = some (gtestFailure
      ("hegel::GTestFailure at " ++ (recorded.foldl Failures.add {}).origin)
      (recorded.foldl Failures.add {}).message) := by
  obtain ⟨part, hPart, hFailed⟩ := h
  have hAll : (recorded.all fun part => !part.failed) = false := by
    rw [List.all_eq_false]
    exact ⟨part, hPart, by rw [hFailed]; exact Bool.false_ne_true⟩
  have hEmpty := message_isEmpty recorded {}
  rw [hAll, Bool.and_false] at hEmpty
  exact if_neg (by rw [hEmpty]; exact Bool.false_ne_true)

/-- The body was left by a reject or by the end of the choice budget. -/
def ControlFlow (ending : Except Exn Unit) : Prop :=
  ∃ e, leaving ending = some e ∧ (e.cls = .reject ∨ e.cls = .stopTest)

/-- How `run_case` ends, from how the body ended under the reporter. -/
def verdict (ending : Except Exn Unit) (recorded : List TestPartResult) : Except Exn Unit :=
  if leaving ending = none ∨ leaving ending = some fatalFailure then
    (raiseFailures recorded).elim (.ok ()) .error
  else ending

theorem runCase_run {body : Body S Unit} {memory : S} {fuel : Nat} {ending : Except Exn Unit}
    {after : S × List TestPartResult} (earlier : List TestPartResult)
    (hRun : body.run fuel (memory, []) = some (ending, after)) :
    runCase body fuel (memory, earlier) = some (verdict ending after.2, after) := by
  have hRaise (state : S × List TestPartResult) :
      (Option.elim (raiseFailures state.2) (pure ()) Program.throw :
        Program Exn (S × List TestPartResult) Unit) fuel state =
      some ((raiseFailures state.2).elim (.ok ()) .error, state) := by
    cases raiseFailures state.2 with
    | none => rfl
    | some e => rfl
  refine (bind_of_ok rfl).trans ?_
  cases ending with
  | ok u =>
      have hLeaving : leaving (.ok u) = none := rfl
      rw [bind_of_ok (tryCatch_of_ok hRun), verdict, if_pos (Or.inl hLeaving)]
      exact (bind_of_ok rfl).trans (hRaise after)
  | error e =>
      by_cases hFatal : e = fatalFailure
      · have hLeaving : leaving (.error e) = some fatalFailure := congrArg some hFatal
        have hCaught : Program.tryCatch body.run (fun e =>
            if e = fatalFailure then pure () else Program.throw e) fuel (memory, []) =
              some (.ok (), after) := by
          rw [tryCatch_of_error hRun, if_pos hFatal]
          rfl
        rw [bind_of_ok hCaught, verdict, if_pos (Or.inr hLeaving)]
        exact (bind_of_ok rfl).trans (hRaise after)
      · have hLeaving : ¬(leaving (.error e) = none ∨ leaving (.error e) = some fatalFailure) := by
          rintro (h | h)
          · cases h
          · exact hFatal (Option.some.inj h)
        have hCaught : Program.tryCatch body.run (fun e =>
            if e = fatalFailure then pure () else Program.throw e) fuel (memory, []) =
              some (.error e, after) := by
          rw [tryCatch_of_error hRun, if_neg hFatal]
          rfl
        rw [bind_of_error hCaught, verdict, if_neg hLeaving]

section Verdict

variable {dladdr : Dladdr} (thread : ThreadState dladdr) {ending : Except Exn Unit}
  {recorded : List TestPartResult}

theorem failure_interesting (hFailed : SomeFailed recorded) (hEnding : ¬ControlFlow ending) :
    caseStatus thread (verdict ending recorded) = .interesting := by
  unfold verdict
  split
  · rw [failures_raised hFailed]
    exact (runBody_fails ⟨ExnClass.noConfusion, ExnClass.noConfusion⟩).1
  · next hOther =>
      cases ending with
      | ok u => exact absurd (Or.inl rfl) hOther
      | error e =>
          have hFails : Fails e :=
            ⟨fun h => hEnding ⟨e, rfl, .inr h⟩, fun h => hEnding ⟨e, rfl, .inl h⟩⟩
          exact (runBody_fails hFails).1

theorem controlFlow_uninteresting (hEnding : ControlFlow ending) :
    caseStatus thread (verdict ending recorded) ≠ .interesting := by
  obtain ⟨e, hLeaving, hCls⟩ := hEnding
  have hOther : ¬(leaving ending = none ∨ leaving ending = some fatalFailure) := by
    rw [hLeaving]
    rintro (h | h)
    · cases h
    · rw [Option.some.inj h] at hCls
      rcases hCls with h | h <;> cases h
  have hPasses : ∀ exn ∈ leaving ending, ¬Fails exn := by
    intro exn hExn hFails
    rw [hLeaving] at hExn
    cases hExn
    exact hCls.elim hFails.2 hFails.1
  rw [verdict, if_neg hOther]
  exact (runBody_passes hPasses).1

theorem nothing_failed_valid (hFailed : ¬SomeFailed recorded) :
    caseStatus thread (verdict (.ok ()) recorded) = .valid := by
  have hReturns : verdict (.ok ()) recorded = .ok () := by
    unfold verdict
    rw [nothing_raised hFailed]
    rfl
  rw [hReturns]
  rfl

end Verdict

/-- What the case reports is what its assertions say, unless control flow of the
library takes a failure past `raise_failures`. -/
theorem failures_reported_iff {dladdr : Dladdr} (thread : ThreadState dladdr) (body : Body S Unit)
    (memory : S) (earlier : List TestPartResult) (fuel : Nat) (ending : Except Exn Unit)
    (after : S × List TestPartResult) (hRun : body.run fuel (memory, []) = some (ending, after)) :
    ∃ result, runCase body fuel (memory, earlier) = some (result, after) ∧
      ((SomeFailed after.2 → caseStatus thread result = .interesting) ∧
          (¬SomeFailed after.2 → ending = .ok () → caseStatus thread result = .valid) ↔
        ¬(SomeFailed after.2 ∧ ControlFlow ending)) := by
  refine ⟨_, runCase_run earlier hRun, ?_, ?_⟩
  · rintro ⟨hFailed, -⟩ ⟨hSome, hEnding⟩
    exact controlFlow_uninteresting thread hEnding (hFailed hSome)
  · intro hCond
    constructor
    · intro hSome
      exact failure_interesting thread hSome fun hEnding => hCond ⟨hSome, hEnding⟩
    · intro hNone hOk
      rw [hOk]
      exact nothing_failed_valid thread hNone

def failedAssert : TestPartResult := ⟨.fatalFailure, some "test.cpp", 3, "1 vs 2"⟩

/-- `try { ASSERT_EQ(1, 2); } catch (...) {}` -/
def swallowedAssert : Body Unit Unit :=
  .tryCatch (.report failedAssert) fun _ => .ret ()

theorem failures_reported_iff_swallowedAssert :
    ∃ result, runCase swallowedAssert 1 ((), []) = some (result, ((), [failedAssert])) ∧
      caseStatus ({} : ThreadState fun _ => none) result = .interesting := by
  have hEnding : ¬ControlFlow (.ok ()) := by
    rintro ⟨e, hLeaving, -⟩
    cases hLeaving
  obtain ⟨result, hRun, hReported⟩ := failures_reported_iff ({} : ThreadState fun _ => none)
    swallowedAssert () [] 1 (.ok ()) ((), [failedAssert]) rfl
  exact ⟨result, hRun, (hReported.mpr fun h => hEnding h.2).1 (by decide)⟩

def failedExpect : TestPartResult := ⟨.nonFatalFailure, some "test.cpp", 3, "1 vs 2"⟩

/-- `EXPECT_EQ(1, 2); assume(false);` -/
def expectThenAssume : Body Unit Unit :=
  .bind (.report failedExpect) fun _ => .step fun memory => (.error hegelReject, memory)

/-- The failed assertion is recorded and the case is INVALID. -/
theorem not_every_failure_reported :
    ∃ result, runCase expectThenAssume 1 ((), []) = some (result, ((), [failedExpect])) ∧
      SomeFailed [failedExpect] ∧
      caseStatus ({} : ThreadState fun _ => none) result = .invalid := by
  have hRun : expectThenAssume.run 1 ((), []) =
    some (.error hegelReject, ((), [failedExpect])) := rfl
  exact ⟨_, runCase_run [] hRun, by decide, rfl⟩

end Hegel.GTest
