import HegelCpp.Concurrent.Outcome
import HegelCpp.Report.Origins
import HegelCpp.Run.Session

/-! The way of a worker's failure to the report: it is captured and classified
on the worker, scanned and raised again on the main thread, and caught by
`run_body`. A failure of the test body itself is only caught. -/
namespace Hegel.WorkerFailure

open Origin Session Concurrent

variable {dladdr : Dladdr} {n : Nat}

/-- What a rule or a test body throws. A foreign exception goes past
`__cxa_throw`, and the ABI has neither a `type_info` nor an `exception_ptr` for it. -/
inductive Object where
  | cxx (thrown : Thrown)
  | foreign
  deriving DecidableEq, Repr

namespace Object

/-- The object is a failure, neither a stop nor a reject. -/
def Fails : Object → Prop
  | cxx thrown => Origin.Fails thrown.exn
  | foreign => True

/-- A thread on which the object was thrown. -/
def thrownOn (thread : ThreadState dladdr) : Object → ThreadState dladdr
  | cxx thrown => thread.step (.throwExpr thrown)
  | foreign => thread

/-- How the test body ends that throws the object. -/
def ending : Object → Ending
  | cxx thrown => .throws thrown.exn
  | foreign => .foreign none

end Object

/-- `internal::CapturedException`, with a null pointer as `none`. -/
structure Captured where
  exception : Option Exn
  origin : String
  deriving DecidableEq, Repr

/-- `capture_current_exception`. -/
def capture (object : Object) (thread : ThreadState dladdr) : Captured :=
  match object with
  | .cxx thrown =>
      let captured := (captureCurrentException thrown.exn thread).1
      { exception := some captured.exception, origin := captured.origin }
  | .foreign => { exception := none, origin := (originOf none "unknown_exception" thread).1 }

/-- `classify` of `run_concurrent`. It rethrows the exception, which is `none`
for a null pointer: what happens then is undefined. -/
def classifyCaptured (captured : Captured) : Option RoundEvent :=
  captured.exception.map fun exception => classify { exception, origin := captured.origin }

/-- `CapturedException::rethrow`, on the main thread. -/
def rethrow (event : RoundEvent) (main : ThreadState dladdr) :
    Option (Exn × ThreadState dladdr) :=
  event.exception.map fun captured => (captured.exception, main.step (.rethrowCaptured captured))

/-- What the main thread throws after a round, if anything, and the thread
then. `site` is where it throws a new stop or reject. -/
def raiseOutcome (events : Fin n → RoundEvent) (site : Exn → UInt64) (main : ThreadState dladdr) :
    Option (Exn × ThreadState dladdr) :=
  let throwNew (exn : Exn) := some (exn, main.step (.throwExpr ⟨exn, site exn⟩))
  let acc := scanEvents events
  match acc.control with
  | some worker => rethrow (events worker) main
  | none =>
      if acc.sawOverrun then throwNew hegelStopTest
      else if acc.sawInvalid then throwNew hegelReject
      else acc.panic.bind fun worker => rethrow (events worker) main

/-- The events of a round in which only the worker `w` raised something. -/
def onlyEvent (w : Fin n) (event : RoundEvent) : Fin n → RoundEvent :=
  Function.update (fun _ => .done) w event

/-- What `run_body` produces when a rule on the worker `w` throws the object. -/
def workerOutcome (object : Object) (w : Fin n) (site : Exn → UInt64)
    (worker main : ThreadState dladdr) : Option BodyOutcome := do
  let event ← classifyCaptured (capture object (object.thrownOn worker))
  let (exn, main) ← raiseOutcome (onlyEvent w event) site main
  pure (runEnding (.throws exn) main).1

/-- What `run_body` produces when the test body throws the object. -/
def directOutcome (object : Object) (main : ThreadState dladdr) : BodyOutcome :=
  (runEnding object.ending (object.thrownOn main)).1

/-- A worker's failure is reported like the failure of a test body, and no
null pointer is thrown on the way. -/
structure ReportedAlike (object : Object) (w : Fin n) (site : Exn → UInt64)
    (worker main : ThreadState dladdr) : Prop where
  neverNull : (capture object (object.thrownOn worker)).exception ≠ none
  outcome : workerOutcome object w site worker main = some (directOutcome object main)
  interesting : (directOutcome object main).status = .interesting
  exception : (directOutcome object main).exception ≠ none

/-- The origin of a C++ object by its type and where it was thrown. -/
def ownOrigin (dladdr : Dladdr) (thrown : Thrown) : String :=
  (originOf (namedByHandler thrown.exn) thrown.exn.typeName
    ({ lastThrowAddress := thrown.thrownAt } : ThreadState dladdr)).1

/-- The object is no foreign exception, and the main thread has no other
origin pending, from a worker's failure that was caught before. -/
def Object.Traceable (dladdr : Dladdr) (main : ThreadState dladdr) : Object → Prop
  | .cxx thrown =>
      ∀ origin, main.concurrentExceptionOrigin = some origin → origin = ownOrigin dladdr thrown
  | .foreign => False

section Round
variable {captured : CapturedException} {w : Fin n}

theorem onlyEvent_kind {kind : EventKind} (hKind : kind ≠ .roundDone) (event : RoundEvent)
    (v : Fin n) : (onlyEvent w event v).kind = kind ↔ v = w ∧ event.kind = kind := by
  by_cases hSame : v = w
  · subst hSame
    simp [onlyEvent]
  · simp [onlyEvent, hSame, hKind.symm]

/-- A failure is a control event or a panic. -/
theorem classify_kind (hFails : Fails captured.exception) :
    (classify captured).kind = .control ∨ (classify captured).kind = .panicked := by
  obtain ⟨hStop, hReject⟩ := hFails
  cases hClass : captured.exception.cls with
  | stopTest => exact absurd hClass hStop
  | reject => exact absurd hClass hReject
  | invalidArgument => exact .inl (by simp [classify, hClass])
  | stdException => exact .inr (by simp [classify, hClass])
  | nonStandard => exact .inr (by simp [classify, hClass])

/-- The only failure of a round is raised again on the main thread. -/
theorem raiseOutcome_only (w : Fin n) (captured : CapturedException)
    (hFails : Fails captured.exception) (site : Exn → UInt64) (main : ThreadState dladdr) :
    raiseOutcome (onlyEvent w (classify captured)) site main =
      some (captured.exception, main.step (.rethrowCaptured captured)) := by
  have hAgain : rethrow (onlyEvent w (classify captured) w) main =
      some (captured.exception, main.step (.rethrowCaptured captured)) := by
    rw [onlyEvent, Function.update_self]
    rfl
  have hFound {kind : EventKind} (hKind : kind ≠ .roundDone)
      (hOwn : (classify captured).kind = kind) :
      (Fin.find? fun v => decide ((onlyEvent w (classify captured) v).kind = kind)) = some w := by
    refine RoundVerdict.find_first ((onlyEvent_kind hKind _ w).mpr ⟨rfl, hOwn⟩) fun v hBefore h => ?_
    exact ne_of_lt hBefore ((onlyEvent_kind hKind _ v).mp h).1
  have hAbsent {kind : EventKind} (hKind : kind ≠ .roundDone)
      (hOther : (classify captured).kind ≠ kind) (v : Fin n) :
      (onlyEvent w (classify captured) v).kind ≠ kind :=
    fun h => hOther ((onlyEvent_kind hKind _ v).mp h).2
  rcases classify_kind hFails with hOwn | hOwn
  · simp only [raiseOutcome, scanEvents_eq, hFound (by simp) hOwn]
    exact hAgain
  · have hControl : ∀ v, (onlyEvent w (classify captured) v).kind ≠ .control :=
      hAbsent (by simp) (by simp [hOwn])
    have hOverrun : ¬ ∃ v, (onlyEvent w (classify captured) v).kind = .overrun :=
      not_exists.mpr (hAbsent (by simp) (by simp [hOwn]))
    have hInvalid : ¬ ∃ v, (onlyEvent w (classify captured) v).kind = .invalid :=
      not_exists.mpr (hAbsent (by simp) (by simp [hOwn]))
    simp only [raiseOutcome, scanEvents_eq, hFound (by simp) hOwn,
      RoundVerdict.find_nobody hControl, decide_eq_true_eq]
    rw [if_neg hOverrun, if_neg hInvalid]
    exact hAgain

end Round

/-- The origin that `origin_of` gives depends on the last throw site only. -/
theorem originOf_thrown (named : Option String) (type : String) {a b : ThreadState dladdr}
    (h : a.lastThrowAddress = b.lastThrowAddress) :
    (originOf named type a).1 = (originOf named type b).1 := by
  cases named with
  | some origin => rfl
  | none => rw [originOf_none, originOf_none, h]

/-- What `run_body` reports of a failure, given its origin. -/
def failureOutcome (exn : Exn) (origin : String) : BodyOutcome where
  status := .interesting
  origin
  typeName := exn.typeName
  message := if exn.cls = .nonStandard then "" else exn.what
  exception := some exn

theorem runBody_failure {exn : Exn} (hFails : Fails exn) (thread : ThreadState dladdr) :
    (runBody (some exn) thread).1 =
      failureOutcome exn (takeOrigin (namedByHandler exn) exn.typeName thread).1 := by
  obtain ⟨cls, typeName, what, failureOrigin⟩ := exn
  cases cls with
  | stopTest => exact absurd rfl hFails.1
  | reject => exact absurd rfl hFails.2
  | invalidArgument => rfl
  | stdException => rfl
  | nonStandard => rfl

section Paths
variable {thrown : Thrown} (w : Fin n) (site : Exn → UInt64) (worker main : ThreadState dladdr)

theorem capture_cxx : capture (.cxx thrown) (Object.thrownOn worker (.cxx thrown)) =
    { exception := some thrown.exn, origin := ownOrigin dladdr thrown } := by
  have hOrigin : (originOf (namedByHandler thrown.exn) thrown.exn.typeName
      (worker.step (.throwExpr thrown))).1 = ownOrigin dladdr thrown :=
    originOf_thrown _ _ rfl
  rw [← hOrigin]
  rfl

/-- On a worker the object takes its origin along. -/
theorem workerOutcome_cxx (hFails : Fails thrown.exn) :
    workerOutcome (.cxx thrown) w site worker main =
      some (failureOutcome thrown.exn (ownOrigin dladdr thrown)) := by
  have hRaised := raiseOutcome_only w
    { exception := thrown.exn, origin := ownOrigin dladdr thrown } hFails site main
  simp only [workerOutcome, capture_cxx, classifyCaptured, Option.map_some, Option.bind_eq_bind,
    Option.bind_some, hRaised, runEnding, runBody_failure hFails]
  rfl

/-- In the test body a pending origin goes before that of the object. -/
theorem directOutcome_cxx (hFails : Fails thrown.exn) :
    directOutcome (.cxx thrown) main = failureOutcome thrown.exn
      (main.concurrentExceptionOrigin.getD (ownOrigin dladdr thrown)) := by
  have hOutcome : directOutcome (.cxx thrown) main = failureOutcome thrown.exn (takeOrigin
      (namedByHandler thrown.exn) thrown.exn.typeName (main.step (.throwExpr thrown))).1 :=
    runBody_failure hFails _
  rw [hOutcome, takeOrigin]
  have hSlot : (main.step (.throwExpr thrown)).concurrentExceptionOrigin =
      main.concurrentExceptionOrigin := rfl
  rw [hSlot]
  cases main.concurrentExceptionOrigin with
  | some origin => rfl
  | none => exact congrArg _ (originOf_thrown _ _ rfl)

end Paths

/-- The failure of a worker is reported like that of a test body exactly for
C++ objects, on a main thread that has no other origin pending. -/
theorem reported_alike_iff {object : Object} (hFails : object.Fails) (w : Fin n)
    (site : Exn → UInt64) (worker main : ThreadState dladdr) :
    ReportedAlike object w site worker main ↔ object.Traceable dladdr main := by
  cases object with
  | foreign => exact iff_of_false (fun h => h.neverNull rfl) id
  | cxx thrown =>
      have hFails : Fails thrown.exn := hFails
      have hDirect := directOutcome_cxx main hFails
      have hAlike : workerOutcome (.cxx thrown) w site worker main =
          some (directOutcome (.cxx thrown) main) ↔
            ownOrigin dladdr thrown =
              main.concurrentExceptionOrigin.getD (ownOrigin dladdr thrown) := by
        rw [workerOutcome_cxx w site worker main hFails, hDirect]
        simp [failureOutcome]
      constructor
      · intro h origin hPending
        have hSame := hAlike.mp h.outcome
        rw [hPending] at hSame
        exact hSame.symm
      · intro hTraceable
        refine ⟨?_, hAlike.mpr ?_, ?_, ?_⟩
        · rw [capture_cxx]
          simp
        · cases hPending : main.concurrentExceptionOrigin with
          | none => rfl
          | some origin => exact (hTraceable origin hPending).symm
        · rw [hDirect]
          rfl
        · rw [hDirect]
          simp [failureOutcome]

/-- A `std::runtime_error` without an own origin. -/
def broken : Object := .cxx ⟨runtimeError "broken", 4096⟩

/-- A rule of the second of two workers throws it. -/
theorem reported_alike_iff_broken :
    ReportedAlike broken (1 : Fin 2) (fun _ => 0) ({} : ThreadState fun _ => none) {} := by
  have hFails : broken.Fails := show Fails (runtimeError "broken") by decide
  exact (reported_alike_iff hFails 1 _ _ _).mpr nofun

/-- A foreign exception, which even a fresh worker captures as a null pointer. -/
theorem not_every_failure_reported_alike :
    ¬ ∀ (object : Object) (worker main : ThreadState fun _ => none), object.Fails →
      ReportedAlike object (0 : Fin 1) (fun _ => 0) worker main :=
  fun h => (h .foreign {} {} trivial).neverNull rfl

end Hegel.WorkerFailure
