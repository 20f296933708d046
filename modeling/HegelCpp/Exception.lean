import Mathlib.Init

/-! The C++ exceptions that leave test bodies, rules and library calls. Only
what a `catch` clause or the failure report can observe is kept. -/
namespace Hegel

/-- The `catch` clause an exception object selects. `invalidArgument` stands
for `std::invalid_argument` and its subclasses, `nonStandard` for an object of
a type that does not derive from `std::exception`. -/
inductive ExnClass where
  | stopTest
  | reject
  | invalidArgument
  | stdException
  | nonStandard
  deriving DecidableEq, Repr

/-- An exception object. `failureOrigin` is what `failure_origin()` returns
when the object also derives from `FailureOrigin`. -/
structure Exn where
  cls : ExnClass
  typeName : String
  what : String := ""
  failureOrigin : Option String := none
  deriving DecidableEq, Repr

/-- Thrown when the engine's choice budget for the test case is exhausted. -/
def hegelStopTest : Exn :=
  { cls := .stopTest, typeName := "hegel::internal::HegelStopTest"
    what := "test case stopped by backend" }

/-- Thrown by `assume(false)`, `reject()`, an exhausted `filter()`, and a draw
the engine rejects. -/
def hegelReject : Exn :=
  { cls := .reject, typeName := "hegel::internal::HegelReject", what := "test case rejected" }

def invalidArgument (what : String) : Exn :=
  { cls := .invalidArgument, typeName := "std::invalid_argument", what }

def runtimeError (what : String) : Exn :=
  { cls := .stdException, typeName := "std::runtime_error", what }

/-- `internal::CapturedException`. The origin was computed on the thread that
threw the exception. -/
structure CapturedException where
  exception : Exn
  origin : String
  deriving DecidableEq, Repr

/-- The exception is caught by `catch (const HegelReject&)`. -/
def Exn.isReject (e : Exn) : Bool := e.cls == .reject

end Hegel
