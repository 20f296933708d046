import HegelCpp.Exception
import Mathlib.Data.List.DropRight

/-! How a failing test case gets its origin: the thread-local state that throw
expressions and `CapturedException::rethrow` write, and `run_body`, which reads
it. A build without throw-site capture is one whose `dladdr` finds nothing. -/
namespace Hegel.Origin

/-- `Dl_info`. The file name is absent when the pointer is null. -/
structure DlInfo where
  fname : Option String
  fbase : UInt64
  deriving DecidableEq, Repr

/-- `dladdr`, which returns 0 for an address no loaded object contains. -/
abbrev Dladdr := UInt64 → Option DlInfo

/-- An exception object. Ghost: the return address of the `__cxa_throw` call
that created it. -/
structure Thrown where
  exn : Exn
  thrownAt : UInt64
  deriving DecidableEq, Repr

def toHex (value : UInt64) : String := String.ofList (Nat.toDigits 16 value.toNat)

variable (dladdr : Dladdr)

/-- The address as an offset in the binary that contains it. -/
def siteOf (address : UInt64) : String :=
  match dladdr address with
  | some { fname := some name, fbase } => name ++ "+0x" ++ toHex (address - fbase)
  | _ => ""

/-- The cached sites. Only the site of its address is ever stored. -/
structure Sites where
  find : UInt64 → Option String
  find_site : ∀ address site, find address = some site → site = siteOf dladdr address

namespace Sites

def empty : Sites dladdr := ⟨fun _ => none, fun _ _ h => nomatch h⟩

variable {dladdr}

def emplace (sites : Sites dladdr) (address : UInt64) : Sites dladdr where
  find other := if other = address then some (siteOf dladdr address) else sites.find other
  find_site other site h := by
    split at h
    · next hSame =>
        rw [hSame]
        exact (Option.some.inj h).symm
    · exact sites.find_site other site h

end Sites

/-- The thread-local variables. -/
structure ThreadState where
  lastThrowAddress : UInt64 := 0
  concurrentExceptionOrigin : Option String := none
  sites : Sites dladdr := .empty dladdr

/-- What a thread does that the variables can depend on. Neither `throw;`, nor
`std::rethrow_exception`, nor `Worker::join`, nor a handler goes through
`__cxa_throw`. -/
inductive ThreadEvent where
  | throwExpr (exception : Thrown)
  | raiseAgain (exception : Thrown)
  | rethrowCaptured (captured : CapturedException)
  | caught
  deriving DecidableEq, Repr

variable {dladdr}

namespace ThreadState

/-- `__cxa_throw` and `CapturedException::rethrow`. -/
def step (thread : ThreadState dladdr) : ThreadEvent → ThreadState dladdr
  | .throwExpr exception => { thread with lastThrowAddress := exception.thrownAt }
  | .rethrowCaptured captured => { thread with concurrentExceptionOrigin := some captured.origin }
  | .raiseAgain _ | .caught => thread

def lastThrowSite (thread : ThreadState dladdr) : String × ThreadState dladdr :=
  match thread.sites.find thread.lastThrowAddress with
  | some site => (site, thread)
  | none =>
      (siteOf dladdr thread.lastThrowAddress,
        { thread with sites := thread.sites.emplace thread.lastThrowAddress })

@[simp] theorem lastThrowSite_fst (thread : ThreadState dladdr) :
    thread.lastThrowSite.1 = siteOf dladdr thread.lastThrowAddress := by
  unfold lastThrowSite
  split
  · next site hFound => exact thread.sites.find_site _ _ hFound
  · rfl

@[simp] theorem lastThrowSite_lastThrowAddress (thread : ThreadState dladdr) :
    thread.lastThrowSite.2.lastThrowAddress = thread.lastThrowAddress := by
  unfold lastThrowSite
  split <;> rfl

@[simp] theorem lastThrowSite_concurrentExceptionOrigin (thread : ThreadState dladdr) :
    thread.lastThrowSite.2.concurrentExceptionOrigin = thread.concurrentExceptionOrigin := by
  unfold lastThrowSite
  split <;> rfl

end ThreadState

def typeAt (type site : String) : String :=
  if site.isEmpty then type else type ++ " at " ++ site

/-- `origin_of`. -/
def originOf (named : Option String) (type : String) (thread : ThreadState dladdr) :
    String × ThreadState dladdr :=
  match named with
  | some origin => (origin, thread)
  | none => (typeAt type thread.lastThrowSite.1, thread.lastThrowSite.2)

/-- What the handler that catches the exception passes to `origin_of`: only the
one for `std::exception` looks for a `FailureOrigin`. -/
def namedByHandler (exn : Exn) : Option String :=
  match exn.cls with
  | .nonStandard => none
  | _ => exn.failureOrigin

def captureCurrentException (exception : Exn) (thread : ThreadState dladdr) :
    CapturedException × ThreadState dladdr :=
  let (origin, thread) := originOf (namedByHandler exception) exception.typeName thread
  ({ exception, origin }, thread)

inductive Status where
  | valid
  | invalid
  | overrun
  | interesting
  deriving DecidableEq, Repr

structure BodyOutcome where
  status : Status
  origin : String := ""
  typeName : String := ""
  message : String := ""
  exception : Option Exn := none
  deriving DecidableEq, Repr

/-- The origin both failing handlers of `run_body` compute. -/
def takeOrigin (named : Option String) (type : String) (thread : ThreadState dladdr) :
    String × ThreadState dladdr :=
  match thread.concurrentExceptionOrigin with
  | some origin => (origin, { thread with concurrentExceptionOrigin := none })
  | none => originOf named type thread

/-- `run_body`, from the exception that reaches its handlers. -/
def runBody (escaping : Option Exn) (thread : ThreadState dladdr) :
    BodyOutcome × ThreadState dladdr :=
  match escaping with
  | none => ({ status := .valid }, thread)
  | some exn =>
      match exn.cls with
      | .stopTest => ({ status := .overrun }, thread)
      | .reject => ({ status := .invalid }, thread)
      | .invalidArgument | .stdException =>
          let (origin, thread) := takeOrigin exn.failureOrigin exn.typeName thread
          ({ status := .interesting, origin, typeName := exn.typeName, message := exn.what
             exception := some exn }, thread)
      | .nonStandard =>
          let (origin, thread) := takeOrigin none exn.typeName thread
          ({ status := .interesting, origin, typeName := exn.typeName
             exception := some exn }, thread)

/-- The exception that reaches the handlers of `run_body`. -/
def leaving : Except Exn Unit → Option Exn
  | .ok _ => none
  | .error e => some e

/-- The status `run_body` hands to `mark_complete`. -/
def caseStatus (thread : ThreadState dladdr) (ending : Except Exn Unit) : Status :=
  (runBody (leaving ending) thread).1.status

/-- The exception is a failure of the test case. -/
def Fails (exn : Exn) : Prop := exn.cls ≠ .stopTest ∧ exn.cls ≠ .reject

instance (exn : Exn) : Decidable (Fails exn) := inferInstanceAs (Decidable (_ ∧ _))

/-- How a test body ends. `reraises` stands for an exception that
`CapturedException::rethrow` raised in this body, `raises` for any other. -/
inductive BodyEnd where
  | returns
  | raises (exception : Thrown)
  | reraises (captured : CapturedException)
  deriving DecidableEq, Repr

namespace BodyEnd

def exn : BodyEnd → Option Exn
  | returns => none
  | raises exception => some exception.exn
  | reraises captured => some captured.exception

/-- The body did raise the exception that leaves it. -/
def Escapes (events : List ThreadEvent) : BodyEnd → Prop
  | returns => True
  | raises exception => .throwExpr exception ∈ events ∨ .raiseAgain exception ∈ events
  | reraises captured => .rethrowCaptured captured ∈ events

end BodyEnd

/-- A test case: what its thread did since the case before, and how the body
ended. -/
structure Case where
  events : List ThreadEvent
  ending : BodyEnd
  escapes : ending.Escapes events

namespace Case

/-- The body failed. -/
def fails (case : Case) : Bool := case.ending.exn.any fun exn => decide (Fails exn)

/-- The thread when `run_body` catches what left the body. -/
def reached (case : Case) (thread : ThreadState dladdr) : ThreadState dladdr :=
  case.events.foldl ThreadState.step thread

def run (case : Case) (thread : ThreadState dladdr) : BodyOutcome × ThreadState dladdr :=
  runBody case.ending.exn (case.reached thread)

end Case

variable (dladdr)

/-- The thread after it ran the cases. -/
def threadAfter (cases : List Case) : ThreadState dladdr :=
  cases.foldl (fun thread case => (case.run thread).2) {}

/-- The thread when the body of the case after `earlier` ended. -/
def threadAt (earlier : List Case) (case : Case) : ThreadState dladdr :=
  case.reached (threadAfter dladdr earlier)

/-- What `run_body` returns for the case after `earlier`. -/
def outcome (earlier : List Case) (case : Case) : BodyOutcome :=
  (case.run (threadAfter dladdr earlier)).1

end Hegel.Origin
