import HegelCpp.Exception
import HegelCpp.Logic.Program

/-! What the code of one test-case handle sees and changes: the answers the
engine is going to give, the engine's open spans, the memory of the test
program, and the history of the case. The history and the fields marked as
ghosts only observe the run. -/
namespace Hegel

open Logic

/-- `hegel_result_t`. -/
inductive ResultCode where
  | ok
  | stopTest
  | assume
  | backend
  | invalidHandle
  | invalidArg
  | alreadyComplete
  | notComplete
  | internal
  | concurrentUse
  | retry
  deriving DecidableEq, Repr

/-- `rc_label`. -/
def ResultCode.rcLabel : ResultCode → String
  | .stopTest => "engine stopped test"
  | .assume => "assumption rejected"
  | .backend => "backend error"
  | .invalidHandle => "invalid handle"
  | .invalidArg => "invalid argument"
  | .alreadyComplete => "test case already complete"
  | .notComplete => "previous test case not complete"
  | .internal => "internal error"
  | .concurrentUse => "concurrent use of test case handle"
  | .ok | .retry => "unknown error"

/-- One answer of the engine: the return code, the out-parameters, and the
message `hegel_context_last_error` gives afterwards. A call reads the
out-parameter of its own type. -/
structure Answer where
  rc : ResultCode := .ok
  int : Int := 0
  bool : Bool := false
  text : String := ""
  lastError : String := ""
  deriving DecidableEq, Repr

/-- The compound draws the generators open spans around. -/
inductive SpanLabel where
  | list
  | set
  | map
  | tuple
  | oneOf
  | optional
  | flatMap
  | filter
  | mapped
  | statefulRule
  deriving DecidableEq, Repr

/-- A span the engine has open. The number is a ghost that tells apart the
spans of different `start_span` calls. -/
structure OpenSpan where
  label : SpanLabel
  id : Nat
  deriving DecidableEq, Repr

/-- The calls `stateful::run` makes for its own machine, with the start of a
rule and the end of the step's `try` block between them. An answer is absent
when the call raised instead of returning a value. -/
inductive Call where
  | newStateMachine
  | nextGroup (answer : Option Int)
  | nextRule (answer : Option Int)
  | startSpan
  | rule (index : Nat)
  | ended (exn : Option Exn)
  | stopSpan (discard : Bool)
  | ruleRejected
  | shouldCheckInvariant (index : Nat)
  deriving DecidableEq, Repr

/-- What an observer of a stateful runner sees of the machine under test. -/
inductive Observation (S : Type) where
  | state (now : S)
  | rule (index : Nat)
  | ruleFailed (exn : Exn)
  | round (number : Nat)
  | roundFailed
  | invariant (index : Nat) (now : S) (failed : Option Exn)

/-- The library code that absorbs a reject and continues the test case. -/
inductive Site where
  | run
  | runConcurrent
  | «repeat»
  deriving DecidableEq, Repr

/-- A reject that was absorbed: the open spans before the body it left and
after the handler, the span the step opened and the one the handler closed,
and how many compound draws an exception left from inside in between. -/
structure Absorption where
  site : Site
  before : List OpenSpan
  after : List OpenSpan
  opened : Option OpenSpan
  closed : Option OpenSpan
  interrupted : Nat
  deriving DecidableEq, Repr

inductive Event (S : Type) where
  | note (indent : Nat) (text : String)
  | call (machine : Nat) (call : Call)
  | rejectedRule (machine : Nat) (rc : ResultCode)
  | observed (machine : Nat) (what : Observation S)
  | absorbed (what : Absorption)

/-- The world of one test-case handle. `S` is the memory of the test program;
it includes the machine under test. -/
structure World (S : Type) where
  /-- The answers the engine will give; once they are used up its choice
  budget is exhausted. -/
  answers : List Answer
  /-- The engine's open spans, most recent first. -/
  spans : List OpenSpan := []
  memory : S
  noteIndent : Nat := 0
  /-- The engine's state machines that have a rule outstanding. -/
  outstanding : Nat → Bool := fun _ => false
  /-- Ghost: how many state machines were created. -/
  machines : Nat := 0
  /-- Ghost: how many spans were opened. -/
  spansOpened : Nat := 0
  /-- Ghost: how many compound draws were left by an exception that was
  raised between their `start_span` and their `stop_span`. -/
  interrupted : Nat := 0
  /-- Ghost: what happened so far. -/
  history : List (Event S) := []

/-- C++ code that runs on one test-case handle. -/
abbrev Client (S α : Type) : Type := Program Exn (World S) α

variable {S α : Type}

/-- Ghost: append to the history. -/
abbrev World.log (world : World S) (event : Event S) : World S :=
  { world with history := world.history ++ [event] }

def record (event : Event S) : Client S Unit := Program.modify fun world => world.log event

/-- `TestCase::note`, up to the formatting of the text. -/
def note (text : String) : Client S Unit :=
  Program.modify fun world => world.log (.note world.noteIndent text)

/-- `NoteIndentScope`: the destructor runs however the body ends. -/
def noteIndentScope (body : Client S Unit) : Client S Unit := do
  Program.modify fun world => { world with noteIndent := world.noteIndent + 1 }
  body.tryCatch fun e => do
    Program.modify fun world => { world with noteIndent := world.noteIndent - 1 }
    Program.throw e
  Program.modify fun world => { world with noteIndent := world.noteIndent - 1 }

end Hegel
