import HegelCpp.Concurrent.Model
import HegelCpp.Report.RunBody
import Mathlib.Algebra.Order.Group.Multiset

/-! Test bodies with every call into libhegel they make and every thread they
start. The engine may answer any call with any return code. The threads of a
case are executed one after another: what a thread reads of the memory it shares
and what the engine answers it are arbitrary, so no interleaving is excluded. -/
namespace Hegel.Threads

open Logic Origin Concurrent

/-- The functions of libhegel a test body calls, directly or through the library. -/
inductive EntryPoint where
  | generateInteger
  | generateIntegerBig
  | generateBoolean
  | generateFloat
  | generateString
  | generateBytes
  | generateDate
  | generateTime
  | generateDatetime
  | generateIpv4
  | generateIpv6
  | generateUuid
  | target
  | newCollection
  | collectionMore
  | collectionReject
  | newPool
  | poolAdd
  | poolGenerate
  | startSpan
  | stopSpan
  | newStateMachine
  | nextGroup
  | nextRule
  | ruleRejected
  | shouldCheckInvariant
  | testCaseClone
  deriving DecidableEq, Repr

/-- The name the call site passes to `raise_for_rc`. -/
def EntryPoint.what : EntryPoint → String
  | generateInteger => "hegel_generate_integer"
  | generateIntegerBig => "hegel_generate_integer_big"
  | generateBoolean => "hegel_generate_boolean"
  | generateFloat => "hegel_generate_float"
  | generateString => "hegel_generate_string"
  | generateBytes => "hegel_generate_bytes"
  | generateDate => "hegel_generate_date"
  | generateTime => "hegel_generate_time"
  | generateDatetime => "hegel_generate_datetime"
  | generateIpv4 => "hegel_generate_ipv4"
  | generateIpv6 => "hegel_generate_ipv6"
  | generateUuid => "hegel_generate_uuid"
  | target => "hegel_target"
  | newCollection => "hegel_new_collection"
  | collectionMore => "hegel_collection_more"
  | collectionReject => "hegel_collection_reject"
  | newPool => "hegel_new_pool"
  | poolAdd => "hegel_pool_add"
  | poolGenerate => "hegel_pool_generate"
  | startSpan => "hegel_start_span"
  | stopSpan => "hegel_stop_span"
  | newStateMachine => "hegel_new_state_machine"
  | nextGroup => "hegel_state_machine_next_group"
  | nextRule => "hegel_state_machine_next_rule"
  | ruleRejected => "hegel_state_machine_rule_rejected"
  | shouldCheckInvariant => "hegel_state_machine_should_check_invariant"
  | testCaseClone => "hegel_test_case_clone"

/-- What a call throws for its answer. `test_case_clone` is the only one of
them that goes through `check_rc`. -/
def EntryPoint.raised (entry : EntryPoint) (answer : Answer) : Option Exn :=
  match entry with
  | testCaseClone => checkRc answer.rc answer.lastError
  | entry => answer.rc.raised entry.what answer.lastError

/-- Ghost: a call that the engine answered with `HEGEL_E_STOP_TEST` or
`HEGEL_E_ASSUME`. The number tells the calls of a case apart. -/
structure Refusal where
  number : Nat
  entry : EntryPoint
  rc : ResultCode
  deriving DecidableEq, Repr

/-- An exception. Ghost: the refusals it stands for. -/
structure Raised where
  exn : Exn
  refusals : Multiset Refusal := 0

/-- The future of a worker that was not joined yet. -/
structure Pending where
  id : Nat
  raised : Option Raised

/-- What the threads of one case share. Ghosts: the refusals, those absorbed by
a rule or a `repeat` iteration, those whose exception the test body's own
handlers did not let through, and those whose exception another exception of
the library took the place of. -/
structure Trace where
  answers : List Answer := []
  reads : Nat := 0
  calls : Nat := 0
  spawned : Nat := 0
  unjoined : List Pending := []
  refused : Multiset Refusal := 0
  absorbed : Multiset Refusal := 0
  dropped : Multiset Refusal := 0
  overtaken : Multiset Refusal := 0

/-- Code that runs on a thread of the case. -/
abbrev Thread (α : Type) : Type := Program Raised Trace α

variable {α : Type}

def Answer.refusals (answer : Answer) (number : Nat) (entry : EntryPoint) : Multiset Refusal :=
  if answer.rc = .stopTest ∨ answer.rc = .assume then {⟨number, entry, answer.rc⟩} else 0

/-- A call into libhegel. An exhausted budget answers it with
`HEGEL_E_STOP_TEST`. -/
def call (entry : EntryPoint) : Thread Answer := do
  let trace ← Program.get
  let answer := trace.answers.headD { rc := .stopTest }
  let refusals := Answer.refusals answer trace.calls entry
  Program.modify fun trace =>
    { trace with answers := trace.answers.tail, calls := trace.calls + 1
                 refused := trace.refused + refusals }
  match entry.raised answer with
  | none => pure answer
  | some exn => Program.throw { exn, refusals }

/-- An exception of the code itself. -/
def fail (exn : Exn) : Thread α := Program.throw { exn }

def refusalsOf (raised : List Raised) : Multiset Refusal := (raised.map (·.refusals)).sum

/-- Throw `exn` in place of all that was raised. It stands for the refusals that
would have been reported in the same way. -/
def raiseInstead (exn : Exn) (raised : List Raised) : Thread α := do
  Program.modify fun trace =>
    { trace with overtaken := trace.overtaken +
        refusalsOf (raised.filter fun other => !decide (other.exn.cls = exn.cls)) }
  Program.throw
    { exn, refusals := refusalsOf (raised.filter fun other => decide (other.exn.cls = exn.cls)) }

/-- Keep an exception as a value, as a future and an event do. -/
def capture (p : Thread α) : Thread (α ⊕ Raised) :=
  Program.tryCatch (do let a ← p; pure (.inl a)) fun raised => pure (.inr raised)

/-- A `catch (const HegelReject&)` of the library, with what its handler does. -/
def absorbReject (body handler : Thread Unit) : Thread Unit :=
  body.tryCatch fun raised => do
    if raised.exn.isReject then
      Program.modify fun trace => { trace with absorbed := trace.absorbed + raised.refusals }
      handler
    else Program.throw raised

/-- `TestCase::repeat`. -/
def repeatBody (body : Thread Unit) : Thread Unit := do
  let _ ← call .generateInteger
  let _ ← call .newCollection
  Program.loop (fun _ : Unit => do
    let answer ← call .collectionMore
    if answer.bool then
      absorbReject body (pure ())
      pure (.inl ())
    else pure (.inr ())) ()

/-- `check_invariants`. With `sampled` the engine decides which invariants run. -/
def checkInvariants (sampled : Bool) : List (Thread Unit) → Thread Unit
  | [] => pure ()
  | invariant :: rest => do
      let answer ← (if sampled then call .shouldCheckInvariant else pure { bool := true })
      (if answer.bool then invariant else pure ())
      checkInvariants sampled rest

/-- The handler for any other exception than a reject: the span is closed, which
may raise as well, and the exception goes on. -/
def closeAndRethrow (raised : Raised) : Thread Unit := do
  let _ ← (call .stopSpan).tryCatch fun later => raiseInstead later.exn [raised, later]
  Program.throw raised

/-- One step of `stateful::run`, after `next_rule` returned. -/
def runStep (print rule : Thread Unit) : Thread Unit := do
  let _ ← call .startSpan
  let body : Thread Unit := do
    rule
    print
    let _ ← call .stopSpan
    pure ()
  body.tryCatch fun raised => do
    if raised.exn.isReject then
      Program.modify fun trace => { trace with absorbed := trace.absorbed + raised.refusals }
      let _ ← call .ruleRejected
      let _ ← call .stopSpan
      pure ()
    else closeAndRethrow raised

/-- The rules of one round of `stateful::run`. -/
def runRules (rules : List (Thread Unit)) (print : Thread Unit) : Thread (Unit ⊕ Unit) := do
  let answer ← call .nextRule
  if answer.int = stateMachineDone then pure (.inr ())
  else match ruleAt rules answer.int with
    | none => fail outOfRangeRule
    | some rule => do
        runStep print rule
        pure (.inl ())

def runRounds (rules invariants : List (Thread Unit)) (print : Thread Unit) :
    Thread (Unit ⊕ Unit) := do
  let answer ← call .nextGroup
  if answer.int = stateMachineDone then pure (.inr ())
  else do
    Program.loop (fun _ : Unit => runRules rules print) ()
    checkInvariants true invariants
    pure (.inl ())

/-- `stateful::run`. `print` renders the machine's state, which may throw. -/
def run (rules invariants : List (Thread Unit)) (print : Thread Unit) : Thread Unit := do
  if rules.isEmpty then fail (invalidArgument "Cannot run a state machine with no rules.")
  else do
    let _ ← call .newStateMachine
    print
    checkInvariants false invariants
    Program.loop (fun _ : Unit => runRounds rules invariants print) ()
    checkInvariants false invariants

/-! `run_concurrent`. -/

/-- The body of the loop in `run_round`. -/
def runRoundRule (rules : List (Thread Unit)) : Thread (Unit ⊕ Unit) := do
  let answer ← call .nextRule
  if answer.int = stateMachineDone then pure (.inr ())
  else match ruleAt rules answer.int with
    | none => fail outOfRangeRule
    | some rule => do
        absorbReject rule (do let _ ← call .ruleRejected; pure ())
        pure (.inl ())

/-- `run_round`: the exception that ended the worker's round, if any. -/
def runRound (rules : List (Thread Unit)) : Thread (Option Raised) := do
  let ended ← capture (Program.loop (fun _ : Unit => runRoundRule rules) ())
  pure ended.getRight?

/-- The rounds of the remaining workers. -/
def runWorkers (rules : List (Thread Unit)) : Nat → Thread (List (Option Raised))
  | 0 => pure []
  | workers + 1 => do
      let ended ← runRound rules
      let rest ← runWorkers rules workers
      pure (ended :: rest)

/-- The event of a worker's round. Its origin is not looked at by the scan. -/
def eventOf : Option Raised → RoundEvent
  | none => .done
  | some raised => classify { exception := raised.exn, origin := "" }

/-- The scan over the events of a round, and what it throws. -/
def scanRound (ended : List (Option Raised)) : Thread Unit :=
  match roundOutcome fun w : Fin ended.length => eventOf (ended.get w) with
  | none => pure ()
  | some exn => raiseInstead exn (ended.filterMap id)

/-- The workers that remain to be started. Once a thread runs, an exception
destroys the vector of threads and terminates the process. -/
def startWorkers : (started remaining : Nat) → Thread Unit
  | _, 0 => pure ()
  | started, remaining + 1 => do
      let _ ← (call .testCaseClone).tryCatch fun raised =>
        if started = 0 then Program.throw raised else Program.diverge
      startWorkers (started + 1) remaining

def outOfRangeGroup : Exn :=
  runtimeError <| "state_machine_next_group returned an unknown group index. " ++
    "Please report this as a bug."

/-- One round of `run_concurrent`. -/
def concurrentRound (groups workers : Nat) (rules invariants : List (Thread Unit)) :
    Thread (Unit ⊕ Unit) := do
  let answer ← call .nextGroup
  if answer.int = stateMachineDone then pure (.inr ())
  else if answer.int < 0 ∨ groups ≤ answer.int.toNat then fail outOfRangeGroup
  else do
    let ended ← runWorkers rules workers
    scanRound ended
    checkInvariants true invariants
    pure (.inl ())

/-- `run_concurrent`. The engine answers with the concurrency level. -/
def runConcurrent (decls : List RuleDecl) (rules invariants : List (Thread Unit))
    (minConcurrency maxConcurrency : Int) : Thread Unit := do
  if minConcurrency < 1 ∨ minConcurrency > maxConcurrency then
    fail (invalidArgument "concurrency bounds must satisfy 1 <= min <= max")
  else if rules.isEmpty then
    fail (invalidArgument "Cannot run a concurrent state machine with no rules.")
  else do
    let machine ← call .newStateMachine
    checkInvariants false invariants
    startWorkers 0 machine.int.toNat
    Program.loop (fun _ : Unit => concurrentRound (groupTable decls).1.length machine.int.toNat
      rules invariants) ()
    checkInvariants false invariants

/-! Workers of the test body itself. -/

/-- A `Worker`, with the result of its callable. -/
structure Worker (α : Type) where
  id : Nat
  value : Option α

def spawn (body : Thread α) : Thread (Worker α) := do
  let _ ← call .testCaseClone
  let ended ← capture body
  let trace ← Program.get
  Program.modify fun trace =>
    { trace with spawned := trace.spawned + 1
                 unjoined := trace.unjoined ++ [⟨trace.spawned, ended.getRight?⟩] }
  pure ⟨trace.spawned, ended.getLeft?⟩

def futureError : Exn :=
  { cls := .stdException, typeName := "std::future_error", what := "No associated state" }

/-- `Worker::join`. The result can be taken once. -/
def join (worker : Worker α) : Thread α := do
  let trace ← Program.get
  match trace.unjoined.find? fun pending => pending.id == worker.id with
  | none => fail futureError
  | some pending => do
      Program.modify fun trace =>
        { trace with unjoined := trace.unjoined.eraseP fun pending => pending.id == worker.id }
      match pending.raised, worker.value with
      | some raised, _ => Program.throw raised
      | none, some a => pure a
      | none, none => fail futureError

/-- A handler of the test body. A handler that returns nothing lets the
exception through. -/
def handle (raised : Raised) (handler : Thread (Option α)) : Thread α := do
  let drop : Thread Unit := Program.modify fun trace =>
    { trace with dropped := trace.dropped + raised.refusals }
  let handled ← handler.tryCatch fun later => do
    drop
    Program.throw later
  match handled with
  | none => Program.throw raised
  | some a => do
      drop
      pure a

/-- Everything a test body, a generator or a rule can do, as far as its
exceptions go. -/
inductive Task (S : Type) : Type → Type 1 where
  | ret {α : Type} (a : α) : Task S α
  | bind {α β : Type} (p : Task S α) (k : α → Task S β) : Task S β
  | loop {α κ : Type} (body : κ → Task S (κ ⊕ α)) (k : κ) : Task S α
  | throw {α : Type} (exn : Exn) : Task S α
  | tryCatch {α : Type} (p : Task S α) (handler : Exn → Task S (Option α)) : Task S α
  | read : Task S S
  | call (entry : EntryPoint) : Task S Answer
  | «repeat» (body : Task S Unit) : Task S Unit
  | run {n k : Nat} (rules : Fin n → Task S Unit) (invariants : Fin k → Task S Unit)
      (print : Task S Unit) : Task S Unit
  | runConcurrent {n k : Nat} (decls : Fin n → RuleDecl) (rules : Fin n → Task S Unit)
      (invariants : Fin k → Task S Unit) (minConcurrency maxConcurrency : Int) : Task S Unit
  | spawn {α : Type} (body : Task S α) : Task S (Worker α)
  | join {α : Type} (worker : Worker α) : Task S α

/-- Run a task. `seen` is what the reads of the shared memory find. -/
def Task.exec {S : Type} (seen : Nat → S) : {α : Type} → Task S α → Thread α
  | _, ret a => pure a
  | _, bind p k => p.exec seen >>= fun a => (k a).exec seen
  | _, loop body k => Program.loop (fun k => (body k).exec seen) k
  | _, throw exn => fail exn
  | _, tryCatch p handler =>
      (p.exec seen).tryCatch fun raised => handle raised ((handler raised.exn).exec seen)
  | _, read => do
      let trace ← Program.get
      Program.modify fun trace => { trace with reads := trace.reads + 1 }
      pure (seen trace.reads)
  | _, call entry => Threads.call entry
  | _, «repeat» body => repeatBody (body.exec seen)
  | _, run rules invariants print =>
      Threads.run (List.ofFn fun i => (rules i).exec seen)
        (List.ofFn fun i => (invariants i).exec seen) (print.exec seen)
  | _, runConcurrent decls rules invariants minConcurrency maxConcurrency =>
      Threads.runConcurrent (List.ofFn decls) (List.ofFn fun i => (rules i).exec seen)
        (List.ofFn fun i => (invariants i).exec seen) minConcurrency maxConcurrency
  | _, spawn body => Threads.spawn (body.exec seen)
  | _, join worker => Threads.join worker

end Hegel.Threads
