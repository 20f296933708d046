import HegelCpp.Generators.Combinators

/-! The loops that run user code repeatedly and absorb its rejects:
`stateful::run`, `TestCase::repeat`, and the rounds of a `run_concurrent`
worker on its own handle. -/
namespace Hegel

open Logic

variable {S : Type}

/-- Ghost: a reject was absorbed by `site`. The worlds are the one before the
body and the present one. -/
def recordAbsorption (site : Site) (start : World S) (opened closed : Option OpenSpan) :
    Client S Unit := do
  let now ← Program.get
  record (.absorbed { site, before := start.spans, after := now.spans, opened, closed
                      interrupted := now.interrupted - start.interrupted })

/-- One iteration of `TestCase::repeat`. -/
def repeatIteration (body : Client S Unit) : Client S Unit := do
  let start ← Program.get
  body.tryCatch fun e =>
    if e.isReject then recordAbsorption .repeat start none none
    else Program.throw e

/-- `TestCase::repeat`. -/
def repeatBody (body : Client S Unit) : Client S Unit := do
  let minSize ← drawInteger 0 1048576
  newCollection minSize.toNat Generators.noMaxSize
  Program.loop (fun iteration : Nat => do
    if ← collectionMore then
      note ("// Repetition #" ++ toString (iteration + 1))
      repeatIteration body
      pure (.inl (iteration + 1))
    else pure (.inr ())) 0

structure Rule (S : Type) where
  name : String
  step : Client S Unit

/-- An invariant is a predicate on the machine that throws when it is violated. -/
structure Invariant (S : Type) where
  name : String
  check : S → Option Exn

/-- A state machine: its rules, its invariants, and how its state is rendered.
Rendering may run user code that throws. -/
structure StateMachine (S : Type) where
  rules : List (Rule S)
  invariants : List (Invariant S)
  repr : S → Except Exn String

structure RunParams where
  printState : Bool := true

/-- What both runners note about a rejected rule. -/
def rejectedNote : String := "Rule stopped early due to violated assumption."

/-- `print_state`. -/
def printState (machine : StateMachine S) (params : RunParams) : Client S Unit := do
  let world ← Program.get
  if params.printState then
    match machine.repr world.memory with
    | .ok text => note ("state = " ++ text)
    | .error e => Program.throw e
  else pure ()

/-- One invariant of `check_invariants`, already selected. -/
def checkInvariant (handle : Nat) (origin : String) (index : Nat) (invariant : Invariant S) :
    Client S Unit := do
  let world ← Program.get
  record (.observed handle (.invariant index world.memory (invariant.check world.memory)))
  match invariant.check world.memory with
  | some e => do
      note ("Invariant " ++ invariant.name ++ " violated " ++ origin)
      Program.throw e
  | none => pure ()

/-- `check_invariants` from `index` on. With `sampled` the engine decides
which invariants run. -/
def checkInvariants (handle : Nat) (origin : String) (sampled : Bool) :
    Nat → List (Invariant S) → Client S Unit
  | _, [] => pure ()
  | index, invariant :: rest => do
      let selected ← (if sampled then shouldCheckInvariant handle index else pure true)
      (if selected then checkInvariant handle origin index invariant else pure ())
      checkInvariants handle origin sampled (index + 1) rest

/-- Ghost: the machine's memory as the rule left it, and whether the rule failed. -/
def observeRule (handle index : Nat) (step : Client S Unit) : Client S Unit := do
  record (.observed handle (.rule index))
  step.tryCatch fun e => do
    let world ← Program.get
    record (.observed handle (.state world.memory))
    (if e.isReject then pure () else record (.observed handle (.ruleFailed e)))
    Program.throw e
  let world ← Program.get
  record (.observed handle (.state world.memory))

/-- The `try` block of a step of `stateful::run`. -/
def stepBody (machine : StateMachine S) (params : RunParams) (handle index : Nat)
    (rule : Rule S) : Client S Unit := do
  observeRule handle index (noteIndentScope rule.step)
  printState machine params
  record (.call handle (.ended none))
  record (.call handle (.stopSpan false))
  let _ ← stopSpan false
  pure ()

/-- The handlers of a step: a reject is absorbed, anything else leaves. -/
def stepHandler (handle : Nat) (start : World S) (opened : OpenSpan) (e : Exn) :
    Client S Unit := do
  record (.call handle (.ended (some e)))
  if e.isReject then
    note rejectedNote
    ruleRejected handle
    record (.call handle (.stopSpan true))
    let closed ← stopSpan true
    recordAbsorption .run start (some opened) closed
  else
    record (.call handle (.stopSpan false))
    let _ ← stopSpan false
    Program.throw e

/-- One step of `stateful::run`, after `next_rule` returned `index`. -/
def runStep (machine : StateMachine S) (params : RunParams) (handle index stepsRun : Nat)
    (rule : Rule S) : Client S Unit := do
  let start ← Program.get
  record (.call handle .startSpan)
  let opened ← startSpan .statefulRule
  note ("Step " ++ toString stepsRun ++ ": " ++ rule.name)
  record (.call handle (.rule index))
  (stepBody machine params handle index rule).tryCatch (stepHandler handle start opened)

/-- The rule an index names, when it is in range. -/
def ruleAt {R : Type} (rules : List R) (index : Int) : Option R :=
  if index < 0 then none else rules[index.toNat]?

def outOfRangeRule : Exn :=
  runtimeError <| "state_machine_next_rule returned out-of-range rule index. " ++
    "Please report this as a bug."

/-- The inner loop of `stateful::run`: the rules of one round. -/
def runRules (machine : StateMachine S) (params : RunParams) (handle : Nat) (stepsRun : Nat) :
    Client S (Nat ⊕ Nat) := do
  let index ← nextRule handle
  if index = stateMachineDone then pure (.inr stepsRun)
  else match ruleAt machine.rules index with
    | none => Program.throw outOfRangeRule
    | some rule => do
        runStep machine params handle index.toNat (stepsRun + 1) rule
        pure (.inl (stepsRun + 1))

/-- The outer loop of `stateful::run`: one round. -/
def runRounds (machine : StateMachine S) (params : RunParams) (handle : Nat) (stepsRun : Nat) :
    Client S (Nat ⊕ Unit) := do
  let group ← nextGroup handle
  if group = stateMachineDone then pure (.inr ())
  else do
    let stepsRun ← Program.loop (runRules machine params handle) stepsRun
    checkInvariants handle ("after step " ++ toString stepsRun) true 0 machine.invariants
    pure (.inl stepsRun)

/-- `stateful::run`. -/
def run (machine : StateMachine S) (params : RunParams) : Client S Unit := do
  if machine.rules.isEmpty then
    Program.throw (invalidArgument "Cannot run a state machine with no rules.")
  else do
    let handle ← newStateMachine
    note "Initial invariant check."
    printState machine params
    checkInvariants handle "in the initial state" false 0 machine.invariants
    Program.loop (runRounds machine params handle) 0
    note "Final invariant check."
    checkInvariants handle "in the final state" false 0 machine.invariants

/-! The part of `run_concurrent` that a worker runs on its own handle. -/

/-- `EventKind` of `run_concurrent`. -/
inductive EventKind where
  | roundDone
  | invalid
  | overrun
  | control
  | panicked
  deriving DecidableEq, Repr

/-- `Event` of `run_concurrent`: how a worker's round ended. Every other event
than `RoundDone` holds the exception that ended the round. -/
structure RoundEvent where
  kind : EventKind := .roundDone
  exception : Option CapturedException := none
  captured : kind ≠ .roundDone → exception.isSome = true := by simp
  deriving DecidableEq, Repr

/-- The event of a round whose stream of rules was exhausted. -/
abbrev RoundEvent.done : RoundEvent := {}

/-- `classify` of `run_concurrent`, in the order of its `catch` clauses. -/
def classify (captured : CapturedException) : RoundEvent :=
  { exception := some captured
    kind := match captured.exception.cls with
      | .stopTest => .overrun
      | .reject => .invalid
      | .invalidArgument => .control
      | .stdException | .nonStandard => .panicked
    captured := fun _ => rfl }

structure ConcurrentRule (S : Type) where
  name : String
  group : String
  function : Client S Unit

/-- The body of the loop in `run_round`. -/
def runRoundRule (rules : List (ConcurrentRule S)) (handle : Nat) :
    Client S (Unit ⊕ RoundEvent) := do
  let index ← nextRule handle
  if index = stateMachineDone then pure (.inr .done)
  else match ruleAt rules index with
    | none => Program.throw outOfRangeRule
    | some rule => do
        note ("Rule: " ++ rule.name)
        let start ← Program.get
        (noteIndentScope rule.function).tryCatch fun e =>
          if e.isReject then do
            ruleRejected handle
            note rejectedNote
            recordAbsorption .runConcurrent start none none
          else Program.throw e
        pure (.inl ())

/-- `run_round` of `run_concurrent`. `capture` is `capture_current_exception`
on the worker's thread. -/
def runRound (rules : List (ConcurrentRule S)) (handle : Nat)
    (capture : Exn → CapturedException) : Client S RoundEvent :=
  (Program.loop (fun _ : Unit => runRoundRule rules handle) ()).tryCatch fun e =>
    pure (classify (capture e))

end Hegel
