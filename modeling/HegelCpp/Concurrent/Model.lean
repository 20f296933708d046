import HegelCpp.Logic.Transition
import HegelCpp.Report.Output
import HegelCpp.Stateful.Runner
import Mathlib.Data.Fintype.Basic

/-! `run_concurrent` as the steps of its main thread and of `n` workers. Every
section that holds the mutex is one step, and so is the evaluation of a wait's
predicate. What a rule does is up to the worker's steps inside it. -/
namespace Hegel.Concurrent

open Logic

/-- A `ConcurrentRule`, without the function that applies it. -/
structure RuleDecl where
  name : String
  group : String
  deriving DecidableEq, Repr

/-- One rule of the loop that numbers the groups: `group_names` and
`rule_groups` so far. -/
def addRule (table : List String × List Nat) (rule : RuleDecl) : List String × List Nat :=
  if rule.group ∈ table.1 then (table.1, table.2 ++ [table.1.idxOf rule.group])
  else (table.1 ++ [rule.group], table.2 ++ [table.1.length])

def groupTable (rules : List RuleDecl) : List String × List Nat := rules.foldl addRule ([], [])

/-- The arguments of `run_concurrent` and what surrounds the call. `elapsed`
renders a worker's clock when there are that many lines of output. -/
structure Params (S : Type) where
  rules : List RuleDecl
  invariants : List (Invariant S)
  minConcurrency : Int
  maxConcurrency : Int
  root : TestCaseData
  elapsed : Nat → String

variable {S : Type}

namespace Params

def groupNames (params : Params S) : List String := (groupTable params.rules).1

def ruleGroups (params : Params S) : List Nat := (groupTable params.rules).2

/-- What `run_concurrent` throws about its arguments, if anything. -/
def argumentError (params : Params S) : Option Exn :=
  if params.minConcurrency < 1 ∨ params.minConcurrency > params.maxConcurrency then
    some (invalidArgument "concurrency bounds must satisfy 1 <= min <= max")
  else if params.rules.isEmpty then
    some (invalidArgument "Cannot run a concurrent state machine with no rules.")
  else none

/-- The handle a worker thread owns. -/
def workerData (params : Params S) (worker : Nat) : TestCaseData :=
  params.root.clone.setConcurrentWorker worker

end Params

/-- The three calls of `check_invariants`. -/
inductive Phase where
  | initial
  | joined
  | final
  deriving DecidableEq, Repr

/-- Where the main thread stands. An `exit` is the exception that is leaving. -/
inductive MainPc where
  | create
  | check (phase : Phase) (index : Nat)
  | sample (index : Nat)
  | spawn (worker : Nat)
  | nextGroup
  | startRound (group : Nat)
  | notifyStart
  | waitDone
  | blockedDone
  | scan
  | setStop (exit : Option Exn)
  | notifyStop (exit : Option Exn)
  | join (exit : Option Exn) (worker : Nat)
  | finished (exit : Option Exn)
  | terminated
  deriving DecidableEq, Repr

/-- Where a worker's thread stands. `check` is about to evaluate the predicate
of its wait; `waiting` needs a notification first. -/
inductive WorkerPc where
  | absent
  | check
  | waiting
  | nextRule
  | inRule (index : Nat)
  | store (event : RoundEvent)
  | notify
  | exited
  deriving DecidableEq, Repr

/-- A worker's thread. Ghosts: how many times it has entered and left
`run_round`, what `run_round` returned this round, and whether it was joined. -/
structure Worker where
  pc : WorkerPc := .absent
  observedRoundNumber : UInt64 := 0
  entered : Nat := 0
  left : Nat := 0
  returned : Option RoundEvent := none
  joined : Bool := false
  deriving DecidableEq, Repr

/-- The two threads' shared state. Ghosts: the number of rounds without
overflow, the exception the main thread raised, the worker whose start failed,
and what an observer has seen. -/
structure State (S : Type) (n : Nat) where
  main : MainPc
  workers : Fin n → Worker
  roundNumber : UInt64
  stop : Bool
  numWorkersCompleted : Nat
  events : Fin n → RoundEvent
  memory : S
  outputLines : List WorkerOutputLine
  /-- The engine's current concurrency group. -/
  currentGroup : Nat
  rounds : Nat
  raised : Option Exn
  startFailed : Option Nat
  seen : List (Observation S)

variable {n : Nat}

/-- The accumulators of the scan over the events of a round. -/
structure Scan (n : Nat) where
  control : Option (Fin n) := none
  sawOverrun : Bool := false
  sawInvalid : Bool := false
  panic : Option (Fin n) := none

def scanEvent (events : Fin n → RoundEvent) (acc : Scan n) (worker : Fin n) : Scan n :=
  match (events worker).kind with
  | .roundDone => acc
  | .invalid => { acc with sawInvalid := true }
  | .control => if acc.control.isNone then { acc with control := some worker } else acc
  | .overrun => { acc with sawOverrun := true }
  | .panicked => if acc.panic.isNone then { acc with panic := some worker } else acc

def scanEvents (events : Fin n → RoundEvent) : Scan n :=
  (List.finRange n).foldl (scanEvent events) {}

/-- The exception that `event.exception->rethrow()` raises. -/
def RoundEvent.rethrown (event : RoundEvent) : Option Exn :=
  event.exception.map (·.exception)

/-- What the main thread throws after a round, if anything. -/
def roundOutcome (events : Fin n → RoundEvent) : Option Exn :=
  let acc := scanEvents events
  match acc.control with
  | some worker => RoundEvent.rethrown (events worker)
  | none =>
      if acc.sawOverrun then some hegelStopTest
      else if acc.sawInvalid then some hegelReject
      else acc.panic.bind fun worker => RoundEvent.rethrown (events worker)

/-- Ghost: what the events of a round show. -/
def roundSeen (events : Fin n → RoundEvent) : List (Observation S) :=
  if ∀ w, (events w).kind = .roundDone then [] else [.roundFailed]

/-- The loop that starts the workers, from `worker` on. -/
def spawnFrom (n worker : Nat) : MainPc := if worker < n then .spawn worker else .nextGroup

/-- The loop that joins the workers, from `worker` on. -/
def joinFrom (n : Nat) (exit : Option Exn) (worker : Nat) : MainPc :=
  if worker < n then .join exit worker else .finished exit

/-- `check_invariants` from `index` on, and what comes after it. -/
def checkFrom (params : Params S) (n : Nat) (phase : Phase) (index : Nat) : MainPc :=
  if index < params.invariants.length then
    match phase with
    | .joined => .sample index
    | phase => .check phase index
  else match phase with
    | .initial => spawnFrom n 0
    | .joined => .nextGroup
    | .final => .setStop none

namespace State

variable (params : Params S) (s : State S n)

def setWorker (w : Fin n) (worker : Worker) : State S n :=
  { s with workers := Function.update s.workers w worker }

/-- `state.start.notify_all()`. -/
def wakeWorkers (worker : Worker) : Worker :=
  if worker.pc = .waiting then { worker with pc := .check } else worker

/-- A `note` of the main thread on the root handle. -/
def noted (text : String) (emitter : Emitter) : State S n :=
  { s with outputLines := s.outputLines ++ params.root.note "" text emitter }

/-- A `note` on a handle of a worker, or on one derived from it. -/
def workerNoted (w : Fin n) (depth : Nat) (data : TestCaseData) (text : String) : State S n :=
  { s with outputLines := s.outputLines ++
      data.note (params.elapsed s.outputLines.length) text (.worker w s.rounds depth) }

/-- An exception is raised in the `try` block; its handler stops the workers. -/
def raise (e : Exn) : State S n := { s with main := .setStop (some e), raised := some e }

/-- An exception leaves while no thread was started yet. -/
def leave (e : Exn) : State S n := { s with main := .finished (some e), raised := some e }

/-- Where `check_invariants` places a violation. -/
def origin : Phase → String
  | .initial => "in the initial state"
  | .joined => "after round " ++ toString s.roundNumber
  | .final => "in the final state"

def header (params : Params S) (group : Nat) (roundNumber : UInt64) : String :=
  "---------------- Round " ++ toString roundNumber ++ ": group \"" ++
    params.groupNames.getD group "" ++ "\" ----------------"

/-- The locked section that starts a round. -/
def startRound (group : Nat) : State S n :=
  { s with
    main := .notifyStart
    numWorkersCompleted := 0
    roundNumber := s.roundNumber + 1
    rounds := s.rounds + 1
    workers := fun w => { s.workers w with returned := none }
    outputLines := s.outputLines ++ params.root.note "" (header params group (s.roundNumber + 1))
      (.header (s.rounds + 1))
    seen := s.seen ++ [.round (s.rounds + 1)] }

/-- `run_round` of `w` returns `event`. -/
def returns (w : Fin n) (event : RoundEvent) : State S n :=
  s.setWorker w { s.workers w with pc := .store event, returned := some event }

/-- The locked section that stores a worker's event. -/
def store (w : Fin n) (event : RoundEvent) : State S n :=
  { s.setWorker w { s.workers w with pc := .notify, left := (s.workers w).left + 1 } with
    events := Function.update s.events w event
    numWorkersCompleted := s.numWorkersCompleted + 1 }

end State

/-- The state in which `run_concurrent` is called. -/
structure Initial (s : State S n) : Prop where
  main : s.main = .create
  workers : ∀ w, s.workers w = {}
  roundNumber : s.roundNumber = 0
  stop : s.stop = false
  numWorkersCompleted : s.numWorkersCompleted = 0
  events : ∀ w, s.events w = .done
  outputLines : s.outputLines = []
  rounds : s.rounds = 0
  raised : s.raised = none
  startFailed : s.startFailed = none
  seen : s.seen = []

def State.start (memory : S) (n : Nat) : State S n where
  main := .create
  workers := fun _ => {}
  roundNumber := 0
  stop := false
  numWorkersCompleted := 0
  events := fun _ => .done
  memory := memory
  outputLines := []
  currentGroup := 0
  rounds := 0
  raised := none
  startFailed := none
  seen := []

theorem initial_start (memory : S) (n : Nat) : Initial (State.start memory n) :=
  ⟨rfl, fun _ => rfl, rfl, rfl, rfl, fun _ => rfl, rfl, rfl, rfl, rfl, rfl⟩

/-- The steps of the main thread. -/
inductive MainStep (params : Params S) (s : State S n) : State S n → Prop where
  | rejectArguments (e : Exn) (hPc : s.main = .create) (hError : params.argumentError = some e) :
      MainStep params s (s.leave e)
  | createFails (e : Exn) (hPc : s.main = .create) (hArguments : params.argumentError = none) :
      MainStep params s (s.leave e)
  /-- The engine draws the concurrency level within the bounds. -/
  | create (hPc : s.main = .create) (hArguments : params.argumentError = none)
      (hMin : params.minConcurrency ≤ n) (hMax : (n : Int) ≤ params.maxConcurrency) :
      MainStep params s
        { (s.noted params ("Concurrency level: " ++ toString n) .main).noted params
            "Initial invariant check." .main with main := checkFrom params n .initial 0 }
  | sampleRaises (e : Exn) (index : Nat) (hPc : s.main = .sample index) :
      MainStep params s (s.raise e)
  | sample (index : Nat) (selected : Bool) (hPc : s.main = .sample index) :
      MainStep params s
        { s with
          main := if selected then .check .joined index
            else checkFrom params n .joined (index + 1) }
  | evaluate (phase : Phase) (index : Nat) (invariant : Invariant S)
      (hPc : s.main = .check phase index) (hInvariant : params.invariants[index]? = some invariant)
      (hHolds : invariant.check s.memory = none) :
      MainStep params s
        { s with
          main := checkFrom params n phase (index + 1)
          seen := s.seen ++ [.invariant index s.memory none] }
  | violate (phase : Phase) (index : Nat) (invariant : Invariant S) (e : Exn)
      (hPc : s.main = .check phase index) (hInvariant : params.invariants[index]? = some invariant)
      (hViolated : invariant.check s.memory = some e) :
      MainStep params s
        { s.noted params ("Invariant " ++ invariant.name ++ " violated " ++ s.origin phase) .main with
          main := if phase = .initial then .finished (some e) else .setStop (some e)
          raised := some e
          seen := s.seen ++ [.invariant index s.memory (some e)] }
  | spawn (w : Fin n) (hPc : s.main = .spawn w) :
      MainStep params s
        { s.setWorker w { s.workers w with pc := .check } with main := spawnFrom n (w + 1) }
  /-- The clone or the thread fails to start. This is outside the `try` block:
  the vector of threads is destroyed, and a joinable thread terminates the process. -/
  | spawnFails (w : Fin n) (e : Exn) (hPc : s.main = .spawn w) :
      MainStep params s
        { s with
          main := if (w : Nat) = 0 then .finished (some e) else .terminated
          raised := some e
          startFailed := some w }
  | nextGroupRaises (e : Exn) (hPc : s.main = .nextGroup) : MainStep params s (s.raise e)
  | nextGroupDone (hPc : s.main = .nextGroup) :
      MainStep params s
        { s.noted params "Final invariant check." .main with main := checkFrom params n .final 0 }
  | nextGroup (group : Nat) (hPc : s.main = .nextGroup)
      (hGroup : group < params.groupNames.length) :
      MainStep params s { s with main := .startRound group, currentGroup := group }
  | startRound (group : Nat) (hPc : s.main = .startRound group) :
      MainStep params s (s.startRound params group)
  | notifyStart (hPc : s.main = .notifyStart) :
      MainStep params s
        { s with main := .waitDone, workers := fun w => State.wakeWorkers (s.workers w) }
  | allDone (hPc : s.main = .waitDone) (hAll : s.numWorkersCompleted = n) :
      MainStep params s { s with main := .scan }
  | blockDone (hPc : s.main = .waitDone) (hSome : s.numWorkersCompleted ≠ n) :
      MainStep params s { s with main := .blockedDone }
  | scanRaises (e : Exn) (hPc : s.main = .scan) (hOutcome : roundOutcome s.events = some e) :
      MainStep params s { s.raise e with seen := s.seen ++ roundSeen s.events }
  | scan (hPc : s.main = .scan) (hOutcome : roundOutcome s.events = none) :
      MainStep params s
        { s with main := checkFrom params n .joined 0, seen := s.seen ++ roundSeen s.events }
  | setStop (exit : Option Exn) (hPc : s.main = .setStop exit) :
      MainStep params s { s with stop := true, main := .notifyStop exit }
  | notifyStop (exit : Option Exn) (hPc : s.main = .notifyStop exit) :
      MainStep params s
        { s with main := joinFrom n exit 0, workers := fun w => State.wakeWorkers (s.workers w) }
  | join (exit : Option Exn) (w : Fin n) (hPc : s.main = .join exit w)
      (hExited : (s.workers w).pc = .exited) :
      MainStep params s
        { s.setWorker w { s.workers w with joined := true } with main := joinFrom n exit (w + 1) }

/-- The steps of the worker `w`. -/
inductive WorkerStep (params : Params S) (w : Fin n) (s : State S n) : State S n → Prop where
  | stop (hPc : (s.workers w).pc = .check) (hStop : s.stop = true) :
      WorkerStep params w s (s.setWorker w { s.workers w with pc := .exited })
  | enter (hPc : (s.workers w).pc = .check) (hStop : s.stop = false)
      (hNew : s.roundNumber ≠ (s.workers w).observedRoundNumber) :
      WorkerStep params w s (s.setWorker w
        { s.workers w with
          pc := .nextRule
          observedRoundNumber := s.roundNumber
          entered := (s.workers w).entered + 1 })
  | wait (hPc : (s.workers w).pc = .check) (hStop : s.stop = false)
      (hOld : s.roundNumber = (s.workers w).observedRoundNumber) :
      WorkerStep params w s (s.setWorker w { s.workers w with pc := .waiting })
  /-- The engine returns a rule of the current group. -/
  | nextRule (index : Nat) (rule : RuleDecl) (hPc : (s.workers w).pc = .nextRule)
      (hRule : params.rules[index]? = some rule)
      (hGroup : params.ruleGroups[index]? = some s.currentGroup) :
      WorkerStep params w s
        { (s.workerNoted params w 0 (params.workerData w) ("Rule: " ++ rule.name)).setWorker w
            { s.workers w with pc := .inRule index } with
          seen := s.seen ++ [.rule index] }
  | nextRuleDone (hPc : (s.workers w).pc = .nextRule) : WorkerStep params w s (s.returns w .done)
  | nextRuleRaises (captured : CapturedException) (hPc : (s.workers w).pc = .nextRule) :
      WorkerStep params w s (s.returns w (classify captured))
  | write (index : Nat) (memory : S) (hPc : (s.workers w).pc = .inRule index) :
      WorkerStep params w s { s with memory, seen := s.seen ++ [.state memory] }
  /-- A note or a draw through a handle that is `depth` clones away. -/
  | emit (index depth indent : Nat) (message : String) (hPc : (s.workers w).pc = .inRule index) :
      WorkerStep params w s (s.workerNoted params w depth
        { TestCaseData.clone^[depth] (params.workerData w) with noteIndent := indent } message)
  | ruleReturns (index : Nat) (hPc : (s.workers w).pc = .inRule index) :
      WorkerStep params w s (s.setWorker w { s.workers w with pc := .nextRule })
  | ruleRejects (index : Nat) (hPc : (s.workers w).pc = .inRule index) :
      WorkerStep params w s ((s.workerNoted params w 0 (params.workerData w)
        rejectedNote).setWorker w { s.workers w with pc := .nextRule })
  /-- The rule was rejected and `rule_rejected` raises. -/
  | rejectionRaises (index : Nat) (captured : CapturedException)
      (hPc : (s.workers w).pc = .inRule index) :
      WorkerStep params w s (s.returns w (classify captured))
  | ruleThrows (index : Nat) (captured : CapturedException)
      (hPc : (s.workers w).pc = .inRule index)
      (hOther : captured.exception.isReject = false) :
      WorkerStep params w s (s.returns w (classify captured))
  | store (event : RoundEvent) (hPc : (s.workers w).pc = .store event) :
      WorkerStep params w s (s.store w event)
  | notifyDone (hPc : (s.workers w).pc = .notify) :
      WorkerStep params w s
        { s.setWorker w { s.workers w with pc := .check } with
          main := if s.main = .blockedDone then .waitDone else s.main }

/-- A thread wakes up from its wait without having been notified. -/
inductive SpuriousStep (s : State S n) : State S n → Prop where
  | main (hPc : s.main = .blockedDone) : SpuriousStep s { s with main := .waitDone }
  | worker (w : Fin n) (hPc : (s.workers w).pc = .waiting) :
      SpuriousStep s (s.setWorker w { s.workers w with pc := .check })

/-- One step of any thread. -/
inductive Step (params : Params S) (s s' : State S n) : Prop where
  | main (h : MainStep params s s')
  | worker (w : Fin n) (h : WorkerStep params w s s')
  | spurious (h : SpuriousStep s s')

def runConcurrent (params : Params S) (n : Nat) : System (State S n) where
  init := Initial
  step := Step params

end Hegel.Concurrent
