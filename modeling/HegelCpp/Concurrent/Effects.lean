import HegelCpp.Concurrent.Model

/-! What one step can do to the variables that synchronise the threads, said
once. The invariants are derived from this and not from the single steps. -/
namespace Hegel.Concurrent

variable {S : Type} {n : Nat} {params : Params S}

/-- The main thread has started a round and waits for its workers. -/
def MainPc.running : MainPc → Bool
  | .notifyStart | .waitDone | .blockedDone => true
  | _ => false

/-- The events of the round are still to be read. -/
def MainPc.collecting : MainPc → Bool
  | .scan => true
  | pc => pc.running

/-- The main thread has set `stop` and is not done. -/
def MainPc.stopping : MainPc → Bool
  | .notifyStop _ | .join _ _ => true
  | _ => false

def MainPc.ended : MainPc → Bool
  | .finished _ | .terminated => true
  | _ => false

/-- The exception that is on its way out. -/
def MainPc.leaving : MainPc → Option Exn
  | .setStop exit | .notifyStop exit | .join exit _ | .finished exit => exit
  | _ => none

/-- The main thread has not started the worker `w` yet. -/
def MainPc.before (w : Nat) : MainPc → Bool
  | .create | .check .initial _ => true
  | .spawn k => decide (k ≤ w)
  | _ => false

/-- The worker is inside `run_round`, or has not stored its event yet. -/
def WorkerPc.inRound : WorkerPc → Bool
  | .nextRule | .inRule _ | .store _ => true
  | _ => false

@[simp] theorem setWorker_self (s : State S n) (w : Fin n) (worker : Worker) :
    (s.setWorker w worker).workers w = worker := by
  simp only [State.setWorker, Function.update_self]

theorem setWorker_of_ne {s : State S n} {w v : Fin n} {worker : Worker} (hv : v ≠ w) :
    (s.setWorker w worker).workers v = s.workers v := by
  simp only [State.setWorker, Function.update_of_ne hv]

/-- Where a thread stands after the step of one worker. -/
theorem setWorker_pc {s : State S n} {w v : Fin n} {worker : Worker} {pc : WorkerPc}
    (h : ((s.setWorker w worker).workers v).pc = pc) :
    v = w ∧ worker.pc = pc ∨ v ≠ w ∧ (s.workers v).pc = pc := by
  by_cases hv : v = w
  · subst hv
    exact .inl ⟨rfl, by rwa [setWorker_self] at h⟩
  · exact .inr ⟨hv, by rwa [setWorker_of_ne hv] at h⟩

theorem wakeWorkers_pc {worker : Worker} {pc : WorkerPc} (h : (State.wakeWorkers worker).pc = pc)
    (hCheck : pc ≠ .check) : worker.pc = pc ∧ pc ≠ .waiting := by
  unfold State.wakeWorkers at h
  split at h
  · exact absurd h.symm hCheck
  · next hPc => exact ⟨h, h ▸ hPc⟩

/-- What the barrier sees of the variables is unchanged. -/
structure SameBarrier (s s' : State S n) : Prop where
  workers : s'.workers = s.workers := by rfl
  roundNumber : s'.roundNumber = s.roundNumber := by rfl
  rounds : s'.rounds = s.rounds := by rfl
  stop : s'.stop = s.stop := by rfl
  numWorkersCompleted : s'.numWorkersCompleted = s.numWorkersCompleted := by rfl

/-- A step of the main thread from `pc` to `pc'` that is none of the barrier's. -/
structure QuietMain (n : Nat) (pc pc' : MainPc) : Prop where
  running : pc.running = false := by rfl
  collecting' : pc'.collecting = false := by rfl
  stopping : pc.stopping = false := by rfl
  stopping' : pc'.stopping = false := by rfl
  ended : pc.ended = false := by rfl
  ended' : pc'.ended = false := by rfl
  leaving : pc.leaving = none := by rfl
  before : ∀ w < n, pc'.before w = pc.before w := by exact fun _ _ => rfl

theorem MainPc.running_of_collecting {pc : MainPc} (h : pc.collecting = false) :
    pc.running = false := by
  cases pc <;> first | rfl | exact h

theorem QuietMain.running' {pc pc' : MainPc} (h : QuietMain n pc pc') : pc'.running = false :=
  MainPc.running_of_collecting h.collecting'

/-! Where the loops of the main thread go on. -/

theorem spawnFrom_cases (p : MainPc → Prop) (w : Nat) (hSpawn : w < n → p (.spawn w))
    (hDone : n ≤ w → p .nextGroup) : p (spawnFrom n w) := by
  unfold spawnFrom
  split
  · next hMore => exact hSpawn hMore
  · next hAll => exact hDone (Nat.le_of_not_lt hAll)

theorem joinFrom_cases (p : MainPc → Prop) (exit : Option Exn) (w : Nat)
    (hJoin : w < n → p (.join exit w)) (hDone : n ≤ w → p (.finished exit)) :
    p (joinFrom n exit w) := by
  unfold joinFrom
  split
  · next hMore => exact hJoin hMore
  · next hAll => exact hDone (Nat.le_of_not_lt hAll)

section CheckFrom
variable (params) (phase : Phase) (index : Nat)

theorem checkFrom_cases (p : MainPc → Prop)
    (hCheck : index < params.invariants.length → p (.check phase index))
    (hSample : index < params.invariants.length → p (.sample index)) (hSpawn : p (spawnFrom n 0))
    (hNextGroup : p .nextGroup) (hStop : p (.setStop none)) :
    p (checkFrom params n phase index) := by
  unfold checkFrom
  split
  · next hMore =>
      cases phase with
      | initial => exact hCheck hMore
      | joined => exact hSample hMore
      | final => exact hCheck hMore
  · cases phase with
    | initial => exact hSpawn
    | joined => exact hNextGroup
    | final => exact hStop

theorem collecting_spawnFrom (w : Nat) : (spawnFrom n w).collecting = false :=
  spawnFrom_cases (fun pc => pc.collecting = false) w (fun _ => rfl) fun _ => rfl

@[simp] theorem running_spawnFrom (w : Nat) : (spawnFrom n w).running = false :=
  MainPc.running_of_collecting (collecting_spawnFrom w)

@[simp] theorem stopping_spawnFrom (w : Nat) : (spawnFrom n w).stopping = false :=
  spawnFrom_cases (fun pc => pc.stopping = false) w (fun _ => rfl) fun _ => rfl

@[simp] theorem ended_spawnFrom (w : Nat) : (spawnFrom n w).ended = false :=
  spawnFrom_cases (fun pc => pc.ended = false) w (fun _ => rfl) fun _ => rfl

@[simp] theorem leaving_spawnFrom (w : Nat) : (spawnFrom n w).leaving = none :=
  spawnFrom_cases (fun pc => pc.leaving = none) w (fun _ => rfl) fun _ => rfl

theorem before_spawnFrom {k w : Nat} (hw : w < n) :
    (spawnFrom n k).before w = decide (k ≤ w) := by
  refine spawnFrom_cases (fun pc => pc.before w = decide (k ≤ w)) k (fun _ => rfl) fun hAll => ?_
  simp only [MainPc.before, Bool.false_eq, decide_eq_false_iff_not]
  omega

theorem collecting_checkFrom : (checkFrom params n phase index).collecting = false :=
  checkFrom_cases params phase index (fun pc => pc.collecting = false) (fun _ => rfl) (fun _ => rfl)
    (collecting_spawnFrom 0) rfl rfl

@[simp] theorem running_checkFrom : (checkFrom params n phase index).running = false :=
  MainPc.running_of_collecting (collecting_checkFrom params phase index)

@[simp] theorem stopping_checkFrom : (checkFrom params n phase index).stopping = false :=
  checkFrom_cases params phase index (fun pc => pc.stopping = false) (fun _ => rfl) (fun _ => rfl)
    (stopping_spawnFrom 0) rfl rfl

@[simp] theorem ended_checkFrom : (checkFrom params n phase index).ended = false :=
  checkFrom_cases params phase index (fun pc => pc.ended = false) (fun _ => rfl) (fun _ => rfl)
    (ended_spawnFrom 0) rfl rfl

@[simp] theorem leaving_checkFrom : (checkFrom params n phase index).leaving = none :=
  checkFrom_cases params phase index (fun pc => pc.leaving = none) (fun _ => rfl) (fun _ => rfl)
    (leaving_spawnFrom 0) rfl rfl

theorem before_checkFrom {w : Nat} (hw : w < n) :
    (checkFrom params n phase index).before w = decide (phase = .initial) := by
  unfold checkFrom
  split
  · cases phase <;> rfl
  · cases phase
    · simp [before_spawnFrom hw]
    · rfl
    · rfl

theorem collecting_joinFrom (exit : Option Exn) (w : Nat) :
    (joinFrom n exit w).collecting = false :=
  joinFrom_cases (fun pc => pc.collecting = false) exit w (fun _ => rfl) fun _ => rfl

@[simp] theorem running_joinFrom (exit : Option Exn) (w : Nat) :
    (joinFrom n exit w).running = false :=
  MainPc.running_of_collecting (collecting_joinFrom exit w)

@[simp] theorem leaving_joinFrom (exit : Option Exn) (w : Nat) :
    (joinFrom n exit w).leaving = exit :=
  joinFrom_cases (fun pc => pc.leaving = exit) exit w (fun _ => rfl) fun _ => rfl

@[simp] theorem before_joinFrom (exit : Option Exn) (w v : Nat) :
    (joinFrom n exit w).before v = false :=
  joinFrom_cases (fun pc => pc.before v = false) exit w (fun _ => rfl) fun _ => rfl

theorem joinFrom_done (exit : Option Exn) (w : Nat) :
    (joinFrom n exit w).stopping = true ∨ (joinFrom n exit w).ended = true := by
  unfold joinFrom
  split
  · exact .inl rfl
  · exact .inr rfl

end CheckFrom

/-- What a worker's step within its round, or outside of all, does to it. -/
structure Moves (params : Params S) (s : State S n) (worker worker' : Worker) : Prop where
  rule : ∀ index, worker'.pc = .inRule index → params.ruleGroups[index]? = some s.currentGroup
  inRound : worker'.pc.inRound = worker.pc.inRound
  present : worker'.pc ≠ .absent
  notNotify : worker.pc ≠ .notify
  exited : worker'.pc = .exited → s.stop = true
  waiting : worker'.pc = .waiting → s.stop = false ∧ s.roundNumber = worker.observedRoundNumber
  stored : ∀ event, worker'.pc = .store event → worker'.returned = some event
  returned : worker'.returned = worker.returned ∨ worker.pc.inRound = true
  observed : worker'.observedRoundNumber = worker.observedRoundNumber
  entered : worker'.entered = worker.entered
  left : worker'.left = worker.left

/-- What a step of the worker `w` does to the synchronisation. -/
inductive WorkerEffect (params : Params S) (w : Fin n) (s s' : State S n) : Prop where
  | free (hSame : SameBarrier s s') (hMain : s'.main = s.main) (hEvents : s'.events = s.events)
      (hGroup : s'.currentGroup = s.currentGroup)
  | move (worker : Worker) (hSame : SameBarrier (s.setWorker w worker) s')
      (hMain : s'.main = s.main) (hEvents : s'.events = s.events)
      (hGroup : s'.currentGroup = s.currentGroup) (hMoves : Moves params s (s.workers w) worker)
  | enter (hPc : (s.workers w).pc = .check) (hStop : s.stop = false)
      (hNew : s.roundNumber ≠ (s.workers w).observedRoundNumber)
      (h : s' = s.setWorker w
        { s.workers w with
          pc := .nextRule
          observedRoundNumber := s.roundNumber
          entered := (s.workers w).entered + 1 })
  | store (event : RoundEvent) (hPc : (s.workers w).pc = .store event) (h : s' = s.store w event)
  | notify (hPc : (s.workers w).pc = .notify)
      (h : s' = { s.setWorker w { s.workers w with pc := .check } with
        main := if s.main = .blockedDone then .waitDone else s.main })

namespace Moves

variable {s : State S n} {worker : Worker}

/-- A move within `run_round` that does not return from it. -/
theorem within {pc : WorkerPc} (hFrom : worker.pc.inRound = true)
    (hTo : pc = .nextRule ∨
      ∃ index, pc = .inRule index ∧ params.ruleGroups[index]? = some s.currentGroup) :
    Moves params s worker { worker with pc := pc } := by
  have hNotNotify : worker.pc ≠ .notify := by
    rintro h
    simp [h, WorkerPc.inRound] at hFrom
  rcases hTo with rfl | ⟨index, rfl, hGroup⟩
  · exact ⟨by simp, hFrom.symm, by simp, hNotNotify, by simp, by simp, by simp, .inl rfl, rfl, rfl,
      rfl⟩
  · refine ⟨?_, hFrom.symm, by simp, hNotNotify, by simp, by simp, by simp, .inl rfl, rfl, rfl, rfl⟩
    rintro _ ⟨⟩
    exact hGroup

/-- A worker that evaluates its predicate exits or starts to wait. -/
theorem outside {pc : WorkerPc} (hFrom : worker.pc = .check)
    (hTo : pc = .exited ∧ s.stop = true ∨
      pc = .waiting ∧ s.stop = false ∧ s.roundNumber = worker.observedRoundNumber) :
    Moves params s worker { worker with pc := pc } := by
  rcases hTo with ⟨rfl, hStop⟩ | ⟨rfl, hSleep⟩
  · exact ⟨by simp, by rw [hFrom]; rfl, by simp, by simp [hFrom], fun _ => hStop, by simp, by simp,
      .inl rfl, rfl, rfl, rfl⟩
  · exact ⟨by simp, by rw [hFrom]; rfl, by simp, by simp [hFrom], by simp, fun _ => hSleep, by simp,
      .inl rfl, rfl, rfl, rfl⟩

/-- `run_round` returns; its event is the one that will be stored. -/
theorem returns (hFrom : worker.pc.inRound = true) (event : RoundEvent) :
    Moves params s worker { worker with pc := .store event, returned := some event } := by
  refine ⟨by simp, hFrom.symm, by simp, ?_, by simp, by simp, ?_, .inr hFrom, rfl, rfl, rfl⟩
  · rintro h
    simp [h, WorkerPc.inRound] at hFrom
  · rintro _ ⟨⟩
    rfl

end Moves

/-- A move that changes nothing but the worker. -/
theorem WorkerEffect.moves {w : Fin n} {s s' : State S n} {worker : Worker}
    (hMoves : Moves params s (s.workers w) worker)
    (hSame : SameBarrier (s.setWorker w worker) s' := by exact {})
    (hMain : s'.main = s.main := by rfl) (hEvents : s'.events = s.events := by rfl)
    (hGroup : s'.currentGroup = s.currentGroup := by rfl) : WorkerEffect params w s s' :=
  .move worker hSame hMain hEvents hGroup hMoves

theorem WorkerStep.effect {w : Fin n} {s s' : State S n} (h : WorkerStep params w s s') :
    WorkerEffect params w s s' := by
  cases h with
  | stop hPc hStop => exact .moves (.outside hPc (.inl ⟨rfl, hStop⟩))
  | enter hPc hStop hNew => exact .enter hPc hStop hNew rfl
  | wait hPc hStop hOld => exact .moves (.outside hPc (.inr ⟨rfl, hStop, hOld⟩))
  | nextRule index rule hPc hRule hGroup =>
      exact .moves (.within (by rw [hPc]; rfl) (.inr ⟨index, rfl, hGroup⟩))
  | nextRuleDone hPc => exact .moves (.returns (by rw [hPc]; rfl) _)
  | nextRuleRaises captured hPc => exact .moves (.returns (by rw [hPc]; rfl) _)
  | write index memory hPc => exact .free {} rfl rfl rfl
  | emit index depth indent message hPc => exact .free {} rfl rfl rfl
  | ruleReturns index hPc => exact .moves (.within (by rw [hPc]; rfl) (.inl rfl))
  | ruleRejects index hPc => exact .moves (.within (by rw [hPc]; rfl) (.inl rfl))
  | rejectionRaises index captured hPc => exact .moves (.returns (by rw [hPc]; rfl) _)
  | ruleThrows index captured hPc hOther => exact .moves (.returns (by rw [hPc]; rfl) _)
  | store event hPc => exact .store event hPc rfl
  | notifyDone hPc => exact .notify hPc rfl

/-- A worker's step leaves alone what is not its own. -/
structure WorkerFrame (w : Fin n) (s s' : State S n) : Prop where
  others : ∀ v ≠ w, s'.workers v = s.workers v
  present : (s'.workers w).pc ≠ .absent
  joined : (s'.workers w).joined = (s.workers w).joined
  raised : s'.raised = s.raised
  startFailed : s'.startFailed = s.startFailed
  main : s'.main = s.main ∨ s.main = .blockedDone ∧ s'.main = .waitDone

/-- Only the program counter of the worker changes. -/
theorem WorkerFrame.setPc {w : Fin n} {s : State S n} {pc : WorkerPc} (hPc : pc ≠ .absent) :
    WorkerFrame w s (s.setWorker w { s.workers w with pc := pc }) :=
  ⟨fun _ hv => setWorker_of_ne hv, by simpa using hPc, by rw [setWorker_self], rfl, rfl, .inl rfl⟩

theorem WorkerStep.frame {w : Fin n} {s s' : State S n} (h : WorkerStep params w s s') :
    WorkerFrame w s s' := by
  have hUpdate (worker : Worker) (v : Fin n) (hv : v ≠ w) :
      (s.setWorker w worker).workers v = s.workers v := setWorker_of_ne hv
  have hPresent {worker : Worker} (hPc : worker.pc ≠ .absent) :
      ((s.setWorker w worker).workers w).pc ≠ .absent := by rwa [setWorker_self]
  have hJoined {worker : Worker} (hSame : worker.joined = (s.workers w).joined) :
      ((s.setWorker w worker).workers w).joined = (s.workers w).joined := by
    rw [setWorker_self, hSame]
  cases h with
  | write index memory hPc => exact ⟨fun _ _ => rfl, by simp [hPc], rfl, rfl, rfl, .inl rfl⟩
  | emit index depth indent message hPc =>
      exact ⟨fun _ _ => rfl, by simp [State.workerNoted, hPc], rfl, rfl, rfl, .inl rfl⟩
  | notifyDone hPc =>
      refine ⟨hUpdate _, hPresent (by simp), hJoined rfl, rfl, rfl, ?_⟩
      by_cases hBlocked : s.main = .blockedDone
      · exact .inr ⟨hBlocked, if_pos hBlocked⟩
      · exact .inl (if_neg hBlocked)
  | _ => exact ⟨hUpdate _, hPresent (by simp), hJoined rfl, rfl, rfl, .inl rfl⟩

/-- A worker that steps was started and has not returned. -/
theorem WorkerStep.active {w : Fin n} {s s' : State S n} (h : WorkerStep params w s s') :
    (s.workers w).pc ≠ .absent ∧ (s.workers w).pc ≠ .exited := by
  cases h <;> simp [*]

/-- What a step of the main thread does to the synchronisation. -/
inductive MainEffect (params : Params S) (s s' : State S n) : Prop where
  | quiet (hSame : SameBarrier s s') (hEvents : s'.events = s.events)
      (hMain : QuietMain n s.main s'.main) (hFailed : s'.startFailed = s.startFailed)
      (hRaised : s.raised = none → s'.raised = s'.main.leaving)
  /-- An exception leaves while there are no threads. -/
  | leave (e : Exn) (hSame : SameBarrier s s') (hEvents : s'.events = s.events)
      (hIdle : s.main.running = false) (hStopping : s.main.stopping = false)
      (hEnded : s.main.ended = false) (hBefore : ∀ w < n, s.main.before w = true)
      (hMain : s'.main = .finished (some e)) (hRaised : s'.raised = some e)
      (hFailed : s'.startFailed = s.startFailed ∨ s'.startFailed = some 0)
  | terminate (w : Fin n) (e : Exn) (hPc : s.main = .spawn w) (hLater : (w : Nat) ≠ 0)
      (h : s' = { s with main := .terminated, raised := some e, startFailed := some (w : Nat) })
  | spawn (w : Fin n) (hPc : s.main = .spawn w)
      (h : s' = { s.setWorker w { s.workers w with pc := .check } with main := spawnFrom n (w + 1) })
  | startRound (group : Nat) (hPc : s.main = .startRound group) (h : s' = s.startRound params group)
  | notifyStart (hPc : s.main = .notifyStart)
      (h : s' = { s with main := .waitDone, workers := fun w => State.wakeWorkers (s.workers w) })
  | allDone (hPc : s.main = .waitDone) (hAll : s.numWorkersCompleted = n)
      (h : s' = { s with main := .scan })
  | blockDone (hPc : s.main = .waitDone) (hSome : s.numWorkersCompleted ≠ n)
      (h : s' = { s with main := .blockedDone })
  | setStop (exit : Option Exn) (hPc : s.main = .setStop exit)
      (h : s' = { s with stop := true, main := .notifyStop exit })
  | notifyStop (exit : Option Exn) (hPc : s.main = .notifyStop exit)
      (h : s' = { s with main := joinFrom n exit 0
                         workers := fun w => State.wakeWorkers (s.workers w) })
  | join (exit : Option Exn) (w : Fin n) (hPc : s.main = .join exit w)
      (hExited : (s.workers w).pc = .exited)
      (h : s' = { s.setWorker w { s.workers w with joined := true } with
        main := joinFrom n exit (w + 1) })

/-- The main thread goes on with the invariants, or with what follows them. -/
theorem quiet_checkFrom {pc : MainPc} (phase : Phase) (index : Nat)
    (hBefore : ∀ w < n, pc.before w = decide (phase = .initial))
    (hRunning : pc.running = false := by rfl) (hStopping : pc.stopping = false := by rfl)
    (hEnded : pc.ended = false := by rfl) (hLeaving : pc.leaving = none := by rfl) :
    QuietMain n pc (checkFrom params n phase index) where
  running := hRunning
  collecting' := collecting_checkFrom params phase index
  stopping := hStopping
  stopping' := stopping_checkFrom params phase index
  ended := hEnded
  ended' := ended_checkFrom params phase index
  leaving := hLeaving
  before := fun w hw => by rw [before_checkFrom params phase index hw, hBefore w hw]

namespace MainEffect

variable {s s' : State S n} {pc : MainPc}

theorem checks (phase : Phase) (index : Nat) (hPc : s.main = pc)
    (hQuiet : QuietMain n pc (checkFrom params n phase index))
    (hMain : s'.main = checkFrom params n phase index := by rfl)
    (hSame : SameBarrier s s' := by exact {}) (hEvents : s'.events = s.events := by rfl)
    (hRaised : s'.raised = s.raised := by rfl)
    (hFailed : s'.startFailed = s.startFailed := by rfl) : MainEffect params s s' := by
  subst hPc
  refine .quiet hSame hEvents (hMain ▸ hQuiet) hFailed fun hNone => ?_
  rw [hMain, leaving_checkFrom, hRaised, hNone]

theorem quietly (hPc : s.main = pc) (hRaised : s.raised = none → s'.raised = s'.main.leaving)
    (hMain : QuietMain n pc s'.main := by exact {}) (hSame : SameBarrier s s' := by exact {})
    (hEvents : s'.events = s.events := by rfl)
    (hFailed : s'.startFailed = s.startFailed := by rfl) : MainEffect params s s' :=
  .quiet hSame hEvents (hPc ▸ hMain) hFailed hRaised

theorem leaves (e : Exn) (hPc : s.main = pc) (hBefore : ∀ w < n, pc.before w = true)
    (hMain : s'.main = .finished (some e))
    (hFailed : s'.startFailed = s.startFailed ∨ s'.startFailed = some 0)
    (hIdle : pc.running = false := by rfl) (hStopping : pc.stopping = false := by rfl)
    (hEnded : pc.ended = false := by rfl) (hSame : SameBarrier s s' := by exact {})
    (hEvents : s'.events = s.events := by rfl) (hRaised : s'.raised = some e := by rfl) :
    MainEffect params s s' :=
  .leave e hSame hEvents (hPc ▸ hIdle) (hPc ▸ hStopping) (hPc ▸ hEnded) (hPc ▸ hBefore) hMain
    hRaised hFailed

end MainEffect

theorem MainStep.effect {s s' : State S n} (h : MainStep params s s') : MainEffect params s s' := by
  cases h with
  | rejectArguments e hPc hError => exact .leaves e hPc (fun _ _ => rfl) rfl (.inl rfl)
  | createFails e hPc hArguments => exact .leaves e hPc (fun _ _ => rfl) rfl (.inl rfl)
  | create hPc hArguments hMin hMax =>
      exact .checks .initial 0 hPc (quiet_checkFrom .initial 0 fun _ _ => rfl)
  | sampleRaises e index hPc => exact .quietly hPc fun _ => rfl
  | sample index selected hPc =>
      cases selected with
      | false => exact .checks .joined _ hPc (quiet_checkFrom .joined _ fun _ _ => rfl)
      | true => exact .quietly hPc id
  | evaluate phase index invariant hPc hInvariant hHolds =>
      refine .checks phase _ hPc (quiet_checkFrom phase _ fun _ _ => ?_)
      cases phase <;> rfl
  | violate phase index invariant e hPc hInvariant hViolated =>
      cases phase with
      | initial => exact .leaves e hPc (fun _ _ => rfl) rfl (.inl rfl)
      | joined => exact .quietly hPc fun _ => rfl
      | final => exact .quietly hPc fun _ => rfl
  | spawn w hPc => exact .spawn w hPc rfl
  | spawnFails w e hPc =>
      by_cases hw : (w : Nat) = 0
      · exact .leaves e hPc (fun v _ => by simp [MainPc.before, hw]) (if_pos hw)
          (.inr (congrArg some hw))
      · refine .terminate w e hPc hw ?_
        rw [if_neg hw]
  | nextGroupRaises e hPc => exact .quietly hPc fun _ => rfl
  | nextGroupDone hPc => exact .checks .final 0 hPc (quiet_checkFrom .final 0 fun _ _ => rfl)
  | nextGroup group hPc hGroup => exact .quietly hPc id
  | startRound group hPc => exact .startRound group hPc rfl
  | notifyStart hPc => exact .notifyStart hPc rfl
  | allDone hPc hAll => exact .allDone hPc hAll rfl
  | blockDone hPc hSome => exact .blockDone hPc hSome rfl
  | scanRaises e hPc hOutcome => exact .quietly hPc fun _ => rfl
  | scan hPc hOutcome => exact .checks .joined 0 hPc (quiet_checkFrom .joined 0 fun _ _ => rfl)
  | setStop exit hPc => exact .setStop exit hPc rfl
  | notifyStop exit hPc => exact .notifyStop exit hPc rfl
  | join exit w hPc hExited => exact .join exit w hPc hExited rfl

end Hegel.Concurrent
