import HegelCpp.Concurrent.Ending

/-! The outcome of a round. When the main thread scans the events, they are
those of this round, and the scan decides by a fixed precedence. -/
namespace Hegel.Concurrent

open Logic

variable {S : Type} {n : Nat} {params : Params S}

section Scan

/-- Of the failing workers the first one counts, of the others that there is one. -/
theorem foldl_scanEvent (events : Fin n → RoundEvent) (workers : List (Fin n)) (acc : Scan n) :
    workers.foldl (scanEvent events) acc =
      { control := acc.control.or (workers.find? fun w => (events w).kind = .control)
        sawOverrun := acc.sawOverrun || workers.any fun w => (events w).kind = .overrun
        sawInvalid := acc.sawInvalid || workers.any fun w => (events w).kind = .invalid
        panic := acc.panic.or (workers.find? fun w => (events w).kind = .panicked) } := by
  induction workers generalizing acc with
  | nil => simp
  | cons w rest ih =>
      rw [List.foldl_cons, ih]
      cases hKind : (events w).kind with
      | roundDone => simp [scanEvent, hKind]
      | invalid => simp [scanEvent, hKind]
      | overrun => simp [scanEvent, hKind]
      | control => cases hControl : acc.control <;> simp [scanEvent, hKind, hControl]
      | panicked => cases hPanic : acc.panic <;> simp [scanEvent, hKind, hPanic]

theorem any_finRange (p : Fin n → Bool) : (List.finRange n).any p = decide (∃ w, p w = true) := by
  rw [Bool.eq_iff_iff, List.any_eq_true, decide_eq_true_eq]
  exact exists_congr fun w => and_iff_right (List.mem_finRange w)

theorem scanEvents_eq (events : Fin n → RoundEvent) :
    scanEvents events =
      { control := Fin.find? fun w => (events w).kind = .control
        sawOverrun := decide (∃ w, (events w).kind = .overrun)
        sawInvalid := decide (∃ w, (events w).kind = .invalid)
        panic := Fin.find? fun w => (events w).kind = .panicked } := by
  simp only [scanEvents, foldl_scanEvent, Fin.find?_eq_find?_finRange, any_finRange,
    decide_eq_true_eq]
  rfl

/-- The scan without its accumulators. -/
theorem roundOutcome_eq (events : Fin n → RoundEvent) :
    roundOutcome events =
      match Fin.find? fun w => decide ((events w).kind = .control) with
      | some w => RoundEvent.rethrown (events w)
      | none =>
          if ∃ w, (events w).kind = .overrun then some hegelStopTest
          else if ∃ w, (events w).kind = .invalid then some hegelReject
          else (Fin.find? fun w => decide ((events w).kind = .panicked)).bind fun w =>
            RoundEvent.rethrown (events w) := by
  unfold roundOutcome
  rw [scanEvents_eq]
  cases Fin.find? fun w => decide ((events w).kind = .control) with
  | some w => rfl
  | none => simp only [decide_eq_true_eq]

end Scan

/-- What is to be thrown after a round in which the workers' events are
`events`, in the order of precedence. -/
inductive RoundVerdict (events : Fin n → RoundEvent) : Option Exn → Prop where
  | control (w : Fin n) (captured : CapturedException) (hKind : (events w).kind = .control)
      (hException : (events w).exception = some captured)
      (hFirst : ∀ v < w, (events v).kind ≠ .control) :
      RoundVerdict events (some captured.exception)
  | overrun (w : Fin n) (hKind : (events w).kind = .overrun)
      (hControl : ∀ v, (events v).kind ≠ .control) : RoundVerdict events (some hegelStopTest)
  | invalid (w : Fin n) (hKind : (events w).kind = .invalid)
      (hControl : ∀ v, (events v).kind ≠ .control) (hOverrun : ∀ v, (events v).kind ≠ .overrun) :
      RoundVerdict events (some hegelReject)
  | panicked (w : Fin n) (captured : CapturedException) (hKind : (events w).kind = .panicked)
      (hException : (events w).exception = some captured)
      (hFirst : ∀ v < w, (events v).kind ≠ .panicked) (hControl : ∀ v, (events v).kind ≠ .control)
      (hOverrun : ∀ v, (events v).kind ≠ .overrun) (hInvalid : ∀ v, (events v).kind ≠ .invalid) :
      RoundVerdict events (some captured.exception)
  | roundDone (hAll : ∀ v, (events v).kind = .roundDone) : RoundVerdict events none

namespace RoundVerdict

variable {events : Fin n → RoundEvent}

theorem find_first {kind : EventKind} {w : Fin n} (hKind : (events w).kind = kind)
    (hFirst : ∀ v < w, (events v).kind ≠ kind) :
    (Fin.find? fun w => decide ((events w).kind = kind)) = some w :=
  Fin.find?_eq_some_iff.mpr ⟨decide_eq_true hKind, fun v hv => decide_eq_false (hFirst v hv)⟩

theorem find_nobody {kind : EventKind} (hNobody : ∀ v, (events v).kind ≠ kind) :
    (Fin.find? fun w => decide ((events w).kind = kind)) = none :=
  Fin.find?_eq_none_iff.mpr fun v => decide_eq_false (hNobody v)

theorem rethrown_eq {w : Fin n} {captured : CapturedException}
    (h : (events w).exception = some captured) :
    RoundEvent.rethrown (events w) = some captured.exception := by
  rw [RoundEvent.rethrown, h]
  rfl

theorem exists_captured {w : Fin n} {kind : EventKind} (hKind : (events w).kind = kind)
    (hFailed : kind ≠ .roundDone) : ∃ captured, (events w).exception = some captured :=
  Option.isSome_iff_exists.mp ((events w).captured (hKind ▸ hFailed))

theorem roundOutcome_eq {verdict : Option Exn} (h : RoundVerdict events verdict) :
    roundOutcome events = verdict := by
  rw [Concurrent.roundOutcome_eq]
  cases h with
  | control w captured hKind hException hFirst =>
      rw [find_first hKind hFirst]
      exact rethrown_eq hException
  | overrun w hKind hControl =>
      rw [find_nobody hControl]
      exact if_pos ⟨w, hKind⟩
  | invalid w hKind hControl hOverrun =>
      rw [find_nobody hControl]
      exact (if_neg (not_exists.mpr hOverrun)).trans (if_pos ⟨w, hKind⟩)
  | panicked w captured hKind hException hFirst hControl hOverrun hInvalid =>
      rw [find_nobody hControl, find_first hKind hFirst]
      exact (if_neg (not_exists.mpr hOverrun)).trans
        ((if_neg (not_exists.mpr hInvalid)).trans (rethrown_eq hException))
  | roundDone hAll =>
      have hNone (kind : EventKind) (hKind : kind ≠ .roundDone) (v : Fin n) :
          (events v).kind ≠ kind := fun hEq => hKind (hEq.symm.trans (hAll v))
      rw [find_nobody (hNone .control (by simp)), find_nobody (hNone .panicked (by simp))]
      exact (if_neg (not_exists.mpr (hNone .overrun (by simp)))).trans
        (if_neg (not_exists.mpr (hNone .invalid (by simp))))

/-- Every assignment of events to the workers has a verdict. -/
theorem exists_verdict (events : Fin n → RoundEvent) : ∃ verdict, RoundVerdict events verdict := by
  cases hControl : Fin.find? fun w => decide ((events w).kind = .control) with
  | some w =>
      obtain ⟨hKind, hFirst⟩ := Fin.find?_eq_some_iff.mp hControl
      have hKind : (events w).kind = .control := of_decide_eq_true hKind
      obtain ⟨captured, hException⟩ := exists_captured hKind (by simp)
      exact ⟨_, .control w captured hKind hException fun v hv => of_decide_eq_false (hFirst v hv)⟩
  | none =>
      have hNoControl : ∀ v, (events v).kind ≠ .control := fun v => by
        simpa using Fin.find?_eq_none_iff.mp hControl v
      by_cases hOverrun : ∃ w, (events w).kind = .overrun
      · obtain ⟨w, hKind⟩ := hOverrun
        exact ⟨_, .overrun w hKind hNoControl⟩
      by_cases hInvalid : ∃ w, (events w).kind = .invalid
      · obtain ⟨w, hKind⟩ := hInvalid
        exact ⟨_, .invalid w hKind hNoControl (not_exists.mp hOverrun)⟩
      cases hPanic : Fin.find? fun w => decide ((events w).kind = .panicked) with
      | some w =>
          obtain ⟨hKind, hFirst⟩ := Fin.find?_eq_some_iff.mp hPanic
          have hKind : (events w).kind = .panicked := of_decide_eq_true hKind
          obtain ⟨captured, hException⟩ := exists_captured hKind (by simp)
          exact ⟨_, .panicked w captured hKind hException
            (fun v hv => of_decide_eq_false (hFirst v hv)) hNoControl (not_exists.mp hOverrun)
            (not_exists.mp hInvalid)⟩
      | none =>
          refine ⟨_, .roundDone fun v => ?_⟩
          have hNoPanic : (events v).kind ≠ .panicked := by
            simpa using Fin.find?_eq_none_iff.mp hPanic v
          cases hKind : (events v).kind with
          | roundDone => rfl
          | invalid => exact absurd ⟨v, hKind⟩ hInvalid
          | overrun => exact absurd ⟨v, hKind⟩ hOverrun
          | control => exact absurd hKind (hNoControl v)
          | panicked => exact absurd hKind hNoPanic

/-- The scan decides as the verdict says, and there is only one verdict. -/
theorem iff_roundOutcome {verdict : Option Exn} :
    RoundVerdict events verdict ↔ roundOutcome events = verdict := by
  refine ⟨roundOutcome_eq, fun hEq => ?_⟩
  obtain ⟨verdict', h⟩ := exists_verdict events
  rwa [← hEq, h.roundOutcome_eq]

end RoundVerdict

/-- What the main thread will read of a worker is what its round returned. -/
structure EventRecorded (collecting : Bool) (rounds : Nat) (worker : Worker) (event : RoundEvent) :
    Prop where
  stored : ∀ event', worker.pc = .store event' → worker.returned = some event'
  read : collecting = true → worker.left = rounds → worker.returned = some event

def Recorded (s : State S n) : Prop :=
  ∀ w, EventRecorded s.main.collecting s.rounds (s.workers w) (s.events w)

namespace Recorded

variable {s s' : State S n}

/-- One worker's step. -/
theorem update (h : Recorded s) {w : Fin n} (hFrame : WorkerFrame w s s')
    (hRounds : s'.rounds = s.rounds) (hEvents : ∀ v ≠ w, s'.events v = s.events v)
    (hSelf : EventRecorded s.main.collecting s.rounds (s'.workers w) (s'.events w)) :
    Recorded s' := by
  have hMain : s'.main.collecting = s.main.collecting := by
    rcases hFrame.main with hMain | ⟨hMain, hMain'⟩
    · rw [hMain]
    · rw [hMain, hMain']
      rfl
  intro v
  rw [hMain, hRounds]
  by_cases hv : v = w
  · exact hv ▸ hSelf
  · rw [hFrame.others v hv, hEvents v hv]
    exact h v

theorem workerStep (h : Recorded s) (hLinked : Linked s)
    (hBarrier : RoundBarrier.Invariant (barrierOf s)) {w : Fin n}
    (hStep : WorkerStep params w s s') : Recorded s' := by
  have hFrame := hStep.frame
  cases hStep.effect with
  | free hSame hMain hEvents hGroup =>
      apply h.update hFrame hSame.rounds (fun v _ => by rw [hEvents])
      rw [hSame.workers, hEvents]
      exact h w
  | move worker hSame hMain hEvents hGroup hMoves =>
      apply h.update hFrame hSame.rounds (fun v _ => by rw [hEvents])
      rw [hSame.workers, hEvents, setWorker_self]
      refine ⟨hMoves.stored, fun hPc hLeft => ?_⟩
      rw [hMoves.left] at hLeft
      rcases hMoves.returned with hReturned | hInside
      · rw [hReturned]
        exact (h w).read hPc hLeft
      · have hBehind : (s.workers w).left + 1 = s.rounds :=
          (hBarrier.inside ((hLinked.workers w).inRound.mp hInside)).2.2
        omega
  | enter hPc hStop hNew hEq =>
      subst hEq
      apply h.update hFrame rfl (fun _ _ => rfl)
      rw [setWorker_self]
      exact ⟨by simp, (h w).read⟩
  | store event hPc hEq =>
      subst hEq
      apply h.update hFrame rfl (fun v hv => by simp [State.store, hv])
      have hWorker : (s.store w event).workers w =
          { s.workers w with pc := .notify, left := (s.workers w).left + 1 } := setWorker_self s w _
      have hEvent : (s.store w event).events w = event := by simp [State.store]
      rw [hWorker, hEvent]
      exact ⟨by simp, fun _ _ => (h w).stored event hPc⟩
  | notify hPc hEq =>
      subst hEq
      apply h.update hFrame rfl (fun _ _ => rfl)
      show EventRecorded _ _ ((s.setWorker w _).workers w) (s.events w)
      rw [setWorker_self]
      exact ⟨by simp, (h w).read⟩

/-- A step of the main thread within a round, or not into one. -/
theorem still (h : Recorded s) (hCollecting : s'.main.collecting = true → s.main.collecting = true)
    (hRounds : s'.rounds = s.rounds) (hEvents : s'.events = s.events)
    (hWorkers : ∀ w, (s'.workers w).returned = (s.workers w).returned ∧
      (s'.workers w).left = (s.workers w).left ∧
      ∀ event, (s'.workers w).pc = .store event → (s.workers w).pc = .store event) :
    Recorded s' := by
  intro w
  obtain ⟨hReturned, hLeft, hStore⟩ := hWorkers w
  refine ⟨fun event hPc => hReturned.trans ((h w).stored event (hStore event hPc)),
    fun hPc hAll => ?_⟩
  rw [hReturned, hEvents]
  exact (h w).read (hCollecting hPc) (by rw [← hLeft, hAll, hRounds])

theorem still_refl (worker : Worker) : worker.returned = worker.returned ∧
    worker.left = worker.left ∧ ∀ event, worker.pc = .store event → worker.pc = .store event :=
  ⟨rfl, rfl, fun _ => id⟩

theorem still_wake (worker : Worker) : (State.wakeWorkers worker).returned = worker.returned ∧
    (State.wakeWorkers worker).left = worker.left ∧
    ∀ event, (State.wakeWorkers worker).pc = .store event → worker.pc = .store event := by
  refine ⟨?_, ?_, fun event hPc => (wakeWorkers_pc hPc (by simp)).1⟩
  all_goals
    unfold State.wakeWorkers
    split <;> rfl

theorem still_setWorker {w : Fin n} {worker : Worker}
    (hReturned : worker.returned = (s.workers w).returned) (hLeft : worker.left = (s.workers w).left)
    (hPc : ∀ event, worker.pc ≠ .store event) (v : Fin n) :
    ((s.setWorker w worker).workers v).returned = (s.workers v).returned ∧
      ((s.setWorker w worker).workers v).left = (s.workers v).left ∧
      ∀ event, ((s.setWorker w worker).workers v).pc = .store event →
        (s.workers v).pc = .store event := by
  by_cases hv : v = w
  · subst hv
    rw [setWorker_self]
    exact ⟨hReturned, hLeft, fun event hStore => absurd hStore (hPc event)⟩
  · rw [setWorker_of_ne hv]
    exact still_refl _

theorem mainStep (h : Recorded s) (hReachable : (runConcurrent params n).Reachable s)
    (hStep : MainStep params s s') : Recorded s' := by
  have hRefl (w : Fin n) := still_refl (s.workers w)
  have hNot {pc : MainPc} {P : Prop} (hPc : pc.collecting = false) (hTrue : pc.collecting = true) :
      P := by simp [hPc] at hTrue
  cases hStep.effect with
  | quiet hSame hEvents hMain hFailed hRaised =>
      apply h.still (hNot hMain.collecting') hSame.rounds hEvents
      intro w
      rw [hSame.workers]
      exact hRefl w
  | leave e hSame hEvents hIdle hStopping hEnded hBefore hMain hRaised hFailed =>
      apply h.still (hNot (by rw [hMain]; rfl)) hSame.rounds hEvents
      intro w
      rw [hSame.workers]
      exact hRefl w
  | terminate w e hPc hLater hEq =>
      subst hEq
      exact h.still (hNot rfl) rfl rfl hRefl
  | spawn w hPc hEq =>
      subst hEq
      exact h.still (hNot (collecting_spawnFrom _)) rfl rfl
        (still_setWorker rfl rfl (by simp))
  | startRound group hPc hEq =>
      subst hEq
      have hIdle : s.main.running = false := by rw [hPc]; rfl
      obtain ⟨hLinked, hBarrier⟩ := reachable_linked hReachable
      refine fun w => ⟨fun event hStore => ?_, fun _ hLeft => ?_⟩
      · have hOutside := idle_outside hReachable hIdle w
        have hStore : (s.workers w).pc = .store event := hStore
        simp [hStore, WorkerPc.inRound] at hOutside
      · have hAll : (s.workers w).left = s.rounds := (hBarrier.outside hIdle w).2
        have hLeft : (s.workers w).left = s.rounds + 1 := hLeft
        omega
  | notifyStart hPc hEq =>
      subst hEq
      exact h.still (fun _ => by rw [hPc]; rfl) rfl rfl fun w => still_wake _
  | allDone hPc hAll hEq =>
      subst hEq
      exact h.still (fun _ => by rw [hPc]; rfl) rfl rfl hRefl
  | blockDone hPc hSome hEq =>
      subst hEq
      exact h.still (fun _ => by rw [hPc]; rfl) rfl rfl hRefl
  | setStop exit hPc hEq =>
      subst hEq
      exact h.still (hNot rfl) rfl rfl hRefl
  | notifyStop exit hPc hEq =>
      subst hEq
      exact h.still (hNot (collecting_joinFrom _ _)) rfl rfl fun w => still_wake _
  | join exit w hPc hExited hEq =>
      subst hEq
      exact h.still (hNot (collecting_joinFrom _ _)) rfl rfl
        (still_setWorker rfl rfl (by simp [hExited]))

theorem spuriousStep (h : Recorded s) (hStep : SpuriousStep s s') : Recorded s' := by
  cases hStep with
  | main hPc => exact h.still (fun _ => by rw [hPc]; rfl) rfl rfl fun w => still_refl _
  | worker w hPc => exact h.still id rfl rfl (still_setWorker rfl rfl (by simp))

theorem reachable (h : (runConcurrent params n).Reachable s) : Recorded s := by
  refine h.invariant (fun s hInit => ?_) fun s s' hReachable hInv hStep => ?_
  · intro w
    rw [hInit.main, hInit.workers]
    exact ⟨by simp, by simp [MainPc.collecting, MainPc.running]⟩
  · obtain ⟨hLinked, hBarrier⟩ := reachable_linked hReachable
    cases hStep with
    | main hStep => exact hInv.mainStep hReachable hStep
    | worker w hStep => exact hInv.workerStep hLinked hBarrier hStep
    | spurious hStep => exact hInv.spuriousStep hStep

end Recorded

/-- What the main thread does after a round whose workers returned `events`. -/
def afterRound (params : Params S) (n : Nat) : Option Exn → MainPc
  | some e => .setStop (some e)
  | none => checkFrom params n .joined 0

/-- The outcome of a round depends on what the workers' rounds returned alone,
whatever the schedule was and whatever earlier rounds have left behind. -/
structure OutcomeOf (params : Params S) (s : State S n) (events : Fin n → RoundEvent)
    (verdict : Option Exn) : Prop where
  returned : ∀ w, (s.workers w).returned = some (events w)
  decided : RoundVerdict events verdict
  unique : ∀ other, RoundVerdict events other → other = verdict
  enabled : ∃ s', MainStep params s s'
  step : ∀ s', MainStep params s s' → s'.main = afterRound params n verdict ∧ s'.raised = verdict

theorem scan_outcome {s : State S n} (h : (runConcurrent params n).Reachable s)
    (hScan : s.main = .scan) : ∃ events verdict, OutcomeOf params s events verdict := by
  obtain ⟨hLinked, hBarrier⟩ := reachable_linked h
  have hLeft (w : Fin n) : (s.workers w).left = s.rounds :=
    (hBarrier.outside (show s.main.running = false by rw [hScan]; rfl) w).2
  have hRaised : s.raised = none := by
    rw [(Ending.reachable h).raised (by simp [hScan]), hScan]
    rfl
  refine ⟨s.events, roundOutcome s.events, ?_, RoundVerdict.iff_roundOutcome.mpr rfl,
    fun other hOther => hOther.roundOutcome_eq.symm, ?_, fun s' hStep => ?_⟩
  · exact fun w => (Recorded.reachable h w).read (by rw [hScan]; rfl) (hLeft w)
  · cases hOutcome : roundOutcome s.events with
    | none => exact ⟨_, .scan hScan hOutcome⟩
    | some e => exact ⟨_, .scanRaises e hScan hOutcome⟩
  · cases hStep with
    | scan _ hOutcome =>
        rw [hOutcome]
        exact ⟨rfl, hRaised⟩
    | scanRaises e _ hOutcome =>
        rw [hOutcome]
        exact ⟨rfl, rfl⟩
    | _ => simp [hScan] at *

/-- Two workers fail, the later one first and with the higher precedence. -/
theorem counter_scan : ∃ s : State Nat 2, (runConcurrent counter 2).Reachable s ∧
    s.main = .scan ∧ s.rounds = 1 := by
  have h0 : (runConcurrent counter 2).Reachable (State.start 0 2) := .init (initial_start 0 2)
  have h1 := h0.step (.main (.create rfl rfl (by decide) (by decide)))
  have h2 := h1.step (.main (.evaluate .initial 0 _ rfl rfl rfl))
  have h3 := h2.step (.main (.spawn 0 rfl))
  have h4 := h3.step (.main (.spawn 1 rfl))
  have h5 := h4.step (.main (.nextGroup 0 rfl (by decide)))
  have h6 := h5.step (.main (.startRound 0 rfl))
  have h7 := h6.step (.main (.notifyStart rfl))
  have h8 := h7.step (.worker 1 (.enter rfl rfl (by decide)))
  have h9 := h8.step (.worker 1 (.nextRuleRaises ⟨invalidArgument "bad", "origin 1"⟩ rfl))
  have h10 := h9.step (.worker 1 (.store _ rfl))
  have h11 := h10.step (.worker 0 (.enter rfl rfl (by decide)))
  have h12 := h11.step (.worker 0 (.nextRuleRaises ⟨runtimeError "failed", "origin 0"⟩ rfl))
  have h13 := h12.step (.worker 0 (.store _ rfl))
  have h14 := h13.step (.main (.allDone rfl rfl))
  exact ⟨_, h14, rfl, rfl⟩

theorem counter_outcome : ∃ s : State Nat 2, s.main = .scan ∧
    ∃ events verdict, OutcomeOf counter s events verdict := by
  obtain ⟨s, hReachable, hScan, _⟩ := counter_scan
  exact ⟨s, hScan, scan_outcome hReachable hScan⟩

end Hegel.Concurrent
