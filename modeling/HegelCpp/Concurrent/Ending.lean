import HegelCpp.Concurrent.Rounds

/-! How `run_concurrent` ends. Its handlers stop and join the workers on every
path but one: a worker that cannot be started is outside the `try` block. -/
namespace Hegel.Concurrent

open Logic

variable {S : Type} {n : Nat} {params : Params S}

/-- The main thread has joined the worker `w`, if it was started. -/
def MainPc.past (w : Nat) : MainPc → Bool
  | .join _ k => decide (w < k)
  | .finished _ => true
  | _ => false

theorem past_eq_false {pc : MainPc} (hStopping : pc.stopping = false) (hEnded : pc.ended = false)
    (w : Nat) : pc.past w = false := by
  cases pc <;> simp_all [MainPc.past, MainPc.stopping, MainPc.ended]

theorem past_joinFrom (exit : Option Exn) {k w : Nat} (hw : w < n) :
    (joinFrom n exit k).past w = decide (w < k) := by
  refine joinFrom_cases (fun pc => pc.past w = decide (w < k)) exit k (fun _ => rfl) fun hAll => ?_
  simp only [MainPc.past, Bool.true_eq, decide_eq_true_eq]
  omega

/-- Whether and how the start of a worker has failed. -/
inductive StartFailure (s : State S n) : Prop where
  | none (hNone : s.startFailed = none) (hMain : s.main ≠ .terminated)
  | first (exit : Option Exn) (hFirst : s.startFailed = some 0) (hMain : s.main = .finished exit)
  | later (w : Nat) (hSome : s.startFailed = some w) (hLater : w ≠ 0) (hMain : s.main = .terminated)

/-- The way out of `run_concurrent`, at every point of it. -/
structure Ending (s : State S n) : Prop where
  raised : s.main ≠ .terminated → s.raised = s.main.leaving
  fresh : ∀ w : Fin n, s.main.before w = true → (s.workers w).pc = .absent
  exited : ∀ w, (s.workers w).joined = true → (s.workers w).pc = .exited
  past : ∀ w : Fin n, s.main.past w = true →
    (s.workers w).pc = .absent ∨ (s.workers w).joined = true
  failure : StartFailure s

namespace StartFailure

variable {s s' : State S n}

/-- Nothing has failed where the main thread goes on. -/
theorem not_ended (h : StartFailure s) (hEnded : s.main.ended = false) :
    s.startFailed = Option.none := by
  cases h with
  | none hNone _ => exact hNone
  | first exit _ hMain => simp [hMain, MainPc.ended] at hEnded
  | later w _ _ hMain => simp [hMain, MainPc.ended] at hEnded

/-- The main thread goes on, and no start fails. -/
theorem goesOn (h : StartFailure s) (hEnded : s.main.ended = false)
    (hFailed : s'.startFailed = s.startFailed) (hMain : s'.main ≠ .terminated) : StartFailure s' :=
  .none (hFailed.trans (h.not_ended hEnded)) hMain

end StartFailure

namespace Ending

variable {s s' : State S n}

/-- A worker that is still running does not change the way out. -/
theorem workerStep (h : Ending s) {w : Fin n} (hFrame : WorkerFrame w s s')
    (hStarted : (s.workers w).pc ≠ .absent) (hRunning : (s.workers w).pc ≠ .exited) :
    Ending s' := by
  have hNotFresh : s.main.before w = false := by
    by_contra hBefore
    exact hStarted (h.fresh w (by simpa using hBefore))
  have hNotJoined : (s.workers w).joined = false := by
    by_contra hJoined
    exact hRunning (h.exited w (by simpa using hJoined))
  have hMain : s'.main.leaving = s.main.leaving ∧ (∀ v, s'.main.before v = s.main.before v) ∧
      (∀ v, s'.main.past v = s.main.past v) ∧ (s'.main = .terminated ↔ s.main = .terminated) ∧
      ∀ exit, s.main = .finished exit → s'.main = .finished exit := by
    rcases hFrame.main with hMain | ⟨hMain, hMain'⟩
    · simp [hMain]
    · simp [hMain, hMain', MainPc.leaving, MainPc.before, MainPc.past]
  obtain ⟨hLeaving, hBefore, hPast, hTerminated, hFinished⟩ := hMain
  refine ⟨fun hAlive => ?_, fun v hv => ?_, fun v hv => ?_, fun v hv => ?_, ?_⟩
  · rw [hFrame.raised, hLeaving]
    exact h.raised fun hMain => hAlive (hTerminated.mpr hMain)
  · rw [hBefore] at hv
    by_cases hOther : v = w
    · subst hOther
      simp [hNotFresh] at hv
    · rw [hFrame.others v hOther]
      exact h.fresh v hv
  · by_cases hOther : v = w
    · subst hOther
      simp [hFrame.joined, hNotJoined] at hv
    · rw [hFrame.others v hOther] at hv ⊢
      exact h.exited v hv
  · rw [hPast] at hv
    by_cases hOther : v = w
    · subst hOther
      rcases h.past v hv with hAbsent | hJoined
      · exact absurd hAbsent hStarted
      · simp [hNotJoined] at hJoined
    · rw [hFrame.others v hOther]
      exact h.past v hv
  · cases h.failure with
    | none hNone hMain =>
        exact .none (hFrame.startFailed.trans hNone) fun hEnd => hMain (hTerminated.mp hEnd)
    | first exit hFirst hMain =>
        exact .first exit (hFrame.startFailed.trans hFirst) (hFinished exit hMain)
    | later k hSome hLater hMain =>
        exact .later k (hFrame.startFailed.trans hSome) hLater (hTerminated.mpr hMain)

/-- A step of the main thread that only moves its own program counter, away
from the start-up of the workers and not yet to their end. -/
theorem between (h : Ending s) {pc : MainPc} (hPc : s.main = pc)
    (hWorkers : ∀ w, (s'.workers w).joined = (s.workers w).joined ∧
      ((s.workers w).pc = .exited → (s'.workers w).pc = .exited))
    (hAlive : s'.main ≠ .terminated) (hLeaving : s'.main.leaving = pc.leaving := by rfl)
    (hBefore : ∀ w : Fin n, s'.main.before w = false := by exact fun _ => rfl)
    (hPast : ∀ w : Fin n, s'.main.past w = false := by exact fun _ => rfl)
    (hEnded : pc.ended = false := by rfl) (hFailed : s'.startFailed = s.startFailed := by rfl)
    (hRaised : s'.raised = s.raised := by rfl) : Ending s' where
  raised := fun _ => by
    rw [hRaised, hLeaving, ← hPc]
    exact h.raised fun hMain => by simp [← hPc, hMain, MainPc.ended] at hEnded
  fresh := fun w hw => by simp [hBefore] at hw
  exited := fun w hJoined => (hWorkers w).2 (h.exited w ((hWorkers w).1 ▸ hJoined))
  past := fun w hw => by simp [hPast] at hw
  failure := h.failure.goesOn (hPc ▸ hEnded) hFailed hAlive

theorem wake (worker : Worker) : (State.wakeWorkers worker).joined = worker.joined ∧
    (worker.pc = .exited → (State.wakeWorkers worker).pc = .exited) := by
  unfold State.wakeWorkers
  split
  · next hPc => exact ⟨rfl, fun hExited => by simp [hPc] at hExited⟩
  · exact ⟨rfl, id⟩

theorem fresh_unjoined (h : Ending s) {w : Fin n} (hBefore : s.main.before w = true) :
    (s.workers w).joined = false := by
  by_contra hJoined
  have hExited := h.exited w (by simpa using hJoined)
  simp [h.fresh w hBefore] at hExited

/-- One more worker is started. -/
theorem spawn (h : Ending s) {w : Fin n} (hPc : s.main = .spawn w) :
    Ending { s.setWorker w { s.workers w with pc := .check } with main := spawnFrom n (w + 1) } := by
  have hAlive : s.main ≠ .terminated := by simp [hPc]
  have hNew : s.main.before w = true := by simp [hPc, MainPc.before]
  refine ⟨fun _ => ?_, fun v hv => ?_, fun v hv => ?_, fun v hv => ?_, ?_⟩
  · apply (h.raised hAlive).trans
    rw [hPc, leaving_spawnFrom]
    rfl
  · rw [before_spawnFrom v.isLt, decide_eq_true_eq] at hv
    have hOther : v ≠ w := by
      rintro rfl
      omega
    show ((s.setWorker w _).workers v).pc = .absent
    rw [setWorker_of_ne hOther]
    apply h.fresh v
    rw [hPc, MainPc.before, decide_eq_true_eq]
    omega
  · change ((s.setWorker w _).workers v).joined = true at hv
    show ((s.setWorker w _).workers v).pc = .exited
    by_cases hOther : v = w
    · subst hOther
      simp [h.fresh_unjoined hNew] at hv
    · rw [setWorker_of_ne hOther] at hv ⊢
      exact h.exited v hv
  · rw [past_eq_false (stopping_spawnFrom _) (ended_spawnFrom _)] at hv
    cases hv
  · refine h.failure.goesOn (by rw [hPc]; rfl) rfl ?_
    unfold spawnFrom
    split <;> simp

/-- One more worker is joined. -/
theorem join (h : Ending s) {exit : Option Exn} {w : Fin n} (hPc : s.main = .join exit w)
    (hExited : (s.workers w).pc = .exited) :
    Ending { s.setWorker w { s.workers w with joined := true } with
      main := joinFrom n exit (w + 1) } := by
  have hAlive : s.main ≠ .terminated := by simp [hPc]
  refine ⟨fun _ => ?_, fun v hv => ?_, fun v hv => ?_, fun v hv => ?_, ?_⟩
  · apply (h.raised hAlive).trans
    rw [hPc, leaving_joinFrom]
    rfl
  · simp at hv
  · change ((s.setWorker w _).workers v).joined = true at hv
    show ((s.setWorker w _).workers v).pc = .exited
    by_cases hOther : v = w
    · subst hOther
      rw [setWorker_self]
      exact hExited
    · rw [setWorker_of_ne hOther] at hv ⊢
      exact h.exited v hv
  · rw [past_joinFrom exit v.isLt, decide_eq_true_eq] at hv
    show ((s.setWorker w _).workers v).pc = .absent ∨ ((s.setWorker w _).workers v).joined = true
    by_cases hOther : v = w
    · subst hOther
      rw [setWorker_self]
      exact .inr rfl
    · have : (v : Nat) ≠ w := fun hEq => hOther (Fin.ext hEq)
      rw [setWorker_of_ne hOther]
      apply h.past v
      rw [hPc, MainPc.past, decide_eq_true_eq]
      omega
  · refine h.failure.goesOn (by rw [hPc]; rfl) rfl ?_
    unfold joinFrom
    split <;> simp

theorem mainStep (h : Ending s) (hStep : MainStep params s s') : Ending s' := by
  have hSelf (w : Fin n) : (s.workers w).joined = (s.workers w).joined ∧
      ((s.workers w).pc = .exited → (s.workers w).pc = .exited) := ⟨rfl, id⟩
  cases hStep.effect with
  | quiet hSame hEvents hMain hFailed hRaised =>
      have hAlive : s.main ≠ .terminated := fun hEnd => by
        simpa [hEnd, MainPc.ended] using hMain.ended
      have hAlive' : s'.main ≠ .terminated := fun hEnd => by
        simpa [hEnd, MainPc.ended] using hMain.ended'
      refine ⟨fun _ => hRaised ((h.raised hAlive).trans hMain.leaving), fun w hw => ?_, ?_,
        fun w hw => ?_, h.failure.goesOn hMain.ended hFailed hAlive'⟩
      · rw [hSame.workers]
        exact h.fresh w (hMain.before w w.isLt ▸ hw)
      · rw [hSame.workers]
        exact h.exited
      · simp [past_eq_false hMain.stopping' hMain.ended'] at hw
  | leave e hSame hEvents hIdle hStopping hEnded hBefore hMain hRaised hFailed =>
      refine ⟨fun _ => by rw [hMain, hRaised]; rfl, fun w hw => ?_, ?_, fun w _ => ?_, ?_⟩
      · simp [hMain, MainPc.before] at hw
      · rw [hSame.workers]
        exact h.exited
      · rw [hSame.workers]
        exact .inl (h.fresh w (hBefore w w.isLt))
      · rcases hFailed with hNone | hFirst
        · exact h.failure.goesOn hEnded hNone (by simp [hMain])
        · exact .first _ hFirst hMain
  | terminate w e hPc hLater hEq =>
      subst hEq
      exact ⟨fun hAlive => absurd rfl hAlive, fun w hw => absurd hw (by simp [MainPc.before]),
        h.exited, fun w hw => absurd hw (by simp [MainPc.past]), .later w rfl hLater rfl⟩
  | spawn w hPc hEq =>
      subst hEq
      exact h.spawn hPc
  | startRound group hPc hEq =>
      subst hEq
      exact h.between hPc hSelf (by simp [State.startRound])
  | notifyStart hPc hEq =>
      subst hEq
      exact h.between hPc (fun w => wake _) (by simp)
  | allDone hPc hAll hEq =>
      subst hEq
      exact h.between hPc hSelf (by simp)
  | blockDone hPc hSome hEq =>
      subst hEq
      exact h.between hPc hSelf (by simp)
  | setStop exit hPc hEq =>
      subst hEq
      exact h.between hPc hSelf (by simp)
  | notifyStop exit hPc hEq =>
      subst hEq
      exact h.between hPc (fun w => wake _) (by unfold joinFrom; split <;> simp)
        (leaving_joinFrom exit 0) (fun w => before_joinFrom exit 0 w)
        fun w => by rw [past_joinFrom exit w.isLt]; rfl
  | join exit w hPc hExited hEq =>
      subst hEq
      exact h.join hPc hExited

theorem spuriousStep (h : Ending s) (hStep : SpuriousStep s s') : Ending s' := by
  cases hStep with
  | main hPc =>
      exact h.between hPc (fun _ => ⟨rfl, id⟩) (by simp)
  | worker w hPc =>
      exact h.workerStep (.setPc (by simp)) (by simp [hPc]) (by simp [hPc])

theorem of_initial (h : Initial s) : Ending s where
  raised := fun _ => by rw [h.raised, h.main]; rfl
  fresh := fun w _ => by rw [h.workers]
  exited := fun w hJoined => by simp [h.workers] at hJoined
  past := fun w hw => by simp [h.main, MainPc.past] at hw
  failure := .none h.startFailed (by simp [h.main])

theorem reachable (h : (runConcurrent params n).Reachable s) : Ending s := by
  apply h.invariant (fun s => of_initial)
  intro s s' _ hInv hStep
  cases hStep with
  | main hStep => exact hInv.mainStep hStep
  | worker w hStep => exact hInv.workerStep hStep.frame hStep.active.1 hStep.active.2
  | spurious hStep => exact hInv.spuriousStep hStep

end Ending

/-- The process was not terminated, and if `run_concurrent` has ended, every
worker it started was told to stop and joined, and the exception that leaves is
the one that was raised. -/
structure CleanExit (s : State S n) : Prop where
  alive : s.main ≠ .terminated
  finished : ∀ exit, s.main = .finished exit → exit = s.raised ∧
    ∀ w, (s.workers w).pc ≠ .absent →
      s.stop = true ∧ (s.workers w).pc = .exited ∧ (s.workers w).joined = true

/-- A run in which no later worker failed to start has a clean exit. -/
theorem CleanExit.of_startFailed {s : State S n} (h : (runConcurrent params n).Reachable s)
    (hFirst : ∀ w, s.startFailed = some w → w = 0) : CleanExit s := by
  have hEnding := Ending.reachable h
  have hLinked := (reachable_linked h).1
  have hAlive : s.main ≠ .terminated := by
    intro hEnd
    cases hEnding.failure with
    | none hNone hMain => exact hMain hEnd
    | first exit hSome hMain => simp [hMain] at hEnd
    | later k hSome hLater hMain => exact hLater (hFirst k hSome)
  refine ⟨hAlive, fun exit hMain => ⟨?_, fun w hStarted => ?_⟩⟩
  · exact ((hEnding.raised hAlive).trans (by rw [hMain]; rfl)).symm
  · have hJoined := (hEnding.past w (by rw [hMain]; rfl)).resolve_left hStarted
    have hExited := hEnding.exited w hJoined
    exact ⟨(hLinked.workers w).exited hExited, hExited, hJoined⟩

/-- All exits are clean but the one from the start of a later worker. -/
theorem cleanExit_iff {s : State S n} (h : (runConcurrent params n).Reachable s) :
    CleanExit s ↔ ∀ w, s.startFailed = some w → w = 0 := by
  constructor
  · intro hClean w hSome
    cases (Ending.reachable h).failure with
    | none hNone hMain => simp [hNone] at hSome
    | first exit hFirst hMain => exact Option.some.inj (hSome.symm.trans hFirst)
    | later k hSome' hLater hMain => exact absurd hMain hClean.alive
  · exact CleanExit.of_startFailed h

/-- The first worker runs and the second cannot be started. -/
theorem counter_startFails : ∃ s : State Nat 2, (runConcurrent counter 2).Reachable s ∧
    (s.workers 0).pc = .check ∧ s.startFailed = some 1 ∧ s.main = .terminated := by
  have h0 : (runConcurrent counter 2).Reachable (State.start 0 2) := .init (initial_start 0 2)
  have h1 := h0.step (.main (.create rfl rfl (by decide) (by decide)))
  have h2 := h1.step (.main (.evaluate .initial 0 _ rfl rfl rfl))
  have h3 := h2.step (.main (.spawn 0 rfl))
  have h4 := h3.step (.main (.spawnFails 1 (runtimeError "clone failed") rfl))
  exact ⟨_, h4, rfl, rfl, rfl⟩

theorem cleanExit_iff_startFails : ∃ s : State Nat 2, s.startFailed = some 1 ∧
    (CleanExit s ↔ ∀ w, s.startFailed = some w → w = 0) := by
  obtain ⟨s, hReachable, _, hFailed, _⟩ := counter_startFails
  exact ⟨s, hFailed, cleanExit_iff hReachable⟩

theorem not_every_exit_clean :
    ¬ ∀ s : State Nat 2, (runConcurrent counter 2).Reachable s → CleanExit s := by
  intro hClean
  obtain ⟨s, hReachable, _, _, hMain⟩ := counter_startFails
  exact (hClean s hReachable).alive hMain

end Hegel.Concurrent
