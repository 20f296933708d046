import HegelCpp.Concurrent.Effects
import HegelCpp.Logic.RoundBarrier
import Mathlib.Data.Fintype.Card

/-! `run_concurrent` implements a round barrier. The shared round number, each
worker's own copy of it and the completion counter carry what the barrier
needs to know. -/
namespace Hegel.Concurrent

open Logic

variable {S : Type} {n : Nat} {params : Params S}

/-- The barrier that the threads have reached together. -/
def barrierOf (s : State S n) : RoundBarrier.State (Fin n) where
  round := s.rounds
  running := s.main.running
  closed := s.stop
  entered := fun w => (s.workers w).entered
  left := fun w => (s.workers w).left

/-- How many workers have left the present round. -/
def leftCount (s : State S n) : Nat :=
  (Finset.univ.filter fun w => (s.workers w).left = s.rounds).card

/-- A worker's own variables agree with its place in the barrier. -/
structure WorkerLinked (stop : Bool) (worker : Worker) : Prop where
  observed : worker.observedRoundNumber = UInt64.ofNat worker.entered
  inRound : worker.pc.inRound = true ↔ worker.left ≠ worker.entered
  exited : worker.pc = .exited → stop = true

/-- The code's variables agree with the barrier. -/
structure Linked (s : State S n) : Prop where
  round : s.roundNumber = UInt64.ofNat s.rounds
  workers : ∀ w, WorkerLinked s.stop (s.workers w)
  completed : s.main.running = true → s.numWorkersCompleted = leftCount s
  stopping : s.main.stopping = true → s.stop = true
  stopped : s.stop = true → s.main.stopping = true ∨ s.main.ended = true
  absent : ∀ w, (s.workers w).pc = .absent → s.main.before w = true ∨ s.main.ended = true

/-- The main thread is past the start of the worker and has not ended. -/
theorem Linked.present {s : State S n} (h : Linked s) {w : Fin n}
    (hBefore : s.main.before w = false) (hEnded : s.main.ended = false) :
    (s.workers w).pc ≠ .absent := by
  intro hAbsent
  have hOr := h.absent w hAbsent
  simp [hBefore, hEnded] at hOr

/-- A step of a worker that the barrier does not see. -/
structure Unmoved (stop : Bool) (worker worker' : Worker) : Prop where
  inRound : worker'.pc.inRound = worker.pc.inRound
  exited : worker'.pc = .exited → worker.pc = .exited ∨ stop = true
  observed : worker'.observedRoundNumber = worker.observedRoundNumber
  entered : worker'.entered = worker.entered
  left : worker'.left = worker.left

namespace Unmoved

theorem refl (stop : Bool) (worker : Worker) : Unmoved stop worker worker :=
  ⟨rfl, .inl, rfl, rfl, rfl⟩

theorem linked {stop : Bool} {worker worker' : Worker} (h : Unmoved stop worker worker')
    (hLinked : WorkerLinked stop worker) : WorkerLinked stop worker' where
  observed := by rw [h.observed, h.entered, hLinked.observed]
  inRound := by rw [h.inRound, h.left, h.entered, hLinked.inRound]
  exited := fun hPc => (h.exited hPc).elim hLinked.exited id

/-- A change of the program counter alone. -/
theorem setPc {stop : Bool} {worker : Worker} {pc : WorkerPc}
    (hInRound : pc.inRound = worker.pc.inRound) (hExited : pc ≠ .exited) :
    Unmoved stop worker { worker with pc := pc } :=
  ⟨hInRound, fun hPc => absurd hPc hExited, rfl, rfl, rfl⟩

theorem of_moves {s : State S n} {worker worker' : Worker} (h : Moves params s worker worker') :
    Unmoved s.stop worker worker' :=
  ⟨h.inRound, fun hPc => .inr (h.exited hPc), h.observed, h.entered, h.left⟩

theorem wake (stop : Bool) (worker : Worker) : Unmoved stop worker (State.wakeWorkers worker) := by
  unfold State.wakeWorkers
  split
  · next hPc => exact .setPc (by rw [hPc]; rfl) (by simp)
  · exact .refl stop worker

/-- One worker's step leaves the others where they are. -/
theorem update {s : State S n} {w : Fin n} {worker : Worker}
    (h : Unmoved s.stop (s.workers w) worker) (v : Fin n) :
    Unmoved s.stop (s.workers v) ((s.setWorker w worker).workers v) := by
  by_cases hv : v = w
  · subst hv
    simpa [State.setWorker] using h
  · simpa [State.setWorker, Function.update_of_ne hv] using Unmoved.refl s.stop (s.workers v)

end Unmoved

theorem setWorker_absent {s : State S n} {w v : Fin n} {worker : Worker}
    (hPresent : worker.pc ≠ .absent) (h : ((s.setWorker w worker).workers v).pc = .absent) :
    v ≠ w ∧ (s.workers v).pc = .absent :=
  (setWorker_pc h).resolve_left fun hSelf => hPresent hSelf.2

/-- The main thread's step to `pc` is none of the barrier's. -/
structure MainStill (s : State S n) (pc : MainPc) : Prop where
  running : pc.running = s.main.running
  stopping : pc.stopping = true → s.stop = true
  stopped : s.stop = true → pc.stopping = true ∨ pc.ended = true

namespace Linked

variable {s s' : State S n}

theorem mainRefl (h : Linked s) : MainStill s s.main := ⟨rfl, h.stopping, h.stopped⟩

/-- Nobody is told to stop before the main thread does so. -/
theorem isOpen (h : Linked s) (hStopping : s.main.stopping = false)
    (hEnded : s.main.ended = false) :
    s.stop = false := by
  by_contra hStop
  have hOr := h.stopped (by simpa using hStop)
  simp [hStopping, hEnded] at hOr

/-- A step of the main thread from where it is not told to stop. -/
theorem mainOpen (h : Linked s) {pc pc' : MainPc} (hPc : s.main = pc)
    (hRunning : pc'.running = pc.running := by rfl) (hStopping : pc.stopping = false := by rfl)
    (hStopping' : pc'.stopping = false := by rfl) (hEnded : pc.ended = false := by rfl) :
    MainStill s pc' := by
  have hOpen := h.isOpen (by rw [hPc, hStopping]) (by rw [hPc, hEnded])
  exact ⟨by rw [hRunning, hPc], by simp [hStopping'], by simp [hOpen]⟩

/-- A step that the barrier does not see. -/
theorem still (h : Linked s) (hSame : SameBarrier { s with workers := s'.workers } s')
    (hMain : MainStill s s'.main) (hWorkers : ∀ w, Unmoved s.stop (s.workers w) (s'.workers w))
    (hAbsent : ∀ w, (s'.workers w).pc = .absent → s'.main.before w = true ∨ s'.main.ended = true) :
    Linked s' ∧ barrierOf s' = barrierOf s := by
  have hRound : s'.rounds = s.rounds := hSame.rounds
  have hStop : s'.stop = s.stop := hSame.stop
  have hLeft := funext fun w => (hWorkers w).left
  have hEntered := funext fun w => (hWorkers w).entered
  refine ⟨⟨?_, fun w => ?_, fun hRunning => ?_, ?_, ?_, hAbsent⟩, ?_⟩
  · rw [hSame.roundNumber, hRound]
    exact h.round
  · rw [hStop]
    exact (hWorkers w).linked (h.workers w)
  · rw [hMain.running] at hRunning
    rw [hSame.numWorkersCompleted]
    simp only [leftCount, (hWorkers _).left, hRound]
    exact h.completed hRunning
  · rw [hStop]
    exact hMain.stopping
  · rw [hStop]
    exact hMain.stopped
  · unfold barrierOf
    rw [hLeft, hEntered, hRound, hStop, hMain.running]

/-- A worker's step that the barrier does not see. -/
theorem stillWorker (h : Linked s) {w : Fin n} {worker : Worker}
    (hSame : SameBarrier (s.setWorker w worker) s') (hMain : s'.main = s.main)
    (hWorker : Unmoved s.stop (s.workers w) worker) (hPresent : worker.pc ≠ .absent) :
    Linked s' ∧ barrierOf s' = barrierOf s := by
  refine h.still ⟨rfl, hSame.roundNumber, hSame.rounds, hSame.stop, hSame.numWorkersCompleted⟩
    (hMain ▸ h.mainRefl) ?_ ?_
  · rw [hSame.workers]
    exact hWorker.update
  · rw [hSame.workers, hMain]
    exact fun v hAbsent => h.absent v (setWorker_absent hPresent hAbsent).2

end Linked

/-- What a step does at the barrier. -/
def Follows (s s' : State S n) : Prop :=
  Linked s' ∧ (barrierOf s' = barrierOf s ∨ RoundBarrier.Step (barrierOf s) (barrierOf s'))

theorem Follows.stay {s s' : State S n} (h : Linked s' ∧ barrierOf s' = barrierOf s) :
    Follows s s' := ⟨h.1, .inl h.2⟩

section Worker
variable {s s' : State S n} {w : Fin n}

/-- The barrier follows the counters of a worker. -/
theorem barrierOf_setWorker (s : State S n) (w : Fin n) (worker : Worker) :
    barrierOf (s.setWorker w worker) =
      { barrierOf s with
        entered := Function.update (barrierOf s).entered w worker.entered
        left := Function.update (barrierOf s).left w worker.left } := by
  have hEntered := Function.comp_update Worker.entered s.workers w worker
  have hLeft := Function.comp_update Worker.left s.workers w worker
  exact congrArg₂ (fun entered left => RoundBarrier.State.mk s.rounds s.main.running s.stop entered
    left) hEntered hLeft

/-- A worker that sees a new round number is one round behind. -/
theorem Linked.enter (h : Linked s) (hBarrier : RoundBarrier.Invariant (barrierOf s))
    (hPc : (s.workers w).pc = .check) (hNew : s.roundNumber ≠ (s.workers w).observedRoundNumber) :
    Follows s (s.setWorker w
      { s.workers w with
        pc := .nextRule
        observedRoundNumber := s.roundNumber
        entered := (s.workers w).entered + 1 }) := by
  have hw := h.workers w
  have hOutside : (s.workers w).left = (s.workers w).entered := by
    by_contra hInside
    have := hw.inRound.mpr hInside
    simp [hPc, WorkerPc.inRound] at this
  have hFirst : (s.workers w).entered ≠ s.rounds := by
    rintro hEq
    rw [h.round, hw.observed, hEq] at hNew
    exact hNew rfl
  have hRunning : s.main.running = true := by
    by_contra hIdle
    exact hFirst (hBarrier.outside (by simpa [barrierOf] using hIdle) w).1
  have hNext : (s.workers w).entered + 1 = s.rounds := by
    have hLe : (s.workers w).entered ≤ s.rounds := hBarrier.entered_le w
    have hGe : s.rounds ≤ (s.workers w).left + 1 := hBarrier.round_le w
    omega
  refine ⟨⟨h.round, ?_, fun _ => ?_, h.stopping, h.stopped, ?_⟩, .inr ?_⟩
  · refine (Function.forall_update_iff _ fun _ => WorkerLinked s.stop).mpr
      ⟨⟨?_, ?_, ?_⟩, fun v _ => h.workers v⟩
    · rw [hNext, h.round]
    · simp [WorkerPc.inRound, hOutside]
    · simp
  · have hLeft : ∀ v, ((s.setWorker w { s.workers w with
        pc := .nextRule
        observedRoundNumber := s.roundNumber
        entered := (s.workers w).entered + 1 }).workers v).left = (s.workers v).left :=
      (Function.forall_update_iff _ fun v (worker : Worker) =>
        worker.left = (s.workers v).left).mpr ⟨rfl, fun _ _ => rfl⟩
    simp only [leftCount, hLeft]
    exact h.completed hRunning
  · exact fun v hAbsent => h.absent v (setWorker_absent (by simp) hAbsent).2
  · rw [barrierOf_setWorker]
    have hLeft : Function.update (barrierOf s).left w (s.workers w).left = (barrierOf s).left :=
      Function.update_eq_self w _
    rw [hLeft]
    exact .enter w hRunning hFirst

/-- One more worker has left the round. -/
theorem leftCount_store {event : RoundEvent} (hLeft : (s.workers w).left + 1 = s.rounds) :
    leftCount (s.store w event) = leftCount s + 1 := by
  have hInsert : (Finset.univ.filter fun v => ((s.store w event).workers v).left = s.rounds) =
      insert w (Finset.univ.filter fun v => (s.workers v).left = s.rounds) := by
    ext v
    rw [Finset.mem_insert, Finset.mem_filter, Finset.mem_filter]
    by_cases hv : v = w
    · subst hv
      simp [State.store, State.setWorker, hLeft]
    · simp [State.store, State.setWorker, hv]
  have hNew : w ∉ Finset.univ.filter fun v => (s.workers v).left = s.rounds := by
    rw [Finset.mem_filter]
    omega
  rw [leftCount, leftCount, ← Finset.card_insert_of_notMem hNew, ← hInsert]
  rfl

/-- A worker that stores its event leaves the round it entered. -/
theorem Linked.store (h : Linked s) (hBarrier : RoundBarrier.Invariant (barrierOf s))
    {event : RoundEvent} (hPc : (s.workers w).pc = .store event) :
    Follows s (s.store w event) := by
  have hw := h.workers w
  have hInside : (s.workers w).left ≠ (s.workers w).entered := hw.inRound.mp (by rw [hPc]; rfl)
  obtain ⟨hRunning, hEntered, hLeft⟩ := hBarrier.inside hInside
  refine ⟨⟨h.round, ?_, fun _ => ?_, h.stopping, h.stopped, ?_⟩, .inr ?_⟩
  · have hEq : (s.workers w).left + 1 = (s.workers w).entered := hLeft.trans hEntered.symm
    refine (Function.forall_update_iff _ fun _ => WorkerLinked s.stop).mpr
      ⟨⟨hw.observed, ?_, ?_⟩, fun v _ => h.workers v⟩
    · simp [WorkerPc.inRound, hEq]
    · simp
  · rw [leftCount_store hLeft, ← h.completed hRunning]
    rfl
  · exact fun v hAbsent => h.absent v (setWorker_absent (by simp) hAbsent).2
  · have hEq : barrierOf (s.store w event) =
        { barrierOf s with
          left := Function.update (barrierOf s).left w ((barrierOf s).left w + 1) } := by
      have hEntered : Function.update (barrierOf s).entered w (s.workers w).entered =
        (barrierOf s).entered := Function.update_eq_self w _
      apply (barrierOf_setWorker s w _).trans
      rw [hEntered]
      rfl
    rw [hEq]
    exact .leave w hInside

/-- What a worker's step does at the barrier. -/
theorem Linked.workerStep (h : Linked s) (hBarrier : RoundBarrier.Invariant (barrierOf s))
    (hStep : WorkerStep params w s s') : Follows s s' := by
  cases hStep.effect with
  | free hSame hMain hEvents hGroup =>
      refine .stay (h.still ⟨rfl, hSame.roundNumber, hSame.rounds, hSame.stop,
        hSame.numWorkersCompleted⟩ (hMain ▸ h.mainRefl) ?_ ?_)
      · rw [hSame.workers]
        exact fun v => .refl s.stop (s.workers v)
      · rw [hSame.workers, hMain]
        exact h.absent
  | move worker hSame hMain hEvents hGroup hMoves =>
      exact .stay (h.stillWorker hSame hMain (.of_moves hMoves) hMoves.present)
  | enter hPc hStop hNew hEq =>
      rw [hEq]
      exact h.enter hBarrier hPc hNew
  | store event hPc hEq =>
      rw [hEq]
      exact h.store hBarrier hPc
  | notify hPc hEq =>
      subst hEq
      refine .stay (h.still {} ?_
        (Unmoved.update (.setPc (by rw [hPc]; rfl) (by simp))) ?_)
      · by_cases hBlocked : s.main = .blockedDone
        · simp only [hBlocked, if_true]
          exact h.mainOpen hBlocked
        · simp only [hBlocked, if_false]
          exact h.mainRefl
      · intro v hAbsent
        have hAbsent' := (setWorker_absent (by simp) hAbsent).2
        by_cases hBlocked : s.main = .blockedDone
        · exact absurd hAbsent' (h.present (by rw [hBlocked]; rfl) (by rw [hBlocked]; rfl))
        · simpa only [hBlocked, if_false] using h.absent v hAbsent'

end Worker

section Main
variable {s s' : State S n}

/-- The main thread starts the worker `w`. -/
theorem Linked.spawn (h : Linked s) (hBarrier : RoundBarrier.Invariant (barrierOf s)) {w : Fin n}
    (hPc : s.main = .spawn w) :
    Follows s { s.setWorker w { s.workers w with pc := .check } with
      main := spawnFrom n (w + 1) } := by
  have hOutside : (s.workers w).pc.inRound = false := by
    have hIdle := hBarrier.outside (show s.main.running = false by rw [hPc]; rfl) w
    by_contra hInRound
    exact (h.workers w).inRound.mp (by simpa using hInRound) (hIdle.2.trans hIdle.1.symm)
  refine .stay (h.still {} (h.mainOpen hPc (running_spawnFrom _) rfl
    (by simp) rfl) (Unmoved.update (.setPc hOutside.symm (by simp))) fun v hAbsent => ?_)
  obtain ⟨hOther, hAbsent⟩ := setWorker_absent (by simp) hAbsent
  rw [before_spawnFrom v.isLt, decide_eq_true_eq]
  left
  have hBefore : (w : Nat) ≤ v := by
    simpa [hPc, MainPc.before, MainPc.ended] using h.absent v hAbsent
  have : (v : Nat) ≠ w := fun hEq => hOther (Fin.ext hEq)
  omega

/-- The main thread starts a round. -/
theorem Linked.startRound (h : Linked s) (hBarrier : RoundBarrier.Invariant (barrierOf s))
    {group : Nat} (hPc : s.main = .startRound group) : Follows s (s.startRound params group) := by
  have hOpen := h.isOpen (by rw [hPc]; rfl) (by rw [hPc]; rfl)
  have hIdle : s.main.running = false := by rw [hPc]; rfl
  refine ⟨⟨?_, fun w => ?_, fun _ => ?_, ?_, ?_, fun w hAbsent => ?_⟩, .inr (.start hIdle hOpen)⟩
  · show s.roundNumber + 1 = UInt64.ofNat (s.rounds + 1)
    rw [h.round, UInt64.ofNat_add]
    rfl
  · exact ⟨(h.workers w).observed, (h.workers w).inRound, (h.workers w).exited⟩
  · refine (Finset.card_eq_zero.mpr (Finset.filter_eq_empty_iff.mpr fun w _ => ?_)).symm
    have hLeft : (s.workers w).left = s.rounds := (hBarrier.outside hIdle w).2
    show (s.workers w).left ≠ s.rounds + 1
    omega
  · exact fun hStopping => by cases hStopping
  · exact fun hStop => by simp [State.startRound, hOpen] at hStop
  · exact absurd hAbsent (h.present (by rw [hPc]; rfl) (by rw [hPc]; rfl))

/-- All have left the round when the completion counter says so. -/
theorem Linked.allLeft (h : Linked s) (hRunning : s.main.running = true)
    (hAll : s.numWorkersCompleted = n) (w : Fin n) : (s.workers w).left = s.rounds := by
  have hCard : leftCount s = Fintype.card (Fin n) := by
    rw [← h.completed hRunning, hAll, Fintype.card_fin]
  have hMem : w ∈ Finset.univ.filter fun w => (s.workers w).left = s.rounds := by
    rw [(Finset.card_eq_iff_eq_univ _).mp hCard]
    exact Finset.mem_univ w
  exact (Finset.mem_filter.mp hMem).2

/-- What a step of the main thread does at the barrier. -/
theorem Linked.mainStep (h : Linked s) (hBarrier : RoundBarrier.Invariant (barrierOf s))
    (hStep : MainStep params s s') : Follows s s' := by
  have hRefl (w : Fin n) : Unmoved s.stop (s.workers w) (s.workers w) := .refl s.stop _
  cases hStep.effect with
  | quiet hSame hEvents hMain hFailed hRaised =>
      refine .stay (h.still ⟨rfl, hSame.roundNumber, hSame.rounds, hSame.stop,
        hSame.numWorkersCompleted⟩ (h.mainOpen rfl (hMain.running'.trans hMain.running.symm)
        hMain.stopping hMain.stopping' hMain.ended) ?_ fun w hAbsent => ?_)
      · rw [hSame.workers]
        exact hRefl
      · rw [hSame.workers] at hAbsent
        rw [hMain.before w w.isLt]
        refine .inl ((h.absent w hAbsent).resolve_right ?_)
        simp [hMain.ended]
  | leave e hSame hEvents hIdle hStopping hEnded hBefore hMain hRaised hFailed =>
      refine .stay (h.still ⟨rfl, hSame.roundNumber, hSame.rounds, hSame.stop,
        hSame.numWorkersCompleted⟩ ?_ ?_ fun w hAbsent => ?_)
      · rw [hMain]
        exact ⟨hIdle.symm, by simp [MainPc.stopping], fun _ => .inr rfl⟩
      · rw [hSame.workers]
        exact hRefl
      · rw [hMain]
        exact .inr rfl
  | terminate w e hPc hLater hEq =>
      subst hEq
      refine .stay (h.still {} ⟨by rw [hPc]; rfl, ?_, fun _ => .inr rfl⟩ hRefl
        fun w hAbsent => .inr rfl)
      simp [MainPc.stopping]
  | spawn w hPc hEq =>
      rw [hEq]
      exact h.spawn hBarrier hPc
  | startRound group hPc hEq =>
      rw [hEq]
      exact h.startRound hBarrier hPc
  | notifyStart hPc hEq =>
      subst hEq
      refine .stay (h.still {} (h.mainOpen hPc) (fun w => .wake _ _) fun w hAbsent => ?_)
      exact absurd (wakeWorkers_pc hAbsent (by simp)).1
        (h.present (by rw [hPc]; rfl) (by rw [hPc]; rfl))
  | allDone hPc hAll hEq =>
      subst hEq
      have hRunning : s.main.running = true := by rw [hPc]; rfl
      have hLeft := h.allLeft hRunning hAll
      have hMain : MainStill s .blockedDone := h.mainOpen hPc
      refine ⟨⟨h.round, h.workers, ?_, ?_, ?_, fun w hAbsent => ?_⟩, .inr (.finish hLeft)⟩
      · exact fun hRunning => by cases hRunning
      · exact fun hStopping => by cases hStopping
      · exact hMain.stopped
      · exact absurd hAbsent (h.present (by rw [hPc]; rfl) (by rw [hPc]; rfl))
  | blockDone hPc hSome hEq =>
      subst hEq
      refine .stay (h.still {} (h.mainOpen hPc) hRefl fun w hAbsent => ?_)
      exact absurd hAbsent (h.present (by rw [hPc]; rfl) (by rw [hPc]; rfl))
  | setStop exit hPc hEq =>
      subst hEq
      have hIdle : s.main.running = false := by rw [hPc]; rfl
      have hClose : RoundBarrier.Step (barrierOf s) { barrierOf s with closed := true } :=
        .close hIdle
      refine ⟨⟨h.round, fun w => ⟨(h.workers w).observed, (h.workers w).inRound, fun _ => rfl⟩, ?_,
        fun _ => rfl, fun _ => .inl rfl, fun w hAbsent => ?_⟩, .inr ?_⟩
      · exact fun hRunning => by cases hRunning
      · exact absurd hAbsent (h.present (by rw [hPc]; rfl) (by rw [hPc]; rfl))
      · simpa [barrierOf, hPc, MainPc.running] using hClose
  | notifyStop exit hPc hEq =>
      subst hEq
      have hStop := h.stopping (by rw [hPc]; rfl)
      refine .stay (h.still {} ⟨?_, fun _ => hStop, fun _ => ?_⟩
        (fun w => .wake _ _) fun w hAbsent => ?_)
      · rw [hPc]
        exact running_joinFrom exit 0
      · exact joinFrom_done exit 0
      · exact absurd (wakeWorkers_pc hAbsent (by simp)).1
          (h.present (by rw [hPc]; rfl) (by rw [hPc]; rfl))
  | join exit w hPc hExited hEq =>
      subst hEq
      have hStop := h.stopping (by rw [hPc]; rfl)
      refine .stay (h.still {} ⟨?_, fun _ => hStop, fun _ => ?_⟩
        (Unmoved.update ⟨rfl, .inl, rfl, rfl, rfl⟩) fun v hAbsent => ?_)
      · rw [hPc]
        exact running_joinFrom exit _
      · exact joinFrom_done exit _
      · exact absurd (setWorker_absent (by simp [hExited]) hAbsent).2
          (h.present (by rw [hPc]; rfl) (by rw [hPc]; rfl))

theorem Linked.spuriousStep (h : Linked s) (hStep : SpuriousStep s s') : Follows s s' := by
  cases hStep with
  | main hPc =>
      refine .stay (h.still {} (h.mainOpen hPc) (fun w => .refl s.stop _) fun w hAbsent => ?_)
      exact absurd hAbsent (h.present (by rw [hPc]; rfl) (by rw [hPc]; rfl))
  | worker w hPc =>
      exact .stay (h.stillWorker {} rfl
        (.setPc (by rw [hPc]; rfl) (by simp)) (by simp))

end Main

theorem linked_initial {s : State S n} (h : Initial s) :
    Linked s ∧ barrierOf s = RoundBarrier.initial := by
  refine ⟨⟨?_, fun w => ?_, fun hRunning => ?_, fun hStopping => ?_, fun hStop => ?_, fun w _ => ?_⟩,
    ?_⟩
  · rw [h.roundNumber, h.rounds]
    rfl
  · rw [h.workers]
    exact ⟨rfl, by simp [WorkerPc.inRound], by simp⟩
  · simp [h.main, MainPc.running] at hRunning
  · simp [h.main, MainPc.stopping] at hStopping
  · simp [h.stop] at hStop
  · simp [h.main, MainPc.before]
  · simp [barrierOf, RoundBarrier.initial, h.main, h.workers, h.rounds, h.stop, MainPc.running]

theorem Linked.step {s s' : State S n} (h : Linked s)
    (hBarrier : RoundBarrier.Invariant (barrierOf s)) (hStep : Step params s s') : Follows s s' := by
  cases hStep with
  | main hStep => exact h.mainStep hBarrier hStep
  | worker w hStep => exact h.workerStep hBarrier hStep
  | spurious hStep => exact h.spuriousStep hStep

/-- `run_concurrent` implements the round barrier. -/
theorem barrierSimulation (params : Params S) (n : Nat) :
    System.Simulation (runConcurrent params n) (RoundBarrier.barrier (Fin n))
      fun s b => Linked s ∧ b = barrierOf s where
  init := fun s hInit => by
    obtain ⟨hLinked, hBarrier⟩ := linked_initial hInit
    exact ⟨_, hBarrier, hLinked, rfl⟩
  step := by
    rintro s s' b ⟨hLinked, rfl⟩ hReachable hStep
    have hFollows := hLinked.step (RoundBarrier.reachable_invariant hReachable) hStep
    exact ⟨barrierOf s', ⟨hFollows.1, rfl⟩, hFollows.2⟩

/-- The variables agree with the barrier in every reachable state, and the
barrier keeps its invariant. -/
theorem reachable_linked {s : State S n} (h : (runConcurrent params n).Reachable s) :
    Linked s ∧ RoundBarrier.Invariant (barrierOf s) := by
  obtain ⟨b, hReachable, hLinked, rfl⟩ := (barrierSimulation params n).reachable h
  exact ⟨hLinked, RoundBarrier.reachable_invariant hReachable⟩

end Hegel.Concurrent
