import HegelCpp.Concurrent.Ending

/-! `run_concurrent` never gets stuck. A notification is lost only if a thread
waits for it later, and then the predicate of its wait already holds. -/
namespace Hegel.Concurrent

open Logic

variable {S : Type} {n : Nat} {params : Params S}

/-- The loops of the main thread stay within their ranges. -/
def MainPc.bounded (params : Params S) (n : Nat) : MainPc → Prop
  | .check _ index | .sample index => index < params.invariants.length
  | .spawn w | .join _ w => w < n
  | _ => True

section Bounded
variable {s s' : State S n}

theorem bounded_spawnFrom (w : Nat) : (spawnFrom n w).bounded params n :=
  spawnFrom_cases (fun pc => pc.bounded params n) w (fun hMore => hMore) fun _ => trivial

theorem bounded_joinFrom (exit : Option Exn) (w : Nat) : (joinFrom n exit w).bounded params n :=
  joinFrom_cases (fun pc => pc.bounded params n) exit w (fun hMore => hMore) fun _ => trivial

theorem bounded_checkFrom (phase : Phase) (index : Nat) :
    (checkFrom params n phase index).bounded params n :=
  checkFrom_cases params phase index (fun pc => pc.bounded params n) (fun hMore => hMore)
    (fun hMore => hMore) (bounded_spawnFrom 0) trivial trivial

theorem MainStep.bounded (h : MainStep params s s') (hBounded : s.main.bounded params n) :
    s'.main.bounded params n := by
  cases h with
  | create hPc hArguments hMin hMax => exact bounded_checkFrom .initial 0
  | sample index selected hPc =>
      cases selected with
      | false => exact bounded_checkFrom .joined (index + 1)
      | true =>
          rw [hPc] at hBounded
          exact hBounded
  | evaluate phase index invariant hPc hInvariant hHolds => exact bounded_checkFrom phase (index + 1)
  | violate phase index invariant e hPc hInvariant hViolated => cases phase <;> trivial
  | spawn w hPc => exact bounded_spawnFrom (w + 1)
  | spawnFails w e hPc =>
      show MainPc.bounded params n (if (w : Nat) = 0 then .finished (some e) else .terminated)
      split <;> trivial
  | nextGroupDone hPc => exact bounded_checkFrom .final 0
  | scan hPc hOutcome => exact bounded_checkFrom .joined 0
  | notifyStop exit hPc => exact bounded_joinFrom exit 0
  | join exit w hPc hExited => exact bounded_joinFrom exit (w + 1)
  | _ => trivial

/-- The main thread stays within its ranges. -/
def Bounded (params : Params S) (s : State S n) : Prop := s.main.bounded params n

theorem reachable_bounded (h : (runConcurrent params n).Reachable s) : Bounded params s := by
  refine h.invariant (fun s hInit => ?_) fun s s' _ hInv hStep => ?_
  · rw [Bounded, hInit.main]
    trivial
  · cases hStep with
    | main hStep => exact hStep.bounded hInv
    | worker w hStep =>
        rcases hStep.frame.main with hMain | ⟨_, hMain⟩
        · rwa [Bounded, hMain]
        · rw [Bounded, hMain]
          trivial
    | spurious hStep =>
        cases hStep with
        | main hPc => trivial
        | worker w hPc => exact hInv

end Bounded

/-- Nobody waits for a notification that was already sent. -/
structure Awake (s : State S n) : Prop where
  started : ∀ w, (s.workers w).pc = .waiting →
    (s.workers w).entered = s.rounds ∨ s.main = .notifyStart
  told : ∀ w, (s.workers w).pc = .waiting → s.stop = false ∨ ∃ exit, s.main = .notifyStop exit
  done : s.main = .blockedDone → s.numWorkersCompleted ≠ n ∨ ∃ w, (s.workers w).pc = .notify

/-- A worker whose round number is the shared one has entered every round. -/
theorem observed_all {s : State S n} (hLinked : Linked s)
    (hBarrier : RoundBarrier.Invariant (barrierOf s)) {w : Fin n}
    (h : s.roundNumber = (s.workers w).observedRoundNumber) : (s.workers w).entered = s.rounds := by
  have hLe : (s.workers w).entered ≤ s.rounds := hBarrier.entered_le w
  have hGe : s.rounds ≤ (s.workers w).left + 1 := hBarrier.round_le w
  have hLeft : (s.workers w).left ≤ (s.workers w).entered := hBarrier.left_le w
  rw [hLinked.round, (hLinked.workers w).observed] at h
  by_contra hBehind
  have hNext : s.rounds = (s.workers w).entered + 1 := by omega
  rw [hNext, UInt64.ofNat_add] at h
  have hOne := UInt64.left_eq_add.mp h.symm
  cases hOne

namespace Awake

variable {s s' : State S n}

/-- A step after which no other worker waits than before. -/
theorem carry (h : Awake s)
    (hWaiting : ∀ w, (s'.workers w).pc = .waiting →
      (s.workers w).pc = .waiting ∧ (s'.workers w).entered = (s.workers w).entered)
    (hRounds : s'.rounds = s.rounds) (hStop : s'.stop = s.stop)
    (hStart : s.main = .notifyStart → s'.main = .notifyStart)
    (hTold : ∀ exit, s.main = .notifyStop exit → s'.main = .notifyStop exit)
    (hDone : s'.main = .blockedDone → s'.numWorkersCompleted ≠ n ∨
      ∃ w, (s'.workers w).pc = .notify) : Awake s' where
  started := fun w hw => by
    obtain ⟨hOld, hEntered⟩ := hWaiting w hw
    rw [hEntered, hRounds]
    exact (h.started w hOld).imp_right hStart
  told := fun w hw => by
    rw [hStop]
    apply (h.told w (hWaiting w hw).1).imp_right
    rintro ⟨exit, hMain⟩
    exact ⟨exit, hTold exit hMain⟩
  done := hDone

/-- One worker's step to where it does not wait. -/
theorem setWorker {w v : Fin n} {worker : Worker} (hNot : worker.pc ≠ .waiting)
    (hv : ((s.setWorker w worker).workers v).pc = .waiting) :
    (s.workers v).pc = .waiting ∧
      ((s.setWorker w worker).workers v).entered = (s.workers v).entered := by
  obtain ⟨hOther, hOld⟩ := (setWorker_pc hv).resolve_left fun hSelf => hNot hSelf.2
  exact ⟨hOld, by rw [setWorker_of_ne hOther]⟩

/-- A worker that is about to notify the main thread still is. -/
theorem still_notifying {w : Fin n} {worker : Worker} (hNot : (s.workers w).pc ≠ .notify)
    (h : ∃ v, (s.workers v).pc = .notify) : ∃ v, ((s.setWorker w worker).workers v).pc = .notify := by
  obtain ⟨v, hv⟩ := h
  have hOther : v ≠ w := fun hEq => hNot (hEq ▸ hv)
  exact ⟨v, by rwa [setWorker_of_ne hOther]⟩

theorem not_blocked {pc : MainPc} {P : Prop} (h : pc.running = false)
    (hPc : pc = .blockedDone) : P := by
  simp [hPc, MainPc.running] at h

theorem workerStep (h : Awake s) (hLinked : Linked s)
    (hBarrier : RoundBarrier.Invariant (barrierOf s)) {w : Fin n}
    (hStep : WorkerStep params w s s') : Awake s' := by
  cases hStep.effect with
  | free hSame hMain hEvents hGroup =>
      refine h.carry (fun v hv => ?_) hSame.rounds hSame.stop (fun hPc => hMain ▸ hPc)
        (fun exit hPc => hMain ▸ hPc) fun hPc => ?_
      · rw [hSame.workers] at hv ⊢
        exact ⟨hv, rfl⟩
      · rw [hSame.workers, hSame.numWorkersCompleted]
        exact h.done (hMain ▸ hPc)
  | move worker hSame hMain hEvents hGroup hMoves =>
      refine ⟨fun v hv => ?_, fun v hv => ?_, fun hPc => ?_⟩
      · have hRounds : s'.rounds = s.rounds := hSame.rounds
        rw [hSame.workers] at hv ⊢
        rw [hRounds, hMain]
        rcases setWorker_pc hv with ⟨rfl, hWaits⟩ | ⟨hOther, hOld⟩
        · rw [setWorker_self, hMoves.entered]
          exact .inl (observed_all hLinked hBarrier (hMoves.waiting hWaits).2)
        · rw [setWorker_of_ne hOther]
          exact h.started v hOld
      · have hStop : s'.stop = s.stop := hSame.stop
        rw [hSame.workers] at hv
        rw [hStop, hMain]
        rcases setWorker_pc hv with ⟨rfl, hWaits⟩ | ⟨hOther, hOld⟩
        · exact .inl (hMoves.waiting hWaits).1
        · exact h.told v hOld
      · rw [hSame.workers, hSame.numWorkersCompleted]
        exact (h.done (hMain ▸ hPc)).imp_right (still_notifying hMoves.notNotify)
  | enter hPc hStop hNew hEq =>
      subst hEq
      exact h.carry (fun v => setWorker (by simp)) rfl rfl id (fun _ => id)
        fun hMain => (h.done hMain).imp_right (still_notifying (by simp [hPc]))
  | store event hPc hEq =>
      subst hEq
      refine h.carry (fun v => setWorker (by simp)) rfl rfl id (fun _ => id) fun _ => .inr ⟨w, ?_⟩
      show ((s.setWorker w _).workers w).pc = .notify
      rw [setWorker_self]
  | notify hPc hEq =>
      subst hEq
      refine h.carry (fun v => setWorker (by simp)) rfl rfl (fun hMain => ?_) (fun exit hMain => ?_)
        fun hMain => ?_
      · simp [hMain]
      · simp [hMain]
      · by_cases hBlocked : s.main = .blockedDone
        · simp [hBlocked] at hMain
        · simp only [hBlocked, if_false] at hMain

theorem mainStep (h : Awake s) (hStep : MainStep params s s') : Awake s' := by
  have hSelf (w : Fin n) (hw : (s.workers w).pc = .waiting) :
      (s.workers w).pc = .waiting ∧ (s.workers w).entered = (s.workers w).entered := ⟨hw, rfl⟩
  cases hStep.effect with
  | quiet hSame hEvents hMain hFailed hRaised =>
      refine h.carry (fun v hv => ?_) hSame.rounds hSame.stop (fun hPc => ?_) (fun exit hPc => ?_)
        fun hPc => ?_
      · rw [hSame.workers] at hv ⊢
        exact hSelf v hv
      · simpa [hPc, MainPc.running] using hMain.running
      · simpa [hPc, MainPc.stopping] using hMain.stopping
      · simpa [hPc, MainPc.running] using hMain.running'
  | leave e hSame hEvents hIdle hStopping hEnded hBefore hMain hRaised hFailed =>
      refine h.carry (fun v hv => ?_) hSame.rounds hSame.stop (fun hPc => ?_) (fun exit hPc => ?_)
        (by simp [hMain])
      · rw [hSame.workers] at hv ⊢
        exact hSelf v hv
      · simp [hPc, MainPc.running] at hIdle
      · simp [hPc, MainPc.stopping] at hStopping
  | terminate w e hPc hLater hEq =>
      subst hEq
      exact h.carry hSelf rfl rfl (by simp [hPc]) (by simp [hPc]) (by simp)
  | spawn w hPc hEq =>
      subst hEq
      exact h.carry (fun v => setWorker (by simp)) rfl rfl (by simp [hPc]) (by simp [hPc])
        (not_blocked (running_spawnFrom _))
  | startRound group hPc hEq =>
      subst hEq
      refine ⟨fun w _ => .inr rfl, fun w hw => ?_, by simp [State.startRound]⟩
      apply (h.told w hw).imp_right
      rintro ⟨exit, hMain⟩
      simp [hPc] at hMain
  | notifyStart hPc hEq =>
      subst hEq
      have hNobody (w : Fin n) : (State.wakeWorkers (s.workers w)).pc ≠ .waiting :=
        fun hw => (wakeWorkers_pc hw (by simp)).2 rfl
      exact ⟨fun w hw => absurd hw (hNobody w), fun w hw => absurd hw (hNobody w), by simp⟩
  | allDone hPc hAll hEq =>
      subst hEq
      exact h.carry hSelf rfl rfl (by simp [hPc]) (by simp [hPc]) (by simp)
  | blockDone hPc hSome hEq =>
      subst hEq
      exact h.carry hSelf rfl rfl (by simp [hPc]) (by simp [hPc]) fun _ => .inl hSome
  | setStop exit hPc hEq =>
      subst hEq
      refine ⟨fun w hw => ?_, fun w _ => .inr ⟨exit, rfl⟩, by simp⟩
      exact .inl ((h.started w hw).resolve_right (by simp [hPc]))
  | notifyStop exit hPc hEq =>
      subst hEq
      have hNobody (w : Fin n) : (State.wakeWorkers (s.workers w)).pc ≠ .waiting :=
        fun hw => (wakeWorkers_pc hw (by simp)).2 rfl
      exact ⟨fun w hw => absurd hw (hNobody w), fun w hw => absurd hw (hNobody w),
        not_blocked (running_joinFrom exit 0)⟩
  | join exit w hPc hExited hEq =>
      subst hEq
      exact h.carry (fun v => setWorker (by simp [hExited])) rfl rfl (by simp [hPc]) (by simp [hPc])
        (not_blocked (running_joinFrom exit _))

theorem spuriousStep (h : Awake s) (hStep : SpuriousStep s s') : Awake s' := by
  cases hStep with
  | main hPc =>
      exact h.carry (fun w hw => ⟨hw, rfl⟩) rfl rfl (by simp [hPc]) (by simp [hPc]) (by simp)
  | worker w hPc =>
      exact h.carry (fun v => setWorker (by simp)) rfl rfl id (fun _ => id)
        fun hMain => (h.done hMain).imp_right (still_notifying (by simp [hPc]))

theorem of_initial (h : Initial s) : Awake s where
  started := fun w hw => by simp [h.workers] at hw
  told := fun w hw => by simp [h.workers] at hw
  done := fun hMain => by simp [h.main] at hMain

theorem reachable (h : (runConcurrent params n).Reachable s) : Awake s := by
  apply h.invariant (fun s => of_initial)
  intro s s' hReachable hInv hStep
  obtain ⟨hLinked, hBarrier⟩ := reachable_linked hReachable
  cases hStep with
  | main hStep => exact hInv.mainStep hStep
  | worker w hStep => exact hInv.workerStep hLinked hBarrier hStep
  | spurious hStep => exact hInv.spuriousStep hStep

end Awake

section Enabled
variable {s : State S n}

/-- Every thread that is started, not waiting and not done has a step. -/
theorem worker_enabled (params : Params S) {w : Fin n} (hStarted : (s.workers w).pc ≠ .absent)
    (hAwake : (s.workers w).pc ≠ .waiting) (hRunning : (s.workers w).pc ≠ .exited) :
    ∃ s', WorkerStep params w s s' := by
  cases hPc : (s.workers w).pc with
  | absent => exact absurd hPc hStarted
  | check =>
      by_cases hStop : s.stop = true
      · exact ⟨_, .stop hPc hStop⟩
      · by_cases hRound : s.roundNumber = (s.workers w).observedRoundNumber
        · exact ⟨_, .wait hPc (by simpa using hStop) hRound⟩
        · exact ⟨_, .enter hPc (by simpa using hStop) hRound⟩
  | waiting => exact absurd hPc hAwake
  | nextRule => exact ⟨_, .nextRuleDone hPc⟩
  | inRule index => exact ⟨_, .ruleReturns index hPc⟩
  | store event => exact ⟨_, .store event hPc⟩
  | notify => exact ⟨_, .notifyDone hPc⟩
  | exited => exact absurd hPc hRunning

/-- The main thread has a step, unless it waits for the workers or has ended. -/
theorem main_enabled (h : Bounded params s) (hBlocked : s.main ≠ .blockedDone)
    (hJoin : ∀ exit w, s.main ≠ .join exit w) (hEnded : s.main.ended = false) :
    ∃ s', MainStep params s s' := by
  cases hPc : s.main with
  | create =>
      cases hError : params.argumentError with
      | none => exact ⟨_, .createFails (runtimeError "") hPc hError⟩
      | some e => exact ⟨_, .rejectArguments e hPc hError⟩
  | check phase index =>
      rw [Bounded, hPc] at h
      have hInvariant : params.invariants[index]? = some params.invariants[index] :=
        List.getElem?_eq_getElem h
      cases hCheck : params.invariants[index].check s.memory with
      | none => exact ⟨_, .evaluate phase index _ hPc hInvariant hCheck⟩
      | some e => exact ⟨_, .violate phase index _ e hPc hInvariant hCheck⟩
  | sample index => exact ⟨_, .sample index true hPc⟩
  | spawn w =>
      rw [Bounded, hPc] at h
      exact ⟨_, .spawn ⟨w, h⟩ hPc⟩
  | nextGroup => exact ⟨_, .nextGroupDone hPc⟩
  | startRound group => exact ⟨_, .startRound group hPc⟩
  | notifyStart => exact ⟨_, .notifyStart hPc⟩
  | waitDone =>
      by_cases hAll : s.numWorkersCompleted = n
      · exact ⟨_, .allDone hPc hAll⟩
      · exact ⟨_, .blockDone hPc hAll⟩
  | blockedDone => exact absurd hPc hBlocked
  | scan =>
      cases hOutcome : roundOutcome s.events with
      | none => exact ⟨_, .scan hPc hOutcome⟩
      | some e => exact ⟨_, .scanRaises e hPc hOutcome⟩
  | setStop exit => exact ⟨_, .setStop exit hPc⟩
  | notifyStop exit => exact ⟨_, .notifyStop exit hPc⟩
  | join exit w => exact absurd hPc (hJoin exit w)
  | finished exit => simp [hPc, MainPc.ended] at hEnded
  | terminated => simp [hPc, MainPc.ended] at hEnded

/-- While the main thread waits for the round to end, some worker is behind. -/
theorem Linked.behind (h : Linked s) (hRunning : s.main.running = true)
    (hSome : s.numWorkersCompleted ≠ n) : ∃ w, (s.workers w).left ≠ s.rounds := by
  by_contra hNobody
  have hAll : ∀ w, (s.workers w).left = s.rounds := by simpa using hNobody
  refine hSome ((h.completed hRunning).trans ?_)
  simp [leftCount, hAll]

/-- The main thread waits for the end of the round: a worker has a step. -/
theorem blockedDone_enabled (h : (runConcurrent params n).Reachable s)
    (hPc : s.main = .blockedDone) : ∃ w s', WorkerStep params w s s' := by
  obtain ⟨hLinked, hBarrier⟩ := reachable_linked h
  have hAwake := Awake.reachable h
  rcases hAwake.done hPc with hSome | ⟨w, hNotify⟩
  · obtain ⟨w, hBehind⟩ := hLinked.behind (by rw [hPc]; rfl) hSome
    refine ⟨w, worker_enabled params (fun hAbsent => ?_) (fun hWaits => ?_) fun hExited => ?_⟩
    · exact hLinked.present (by rw [hPc]; rfl) (by rw [hPc]; rfl) hAbsent
    · have hEntered := (hAwake.started w hWaits).resolve_right (by simp [hPc])
      have hInside := (hLinked.workers w).inRound.mpr (hEntered ▸ hBehind)
      simp [hWaits, WorkerPc.inRound] at hInside
    · have hOpen := hLinked.isOpen (by rw [hPc]; rfl) (by rw [hPc]; rfl)
      simp [(hLinked.workers w).exited hExited] at hOpen
  · exact ⟨w, worker_enabled params (by simp [hNotify]) (by simp [hNotify]) (by simp [hNotify])⟩

/-- The main thread joins a worker: it can, or the worker has a step. -/
theorem join_enabled (h : (runConcurrent params n).Reachable s) {exit : Option Exn} {w : Fin n}
    (hPc : s.main = .join exit w) :
    (∃ s', MainStep params s s') ∨ ∃ w s', WorkerStep params w s s' := by
  obtain ⟨hLinked, hBarrier⟩ := reachable_linked h
  by_cases hExited : (s.workers w).pc = .exited
  · exact .inl ⟨_, .join exit w hPc hExited⟩
  · refine .inr ⟨w, worker_enabled params (fun hAbsent => ?_) (fun hWaits => ?_) hExited⟩
    · exact hLinked.present (by rw [hPc]; rfl) (by rw [hPc]; rfl) hAbsent
    · rcases (Awake.reachable h).told w hWaits with hOpen | ⟨exit', hMain⟩
      · simp [hLinked.stopping (by rw [hPc]; rfl)] at hOpen
      · simp [hPc] at hMain

end Enabled

/-- Either all workers were started or none, once `run_concurrent` has ended. -/
def Whole (s : State S n) : Prop :=
  ∀ exit, s.main = .finished exit →
    (∀ w, (s.workers w).pc ≠ .absent) ∨ ∀ w, (s.workers w).pc = .absent

namespace Whole

variable {s s' : State S n}

theorem of_not_over (h : s.main.ended = false) : Whole s := by
  intro exit hMain
  simp [hMain, MainPc.ended] at h

/-- The main thread joins workers only after it has started all of them. -/
theorem of_joinFrom (hLinked : Linked s) (hStopping : s.main.stopping = true)
    (hAbsent : ∀ w, (s'.workers w).pc = .absent → (s.workers w).pc = .absent) : Whole s' := by
  refine fun exit _ => .inl fun w hw => ?_
  have hBefore := hLinked.absent w (hAbsent w hw)
  cases hPc : s.main <;> simp [hPc, MainPc.stopping, MainPc.before, MainPc.ended] at hBefore hStopping

theorem mainStep (hLinked : Linked s) (hEnding : Ending s) (hStep : MainStep params s s') :
    Whole s' := by
  cases hStep.effect with
  | quiet hSame hEvents hMain hFailed hRaised => exact of_not_over hMain.ended'
  | leave e hSame hEvents hIdle hStopping hEnded hBefore hMain hRaised hFailed =>
      refine fun _ _ => .inr fun w => ?_
      rw [hSame.workers]
      exact hEnding.fresh w (hBefore w w.isLt)
  | terminate w e hPc hLater hEq =>
      subst hEq
      exact fun exit hMain => by cases hMain
  | spawn w hPc hEq =>
      subst hEq
      exact of_not_over (ended_spawnFrom _)
  | startRound group hPc hEq => exact of_not_over (by rw [hEq]; rfl)
  | notifyStart hPc hEq => exact of_not_over (by rw [hEq]; rfl)
  | allDone hPc hAll hEq => exact of_not_over (by rw [hEq]; rfl)
  | blockDone hPc hSome hEq => exact of_not_over (by rw [hEq]; rfl)
  | setStop exit hPc hEq => exact of_not_over (by rw [hEq]; rfl)
  | notifyStop exit hPc hEq =>
      subst hEq
      exact of_joinFrom hLinked (by rw [hPc]; rfl) fun w hw => (wakeWorkers_pc hw (by simp)).1
  | join exit w hPc hExited hEq =>
      subst hEq
      exact of_joinFrom hLinked (by rw [hPc]; rfl)
        fun v hv => (setWorker_absent (by simp [hExited]) hv).2

theorem workerStep (h : Whole s) {w : Fin n} (hFrame : WorkerFrame w s s')
    (hStarted : (s.workers w).pc ≠ .absent) : Whole s' := by
  intro exit hMain
  have hOld : s.main = .finished exit := by
    rcases hFrame.main with hSame | ⟨_, hWait⟩
    · rw [← hSame, hMain]
    · simp [hWait] at hMain
  refine .inl fun v => ?_
  by_cases hv : v = w
  · exact hv ▸ hFrame.present
  · rw [hFrame.others v hv]
    exact (h exit hOld).resolve_right (fun hNone => hStarted (hNone w)) v

theorem reachable (h : (runConcurrent params n).Reachable s) : Whole s := by
  refine h.invariant (fun s hInit => of_not_over (by rw [hInit.main]; rfl))
    fun s s' hReachable hInv hStep => ?_
  cases hStep with
  | main hStep => exact mainStep (reachable_linked hReachable).1 (Ending.reachable hReachable) hStep
  | worker w hStep => exact hInv.workerStep hStep.frame hStep.active.1
  | spurious hStep =>
      cases hStep with
      | main hPc => exact of_not_over rfl
      | worker w hPc =>
          exact hInv.workerStep (.setPc (by simp)) (by simp [hPc])

end Whole

/-- Until `run_concurrent` has ended some thread has a step that needs no
spurious wake-up; once it has ended all workers have exited, if any was started. -/
structure Unstuck (params : Params S) (s : State S n) : Prop where
  enabled : (∀ exit, s.main ≠ .finished exit) →
    (∃ s', MainStep params s s') ∨ ∃ w s', WorkerStep params w s s'
  exited : ∀ exit, s.main = .finished exit →
    (∀ w, (s.workers w).pc = .exited) ∨ ∀ w, (s.workers w).pc = .absent

/-- No thread is ever lost, and all workers have exited in the end. -/
theorem runConcurrent_progress {s : State S n} (h : (runConcurrent params n).Reachable s)
    (hStarted : s.startFailed = none) : Unstuck params s := by
  have hBounded := reachable_bounded h
  have hClean := CleanExit.of_startFailed h (by simp [hStarted])
  constructor
  · intro hLive
    by_cases hBlocked : s.main = .blockedDone
    · exact .inr (blockedDone_enabled h hBlocked)
    by_cases hJoin : ∃ exit w, s.main = .join exit w
    · obtain ⟨exit, w, hPc⟩ := hJoin
      rw [Bounded, hPc] at hBounded
      exact join_enabled (w := ⟨w, hBounded⟩) h hPc
    · refine .inl (main_enabled hBounded hBlocked (by simpa using hJoin) ?_)
      cases hPc : s.main with
      | finished exit => exact absurd hPc (hLive exit)
      | terminated => exact absurd hPc hClean.alive
      | _ => rfl
  · intro exit hMain
    exact (Whole.reachable h exit hMain).imp_left fun hAll w =>
      ((hClean.finished exit hMain).2 w (hAll w)).2.1

/-- The main thread waits and both workers run. -/
theorem counter_progress : ∃ s : State Nat 2, s.main = .blockedDone ∧
    (∀ w, (s.workers w).pc = .inRule 0) ∧ Unstuck counter s := by
  obtain ⟨s, hReachable, hPc, hMain, _, hStarted⟩ := counter_inRule
  exact ⟨s, hMain, hPc, runConcurrent_progress hReachable hStarted⟩

end Hegel.Concurrent
