import HegelCpp.Concurrent.Rounds
import HegelCpp.Report.Layout

/-! The recorded output of `run_concurrent`. The round barrier keeps the lines
of the workers between those of the main thread; whether they stay with their
worker depends on the handles they come through. -/
namespace Hegel.Concurrent

open Logic

variable {S : Type} {n : Nat} {params : Params S}

/-- What a step of the main thread does to the output. -/
inductive MainOutput (params : Params S) (s s' : State S n) : Prop where
  | silent (hLines : s'.outputLines = s.outputLines) (hRounds : s'.rounds = s.rounds)
      (hRunning : s'.main.running = true → s.main.running = true)
  | notes (new : List WorkerOutputLine) (hLines : s'.outputLines = s.outputLines ++ new)
      (hRounds : s'.rounds = s.rounds) (hIdle : s.main.running = false)
      (hIdle' : s'.main.running = false)
      (hNew : ∀ line ∈ new, ∃ text, line ∈ params.root.note "" text .main)
  | header (group : Nat) (hPc : s.main = .startRound group) (h : s' = s.startRound params group)

theorem MainStep.output {s s' : State S n} (h : MainStep params s s') : MainOutput params s s' := by
  cases h with
  | create hPc hArguments hMin hMax =>
      refine .notes _ (List.append_assoc ..) rfl (by rw [hPc]; rfl) (by simp) fun line hMem => ?_
      exact (List.mem_append.mp hMem).elim (fun hMem => ⟨_, hMem⟩) fun hMem => ⟨_, hMem⟩
  | sample index selected hPc =>
      refine .silent rfl rfl ?_
      cases selected with
      | false => simp
      | true => exact fun hRunning => by cases hRunning
  | evaluate phase index invariant hPc hInvariant hHolds => exact .silent rfl rfl (by simp)
  | violate phase index invariant e hPc hInvariant hViolated =>
      refine .notes _ rfl rfl (by rw [hPc]; rfl) ?_ fun line hMem => ⟨_, hMem⟩
      cases phase <;> rfl
  | spawn w hPc => exact .silent rfl rfl (by simp)
  | spawnFails w e hPc =>
      refine .silent rfl rfl ?_
      by_cases hw : (w : Nat) = 0 <;> simp [hw, MainPc.running]
  | nextGroupDone hPc =>
      exact .notes _ rfl rfl (by rw [hPc]; rfl) (by simp) fun line hMem => ⟨_, hMem⟩
  | startRound group hPc => exact .header group hPc rfl
  | notifyStart hPc => exact .silent rfl rfl fun _ => by rw [hPc]; rfl
  | blockDone hPc hSome => exact .silent rfl rfl fun _ => by rw [hPc]; rfl
  | scan hPc hOutcome => exact .silent rfl rfl (by simp)
  | notifyStop exit hPc => exact .silent rfl rfl (by simp)
  | join exit w hPc hExited => exact .silent rfl rfl (by simp)
  | _ => exact .silent rfl rfl fun hRunning => by cases hRunning

/-- What a step of the worker `w` does to the output. -/
inductive WorkerOutput (params : Params S) (w : Fin n) (s s' : State S n) : Prop where
  | silent (hLines : s'.outputLines = s.outputLines) (hRounds : s'.rounds = s.rounds)
  | emits (depth indent : Nat) (elapsed text : String) (hPc : (s.workers w).pc.inRound = true)
      (hRounds : s'.rounds = s.rounds)
      (hLines : s'.outputLines = s.outputLines ++
        { TestCaseData.clone^[depth] (params.workerData w) with noteIndent := indent }.note elapsed
          text (.worker w s.rounds depth))

theorem WorkerStep.output {w : Fin n} {s s' : State S n} (h : WorkerStep params w s s') :
    WorkerOutput params w s s' := by
  cases h with
  | nextRule index rule hPc hRule hGroup => exact .emits 0 _ _ _ (by rw [hPc]; rfl) rfl rfl
  | emit index depth indent message hPc => exact .emits depth indent _ _ (by rw [hPc]; rfl) rfl rfl
  | ruleRejects index hPc => exact .emits 0 _ _ _ (by rw [hPc]; rfl) rfl rfl
  | _ => exact .silent rfl rfl

/-- The lines lie in rounds, and each is labelled after the handle it came
through. -/
structure Reported (params : Params S) (s : State S n) : Prop where
  layout : Layout params.root.records s.main.running s.rounds s.outputLines
  labelled : ∀ line ∈ s.outputLines, Labelled line
  logs : s.outputLines ≠ [] → params.root.records = true

section Handles

/-- A line that a worker emits. -/
theorem worker_note {w depth indent round : Nat} {elapsed text : String} {line : WorkerOutputLine}
    (h : line ∈ { TestCaseData.clone^[depth] (params.workerData w) with
      noteIndent := indent }.note elapsed text (.worker w round depth)) :
    Labelled line ∧ line.emitter = .worker w round depth ∧ params.root.records = true := by
  obtain ⟨hWorker, hEmitter, hRecords⟩ := TestCaseData.of_mem_note h
  have hIndex : (TestCaseData.clone^[depth] (params.workerData w)).workerIndex =
      if depth = 0 then (params.workerData w).workerIndex else none :=
    TestCaseData.workerIndex_iterate depth
  have hSame : (TestCaseData.clone^[depth] (params.workerData w)).records =
      (params.workerData w).records := TestCaseData.records_iterate depth
  have hOwn : (params.workerData w).workerIndex = some w := rfl
  refine ⟨?_, hEmitter, ?_⟩
  · rw [hOwn] at hIndex
    simp only [Labelled, hEmitter]
    rw [hWorker, hIndex]
  · exact hSame.symm.trans hRecords

/-- A line that the main thread emits. -/
theorem root_note (hRoot : params.root.workerIndex = none) {text : String} {emitter : Emitter}
    {line : WorkerOutputLine} (h : line ∈ params.root.note "" text emitter)
    (hMain : ∀ w k depth, emitter ≠ .worker w k depth) :
    Labelled line ∧ line.emitter = emitter ∧ params.root.records = true := by
  obtain ⟨hWorker, hEmitter, hRecords⟩ := TestCaseData.of_mem_note h
  refine ⟨?_, hEmitter, hRecords⟩
  unfold Labelled
  rw [hEmitter, hWorker, hRoot]
  cases emitter with
  | main => rfl
  | header round => rfl
  | worker w k depth => exact absurd rfl (hMain w k depth)

end Handles

namespace Reported

variable {s s' : State S n}

/-- New lines, all recorded. -/
theorem append (h : Reported params s) {new : List WorkerOutputLine}
    (hLines : s'.outputLines = s.outputLines ++ new)
    (hLayout : Layout params.root.records s'.main.running s'.rounds (s.outputLines ++ new))
    (hNew : ∀ line ∈ new, Labelled line ∧ params.root.records = true) : Reported params s' := by
  refine ⟨hLines ▸ hLayout, ?_, fun hSome => ?_⟩
  · rw [hLines]
    exact List.forall_mem_append.mpr ⟨h.labelled, fun line hMem => (hNew line hMem).1⟩
  · obtain ⟨line, hMem⟩ := List.exists_mem_of_ne_nil _ hSome
    rw [hLines] at hMem
    rcases List.mem_append.mp hMem with hOld | hMem
    · exact h.logs (List.ne_nil_of_mem hOld)
    · exact (hNew line hMem).2

theorem mainStep (h : Reported params s) (hRoot : params.root.workerIndex = none)
    (hStep : MainStep params s s') : Reported params s' := by
  cases hStep.output with
  | silent hLines hRounds hRunning =>
      refine ⟨?_, hLines ▸ h.labelled, hLines ▸ h.logs⟩
      rw [hLines, hRounds]
      cases hRun : s'.main.running with
      | true => exact hRunning hRun ▸ h.layout
      | false => exact h.layout.finish
  | notes new hLines hRounds hIdle hIdle' hNew =>
      have hNew : ∀ line ∈ new, Labelled line ∧ line.emitter = .main ∧
          params.root.records = true := by
        intro line hMem
        obtain ⟨text, hNote⟩ := hNew line hMem
        exact root_note hRoot hNote (by simp)
      refine h.append hLines ?_ fun line hMem => ⟨(hNew line hMem).1, (hNew line hMem).2.2⟩
      rw [hRounds, hIdle']
      exact .main (hIdle ▸ h.layout) fun line hMem => (hNew line hMem).2.1
  | header group hPc hEq =>
      subst hEq
      have hHeader (line : WorkerOutputLine) (hMem : line ∈ params.root.note "" (State.header params
          group (s.roundNumber + 1)) (.header (s.rounds + 1))) := root_note hRoot hMem (by simp)
      refine h.append rfl ?_ fun line hMem => ⟨(hHeader line hMem).1, (hHeader line hMem).2.2⟩
      have hIdle : s.main.running = false := by rw [hPc]; rfl
      have hLayout : Layout params.root.records false s.rounds s.outputLines := hIdle ▸ h.layout
      exact hLayout.start (fun line hMem => (hHeader line hMem).2.1) TestCaseData.note_ne_nil

theorem workerStep (h : Reported params s) (hReachable : (runConcurrent params n).Reachable s)
    {w : Fin n} (hStep : WorkerStep params w s s') : Reported params s' := by
  have hRunning : s'.main.running = s.main.running := by
    rcases hStep.frame.main with hMain | ⟨hMain, hMain'⟩
    · rw [hMain]
    · rw [hMain, hMain']
      rfl
  cases hStep.output with
  | silent hLines hRounds =>
      refine ⟨?_, hLines ▸ h.labelled, hLines ▸ h.logs⟩
      rw [hLines, hRounds, hRunning]
      exact h.layout
  | emits depth indent elapsed text hPc hRounds hLines =>
      refine h.append hLines ?_ fun line hMem =>
        ⟨(worker_note hMem).1, (worker_note hMem).2.2⟩
      obtain ⟨hLinked, hBarrier⟩ := reachable_linked hReachable
      have hRun : s.main.running = true :=
        (hBarrier.inside ((hLinked.workers w).inRound.mp hPc)).1
      have hLayout : Layout params.root.records true s.rounds s.outputLines := hRun ▸ h.layout
      rw [hRounds, hRunning, hRun]
      exact hLayout.emit fun line hMem => (worker_note hMem).2.1

theorem reachable (hRoot : params.root.workerIndex = none)
    (h : (runConcurrent params n).Reachable s) : Reported params s := by
  refine h.invariant (fun s hInit => ?_) fun s s' hReachable hInv hStep => ?_
  · refine ⟨?_, ?_, ?_⟩
    · rw [hInit.main, hInit.rounds, hInit.outputLines]
      exact .nil
    · simp [hInit.outputLines]
    · simp [hInit.outputLines]
  · cases hStep with
    | main hStep => exact hInv.mainStep hRoot hStep
    | worker w hStep => exact hInv.workerStep hReachable hStep
    | spurious hStep =>
        cases hStep with
        | main hPc =>
            have hLayout := hInv.layout
            rw [hPc] at hLayout
            exact ⟨hLayout, hInv.labelled, hInv.logs⟩
        | worker w hPc => exact ⟨hInv.layout, hInv.labelled, hInv.logs⟩

end Reported

/-- Every line of a worker is recorded under its index, and the report shows
each worker's lines of a round together. -/
structure FiledByWorker (lines : List WorkerOutputLine) : Prop where
  attributed : ∀ line ∈ lines, ∀ w k depth, line.emitter = .worker w k depth →
    line.worker = some w
  together : ∀ w k, (∃ line ∈ lines, line.isFrom w k = true) → Together lines w k

/-- The lines stay with their workers exactly when none came through a clone. -/
theorem filedByWorker_iff {s : State S n} (h : (runConcurrent params n).Reachable s)
    (hRoot : params.root.workerIndex = none) :
    FiledByWorker s.outputLines ↔ ∀ line ∈ s.outputLines, ∀ w k depth,
      line.emitter = .worker w k depth → depth = 0 := by
  have hReported := Reported.reachable hRoot h
  constructor
  · intro hFiled line hMem w k depth hEmitter
    by_contra hDepth
    have hLabelled := hReported.labelled line hMem
    have hWorker := hFiled.attributed line hMem w k depth hEmitter
    simp [Labelled, hEmitter, hDepth, hWorker] at hLabelled
  · intro hOwn
    refine ⟨fun line hMem w k depth hEmitter => ?_, ?_⟩
    · have hLabelled := hReported.labelled line hMem
      simpa [Labelled, hEmitter, hOwn line hMem w k depth hEmitter] using hLabelled
    · rintro w k ⟨line, hMem, hFrom⟩
      exact hReported.layout.together (hReported.logs (List.ne_nil_of_mem hMem))
        hReported.labelled hOwn hMem hFrom

/-- A rule of the first worker notes through a clone of its handle. -/
theorem counter_emitsThroughClone : ∃ s : State Nat 2, (runConcurrent counter 2).Reachable s ∧
    ∃ line ∈ s.outputLines, line.emitter = .worker 0 1 1 := by
  obtain ⟨s, hReachable, hPc, _, hRounds, _⟩ := counter_inRule
  refine ⟨_, hReachable.step (.worker 0 (.emit 0 1 0 "through a clone" (hPc 0))), ?_⟩
  obtain ⟨line, hMem⟩ := List.exists_mem_of_ne_nil
    ({ TestCaseData.clone (counter.workerData 0) with noteIndent := 0 }.note
      (counter.elapsed s.outputLines.length) "through a clone" (.worker 0 s.rounds 1))
    (TestCaseData.note_ne_nil rfl)
  refine ⟨line, List.mem_append_right _ hMem, ?_⟩
  rw [(TestCaseData.of_mem_note hMem).2.1, hRounds]

theorem filedByWorker_iff_throughClone : ∃ s : State Nat 2,
    (∃ line ∈ s.outputLines, line.emitter = .worker 0 1 1) ∧
      (FiledByWorker s.outputLines ↔ ∀ line ∈ s.outputLines, ∀ w k depth,
        line.emitter = .worker w k depth → depth = 0) := by
  obtain ⟨s, hReachable, hLine⟩ := counter_emitsThroughClone
  exact ⟨s, hLine, filedByWorker_iff hReachable rfl⟩

theorem not_every_line_filed :
    ¬ ∀ s : State Nat 2, (runConcurrent counter 2).Reachable s → FiledByWorker s.outputLines := by
  intro hFiled
  obtain ⟨s, hReachable, line, hMem, hEmitter⟩ := counter_emitsThroughClone
  have hLabelled := (Reported.reachable rfl hReachable).labelled line hMem
  have hWorker := (hFiled s hReachable).attributed line hMem 0 1 1 hEmitter
  simp [Labelled, hEmitter, hWorker] at hLabelled

end Hegel.Concurrent
