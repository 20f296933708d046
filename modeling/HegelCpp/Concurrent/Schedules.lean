import HegelCpp.Concurrent.Output
import HegelCpp.Report.Grouping

/-! The report of a concurrent test case does not depend on how its workers took
turns: it shows what the main thread said and, behind the header of each round,
what each worker said in that round. -/
namespace Hegel

open Logic

/-- The line was emitted by some worker in the round `k`. -/
def WorkerOutputLine.inRound (k : Nat) (line : WorkerOutputLine) : Bool :=
  match line.emitter with
  | .worker _ round _ => decide (round = k)
  | _ => false

/-- What is shown behind a line of the main thread: a round, if the line ends its
header. -/
def shownBehind (rounds : Nat → List String) (line : WorkerOutputLine)
    (rest : List WorkerOutputLine) : List String :=
  match line.emitter with
  | .header k => if rest.head?.map (·.emitter) = some (.header k) then [] else rounds k
  | _ => []

/-- The lines of the main thread, with the rounds in their places. -/
def arranged (rounds : Nat → List String) : List WorkerOutputLine → List String
  | [] => []
  | line :: rest => line.text :: (shownBehind rounds line rest ++ arranged rounds rest)

section Arranged

variable (rounds : Nat → List String) {lines new header : List WorkerOutputLine} {k : Nat}

/-- A header that goes on may not be cut. -/
theorem arranged_append
    (hApart : ∀ line, lines.getLast? = some line → ∀ k, line.emitter = .header k →
      new.head?.map (·.emitter) ≠ some (.header k)) :
    arranged rounds (lines ++ new) = arranged rounds lines ++ arranged rounds new := by
  induction lines with
  | nil => rfl
  | cons line lines ih =>
      cases lines with
      | nil =>
          have hBehind : shownBehind rounds line new = shownBehind rounds line [] := by
            unfold shownBehind
            cases hEmitter : line.emitter with
            | header k => simp [hApart line rfl k hEmitter]
            | _ => rfl
          simp [arranged, hBehind]
      | cons next lines =>
          have hBehind : shownBehind rounds line (next :: lines ++ new) =
              shownBehind rounds line (next :: lines) := rfl
          have hRest := ih fun last hLast => hApart last (by simpa using hLast)
          rw [List.cons_append, arranged, hBehind, hRest, ← List.append_assoc, ← List.cons_append]
          rfl

theorem arranged_main (hNew : ∀ line ∈ new, line.emitter = .main) :
    arranged rounds new = new.map (·.text) := by
  induction new with
  | nil => rfl
  | cons line new ih =>
      obtain ⟨hLine, hNew⟩ := List.forall_mem_cons.mp hNew
      simp [arranged, shownBehind, hLine, ih hNew]

theorem arranged_header (hHeader : ∀ line ∈ header, line.emitter = .header k)
    (hSome : header ≠ []) : arranged rounds header = header.map (·.text) ++ rounds k := by
  induction header with
  | nil => exact absurd rfl hSome
  | cons line header ih =>
      obtain ⟨hLine, hHeader⟩ := List.forall_mem_cons.mp hHeader
      cases header with
      | nil => simp [arranged, shownBehind, hLine]
      | cons next header =>
          rw [arranged, ih hHeader (List.cons_ne_nil _ _)]
          simp [shownBehind, hLine, hHeader next List.mem_cons_self]

end Arranged

namespace Layout

variable {logs running : Bool} {k : Nat} {lines : List WorkerOutputLine}

/-- No header belongs to a round that has not begun. -/
theorem header_le (h : Layout logs running k lines) {line : WorkerOutputLine}
    (hMem : line ∈ lines) {j : Nat} (hEmitter : line.emitter = .header j) : j ≤ k := by
  induction h with
  | nil => cases hMem
  | main h hNew ih =>
      rcases List.mem_append.mp hMem with hOld | hMem
      · exact ih hOld
      · rw [hNew line hMem] at hEmitter
        cases hEmitter
  | round running h hHeader hRound hLogs ih =>
      rcases List.mem_append.mp hMem with hMem | hMem
      · rcases List.mem_append.mp hMem with hOld | hMem
        · exact Nat.le_succ_of_le (ih hOld)
        · rw [hHeader line hMem] at hEmitter
          exact (Emitter.header.inj hEmitter).ge
      · obtain ⟨w, depth, hWorker⟩ := hRound line hMem
        rw [hWorker] at hEmitter
        cases hEmitter

/-- A round that has not begun has no lines. -/
theorem filter_inRound (h : Layout logs running k lines) {j : Nat} (hLater : k < j) :
    lines.filter (·.inRound j) = [] := by
  rw [List.filter_eq_nil_iff]
  intro line hMem hRound
  cases hEmitter : line.emitter with
  | worker w round depth =>
      have hFrom : line.isFrom w j = true := by
        simpa [WorkerOutputLine.isFrom, WorkerOutputLine.inRound, hEmitter] using hRound
      exact absurd (h.round_le hMem hFrom) (Nat.not_le_of_lt hLater)
  | _ => simp [WorkerOutputLine.inRound, hEmitter] at hRound

/-- What a concurrent test case reports. -/
theorem grouped (h : Layout logs running k lines) (hLogs : logs = true)
    (hLabelled : ∀ line ∈ lines, Labelled line)
    (hOwn : ∀ line ∈ lines, ∀ w j depth, line.emitter = .worker w j depth → depth = 0)
    {rounds : Nat → List String} (hRounds : ∀ j ≤ k, rounds j =
      (groupedWorkerLines (lines.filter (·.inRound j))).map (·.text)) :
    groupConcurrentOutput lines = arranged rounds (lines.filter (·.isMain)) := by
  induction h with
  | nil => simp [groupConcurrentOutput, arranged]
  | @main k lines new h hNew ih =>
      obtain ⟨hLabelled, hLabelledNew⟩ := List.forall_mem_append.mp hLabelled
      have hMain : ∀ line ∈ new, line.isMain = true := fun line hMem => by
        simp [WorkerOutputLine.isMain, hNew line hMem]
      have hNone : ∀ line ∈ new, line.worker = none := fun line hMem =>
        ((hLabelledNew line hMem).of_isMain (hMain line hMem)).1
      have hOutside (j : Nat) : new.filter (·.inRound j) = [] :=
        List.filter_eq_nil_iff.mpr fun line hMem => by
          simp [WorkerOutputLine.inRound, hNew line hMem]
      have hBefore := ih hLabelled (List.forall_mem_append.mp hOwn).1 fun j hj => by
        rw [hRounds j hj, List.filter_append, hOutside, List.append_nil]
      have hGroup := groupRecords_main lines [] hNone fun _ => rfl
      rw [List.append_nil, groupRecords_nil, List.append_nil] at hGroup
      rw [groupConcurrentOutput] at hBefore ⊢
      rw [hGroup, List.map_append, hBefore, List.filter_append, List.filter_eq_self.mpr hMain,
        arranged_append, arranged_main rounds hNew]
      intro line _ j _ hHead
      obtain ⟨first, hFirst, hEmitter⟩ := Option.map_eq_some_iff.mp hHead
      rw [hNew first (List.mem_of_head? hFirst)] at hEmitter
      cases hEmitter
  | @round k front header round running h hHeader hRound hHeaders ih =>
      obtain ⟨hLabelledFront, hLabelledRound⟩ := List.forall_mem_append.mp hLabelled
      obtain ⟨hLabelledFront, hLabelledHeader⟩ := List.forall_mem_append.mp hLabelledFront
      obtain ⟨hOwnFront, hOwnRound⟩ := List.forall_mem_append.mp hOwn
      have hSome : header ≠ [] := hHeaders hLogs
      have hMain : ∀ line ∈ header, line.isMain = true := fun line hMem => by
        simp [WorkerOutputLine.isMain, hHeader line hMem]
      have hNone : ∀ line ∈ header, line.worker = none := fun line hMem =>
        ((hLabelledHeader line hMem).of_isMain (hMain line hMem)).1
      have hWorkers : ∀ line ∈ round, line.worker ≠ none ∧ line.isMain = false ∧
          ∀ j, line.inRound j = decide (k + 1 = j) := by
        intro line hMem
        obtain ⟨v, depth, hEmitter⟩ := hRound line hMem
        have hLine := hLabelledRound line hMem
        have hDepth := hOwnRound line hMem v (k + 1) depth hEmitter
        refine ⟨?_, by simp [WorkerOutputLine.isMain, hEmitter],
          fun j => by simp [WorkerOutputLine.inRound, hEmitter]⟩
        simp [Labelled, hEmitter, hDepth] at hLine
        simp [hLine]
      have hOutside (j : Nat) : header.filter (·.inRound j) = [] :=
        List.filter_eq_nil_iff.mpr fun line hMem => by
          simp [WorkerOutputLine.inRound, hHeader line hMem]
      have hKept (j : Nat) (hEarlier : j ≤ k) : round.filter (·.inRound j) = [] :=
        List.filter_eq_nil_iff.mpr fun line hMem => by
          rw [(hWorkers line hMem).2.2 j, decide_eq_true_iff]
          omega
      have hBefore := ih hLabelledFront (List.forall_mem_append.mp hOwnFront).1 fun j hj => by
        rw [hRounds j (Nat.le_succ_of_le hj), List.filter_append, List.filter_append, hOutside,
          hKept j hj, List.append_nil, List.append_nil]
      have hLast : rounds (k + 1) = (groupedWorkerLines round).map (·.text) := by
        have hAll : round.filter (·.inRound (k + 1)) = round :=
          List.filter_eq_self.mpr fun line hMem => by simp [(hWorkers line hMem).2.2]
        rw [hRounds (k + 1) (Nat.le_refl _), List.filter_append, List.filter_append, hOutside, hAll,
          h.filter_inRound (Nat.lt_succ_self k), List.nil_append, List.nil_append]
      have hNotMain : round.filter (·.isMain) = [] :=
        List.filter_eq_nil_iff.mpr fun line hMem => by simp [(hWorkers line hMem).2.1]
      have hGroup := groupRecords_main front round hNone fun hNil => absurd hNil hSome
      rw [groupRecords_round fun line hMem => (hWorkers line hMem).1] at hGroup
      rw [groupConcurrentOutput] at hBefore ⊢
      rw [hGroup, List.map_append, List.map_append, hBefore, ← hLast, List.filter_append,
        List.filter_append, List.filter_eq_self.mpr hMain, hNotMain, List.append_nil,
        arranged_append, arranged_header rounds hHeader hSome, List.append_assoc]
      intro line hEnd j hEmitter hHead
      obtain ⟨first, hFirst, hNext⟩ := Option.map_eq_some_iff.mp hHead
      rw [hHeader first (List.mem_of_head? hFirst)] at hNext
      have hMem := (List.mem_filter.mp (List.mem_of_getLast? hEnd)).1
      have hLe := h.header_le hMem hEmitter
      have hSame := Emitter.header.inj hNext
      omega

end Layout

namespace Concurrent

variable {S : Type} {n : Nat} {params : Params S}

/-- Every line of a worker came through its own handle. -/
def OwnHandles (lines : List WorkerOutputLine) : Prop :=
  ∀ line ∈ lines, ∀ w k depth, line.emitter = .worker w k depth → depth = 0

/-- The workers' lines of a round. -/
def roundTexts (lines : List WorkerOutputLine) (k : Nat) : List String :=
  (groupedWorkerLines (lines.filter (·.inRound k))).map (·.text)

theorem report_eq {s : State S n} (h : (runConcurrent params n).Reachable s)
    (hRoot : params.root.workerIndex = none) (hOwn : OwnHandles s.outputLines) :
    groupConcurrentOutput s.outputLines =
      arranged (roundTexts s.outputLines) (s.outputLines.filter (·.isMain)) := by
  have hReported := Reported.reachable hRoot h
  by_cases hNil : s.outputLines = []
  · simp [hNil, groupConcurrentOutput, arranged]
  · exact hReported.layout.grouped (hReported.logs hNil) hReported.labelled hOwn fun _ _ => rfl

/-- What a worker says in a round, as it is recorded. -/
theorem filter_isOf_inRound {lines : List WorkerOutputLine}
    (hLabelled : ∀ line ∈ lines, Labelled line) (hOwn : OwnHandles lines) (w k : Nat) :
    (lines.filter (·.inRound k)).filter (·.isOf w) = lines.filter (·.isFrom w k) := by
  rw [List.filter_filter]
  apply List.filter_congr
  intro line hMem
  have hLine := hLabelled line hMem
  cases hEmitter : line.emitter with
  | worker v j depth =>
      have hDepth := hOwn line hMem v j depth hEmitter
      simp [Labelled, hEmitter, hDepth] at hLine
      rw [Bool.eq_iff_iff]
      simp [WorkerOutputLine.isOf, WorkerOutputLine.inRound, WorkerOutputLine.isFrom, hEmitter,
        hLine]
  | _ => simp [WorkerOutputLine.inRound, WorkerOutputLine.isFrom, hEmitter]

/-- The lines of a round all have a worker. -/
theorem not_isSeparator {lines : List WorkerOutputLine}
    (hLabelled : ∀ line ∈ lines, Labelled line) (hOwn : OwnHandles lines) (k : Nat) :
    ∀ line ∈ lines.filter (·.inRound k), line.isSeparator = false := by
  intro line hMem
  obtain ⟨hMem, hRound⟩ := List.mem_filter.mp hMem
  have hLine := hLabelled line hMem
  cases hEmitter : line.emitter with
  | worker v j depth =>
      simp [Labelled, hEmitter, hOwn line hMem v j depth hEmitter] at hLine
      simp [WorkerOutputLine.isSeparator, hLine]
  | _ => simp [WorkerOutputLine.inRound, hEmitter] at hRound

/-- Two runs of one test in which the main thread and, round by round, each
worker said the same are reported alike, however the workers took turns. -/
theorem report_independent_of_turns {s s' : State S n}
    (h : (runConcurrent params n).Reachable s) (h' : (runConcurrent params n).Reachable s')
    (hRoot : params.root.workerIndex = none) (hOwn : OwnHandles s.outputLines)
    (hOwn' : OwnHandles s'.outputLines)
    (hMain : s.outputLines.filter (·.isMain) = s'.outputLines.filter (·.isMain))
    (hWorkers : ∀ w k, (s.outputLines.filter (·.isFrom w k)).map (·.text) =
      (s'.outputLines.filter (·.isFrom w k)).map (·.text)) :
    groupConcurrentOutput s.outputLines = groupConcurrentOutput s'.outputLines := by
  have hLabelled := (Reported.reachable hRoot h).labelled
  have hLabelled' := (Reported.reachable hRoot h').labelled
  have hRounds : roundTexts s.outputLines = roundTexts s'.outputLines := by
    funext k
    refine printed_groupedWorkerLines (not_isSeparator hLabelled hOwn k)
      (not_isSeparator hLabelled' hOwn' k) fun w => ?_
    rw [filter_isOf_inRound hLabelled hOwn, filter_isOf_inRound hLabelled' hOwn', hWorkers]
  rw [report_eq h hRoot hOwn, report_eq h' hRoot hOwn', hMain, hRounds]

/-- What a worker of the counter notes before its rule. -/
def ruleLine (w : Nat) : WorkerOutputLine :=
  ⟨some w, "[worker " ++ toString w ++ " +0ms] Rule: increment", .worker w 1 0⟩

/-- Two workers take their first rule in either order. -/
theorem counter_turns : ∃ (front : List WorkerOutputLine) (s s' : State Nat 2),
    (∀ line ∈ front, line.isMain = true) ∧
      (runConcurrent counter 2).Reachable s ∧ (runConcurrent counter 2).Reachable s' ∧
      s.outputLines = front ++ [ruleLine 0, ruleLine 1] ∧
      s'.outputLines = front ++ [ruleLine 1, ruleLine 0] := by
  have h0 : (runConcurrent counter 2).Reachable (State.start 0 2) := .init (initial_start 0 2)
  have h1 := h0.step (.main (.create rfl rfl (by decide) (by decide)))
  have h2 := h1.step (.main (.evaluate .initial 0 _ rfl rfl rfl))
  have h3 := h2.step (.main (.spawn 0 rfl))
  have h4 := h3.step (.main (.spawn 1 rfl))
  have h5 := h4.step (.main (.nextGroup 0 rfl (by decide)))
  have h6 := h5.step (.main (.startRound 0 rfl))
  have h7 := h6.step (.worker 0 (.enter rfl rfl (by decide)))
  have h8 := h7.step (.worker 1 (.enter rfl rfl (by decide)))
  have hFirst := h8.step (.worker 0 (.nextRule 0 _ rfl rfl rfl))
  have hSecond := h8.step (.worker 1 (.nextRule 0 _ rfl rfl rfl))
  refine ⟨[⟨none, "Concurrency level: 2", .main⟩, ⟨none, "Initial invariant check.", .main⟩,
      ⟨none, "---------------- Round 1: group \"writers\" ----------------", .header 1⟩], _, _,
    by decide, hFirst.step (.worker 1 (.nextRule 0 _ rfl rfl rfl)),
    hSecond.step (.worker 0 (.nextRule 0 _ rfl rfl rfl)), by decide, by decide⟩

theorem report_independent_of_turns_counter : ∃ s s' : State Nat 2,
    s.outputLines ≠ s'.outputLines ∧
      groupConcurrentOutput s.outputLines = groupConcurrentOutput s'.outputLines := by
  obtain ⟨front, s, s', hFront, h, h', hLines, hLines'⟩ := counter_turns
  have hOwn (v w : Nat) : OwnHandles (front ++ [ruleLine v, ruleLine w]) := by
    intro line hMem u k depth hEmitter
    rcases List.mem_append.mp hMem with hMem | hMem
    · simpa [WorkerOutputLine.isMain, hEmitter] using hFront line hMem
    · rcases List.mem_pair.mp hMem with rfl | rfl
      · exact (Emitter.worker.inj hEmitter).2.2.symm
      · exact (Emitter.worker.inj hEmitter).2.2.symm
  have hNotFrom (w k : Nat) : front.filter (·.isFrom w k) = [] := by
    rw [List.filter_eq_nil_iff]
    intro line hMem hFrom
    have hMain := hFront line hMem
    cases hEmitter : line.emitter <;>
      simp [WorkerOutputLine.isMain, WorkerOutputLine.isFrom, hEmitter] at hMain hFrom
  refine ⟨s, s', ?_, report_independent_of_turns h h' rfl (hLines ▸ hOwn 0 1) (hLines' ▸ hOwn 1 0)
    ?_ fun w k => ?_⟩
  · rw [hLines, hLines']
    intro hSame
    exact absurd (List.append_cancel_left hSame) (by decide)
  · rw [hLines, hLines', List.filter_append, List.filter_append]
    rfl
  · rw [hLines, hLines', List.filter_append, List.filter_append, hNotFrom]
    by_cases hFirst : 0 = w <;> by_cases hSecond : 1 = w <;> by_cases hRound : 1 = k <;>
      simp_all [ruleLine, WorkerOutputLine.isFrom]

end Concurrent
end Hegel
