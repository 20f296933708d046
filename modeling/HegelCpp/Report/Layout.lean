import HegelCpp.Report.Output

/-! How the recorded lines of a concurrent test case lie in the report. The
main thread speaks between the rounds, the workers within them. -/
namespace Hegel

open Logic

/-- The line was emitted by the worker `w` in the round `k`. -/
def WorkerOutputLine.isFrom (w k : Nat) (line : WorkerOutputLine) : Bool :=
  match line.emitter with
  | .worker worker round _ => decide (worker = w ∧ round = k)
  | _ => false

/-- The line was emitted by the main thread. -/
def WorkerOutputLine.isMain (line : WorkerOutputLine) : Bool :=
  match line.emitter with
  | .worker _ _ _ => false
  | _ => true

/-- The lines of `k` rounds, the last of which may be `running`. Every round has
a header if lines are recorded at all. -/
inductive Layout (logs : Bool) : Bool → Nat → List WorkerOutputLine → Prop where
  | nil : Layout logs false 0 []
  | main {k : Nat} {lines new : List WorkerOutputLine} (h : Layout logs false k lines)
      (hNew : ∀ line ∈ new, line.emitter = .main) : Layout logs false k (lines ++ new)
  | round {k : Nat} {front header round : List WorkerOutputLine} (running : Bool)
      (h : Layout logs false k front) (hHeader : ∀ line ∈ header, line.emitter = .header (k + 1))
      (hRound : ∀ line ∈ round, ∃ w depth, line.emitter = .worker w (k + 1) depth)
      (hLogs : logs = true → header ≠ []) : Layout logs running (k + 1) (front ++ header ++ round)

/-- What a line records of its emitter: a clone of a worker's handle has lost
the worker's index. -/
def Labelled (line : WorkerOutputLine) : Prop :=
  match line.emitter with
  | .worker w _ depth => line.worker = if depth = 0 then some w else none
  | _ => line.worker = none

/-- The lines of the worker `w` in the round `k` stand together in the grouped
output, in the order they were emitted. Between the header of the round and the
next line of the main thread there are only lines of the same round. -/
def Together (lines : List WorkerOutputLine) (w k : Nat) : Prop :=
  ∃ before header below above rest,
    groupRecords lines =
      before ++ header ++ below ++ lines.filter (·.isFrom w k) ++ above ++ rest ∧
    (∀ line ∈ before ++ rest, line.isFrom w k = false) ∧
    header ≠ [] ∧ (∀ line ∈ header, line.emitter = .header k) ∧
    (∀ line ∈ below ++ above, ∃ v depth, v ≠ w ∧ line.emitter = .worker v k depth) ∧
    ∀ line, rest.head? = some line → line.isMain = true

namespace Layout

variable {logs running : Bool} {k : Nat} {lines : List WorkerOutputLine}

/-- No line belongs to a round that has not begun. -/
theorem round_le (h : Layout logs running k lines) {line : WorkerOutputLine} (hMem : line ∈ lines)
    {w j : Nat} (hFrom : line.isFrom w j = true) : j ≤ k := by
  induction h with
  | nil => cases hMem
  | main h hNew ih =>
      rcases List.mem_append.mp hMem with hOld | hMem
      · exact ih hOld
      · simp [WorkerOutputLine.isFrom, hNew line hMem] at hFrom
  | round running h hHeader hRound hLogs ih =>
      rcases List.mem_append.mp hMem with hMem | hMem
      · rcases List.mem_append.mp hMem with hOld | hMem
        · exact Nat.le_succ_of_le (ih hOld)
        · simp [WorkerOutputLine.isFrom, hHeader line hMem] at hFrom
      · obtain ⟨v, depth, hEmitter⟩ := hRound line hMem
        simp [WorkerOutputLine.isFrom, hEmitter] at hFrom
        omega

/-- The main thread starts the next round. -/
theorem start (h : Layout logs false k lines) {header : List WorkerOutputLine}
    (hHeader : ∀ line ∈ header, line.emitter = .header (k + 1))
    (hLogs : logs = true → header ≠ []) : Layout logs true (k + 1) (lines ++ header) := by
  simpa using Layout.round true h hHeader (List.forall_mem_nil _) hLogs

/-- A worker emits in the round that is running. -/
theorem emit (h : Layout logs true k lines) {new : List WorkerOutputLine} {w depth : Nat}
    (hNew : ∀ line ∈ new, line.emitter = .worker w k depth) :
    Layout logs true k (lines ++ new) := by
  cases h with
  | round _ h hHeader hRound hLogs =>
      rw [List.append_assoc]
      refine .round true h hHeader (fun line hMem => ?_) hLogs
      rcases List.mem_append.mp hMem with hOld | hMem
      · exact hRound line hOld
      · exact ⟨w, depth, hNew line hMem⟩

/-- The round has ended. -/
theorem finish (h : Layout logs running k lines) : Layout logs false k lines := by
  cases h with
  | nil => exact .nil
  | main h hNew => exact .main h hNew
  | round _ h hHeader hRound hLogs => exact .round false h hHeader hRound hLogs

end Layout

section Grouping

variable {logs running : Bool} {k : Nat} {lines : List WorkerOutputLine}

@[simp] theorem groupRecords_nil : groupRecords [] = [] := by
  simp [groupRecords, groupedWorkerLines, StableSort.sortBy]

/-- Lines of the main thread stay in front of what follows. -/
theorem groupRecords_prepend {main : List WorkerOutputLine} (rest : List WorkerOutputLine)
    (hMain : ∀ line ∈ main, line.worker = none) :
    groupRecords (main ++ rest) = main ++ groupRecords rest := by
  induction main with
  | nil => rfl
  | cons line main ih =>
      obtain ⟨hLine, hMain⟩ := List.forall_mem_cons.mp hMain
      have hSplit := groupRecords_append [] (main ++ rest) hLine
      rw [groupRecords_nil, ih hMain] at hSplit
      exact hSplit

/-- Lines of the main thread end the round before them. -/
theorem groupRecords_main (front rest : List WorkerOutputLine) {main : List WorkerOutputLine}
    (hMain : ∀ line ∈ main, line.worker = none) (hSome : main = [] → rest = []) :
    groupRecords (front ++ main ++ rest) = groupRecords front ++ main ++ groupRecords rest := by
  cases main with
  | nil => simp [hSome rfl]
  | cons line main =>
      obtain ⟨hLine, hMain⟩ := List.forall_mem_cons.mp hMain
      have hSplit := groupRecords_append front (main ++ rest) hLine
      rw [groupRecords_prepend rest hMain] at hSplit
      simpa using hSplit

/-- The workers' lines of a round, sorted: the lines of one worker stand together. -/
theorem groupedWorkerLines_split {round : List WorkerOutputLine} (w k : Nat)
    (hRound : ∀ line ∈ round, ∃ v depth, line.emitter = .worker v k depth ∧ line.worker = some v) :
    ∃ below above, groupedWorkerLines round = below ++ round.filter (·.isFrom w k) ++ above ∧
      ∀ line ∈ below ++ above, ∃ v depth, v ≠ w ∧ line.emitter = .worker v k depth := by
  have hBlock : round.filter (fun line => decide (line.key = w)) = round.filter (·.isFrom w k) := by
    apply List.filter_congr
    intro line hMem
    obtain ⟨v, depth, hEmitter, hWorker⟩ := hRound line hMem
    simp [WorkerOutputLine.key, WorkerOutputLine.isFrom, hEmitter, hWorker]
  refine ⟨_, _, (StableSort.sortBy_split WorkerOutputLine.key w round).trans (by rw [hBlock]), ?_⟩
  intro line hMem
  have hOther : line.key ≠ w ∧ line ∈ groupedWorkerLines round := by
    rcases List.mem_append.mp hMem with hMem | hMem
    · obtain ⟨hMem, hKey⟩ := List.mem_filter.mp hMem
      exact ⟨(of_decide_eq_true hKey).ne, hMem⟩
    · obtain ⟨hMem, hKey⟩ := List.mem_filter.mp hMem
      exact ⟨(of_decide_eq_true hKey).ne', hMem⟩
  obtain ⟨v, depth, hEmitter, hWorker⟩ :=
    hRound line ((StableSort.sortBy_perm _ round).mem_iff.mp hOther.2)
  refine ⟨v, depth, ?_, hEmitter⟩
  simpa [WorkerOutputLine.key, hWorker] using hOther.1

end Grouping

namespace Together

variable {logs running : Bool} {k : Nat} {lines : List WorkerOutputLine}

/-- Lines that come after the round's end do not tear it apart. -/
theorem append {new grouped : List WorkerOutputLine} {w j : Nat} (h : Together lines w j)
    (hGroup : groupRecords (lines ++ new) = groupRecords lines ++ grouped)
    (hNew : ∀ line ∈ new, line.isFrom w j = false)
    (hGrouped : ∀ line ∈ grouped, line.isFrom w j = false)
    (hMain : ∀ line, grouped.head? = some line → line.isMain = true) :
    Together (lines ++ new) w j := by
  obtain ⟨before, header, below, above, rest, hEq, hOthers, hHeader, hHeaders, hSides, hRest⟩ := h
  have hNone : new.filter (·.isFrom w j) = [] :=
    List.filter_eq_nil_iff.mpr fun line hMem => by simp [hNew line hMem]
  refine ⟨before, header, below, above, rest ++ grouped, ?_, ?_, hHeader, hHeaders, hSides, ?_⟩
  · rw [hGroup, hEq, List.filter_append, hNone]
    simp
  · intro line hMem
    rw [← List.append_assoc] at hMem
    rcases List.mem_append.mp hMem with hOld | hMem
    · exact hOthers line hOld
    · exact hGrouped line hMem
  · intro line hHead
    cases rest with
    | nil => exact hMain line hHead
    | cons first rest => exact hRest line hHead

/-- Another round does not tear the lines of an earlier one apart. -/
theorem earlier {front header round : List WorkerOutputLine} {w j : Nat} (h : Together front w j)
    (hEarlier : j ≤ k) (hHeader : ∀ line ∈ header, line.emitter = .header (k + 1))
    (hSome : header ≠ []) (hNone : ∀ line ∈ header, line.worker = none)
    (hRound : ∀ line ∈ round, ∃ v depth, line.emitter = .worker v (k + 1) depth ∧
      line.worker = some v) : Together (front ++ header ++ round) w j := by
  have hHeaderNot : ∀ line ∈ header, line.isFrom w j = false := fun line hMem => by
    simp [WorkerOutputLine.isFrom, hHeader line hMem]
  have hRoundNot : ∀ line ∈ round, line.isFrom w j = false := by
    intro line hMem
    obtain ⟨v, depth, hEmitter, _⟩ := hRound line hMem
    simp only [WorkerOutputLine.isFrom, hEmitter, decide_eq_false_iff_not]
    omega
  have hGroup := groupRecords_main front round hNone fun hNil => absurd hNil hSome
  rw [List.append_assoc] at hGroup ⊢
  rw [List.append_assoc] at hGroup
  refine h.append hGroup (List.forall_mem_append.mpr ⟨hHeaderNot, hRoundNot⟩)
    (List.forall_mem_append.mpr ⟨hHeaderNot, fun line hMem => ?_⟩) fun line hHead => ?_
  · exact hRoundNot line ((groupRecords_perm round).mem_iff.mp hMem)
  · cases header with
    | nil => exact absurd rfl hSome
    | cons first header =>
        obtain rfl := Option.some.inj hHead
        simp [WorkerOutputLine.isMain, hHeader first List.mem_cons_self]

/-- A round's own lines, when the round is the last. -/
theorem last {front header round : List WorkerOutputLine} {w : Nat}
    (hFront : ∀ line ∈ front, line.isFrom w (k + 1) = false)
    (hHeader : ∀ line ∈ header, line.emitter = .header (k + 1)) (hSome : header ≠ [])
    (hNone : ∀ line ∈ header, line.worker = none)
    (hRound : ∀ line ∈ round, ∃ v depth, line.emitter = .worker v (k + 1) depth ∧
      line.worker = some v) : Together (front ++ header ++ round) w (k + 1) := by
  have hOutside : (front ++ header).filter (·.isFrom w (k + 1)) = [] := by
    apply List.filter_eq_nil_iff.mpr
    intro line hMem
    rcases List.mem_append.mp hMem with hMem | hMem
    · simp [hFront line hMem]
    · simp [WorkerOutputLine.isFrom, hHeader line hMem]
  have hWorkers : ∀ line ∈ round, line.worker ≠ none := by
    intro line hMem
    obtain ⟨v, depth, _, hWorker⟩ := hRound line hMem
    simp [hWorker]
  obtain ⟨below, above, hSplit, hSides⟩ := groupedWorkerLines_split w (k + 1) hRound
  refine ⟨groupRecords front, header, below, above, [], ?_, ?_, hSome, hHeader, hSides, by simp⟩
  · rw [groupRecords_main front round hNone fun hNil => absurd hNil hSome,
      groupRecords_round hWorkers, hSplit, List.filter_append, hOutside]
    simp
  · intro line hMem
    rw [List.append_nil] at hMem
    exact hFront line ((groupRecords_perm front).mem_iff.mp hMem)

end Together

/-- A line of the main thread has no worker and is from none. -/
theorem Labelled.of_isMain {line : WorkerOutputLine} (h : Labelled line)
    (hMain : line.isMain = true) : line.worker = none ∧ ∀ w k, line.isFrom w k = false := by
  cases hEmitter : line.emitter <;>
    simp_all [Labelled, WorkerOutputLine.isMain, WorkerOutputLine.isFrom]

/-- When every line of a worker was emitted through its own handle, the lines
of each worker in each round stand together. -/
theorem Layout.together {logs running : Bool} {k : Nat} {lines : List WorkerOutputLine}
    (h : Layout logs running k lines) (hLogs : logs = true)
    (hLabelled : ∀ line ∈ lines, Labelled line)
    (hOwn : ∀ line ∈ lines, ∀ w j depth, line.emitter = .worker w j depth → depth = 0)
    {line : WorkerOutputLine} (hMem : line ∈ lines) {w j : Nat} (hFrom : line.isFrom w j = true) :
    Together lines w j := by
  induction h with
  | nil => cases hMem
  | @main k lines new h hNew ih =>
      obtain ⟨hLabelled, hLabelledNew⟩ := List.forall_mem_append.mp hLabelled
      have hMain : ∀ line ∈ new, line.isMain = true := fun line hMem => by
        simp [WorkerOutputLine.isMain, hNew line hMem]
      have hNone : ∀ line ∈ new, line.worker = none := fun line hMem =>
        ((hLabelledNew line hMem).of_isMain (hMain line hMem)).1
      have hNot : ∀ line ∈ new, line.isFrom w j = false := fun line hMem =>
        ((hLabelledNew line hMem).of_isMain (hMain line hMem)).2 w j
      have hOld : line ∈ lines := by
        apply (List.mem_append.mp hMem).resolve_right
        intro hNew
        simp [hNot line hNew] at hFrom
      have hGroup := groupRecords_main lines [] hNone (fun _ => rfl)
      rw [List.append_nil, groupRecords_nil, List.append_nil] at hGroup
      exact (ih hLabelled (List.forall_mem_append.mp hOwn).1 hOld).append hGroup hNot hNot
        fun line hHead => hMain line (List.mem_of_head? hHead)
  | @round k front header round running h hHeader hRound hHeaders ih =>
      obtain ⟨hLabelledFront, hLabelledRound⟩ := List.forall_mem_append.mp hLabelled
      obtain ⟨hLabelledFront, hLabelledHeader⟩ := List.forall_mem_append.mp hLabelledFront
      obtain ⟨hOwnFront, hOwnRound⟩ := List.forall_mem_append.mp hOwn
      have hMain : ∀ line ∈ header, line.isMain = true := fun line hMem => by
        simp [WorkerOutputLine.isMain, hHeader line hMem]
      have hNone : ∀ line ∈ header, line.worker = none := fun line hMem =>
        ((hLabelledHeader line hMem).of_isMain (hMain line hMem)).1
      have hWorkers : ∀ line ∈ round, ∃ v depth, line.emitter = .worker v (k + 1) depth ∧
          line.worker = some v := by
        intro line hMem
        obtain ⟨v, depth, hEmitter⟩ := hRound line hMem
        have hDepth := hOwnRound line hMem v (k + 1) depth hEmitter
        have hLine := hLabelledRound line hMem
        exact ⟨v, depth, hEmitter, by simpa [Labelled, hEmitter, hDepth] using hLine⟩
      rcases List.mem_append.mp hMem with hMem | hMem
      · rcases List.mem_append.mp hMem with hMem | hMem
        · have hEarlier := ih hLabelledFront (List.forall_mem_append.mp hOwnFront).1 hMem
          exact hEarlier.earlier (h.round_le hMem hFrom) hHeader
            (hHeaders hLogs) hNone hWorkers
        · have hNot := ((hLabelledHeader line hMem).of_isMain (hMain line hMem)).2 w j
          simp [hNot] at hFrom
      · obtain ⟨v, depth, hEmitter⟩ := hRound line hMem
        obtain ⟨_, rfl⟩ : v = w ∧ k + 1 = j := by
          simpa [WorkerOutputLine.isFrom, hEmitter] using hFrom
        refine .last (fun line hMem => ?_) hHeader (hHeaders hLogs) hNone hWorkers
        by_contra hFrom
        have := h.round_le hMem (by simpa using hFrom)
        omega

end Hegel
