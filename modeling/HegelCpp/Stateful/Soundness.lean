import HegelCpp.Stateful.Runner
import Mathlib.Data.List.Pairwise

/-! What a stateful runner owes its caller, as a property of what an observer
of the machine sees. Both runners sample their invariants between the first
and the last state, so the promise rests on these two. -/
namespace Hegel

variable {S : Type}

/-- What an observer of one machine sees, in order. -/
def observationsOf (machine : Nat) (history : List (Event S)) : List (Observation S) :=
  history.filterMap fun
    | .observed m what => if m = machine then some what else none
    | _ => none

@[simp] theorem observationsOf_append (machine : Nat) (first second : List (Event S)) :
    observationsOf machine (first ++ second) =
      observationsOf machine first ++ observationsOf machine second :=
  List.filterMap_append

/-- A rule or a round starts. -/
def Observation.Runs : Observation S → Prop
  | .rule _ | .round _ => True
  | _ => False

/-- A rule, a round or the evaluation of an invariant starts. -/
def Observation.Starts : Observation S → Prop
  | .rule _ | .round _ | .invariant _ _ _ => True
  | _ => False

/-- A rule of `run` threw something else than a reject, a worker's event was
not `RoundDone`, or an invariant threw. -/
def Observation.Fatal : Observation S → Prop
  | .ruleFailed _ | .roundFailed | .invariant _ _ (some _) => True
  | _ => False

/-- Every invariant is evaluated on `now`, in order from `index` on. -/
def evaluations (now : S) : Nat → List (Invariant S) → List (Observation S)
  | _, [] => []
  | index, invariant :: rest =>
      .invariant index now (invariant.check now) :: evaluations now (index + 1) rest

/-- No invariant is violated by `now`. -/
def Holds (invariants : List (Invariant S)) (now : S) : Prop :=
  ∀ invariant ∈ invariants, invariant.check now = none

/-- The states of the machine that were seen, from `initial` on. -/
def visited (initial : S) (seen : List (Observation S)) : List S :=
  initial :: seen.filterMap fun
    | .state now => some now
    | _ => none

/-- The state after the last rule that was seen. -/
def lastState (initial : S) (seen : List (Observation S)) : S :=
  seen.foldl (fun now what => match what with
    | .state next => next
    | _ => now) initial

/-- The soundness of a stateful runner that saw `seen` of its machine. -/
structure Sound (invariants : List (Invariant S)) (initial : S) (returned : Prop)
    (seen : List (Observation S)) : Prop where
  initially : ∀ front what rest, seen = front ++ what :: rest → what.Runs →
    Holds invariants initial ∧ evaluations initial 0 invariants <+: front
  atLast : returned → Holds invariants (lastState initial seen) ∧
    ∃ front, seen = front ++ evaluations (lastState initial seen) 0 invariants
  fatal : ∀ front what rest, seen = front ++ what :: rest → what.Fatal →
    ¬ returned ∧ ∀ later ∈ rest, ¬ later.Starts

section States
variable (initial : S) (first second : List (Observation S))

theorem lastState_append :
    lastState initial (first ++ second) = lastState (lastState initial first) second :=
  List.foldl_append

@[simp] theorem lastState_evaluations (now : S) (index : Nat) (invariants : List (Invariant S)) :
    lastState initial (evaluations now index invariants) = initial := by
  induction invariants generalizing index with
  | nil => rfl
  | cons invariant rest ih => exact ih (index + 1)

theorem getLast_visited : (visited initial first).getLast (List.cons_ne_nil _ _) =
    lastState initial first := by
  induction first generalizing initial with
  | nil => rfl
  | cons what rest ih =>
      cases what with
      | state now => exact ih now
      | _ => exact ih initial

end States

/-- Nothing fatal was seen. -/
def Clean (seen : List (Observation S)) : Prop := ∀ what ∈ seen, ¬ what.Fatal

namespace Clean

variable {seen : List (Observation S)}

theorem nil : Clean ([] : List (Observation S)) := fun _ h => by cases h

theorem append {more : List (Observation S)} (h : Clean seen) (h' : Clean more) :
    Clean (seen ++ more) := by
  intro what hMem
  exact (List.mem_append.mp hMem).elim (h what) (h' what)

theorem cons {what : Observation S} (hWhat : ¬ what.Fatal) (h : Clean seen) :
    Clean (what :: seen) := by
  intro other hMem
  rcases List.mem_cons.mp hMem with rfl | hMem
  · exact hWhat
  · exact h other hMem

theorem dropLast (h : Clean seen) : Clean seen.dropLast :=
  fun what hMem => h what (List.dropLast_subset _ hMem)

theorem append_dropLast {more : List (Observation S)} (h : Clean seen)
    (h' : Clean more.dropLast) : Clean (seen ++ more).dropLast := by
  rcases List.eq_nil_or_concat more with rfl | ⟨front, last, rfl⟩
  · rw [List.append_nil]
    exact h.dropLast
  · rw [List.concat_eq_append, ← List.append_assoc, List.dropLast_concat]
    rw [List.concat_eq_append, List.dropLast_concat] at h'
    exact h.append h'

/-- Only the last observation can be fatal. -/
theorem fatal_is_last (h : Clean seen.dropLast) {front rest : List (Observation S)}
    {what : Observation S} (hSeen : seen = front ++ what :: rest) (hFatal : what.Fatal) :
    rest = [] := by
  rcases List.eq_nil_or_concat rest with rfl | ⟨middle, last, rfl⟩
  · rfl
  · refine absurd hFatal (h what ?_)
    rw [hSeen, List.concat_eq_append, ← List.cons_append, ← List.append_assoc,
      List.dropLast_concat]
    simp

end Clean

theorem clean_of_holds {now : S} (index : Nat) {invariants : List (Invariant S)}
    (h : Holds invariants now) : Clean (evaluations now index invariants) := by
  induction invariants generalizing index with
  | nil => exact Clean.nil
  | cons invariant rest ih =>
      refine Clean.cons ?_ (ih (index + 1) fun other hMem => h other (List.mem_cons_of_mem _ hMem))
      simp [Observation.Fatal, h invariant List.mem_cons_self]

/-- Every observation is the evaluation of an invariant. -/
def OnlyEvaluations (seen : List (Observation S)) : Prop :=
  ∀ what ∈ seen, ∃ index now failed, what = .invariant index now failed

theorem onlyEvaluations_evaluations (now : S) (index : Nat) (invariants : List (Invariant S)) :
    OnlyEvaluations (evaluations now index invariants) := by
  induction invariants generalizing index with
  | nil => exact fun _ h => by cases h
  | cons invariant rest ih =>
      intro what hMem
      rcases List.mem_cons.mp hMem with rfl | hMem
      · exact ⟨_, _, _, rfl⟩
      · exact ih (index + 1) what hMem

theorem OnlyEvaluations.not_runs {seen : List (Observation S)} (h : OnlyEvaluations seen)
    {what : Observation S} (hMem : what ∈ seen) : ¬ what.Runs := by
  obtain ⟨index, now, failed, rfl⟩ := h what hMem
  exact id

/-! The three ways a runner can end. -/
section Ends
variable {invariants : List (Invariant S)} {initial : S} {returned : Prop}
  {seen : List (Observation S)}

/-- It ended before its first rule. -/
theorem Sound.early (hOnly : OnlyEvaluations seen) (hClean : Clean seen.dropLast)
    (hRaised : ¬ returned) : Sound invariants initial returned seen where
  initially := by
    rintro front what rest rfl hRuns
    exact absurd hRuns (hOnly.not_runs (List.mem_append_right front List.mem_cons_self))
  atLast := fun h => absurd h hRaised
  fatal := by
    intro front what rest hSeen hFatal
    rw [hClean.fatal_is_last hSeen hFatal]
    exact ⟨hRaised, fun _ h => by cases h⟩

/-- An observation of a run after the initial evaluations lies behind them. -/
private theorem begun {front rest : List (Observation S)} {what : Observation S}
    (hSeen : evaluations initial 0 invariants ++ seen = front ++ what :: rest)
    (hRuns : what.Runs) : evaluations initial 0 invariants <+: front := by
  have hPrefix : front <+: evaluations initial 0 invariants ++ seen := ⟨_, hSeen.symm⟩
  rcases List.prefix_or_prefix_of_prefix (List.prefix_append _ seen) hPrefix with h | h
  · exact h
  · obtain ⟨more, hMore⟩ := h
    cases more with
    | nil => exact ⟨[], by rw [← hMore, List.append_nil, List.append_nil]⟩
    | cons other more =>
        rw [← hMore, List.append_assoc] at hSeen
        have hHead := List.append_cancel_left hSeen
        obtain ⟨rfl, -⟩ := List.cons.inj hHead
        have hMem : other ∈ evaluations initial 0 invariants := by simp [← hMore]
        exact absurd hRuns ((onlyEvaluations_evaluations initial 0 invariants).not_runs hMem)

/-- It raised after the initial evaluations. -/
theorem Sound.raised (hHolds : Holds invariants initial) (hClean : Clean seen.dropLast)
    (hRaised : ¬ returned) :
    Sound invariants initial returned (evaluations initial 0 invariants ++ seen) where
  initially := fun _ _ _ hSeen hRuns => ⟨hHolds, begun hSeen hRuns⟩
  atLast := fun h => absurd h hRaised
  fatal := by
    intro front what rest hSeen hFatal
    have hAll := (clean_of_holds 0 hHolds).append_dropLast hClean
    rw [hAll.fatal_is_last hSeen hFatal]
    exact ⟨hRaised, fun _ h => by cases h⟩

/-- It returned after the final evaluations. -/
theorem Sound.finished (hHolds : Holds invariants initial) (hClean : Clean seen)
    (hLast : Holds invariants (lastState initial seen)) :
    Sound invariants initial returned (evaluations initial 0 invariants ++
      (seen ++ evaluations (lastState initial seen) 0 invariants)) where
  initially := fun _ _ _ hSeen hRuns => ⟨hHolds, begun hSeen hRuns⟩
  atLast := by
    intro _
    have hState : lastState initial (evaluations initial 0 invariants ++
        (seen ++ evaluations (lastState initial seen) 0 invariants)) = lastState initial seen := by
      rw [lastState_append, lastState_evaluations, lastState_append, lastState_evaluations]
    rw [hState]
    exact ⟨hLast, _, (List.append_assoc _ _ _).symm⟩
  fatal := by
    intro front what rest hSeen hFatal
    have hAll := (clean_of_holds 0 hHolds).append (hClean.append (clean_of_holds 0 hLast))
    exact absurd hFatal (hAll what (by rw [hSeen]; simp))

end Ends

/-- A violation that persists along the states that were seen is still there
at the last one. -/
theorem persists_to_last {P : S → Prop} {initial now : S} {seen : List (Observation S)}
    (hPersists : (visited initial seen).Pairwise fun a b => P a → P b)
    (hMem : now ∈ visited initial seen) (hNow : P now) : P (lastState initial seen) := by
  rw [← getLast_visited]
  exact hPersists.rel_getLast_of_rel_getLast_getLast hMem id hNow

/-- Sampling cannot hide an invariant that stays violated. -/
theorem Sound.caught {invariants : List (Invariant S)} {initial now : S} {returned : Prop}
    {seen : List (Observation S)} (hSound : Sound invariants initial returned seen)
    {invariant : Invariant S} (hInvariant : invariant ∈ invariants)
    (hPersists : (visited initial seen).Pairwise fun a b =>
      invariant.check a ≠ none → invariant.check b ≠ none)
    (hMem : now ∈ visited initial seen) (hViolated : invariant.check now ≠ none) :
    ¬ returned := by
  intro hReturned
  have hLast := persists_to_last hPersists hMem hViolated
  exact hLast ((hSound.atLast hReturned).1 invariant hInvariant)

/-- A sound runner, with what follows for an invariant that stays violated. -/
structure SamplingSound (invariants : List (Invariant S)) (initial : S) (returned : Prop)
    (seen : List (Observation S)) : Prop extends Sound invariants initial returned seen where
  caught : ∀ invariant ∈ invariants, ∀ now ∈ visited initial seen,
    (visited initial seen).Pairwise (fun a b =>
      invariant.check a ≠ none → invariant.check b ≠ none) →
    invariant.check now ≠ none → ¬ returned

theorem Sound.samplingSound {invariants : List (Invariant S)} {initial : S} {returned : Prop}
    {seen : List (Observation S)} (h : Sound invariants initial returned seen) :
    SamplingSound invariants initial returned seen where
  toSound := h
  caught := fun _ hInvariant _ hMem hPersists hViolated =>
    h.caught hInvariant hPersists hMem hViolated

end Hegel
