import Mathlib.Logic.Function.Basic
import Mathlib.Logic.Relation
import Mathlib.Order.WellFounded

/-! Systems that take steps from an initial state, what holds in every state
they reach, what they cannot avoid, and how one system follows another step by
step. -/
namespace Logic

structure System (σ : Type*) where
  init : σ → Prop
  step : σ → σ → Prop

namespace System

variable {σ τ : Type*}

inductive Reachable (sys : System σ) : σ → Prop where
  | init {s : σ} (hInit : sys.init s) : Reachable sys s
  | step {s s' : σ} (hReachable : Reachable sys s) (hStep : sys.step s s') : Reachable sys s'

/-- The step may use that its state is reachable. -/
theorem Reachable.invariant {sys : System σ} {inv : σ → Prop} {s : σ} (h : sys.Reachable s)
    (hInit : ∀ s, sys.init s → inv s)
    (hStep : ∀ s s', sys.Reachable s → inv s → sys.step s s' → inv s') : inv s := by
  induction h with
  | init h => exact hInit _ h
  | step hReachable h ih => exact hStep _ _ hReachable ih h

theorem Reachable.steps {sys : System σ} {s s' : σ} (h : sys.Reachable s)
    (hSteps : Relation.ReflTransGen sys.step s s') : sys.Reachable s' := by
  induction hSteps with
  | refl => exact h
  | tail _ hStep ih => exact ih.step hStep

/-- Every step of `concrete` is answered by one step of `abstract` or by none.
The answer may use what holds of the reachable abstract states. -/
structure Simulation (concrete : System σ) (abstract : System τ) (R : σ → τ → Prop) : Prop where
  init : ∀ s, concrete.init s → ∃ t, abstract.init t ∧ R s t
  step : ∀ s s' t, R s t → abstract.Reachable t → concrete.step s s' →
    ∃ t', R s' t' ∧ (t' = t ∨ abstract.step t t')

theorem Simulation.reachable {concrete : System σ} {abstract : System τ} {R : σ → τ → Prop}
    (hSim : Simulation concrete abstract R) {s : σ} (h : concrete.Reachable s) :
    ∃ t, abstract.Reachable t ∧ R s t := by
  induction h with
  | init h =>
      obtain ⟨t, hInit, hR⟩ := hSim.init _ h
      exact ⟨t, .init hInit, hR⟩
  | step _ h ih =>
      obtain ⟨t, hReachable, hR⟩ := ih
      obtain ⟨t', hR', hSame | hStep⟩ := hSim.step _ _ t hR hReachable h
      · exact ⟨t', hSame ▸ hReachable, hR'⟩
      · exact ⟨t', .step hReachable hStep, hR'⟩

end System

/-- Every way along `step` comes to a state with `P`, and none gets stuck before. -/
inductive Inevitable {σ : Type*} (step : σ → σ → Prop) (P : σ → Prop) : σ → Prop where
  | now {s : σ} (hNow : P s) : Inevitable step P s
  | later {s : σ} (hSome : ∃ s', step s s') (hAll : ∀ s', step s s' → Inevitable step P s') :
      Inevitable step P s

/-- A rank that falls with every step leaves no way that goes on forever. -/
theorem Inevitable.of_rank {σ ρ : Type*} [LT ρ] [WellFoundedLT ρ] {step : σ → σ → Prop}
    {P I : σ → Prop} (rank : σ → ρ) (hProgress : ∀ s, I s → ¬ P s → ∃ s', step s s')
    (hFalls : ∀ s s', I s → ¬ P s → step s s' → I s' ∧ rank s' < rank s) {s : σ}
    (hInv : I s) : Inevitable step P s := by
  induction hRank : rank s using WellFoundedLT.induction generalizing s with
  | ind bound ih =>
      by_cases hNow : P s
      · exact .now hNow
      · refine .later (hProgress s hInv hNow) fun s' hStep => ?_
        obtain ⟨hInv', hLess⟩ := hFalls s s' hInv hNow hStep
        exact ih (rank s') (hRank ▸ hLess) hInv' rfl

end Logic
