import HegelCpp.Concurrent.Progress
import Mathlib.Data.Prod.Lex
import Mathlib.Algebra.Order.BigOperators.Group.Finset

/-! An exception of `run_concurrent` does leave it. Once it is on its way out no
round runs, so the workers have few steps left and the main thread joins them. -/
namespace Hegel.Concurrent

open Logic

variable {S : Type} {n : Nat} {params : Params S}

/-- A step of a thread that was not woken up spuriously. -/
def Scheduled (params : Params S) (s s' : State S n) : Prop :=
  MainStep params s s' ∨ ∃ w, WorkerStep params w s s'

/-- The steps that the main thread has left on the way out. -/
def MainPc.toGo (n : Nat) : MainPc → Nat
  | .setStop _ => n + 2
  | .notifyStop _ => n + 1
  | .join _ w => n - w
  | _ => 0

/-- The steps that a worker has left when no round runs. -/
def WorkerPc.toGo : WorkerPc → Nat
  | .notify => 3
  | .check => 2
  | .waiting => 1
  | _ => 0

/-- The main thread's steps count first, since it wakes the workers up. -/
def stepsToGo (s : State S n) : Lex (Nat × Nat) :=
  toLex (s.main.toGo n, ∑ w, (s.workers w).pc.toGo)

section Way
variable {s s' : State S n} {e : Exn}

theorem running_of_leaving {pc : MainPc} (h : pc.leaving = some e) : pc.running = false := by
  cases pc <;> first | rfl | cases h

theorem toGo_joinFrom (exit : Option Exn) (w : Nat) : (joinFrom n exit w).toGo n ≤ n - w :=
  joinFrom_cases (fun pc => pc.toGo n ≤ n - w) exit w (fun _ => Nat.le_refl _)
    fun _ => Nat.zero_le _

theorem MainStep.towardsEnd (h : MainStep params s s') (hLeaving : s.main.leaving = some e) :
    s'.main.leaving = some e ∧ stepsToGo s' < stepsToGo s := by
  have hFewer {pc : MainPc} (hPc : s.main = pc) (hLess : s'.main.toGo n < pc.toGo n) :
      stepsToGo s' < stepsToGo s := by
    refine Prod.Lex.toLex_lt_toLex.mpr (.inl ?_)
    rwa [hPc]
  cases h with
  | setStop exit hPc =>
      rw [hPc] at hLeaving
      exact ⟨hLeaving, hFewer hPc (Nat.lt_succ_self _)⟩
  | notifyStop exit hPc =>
      rw [hPc] at hLeaving
      refine ⟨(leaving_joinFrom exit 0).trans hLeaving, hFewer hPc ?_⟩
      exact Nat.lt_succ_of_le (toGo_joinFrom exit 0)
  | join exit w hPc hExited =>
      rw [hPc] at hLeaving
      refine ⟨(leaving_joinFrom exit _).trans hLeaving, hFewer hPc ?_⟩
      refine Nat.lt_of_le_of_lt (toGo_joinFrom exit _) ?_
      have hw := w.isLt
      show n - (w + 1) < n - w
      omega
  | _ => simp_all [MainPc.leaving]

/-- No worker enters a round any more. -/
theorem WorkerStep.towardsEnd (h : (runConcurrent params n).Reachable s)
    (hLeaving : s.main.leaving = some e) {w : Fin n} (hStep : WorkerStep params w s s') :
    s'.main.leaving = some e ∧ stepsToGo s' < stepsToGo s := by
  obtain ⟨hLinked, hBarrier⟩ := reachable_linked h
  have hIdle := running_of_leaving hLeaving
  have hOutside := idle_outside h hIdle w
  have hMain : s'.main = s.main := by
    refine hStep.frame.main.resolve_right fun hBlocked => ?_
    simp [hBlocked.1, MainPc.running] at hIdle
  have hLess : (s'.workers w).pc.toGo < (s.workers w).pc.toGo := by
    cases hStep with
    | stop hPc hStop => simp [hPc, WorkerPc.toGo]
    | enter hPc hStop hNew =>
        refine absurd ?_ hNew
        have hEntered : (s.workers w).entered = s.rounds := (hBarrier.outside hIdle w).1
        rw [hLinked.round, (hLinked.workers w).observed, hEntered]
    | wait hPc hStop hOld => simp [hPc, WorkerPc.toGo]
    | notifyDone hPc => simp [hPc, WorkerPc.toGo]
    | _ => simp_all [WorkerPc.inRound]
  refine ⟨hMain ▸ hLeaving, Prod.Lex.toLex_lt_toLex.mpr (.inr ⟨by rw [hMain], ?_⟩)⟩
  refine Finset.sum_lt_sum (fun v _ => ?_) ⟨w, Finset.mem_univ w, hLess⟩
  by_cases hv : v = w
  · exact hv ▸ Nat.le_of_lt hLess
  · rw [hStep.frame.others v hv]

/-- On the way out some thread has a step. -/
theorem leaving_enabled (h : (runConcurrent params n).Reachable s)
    (hLeaving : s.main.leaving = some e) (hEnd : s.main ≠ .finished (some e)) :
    ∃ s', Scheduled params s s' := by
  cases hPc : s.main with
  | setStop exit => exact ⟨_, .inl (.setStop exit hPc)⟩
  | notifyStop exit => exact ⟨_, .inl (.notifyStop exit hPc)⟩
  | join exit w =>
      have hBounded := reachable_bounded h
      rw [Bounded, hPc] at hBounded
      rcases join_enabled (w := ⟨w, hBounded⟩) h hPc with ⟨s', hStep⟩ | ⟨v, s', hStep⟩
      · exact ⟨s', .inl hStep⟩
      · exact ⟨s', .inr ⟨v, hStep⟩⟩
  | finished exit =>
      rw [hPc] at hLeaving
      exact absurd (congrArg MainPc.finished hLeaving) (hPc ▸ hEnd)
  | _ => simp [hPc, MainPc.leaving] at hLeaving

/-- Whatever the threads do next, the call ends with the exception. -/
theorem leaves (h : (runConcurrent params n).Reachable s) (hLeaving : s.main.leaving = some e) :
    Inevitable (Scheduled params) (fun s' => s'.main = .finished (some e)) s := by
  refine .of_rank (I := fun s => (runConcurrent params n).Reachable s ∧ s.main.leaving = some e)
    stepsToGo (fun s hInv hEnd => leaving_enabled hInv.1 hInv.2 hEnd)
    (fun s s' hInv _ hStep => ?_) ⟨h, hLeaving⟩
  rcases hStep with hStep | ⟨w, hStep⟩
  · obtain ⟨hLeaving', hLess⟩ := hStep.towardsEnd hInv.2
    exact ⟨⟨hInv.1.step (.main hStep), hLeaving'⟩, hLess⟩
  · obtain ⟨hLeaving', hLess⟩ := hStep.towardsEnd hInv.1 hInv.2
    exact ⟨⟨hInv.1.step (.worker w hStep), hLeaving'⟩, hLess⟩

end Way
end Hegel.Concurrent
