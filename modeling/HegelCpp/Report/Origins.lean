import HegelCpp.Logic.LastWrite
import HegelCpp.Report.RunBody

/-! Which exception the origin of a failing test case belongs to, over every
history of the thread that runs the cases. -/
namespace Hegel.Origin

open Logic

namespace ThreadEvent

/-- The address a throw expression leaves behind. -/
def thrownAddress : ThreadEvent → Option UInt64
  | throwExpr exception => some exception.thrownAt
  | _ => none

def rethrown : ThreadEvent → Option CapturedException
  | rethrowCaptured captured => some captured
  | _ => none

end ThreadEvent

/-- The failures of `run_concurrent` the body raised again, in order. -/
def Case.rethrown (case : Case) : List CapturedException :=
  case.events.filterMap ThreadEvent.rethrown

/-- The failures of `run_concurrent` that `earlier` raised again after its last
failing case, all of them caught. -/
def caughtSince (earlier : List Case) : List CapturedException :=
  LastWrite.sinceCleared Case.rethrown Case.fails earlier

/-- The address of the thread's last throw expression. -/
def lastThrow (cases : List Case) : UInt64 :=
  ((cases.flatMap (·.events)).filterMap ThreadEvent.thrownAddress).getLast?.getD 0

variable {dladdr : Dladdr}

section Thread

variable (thread : ThreadState dladdr)

theorem reached_lastThrowAddress (case : Case) :
    (case.reached thread).lastThrowAddress =
      (case.events.filterMap ThreadEvent.thrownAddress).getLast?.getD thread.lastThrowAddress := by
  refine LastWrite.read_foldl (·.lastThrowAddress) ThreadEvent.thrownAddress
    (fun thread event => ?_) case.events thread
  cases event <;> rfl

theorem reached_concurrentExceptionOrigin (case : Case) :
    (case.reached thread).concurrentExceptionOrigin =
      (case.rethrown.getLast?.map (·.origin)).or thread.concurrentExceptionOrigin := by
  have hStep (thread : ThreadState dladdr) (event : ThreadEvent) :
      (thread.step event).concurrentExceptionOrigin =
        (event.rethrown.map fun captured => some captured.origin).getD
          thread.concurrentExceptionOrigin := by cases event <;> rfl
  have hLast := LastWrite.read_foldl (·.concurrentExceptionOrigin) _ hStep case.events thread
  have hOrigins : case.events.filterMap (fun event =>
      event.rethrown.map fun captured => some captured.origin) =
        case.rethrown.map fun captured => some captured.origin := by
    rw [Case.rethrown, List.map_filterMap]
  rw [hOrigins, List.getLast?_map] at hLast
  rw [Case.reached, hLast]
  cases case.rethrown.getLast? <;> rfl

@[simp] theorem originOf_lastThrowAddress (named : Option String) (type : String) :
    (originOf named type thread).2.lastThrowAddress = thread.lastThrowAddress := by
  cases named with
  | none => exact thread.lastThrowSite_lastThrowAddress
  | some origin => rfl

@[simp] theorem originOf_concurrentExceptionOrigin (named : Option String) (type : String) :
    (originOf named type thread).2.concurrentExceptionOrigin =
      thread.concurrentExceptionOrigin := by
  cases named with
  | none => exact thread.lastThrowSite_concurrentExceptionOrigin
  | some origin => rfl

theorem originOf_none (type : String) :
    (originOf none type thread).1 = typeAt type (siteOf dladdr thread.lastThrowAddress) := by
  rw [originOf, thread.lastThrowSite_fst]

@[simp] theorem takeOrigin_lastThrowAddress (named : Option String) (type : String) :
    (takeOrigin named type thread).2.lastThrowAddress = thread.lastThrowAddress := by
  unfold takeOrigin
  split
  · rfl
  · exact originOf_lastThrowAddress thread named type

/-- No origin stays pending once one was reported. -/
@[simp] theorem takeOrigin_concurrentExceptionOrigin (named : Option String) (type : String) :
    (takeOrigin named type thread).2.concurrentExceptionOrigin = none := by
  unfold takeOrigin
  split
  · rfl
  · next hNone => rw [originOf_concurrentExceptionOrigin, hNone]

variable {thread} {exn : Exn}

/-- Both failing handlers report the origin `takeOrigin` computes. -/
theorem runBody_fails (hFails : Fails exn) :
    (runBody (some exn) thread).1.status = .interesting ∧
      (runBody (some exn) thread).1.origin =
        (takeOrigin (namedByHandler exn) exn.typeName thread).1 ∧
      (runBody (some exn) thread).2 =
        (takeOrigin (namedByHandler exn) exn.typeName thread).2 := by
  obtain ⟨cls, typeName, what, failureOrigin⟩ := exn
  cases cls with
  | stopTest => exact absurd rfl hFails.1
  | reject => exact absurd rfl hFails.2
  | invalidArgument => exact ⟨rfl, rfl, rfl⟩
  | stdException => exact ⟨rfl, rfl, rfl⟩
  | nonStandard => exact ⟨rfl, rfl, rfl⟩

/-- A case that did not fail leaves the thread as its body left it. -/
theorem runBody_passes {escaping : Option Exn} (hPasses : ∀ exn ∈ escaping, ¬Fails exn) :
    (runBody escaping thread).1.status ≠ .interesting ∧ (runBody escaping thread).2 = thread := by
  cases escaping with
  | none => exact ⟨nofun, rfl⟩
  | some exn =>
      have hExn := hPasses exn rfl
      obtain ⟨cls, typeName, what, failureOrigin⟩ := exn
      cases cls with
      | stopTest => exact ⟨nofun, rfl⟩
      | reject => exact ⟨nofun, rfl⟩
      | invalidArgument => exact absurd ⟨nofun, nofun⟩ hExn
      | stdException => exact absurd ⟨nofun, nofun⟩ hExn
      | nonStandard => exact absurd ⟨nofun, nofun⟩ hExn

end Thread

namespace Case

variable {case : Case} (thread : ThreadState dladdr)

theorem fails_iff : case.fails = true ↔ ∃ exn, case.ending.exn = some exn ∧ Fails exn := by
  simp [fails, Option.any_eq_true]

theorem not_fails (hPasses : case.fails = false) : ∀ exn ∈ case.ending.exn, ¬Fails exn := by
  intro exn hExn hFails
  have hFailed := fails_iff.mpr ⟨exn, hExn, hFails⟩
  rw [hPasses] at hFailed
  cases hFailed

theorem run_lastThrowAddress :
    (case.run thread).2.lastThrowAddress = (case.reached thread).lastThrowAddress := by
  cases hFails : case.fails with
  | false => rw [run, (runBody_passes (not_fails hFails)).2]
  | true =>
      obtain ⟨exn, hExn, hFailed⟩ := fails_iff.mp hFails
      rw [run, hExn, (runBody_fails hFailed).2.2, takeOrigin_lastThrowAddress]

/-- A failing case uses the pending origin up; any other leaves it. -/
theorem run_concurrentExceptionOrigin :
    (case.run thread).2.concurrentExceptionOrigin =
      if case.fails then none else (case.reached thread).concurrentExceptionOrigin := by
  cases hFails : case.fails with
  | false => rw [run, (runBody_passes (not_fails hFails)).2, if_neg Bool.false_ne_true]
  | true =>
      obtain ⟨exn, hExn, hFailed⟩ := fails_iff.mp hFails
      rw [run, hExn, (runBody_fails hFailed).2.2, takeOrigin_concurrentExceptionOrigin, if_pos rfl]

end Case

section History

variable (dladdr : Dladdr) (earlier : List Case) (case : Case)

theorem threadAfter_concat :
    threadAfter dladdr (earlier ++ [case]) = (case.run (threadAfter dladdr earlier)).2 := by
  rw [threadAfter, List.foldl_append]
  rfl

theorem threadAfter_concurrentExceptionOrigin :
    (threadAfter dladdr earlier).concurrentExceptionOrigin =
      (caughtSince earlier).getLast?.map (·.origin) := by
  have hStep (thread : ThreadState dladdr) (case : Case) :
      (case.run thread).2.concurrentExceptionOrigin =
        if case.fails then none
        else (case.rethrown.map (·.origin)).getLast?.or thread.concurrentExceptionOrigin := by
    rw [Case.run_concurrentExceptionOrigin, reached_concurrentExceptionOrigin, List.getLast?_map]
  have hLast := LastWrite.value_foldl ThreadState.concurrentExceptionOrigin _ Case.fails hStep
    (rfl : ({} : ThreadState dladdr).concurrentExceptionOrigin = none) earlier
  rw [threadAfter, hLast, ← List.getLast?_map, caughtSince, LastWrite.sinceCleared,
    LastWrite.sinceCleared, List.map_flatMap]

/-- The slot holds the origin of the last failure raised again in this body,
else of the last one that an earlier body caught. -/
theorem threadAt_concurrentExceptionOrigin :
    (threadAt dladdr earlier case).concurrentExceptionOrigin =
      (caughtSince earlier ++ case.rethrown).getLast?.map (·.origin) := by
  rw [threadAt, reached_concurrentExceptionOrigin, threadAfter_concurrentExceptionOrigin,
    List.getLast?_append, Option.map_or]

theorem threadAfter_lastThrowAddress :
    (threadAfter dladdr earlier).lastThrowAddress = lastThrow earlier := by
  induction earlier using List.reverseRecOn with
  | nil => rfl
  | append_singleton earlier case ih =>
      rw [threadAfter_concat, Case.run_lastThrowAddress, reached_lastThrowAddress, ih, lastThrow,
        lastThrow, List.flatMap_append, List.filterMap_append, List.getLast?_append, Option.getD_or]
      simp

theorem threadAt_lastThrowAddress :
    (threadAt dladdr earlier case).lastThrowAddress = lastThrow (earlier ++ [case]) := by
  rw [threadAt, ← Case.run_lastThrowAddress, ← threadAfter_concat, threadAfter_lastThrowAddress]

variable {exn : Exn}

theorem outcome_origin (hExn : case.ending.exn = some exn) (hFails : Fails exn) :
    (outcome dladdr earlier case).origin =
      (takeOrigin (namedByHandler exn) exn.typeName (threadAt dladdr earlier case)).1 := by
  rw [outcome, Case.run, hExn]
  exact (runBody_fails hFails).2.1

end History

end Hegel.Origin
