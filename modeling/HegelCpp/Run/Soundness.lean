import HegelCpp.Run.Verdict

/-! The verdict of `hegel::test` is right when the engine's is: an engine that
passes a run exactly when none of its cases was concluded as interesting. -/
namespace Hegel.Session

open Logic Program Origin

/-- The statuses the engine was told, in their order. -/
def told (trace : List HandleEvent) : List Status :=
  trace.filterMap fun event => match event with
    | .marked _ status _ => some status
    | _ => none

/-- The engine's verdict is about the cases of its run. -/
def Engine.Honest (engine : Engine) (trace : List HandleEvent) : Prop :=
  engine.status = .passed ↔ .interesting ∉ (told trace).take engine.cases.length

variable {dladdr : Dladdr} {bodies : Nat → BodyRun} {engine : Engine}

/-- What the engine was told about the calls of the body. -/
theorem Blocks.told_eq {n m : Nat} {trace : List HandleEvent}
    (h : Blocks dladdr bodies n m trace) :
    told trace = (List.range' n (m - n)).map fun k => (outcomeAt dladdr bodies k).status := by
  induction h with
  | nil n => simp [told]
  | next rest ih => simpa [told] using ih
  | @handle n m trace rest ih =>
      have hLe := rest.le
      have hCount : m - n = (m - (n + 1)) + 1 := by omega
      rw [hCount, List.range'_succ, List.map_cons, ← ih]
      simp [told]

/-- The cases of the run are the first calls of the body. -/
theorem Blocks.told_take {m count : Nat} {trace : List HandleEvent}
    (h : Blocks dladdr bodies 0 m trace) (hCount : count ≤ m) :
    (told trace).take count =
      (List.range count).map fun k => (outcomeAt dladdr bodies k).status := by
  rw [h.told_eq, ← List.map_take, Nat.sub_zero, ← List.range_eq_range', List.take_range,
    Nat.min_eq_left hCount]

theorem Blocks.interesting_notMem {m count : Nat} {trace : List HandleEvent}
    (h : Blocks dladdr bodies 0 m trace) (hCount : count ≤ m) :
    .interesting ∉ (told trace).take count ↔
      ∀ k < count, (bodies k).ending.own = none := by
  rw [h.told_take hCount]
  simp only [List.mem_map, List.mem_range, not_exists, not_and, outcomeAt_interesting, ne_eq,
    not_not]

theorem reportRun_adds (captured : Option BodyOutcome) :
    Preserves (Adds dladdr bodies) (reportRun dladdr bodies engine captured) := by
  unfold reportRun
  cases engine.status with
  | passed => exact pure_adds ()
  | failed => exact reportFailures_adds engine
  | failedNondeterministic =>
      cases captured with
      | none => exact fail_adds _
      | some outcome => exact rethrow_adds _
  | error => exact bind_adds (check_adds _) fun _ => fail_adds _

/-- A run that is not disturbed gets through all its cases, and returns if it passed. -/
theorem runFromEngine_completes (hLawful : engine.Lawful) :
    (runFromEngine dladdr bodies engine).Ensures {} fun result state =>
      engine.cases.length ≤ state.calls ∧ (engine.status = .passed → result = .ok ()) := by
  refine runFromEngine_lawful hLawful fun captured state hCalls _ => ?_
  have hReturns : (reportRun dladdr bodies engine captured).Ensures state fun result _ =>
      engine.status = .passed → result = .ok () := by
    unfold reportRun
    cases hStatus : engine.status with
    | passed => exact ensures_pure () fun _ => rfl
    | _ => exact fun _ _ _ _ h => nomatch h
  refine ((reportRun_adds captured state).and hReturns).mono ?_
  rintro result state' ⟨⟨trace, -, hBlocks⟩, hReturns⟩
  exact ⟨hCalls ▸ hBlocks.le, hReturns⟩

/-- `hegel::test` returns exactly when no case of the run failed. -/
theorem returns_iff_no_case_failed (dladdr : Dladdr) (bodies : Nat → BodyRun) {engine : Engine}
    {statefulStepCount : Int} (hUndisturbed : Undisturbed engine statefulStepCount) (fuel : Nat) :
    ∃ result state,
      test dladdr bodies engine statefulStepCount [] fuel {} = some (result, state) ∧
        (engine.Honest state.trace →
          (result = .ok () ↔ ∀ k < engine.cases.length, (bodies k).ending.own = none)) := by
  obtain ⟨hLawful, hSteps⟩ := hUndisturbed
  have hAccepts : engine.AcceptsHandles := fun reply hReply =>
    (hLawful.cases reply hReply).isNondeterministic
  obtain ⟨result, state, hEnd⟩ := total_test dladdr bodies engine statefulStepCount [] fuel {}
  refine ⟨result, state, hEnd, fun hHonest => ?_⟩
  obtain ⟨trace, hTrace, hBlocks⟩ :=
    test_adds hAccepts statefulStepCount [] {} fuel result state hEnd
  rw [List.nil_append] at hTrace
  have hEngine := hEnd
  rw [test_engine hLawful hSteps] at hEngine
  obtain ⟨hCalls, hReturns⟩ := runFromEngine_completes hLawful fuel result state hEngine
  rw [← hBlocks.interesting_notMem hCalls, ← hTrace]
  refine Iff.trans ?_ hHonest
  constructor
  · rintro rfl
    exact (throws_test statefulStepCount [] {} fuel _ state hEnd).2.status
  · exact hReturns

/-- The engine was told of the failure, and `hegel::test` does not return. -/
theorem returns_iff_no_case_failed_oneFailure :
    ∃ result state, test (fun _ => none) (fun _ => ⟨[], .throws (runtimeError "failed")⟩) oneFailure
      50 [] 0 {} = some (result, state) ∧ oneFailure.Honest state.trace ∧ result ≠ .ok () := by
  obtain ⟨result, state, hEnd, hIff⟩ := returns_iff_no_case_failed (fun _ => none)
    (fun _ => ⟨[], .throws (runtimeError "failed")⟩)
    (show Undisturbed oneFailure 50 from ⟨oneFailure_lawful, by decide⟩) 0
  have hHonest : oneFailure.Honest state.trace := by
    cases hEnd
    exact iff_of_false (by decide) (by decide)
  refine ⟨result, state, hEnd, hHonest, fun hOk => ?_⟩
  cases (hIff hHonest).mp hOk 0 Nat.one_pos

end Hegel.Session
