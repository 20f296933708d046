import HegelCpp.Client.Halting
import HegelCpp.Stateful.Overlooks
import HegelCpp.Stateful.Soundness

/-! `stateful::run` is sound under sampling. Only the rules change the machine,
and an observation that ends the run is the last one. -/
namespace Hegel

open Logic Program

variable {S α β κ : Type} {handle : Nat}

/-- What was seen of `handle` on the way from `a` to `b`. The memory is the
last state that was seen. -/
structure Watched (handle : Nat) (seen : List (Observation S)) (a b : World S) : Prop where
  machines_le : a.machines ≤ b.machines
  seen_eq : observationsOf handle b.history = observationsOf handle a.history ++ seen
  memory : b.memory = lastState a.memory seen

namespace Watched

variable {a b c : World S} {seen more : List (Observation S)}

theorem refl (handle : Nat) (a : World S) : Watched handle [] a a :=
  ⟨Nat.le_refl _, by simp, rfl⟩

theorem trans (hab : Watched handle seen a b) (hbc : Watched handle more b c) :
    Watched handle (seen ++ more) a c where
  machines_le := Nat.le_trans hab.machines_le hbc.machines_le
  seen_eq := by rw [hbc.seen_eq, hab.seen_eq, List.append_assoc]
  memory := by rw [lastState_append, ← hab.memory, hbc.memory]

/-- One more observation, which shows the memory if it shows any. -/
theorem observe (h : Watched handle seen a b) (what : Observation S)
    (hMemory : b.memory = lastState b.memory [what]) :
    Watched handle (seen ++ [what]) a (b.log (.observed handle what)) := by
  refine h.trans ⟨Nat.le_refl _, ?_, hMemory⟩
  rw [observationsOf_append]
  simp [observationsOf]

end Watched

/-- Code that neither shows nor changes the machine. -/
def Still (handle : Nat) (a b : World S) : Prop := Watched handle [] a b

namespace Still

theorem refl (handle : Nat) (a : World S) : Still handle a a := Watched.refl handle a

theorem trans ⦃a b c : World S⦄ (hab : Still handle a b) (hbc : Still handle b c) :
    Still handle a c :=
  Watched.trans hab hbc

theorem log (a : World S) {e : Event S} (he : observationsOf handle [e] = []) :
    Still handle a (a.log e) :=
  ⟨Nat.le_refl _, by rw [observationsOf_append, he], rfl⟩

theorem overlooks : Overlooks (Still handle : World S → World S → Prop) where
  refl := refl handle
  trans := trans
  answers := fun _ _ => ⟨Nat.le_refl _, by simp, rfl⟩
  outstanding := fun _ _ => ⟨Nat.le_refl _, by simp, rfl⟩
  spans := fun _ _ _ => ⟨Nat.le_refl _, by simp, rfl⟩
  machines := fun _ => ⟨Nat.le_succ _, by simp, rfl⟩
  talk := fun world e he => by
    refine log world ?_
    cases e with
    | observed => exact he.elim
    | _ => rfl

theorem preserves_record {e : Event S} (he : observationsOf handle [e] = []) :
    Preserves (Still handle) (record e) :=
  fun world => ensures_record e (log world he)

theorem preserves_note (text : String) : Preserves (Still handle) (note text : Client S Unit) :=
  fun world => ensures_note text (log world rfl)

theorem preserves_printState (machine : StateMachine S) (params : RunParams) :
    Preserves (Still handle) (printState machine params) :=
  Hegel.preserves_printState (refl handle) trans preserves_note machine params

/-- The handlers of a step. -/
theorem preserves_stepHandler (machine : Nat) (start : World S) (opened : OpenSpan) (e : Exn) :
    Preserves (Still handle) (stepHandler machine start opened e) := by
  refine preserves_bind trans (preserves_record rfl) fun _ => preserves_ite ?_ ?_
  · exact preserves_bind trans (preserves_note _) fun _ =>
      preserves_bind trans (overlooks.ruleRejected machine) fun _ =>
        preserves_bind trans (preserves_record rfl) fun _ =>
          preserves_bind trans (overlooks.stopSpan true) fun _ =>
            preserves_bind trans (preserves_get (refl handle)) fun _ => preserves_record rfl
  · exact preserves_bind trans (preserves_record rfl) fun _ =>
      preserves_bind trans (overlooks.stopSpan false) fun _ => preserves_throw (refl handle) e

end Still

/-- Code that does not show the machine; it may change it. -/
def Unseen (handle : Nat) (a b : World S) : Prop :=
  handle < a.machines →
    a.machines ≤ b.machines ∧ observationsOf handle b.history = observationsOf handle a.history

namespace Unseen

theorem refl (handle : Nat) (a : World S) : Unseen handle a a := fun _ => ⟨Nat.le_refl _, rfl⟩

theorem trans ⦃a b c : World S⦄ (hab : Unseen handle a b) (hbc : Unseen handle b c) :
    Unseen handle a c := by
  intro hOwn
  obtain ⟨hLe, hSame⟩ := hab hOwn
  obtain ⟨hLe', hSame'⟩ := hbc (Nat.lt_of_lt_of_le hOwn hLe)
  exact ⟨Nat.le_trans hLe hLe', hSame'.trans hSame⟩

/-- Client code shows nothing of a machine that existed before. -/
theorem of_client {a b : World S} (h : ClientEffect a b) : Unseen handle a b := by
  intro hOwn
  obtain ⟨new, hNew, hAllowed⟩ := h.history
  have hNone : observationsOf handle new = [] := by
    apply List.filterMap_eq_nil_iff.mpr
    intro e he
    cases e with
    | observed m what =>
        have hYounger : a.machines ≤ m := hAllowed _ he
        exact if_neg (by omega)
    | _ => rfl
  exact ⟨h.machines_le, by rw [hNew, observationsOf_append, hNone, List.append_nil]⟩

end Unseen

/-- Nothing fatal was seen if `going`; otherwise at most at the very end. -/
def Tidy (going : Prop) (seen : List (Observation S)) : Prop :=
  Clean seen.dropLast ∧ (going → Clean seen)

/-- However `p` ends, what is seen of the machine is tidy. -/
def Watches (handle : Nat) (p : Client S α) : Prop :=
  ∀ world : World S, handle < world.machines → p.Ensures world fun result world' =>
    ∃ seen, Watched handle seen world world' ∧ Tidy (∃ a, result = .ok a) seen

namespace Watches

variable {p : Client S α}

theorem of_still (h : Preserves (Still handle) p) : Watches handle p :=
  fun world _ => (h world).mono fun _ _ hStill => ⟨[], hStill, Clean.nil, fun _ => Clean.nil⟩

theorem bind {k : α → Client S β} (hp : Watches handle p) (hk : ∀ a, Watches handle (k a)) :
    Watches handle (p >>= k) := by
  intro world hOwn
  refine ensures_bind ((hp world hOwn).mono ?_)
  rintro (e | a) middle ⟨seen, hSeen, hDrop, hClean⟩
  · exact ⟨seen, hSeen, hDrop, fun ⟨_, h⟩ => by cases h⟩
  have hClean := hClean ⟨a, rfl⟩
  refine (hk a middle (Nat.lt_of_lt_of_le hOwn hSeen.machines_le)).mono ?_
  rintro result world' ⟨more, hMore, hDrop', hClean'⟩
  exact ⟨_, hSeen.trans hMore, hClean.append_dropLast hDrop', fun h => hClean.append (hClean' h)⟩

theorem ite {c : Prop} [Decidable c] {q : Client S α} (hp : Watches handle p)
    (hq : Watches handle q) : Watches handle (if c then p else q) := by
  split
  · exact hp
  · exact hq

theorem loop {body : κ → Client S (κ ⊕ α)} (hBody : ∀ k, Watches handle (body k)) (k : κ) :
    Watches handle (Program.loop body k) := by
  intro world hOwn
  refine ensures_loop (fun _ middle => ∃ seen, Watched handle seen world middle ∧ Clean seen)
    ⟨[], Watched.refl handle world, Clean.nil⟩ ?_
  rintro k middle ⟨seen, hSeen, hClean⟩
  refine (hBody k middle (Nat.lt_of_lt_of_le hOwn hSeen.machines_le)).mono ?_
  rintro (e | next | a) world' ⟨more, hMore, hDrop, hClean'⟩
  · exact ⟨_, hSeen.trans hMore, hClean.append_dropLast hDrop, fun ⟨_, h⟩ => by cases h⟩
  · exact ⟨_, hSeen.trans hMore, hClean.append (hClean' ⟨_, rfl⟩)⟩
  · exact ⟨_, hSeen.trans hMore, (hClean.append (hClean' ⟨_, rfl⟩)).dropLast,
      fun _ => hClean.append (hClean' ⟨_, rfl⟩)⟩

end Watches

section Run
variable {machine : StateMachine S} {params : RunParams} {rule : Rule S}

/-- The exception, if there is one, is a reject. -/
def Continues (result : Except Exn Unit) : Prop := ∀ e, result = .error e → e.isReject = true

/-- The rule, the state it left, and its failure unless that is a reject. -/
theorem observeRule_watched {step : Client S Unit} (index : Nat)
    (hStep : Preserves (Unseen handle) step) (world : World S) (hOwn : handle < world.machines) :
    (observeRule handle index step).Ensures world fun result world' =>
      ∃ seen, Watched handle seen world world' ∧ Tidy (Continues result) seen := by
  have hStarted := (Watched.refl handle world).observe (.rule index) rfl
  have hRule : Clean [Observation.rule (S := S) index] := Clean.nil.cons id
  refine ensures_bind (ensures_record _ ?_)
  refine ensures_bind (ensures_tryCatch ((hStep _).mono fun result left hLeft => ?_))
  obtain ⟨hLe, hSame⟩ := hLeft hOwn
  -- The step may have changed the memory; the snapshot shows what it is now.
  have hState : Watched handle ([] ++ [.rule index] ++ [.state left.memory]) world
      (left.log (.observed handle (.state left.memory))) := by
    refine ⟨hStarted.machines_le.trans hLe, ?_, rfl⟩
    rw [observationsOf_append, hSame, hStarted.seen_eq, List.append_assoc, List.append_assoc]
    simp [observationsOf]
  have hClean : Clean ([] ++ [.rule index] ++ [.state left.memory]) :=
    Clean.nil.append hRule |>.append (Clean.nil.cons id)
  cases result with
  | error e =>
      refine ensures_bind (ensures_get (ensures_bind (ensures_record _ (ensures_bind ?_))))
      refine ensures_ite (fun hReject => ensures_pure _ (ensures_throw _ ?_)) fun hOther =>
        ensures_record _ (ensures_throw _ ?_)
      · exact ⟨_, hState, hClean.dropLast, fun _ => hClean⟩
      · refine ⟨_, hState.observe (.ruleFailed e) rfl, ?_, fun h => ?_⟩
        · rw [List.dropLast_concat]
          exact hClean
        · exact absurd (h e rfl) hOther
  | ok _ =>
      refine ensures_bind (ensures_get (ensures_record _ ?_))
      exact ⟨_, hState, hClean.dropLast, fun _ => hClean⟩

/-- The `try` block of a step shows no more than its rule does. -/
theorem stepBody_watched (index : Nat) (hStep : Preserves ClientEffect rule.step)
    (world : World S) (hOwn : handle < world.machines) :
    (stepBody machine params handle index rule).Ensures world fun result world' =>
      ∃ seen, Watched handle seen world world' ∧ Tidy (Continues result) seen := by
  have hRule : Preserves (Unseen handle) (noteIndentScope rule.step) := by
    refine preserves_noteIndentScope Unseen.trans (fun world _ => Unseen.refl handle world) ?_
    exact fun world => (hStep world).mono fun _ _ => Unseen.of_client
  have hRest : Preserves (Still handle) (do
      printState machine params
      record (.call handle (.ended none))
      record (.call handle (.stopSpan false))
      let _ ← stopSpan false
      pure ()) :=
    preserves_bind Still.trans (Still.preserves_printState machine params) fun _ =>
      preserves_bind Still.trans (Still.preserves_record rfl) fun _ =>
        preserves_bind Still.trans (Still.preserves_record rfl) fun _ =>
          preserves_bind Still.trans (Still.overlooks.stopSpan false) fun _ =>
            preserves_pure (Still.refl handle) _
  refine ensures_bind ((observeRule_watched index hRule world hOwn).mono ?_)
  rintro (e | _) middle ⟨seen, hSeen, hDrop, hClean⟩
  · exact ⟨seen, hSeen, hDrop, hClean⟩
  have hClean := hClean fun _ h => by cases h
  refine (hRest middle).mono fun result world' hStill => ?_
  refine ⟨seen ++ [], hSeen.trans hStill, ?_⟩
  rw [List.append_nil]
  exact ⟨hClean.dropLast, fun _ => hClean⟩

theorem stepHandler_throws {start world : World S} {opened : OpenSpan} {e : Exn}
    (hOther : ¬ e.isReject = true) :
    (stepHandler handle start opened e).Ensures world fun result _ => result = .error e := by
  refine ensures_bind (ensures_record _ (ensures_ite (fun h => absurd h hOther) fun _ => ?_))
  exact ensures_bind (ensures_record _ (ensures_bind (ensures_stopSpan (ensures_throw _ rfl))))

/-- After a rule that threw anything but a reject, the step throws as well. -/
theorem runStep_watches (index stepsRun : Nat) (hStep : Preserves ClientEffect rule.step) :
    Watches handle (runStep machine params handle index stepsRun rule) := by
  apply Watches.bind (.of_still (preserves_get (Still.refl handle)))
  intro start
  apply Watches.bind (.of_still (Still.preserves_record rfl))
  intro _
  apply Watches.bind (.of_still (Still.overlooks.startSpan _))
  intro opened
  apply Watches.bind (.of_still (Still.preserves_note _))
  intro _
  apply Watches.bind (.of_still (Still.preserves_record rfl))
  intro _ world hOwn
  refine ensures_tryCatch ((stepBody_watched index hStep world hOwn).mono ?_)
  rintro (e | _) middle ⟨seen, hSeen, hDrop, hClean⟩
  · have hHandler : Preserves (Still handle) (stepHandler handle start opened e) :=
      Still.preserves_stepHandler handle start opened e
    by_cases hReject : e.isReject = true
    · have hClean := hClean (by rintro _ ⟨⟩; exact hReject)
      refine (hHandler middle).mono fun result world' hStill =>
        ⟨seen ++ [], hSeen.trans hStill, ?_⟩
      rw [List.append_nil]
      exact ⟨hClean.dropLast, fun _ => hClean⟩
    · refine ((hHandler middle).and (stepHandler_throws hReject)).mono ?_
      rintro result world' ⟨hStill, rfl⟩
      refine ⟨seen ++ [], hSeen.trans hStill, ?_⟩
      rw [List.append_nil]
      exact ⟨hDrop, fun ⟨_, h⟩ => by cases h⟩
  · have hClean := hClean fun _ h => by cases h
    exact ⟨seen, hSeen, hClean.dropLast, fun _ => hClean⟩

theorem checkInvariant_watches (origin : String) (index : Nat) (invariant : Invariant S)
    (world : World S) :
    (checkInvariant handle origin index invariant).Ensures world fun result world' =>
      Watched handle [.invariant index world.memory (invariant.check world.memory)] world world' ∧
        (result = .ok () → invariant.check world.memory = none) := by
  have hSeen := (Watched.refl handle world).observe
    (.invariant index world.memory (invariant.check world.memory)) rfl
  refine ensures_bind (ensures_get (ensures_bind (ensures_record _ ?_)))
  cases hCheck : invariant.check world.memory with
  | none => exact ensures_pure _ ⟨hCheck ▸ hSeen, fun _ => rfl⟩
  | some e =>
      rw [hCheck] at hSeen
      refine ensures_bind (ensures_note _ (ensures_throw _ ⟨?_, fun h => by cases h⟩))
      exact hSeen.trans (Still.log _ rfl)

/-- The unconditional checks: all invariants on the present state, or those up
to the first that throws. -/
theorem checkInvariants_evaluates (origin : String) (index : Nat)
    (invariants : List (Invariant S)) (world : World S) :
    (checkInvariants handle origin false index invariants).Ensures world (andThen
      (fun _ world' => Holds invariants world.memory ∧
        Watched handle (evaluations world.memory index invariants) world world')
      (fun _ world' => ∃ seen, Watched handle seen world world' ∧ OnlyEvaluations seen ∧
        Clean seen.dropLast)) := by
  induction invariants generalizing index world with
  | nil => exact ensures_pure _ ⟨(fun _ h => by cases h), Watched.refl handle world⟩
  | cons invariant rest ih =>
      refine ensures_bind (ensures_pure _ (ensures_bind ?_))
      refine ((checkInvariant_watches origin index invariant world).mono ?_)
      rintro (e | _) checked ⟨hSeen, hPassed⟩
      · refine ⟨_, hSeen, ?_, Clean.nil⟩
        intro what hMem
        exact ⟨_, _, _, List.mem_singleton.mp hMem⟩
      have hPassed := hPassed rfl
      have hMemory : checked.memory = world.memory := hSeen.memory
      refine (ih (index + 1) checked).mono ?_
      rintro (e | _) world' hRest
      · obtain ⟨seen, hMore, hOnly, hDrop⟩ := hRest
        refine ⟨_, hSeen.trans hMore, ?_, ?_⟩
        · intro what hMem
          rcases List.mem_cons.mp hMem with rfl | hMem
          · exact ⟨_, _, _, rfl⟩
          · exact hOnly what hMem
        · refine Clean.append_dropLast (Clean.nil.cons ?_) hDrop
          simp [Observation.Fatal, hPassed]
      · obtain ⟨hHolds, hMore⟩ := hRest
        rw [hMemory] at hHolds hMore
        refine ⟨?_, hSeen.trans hMore⟩
        intro other hMem
        rcases List.mem_cons.mp hMem with rfl | hMem
        · exact hPassed
        · exact hHolds other hMem

/-- A join point shows the invariants that were sampled. -/
theorem checkInvariants_watches (origin : String) (index : Nat)
    (invariants : List (Invariant S)) :
    Watches handle (checkInvariants handle origin true index invariants) := by
  induction invariants generalizing index with
  | nil => exact .of_still (preserves_pure (Still.refl handle) _)
  | cons invariant rest ih =>
      refine Watches.bind (.of_still (Still.overlooks.shouldCheckInvariant handle index))
        fun selected => Watches.bind (.ite ?_ (.of_still (preserves_pure (Still.refl handle) _)))
          fun _ => ih (index + 1)
      intro world _
      refine (checkInvariant_watches origin index invariant world).mono ?_
      rintro result world' ⟨hSeen, hPassed⟩
      refine ⟨_, hSeen, Clean.nil, fun ⟨_, hOk⟩ => Clean.nil.cons ?_⟩
      simp [Observation.Fatal, hPassed hOk]

variable (hRules : ∀ rule ∈ machine.rules, Preserves ClientEffect rule.step)
include hRules

theorem runRules_watches (stepsRun : Nat) :
    Watches handle (runRules machine params handle stepsRun) := by
  apply Watches.bind (.of_still (Still.overlooks.nextRule handle))
  intro index
  apply Watches.ite (.of_still (preserves_pure (Still.refl handle) _))
  cases hRule : ruleAt machine.rules index with
  | none => exact .of_still (preserves_throw (Still.refl handle) _)
  | some rule =>
      exact Watches.bind (runStep_watches _ _ (hRules rule (ruleAt_spec hRule).1)) fun _ =>
        .of_still (preserves_pure (Still.refl handle) _)

theorem runRounds_watches (stepsRun : Nat) :
    Watches handle (runRounds machine params handle stepsRun) := by
  apply Watches.bind (.of_still (Still.overlooks.nextGroup handle))
  intro group
  apply Watches.ite (.of_still (preserves_pure (Still.refl handle) _))
  exact Watches.bind (Watches.loop (runRules_watches hRules) stepsRun) fun _ =>
    Watches.bind (checkInvariants_watches _ 0 machine.invariants) fun _ =>
      .of_still (preserves_pure (Still.refl handle) _)

/-- `stateful::run`, as an observer of its machine sees it. -/
theorem run_watched (world : World S) :
    (run machine params).Ensures world fun result world' =>
      ∃ seen, Watched world.machines seen world world' ∧
        Sound machine.invariants world.memory (result = .ok ()) seen := by
  have hEarly {e : Exn} {seen : List (Observation S)} (hOnly : OnlyEvaluations seen)
      (hDrop : Clean seen.dropLast) : Sound machine.invariants world.memory
        ((.error e : Except Exn Unit) = .ok ()) seen :=
    .early hOnly hDrop fun h => by cases h
  have hNothing {e : Exn} : Sound machine.invariants world.memory
      ((.error e : Except Exn Unit) = .ok ()) [] :=
    hEarly (fun _ h => by cases h) Clean.nil
  refine ensures_ite (fun _ => ensures_throw _ ⟨[], Watched.refl _ world, hNothing⟩) fun _ => ?_
  have hStill : Preserves (Still world.machines) (newStateMachine : Client S Nat) :=
    Still.overlooks.newStateMachine
  refine ensures_bind (((newStateMachine_calls world).and (hStill world)).mono ?_)
  rintro (e | handle) created ⟨⟨-, hOwn, hHandle⟩, hCreated⟩
  · exact ⟨[], hCreated, hNothing⟩
  obtain rfl := hHandle handle rfl
  have hNote (text : String) : Preserves (Still world.machines) (note text : Client S Unit) :=
    Still.preserves_note text
  have hPrint : Preserves (Still world.machines) (printState machine params) :=
    Still.preserves_printState machine params
  refine ensures_bind ((hNote _ created).mono ?_)
  rintro (e | _) noted hNoted
  · exact ⟨[], hCreated.trans hNoted, hNothing⟩
  refine ensures_bind ((hPrint noted).mono ?_)
  rintro (e | _) printed hPrinted
  · exact ⟨[], (hCreated.trans hNoted).trans hPrinted, hNothing⟩
  have hBefore := (hCreated.trans hNoted).trans hPrinted
  have hMemory : printed.memory = world.memory := hBefore.memory
  refine ensures_bind ((checkInvariants_evaluates _ 0 machine.invariants printed).mono ?_)
  rintro (e | _) begun hBegun
  · obtain ⟨seen, hSeen, hOnly, hDrop⟩ := hBegun
    exact ⟨seen, Watched.trans hBefore hSeen, hEarly hOnly hDrop⟩
  obtain ⟨hHolds, hChecked⟩ := hBegun
  rw [hMemory] at hHolds hChecked
  have hOwn' : world.machines < begun.machines :=
    Nat.lt_of_lt_of_le hOwn (Watched.trans (hNoted.trans hPrinted) hChecked).machines_le
  have hBegun := Watched.trans hBefore hChecked
  have hRaised {e : Exn} {seen : List (Observation S)} (hDrop : Clean seen.dropLast) :
      Sound machine.invariants world.memory ((.error e : Except Exn Unit) = .ok ())
        (evaluations world.memory 0 machine.invariants ++ seen) :=
    .raised hHolds hDrop fun h => by cases h
  refine ensures_bind ((Watches.loop (runRounds_watches hRules) 0 begun hOwn').mono ?_)
  rintro (e | _) looped ⟨seen, hSeen, hDrop, hClean⟩
  · exact ⟨_, hBegun.trans hSeen, hRaised hDrop⟩
  have hClean := hClean ⟨_, rfl⟩
  refine ensures_bind ((hNote _ looped).mono ?_)
  rintro (e | _) last hLast
  · exact ⟨_, hBegun.trans (hSeen.trans hLast), hRaised (by simpa using hDrop)⟩
  have hSeen := hSeen.trans hLast
  rw [List.append_nil] at hSeen
  have hFinal : last.memory = lastState world.memory seen := by
    rw [(hBegun.trans hSeen).memory, lastState_append]
    exact congrArg (lastState · seen) (lastState_evaluations _ _ 0 _)
  refine (checkInvariants_evaluates _ 0 machine.invariants last).mono ?_
  rintro (e | _) world' hEnd
  · obtain ⟨more, hMore, -, hDrop'⟩ := hEnd
    exact ⟨_, hBegun.trans (hSeen.trans hMore), hRaised (hClean.append_dropLast hDrop')⟩
  · obtain ⟨hHolds', hMore⟩ := hEnd
    rw [hFinal] at hHolds' hMore
    exact ⟨_, hBegun.trans (hSeen.trans hMore), .finished hHolds hClean hHolds'⟩

end Run

/-- What an observer saw of a run of `machine` that ended with `result`. -/
def SoundEnd (machine : StateMachine S) (world : World S) (result : Except Exn Unit)
    (world' : World S) : Prop :=
  ∃ seen, observationsOf world.machines world'.history =
      observationsOf world.machines world.history ++ seen ∧
    world'.memory = lastState world.memory seen ∧
    SamplingSound machine.invariants world.memory (result = .ok ()) seen

/-- A run of `machine` from `world` is sound under sampling, and it does end if
its rules end, by whatever they return, reject or throw. -/
structure SoundRun (machine : StateMachine S) (params : RunParams) (world : World S) : Prop where
  sound : (run machine params).Ensures world (SoundEnd machine world)
  ends : (∀ rule ∈ machine.rules, ∀ later : World S, later.budget ≤ world.budget →
      rule.step.Halts later) →
    ∃ enough result world', (∀ fuel, enough ≤ fuel →
      run machine params fuel world = some (result, world')) ∧
        SoundEnd machine world result world'

theorem run_sound {machine : StateMachine S} {params : RunParams}
    (hRules : ∀ rule ∈ machine.rules, Preserves ClientEffect rule.step)
    (hShrinks : ∀ rule ∈ machine.rules, Preserves (fun a b => b.budget ≤ a.budget) rule.step)
    (world : World S) : SoundRun machine params world := by
  have hSound : (run machine params).Ensures world (SoundEnd machine world) :=
    (run_watched hRules world).mono fun _ _ ⟨seen, hWatched, hSound⟩ =>
      ⟨seen, hWatched.seen_eq, hWatched.memory, hSound.samplingSound⟩
  exact ⟨hSound, fun hEnds => (run_halts params hShrinks hEnds).ensures hSound⟩

end Hegel
