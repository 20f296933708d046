import HegelCpp.Client.Protocol
import HegelCpp.Stateful.Overlooks
import HegelCpp.Stateful.StateLines

/-! The state lines of `stateful::run`. Whatever its rules note stands at a
deeper indent, so the lines at the machine's own indent are its own. -/
namespace Hegel

open Logic Program

variable {S α : Type} {handle : Nat}

/-- A note of code that runs at `indent` or deeper. -/
def Event.Within (indent : Nat) : Event S → Prop
  | .note i _ => indent ≤ i
  | _ => True

/-- What the report shows of `handle` on the way from `a` to `b`. -/
structure Shows (handle : Nat) (shown : List (Shown S)) (a b : World S) : Prop where
  machines_le : a.machines ≤ b.machines
  indent_eq : b.noteIndent = a.noteIndent
  memory : b.memory = present a.memory shown
  history : ∃ new, b.history = a.history ++ new ∧ shownOf handle a.noteIndent new = shown ∧
    ∀ e ∈ new, e.Within a.noteIndent

namespace Shows

variable {a b c : World S} {shown more : List (Shown S)}

theorem refl (handle : Nat) (a : World S) : Shows handle [] a a :=
  ⟨Nat.le_refl _, rfl, rfl, [], by simp, rfl, List.forall_mem_nil _⟩

theorem trans (hab : Shows handle shown a b) (hbc : Shows handle more b c) :
    Shows handle (shown ++ more) a c where
  machines_le := hab.machines_le.trans hbc.machines_le
  indent_eq := hbc.indent_eq.trans hab.indent_eq
  memory := by rw [present_append, ← hab.memory, hbc.memory]
  history := by
    obtain ⟨first, hFirst, hShown, hWithin⟩ := hab.history
    obtain ⟨second, hSecond, hShown', hWithin'⟩ := hbc.history
    rw [hab.indent_eq] at hShown' hWithin'
    refine ⟨first ++ second, by rw [hSecond, hFirst, List.append_assoc], ?_, ?_⟩
    · rw [shownOf_append, hShown, hShown']
    · exact fun e he => (List.mem_append.mp he).elim (hWithin e) (hWithin' e)

/-- One more event, which shows the memory if it shows any. -/
theorem log (a : World S) {e : Event S} (he : e.Within a.noteIndent)
    (hMemory : a.memory = present a.memory (shownOf handle a.noteIndent [e])) :
    Shows handle (shownOf handle a.noteIndent [e]) a (a.log e) where
  machines_le := Nat.le_refl _
  indent_eq := rfl
  memory := hMemory
  history := by
    refine ⟨[e], rfl, rfl, fun e' he' => ?_⟩
    rw [List.mem_singleton.mp he']
    exact he

theorem note (a : World S) {text : String} {line : Option String} (h : stateLine text = line) :
    Shows handle (line.map Shown.state).toList a (a.log (.note a.noteIndent text)) := by
  have hShown : shownOf handle a.noteIndent [.note a.noteIndent text] =
      ((line.map .state).toList : List (Shown S)) := by
    cases line <;> simp [shownOf, h]
  rw [← hShown]
  refine log a (Nat.le_refl _) ?_
  rw [hShown]
  cases line <;> rfl

theorem started (a : World S) (index : Nat) :
    Shows handle [.started] a (a.log (.call handle (.rule index))) := by
  have hShown : shownOf handle a.noteIndent [Event.call (S := S) handle (.rule index)] =
      [.started] := by
    simp [shownOf]
  rw [← hShown]
  exact log a trivial (by rw [hShown]; rfl)

theorem ended (a : World S) (exn : Option Exn) :
    Shows handle [.ended exn.isNone] a (a.log (.call handle (.ended exn))) := by
  have hShown : shownOf handle a.noteIndent [Event.call (S := S) handle (.ended exn)] =
      [.ended exn.isNone] := by
    simp [shownOf]
  rw [← hShown]
  exact log a trivial (by rw [hShown]; rfl)

end Shows

/-- Code that shows nothing of the machine and leaves it alone. -/
def Silent (handle : Nat) (a b : World S) : Prop := Shows handle [] a b

namespace Silent

theorem refl (handle : Nat) (a : World S) : Silent handle a a := Shows.refl handle a

theorem trans ⦃a b c : World S⦄ (hab : Silent handle a b) (hbc : Silent handle b c) :
    Silent handle a c :=
  Shows.trans hab hbc

theorem after {a b c : World S} {shown : List (Shown S)} (hbc : Silent handle b c)
    (hab : Shows handle shown a b) : Shows handle shown a c := by
  have hBoth := hab.trans hbc
  rwa [List.append_nil] at hBoth

theorem log (a : World S) {e : Event S} (he : e.Within a.noteIndent)
    (hNone : shownOf handle a.noteIndent [e] = []) : Silent handle a (a.log e) := by
  have hShows : Shows handle (shownOf handle a.noteIndent [e]) a (a.log e) :=
    Shows.log a he (by rw [hNone]; rfl)
  rwa [hNone] at hShows

/-- A change of what neither the report nor the machine shows. -/
theorem of_eq {a b : World S} (hMachines : a.machines ≤ b.machines)
    (hIndent : b.noteIndent = a.noteIndent) (hMemory : b.memory = a.memory)
    (hHistory : b.history = a.history) : Silent handle a b :=
  ⟨hMachines, hIndent, hMemory, [], by rw [hHistory, List.append_nil], rfl, List.forall_mem_nil _⟩

theorem overlooks : Overlooks (Silent handle : World S → World S → Prop) where
  refl := refl handle
  trans := trans
  answers := fun _ _ => of_eq (Nat.le_refl _) rfl rfl rfl
  outstanding := fun _ _ => of_eq (Nat.le_refl _) rfl rfl rfl
  spans := fun _ _ _ => of_eq (Nat.le_refl _) rfl rfl rfl
  machines := fun _ => of_eq (Nat.le_succ _) rfl rfl rfl
  talk := fun world e he => by
    cases e with
    | call machine call =>
        refine log world trivial ?_
        cases call with
        | rule | ended => exact he.elim
        | _ => rfl
    | rejectedRule | absorbed => exact log world trivial rfl
    | note | observed => exact he.elim

theorem preserves_record {e : Event S} (he : ∀ indent, e.Within indent)
    (hNone : ∀ indent, shownOf handle indent [e] = []) : Preserves (Silent handle) (record e) :=
  fun world => ensures_record e (log world (he _) (hNone _))

theorem preserves_note {text : String} (h : stateLine text = none) :
    Preserves (Silent handle) (note text : Client S Unit) :=
  fun world => ensures_note text (Shows.note world h)

theorem preserves_checkInvariant (origin : String) (index : Nat) (invariant : Invariant S) :
    Preserves (Silent handle) (checkInvariant handle origin index invariant) := by
  have hNote : stateLine ("Invariant " ++ invariant.name ++ " violated " ++ origin) = none :=
    stateLine_none (c := 'I') (by simp) (by decide)
  exact Hegel.preserves_checkInvariant (refl handle) trans
    (fun _ _ => preserves_record (fun _ => trivial) fun _ => rfl) (preserves_note hNote)

theorem preserves_checkInvariants (origin : String) (sampled : Bool) (index : Nat)
    (invariants : List (Invariant S)) :
    Preserves (Silent handle) (checkInvariants handle origin sampled index invariants) :=
  Hegel.preserves_checkInvariants (refl handle) trans
    (fun _ => overlooks.shouldCheckInvariant handle) (preserves_checkInvariant origin) index
    invariants

end Silent

/-- Code that notes nothing above its own indent and restores it. -/
structure Nested (a b : World S) : Prop where
  indent_eq : b.noteIndent = a.noteIndent
  history : ∃ new, b.history = a.history ++ new ∧ ∀ e ∈ new, e.Within a.noteIndent

namespace Nested

variable {a b c : World S}

theorem of_eq (hIndent : b.noteIndent = a.noteIndent) (hHistory : b.history = a.history) :
    Nested a b :=
  ⟨hIndent, [], by rw [hHistory, List.append_nil], List.forall_mem_nil _⟩

theorem refl (a : World S) : Nested a a := of_eq rfl rfl

theorem trans ⦃a b c : World S⦄ (hab : Nested a b) (hbc : Nested b c) : Nested a c where
  indent_eq := hbc.indent_eq.trans hab.indent_eq
  history := by
    obtain ⟨first, hFirst, hWithin⟩ := hab.history
    obtain ⟨second, hSecond, hWithin'⟩ := hbc.history
    rw [hab.indent_eq] at hWithin'
    refine ⟨first ++ second, by rw [hSecond, hFirst, List.append_assoc], fun e he => ?_⟩
    exact (List.mem_append.mp he).elim (hWithin e) (hWithin' e)

theorem log (a : World S) {e : Event S} (he : e.Within a.noteIndent) : Nested a (a.log e) :=
  ⟨rfl, [e], rfl, fun _ h => List.mem_singleton.mp h ▸ he⟩

theorem of_shows {shown : List (Shown S)} (h : Shows handle shown a b) : Nested a b := by
  obtain ⟨new, hNew, -, hWithin⟩ := h.history
  exact ⟨h.indent_eq, new, hNew, hWithin⟩

end Nested

/-- What client code does: it leaves older machines alone and stays within its indent. -/
def Contained (a b : World S) : Prop := ClientEffect a b ∧ Nested a b

/-- A rule, which runs one indent deeper than the machine. -/
theorem rule_shows {step : Client S Unit} (hStep : Preserves Contained step) (world : World S)
    (hOwn : handle < world.machines) :
    (noteIndentScope step).Ensures world fun _ world' =>
      Shows handle [.left world'.memory] world
        (world'.log (.observed handle (.state world'.memory))) := by
  refine ensures_noteIndentScope ((hStep _).mono fun _ left hEnd => ?_)
  obtain ⟨hEffect, hNested⟩ := hEnd
  obtain ⟨new, hNew, hAllowed⟩ := hEffect.history
  obtain ⟨new', hNew', hWithin⟩ := hNested.history
  obtain rfl : new = new' := List.append_cancel_left (hNew.symm.trans hNew')
  have hNone : shownOf handle world.noteIndent new = [] := by
    apply List.filterMap_eq_nil_iff.mpr
    intro e he
    have hYounger := hAllowed e he
    have hDeeper := hWithin e he
    cases e with
    | note indent text => exact if_neg (Nat.ne_of_gt hDeeper)
    | call machine call =>
        have hOther : machine ≠ handle := Nat.ne_of_gt (Nat.lt_of_lt_of_le hOwn hYounger)
        cases call with
        | rule | ended => exact if_neg hOther
        | _ => rfl
    | observed machine what =>
        have hOther : machine ≠ handle := Nat.ne_of_gt (Nat.lt_of_lt_of_le hOwn hYounger)
        cases what with
        | state => exact if_neg hOther
        | _ => rfl
    | rejectedRule | absorbed => rfl
  refine ⟨hEffect.machines_le, ?_, rfl, new ++ [.observed handle (.state left.memory)], ?_, ?_, ?_⟩
  · simp [hNested.indent_eq]
  · rw [← List.append_assoc]
    exact congrArg (· ++ _) hNew
  · rw [shownOf_append, hNone]
    simp [shownOf]
  · intro e he
    rcases List.mem_append.mp he with he | he
    · have hDeeper := hWithin e he
      cases e with
      | note indent text => exact Nat.le_of_succ_le hDeeper
      | _ => trivial
    · rw [List.mem_singleton.mp he]
      trivial

section Run
variable {machine : StateMachine S} {params : RunParams} {rule : Rule S}

theorem observeRule_shows {step : Client S Unit} (index : Nat) (hStep : Preserves Contained step)
    (world : World S) (hOwn : handle < world.machines) :
    (observeRule handle index (noteIndentScope step)).Ensures world fun _ world' =>
      ∃ now, Shows handle [.left now] world world' := by
  have hStarted : Shows handle [] world (world.log (.observed handle (.rule index))) :=
    Silent.log world trivial rfl
  refine ensures_bind (ensures_record _ (ensures_bind (ensures_tryCatch ?_)))
  have hRule := rule_shows hStep (world.log (.observed handle (.rule index))) hOwn
  refine hRule.mono fun result left hLeft => ?_
  have hLeft := hStarted.trans hLeft
  cases result with
  | ok _ => exact ensures_bind (ensures_get (ensures_record _ ⟨_, hLeft⟩))
  | error e =>
      refine ensures_bind (ensures_get (ensures_bind (ensures_record _ (ensures_bind ?_))))
      refine ensures_ite (fun _ => ensures_pure _ (ensures_throw e ⟨_, hLeft⟩)) fun _ => ?_
      exact ensures_record _ (ensures_throw e ⟨_, hLeft.trans (Silent.log _ trivial rfl)⟩)

/-- What `print_state` shows of a state: with the option on, its rendering. -/
def Prints (machine : StateMachine S) (params : RunParams) (now : S) (shown : List (Shown S)) :
    Prop :=
  params.printState = true → ∃ text, machine.repr now = .ok text ∧ shown = [.state text]

theorem printState_shows (handle : Nat) (machine : StateMachine S) (params : RunParams)
    (world : World S) :
    (printState machine params).Ensures world (andThen
      (fun _ world' => ∃ shown, Shows handle shown world world' ∧
        Prints machine params world.memory shown)
      (fun _ world' => Silent handle world world')) := by
  refine ensures_bind (ensures_get (ensures_ite (fun hOn => ?_) fun hOff => ?_))
  · cases hRepr : machine.repr world.memory with
    | ok text =>
        have hLine : Shows handle [.state text] world _ := Shows.note world (stateLine_state text)
        exact ensures_note _ ⟨_, hLine, fun _ => ⟨text, hRepr, rfl⟩⟩
    | error e => exact ensures_throw e (Silent.refl handle world)
  · exact ensures_pure _ ⟨[], Shows.refl handle world, fun hOn => absurd hOn hOff⟩

/-- What one step shows, from the start of its rule on. -/
inductive StepShows (machine : StateMachine S) (params : RunParams) : List (Shown S) → Prop
  | completed {now : S} {shown : List (Shown S)} (h : Prints machine params now shown) :
      StepShows machine params ([.started] ++ ([.left now] ++ shown ++ [.ended true]))
  | thrown {now : S} : StepShows machine params ([.started] ++ ([.left now] ++ [.ended false]))

theorem stepBody_shows (index : Nat) (hStep : Preserves Contained rule.step) (world : World S)
    (hOwn : handle < world.machines) :
    (stepBody machine params handle index rule).Ensures world (andThen
      (fun _ world' => ∃ now shown, Prints machine params now shown ∧
        Shows handle ([.left now] ++ shown ++ [.ended true]) world world')
      (fun _ world' => ∃ now, Shows handle [.left now] world world')) := by
  refine ensures_bind ((observeRule_shows index hStep world hOwn).mono ?_)
  rintro (e | _) middle ⟨now, hLeft⟩
  · exact ⟨now, hLeft⟩
  have hMemory : middle.memory = now := hLeft.memory
  refine ensures_bind ((printState_shows handle machine params middle).mono ?_)
  rintro (e | _) printed hPrinted
  · exact ⟨now, hLeft.trans hPrinted⟩
  obtain ⟨shown, hShown, hPrints⟩ := hPrinted
  have hEnded := (hLeft.trans hShown).trans (Shows.ended printed none)
  refine ensures_bind (ensures_record _ (ensures_bind (ensures_record _ (ensures_bind
    (ensures_stopSpan (ensures_pure _ ?_))))))
  have hStopped : Silent handle (printed.log (.call handle (.ended none))) _ :=
    Silent.overlooks.talk _ (.call handle (.stopSpan false)) trivial
  exact ⟨now, shown, hMemory ▸ hPrints,
    Silent.after (hStopped.trans (Silent.overlooks.spans _ _ _)) hEnded⟩

/-- The handlers print no state, whether they absorb the exception or not. -/
theorem stepHandler_shows (start : World S) (opened : OpenSpan) (e : Exn) (world : World S) :
    (stepHandler handle start opened e).Ensures world fun _ world' =>
      Shows handle [.ended false] world world' := by
  have hEnded : Shows handle [.ended false] world _ := Shows.ended world (some e)
  have hRest : Preserves (Silent handle) (if e.isReject then do
        note rejectedNote
        ruleRejected handle
        record (.call handle (.stopSpan true))
        let closed ← stopSpan true
        recordAbsorption .run start (some opened) closed
      else do
        record (.call handle (.stopSpan false))
        let _ ← stopSpan false
        Program.throw e : Client S Unit) := by
    refine preserves_ite ?_ ?_
    · have hNote : stateLine rejectedNote = none := stateLine_none (c := 'R') rfl (by decide)
      exact Silent.overlooks.bind (Silent.preserves_note hNote) fun _ =>
        Silent.overlooks.bind (Silent.overlooks.ruleRejected handle) fun _ =>
          Silent.overlooks.bind (Silent.overlooks.record trivial) fun _ =>
            Silent.overlooks.bind (Silent.overlooks.stopSpan true) fun _ =>
              Silent.overlooks.recordAbsorption _ _ _ _
    · exact Silent.overlooks.bind (Silent.overlooks.record trivial) fun _ =>
        Silent.overlooks.bind (Silent.overlooks.stopSpan false) fun _ => Silent.overlooks.throw e
  exact ensures_bind (ensures_record _ ((hRest _).mono fun _ _ hSilent => hSilent.after hEnded))

theorem runStep_shows (index stepsRun : Nat) (hStep : Preserves Contained rule.step)
    (world : World S) (hOwn : handle < world.machines) :
    (runStep machine params handle index stepsRun rule).Ensures world fun _ world' =>
      ∃ shown, Shows handle shown world world' ∧ (shown = [] ∨ StepShows machine params shown) := by
  have hNote : stateLine ("Step " ++ toString stepsRun ++ ": " ++ rule.name) = none :=
    stateLine_none (c := 'S') (by simp) (by decide)
  have hAsked : Silent handle world (world.log (.call handle .startSpan)) :=
    Silent.overlooks.talk world _ trivial
  refine ensures_bind (ensures_get (ensures_bind (ensures_record _ ?_)))
  have hSpan : Preserves (Silent handle) (startSpan .statefulRule : Client S OpenSpan) :=
    Silent.overlooks.startSpan _
  refine ensures_bind ((hSpan _).mono ?_)
  rintro (e | opened) asked hOpened
  · exact ⟨[], hAsked.trans hOpened, .inl rfl⟩
  have hOpened := hAsked.trans hOpened
  refine ensures_bind (((Silent.preserves_note hNote : Preserves (Silent handle) _) asked).mono ?_)
  rintro (e | _) noted hNoted
  · exact ⟨[], hOpened.trans hNoted, .inl rfl⟩
  have hNoted := hOpened.trans hNoted
  have hOwn' : handle < noted.machines := Nat.lt_of_lt_of_le hOwn hNoted.machines_le
  have hStarted := Shows.trans hNoted (Shows.started noted index)
  refine ensures_bind (ensures_record _ (ensures_tryCatch ?_))
  refine (stepBody_shows index hStep (noted.log (.call handle (.rule index))) hOwn').mono ?_
  rintro (e | _) left hEnd
  · obtain ⟨now, hLeft⟩ := hEnd
    refine (stepHandler_shows world opened e left).mono fun _ world' hHandler => ?_
    exact ⟨_, hStarted.trans (hLeft.trans hHandler), .inr .thrown⟩
  · obtain ⟨now, shown, hPrints, hShown⟩ := hEnd
    exact ⟨_, hStarted.trans hShown, .inr (.completed hPrints)⟩

end Run

/-- What continues every report that a run with `print_state` on has begun. -/
def Extends (machine : StateMachine S) (params : RunParams) (more : List (Shown S)) : Prop :=
  params.printState = true → ∀ initial shown, Printed machine.repr initial shown →
    Printed machine.repr initial (shown ++ more)

theorem StepShows.goes_on {machine : StateMachine S} {params : RunParams}
    {shown : List (Shown S)} (h : StepShows machine params shown) :
    Extends machine params shown := by
  intro hOn initial prior hPrior
  cases h with
  | thrown => simpa using hPrior.thrown
  | completed hPrints =>
      obtain ⟨text, hRepr, rfl⟩ := hPrints hOn
      simpa using hPrior.completed hRepr

/-- Code that continues the report of `handle` if the machine is there. -/
def Stepping (machine : StateMachine S) (params : RunParams) (handle : Nat) (a b : World S) :
    Prop :=
  handle < a.machines → ∃ more, Shows handle more a b ∧ Extends machine params more

namespace Stepping
variable {machine : StateMachine S} {params : RunParams}

theorem of_silent {a b : World S} (h : Silent handle a b) : Stepping machine params handle a b := by
  refine fun _ => ⟨[], h, fun _ initial shown hPrior => ?_⟩
  rwa [List.append_nil]

theorem refl (a : World S) : Stepping machine params handle a a := of_silent (Silent.refl handle a)

theorem trans ⦃a b c : World S⦄ (hab : Stepping machine params handle a b)
    (hbc : Stepping machine params handle b c) : Stepping machine params handle a c := by
  intro hOwn
  obtain ⟨first, hFirst, hExtends⟩ := hab hOwn
  obtain ⟨second, hSecond, hExtends'⟩ := hbc (Nat.lt_of_lt_of_le hOwn hFirst.machines_le)
  refine ⟨first ++ second, hFirst.trans hSecond, fun hOn initial shown hPrior => ?_⟩
  rw [← List.append_assoc]
  exact hExtends' hOn _ _ (hExtends hOn _ _ hPrior)

theorem preserves_of_silent {p : Client S α} (h : Preserves (Silent handle) p) :
    Preserves (Stepping machine params handle) p :=
  fun world => (h world).mono fun _ _ hSilent => of_silent hSilent

variable (hRules : ∀ rule ∈ machine.rules, Preserves Contained rule.step)
include hRules

theorem preserves_runRules (stepsRun : Nat) :
    Preserves (Stepping machine params handle) (runRules machine params handle stepsRun) := by
  refine preserves_bind trans (preserves_of_silent (Silent.overlooks.nextRule handle)) fun index => ?_
  refine preserves_ite (preserves_pure refl _) ?_
  cases hRule : ruleAt machine.rules index with
  | none => exact preserves_throw refl _
  | some rule =>
      refine preserves_bind trans (fun world => ?_) fun _ => preserves_pure refl _
      by_cases hOwn : handle < world.machines
      case neg => exact fun _ _ _ _ hOwn' => absurd hOwn' hOwn
      refine (runStep_shows _ _ (hRules rule (ruleAt_spec hRule).1) world hOwn).mono ?_
      rintro _ world' ⟨shown, hShown, rfl | hStep⟩
      · exact of_silent hShown
      · exact fun _ => ⟨shown, hShown, hStep.goes_on⟩

theorem preserves_runRounds (stepsRun : Nat) :
    Preserves (Stepping machine params handle) (runRounds machine params handle stepsRun) := by
  refine preserves_bind trans (preserves_of_silent (Silent.overlooks.nextGroup handle)) fun _ => ?_
  refine preserves_ite (preserves_pure refl _) ?_
  refine preserves_bind trans (preserves_loop refl trans (preserves_runRules hRules) stepsRun)
    fun _ => preserves_bind trans (preserves_of_silent ?_) fun _ => preserves_pure refl _
  exact Silent.preserves_checkInvariants _ _ _ _

/-- The run behind the first print of the state. -/
theorem preserves_behind_first_line : Preserves (Stepping machine params handle) (do
    checkInvariants handle "in the initial state" false 0 machine.invariants
    Program.loop (runRounds machine params handle) 0
    note "Final invariant check."
    checkInvariants handle "in the final state" false 0 machine.invariants) := by
  have hLast : stateLine "Final invariant check." = none :=
    stateLine_none (c := 'F') rfl (by decide)
  refine preserves_bind trans
    (preserves_of_silent (Silent.preserves_checkInvariants _ _ _ _)) fun _ => ?_
  refine preserves_bind trans
    (preserves_loop refl trans (preserves_runRounds hRules) 0) fun _ => ?_
  exact preserves_of_silent (Silent.overlooks.bind (Silent.preserves_note hLast) fun _ =>
    Silent.preserves_checkInvariants _ _ _ _)

end Stepping

/-- `stateful::run`, as the report shows it. -/
theorem run_shows {machine : StateMachine S} {params : RunParams}
    (hRules : ∀ rule ∈ machine.rules, Preserves Contained rule.step) (world : World S) :
    (run machine params).Ensures world fun _ world' =>
      ∃ shown, Shows world.machines shown world world' ∧
        (params.printState = true → shown = [] ∨ Printed machine.repr world.memory shown) := by
  have hNothing {b : World S} (h : Silent world.machines world b) :
      ∃ shown, Shows world.machines shown world b ∧
        (params.printState = true → shown = [] ∨ Printed machine.repr world.memory shown) :=
    ⟨[], h, fun _ => .inl rfl⟩
  refine ensures_ite (fun _ => ensures_throw _ (hNothing (Silent.refl _ world))) fun _ => ?_
  have hNew : Preserves (Silent world.machines) (newStateMachine : Client S Nat) :=
    Silent.overlooks.newStateMachine
  refine ensures_bind (((newStateMachine_calls world).and (hNew world)).mono ?_)
  rintro (e | handle) created ⟨⟨-, hOwn, hHandle⟩, hCreated⟩
  · exact hNothing hCreated
  obtain rfl := hHandle handle rfl
  have hFirst : stateLine "Initial invariant check." = none :=
    stateLine_none (c := 'I') rfl (by decide)
  have hNote : Preserves (Silent world.machines) (note "Initial invariant check." : Client S Unit) :=
    Silent.preserves_note hFirst
  refine ensures_bind ((hNote created).mono ?_)
  rintro (e | _) noted hNoted
  · exact hNothing (hCreated.trans hNoted)
  have hOwn := Nat.lt_of_lt_of_le hOwn hNoted.machines_le
  have hNoted := hCreated.trans hNoted
  refine ensures_bind ((printState_shows world.machines machine params noted).mono ?_)
  rintro (e | _) printed hPrinted
  · exact hNothing (hNoted.trans hPrinted)
  obtain ⟨shown, hShown, hPrints⟩ := hPrinted
  have hOwn := Nat.lt_of_lt_of_le hOwn hShown.machines_le
  have hShown := Shows.trans hNoted hShown
  have hMemory : noted.memory = world.memory := hNoted.memory
  refine (Stepping.preserves_behind_first_line hRules printed).mono fun _ world' hEnd => ?_
  obtain ⟨more, hMore, hExtends⟩ := hEnd hOwn
  refine ⟨shown ++ more, hShown.trans hMore, fun hOn => .inr (hExtends hOn _ _ ?_)⟩
  obtain ⟨text, hRepr, rfl⟩ := hPrints hOn
  exact .begun (hMemory ▸ hRepr)

namespace Nested

theorem overlooks : Overlooks (Nested : World S → World S → Prop) where
  refl := refl
  trans := trans
  answers := fun _ _ => of_eq rfl rfl
  outstanding := fun _ _ => of_eq rfl rfl
  spans := fun _ _ _ => of_eq rfl rfl
  machines := fun _ => of_eq rfl rfl
  talk := fun world e he => by
    refine log world ?_
    cases e with
    | note => exact he.elim
    | _ => trivial

theorem preserves_inSpan {label : SpanLabel} {body : Client S α} {discard : α → Bool}
    (hBody : Preserves Nested body) : Preserves Nested (inSpan label body discard) := by
  refine overlooks.bind (overlooks.startSpan label) fun _ => overlooks.bind ?_ fun _ =>
    overlooks.bind (overlooks.stopSpan _) fun _ => overlooks.pure _
  refine fun world => ensures_unguarded ((hBody world).mono ?_)
  rintro (e | a) world' hEnd
  · exact trans hEnd (of_eq rfl rfl)
  · exact hEnd

theorem preserves_repeatIteration {body : Client S Unit} (hBody : Preserves Nested body) :
    Preserves Nested (repeatIteration body) := by
  refine overlooks.bind overlooks.get fun start => preserves_tryCatch trans hBody fun e => ?_
  exact preserves_ite (overlooks.recordAbsorption _ _ _ _) (overlooks.throw e)

end Nested

theorem contained_respected : Respected (Contained : World S → World S → Prop) where
  refl := fun world => ⟨clientEffect_respected.refl world, Nested.refl world⟩
  trans := fun _ _ _ hab hbc =>
    ⟨clientEffect_respected.trans hab.1 hbc.1, Nested.trans hab.2 hbc.2⟩
  answers := fun world rest hSuffix =>
    ⟨clientEffect_respected.answers world rest hSuffix, .of_eq rfl rfl⟩
  memory := fun world memory => ⟨clientEffect_respected.memory world memory, .of_eq rfl rfl⟩
  note := fun world text =>
    ⟨clientEffect_respected.note world text, Nested.log world (Nat.le_refl world.noteIndent)⟩
  inSpan := by
    intro α label body discard hBody world
    have hEffect : Preserves ClientEffect body := fun world => (hBody world).mono fun _ _ => And.left
    have hNested : Preserves Nested body := fun world => (hBody world).mono fun _ _ => And.right
    exact (clientEffect_respected.inSpan label body discard hEffect world).and
      (Nested.preserves_inSpan hNested world)
  repeatIteration := by
    intro body hBody world
    have hEffect : Preserves ClientEffect body := fun world => (hBody world).mono fun _ _ => And.left
    have hNested : Preserves Nested body := fun world => (hBody world).mono fun _ _ => And.right
    exact (clientEffect_respected.repeatIteration body hEffect world).and
      (Nested.preserves_repeatIteration hNested world)
  run := by
    intro machine params hRules world
    have hEffect : ∀ rule ∈ machine.rules, Preserves ClientEffect rule.step :=
      fun rule hRule world => (hRules rule hRule world).mono fun _ _ => And.left
    refine ((clientEffect_respected.run machine params hEffect world).and
      (run_shows hRules world)).mono ?_
    rintro _ world' ⟨hClient, shown, hShown, -⟩
    exact ⟨hClient, .of_shows hShown⟩

/-- In every run with `print_state` on, the state lines are current exactly if
each step that did not complete left the rendering of the state alone, unless
it was the last step. The rules, the invariants and the engine are arbitrary. -/
theorem run_lines_current_iff (slots : Code.Slots S) (depth : Nat)
    (rules : List (String × Code S Unit)) (invariants : List (Invariant S))
    (repr : S → Except Exn String) (world : World S) :
    (run (clientMachine slots depth rules invariants repr) { printState := true }).Ensures world
      fun _ world' => ∃ new, world'.history = world.history ++ new ∧
        (LinesCurrent repr world.memory (shownOf world.machines world.noteIndent new) ↔
          UncompletedKeep repr world.memory (shownOf world.machines world.noteIndent new)) := by
  have hRules : ∀ rule ∈ (clientMachine slots depth rules invariants repr).rules,
      Preserves Contained rule.step := by
    intro rule hRule
    obtain ⟨entry, _, rfl⟩ := List.mem_map.mp hRule
    exact contained_respected.exec slots depth entry.2
  refine (run_shows hRules world).mono fun _ world' hEnd => ?_
  obtain ⟨shown, hShown, hPrinted⟩ := hEnd
  obtain ⟨new, hNew, rfl, -⟩ := hShown.history
  refine ⟨new, hNew, ?_⟩
  rcases hPrinted rfl with hNone | hPrinted
  · rw [hNone]
    exact linesCurrent_nil
  · exact hPrinted.linesCurrent_iff

/-! A rule that sets a flag and is then rejected. -/
section Flag

/-- Sets the flag and rejects, as a rule whose `assume` comes too late does. -/
def flagRule : Code Bool Unit := .bind (.write true) fun _ => .throw hegelReject

def flagRepr (flag : Bool) : Except Exn String := .ok (if flag then "true" else "false")

/-- One round of two steps. -/
def flagWorld : World Bool where
  answers := [{}, { int := 0 }, { int := 0 }, {}, { int := 0 }, {}, { int := stateMachineDone },
    { int := stateMachineDone }]
  memory := false

private theorem flag_run :
    ((run (clientMachine (fun _ _ => none) 0 [("set", flagRule)] [] flagRepr) {}) 5 flagWorld).map
        (fun r => shownOf 0 0 r.2.history) =
      some [.state "false", .started, .left true, .ended false, .started, .left true,
        .ended false] := by
  rfl

/-- The second step starts from `true`, and the last line shows `false`. -/
theorem not_every_run_lines_current :
    ¬ ∀ (rules : List (String × Code Bool Unit)) (world : World Bool),
      (run (clientMachine (fun _ _ => none) 0 rules [] flagRepr) {}).Ensures world
        fun _ world' => ∃ new, world'.history = world.history ++ new ∧
          LinesCurrent flagRepr world.memory (shownOf world.machines world.noteIndent new) := by
  intro hAll
  obtain ⟨⟨result, world'⟩, hEnd, hShown⟩ := Option.map_eq_some_iff.mp flag_run
  obtain ⟨new, hNew, hCurrent⟩ := hAll _ _ _ _ _ hEnd
  have hHistory : world'.history = new := hNew
  rw [hHistory] at hShown
  obtain ⟨text, hRepr, hLine⟩ := hCurrent.atStart
    [.state "false", .started, .left true, .ended false] ⟨[.left true, .ended false], hShown.symm⟩
  obtain rfl : "false" = text := Option.some.inj hLine
  simp [present, flagRepr] at hRepr

end Flag
end Hegel
