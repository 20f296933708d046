import HegelCpp.Client.Protocol
import HegelCpp.Client.Recursion
import HegelCpp.Logic.Halting

/-! `stateful::run` ends whenever its rules do. Only the rules may take any time:
every turn of the runner's loops comes after a call to the engine. -/
namespace Hegel

open Logic Program

variable {S β κ : Type} {limit : Nat}

/-- The program halts when the engine has fewer answers left than the limit. -/
abbrev HaltsWithin {α : Type} (limit : Nat) (p : Client S α) : Prop :=
  HaltsBelow World.budget limit p

/-- No client code gives answers back to the engine. -/
theorem shrinks_respected : Respected (fun a b : World S => b.budget ≤ a.budget) where
  refl := fun _ => Nat.le_refl _
  trans := le_size_trans
  answers := fun _ _ hSuffix => hSuffix.length_le
  memory := fun _ _ => Nat.le_refl _
  note := fun _ _ => Nat.le_refl _
  inSpan := by
    intro α label body discard hBody
    have hOpens : Opens 0 (inSpan label body discard) := .inSpan (endsBelow_zero hBody) label discard
    exact hOpens.ends.shrinks
  repeatIteration := by
    intro body hBody
    refine preserves_bind le_size_trans bounded_get.shrinks fun start => ?_
    refine preserves_tryCatch le_size_trans hBody fun e => ?_
    exact (bounded_ite (bounded_recordAbsorption _ _ _ _) (bounded_throw _)).shrinks
  run := by
    intro machine params hRules
    have hOpens : Opens 0 (run machine params) :=
      .run params fun rule hRule => endsBelow_zero (hRules rule hRule)
    exact hOpens.ends.shrinks

section Runner

variable {machine : StateMachine S} {rule : Rule S} (params : RunParams) (handle : Nat)

theorem HaltsWithin.noteIndentScope {body : Client S Unit} (hBody : HaltsWithin limit body) :
    HaltsWithin limit (Hegel.noteIndentScope body) := by
  have hIndent (f : Nat → Nat) : HaltsWithin limit (modify fun world : World S =>
      { world with noteIndent := f world.noteIndent } : Client S Unit) :=
    haltsBelow_modify fun _ => Nat.le_refl _
  refine haltsBelow_bind (hIndent (· + 1)) fun _ => ?_
  refine haltsBelow_bind (haltsBelow_tryCatch hBody fun e => ?_) fun _ => hIndent (· - 1)
  exact haltsBelow_bind (hIndent (· - 1)) fun _ => haltsBelow_throw e

theorem haltsWithin_record (event : Event S) : HaltsWithin limit (record event) :=
  haltsBelow_modify fun _ => Nat.le_refl _

theorem haltsWithin_note (text : String) : HaltsWithin limit (note text : Client S Unit) :=
  haltsBelow_modify fun _ => Nat.le_refl _

theorem HaltsWithin.observeRule {step : Client S Unit} (hStep : HaltsWithin limit step)
    (index : Nat) : HaltsWithin limit (Hegel.observeRule handle index step) := by
  refine haltsBelow_bind (haltsWithin_record _) fun _ => haltsBelow_bind ?_ fun _ => ?_
  · refine haltsBelow_tryCatch hStep fun e => haltsBelow_bind haltsBelow_get fun world => ?_
    refine haltsBelow_bind (haltsWithin_record _) fun _ => haltsBelow_bind ?_ fun _ => ?_
    · exact haltsBelow_ite (haltsBelow_pure _) (haltsWithin_record _)
    · exact haltsBelow_throw e
  · exact haltsBelow_bind haltsBelow_get fun world => haltsWithin_record _

theorem HaltsWithin.runStep (hStep : HaltsWithin limit rule.step) (index stepsRun : Nat) :
    HaltsWithin limit (Hegel.runStep machine params handle index stepsRun rule) := by
  refine haltsBelow_bind haltsBelow_get fun start => ?_
  refine haltsBelow_bind (haltsWithin_record _) fun _ => ?_
  refine haltsBelow_bind
    ((bounded_startSpan _).haltsBelow (approximates_startSpan _) limit) fun opened => ?_
  refine haltsBelow_bind (haltsWithin_note _) fun _ => ?_
  refine haltsBelow_bind (haltsWithin_record _) fun _ => ?_
  refine haltsBelow_tryCatch ?_ fun e => (bounded_stepHandler handle start opened e).haltsBelow
    (approximates_stepHandler handle start opened e) limit
  refine haltsBelow_bind (hStep.noteIndentScope.observeRule handle index) fun _ => ?_
  refine haltsBelow_bind
    ((bounded_printState params).haltsBelow (approximates_printState params) limit) fun _ => ?_
  refine haltsBelow_bind (haltsWithin_record _) fun _ => ?_
  refine haltsBelow_bind (haltsWithin_record _) fun _ => ?_
  refine haltsBelow_bind
    ((bounded_stopSpan _).haltsBelow (approximates_stopSpan _) limit) fun _ => ?_
  exact haltsBelow_pure _

theorem approximates_recordedCall {α : Type} {event : Answer → Event S} {what : String}
    {k : Answer → Client S α} (hk : ∀ answer, Approximates (k answer) (k answer)) :
    Approximates (recordedCall event what k) (recordedCall event what k) := by
  refine approximates_bind approximates_nextAnswer fun answer => ?_
  refine approximates_bind (approximates_record _) fun _ => ?_
  exact approximates_bind (approximates_raiseForRc _ _ _) fun _ => hk answer

/-- A loop whose iterations start with a call to the state machine. -/
theorem HaltsWithin.callLoop {event : Answer → Event S} {what : String}
    {k' : Answer → Client S Int} {turn : κ → Int → Client S (κ ⊕ β)}
    (hk : ∀ answer, Bounded World.budget (k' answer))
    (hSelf : ∀ answer, Approximates (k' answer) (k' answer))
    (hTurn : ∀ k index, HaltsWithin limit (turn k index)) (k : κ) :
    HaltsWithin limit (Program.loop (fun k => recordedCall event what k' >>= turn k) k) := by
  refine haltsBelow_loop (fun k => ?_) (fun k world => ?_) k
  · exact haltsBelow_bind
      ((bounded_recordedCall hk).haltsBelow (approximates_recordedCall hSelf) limit) (hTurn k)
  · refine ensures_bind ((spends_recordedCall hk world).mono ?_)
    rintro (e | index) middle hLess
    · exact fun k' hNext => by cases hNext
    · exact ((hTurn k index).shrinks middle).mono fun result world' hLe k' _ =>
        Nat.lt_of_le_of_lt hLe hLess

theorem HaltsWithin.runRules (hRules : ∀ rule ∈ machine.rules, HaltsWithin limit rule.step)
    (stepsRun : Nat) :
    HaltsWithin limit (Program.loop (Hegel.runRules machine params handle) stepsRun) := by
  refine HaltsWithin.callLoop (fun answer => ?_) (fun answer => ?_) (fun stepsRun index => ?_)
    stepsRun
  · exact bounded_bind (bounded_modify fun _ => Nat.le_refl _) fun _ => bounded_pure _
  · exact approximates_bind (approximates_modify _) fun _ => approximates_pure _
  refine haltsBelow_ite (haltsBelow_pure _) ?_
  cases hRule : ruleAt machine.rules index with
  | none => exact haltsBelow_throw _
  | some rule =>
      refine haltsBelow_bind ((hRules rule (ruleAt_spec hRule).1).runStep params handle _ _) ?_
      exact fun _ => haltsBelow_pure _

theorem HaltsWithin.run (hRules : ∀ rule ∈ machine.rules, HaltsWithin limit rule.step) :
    HaltsWithin limit (Hegel.run machine params) := by
  refine haltsBelow_ite (haltsBelow_throw _) ?_
  have hMachine : HaltsWithin limit (newStateMachine : Client S Nat) := by
    refine haltsBelow_bind haltsBelow_get fun world => ?_
    refine Bounded.haltsBelow ?_ ?_ limit
    · refine bounded_bind (bounded_modify fun _ => Nat.le_refl _) fun _ => ?_
      exact bounded_bind (bounded_record _) fun _ => bounded_call _ _
    · refine approximates_bind (approximates_modify _) fun _ => ?_
      exact approximates_bind (approximates_record _) fun _ => approximates_call _ _
  have hCheck (handle : Nat) (origin : String) (sampled : Bool) :
      HaltsWithin limit (checkInvariants handle origin sampled 0 machine.invariants) :=
    (bounded_checkInvariants handle origin sampled 0 _).haltsBelow
      (approximates_checkInvariants handle origin sampled 0 _) limit
  refine haltsBelow_bind hMachine fun handle => haltsBelow_bind (haltsWithin_note _) fun _ => ?_
  refine haltsBelow_bind
    ((bounded_printState params).haltsBelow (approximates_printState params) limit) fun _ => ?_
  refine haltsBelow_bind (hCheck handle _ _) fun _ => haltsBelow_bind ?_ fun _ =>
    haltsBelow_bind (haltsWithin_note _) fun _ => hCheck handle _ _
  refine HaltsWithin.callLoop (fun answer => ?_) (fun answer => ?_) (fun stepsRun group => ?_) 0
  · exact bounded_bind (bounded_modify fun _ => Nat.le_refl _) fun _ => bounded_pure _
  · exact approximates_bind (approximates_modify _) fun _ => approximates_pure _
  refine haltsBelow_ite (haltsBelow_pure _) ?_
  refine haltsBelow_bind (HaltsWithin.runRules params handle hRules stepsRun) fun stepsRun => ?_
  refine haltsBelow_bind (hCheck handle _ _) fun _ => ?_
  exact haltsBelow_pure _

end Runner

/-- The runner ends when the rules do, as often as the engine's answers let them
be called. -/
theorem run_halts {machine : StateMachine S} (params : RunParams) {world : World S}
    (hShrinks : ∀ rule ∈ machine.rules, Preserves (fun a b => b.budget ≤ a.budget) rule.step)
    (hEnds : ∀ rule ∈ machine.rules, ∀ later : World S, later.budget ≤ world.budget →
      rule.step.Halts later) : (run machine params).Halts world := by
  refine (HaltsWithin.run params fun rule hRule => ?_).halts world (Nat.lt_succ_self _)
  exact ⟨hShrinks rule hRule, fun later hLess => hEnds rule hRule later (Nat.le_of_lt_succ hLess)⟩

theorem clientMachine_shrinks (slots : Code.Slots S) (depth : Nat)
    (rules : List (String × Code S Unit)) (invariants : List (Invariant S))
    (repr : S → Except Exn String) :
    ∀ rule ∈ (clientMachine slots depth rules invariants repr).rules,
      Preserves (fun a b => b.budget ≤ a.budget) rule.step := by
  intro rule hRule
  obtain ⟨entry, _, rfl⟩ := List.mem_map.mp hRule
  exact shrinks_respected.exec slots depth entry.2

end Hegel
