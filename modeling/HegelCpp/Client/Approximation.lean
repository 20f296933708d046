import HegelCpp.Client.Code
import HegelCpp.Logic.Approximation

/-! Fuel, and the depth to which delegations nest, only decide whether client code
ends, never how. -/
namespace Hegel

open Logic Program

variable {S α β κ : Type} {body body' : Client S α}

section Primitives

theorem approximates_raiseForRc (rc : ResultCode) (what lastError : String) :
    Approximates (raiseForRc rc what lastError : Client S Unit) (raiseForRc rc what lastError) := by
  unfold raiseForRc
  split
  · exact approximates_pure _
  · exact approximates_throw _

theorem approximates_nextAnswer : Approximates (nextAnswer : Client S Answer) nextAnswer := by
  refine approximates_bind approximates_get fun world => ?_
  cases world.answers with
  | nil => exact approximates_pure _
  | cons answer rest =>
      exact approximates_bind (approximates_modify _) fun _ => approximates_pure _

theorem approximates_engineCall (what : String) :
    Approximates (engineCall what : Client S Answer) (engineCall what) := by
  refine approximates_bind approximates_nextAnswer fun answer => ?_
  exact approximates_bind (approximates_raiseForRc _ _ _) fun _ => approximates_pure _

theorem approximates_call (what : String) (f : Answer → α) : Approximates
    (engineCall what >>= fun answer => pure (f answer) : Client S α)
    (engineCall what >>= fun answer => pure (f answer)) :=
  approximates_bind (approximates_engineCall what) fun _ => approximates_pure _

theorem approximates_stopSpan (discard : Bool) :
    Approximates (stopSpan discard : Client S (Option OpenSpan)) (stopSpan discard) := by
  refine approximates_bind approximates_get fun world => ?_
  exact approximates_bind (approximates_modify _) fun _ => approximates_pure _

theorem approximates_startSpan (label : SpanLabel) :
    Approximates (startSpan label : Client S OpenSpan) (startSpan label) := by
  refine approximates_bind (approximates_engineCall _) fun _ => ?_
  refine approximates_bind approximates_get fun world => ?_
  exact approximates_bind (approximates_modify _) fun _ => approximates_pure _

end Primitives

section Combinators

theorem approximates_inSpan (hBody : Approximates body body') (label : SpanLabel)
    (discard : α → Bool) :
    Approximates (Hegel.inSpan label body discard) (Hegel.inSpan label body' discard) := by
  refine approximates_bind (approximates_startSpan label) fun _ => ?_
  refine approximates_bind (approximates_tryCatch hBody fun e => ?_) fun result => ?_
  · exact approximates_bind (approximates_modify _) fun _ => approximates_throw e
  · exact approximates_bind (approximates_stopSpan _) fun _ => approximates_pure _

theorem approximates_filterAttempts (hBody : Approximates body body')
    {pred pred' : α → Client S Bool} (hPred : ∀ a, Approximates (pred a) (pred' a))
    (attempts : Nat) : Approximates (Generators.filterAttempts body pred attempts)
      (Generators.filterAttempts body' pred' attempts) := by
  induction attempts with
  | zero => exact approximates_throw _
  | succ attempts ih =>
      refine approximates_bind (approximates_inSpan (approximates_bind hBody fun value => ?_) _ _)
        fun attempt => approximates_ite (approximates_pure _) ih
      exact approximates_bind (hPred value) fun keep => approximates_pure _

theorem approximates_collectionLoop {turn turn' : κ → Client S (κ ⊕ β)} {done : κ → β}
    (hTurn : ∀ k, Approximates (turn k) (turn' k)) (k : κ) :
    Approximates
      (Program.loop
        (fun k => do if ← collectionMore then turn k else pure (.inr (done k))) k)
      (Program.loop
        (fun k => do if ← collectionMore then turn' k else pure (.inr (done k))) k) := by
  refine approximates_loop (fun k => approximates_bind (approximates_call _ _) fun more => ?_) k
  exact approximates_ite (hTurn k) (approximates_pure _)

theorem approximates_vectors (hBody : Approximates body body')
    (params : Generators.CollectionParams) (unique : Option (α → α → Bool)) :
    Approximates (Generators.vectors body params unique)
      (Generators.vectors body' params unique) := by
  refine approximates_inSpan (approximates_bind (approximates_call _ _) fun _ => ?_) _ _
  refine approximates_collectionLoop (fun result => approximates_bind hBody fun element => ?_) []
  refine approximates_ite ?_ (approximates_pure _)
  exact approximates_bind (approximates_call _ _) fun _ => approximates_pure _

theorem approximates_sets (hBody : Approximates body body') (params : Generators.CollectionParams)
    (lt : α → α → Bool) :
    Approximates (Generators.sets body params lt) (Generators.sets body' params lt) := by
  refine approximates_inSpan (approximates_bind (approximates_call _ _) fun _ => ?_) _ _
  refine approximates_collectionLoop (fun result => approximates_bind hBody fun element => ?_) []
  cases Generators.setInsert lt element result with
  | some inserted => exact approximates_pure _
  | none => exact approximates_bind (approximates_call _ _) fun _ => approximates_pure _

theorem approximates_maps (hBody : Approximates body body') {values values' : Client S β}
    (hValues : Approximates values values') (params : Generators.CollectionParams)
    (lt : α → α → Bool) :
    Approximates (Generators.maps body values params lt)
      (Generators.maps body' values' params lt) := by
  refine approximates_inSpan (approximates_bind (approximates_call _ _) fun _ => ?_) _ _
  refine approximates_collectionLoop (fun result => approximates_bind hBody fun key => ?_) []
  refine approximates_ite ?_ (approximates_bind hValues fun value => approximates_pure _)
  exact approximates_bind (approximates_call _ _) fun _ => approximates_pure _

theorem approximates_drawTupleImpl (n : Nat) (τ : Fin n → Type)
    {gens gens' : (i : Fin n) → Client S (τ i)} (hGens : ∀ i, Approximates (gens i) (gens' i)) :
    Approximates (Generators.drawTupleImpl n τ gens) (Generators.drawTupleImpl n τ gens') := by
  induction n with
  | zero => exact approximates_pure _
  | succ n ih =>
      refine approximates_bind (hGens 0) fun first => ?_
      exact approximates_bind (ih _ fun i => hGens i.succ) fun rest => approximates_pure _

theorem approximates_oneOf {n : Nat} {gens gens' : Fin (n + 1) → Client S α}
    (hGens : ∀ i, Approximates (gens i) (gens' i)) :
    Approximates (Generators.oneOf gens) (Generators.oneOf gens') := by
  refine approximates_inSpan (approximates_bind (approximates_call _ _) fun index => ?_) _ _
  exact hGens (Fin.ofNat _ index.toNat)

theorem approximates_variant {n : Nat} {τ : Fin (n + 1) → Type}
    {gens gens' : (i : Fin (n + 1)) → Client S (τ i)}
    (hGens : ∀ i, Approximates (gens i) (gens' i)) :
    Approximates (Generators.variant gens) (Generators.variant gens') := by
  refine approximates_inSpan (approximates_bind (approximates_call _ _) fun index => ?_) _ _
  exact approximates_bind (hGens (Fin.ofNat _ index.toNat)) fun value => approximates_pure _

theorem approximates_optional (hBody : Approximates body body') :
    Approximates (Generators.optional body) (Generators.optional body') := by
  refine approximates_inSpan (approximates_bind (approximates_call _ _) fun present => ?_) _ _
  exact approximates_ite (approximates_bind hBody fun value => approximates_pure _)
    (approximates_pure _)

end Combinators

section Stateful

variable {machine machine' : StateMachine S} (params : RunParams) (handle : Nat)

theorem approximates_record (event : Event S) : Approximates (record event) (record event) :=
  approximates_modify _

theorem approximates_note (text : String) :
    Approximates (note text : Client S Unit) (note text) := approximates_modify _

theorem approximates_noteIndentScope {step step' : Client S Unit}
    (hStep : Approximates step step') :
    Approximates (Hegel.noteIndentScope step) (Hegel.noteIndentScope step') := by
  refine approximates_bind (approximates_modify _) fun _ => ?_
  refine approximates_bind (approximates_tryCatch hStep fun e => ?_) fun _ => approximates_modify _
  exact approximates_bind (approximates_modify _) fun _ => approximates_throw e

theorem approximates_recordAbsorption (site : Site) (start : World S)
    (opened closed : Option OpenSpan) : Approximates (recordAbsorption site start opened closed)
      (recordAbsorption site start opened closed) :=
  approximates_bind approximates_get fun _ => approximates_record _

theorem approximates_repeatBody {step step' : Client S Unit} (hStep : Approximates step step') :
    Approximates (Hegel.repeatBody step) (Hegel.repeatBody step') := by
  refine approximates_bind (approximates_call _ _) fun minSize => ?_
  refine approximates_bind (approximates_call _ _) fun _ => ?_
  refine approximates_collectionLoop (fun iteration => ?_) 0
  refine approximates_bind (approximates_note _) fun _ => ?_
  refine approximates_bind ?_ fun _ => approximates_pure _
  refine approximates_bind approximates_get fun start => approximates_tryCatch hStep fun e => ?_
  exact approximates_ite (approximates_recordAbsorption _ _ _ _) (approximates_throw _)

theorem approximates_printState :
    Approximates (printState machine params) (printState machine params) := by
  refine approximates_bind approximates_get fun world => approximates_ite ?_ (approximates_pure _)
  cases machine.repr world.memory with
  | ok text => exact approximates_note _
  | error e => exact approximates_throw _

theorem approximates_checkInvariants (origin : String) (sampled : Bool) (index : Nat)
    (invariants : List (Invariant S)) :
    Approximates (checkInvariants handle origin sampled index invariants)
      (checkInvariants handle origin sampled index invariants) := by
  induction invariants generalizing index with
  | nil => exact approximates_pure _
  | cons invariant rest ih =>
      refine approximates_bind (approximates_ite ?_ (approximates_pure _)) fun selected => ?_
      · refine approximates_bind approximates_nextAnswer fun answer => ?_
        refine approximates_bind (approximates_record _) fun _ => ?_
        exact approximates_bind (approximates_raiseForRc _ _ _) fun _ => approximates_pure _
      · refine approximates_bind (approximates_ite ?_ (approximates_pure _)) fun _ => ih (index + 1)
        refine approximates_bind approximates_get fun world => ?_
        refine approximates_bind (approximates_record _) fun _ => ?_
        cases invariant.check world.memory with
        | none => exact approximates_pure _
        | some e => exact approximates_bind (approximates_note _) fun _ => approximates_throw _

theorem approximates_observeRule {step step' : Client S Unit} (hStep : Approximates step step')
    (index : Nat) : Approximates (Hegel.observeRule handle index step)
      (Hegel.observeRule handle index step') := by
  refine approximates_bind (approximates_record _) fun _ => approximates_bind ?_ fun _ => ?_
  · refine approximates_tryCatch hStep fun e => approximates_bind approximates_get fun world => ?_
    refine approximates_bind (approximates_record _) fun _ => ?_
    refine approximates_bind (approximates_ite (approximates_pure _) (approximates_record _)) ?_
    exact fun _ => approximates_throw _
  · exact approximates_bind approximates_get fun world => approximates_record _

theorem approximates_stepHandler (start : World S) (opened : OpenSpan) (e : Exn) :
    Approximates (stepHandler handle start opened e) (stepHandler handle start opened e) := by
  refine approximates_bind (approximates_record _) fun _ => approximates_ite ?_ ?_
  · refine approximates_bind (approximates_note _) fun _ => approximates_bind ?_ fun _ => ?_
    · refine approximates_bind approximates_get fun world => ?_
      refine approximates_bind (approximates_record _) fun _ => ?_
      refine approximates_bind (approximates_record _) fun _ => ?_
      exact approximates_bind (approximates_modify _) fun _ => approximates_raiseForRc _ _ _
    · refine approximates_bind (approximates_record _) fun _ => ?_
      refine approximates_bind (approximates_stopSpan _) fun _ => ?_
      exact approximates_recordAbsorption _ _ _ _
  · refine approximates_bind (approximates_record _) fun _ => ?_
    exact approximates_bind (approximates_stopSpan _) fun _ => approximates_throw _

theorem approximates_runStep {rule rule' : Rule S} (hName : rule.name = rule'.name)
    (hStep : Approximates rule.step rule'.step) (hRepr : machine.repr = machine'.repr)
    (index stepsRun : Nat) : Approximates
      (Hegel.runStep machine params handle index stepsRun rule)
      (Hegel.runStep machine' params handle index stepsRun rule') := by
  refine approximates_bind approximates_get fun start => ?_
  refine approximates_bind (approximates_record _) fun _ => ?_
  refine approximates_bind (approximates_startSpan _) fun opened => ?_
  rw [hName]
  refine approximates_bind (approximates_note _) fun _ => ?_
  refine approximates_bind (approximates_record _) fun _ => ?_
  refine approximates_tryCatch ?_ (approximates_stepHandler handle start opened)
  have hRule := approximates_observeRule handle (approximates_noteIndentScope hStep) index
  refine approximates_bind hRule fun _ => ?_
  have hState : printState machine params = printState machine' params := by
    rw [printState, printState, hRepr]
  rw [hState]
  refine approximates_bind (approximates_printState params) fun _ => ?_
  refine approximates_bind (approximates_record _) fun _ => ?_
  refine approximates_bind (approximates_record _) fun _ => ?_
  exact approximates_bind (approximates_stopSpan _) fun _ => approximates_pure _

section Rules

variable {n : Nat} (names : Fin n → String) {steps steps' : Fin n → Client S Unit}
  (invariants : List (Invariant S)) (repr : S → Except Exn String)

/-- The machine of `n` rules. -/
abbrev machineOf (steps : Fin n → Client S Unit) : StateMachine S where
  rules := List.ofFn fun i => ⟨names i, steps i⟩
  invariants := invariants
  repr := repr

theorem ruleAt_ofFn (rules : Fin n → Rule S) (index : Int) : ruleAt (List.ofFn rules) index =
    if h : 0 ≤ index ∧ index.toNat < n then some (rules ⟨index.toNat, h.2⟩) else none := by
  unfold ruleAt
  split
  · rw [dif_neg (by omega)]
  · rw [List.getElem?_ofFn]
    split
    · rw [dif_pos ⟨by omega, ‹_›⟩]
    · rw [dif_neg (fun h => absurd h.2 ‹_›)]

variable (hSteps : ∀ i, Approximates (steps i) (steps' i))

include hSteps

theorem approximates_runRules (stepsRun : Nat) :
    Approximates (Program.loop (runRules (machineOf names invariants repr steps) params handle)
        stepsRun)
      (Program.loop (runRules (machineOf names invariants repr steps') params handle)
        stepsRun) := by
  refine approximates_loop (fun stepsRun => approximates_bind ?_ fun index => ?_) stepsRun
  · refine approximates_bind approximates_nextAnswer fun answer => ?_
    refine approximates_bind (approximates_record _) fun _ => ?_
    refine approximates_bind (approximates_raiseForRc _ _ _) fun _ => ?_
    exact approximates_bind (approximates_modify _) fun _ => approximates_pure _
  refine approximates_ite (approximates_pure _) ?_
  rw [ruleAt_ofFn, ruleAt_ofFn]
  by_cases hIndex : 0 ≤ index ∧ index.toNat < n
  · rw [dif_pos hIndex, dif_pos hIndex]
    refine approximates_bind ?_ fun _ => approximates_pure _
    refine approximates_runStep params handle ?_ ?_ ?_ _ _
    · rfl
    · exact hSteps _
    · rfl
  · rw [dif_neg hIndex, dif_neg hIndex]
    exact approximates_throw _

theorem approximates_run :
    Approximates (Hegel.run (machineOf names invariants repr steps) params)
      (Hegel.run (machineOf names invariants repr steps') params) := by
  have hEmpty : (List.ofFn fun i => (⟨names i, steps i⟩ : Rule S)).isEmpty =
      (List.ofFn fun i => (⟨names i, steps' i⟩ : Rule S)).isEmpty := by
    cases n <;> simp [List.ofFn_succ]
  rw [Hegel.run, Hegel.run, hEmpty]
  refine approximates_ite (approximates_throw _) (approximates_bind ?_ fun handle => ?_)
  · refine approximates_bind approximates_get fun world => ?_
    refine approximates_bind (approximates_modify _) fun _ => ?_
    exact approximates_bind (approximates_record _) fun _ => approximates_call _ _
  refine approximates_bind (approximates_note _) fun _ => ?_
  refine approximates_bind (approximates_printState params) fun _ => ?_
  refine approximates_bind (approximates_checkInvariants _ _ _ _ _) fun _ => ?_
  refine approximates_bind ?_ fun _ => approximates_bind (approximates_note _) fun _ =>
    approximates_checkInvariants _ _ _ _ _
  refine approximates_loop (fun stepsRun => approximates_bind ?_ fun group => ?_) 0
  · refine approximates_bind approximates_nextAnswer fun answer => ?_
    refine approximates_bind (approximates_record _) fun _ => ?_
    refine approximates_bind (approximates_raiseForRc _ _ _) fun _ => ?_
    exact approximates_bind (approximates_modify _) fun _ => approximates_pure _
  refine approximates_ite (approximates_pure _) (approximates_bind ?_ fun stepsRun => ?_)
  · exact approximates_runRules params handle names invariants repr hSteps stepsRun
  · refine approximates_bind (approximates_checkInvariants _ _ _ _ _) fun _ => ?_
    exact approximates_pure _

end Rules
end Stateful

namespace Code

theorem approximates_interpret {delegate delegate' : Delegate S}
    (hDelegate : ∀ α slot, Approximates (delegate α slot) (delegate' α slot)) (code : Code S α) :
    Approximates (code.interpret delegate) (code.interpret delegate') := by
  induction code with
  | ret a => exact approximates_pure a
  | bind p k ihp ihk => exact approximates_bind ihp ihk
  | throw e => exact approximates_throw e
  | tryCatch p handler ihp ihHandler => exact approximates_tryCatch ihp ihHandler
  | loop body k ih => exact approximates_loop ih k
  | read => exact approximates_bind approximates_get fun _ => approximates_pure _
  | write memory => exact approximates_modify _
  | note message => exact approximates_note message
  | integers minValue maxValue => exact approximates_call _ _
  | booleans => exact approximates_call _ _
  | text => exact approximates_call _ _
  | poolAdd => exact approximates_call _ _
  | poolDraw consume => exact approximates_call _ _
  | sampledFrom elements =>
      exact approximates_bind (approximates_call _ _) fun index => approximates_pure _
  | map source f ihSource ihf => exact approximates_inSpan (approximates_bind ihSource ihf) _ _
  | flatMap inner f ihInner ihf => exact approximates_inSpan (approximates_bind ihInner ihf) _ _
  | filter inner pred ihInner ihPred => exact approximates_filterAttempts ihInner ihPred 3
  | vectors elements params unique ih => exact approximates_vectors ih params unique
  | sets elements params lt ih => exact approximates_sets ih params lt
  | maps keys values params lt ihKeys ihValues => exact approximates_maps ihKeys ihValues params lt
  | tuples n gens ih => exact approximates_inSpan (approximates_drawTupleImpl n _ ih) _ _
  | arrays n element ih =>
      exact approximates_inSpan (approximates_drawTupleImpl n _ fun _ => ih) _ _
  | oneOf gens ih => exact approximates_oneOf ih
  | variant gens ih => exact approximates_variant ih
  | optional gen ih => exact approximates_optional ih
  | deferred α slot => exact hDelegate α slot
  | «repeat» body ih => exact approximates_repeatBody ih
  | run names steps invariants repr params ih =>
      exact approximates_run params names invariants repr ih

/-- Nesting deeper does not change how a draw ends. -/
theorem approximates_delegate (slots : Slots S) {depth depth' : Nat} (hLe : depth ≤ depth')
    (α : Type) (slot : Nat) :
    Approximates (delegate slots depth α slot) (delegate slots depth' α slot) := by
  induction depth generalizing depth' α slot with
  | zero => exact approximates_of_diverge
  | succ depth ih =>
      obtain ⟨depth', rfl⟩ := Nat.exists_eq_add_of_lt hLe
      simp only [delegate]
      cases slots α slot with
      | none => exact approximates_throw _
      | some gen => exact gen.approximates_interpret fun α slot => ih (by omega) α slot

/-- How client code ends depends on neither the fuel nor the depth. -/
theorem approximates_exec (slots : Slots S) {depth depth' : Nat} (hLe : depth ≤ depth')
    (code : Code S α) : Approximates (code.exec slots depth) (code.exec slots depth') :=
  code.approximates_interpret (approximates_delegate slots hLe)

end Code

end Hegel
