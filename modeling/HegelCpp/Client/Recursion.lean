import HegelCpp.Client.Approximation
import HegelCpp.Logic.Budget

/-! Recursive generators end. A delegation that comes after a call to the engine
has one answer less to go on with, so a recursion in which every delegation
comes after a call is no deeper than the engine has answers. A delegation that
no call precedes never ends. -/
namespace Hegel

open Logic Program

variable {S α β κ : Type} {limit : Nat}

/-- The program ends when the engine has fewer answers left than the limit. -/
abbrev EndsWithin (limit : Nat) (p : Client S α) : Prop := EndsBelow World.budget limit p

/-- The program does not return without an answer of the engine. -/
abbrev Spends (p : Client S α) : Prop := Pays World.budget p

/-! The primitives. -/
section Primitives

theorem spends_engineCall (what : String) : Spends (engineCall what : Client S Answer) := by
  intro world
  refine ensures_engineCall_of (fun answer rest hAnswer => ?_) fun e rest _ _ => trivial
  simp [World.budget, hAnswer]

theorem spends_call (what : String) (f : Answer → α) :
    Spends (engineCall what >>= fun answer => pure (f answer) : Client S α) :=
  pays_bind (spends_engineCall what) fun _ => (bounded_pure _).shrinks

theorem spends_startSpan (label : SpanLabel) : Spends (startSpan label : Client S OpenSpan) := by
  refine pays_bind (spends_engineCall _) fun _ => Bounded.shrinks ?_
  refine bounded_bind bounded_get fun world => ?_
  exact bounded_bind (bounded_modify fun _ => Nat.le_refl _) fun _ => bounded_pure _

theorem bounded_call (what : String) (f : Answer → α) : Bounded World.budget
    (engineCall what >>= fun answer => pure (f answer) : Client S α) :=
  bounded_bind (bounded_engineCall what) fun _ => bounded_pure _

theorem bounded_record (event : Event S) : Bounded World.budget (record event) :=
  bounded_modify fun _ => Nat.le_refl _

theorem bounded_note (text : String) : Bounded World.budget (note text : Client S Unit) :=
  bounded_modify fun _ => Nat.le_refl _

theorem bounded_raiseForRc (rc : ResultCode) (what lastError : String) :
    Bounded World.budget (raiseForRc rc what lastError : Client S Unit) := by
  unfold raiseForRc
  split
  · exact bounded_pure _
  · exact bounded_throw _

theorem bounded_nextAnswer : Bounded World.budget (nextAnswer : Client S Answer) := by
  refine Total.bounded ?_ fun world => ensures_nextAnswer_of (Nat.le_refl _) ?_
  · refine total_bind total_get fun world => ?_
    cases world.answers with
    | nil => exact total_pure _
    | cons answer rest => exact total_bind (total_modify _) fun _ => total_pure _
  · intro answer rest hAnswer
    simp [World.budget, hAnswer]

/-- The calls of the state machines, which record how they were answered. -/
def recordedCall (event : Answer → Event S) (what : String) (k : Answer → Client S α) :
    Client S α := do
  let answer ← nextAnswer
  record (event answer)
  raiseForRc answer.rc what answer.lastError
  k answer

variable {event : Answer → Event S} {what : String} {k : Answer → Client S α}

theorem bounded_recordedCall (hk : ∀ answer, Bounded World.budget (k answer)) :
    Bounded World.budget (recordedCall event what k) := by
  refine bounded_bind bounded_nextAnswer fun answer => bounded_bind (bounded_record _) fun _ => ?_
  exact bounded_bind (bounded_raiseForRc _ _ _) fun _ => hk answer

theorem spends_recordedCall (hk : ∀ answer, Bounded World.budget (k answer)) :
    Spends (recordedCall event what k) := by
  intro world
  refine ensures_bind (ensures_nextAnswer_of ?_ fun answer rest hAnswer => ?_)
  · refine ensures_bind (ensures_record _ (ensures_bind (ensures_raiseForRc ?_ ?_)))
    · exact fun hOk => by simp at hOk
    · exact fun _ _ _ => trivial
  · refine ensures_bind (ensures_record _ (ensures_bind (ensures_raiseForRc ?_ ?_)))
    · refine fun _ => ((hk answer).shrinks _).mono ?_
      rintro (e | a) world' hLe
      · trivial
      · have hRest : world'.answers.length ≤ rest.length := hLe
        show world'.answers.length < world.answers.length
        rw [hAnswer, List.length_cons]
        omega
    · exact fun _ _ _ => trivial

end Primitives

/-- The program starts with a call; what comes after it ends within the limit. -/
structure Opens (limit : Nat) (p : Client S α) : Prop where
  ends : EndsWithin (limit + 1) p
  spends : Spends p

/-! One rule for each combinator, from what it is made of. -/
section Combinators

variable {body p : Client S α} {k : α → Client S β}

theorem Opens.of_bounded (hp : Bounded World.budget p) (hSpends : Spends p) : Opens limit p :=
  ⟨hp.endsBelow _, hSpends⟩

theorem Opens.bind (hp : Bounded World.budget p) (hSpends : Spends p)
    (hk : ∀ a, EndsWithin limit (k a)) : Opens limit (p >>= k) :=
  ⟨endsBelow_bind_of_pays (hp.endsBelow _) hSpends hk, pays_bind hSpends fun a => (hk a).shrinks⟩

theorem opens_throw (e : Exn) : Opens limit (throw e : Client S α) :=
  .of_bounded (bounded_throw e) fun _ => ensures_throw e trivial

theorem EndsWithin.unguarded (hBody : EndsWithin limit body) :
    EndsWithin limit (Hegel.unguarded body) := by
  refine endsBelow_tryCatch hBody fun e => Bounded.endsBelow ?_ limit
  exact bounded_bind (bounded_modify fun _ => Nat.le_refl _) fun _ => bounded_throw _

theorem Opens.inSpan (hBody : EndsWithin limit body) (label : SpanLabel) (discard : α → Bool) :
    Opens limit (Hegel.inSpan label body discard) := by
  refine .bind (bounded_startSpan label) (spends_startSpan label) fun _ => ?_
  refine endsBelow_bind hBody.unguarded fun result => Bounded.endsBelow ?_ limit
  exact bounded_bind (bounded_stopSpan _) fun _ => bounded_pure _

theorem Opens.filterAttempts (hBody : EndsWithin limit body) {pred : α → Client S Bool}
    (hPred : ∀ a, EndsWithin limit (pred a)) (attempts : Nat) :
    Opens limit (Generators.filterAttempts body pred attempts) := by
  induction attempts with
  | zero => exact opens_throw _
  | succ attempts ih =>
      have hAttempt : Opens limit (Hegel.inSpan .filter (do
          let value ← body
          let keep ← pred value
          pure (value, keep)) fun attempt => !attempt.2) := by
        refine .inSpan (endsBelow_bind hBody fun value => ?_) _ _
        exact endsBelow_bind (hPred value) fun keep => (bounded_pure _).endsBelow _
      have hRest (attempt : α × Bool) : EndsWithin (limit + 1)
          (if attempt.2 then pure attempt.1 else Generators.filterAttempts body pred attempts) :=
        endsBelow_ite ((bounded_pure _).endsBelow _) ih.ends
      exact ⟨endsBelow_bind hAttempt.ends hRest,
        pays_bind hAttempt.spends fun attempt => (hRest attempt).shrinks⟩

/-- The loop of a collection: every turn comes after a `more`. -/
theorem EndsWithin.collectionLoop {turn : κ → Client S (κ ⊕ β)} {done : κ → β}
    (hTurn : ∀ k, EndsWithin limit (turn k)) (k : κ) : EndsWithin limit (Program.loop (fun k => do
      if ← collectionMore then turn k else pure (.inr (done k))) k) := by
  refine endsBelow_loop (fun k => ?_) (fun k world => ?_) k
  · exact endsBelow_bind ((bounded_call _ _).endsBelow _) fun more =>
      endsBelow_ite (hTurn k) ((bounded_pure _).endsBelow _)
  · refine ensures_bind ((spends_call _ _ world).mono ?_)
    rintro (e | more) middle hLess
    · exact fun k' hNext => by cases hNext
    · refine ensures_ite (fun _ => ((hTurn k).shrinks middle).mono fun result world' hLe k' _ => ?_)
        fun _ => ensures_pure _ fun k' hNext => by cases hNext
      exact Nat.lt_of_le_of_lt hLe hLess

/-- A collection, whatever is done with the elements. -/
theorem Opens.collection {turn : List α → Client S (List α ⊕ List α)}
    (hTurn : ∀ result, EndsWithin limit (turn result)) (label : SpanLabel) (minSize maxSize : Nat) :
    Opens limit (Hegel.inSpan label do
      newCollection minSize maxSize
      Program.loop (fun result => do
        if ← collectionMore then turn result else pure (.inr result)) []) := by
  refine .inSpan (endsBelow_bind ?_ fun _ => EndsWithin.collectionLoop hTurn []) label _
  exact (bounded_call _ _).endsBelow _

theorem EndsWithin.collectionReject {γ : Type} (why : String) (a : γ) :
    EndsWithin limit (Hegel.collectionReject why >>= fun _ => pure a : Client S γ) :=
  Bounded.endsBelow (bounded_bind (bounded_call _ _) fun _ => bounded_pure a) limit

theorem Opens.vectors (hBody : EndsWithin limit body) (params : Generators.CollectionParams)
    (unique : Option (α → α → Bool)) : Opens limit (Generators.vectors body params unique) := by
  refine .collection (fun result => ?_) _ _ _
  refine endsBelow_bind hBody fun element => endsBelow_ite ?_ ((bounded_pure _).endsBelow _)
  exact EndsWithin.collectionReject _ _

theorem Opens.sets (hBody : EndsWithin limit body) (params : Generators.CollectionParams)
    (lt : α → α → Bool) : Opens limit (Generators.sets body params lt) := by
  refine .collection (fun result => endsBelow_bind hBody fun element => ?_) _ _ _
  cases Generators.setInsert lt element result with
  | some inserted => exact (bounded_pure _).endsBelow _
  | none => exact EndsWithin.collectionReject _ _

theorem Opens.maps (hBody : EndsWithin limit body) {values : Client S β}
    (hValues : EndsWithin limit values) (params : Generators.CollectionParams)
    (lt : α → α → Bool) : Opens limit (Generators.maps body values params lt) := by
  refine .collection (fun result => endsBelow_bind hBody fun key => ?_) _ _ _
  refine endsBelow_ite (EndsWithin.collectionReject _ _) ?_
  exact endsBelow_bind hValues fun value => (bounded_pure _).endsBelow _

theorem EndsWithin.drawTupleImpl (n : Nat) (τ : Fin n → Type) {gens : (i : Fin n) → Client S (τ i)}
    (hGens : ∀ i, EndsWithin limit (gens i)) :
    EndsWithin limit (Generators.drawTupleImpl n τ gens) := by
  induction n with
  | zero => exact (bounded_pure _).endsBelow _
  | succ n ih =>
      refine endsBelow_bind (hGens 0) fun first => endsBelow_bind (ih _ fun i => hGens i.succ) ?_
      exact fun rest => (bounded_pure _).endsBelow _

theorem Opens.oneOf {n : Nat} {gens : Fin (n + 1) → Client S α}
    (hGens : ∀ i, EndsWithin limit (gens i)) : Opens limit (Generators.oneOf gens) := by
  refine .inSpan (endsBelow_bind ((bounded_call _ _).endsBelow _) fun index => ?_) _ _
  exact hGens (Fin.ofNat _ index.toNat)

theorem Opens.variant {n : Nat} {τ : Fin (n + 1) → Type}
    {gens : (i : Fin (n + 1)) → Client S (τ i)} (hGens : ∀ i, EndsWithin limit (gens i)) :
    Opens limit (Generators.variant gens) := by
  refine .inSpan (endsBelow_bind ((bounded_call _ _).endsBelow _) fun index => ?_) _ _
  exact endsBelow_bind (hGens (Fin.ofNat _ index.toNat)) fun value => (bounded_pure _).endsBelow _

theorem Opens.optional (hBody : EndsWithin limit body) :
    Opens limit (Generators.optional body) := by
  refine .inSpan (endsBelow_bind ((bounded_call _ _).endsBelow _) fun present => ?_) _ _
  refine endsBelow_ite (endsBelow_bind hBody fun value => ?_) ((bounded_pure _).endsBelow _)
  exact (bounded_pure _).endsBelow _

end Combinators

/-! The loops that run user code repeatedly. -/
section Stateful

variable {machine : StateMachine S} {rule : Rule S} (params : RunParams) (handle : Nat)

theorem EndsWithin.noteIndentScope {body : Client S Unit} (hBody : EndsWithin limit body) :
    EndsWithin limit (Hegel.noteIndentScope body) := by
  have hIndent (f : Nat → Nat) : Bounded World.budget (modify fun world : World S =>
      { world with noteIndent := f world.noteIndent } : Client S Unit) :=
    bounded_modify fun _ => Nat.le_refl _
  refine endsBelow_bind ((hIndent (· + 1)).endsBelow _) fun _ => ?_
  refine endsBelow_bind (endsBelow_tryCatch hBody fun e => Bounded.endsBelow ?_ limit) fun _ => ?_
  · exact bounded_bind (hIndent (· - 1)) fun _ => bounded_throw _
  · exact (hIndent (· - 1)).endsBelow _

theorem bounded_recordAbsorption (site : Site) (start : World S) (opened closed : Option OpenSpan) :
    Bounded World.budget (recordAbsorption site start opened closed) :=
  bounded_bind bounded_get fun _ => bounded_record _

theorem Opens.repeatBody {body : Client S Unit} (hBody : EndsWithin limit body) :
    Opens limit (Hegel.repeatBody body) := by
  refine .bind (bounded_call _ _) (spends_call _ _) fun minSize => ?_
  refine endsBelow_bind ((bounded_call _ _).endsBelow _) fun _ => ?_
  refine EndsWithin.collectionLoop (fun iteration => ?_) 0
  refine endsBelow_bind ((bounded_note _).endsBelow _) fun _ => endsBelow_bind ?_ fun _ =>
    (bounded_pure _).endsBelow _
  refine endsBelow_bind (bounded_get.endsBelow _) fun start => endsBelow_tryCatch hBody fun e => ?_
  exact (bounded_ite (bounded_recordAbsorption _ _ _ _) (bounded_throw _)).endsBelow _

theorem bounded_printState : Bounded World.budget (printState machine params) := by
  refine bounded_bind bounded_get fun world => bounded_ite ?_ (bounded_pure _)
  cases machine.repr world.memory with
  | ok text => exact bounded_note _
  | error e => exact bounded_throw _

theorem bounded_checkInvariants (origin : String) (sampled : Bool) (index : Nat)
    (invariants : List (Invariant S)) :
    Bounded World.budget (checkInvariants handle origin sampled index invariants) := by
  induction invariants generalizing index with
  | nil => exact bounded_pure _
  | cons invariant rest ih =>
      refine bounded_bind (bounded_ite ?_ (bounded_pure _)) fun selected => ?_
      · exact bounded_recordedCall fun answer => bounded_pure _
      · refine bounded_bind (bounded_ite ?_ (bounded_pure _)) fun _ => ih (index + 1)
        refine bounded_bind bounded_get fun world => bounded_bind (bounded_record _) fun _ => ?_
        cases invariant.check world.memory with
        | none => exact bounded_pure _
        | some e => exact bounded_bind (bounded_note _) fun _ => bounded_throw _

theorem EndsWithin.observeRule {step : Client S Unit} (hStep : EndsWithin limit step)
    (index : Nat) : EndsWithin limit (Hegel.observeRule handle index step) := by
  refine endsBelow_bind ((bounded_record _).endsBelow _) fun _ => endsBelow_bind ?_ fun _ => ?_
  · refine endsBelow_tryCatch hStep fun e => Bounded.endsBelow ?_ limit
    refine bounded_bind bounded_get fun world => bounded_bind (bounded_record _) fun _ => ?_
    exact bounded_bind (bounded_ite (bounded_pure _) (bounded_record _)) fun _ => bounded_throw _
  · exact (bounded_bind bounded_get fun world => bounded_record _).endsBelow _

theorem bounded_ruleRejected : Bounded World.budget (ruleRejected handle : Client S Unit) := by
  refine bounded_bind bounded_get fun world => bounded_bind (bounded_record _) fun _ => ?_
  refine bounded_bind (bounded_record _) fun _ => ?_
  refine bounded_bind (bounded_modify fun _ => Nat.le_refl _) fun _ => ?_
  exact bounded_raiseForRc _ _ _

theorem bounded_stepHandler (start : World S) (opened : OpenSpan) (e : Exn) :
    Bounded World.budget (stepHandler handle start opened e) := by
  refine bounded_bind (bounded_record _) fun _ => bounded_ite ?_ ?_
  · refine bounded_bind (bounded_note _) fun _ => bounded_bind (bounded_ruleRejected handle) ?_
    refine fun _ => bounded_bind (bounded_record _) fun _ => ?_
    exact bounded_bind (bounded_stopSpan _) fun _ => bounded_recordAbsorption _ _ _ _
  · refine bounded_bind (bounded_record _) fun _ => ?_
    exact bounded_bind (bounded_stopSpan _) fun _ => bounded_throw _

theorem EndsWithin.runStep (hStep : EndsWithin limit rule.step) (index stepsRun : Nat) :
    EndsWithin limit (Hegel.runStep machine params handle index stepsRun rule) := by
  refine endsBelow_bind (bounded_get.endsBelow _) fun start => ?_
  refine endsBelow_bind ((bounded_record _).endsBelow _) fun _ => ?_
  refine endsBelow_bind ((bounded_startSpan _).endsBelow _) fun opened => ?_
  refine endsBelow_bind ((bounded_note _).endsBelow _) fun _ => ?_
  refine endsBelow_bind ((bounded_record _).endsBelow _) fun _ => ?_
  refine endsBelow_tryCatch ?_ fun e => (bounded_stepHandler handle start opened e).endsBelow _
  refine endsBelow_bind (hStep.noteIndentScope.observeRule handle index) fun _ => ?_
  refine Bounded.endsBelow (bounded_bind (bounded_printState params) fun _ => ?_) limit
  refine bounded_bind (bounded_record _) fun _ => bounded_bind (bounded_record _) fun _ => ?_
  exact bounded_bind (bounded_stopSpan _) fun _ => bounded_pure _

/-- A loop whose iterations start with a call to the state machine. -/
theorem EndsWithin.callLoop {event : Answer → Event S} {what : String}
    {k' : Answer → Client S Int} {turn : κ → Int → Client S (κ ⊕ β)}
    (hk : ∀ answer, Bounded World.budget (k' answer))
    (hTurn : ∀ k index, EndsWithin limit (turn k index)) (k : κ) :
    EndsWithin limit (Program.loop (fun k => recordedCall event what k' >>= turn k) k) := by
  refine endsBelow_loop (fun k => ?_) (fun k world => ?_) k
  · exact endsBelow_bind ((bounded_recordedCall hk).endsBelow _) (hTurn k)
  · refine ensures_bind ((spends_recordedCall hk world).mono ?_)
    rintro (e | index) middle hLess
    · exact fun k' hNext => by cases hNext
    · exact ((hTurn k index).shrinks middle).mono fun result world' hLe k' _ =>
        Nat.lt_of_le_of_lt hLe hLess

theorem EndsWithin.runRules (hRules : ∀ rule ∈ machine.rules, EndsWithin limit rule.step)
    (stepsRun : Nat) :
    EndsWithin limit (Program.loop (Hegel.runRules machine params handle) stepsRun) := by
  refine EndsWithin.callLoop (fun answer => ?_) (fun stepsRun index => ?_) stepsRun
  · exact bounded_bind (bounded_modify fun _ => Nat.le_refl _) fun _ => bounded_pure _
  refine endsBelow_ite ((bounded_pure _).endsBelow _) ?_
  cases hRule : ruleAt machine.rules index with
  | none => exact (bounded_throw _).endsBelow _
  | some rule =>
      have hMem : rule ∈ machine.rules := by
        unfold ruleAt at hRule
        split at hRule
        · cases hRule
        · exact List.mem_of_getElem? hRule
      refine endsBelow_bind ((hRules rule hMem).runStep params handle _ _) fun _ => ?_
      exact (bounded_pure _).endsBelow _

theorem Opens.run (hRules : ∀ rule ∈ machine.rules, EndsWithin limit rule.step) :
    Opens limit (Hegel.run machine params) := by
  unfold Hegel.run
  split
  · exact opens_throw _
  have hMachine : Bounded World.budget (newStateMachine : Client S Nat) := by
    refine bounded_bind bounded_get fun world => ?_
    refine bounded_bind (bounded_modify fun _ => Nat.le_refl _) fun _ => ?_
    exact bounded_bind (bounded_record _) fun _ => bounded_call _ _
  have hSpends : Spends (newStateMachine : Client S Nat) := by
    refine pays_of_bind bounded_get.shrinks fun world => ?_
    refine pays_of_bind (Bounded.shrinks (bounded_modify fun _ => Nat.le_refl _)) fun _ => ?_
    exact pays_of_bind (bounded_record _).shrinks fun _ => spends_call _ _
  refine .bind hMachine hSpends fun handle => ?_
  refine endsBelow_bind ((bounded_note _).endsBelow _) fun _ => ?_
  refine endsBelow_bind ((bounded_printState params).endsBelow _) fun _ => ?_
  refine endsBelow_bind ((bounded_checkInvariants _ _ _ _ _).endsBelow _) fun _ => ?_
  refine endsBelow_bind ?_ fun _ => endsBelow_bind ((bounded_note _).endsBelow _) fun _ =>
    (bounded_checkInvariants _ _ _ _ _).endsBelow _
  refine EndsWithin.callLoop (fun answer => ?_) (fun stepsRun group => ?_) 0
  · exact bounded_bind (bounded_modify fun _ => Nat.le_refl _) fun _ => bounded_pure _
  refine endsBelow_ite ((bounded_pure _).endsBelow _) ?_
  refine endsBelow_bind (EndsWithin.runRules params handle hRules stepsRun) fun stepsRun => ?_
  refine endsBelow_bind ((bounded_checkInvariants _ _ _ _ _).endsBelow _) fun _ => ?_
  exact (bounded_pure _).endsBelow _

end Stateful

namespace Code

/-- No loop of the client's own; the library's loops call the engine. -/
def LoopFree : {α : Type} → Code S α → Prop
  | _, ret _ | _, throw _ | _, read | _, write _ | _, note _ => True
  | _, integers _ _ | _, booleans | _, text | _, poolAdd | _, poolDraw _ => True
  | _, sampledFrom _ | _, deferred _ _ => True
  | _, loop _ _ => False
  | _, bind p k => LoopFree p ∧ ∀ a, LoopFree (k a)
  | _, tryCatch p handler => LoopFree p ∧ ∀ e, LoopFree (handler e)
  | _, map source f => LoopFree source ∧ ∀ a, LoopFree (f a)
  | _, flatMap inner f => LoopFree inner ∧ ∀ a, LoopFree (f a)
  | _, filter inner pred => LoopFree inner ∧ ∀ a, LoopFree (pred a)
  | _, vectors elements _ _ => LoopFree elements
  | _, sets elements _ _ => LoopFree elements
  | _, maps keys values _ _ => LoopFree keys ∧ LoopFree values
  | _, tuples _ gens => ∀ i, LoopFree (gens i)
  | _, arrays _ element => LoopFree element
  | _, oneOf gens => ∀ i, LoopFree (gens i)
  | _, variant gens => ∀ i, LoopFree (gens i)
  | _, optional gen => LoopFree gen
  | _, «repeat» body => LoopFree body
  | _, run _ steps _ _ _ => ∀ i, LoopFree (steps i)

/-- The code does not return before it called the engine. -/
def Calls : {α : Type} → Code S α → Prop
  | _, ret _ | _, read | _, write _ | _, note _ | _, deferred _ _ | _, loop _ _ => False
  | _, bind p k => Calls p ∨ ∀ a, Calls (k a)
  | _, tryCatch p handler => Calls p ∧ ∀ e, Calls (handler e)
  | _, _ => True

/-- No delegation comes before the first call to the engine. The compound
generators start with one, whatever they draw from. -/
def Guarded : {α : Type} → Code S α → Prop
  | _, deferred _ _ => False
  | _, bind p k => Guarded p ∧ (Calls p ∨ ∀ a, Guarded (k a))
  | _, tryCatch p handler => Guarded p ∧ ∀ e, Guarded (handler e)
  | _, _ => True

end Code

/-- What an induction over client code carries. -/
structure Descends (limit : Nat) (calls guarded : Prop) (p : Client S α) : Prop where
  ends : EndsWithin limit p
  spends : calls → Spends p
  guarded : guarded → EndsWithin (limit + 1) p

theorem Opens.descends {p : Client S α} (h : Opens limit p) (calls guarded : Prop) :
    Descends limit calls guarded p :=
  ⟨h.ends.mono (Nat.le_succ limit), fun _ => h.spends, fun _ => h.ends⟩

theorem descends_of_bounded {p : Client S α} (h : Bounded World.budget p) {calls : Prop}
    (hCalls : ¬ calls) (guarded : Prop) : Descends limit calls guarded p :=
  ⟨h.endsBelow _, fun h => absurd h hCalls, fun _ => h.endsBelow _⟩

namespace Code

theorem descends_interpret {delegate : Delegate S}
    (hDelegate : ∀ α slot, EndsWithin limit (delegate α slot)) (code : Code S α)
    (hLoopFree : code.LoopFree) :
    Descends limit code.Calls code.Guarded (code.interpret delegate) := by
  induction code with
  | ret a => exact descends_of_bounded (bounded_pure a) id _
  | bind p k ihp ihk =>
      have hp := ihp hLoopFree.1
      have hk := fun a => ihk a (hLoopFree.2 a)
      refine ⟨endsBelow_bind hp.ends fun a => (hk a).ends, ?_, ?_⟩
      · rintro (hCalls | hCalls)
        · exact pays_bind (hp.spends hCalls) fun a => (hk a).ends.shrinks
        · exact pays_of_bind hp.ends.shrinks fun a => (hk a).spends (hCalls a)
      · rintro ⟨hFirst, hCalls | hSecond⟩
        · exact endsBelow_bind_of_pays (hp.guarded hFirst) (hp.spends hCalls) fun a => (hk a).ends
        · exact endsBelow_bind (hp.guarded hFirst) fun a => (hk a).guarded (hSecond a)
  | throw e => exact (opens_throw e).descends _ _
  | tryCatch p handler ihp ihHandler =>
      have hp := ihp hLoopFree.1
      have hHandler := fun e => ihHandler e (hLoopFree.2 e)
      refine ⟨endsBelow_tryCatch hp.ends fun e => (hHandler e).ends, ?_, ?_⟩
      · intro hCalls
        exact pays_tryCatch hp.ends.shrinks (hp.spends hCalls.1) fun e =>
          (hHandler e).spends (hCalls.2 e)
      · intro hGuarded
        exact endsBelow_tryCatch (hp.guarded hGuarded.1) fun e =>
          (hHandler e).guarded (hGuarded.2 e)
  | loop body k ih => exact hLoopFree.elim
  | read =>
      exact descends_of_bounded (bounded_bind bounded_get fun _ => bounded_pure _) id _
  | write memory =>
      have hWrite : Bounded World.budget (modify fun world : World S => { world with memory } :
          Client S Unit) := bounded_modify fun _ => Nat.le_refl _
      exact descends_of_bounded hWrite id _
  | note message => exact descends_of_bounded (bounded_note message) id _
  | integers minValue maxValue =>
      exact (Opens.of_bounded (bounded_call _ _) (spends_call _ _)).descends _ _
  | booleans => exact (Opens.of_bounded (bounded_call _ _) (spends_call _ _)).descends _ _
  | text => exact (Opens.of_bounded (bounded_call _ _) (spends_call _ _)).descends _ _
  | poolAdd => exact (Opens.of_bounded (bounded_call _ _) (spends_call _ _)).descends _ _
  | poolDraw consume => exact (Opens.of_bounded (bounded_call _ _) (spends_call _ _)).descends _ _
  | sampledFrom elements =>
      refine (Opens.bind (bounded_call _ _) (spends_call _ _) fun index => ?_).descends _ _
      exact (bounded_pure _).endsBelow _
  | map source f ihSource ihf =>
      have hBody := endsBelow_bind (ihSource hLoopFree.1).ends fun a => (ihf a (hLoopFree.2 a)).ends
      exact (Opens.inSpan hBody _ _).descends _ _
  | flatMap inner f ihInner ihf =>
      have hBody := endsBelow_bind (ihInner hLoopFree.1).ends fun a => (ihf a (hLoopFree.2 a)).ends
      exact (Opens.inSpan hBody _ _).descends _ _
  | filter inner pred ihInner ihPred =>
      refine (Opens.filterAttempts (ihInner hLoopFree.1).ends (fun a => ?_) 3).descends _ _
      exact (ihPred a (hLoopFree.2 a)).ends
  | vectors elements params unique ih =>
      exact (Opens.vectors (ih hLoopFree).ends params unique).descends _ _
  | sets elements params lt ih => exact (Opens.sets (ih hLoopFree).ends params lt).descends _ _
  | maps keys values params lt ihKeys ihValues =>
      refine (Opens.maps (ihKeys hLoopFree.1).ends ?_ params lt).descends _ _
      exact (ihValues hLoopFree.2).ends
  | tuples n gens ih =>
      have hDraws := EndsWithin.drawTupleImpl n _ fun i => (ih i (hLoopFree i)).ends
      exact (Opens.inSpan hDraws _ _).descends _ _
  | arrays n element ih =>
      have hDraws := EndsWithin.drawTupleImpl n _ fun _ => (ih hLoopFree).ends
      exact (Opens.inSpan hDraws _ _).descends _ _
  | oneOf gens ih => exact (Opens.oneOf fun i => (ih i (hLoopFree i)).ends).descends _ _
  | variant gens ih => exact (Opens.variant fun i => (ih i (hLoopFree i)).ends).descends _ _
  | optional gen ih => exact (Opens.optional (ih hLoopFree).ends).descends _ _
  | deferred α slot => exact ⟨hDelegate α slot, False.elim, False.elim⟩
  | «repeat» body ih => exact (Opens.repeatBody (ih hLoopFree).ends).descends _ _
  | run names steps invariants repr params ih =>
      refine (Opens.run params fun rule hRule => ?_).descends _ _
      obtain ⟨i, rfl⟩ := List.mem_ofFn.mp hRule
      exact (ih i (hLoopFree i)).ends

/-- The generators that may be installed for a recursion to end. -/
def Slots.Guarded (slots : Slots S) : Prop :=
  ∀ α slot gen, slots α slot = some gen → (gen : Code S α).LoopFree ∧ gen.Guarded

/-- The depth of a recursion is paid for with answers of the engine. -/
theorem endsWithin_delegate {slots : Slots S} (hSlots : slots.Guarded) (depth : Nat) (α : Type)
    (slot : Nat) : EndsWithin depth (delegate slots depth α slot) := by
  induction depth generalizing α slot with
  | zero => exact endsBelow_zero fun _ => ensures_diverge
  | succ depth ih =>
      simp only [delegate]
      cases hSlot : slots α slot with
      | none => exact (bounded_throw _).endsBelow _
      | some gen =>
          obtain ⟨hLoopFree, hGuarded⟩ := hSlots α slot gen hSlot
          exact (gen.descends_interpret ih hLoopFree).guarded hGuarded

/-- The code delegates to the slot before it does anything else. -/
inductive StartsWith (β : Type) (slot : Nat) : {α : Type} → Code S α → Prop where
  | deferred : StartsWith β slot (deferred β slot)
  | bind {α γ : Type} {p : Code S α} (k : α → Code S γ) (first : StartsWith β slot p) :
      StartsWith β slot (bind p k)
  | tryCatch {α : Type} {p : Code S α} (handler : Exn → Code S α)
      (first : StartsWith β slot p) : StartsWith β slot (tryCatch p handler)

theorem StartsWith.interpret_eq_none {delegate : Delegate S} {slot fuel : Nat}
    {world : World S} (hDelegate : delegate β slot fuel world = none) {code : Code S α}
    (hStarts : StartsWith β slot code) : code.interpret delegate fuel world = none := by
  induction hStarts with
  | deferred => exact hDelegate
  | bind k first ih =>
      change Program.bind _ _ fuel world = none
      rw [Program.bind, ih]
  | tryCatch handler first ih =>
      change Program.tryCatch _ _ fuel world = none
      rw [Program.tryCatch, ih]

/-- The slots delegate to one another before they do anything else. -/
def Slots.Cycle (slots : Slots S) (cycle : Type → Nat → Prop) : Prop :=
  ∀ α slot, cycle α slot → ∃ gen β next, slots α slot = some gen ∧ StartsWith β next gen ∧
    cycle β next

end Code

/-- However many answers the engine gives, client code whose deferred generators
call the engine before they delegate ends: at every depth that exceeds the answers,
with all the fuel that exceeds them, and in the same way. -/
theorem recursion_ends {slots : Code.Slots S} (hSlots : slots.Guarded) {code : Code S α}
    (hCode : code.LoopFree) (world : World S) :
    ∃ result world', world'.budget ≤ world.budget ∧ ∀ depth fuel, world.budget < depth →
      world.budget < fuel → code.exec slots depth fuel world = some (result, world') := by
  have hDepth (depth : Nat) : EndsWithin depth (code.exec slots depth) :=
    (code.descends_interpret (Code.endsWithin_delegate hSlots depth) hCode).ends
  obtain ⟨result, world', hEnd⟩ := (hDepth (world.budget + 1)).ends (world.budget + 1) world
    (Nat.lt_succ_self _) (Nat.lt_succ_self _)
  refine ⟨result, world', (hDepth _).shrinks world _ _ _ hEnd, fun depth fuel hLt hFuel => ?_⟩
  exact code.approximates_exec slots hLt _ _ world _ hFuel hEnd

/-- Two alternatives: reject the test case, or draw once more. -/
theorem retry_ends : ∃ result world', world'.budget ≤ 2 ∧ ∀ depth fuel, 2 < depth → 2 < fuel →
    Code.exec (fun α _ => some (.oneOf fun i : Fin 2 =>
      if i = 0 then .throw hegelReject else .deferred α 0)) depth (.deferred Int 0) fuel
        { answers := [{}, { int := 1 }], memory := () } = some (result, world') := by
  have hCode : Code.LoopFree (.deferred Int 0 : Code Unit Int) := trivial
  refine recursion_ends ?_ hCode { answers := [{}, { int := 1 }], memory := () }
  rintro α slot gen hGen
  cases hGen
  refine ⟨fun i => ?_, trivial⟩
  show Code.LoopFree (if i = 0 then .throw hegelReject else .deferred α 0)
  split <;> trivial

/-- A cycle of delegations that nothing precedes never ends. -/
theorem unguarded_never_ends {slots : Code.Slots S} {cycle : Type → Nat → Prop}
    (hCycle : slots.Cycle cycle) {slot : Nat} (hSlot : cycle β slot) {code : Code S α}
    (hStarts : code.StartsWith β slot) (depth fuel : Nat) (world : World S) :
    code.exec slots depth fuel world = none := by
  refine hStarts.interpret_eq_none ?_
  clear hStarts
  induction depth generalizing β slot with
  | zero => rfl
  | succ depth ih =>
      obtain ⟨gen, γ, next, hGen, hNext, hCycled⟩ := hCycle β slot hSlot
      simp only [Code.delegate, hGen]
      exact hNext.interpret_eq_none (ih hCycled)

theorem self_never_ends : Code.exec (fun α _ => some (.bind (.deferred α 0) .ret)) 5
    (.deferred Int 0) 5 { answers := [{}, {}], memory := () } = none := by
  have hCycle : Code.Slots.Cycle (S := Unit) (fun α _ => some (.bind (.deferred α 0) .ret))
      fun _ slot => slot = 0 := fun α _ _ => ⟨_, α, 0, rfl, .bind _ .deferred, rfl⟩
  exact unguarded_never_ends hCycle rfl .deferred 5 5 _

end Hegel
