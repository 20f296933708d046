import HegelCpp.Engine.World

/-! The typed draw primitives and handle classes over the C ABI. Every call
takes the engine's next answer and routes its return code to success or to the
matching exception. Where the contract of libhegel fixes the return code, or
bounds the value, the call is written that way. -/
namespace Hegel

open Logic

variable {S α : Type}

/-- `HEGEL_STATE_MACHINE_DONE`, which is `INT64_MIN`. -/
def stateMachineDone : Int := -9223372036854775808

/-- `DrawScope::raise_for_rc`: the exception for a return code, if any. -/
def ResultCode.raised (rc : ResultCode) (what lastError : String) : Option Exn :=
  match rc with
  | .ok => none
  | .stopTest => some hegelStopTest
  | .assume => some hegelReject
  | .invalidArg => some (invalidArgument lastError)
  | rc => some (runtimeError (what ++ " failed (" ++ rc.rcLabel ++
      if lastError.isEmpty then ")" else "): " ++ lastError))

theorem ResultCode.raised_eq_none {rc : ResultCode} {what lastError : String} :
    rc.raised what lastError = none ↔ rc = .ok := by
  cases rc <;> simp [raised]

/-- `check_rc`: the exception for a return code, if any. -/
def checkRc (rc : ResultCode) (lastError : String) : Option Exn :=
  match rc with
  | .ok => none
  | rc => some (runtimeError (rc.rcLabel ++
      if lastError.isEmpty then "" else ": " ++ lastError))

def raiseForRc (rc : ResultCode) (what lastError : String) : Client S Unit :=
  match rc.raised what lastError with
  | none => pure ()
  | some e => Program.throw e

/-- The engine's next answer. An exhausted budget answers every call with
`HEGEL_E_STOP_TEST`. -/
def nextAnswer : Client S Answer := do
  let world ← Program.get
  match world.answers with
  | [] => pure { rc := .stopTest }
  | answer :: rest => do
      Program.modify fun world => { world with answers := rest }
      pure answer

def engineCall (what : String) : Client S Answer := do
  let answer ← nextAnswer
  raiseForRc answer.rc what answer.lastError
  pure answer

/-- The engine answers within the requested interval. -/
def drawInteger (minValue maxValue : Int) : Client S Int := do
  let answer ← engineCall "hegel_generate_integer"
  pure (max minValue (min answer.int maxValue))

def drawBoolean : Client S Bool := do
  let answer ← engineCall "hegel_generate_boolean"
  pure answer.bool

def drawString : Client S String := do
  let answer ← engineCall "hegel_generate_string"
  pure answer.text

/-- `CollectionHandle::CollectionHandle`. The size bounds only reach the engine. -/
def newCollection (_minSize _maxSize : Nat) : Client S Unit := do
  let _ ← engineCall "hegel_new_collection"
  pure ()

/-- `CollectionHandle::more`. -/
def collectionMore : Client S Bool := do
  let answer ← engineCall "hegel_collection_more"
  pure answer.bool

/-- `CollectionHandle::reject`. -/
def collectionReject (_why : String) : Client S Unit := do
  let _ ← engineCall "hegel_collection_reject"
  pure ()

/-- `PoolHandle::add`: the id of the fresh variable. -/
def poolAdd : Client S Int := do
  let answer ← engineCall "hegel_pool_add"
  pure answer.int

/-- `PoolHandle::draw_variable`. An empty pool answers `HEGEL_E_ASSUME`. -/
def poolDrawVariable (_consume : Bool) : Client S Int := do
  let answer ← engineCall "hegel_pool_generate"
  pure answer.int

/-- `start_span`. The span it opened is returned as a ghost. -/
def startSpan (label : SpanLabel) : Client S OpenSpan := do
  let _ ← engineCall "hegel_start_span"
  let world ← Program.get
  let opened := { label, id := world.spansOpened }
  Program.modify fun world =>
    { world with spans := opened :: world.spans, spansOpened := world.spansOpened + 1 }
  pure opened

/-- `stop_span` closes the most recently opened span, whichever that is, and
returns `HEGEL_OK`. The span it closed is returned as a ghost. -/
def stopSpan (_discard : Bool) : Client S (Option OpenSpan) := do
  let world ← Program.get
  Program.modify fun world => { world with spans := world.spans.tail }
  pure world.spans.head?

/-- Ghost: notes that an exception left the code between a `start_span` and
its `stop_span`. There is no scope guard, so the span stays open. -/
def unguarded (body : Client S α) : Client S α :=
  body.tryCatch fun e => do
    Program.modify fun world => { world with interrupted := world.interrupted + 1 }
    Program.throw e

/-- The body of a compound draw between its `start_span` and its `stop_span`. -/
def inSpan (label : SpanLabel) (body : Client S α) (discard : α → Bool := fun _ => false) :
    Client S α := do
  let _ ← startSpan label
  let result ← unguarded body
  let _ ← stopSpan (discard result)
  pure result

/-- `StateMachineHandle::StateMachineHandle`. The machine's number is a ghost. -/
def newStateMachine : Client S Nat := do
  let world ← Program.get
  Program.modify fun world => { world with machines := world.machines + 1 }
  record (.call world.machines .newStateMachine)
  let _ ← engineCall "hegel_new_state_machine"
  pure world.machines

/-- The value of an answered call, for the history. -/
def Answer.value? (answer : Answer) : Option Int :=
  if answer.rc = .ok then some answer.int else none

/-- `StateMachineHandle::next_group`. A new round has no outstanding rule. -/
def nextGroup (machine : Nat) : Client S Int := do
  let answer ← nextAnswer
  record (.call machine (.nextGroup answer.value?))
  raiseForRc answer.rc "hegel_state_machine_next_group" answer.lastError
  Program.modify fun world =>
    { world with outstanding := Function.update world.outstanding machine false }
  pure answer.int

/-- `StateMachineHandle::next_rule` for the only worker of a sequential
machine. A rule that is returned becomes outstanding. -/
def nextRule (machine : Nat) : Client S Int := do
  let answer ← nextAnswer
  record (.call machine (.nextRule answer.value?))
  raiseForRc answer.rc "hegel_state_machine_next_rule" answer.lastError
  Program.modify fun world =>
    { world with outstanding :=
        Function.update world.outstanding machine (answer.int != stateMachineDone) }
  pure answer.int

/-- `StateMachineHandle::rule_rejected`. The engine answers
`HEGEL_E_INVALID_ARG` exactly when the worker has no outstanding rule. -/
def ruleRejected (machine : Nat) : Client S Unit := do
  let world ← Program.get
  let rc : ResultCode := if world.outstanding machine then .ok else .invalidArg
  record (.call machine .ruleRejected)
  record (.rejectedRule machine rc)
  Program.modify fun world =>
    { world with outstanding := Function.update world.outstanding machine false }
  raiseForRc rc "hegel_state_machine_rule_rejected" ""

/-- `StateMachineHandle::should_check_invariant`. -/
def shouldCheckInvariant (machine index : Nat) : Client S Bool := do
  let answer ← nextAnswer
  record (.call machine (.shouldCheckInvariant index))
  raiseForRc answer.rc "hegel_state_machine_should_check_invariant" answer.lastError
  pure answer.bool

/-- A call to the engine can raise the exception. -/
def CallRaises (e : Exn) : Prop :=
  ∃ (rc : ResultCode) (what lastError : String), rc.raised what lastError = some e

/-! One rule for each primitive: what the world looks like when it returns and
when it raises. -/
section Rules
variable {world : World S}

theorem ensures_record {post : Except Exn Unit → World S → Prop} (event : Event S)
    (h : post (.ok ()) (world.log event)) : (record event).Ensures world post :=
  Program.ensures_modify _ h

theorem ensures_note {post : Except Exn Unit → World S → Prop} (text : String)
    (h : post (.ok ()) (world.log (.note world.noteIndent text))) :
    (note text).Ensures world post :=
  Program.ensures_modify _ h

theorem ensures_raiseForRc {post : Except Exn Unit → World S → Prop} {rc : ResultCode}
    {what lastError : String} (hOk : rc = .ok → post (.ok ()) world)
    (hRaise : rc ≠ .ok → ∀ e, rc.raised what lastError = some e → post (.error e) world) :
    (raiseForRc rc what lastError : Client S Unit).Ensures world post := by
  unfold raiseForRc
  split
  · rename_i hNone
    exact Program.ensures_pure _ (hOk (ResultCode.raised_eq_none.mp hNone))
  · rename_i e hSome
    refine Program.ensures_throw _ (hRaise ?_ e hSome)
    rintro rfl
    cases hSome

theorem ensures_nextAnswer_of {post : Except Exn Answer → World S → Prop}
    (hSpent : post (.ok { rc := .stopTest }) world)
    (hAnswer : ∀ answer rest, world.answers = answer :: rest →
      post (.ok answer) { world with answers := rest }) :
    (nextAnswer : Client S Answer).Ensures world post := by
  refine Program.ensures_bind (Program.ensures_get ?_)
  show (Program.Ensures (match world.answers with
    | [] => pure { rc := .stopTest }
    | answer :: rest => do
        Program.modify fun world => { world with answers := rest }
        pure answer) world post)
  cases hAnswers : world.answers with
  | nil => exact Program.ensures_pure _ hSpent
  | cons answer rest =>
      exact Program.ensures_bind (Program.ensures_modify _
        (Program.ensures_pure _ (hAnswer _ _ hAnswers)))

theorem ensures_nextAnswer {post : Except Exn Answer → World S → Prop}
    (h : ∀ answer rest, post (.ok answer) { world with answers := rest }) :
    (nextAnswer : Client S Answer).Ensures world post :=
  ensures_nextAnswer_of (h _ world.answers) fun answer rest _ => h answer rest

/-- A call that returns took an answer. -/
theorem ensures_engineCall_of {post : Except Exn Answer → World S → Prop} {what : String}
    (hOk : ∀ answer rest, world.answers = answer :: rest →
      post (.ok answer) { world with answers := rest })
    (hRaise : ∀ e rest, rest <:+ world.answers → CallRaises e →
      post (.error e) { world with answers := rest }) :
    (engineCall what : Client S Answer).Ensures world post := by
  refine Program.ensures_bind (ensures_nextAnswer_of ?_ fun answer rest hAnswer => ?_)
  · exact Program.ensures_bind (ensures_raiseForRc nofun fun _ e hRaised =>
      hRaise e world.answers (List.suffix_refl _) ⟨_, _, _, hRaised⟩)
  · have hSuffix : rest <:+ world.answers := hAnswer ▸ List.suffix_cons answer rest
    exact Program.ensures_bind (ensures_raiseForRc
      (fun _ => Program.ensures_pure _ (hOk answer rest hAnswer))
      fun _ e hRaised => hRaise e rest hSuffix ⟨_, _, _, hRaised⟩)

theorem ensures_engineCall {post : Except Exn Answer → World S → Prop} {what : String}
    (hOk : ∀ answer rest, post (.ok answer) { world with answers := rest })
    (hRaise : ∀ e rest, post (.error e) { world with answers := rest }) :
    (engineCall what : Client S Answer).Ensures world post :=
  ensures_engineCall_of (fun answer rest _ => hOk answer rest) fun e rest _ _ => hRaise e rest

theorem ensures_startSpan {post : Except Exn OpenSpan → World S → Prop} {label : SpanLabel}
    (hOk : ∀ opened rest, opened.label = label → post (.ok opened)
      { world with answers := rest, spans := opened :: world.spans
                   spansOpened := world.spansOpened + 1 })
    (hRaise : ∀ e rest, post (.error e) { world with answers := rest }) :
    (startSpan label).Ensures world post := by
  refine Program.ensures_bind (ensures_engineCall (fun answer rest => ?_) hRaise)
  refine Program.ensures_bind (Program.ensures_get ?_)
  exact Program.ensures_bind (Program.ensures_modify _ (Program.ensures_pure _ (hOk _ rest rfl)))

theorem ensures_stopSpan {post : Except Exn (Option OpenSpan) → World S → Prop} {discard : Bool}
    (h : post (.ok world.spans.head?) { world with spans := world.spans.tail }) :
    (stopSpan discard).Ensures world post :=
  Program.ensures_bind (Program.ensures_get
    (Program.ensures_bind (Program.ensures_modify _ (Program.ensures_pure _ h))))

theorem ensures_unguarded {body : Client S α} {post : Except Exn α → World S → Prop}
    (h : body.Ensures world (Program.andThen (fun a world' => post (.ok a) world')
      (fun e world' => post (.error e) { world' with interrupted := world'.interrupted + 1 }))) :
    (unguarded body).Ensures world post := by
  refine Program.ensures_tryCatch (h.mono ?_)
  rintro (e | a) world' hEnd
  · exact Program.ensures_bind (Program.ensures_modify _ (Program.ensures_throw _ hEnd))
  · exact hEnd

theorem ensures_noteIndentScope {body : Client S Unit} {post : Except Exn Unit → World S → Prop}
    (h : body.Ensures { world with noteIndent := world.noteIndent + 1 } fun result world' =>
      post result { world' with noteIndent := world'.noteIndent - 1 }) :
    (noteIndentScope body).Ensures world post := by
  refine Program.ensures_bind (Program.ensures_modify _ (Program.ensures_bind
    (Program.ensures_tryCatch (h.mono ?_))))
  rintro (e | _) world' hEnd
  · exact Program.ensures_bind (Program.ensures_modify _ (Program.ensures_throw e hEnd))
  · exact Program.ensures_modify _ hEnd

theorem preserves_noteIndentScope {R : World S → World S → Prop}
    (hTrans : ∀ ⦃a b c⦄, R a b → R b c → R a c)
    (hIndent : ∀ (world : World S) (indent : Nat), R world { world with noteIndent := indent })
    {body : Client S Unit} (hBody : Program.Preserves R body) :
    Program.Preserves R (noteIndentScope body) := by
  refine fun world => ensures_noteIndentScope ((hBody _).mono fun _ world' hEnd => ?_)
  exact hTrans (hTrans (hIndent world _) hEnd) (hIndent world' _)

end Rules

/-! The primitives end, and only take from the engine's answers. -/
section Bounds

/-- How many answers the engine has left. -/
abbrev World.budget (world : World S) : Nat := world.answers.length

theorem total_engineCall (what : String) : Program.Total (engineCall what : Client S Answer) := by
  refine Program.total_bind (Program.total_bind Program.total_get fun world => ?_) fun answer => ?_
  · cases world.answers with
    | nil => exact Program.total_pure _
    | cons answer rest =>
        exact Program.total_bind (Program.total_modify _) fun _ => Program.total_pure _
  · refine Program.total_bind ?_ fun _ => Program.total_pure _
    unfold raiseForRc
    split
    · exact Program.total_pure _
    · exact Program.total_throw _

theorem bounded_engineCall (what : String) :
    Program.Bounded World.budget (engineCall what : Client S Answer) := by
  refine (total_engineCall what).bounded fun world => ensures_engineCall_of ?_ ?_
  · intro answer rest hAnswer
    simp [World.budget, hAnswer]
  · exact fun e rest hSuffix _ => hSuffix.length_le

theorem bounded_startSpan (label : SpanLabel) :
    Program.Bounded World.budget (startSpan label : Client S OpenSpan) := by
  refine Program.bounded_bind (bounded_engineCall _) fun _ => ?_
  refine Program.bounded_bind Program.bounded_get fun _ => ?_
  exact Program.bounded_bind (Program.bounded_modify fun _ => Nat.le_refl _) fun _ =>
    Program.bounded_pure _

theorem bounded_stopSpan (discard : Bool) :
    Program.Bounded World.budget (stopSpan discard : Client S (Option OpenSpan)) := by
  refine Program.bounded_bind Program.bounded_get fun _ => ?_
  exact Program.bounded_bind (Program.bounded_modify fun _ => Nat.le_refl _) fun _ =>
    Program.bounded_pure _

end Bounds
end Hegel
