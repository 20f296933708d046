import HegelCpp.Stateful.Runner

/-! What a stateful runner does around the rules: its prints and checks, for a
relation on worlds that allows the notes, and its talk with the engine, for one
that overlooks it. -/
namespace Hegel

open Logic Program

variable {S : Type}

/-! The prints and the checks. -/
section Checks

variable {R : World S → World S → Prop} {handle : Nat} (hRefl : ∀ world, R world world)
  (hTrans : ∀ ⦃a b c⦄, R a b → R b c → R a c)

include hRefl hTrans

theorem preserves_printState (hNote : ∀ text, Preserves R (note text : Client S Unit))
    (machine : StateMachine S) (params : RunParams) : Preserves R (printState machine params) := by
  apply preserves_bind hTrans (preserves_get hRefl)
  intro world
  refine preserves_ite ?_ (preserves_pure hRefl _)
  cases machine.repr world.memory with
  | ok text => exact hNote _
  | error e => exact preserves_throw hRefl e

theorem preserves_checkInvariant {origin : String} {index : Nat} {invariant : Invariant S}
    (hObserve : ∀ memory failure,
      Preserves R (record (.observed handle (.invariant index memory failure)) : Client S Unit))
    (hNote : Preserves R (note ("Invariant " ++ invariant.name ++ " violated " ++ origin))) :
    Preserves R (checkInvariant handle origin index invariant) := by
  apply preserves_bind hTrans (preserves_get hRefl)
  intro world
  apply preserves_bind hTrans (hObserve _ _)
  intro _
  cases invariant.check world.memory with
  | some e => exact preserves_bind hTrans hNote fun _ => preserves_throw hRefl e
  | none => exact preserves_pure hRefl _

/-- The induction is on the invariants; only the sampled checks ask the engine. -/
theorem preserves_checkInvariants {origin : String} {sampled : Bool}
    (hSelect : sampled = true → ∀ index, Preserves R (shouldCheckInvariant handle index))
    (hCheck : ∀ index invariant, Preserves R (checkInvariant handle origin index invariant))
    (index : Nat) (invariants : List (Invariant S)) :
    Preserves R (checkInvariants handle origin sampled index invariants) := by
  induction invariants generalizing index with
  | nil => exact preserves_pure hRefl _
  | cons invariant rest ih =>
      have hSelected : Preserves R (if sampled then shouldCheckInvariant handle index
          else Pure.pure true) := by
        cases sampled with
        | true => exact hSelect rfl index
        | false => exact preserves_pure hRefl _
      apply preserves_bind hTrans hSelected
      intro selected
      refine preserves_bind hTrans ?_ fun _ => ih (index + 1)
      exact preserves_ite (hCheck index invariant) (preserves_pure hRefl _)

end Checks

/-! The talk with the engine. -/

/-- What a runner records of its talk with the engine. -/
def Event.IsTalk : Event S → Prop
  | .call _ (.rule _) | .call _ (.ended _) => False
  | .call _ _ | .rejectedRule _ _ | .absorbed _ => True
  | .note _ _ | .observed _ _ => False

/-- `R` overlooks the engine: its answers, what it keeps, and the record of the talk. -/
structure Overlooks (R : World S → World S → Prop) : Prop where
  refl : ∀ world, R world world
  trans : ∀ ⦃a b c⦄, R a b → R b c → R a c
  answers : ∀ world rest, R world { world with answers := rest }
  outstanding : ∀ world outstanding, R world { world with outstanding := outstanding }
  spans : ∀ world spans opened, R world { world with spans := spans, spansOpened := opened }
  machines : ∀ world, R world { world with machines := world.machines + 1 }
  talk : ∀ world (e : Event S), e.IsTalk → R world (world.log e)

namespace Overlooks

variable {R : World S → World S → Prop} (h : Overlooks R) {α β : Type}

include h

theorem bind {p : Client S α} {k : α → Client S β} (hp : Preserves R p)
    (hk : ∀ a, Preserves R (k a)) : Preserves R (p >>= k) :=
  preserves_bind h.trans hp hk

theorem pure (a : α) : Preserves R (Pure.pure a : Client S α) := preserves_pure h.refl a

theorem throw (e : Exn) : Preserves R (Program.throw e : Client S α) := preserves_throw h.refl e

theorem get : Preserves R (Program.get : Client S (World S)) := preserves_get h.refl

theorem record {e : Event S} (he : e.IsTalk) : Preserves R (Hegel.record e) :=
  fun world => ensures_record e (h.talk world e he)

theorem setOutstanding (f : (Nat → Bool) → Nat → Bool) :
    Preserves R (Program.modify fun world =>
      { world with outstanding := f world.outstanding } : Client S Unit) :=
  fun world => ensures_modify _ (h.outstanding world _)

theorem nextAnswer : Preserves R (Hegel.nextAnswer : Client S Answer) :=
  fun world => ensures_nextAnswer fun _ rest => h.answers world rest

theorem raiseForRc (rc : ResultCode) (what lastError : String) :
    Preserves R (Hegel.raiseForRc rc what lastError : Client S Unit) :=
  fun world => ensures_raiseForRc (fun _ => h.refl world) fun _ _ _ => h.refl world

theorem engineCall (what : String) : Preserves R (Hegel.engineCall what : Client S Answer) :=
  fun world => ensures_engineCall (fun _ rest => h.answers world rest)
    fun _ rest => h.answers world rest

theorem nextRule (machine : Nat) : Preserves R (Hegel.nextRule machine : Client S Int) :=
  h.bind h.nextAnswer fun answer => h.bind (h.record trivial) fun _ =>
    h.bind (h.raiseForRc _ _ _) fun _ =>
      h.bind (h.setOutstanding fun outstanding =>
        Function.update outstanding machine (answer.int != stateMachineDone)) fun _ => h.pure _

theorem nextGroup (machine : Nat) : Preserves R (Hegel.nextGroup machine : Client S Int) :=
  h.bind h.nextAnswer fun _ => h.bind (h.record trivial) fun _ =>
    h.bind (h.raiseForRc _ _ _) fun _ =>
      h.bind (h.setOutstanding fun outstanding =>
        Function.update outstanding machine false) fun _ => h.pure _

theorem ruleRejected (machine : Nat) : Preserves R (Hegel.ruleRejected machine : Client S Unit) :=
  h.bind h.get fun _ => h.bind (h.record trivial) fun _ => h.bind (h.record trivial) fun _ =>
    h.bind (h.setOutstanding fun outstanding =>
      Function.update outstanding machine false) fun _ => h.raiseForRc _ _ _

theorem shouldCheckInvariant (machine index : Nat) :
    Preserves R (Hegel.shouldCheckInvariant machine index : Client S Bool) :=
  h.bind h.nextAnswer fun _ => h.bind (h.record trivial) fun _ =>
    h.bind (h.raiseForRc _ _ _) fun _ => h.pure _

theorem newStateMachine : Preserves R (Hegel.newStateMachine : Client S Nat) :=
  h.bind h.get fun _ => h.bind (fun world => ensures_modify _ (h.machines world)) fun _ =>
    h.bind (h.record trivial) fun _ => h.bind (h.engineCall _) fun _ => h.pure _

theorem startSpan (label : SpanLabel) : Preserves R (Hegel.startSpan label : Client S OpenSpan) :=
  h.bind (h.engineCall _) fun _ => h.bind h.get fun _ =>
    h.bind (fun world => ensures_modify _ (h.spans world _ _)) fun _ => h.pure _

theorem stopSpan (discard : Bool) :
    Preserves R (Hegel.stopSpan discard : Client S (Option OpenSpan)) :=
  fun world => ensures_stopSpan (h.spans world _ _)

theorem recordAbsorption (site : Site) (start : World S) (opened closed : Option OpenSpan) :
    Preserves R (Hegel.recordAbsorption site start opened closed) :=
  h.bind h.get fun _ => h.record trivial

end Overlooks
end Hegel
