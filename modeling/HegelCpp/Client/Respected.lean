import HegelCpp.Client.Code

/-! The induction over client code, packaged once. A preorder on worlds that
the primitive operations, the compound draws and the two runners respect is
respected by every program of the language. -/
namespace Hegel

open Logic Program

variable {S : Type}

structure Respected (R : World S → World S → Prop) : Prop where
  refl : ∀ world, R world world
  trans : ∀ ⦃a b c⦄, R a b → R b c → R a c
  answers : ∀ (world : World S) rest, rest <:+ world.answers →
    R world { world with answers := rest }
  memory : ∀ world memory, R world { world with memory := memory }
  note : ∀ world text, R world (world.log (.note world.noteIndent text))
  inSpan : ∀ {α : Type} (label : SpanLabel) (body : Client S α) (discard : α → Bool),
    Preserves R body → Preserves R (inSpan label body discard)
  repeatIteration : ∀ body : Client S Unit, Preserves R body → Preserves R (repeatIteration body)
  run : ∀ (machine : StateMachine S) (params : RunParams),
    (∀ rule ∈ machine.rules, Preserves R rule.step) → Preserves R (run machine params)

namespace Respected

variable {R : World S → World S → Prop} (h : Respected R) {α β : Type}

include h

theorem pure (a : α) : Preserves R (Pure.pure a : Client S α) := preserves_pure h.refl a

theorem throw (e : Exn) : Preserves R (Program.throw e : Client S α) := preserves_throw h.refl e

theorem bind {p : Client S α} {k : α → Client S β} (hp : Preserves R p)
    (hk : ∀ a, Preserves R (k a)) : Preserves R (p >>= k) :=
  preserves_bind h.trans hp hk

theorem engineCall (what : String) : Preserves R (Hegel.engineCall what : Client S Answer) :=
  fun world => ensures_engineCall_of
    (fun answer rest hAnswers => h.answers world rest (hAnswers ▸ List.suffix_cons answer rest))
    fun _ rest hSuffix _ => h.answers world rest hSuffix

/-- A primitive that only post-processes the answer of one engine call. -/
theorem ofAnswer (what : String) (f : Answer → α) :
    Preserves R (Hegel.engineCall what >>= fun answer => Pure.pure (f answer) : Client S α) :=
  h.bind (h.engineCall what) fun answer => h.pure (f answer)

theorem drawInteger (minValue maxValue : Int) :
    Preserves R (Hegel.drawInteger minValue maxValue : Client S Int) := h.ofAnswer _ _

theorem newCollection (minSize maxSize : Nat) :
    Preserves R (Hegel.newCollection minSize maxSize : Client S Unit) := h.ofAnswer _ _

theorem collectionMore : Preserves R (Hegel.collectionMore : Client S Bool) := h.ofAnswer _ _

theorem collectionReject (why : String) :
    Preserves R (Hegel.collectionReject why : Client S Unit) := h.ofAnswer _ _

theorem filter {inner : Client S α} {pred : α → Client S Bool} (hInner : Preserves R inner)
    (hPred : ∀ a, Preserves R (pred a)) : Preserves R (Generators.filter inner pred) := by
  have hAttempts (attempts : Nat) :
      Preserves R (Generators.filterAttempts inner pred attempts) := by
    induction attempts with
    | zero => exact h.throw _
    | succ attempts ih =>
        apply h.bind (h.inSpan _ _ _ (h.bind hInner fun a => h.bind (hPred a) fun _ => h.pure _))
        rintro ⟨value, keep⟩
        cases keep
        · exact ih
        · exact h.pure value
  exact hAttempts 3

/-- The engine-managed loop the collection generators share. -/
theorem collectionLoop {step : β → Client S (β ⊕ β)} (hStep : ∀ result, Preserves R (step result))
    (start : β) (minSize maxSize : Nat) (label : SpanLabel) :
    Preserves R (Hegel.inSpan label (Hegel.newCollection minSize maxSize >>= fun _ =>
      Program.loop (fun result => Hegel.collectionMore >>= fun more =>
        if more then step result else Pure.pure (.inr result)) start) fun _ => false) := by
  refine h.inSpan _ _ _ (h.bind (h.newCollection _ _) fun _ => ?_)
  refine preserves_loop h.refl h.trans (fun result => ?_) start
  exact h.bind h.collectionMore fun more => preserves_ite (hStep result) (h.pure _)

theorem vectors {elements : Client S α} (params : Generators.CollectionParams)
    (unique : Option (α → α → Bool)) (hElements : Preserves R elements) :
    Preserves R (Generators.vectors elements params unique) := by
  refine h.collectionLoop (fun result => h.bind hElements fun element => ?_) _ _ _ _
  exact preserves_ite (h.bind (h.collectionReject _) fun _ => h.pure _) (h.pure _)

theorem sets {elements : Client S α} (params : Generators.CollectionParams)
    (lt : α → α → Bool) (hElements : Preserves R elements) :
    Preserves R (Generators.sets elements params lt) := by
  refine h.collectionLoop (fun result => h.bind hElements fun element => ?_) _ _ _ _
  cases Generators.setInsert lt element result with
  | none => exact h.bind (h.collectionReject _) fun _ => h.pure _
  | some inserted => exact h.pure _

theorem maps {keys : Client S α} {values : Client S β} (params : Generators.CollectionParams)
    (lt : α → α → Bool) (hKeys : Preserves R keys) (hValues : Preserves R values) :
    Preserves R (Generators.maps keys values params lt) := by
  refine h.collectionLoop (fun result => h.bind hKeys fun key => ?_) _ _ _ _
  exact preserves_ite (h.bind (h.collectionReject _) fun _ => h.pure _)
    (h.bind hValues fun _ => h.pure _)

theorem drawTupleImpl (n : Nat) (τ : Fin n → Type) {gens : (i : Fin n) → Client S (τ i)}
    (hGens : ∀ i, Preserves R (gens i)) : Preserves R (Generators.drawTupleImpl n τ gens) := by
  induction n with
  | zero => exact h.pure _
  | succ n ih =>
      exact h.bind (hGens 0) fun _ => h.bind (ih _ fun i => hGens i.succ) fun _ => h.pure _

theorem repeatBody {body : Client S Unit} (hBody : Preserves R body) :
    Preserves R (Hegel.repeatBody body) := by
  refine h.bind (h.drawInteger _ _) fun _ => h.bind (h.newCollection _ _) fun _ => ?_
  refine preserves_loop h.refl h.trans (fun iteration => ?_) 0
  refine h.bind h.collectionMore fun more => preserves_ite ?_ (h.pure _)
  exact h.bind (fun world => ensures_note _ (h.note world _)) fun _ =>
    h.bind (h.repeatIteration body hBody) fun _ => h.pure _

/-- The cases follow the constructors: each is the rule of the library
function it runs. -/
theorem interpret {delegate : Code.Delegate S}
    (hDelegate : ∀ α slot, Preserves R (delegate α slot)) (code : Code S α) :
    Preserves R (code.interpret delegate) := by
  induction code with
  | ret a => exact h.pure a
  | bind p k ihp ihk => exact h.bind ihp ihk
  | throw e => exact h.throw e
  | tryCatch p handler ihp ihHandler => exact preserves_tryCatch h.trans ihp ihHandler
  | loop body k ih => exact preserves_loop h.refl h.trans ih k
  | read => exact h.bind (preserves_get h.refl) fun _ => h.pure _
  | write memory => exact fun world => ensures_modify _ (h.memory world memory)
  | note message => exact fun world => ensures_note _ (h.note world message)
  | integers minValue maxValue => exact h.drawInteger minValue maxValue
  | booleans => exact h.ofAnswer _ _
  | text => exact h.ofAnswer _ _
  | poolAdd => exact h.ofAnswer _ _
  | poolDraw consume => exact h.ofAnswer _ _
  | sampledFrom elements => exact h.bind (h.drawInteger _ _) fun _ => h.pure _
  | map source f ihSource ihf => exact h.inSpan _ _ _ (h.bind ihSource ihf)
  | flatMap inner f ihInner ihf => exact h.inSpan _ _ _ (h.bind ihInner ihf)
  | filter inner pred ihInner ihPred => exact h.filter ihInner ihPred
  | vectors elements params unique ih => exact h.vectors params unique ih
  | sets elements params lt ih => exact h.sets params lt ih
  | maps keys values params lt ihKeys ihValues => exact h.maps params lt ihKeys ihValues
  | tuples n gens ih => exact h.inSpan _ _ _ (h.drawTupleImpl n _ ih)
  | arrays n element ih => exact h.inSpan _ _ _ (h.drawTupleImpl n _ fun _ => ih)
  | oneOf gens ih => exact h.inSpan _ _ _ (h.bind (h.drawInteger _ _) fun _ => ih _)
  | variant gens ih =>
      exact h.inSpan _ _ _ (h.bind (h.drawInteger _ _) fun _ => h.bind (ih _) fun _ => h.pure _)
  | optional gen ih =>
      exact h.inSpan _ _ _ (h.bind (h.ofAnswer _ _) fun _ =>
        preserves_ite (h.bind ih fun _ => h.pure _) (h.pure _))
  | deferred α slot => exact hDelegate α slot
  | «repeat» body ih => exact h.repeatBody ih
  | run names steps invariants repr params ih =>
      apply h.run _ params
      intro rule hRule
      obtain ⟨i, rfl⟩ := List.mem_ofFn.mp hRule
      exact ih i

/-- Client code respects `R` at every nesting depth of its deferred generators. -/
theorem exec (slots : Code.Slots S) (depth : Nat) (code : Code S α) :
    Preserves R (code.exec slots depth) := by
  refine h.interpret ?_ code
  induction depth with
  | zero => exact fun _ _ _ => ensures_diverge
  | succ depth ih =>
      intro α slot
      unfold Code.delegate
      cases slots α slot with
      | none => exact h.throw _
      | some gen => exact h.interpret ih gen

end Respected
end Hegel
