import HegelCpp.Values.Denotation

/-! What generators mean, deferred ones included: at every depth to which deferred
generators are nested, the draws return the values of the set and no others. -/
namespace Hegel

open Logic Program

variable {S α β : Type}

/-- The answers that a draw takes are exactly its words, which stay words when
the engine keeps to its contract; and the values of an engine that does are the
values of the draw. -/
structure Draws (contract : Contract) (p : Client S α) (words : Contract → Words α)
    (values : Set α) : Prop where
  runs : ReadsWords p (words .none)
  lawful : Language.Within (words contract) (words .none)
  values : ∀ value, (∃ taken, words contract taken value) ↔ value ∈ values

namespace Words

/-- Under fewer promises there are more words. -/
theorem collection_within {contract : Contract} {params : Generators.CollectionParams}
    {turn turn' : List α → Words (List α ⊕ List α)}
    (hTurn : ∀ result, Language.Within (turn result) (turn' result)) :
    Language.Within (collection contract params turn) (collection .none params turn') := by
  refine (Language.Within.refl _).bind fun _ => (Language.Within.refl _).bind fun _ => ?_
  refine Language.Within.loop (fun result => (Language.Within.refl _).bind fun more => ?_) []
  refine .ite (hTurn result) ((Language.Within.require fun _ => trivial).bind fun _ => .refl _)

theorem filterAttempts_within {inner inner' : Words α} {pred pred' : α → Words Bool}
    (hInner : Language.Within inner inner') (hPred : ∀ a, Language.Within (pred a) (pred' a))
    (attempts : Nat) :
    Language.Within (filterAttempts inner pred attempts)
      (filterAttempts inner' pred' attempts) := by
  induction attempts with
  | zero => exact .refl _
  | succ attempts ih =>
      refine Language.Within.bind ?_ fun attempt => .ite (.refl _) ih
      refine (Language.Within.refl _).bind fun _ => hInner.bind fun value => ?_
      exact (hPred value).bind fun keep => .refl _

theorem drawTupleImpl_within (n : Nat) (τ : Fin n → Type) {gens gens' : (i : Fin n) → Words (τ i)}
    (h : ∀ i, Language.Within (gens i) (gens' i)) :
    Language.Within (drawTupleImpl n τ gens) (drawTupleImpl n τ gens') := by
  induction n with
  | zero => exact .refl _
  | succ n ih =>
      exact (h 0).bind fun _ => (ih _ fun i => h i.succ).bind fun _ => .refl _

theorem vectors_within {contract : Contract} {params : Generators.CollectionParams}
    {elements elements' : Words α} (h : Language.Within elements elements')
    (unique : Option (α → α → Bool)) :
    Language.Within (collection contract params (vectorsTurn elements unique))
      (collection .none params (vectorsTurn elements' unique)) :=
  collection_within fun _ => h.bind fun _ => .refl _

theorem sets_within {contract : Contract} {params : Generators.CollectionParams}
    {elements elements' : Words α} (h : Language.Within elements elements') (lt : α → α → Bool) :
    Language.Within (collection contract params (setsTurn elements lt))
      (collection .none params (setsTurn elements' lt)) :=
  collection_within fun _ => h.bind fun _ => .refl _

theorem maps_within {contract : Contract} {params : Generators.CollectionParams}
    {keys keys' : Words α} {values values' : Words β} (hKeys : Language.Within keys keys')
    (hValues : Language.Within values values') (lt : α → α → Bool) :
    Language.Within (collection contract params (mapsTurn keys values lt))
      (collection .none params (mapsTurn keys' values' lt)) :=
  collection_within fun _ => hKeys.bind fun _ => .ite (.refl _) (hValues.bind fun _ => .refl _)

theorem variant_within {n : Nat} {τ : Fin (n + 1) → Type}
    {gens gens' : (i : Fin (n + 1)) → Words (τ i)}
    (h : ∀ i, Language.Within (gens i) (gens' i)) :
    Language.Within (variant gens) (variant gens') := by
  refine (Language.Within.refl _).bind fun _ => (Language.Within.refl _).bind fun index => ?_
  exact (h (Fin.ofNat _ index.toNat)).bind fun value => .refl _

theorem optional_within {gen gen' : Words α} (h : Language.Within gen gen') :
    Language.Within (optional gen) (optional gen') := by
  refine (Language.Within.refl _).bind fun _ => (Language.Within.refl _).bind fun present => ?_
  exact .ite (h.bind fun value => .refl _) (.refl _)

theorem text_within {contract : Contract} : Language.Within (do
      let s ← call Answer.text
      Language.require (contract.text s)
      pure s) (do
      let s ← call Answer.text
      Language.require (Contract.none.text s)
      pure s) :=
  (Language.Within.refl _).bind fun _ =>
    (Language.Within.require fun _ => trivial).bind fun _ => .refl _

end Words

namespace Code

theorem words_within {contract : Contract} {delegate delegate' : DelegateWords}
    (hDelegate : ∀ α slot, Language.Within (delegate α slot) (delegate' α slot)) (code : Code S α) :
    Language.Within (code.words contract delegate) (code.words .none delegate') := by
  induction code with
  | bind p k ihp ihk => exact ihp.bind ihk
  | loop body k ih => exact .loop ih k
  | text => exact Words.text_within
  | map source f ihSource ihf =>
      exact (Language.Within.refl _).bind fun _ => ihSource.bind ihf
  | flatMap inner f ihInner ihf =>
      exact (Language.Within.refl _).bind fun _ => ihInner.bind ihf
  | filter inner pred ihInner ihPred => exact Words.filterAttempts_within ihInner ihPred 3
  | vectors elements params unique ih => exact Words.vectors_within ih unique
  | sets elements params lt ih => exact Words.sets_within ih lt
  | maps keys values params lt ihKeys ihValues => exact Words.maps_within ihKeys ihValues lt
  | tuples n gens ih =>
      exact (Language.Within.refl _).bind fun _ => Words.drawTupleImpl_within n _ ih
  | arrays n element ih =>
      exact (Language.Within.refl _).bind fun _ => Words.drawTupleImpl_within n _ fun _ => ih
  | oneOf gens ih =>
      refine (Language.Within.refl _).bind fun _ => (Language.Within.refl _).bind fun index => ?_
      exact ih (Fin.ofNat _ index.toNat)
  | variant gens ih => exact Words.variant_within ih
  | optional gen ih => exact Words.optional_within ih
  | deferred α slot => exact hDelegate α slot
  | _ => exact .refl _

namespace Slots

variable (slots : Slots S) (contract : Contract)

/-- The words of the deferred generators, with at most `depth` delegations in
progress. -/
def words : Nat → DelegateWords
  | 0 => fun _ _ => Language.fail
  | depth + 1 => fun α slot => match slots α slot with
      | none => Language.fail
      | some gen => gen.words contract (words depth)

/-- Their values. -/
def values : Nat → DelegateValues
  | 0 => fun _ _ => {_v | False}
  | depth + 1 => fun α slot => match slots α slot with
      | none => {_v | False}
      | some gen => gen.values contract (values depth)

/-- Every installed generator keeps no state and handles no exceptions. -/
def IsPure : Prop := ∀ α slot gen, slots α slot = some gen → (gen : Code S α).IsPure

variable {slots} (hSlots : slots.IsPure) (depth : Nat)

include hSlots

theorem readsWords (α : Type) (slot : Nat) :
    ReadsWords (delegate slots depth α slot) (slots.words .none depth α slot) := by
  induction depth generalizing α slot with
  | zero => exact ⟨fun _ => ensures_diverge, fun _ _ hFail => hFail.elim⟩
  | succ depth ih =>
      simp only [delegate, words]
      cases hSlot : slots α slot with
      | none => exact exact_throw _
      | some gen => exact gen.readsWords ih (hSlots α slot gen hSlot)

theorem mem_image_words (α : Type) (slot : Nat) (a : α) :
    a ∈ Language.image (slots.words contract depth α slot) ↔
      a ∈ slots.values contract depth α slot := by
  induction depth generalizing α slot with
  | zero => exact ⟨fun ⟨_, hFail⟩ => hFail, fun hFail => hFail.elim⟩
  | succ depth ih =>
      simp only [words, values]
      cases hSlot : slots α slot with
      | none => exact ⟨fun ⟨_, hFail⟩ => hFail, fun hFail => hFail.elim⟩
      | some gen => exact gen.mem_image_words ih (hSlots α slot gen hSlot) a

omit hSlots in
theorem words_within (α : Type) (slot : Nat) :
    Language.Within (slots.words contract depth α slot) (slots.words .none depth α slot) := by
  induction depth generalizing α slot with
  | zero => exact .refl _
  | succ depth ih =>
      simp only [words]
      cases slots α slot with
      | none => exact .refl _
      | some gen => exact gen.words_within ih

end Slots

end Code

/-- Generators, however they are built, draw what they mean: no other value, and
each of them for some answers of an engine that keeps to its contract. -/
theorem generators_draw_their_values (contract : Contract) {slots : Code.Slots S}
    (hSlots : slots.IsPure) (depth : Nat) {code : Code S α} (hCode : code.IsPure) :
    Draws contract (code.exec slots depth)
      (fun contract => code.words contract (slots.words contract depth))
      (code.values contract (slots.values contract depth)) where
  runs := code.readsWords (Code.Slots.readsWords hSlots depth) hCode
  lawful := code.words_within (Code.Slots.words_within contract depth)
  values := code.mem_image_words (Code.Slots.mem_image_words contract hSlots depth) hCode

/-- One or two digits: `[3, 7]` is drawn for some answers, `[3, 12]` for none. -/
theorem digits_drawn :
    let slots : Code.Slots Unit := fun _ _ => none
    let digits : Code Unit (List Int) :=
      .vectors (.integers 0 9) { minSize := 1, maxSize := some 2 } none
    (∃ taken, digits.words .libhegel (slots.words .libhegel 1) taken [3, 7]) ∧
      ¬ ∃ taken, digits.words .libhegel (slots.words .libhegel 1) taken [3, 12] := by
  intro slots digits
  have hDigits : digits.IsPure := show (0 : Int) ≤ 9 by decide
  have hSlots : slots.IsPure := fun _ _ _ hNone => by cases hNone
  have hDraws := generators_draw_their_values .libhegel hSlots 1 hDigits
  constructor
  · refine (hDraws.values _).mpr ⟨fun x hx => ?_, ⟨fun eq hEq => ?_, ?_⟩⟩
    · show 0 ≤ x ∧ x ≤ 9
      simp only [List.mem_cons, List.not_mem_nil, or_false] at hx
      omega
    · cases hEq
    · exact ⟨by decide, by decide⟩
  · intro hTaken
    have hLast : (12 : Int) ∈ Set.Icc (0 : Int) 9 := ((hDraws.values _).mp hTaken).1 12 (by simp)
    exact absurd hLast.2 (by decide)

end Hegel
