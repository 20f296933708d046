import HegelCpp.Generators.Builds
import HegelCpp.Generators.Integers
import HegelCpp.Values.Meaning

/-! `default_generator<T>()`: the generator that is derived from a type draws the
valid values of the type and no others. -/
namespace Hegel

open Logic Program Generators

variable {S α β : Type}

/-- The types of `DefaultGenerator`, without the floating-point ones. A struct is
its members in the order of their declaration. -/
inductive CppType where
  | bool
  | string
  | monostate
  | integral (t : IntegralType) (width_le : t.width ≤ 64) (not_bool : t ≠ .bool)
  | vector (element : CppType)
  | set (element : CppType)
  | map (key mapped : CppType)
  | optional (value : CppType)
  | tuple (n : Nat) (elements : Fin n → CppType)
  | variant (n : Nat) (alternatives : Fin (n + 1) → CppType)
  | struct (n : Nat) (fields : Fin n → CppType)

namespace CppType

/-- Sets and maps are their elements in the order of the comparison. -/
def Value : CppType → Type
  | bool => Bool
  | string => String
  | monostate => Unit
  | integral t _ _ => Integral t
  | vector element => List element.Value
  | set element => List element.Value
  | map key mapped => List (key.Value × mapped.Value)
  | optional value => Option value.Value
  | tuple n elements => (i : Fin n) → (elements i).Value
  | variant n alternatives => (i : Fin (n + 1)) × (alternatives i).Value
  | struct n fields => (i : Fin n) → (fields i).Value

/-- `T{}`. -/
def init : (t : CppType) → t.Value
  | bool => false
  | string => ""
  | monostate => ()
  | integral t _ _ => t.cast 0
  | vector _ | set _ | map _ _ => []
  | optional _ => none
  | tuple _ elements => fun i => (elements i).init
  | variant n alternatives => ⟨⟨0, n.succ_pos⟩, (alternatives ⟨0, n.succ_pos⟩).init⟩
  | struct _ fields => fun i => (fields i).init

/-- `integers<T>()` without bounds. -/
def integers (t : IntegralType) : IntegerGenerator t where
  min := ⟨t.min, Int.le_refl _, t.min_le_max⟩
  max := ⟨t.max, t.min_le_max, Int.le_refl _⟩
  ordered := t.min_le_max

/-- A member of a struct and the generator for it. -/
def member {n : Nat} {τ : Fin n → Type} (i : Fin n) (generator : Client S (τ i)) :
    Field S ((i : Fin n) → τ i) (τ i) where
  get result := result i
  set value result := Function.update result i value
  generator := generator

section Generator

/-! `less` is the `operator<` of the element types. -/
variable (less : (t : CppType) → t.Value → t.Value → Bool)

/-- `DefaultGenerator<T>::generator()`. -/
def generator : (t : CppType) → Client S t.Value
  | bool => drawBoolean
  | string => drawString
  | monostate => pure ()
  | integral t _ _ => (integers t).doDraw.run
  | vector element => vectors (generator element) {} none
  | set element => sets (generator element) {} (less element)
  | map key mapped => maps (generator key) (generator mapped) {} (less key)
  | optional value => Generators.optional (generator value)
  | tuple n elements => tuples n _ fun i => generator (elements i)
  | variant _ alternatives => Generators.variant fun i => generator (alternatives i)
  | struct _ fields =>
      buildsAgg (fun i => (fields i).init) fun i => member i (generator (fields i))

/-- The answers that its draws take. -/
def words (contract : Contract) : (t : CppType) → Words t.Value
  | bool => Words.call Answer.bool
  | string => do
      let s ← Words.call Answer.text
      Language.require (contract.text s)
      pure s
  | monostate => pure ()
  | integral t _ _ => Words.call fun answer => t.cast (max t.min (min answer.int t.max))
  | vector element =>
      Words.collection contract {} (Words.vectorsTurn (words contract element) none)
  | set element =>
      Words.collection contract {} (Words.setsTurn (words contract element) (less element))
  | map key mapped => Words.collection contract {}
      (Words.mapsTurn (words contract key) (words contract mapped) (less key))
  | optional value => Words.optional (words contract value)
  | tuple n elements => Words.span (Words.drawTupleImpl n _ fun i => words contract (elements i))
  | variant _ alternatives => Words.variant fun i => words contract (alternatives i)
  | struct n fields => Words.drawTupleImpl n _ fun i => words contract (fields i)

/-- The values that an object of the type can have: nothing but the sizes and
the order inside the sets is in question. -/
def valid (contract : Contract) : (t : CppType) → Set t.Value
  | bool => {_b : Bool | True}
  | string => {s : String | contract.text s}
  | monostate => {_u : Unit | True}
  | integral t _ _ => {_x : Integral t | True}
  | vector element => {xs : List element.Value |
      (∀ x ∈ xs, x ∈ valid contract element) ∧ contract.size {} xs.length}
  | set element => {xs : List element.Value | (∀ x ∈ xs, x ∈ valid contract element) ∧
      (xs.Pairwise fun a b => less element a b = true) ∧ contract.size {} xs.length}
  | map key mapped => {entries : List (key.Value × mapped.Value) |
      (∀ entry ∈ entries, entry.1 ∈ valid contract key ∧ entry.2 ∈ valid contract mapped) ∧
        (entries.Pairwise fun a b => less key a.1 b.1 = true) ∧ contract.size {} entries.length}
  | optional value => {v : Option value.Value | ∀ x ∈ v, x ∈ valid contract value}
  | tuple n elements => {v : (i : Fin n) → (elements i).Value |
      ∀ i, v i ∈ valid contract (elements i)}
  | variant n alternatives => {v : (i : Fin (n + 1)) × (alternatives i).Value |
      v.2 ∈ valid contract (alternatives v.1)}
  | struct n fields => {v : (i : Fin n) → (fields i).Value | ∀ i, v i ∈ valid contract (fields i)}

end Generator

/-- Every member is assigned, so nothing is left of `T{}`. -/
theorem buildsAgg_member {n : Nat} {τ : Fin n → Type} (initial : (i : Fin n) → τ i)
    (gens : (i : Fin n) → Client S (τ i)) :
    (buildsAgg initial fun i => member i (gens i)) = drawTupleImpl n τ gens := by
  have hDistinct : Distinct fun i => member i (gens i) := by
    refine ⟨fun i value t => Function.update_self i value t, fun i j hNe value t => ?_⟩
    exact Function.update_of_ne hNe value t
  have hAssign (values : (i : Fin n) → τ i) :
      assign n (fun i => member i (gens i)) values initial = values :=
    funext fun i => get_assign (fun i => member i (gens i)) hDistinct values initial i
  rw [buildsAgg, assignFields_eq]
  simp only [hAssign]
  exact id_map (drawTupleImpl n τ gens)

section Draws

variable (less : (t : CppType) → t.Value → t.Value → Bool)

theorem readsWords_generator (t : CppType) :
    ReadsWords (t.generator less : Client S t.Value) (t.words less .none) := by
  induction t with
  | bool => exact .call _ _
  | string => exact .drawString
  | monostate => exact exact_pure _
  | integral t width_le not_bool =>
      rw [generator, run_doDraw width_le]
      exact .call _ _
  | vector element ih => exact .vectors ih _ _
  | set element ih => exact .sets ih _ _
  | map key mapped ihKey ihMapped => exact .maps ihKey ihMapped _ _
  | optional value ih => exact .optional ih
  | tuple n elements ih => exact .inSpan (.drawTupleImpl n _ ih) .tuple _
  | variant n alternatives ih => exact .variant ih
  | struct n fields ih =>
      have hReads := ReadsWords.drawTupleImpl n _ ih
      rw [← buildsAgg_member fun i => (fields i).init] at hReads
      exact hReads

theorem words_within (contract : Contract) (t : CppType) :
    Language.Within (t.words less contract) (t.words less .none) := by
  induction t with
  | bool => exact .refl _
  | string => exact Words.text_within
  | monostate => exact .refl _
  | integral t width_le not_bool => exact .refl _
  | vector element ih => exact Words.vectors_within ih _
  | set element ih => exact Words.sets_within ih _
  | map key mapped ihKey ihMapped => exact Words.maps_within ihKey ihMapped _
  | optional value ih => exact Words.optional_within ih
  | tuple n elements ih =>
      exact (Language.Within.refl _).bind fun _ => Words.drawTupleImpl_within n _ ih
  | variant n alternatives ih => exact Words.variant_within ih
  | struct n fields ih => exact Words.drawTupleImpl_within n _ ih

theorem mem_image_words [∀ t : CppType, IsStrictWeakOrder t.Value fun a b => less t a b = true]
    (contract : Contract) (t : CppType) (v : t.Value) :
    v ∈ Language.image (t.words less contract) ↔ v ∈ t.valid less contract := by
  induction t with
  | bool => exact ⟨fun _ => trivial, fun _ => Words.mem_bool v⟩
  | string => exact Words.mem_text
  | monostate => exact ⟨fun _ => trivial, fun _ => ⟨[], rfl, rfl⟩⟩
  | integral t width_le not_bool =>
      refine ⟨fun _ => trivial, fun _ => Words.mem_call.mpr ⟨{ int := v.val }, rfl, ?_⟩⟩
      have hClamp : max t.min (min v.val t.max) = v.val := by
        rw [min_eq_left v.le_max, max_eq_right v.min_le]
      apply Integral.ext
      rw [hClamp, IntegralType.cast_val v.min_le v.le_max]
  | vector element ih =>
      refine Words.mem_vectors.trans ?_
      simp only [ih]
      exact and_congr_right fun _ => and_iff_right fun _ hNone => by cases hNone
  | set element ih =>
      refine Words.mem_sets.trans ?_
      simp only [ih]
      rfl
  | map key mapped ihKey ihMapped =>
      refine Words.mem_maps.trans ?_
      simp only [ihKey, ihMapped]
      rfl
  | optional value ih =>
      exact Words.mem_optional.trans (forall_congr' fun x => imp_congr_right fun _ => ih x)
  | tuple n elements ih => exact Words.mem_tuples.trans (forall_congr' fun i => ih i (v i))
  | variant n alternatives ih => exact Words.mem_variant.trans (ih v.1 v.2)
  | struct n fields ih =>
      exact (Words.mem_drawTupleImpl n _ _ v).trans (forall_congr' fun i => ih i (v i))

/-- The generator of a type draws its valid values. -/
theorem default_generator_draws_valid_values
    [∀ t : CppType, IsStrictWeakOrder t.Value fun a b => less t a b = true] (contract : Contract)
    (t : CppType) : Draws contract (t.generator less : Client S t.Value)
      (fun contract => t.words less contract) (t.valid less contract) where
  runs := readsWords_generator less t
  lawful := words_within less contract t
  values := mem_image_words less contract t

end Draws

/-- `operator<` of `bool`; no other type is compared. -/
def boolLess : (t : CppType) → t.Value → t.Value → Bool
  | bool => fun a b : Bool => !a && b
  | _ => fun _ _ => false

theorem isStrictWeakOrder_boolLess (t : CppType) :
    IsStrictWeakOrder t.Value fun a b => boolLess t a b = true := by
  cases t with
  | bool =>
      have hIrrefl (a : Bool) : ¬ (!a && a) = true := by cases a <;> decide
      have hTrans (a b c : Bool) (hab : (!a && b) = true) (hbc : (!b && c) = true) :
          (!a && c) = true := by
        revert a b c
        decide
      have hIncomp (a b c : Bool) (hab : ¬ (!a && b) = true ∧ ¬ (!b && a) = true)
          (hbc : ¬ (!b && c) = true ∧ ¬ (!c && b) = true) :
          ¬ (!a && c) = true ∧ ¬ (!c && a) = true := by
        revert a b c
        decide
      exact { irrefl := hIrrefl, trans := hTrans, incomp_trans := hIncomp }
  | _ =>
      have hNever : ¬ false = true := Bool.false_ne_true
      exact {
        irrefl := fun _ => hNever
        trans := fun _ _ _ h => absurd h hNever
        incomp_trans := fun _ _ _ _ _ => ⟨hNever, hNever⟩ }

/-- A member of type `std::set<bool>` holds its elements in order. -/
theorem ordered_sets_drawn :
    let t := struct 1 fun _ => set bool
    (∃ taken, t.words boolLess .libhegel taken fun _ => [false, true]) ∧
      ¬ ∃ taken, t.words boolLess .libhegel taken fun _ => [true, false] := by
  intro t
  have := isStrictWeakOrder_boolLess
  have hDraws := default_generator_draws_valid_values (S := Unit) boolLess .libhegel t
  constructor
  · refine (hDraws.values _).mpr fun i => ⟨fun x _ => trivial, ⟨?_, ?_⟩⟩
    · exact List.pairwise_pair.mpr rfl
    · exact ⟨by decide, by decide⟩
  · intro hTaken
    have hOrdered := ((hDraws.values _).mp hTaken ⟨0, by decide⟩).2.1
    exact absurd (List.pairwise_pair.mp hOrdered) (by decide)

end CppType
end Hegel
