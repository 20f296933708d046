import HegelCpp.Values.Derived

/-! `DerivedGenerator::override` draws the whole value first and then the fields
that it was given; of the values, that replaces the generators of the fields. -/
namespace Hegel

open Logic Program

variable {S α : Type} {contract : Contract} {n : Nat} {τ : Fin n → Type}

namespace Generators

/-- `result.*member_ptr = generator.do_draw(tc)`. -/
def assignMember {m : Type → Type} [Monad m] (result : (i : Fin n) → τ i)
    (spec : (i : Fin n) × m (τ i)) : m ((i : Fin n) → τ i) := do
  let value ← spec.2
  pure (Function.update result spec.1 value)

/-- `DerivedGenerator::override`, for the generators of the library and for the
words of their draws. -/
def override {m : Type → Type} [Monad m] (base : m ((i : Fin n) → τ i))
    (specs : List ((i : Fin n) × m (τ i))) : m ((i : Fin n) → τ i) := do
  let result ← base
  specs.foldlM assignMember result

end Generators

/-- A generator with what its draws mean. -/
structure Generator (S : Type) (contract : Contract) (α : Type) where
  doDraw : Client S α
  words : Contract → Words α
  values : Set α
  draws : Draws contract doDraw words values

/-- `field<&T::member>(generator)`. -/
abbrev FieldSpec (S : Type) (contract : Contract) (τ : Fin n → Type) : Type :=
  (i : Fin n) × Generator S contract (τ i)

namespace FieldSpec

def doDraw (spec : FieldSpec S contract τ) : (i : Fin n) × Client S (τ i) :=
  ⟨spec.1, spec.2.doDraw⟩

def words (promises : Contract) (spec : FieldSpec S contract τ) : (i : Fin n) × Words (τ i) :=
  ⟨spec.1, spec.2.words promises⟩

def values (spec : FieldSpec S contract τ) : (i : Fin n) × Set (τ i) := ⟨spec.1, spec.2.values⟩

end FieldSpec

namespace Generator

variable {specs : List (FieldSpec S contract τ)}

/-- The values with the members replaced by values of the other sets. -/
def overridden (values : Set ((i : Fin n) → τ i)) (specs : List ((i : Fin n) × Set (τ i))) :
    Set ((i : Fin n) → τ i) :=
  specs.foldl (fun values spec =>
    {v | ∃ result ∈ values, ∃ x ∈ spec.2, v = Function.update result spec.1 x}) values

theorem exact_assignMembers (result : (i : Fin n) → τ i) :
    ReadsWords ((specs.map FieldSpec.doDraw).foldlM Generators.assignMember result)
      ((specs.map (FieldSpec.words .none)).foldlM Generators.assignMember result) := by
  induction specs generalizing result with
  | nil => exact exact_pure _
  | cons spec specs ih =>
      simp only [List.map_cons, List.foldlM_cons]
      exact exact_bind (exact_bind spec.2.draws.runs fun value => exact_pure _) ih

theorem assignMembers_within (result : (i : Fin n) → τ i) :
    Language.Within
      ((specs.map (FieldSpec.words contract)).foldlM Generators.assignMember result)
      ((specs.map (FieldSpec.words .none)).foldlM Generators.assignMember result) := by
  induction specs generalizing result with
  | nil => exact .refl _
  | cons spec specs ih =>
      simp only [List.map_cons, List.foldlM_cons]
      exact (spec.2.draws.lawful.bind fun value => .refl _).bind ih

theorem mem_override {L : Words ((i : Fin n) → τ i)} {values : Set ((i : Fin n) → τ i)}
    (hBase : ∀ v, v ∈ Language.image L ↔ v ∈ values) (v : (i : Fin n) → τ i) :
    v ∈ Language.image (Generators.override L (specs.map (FieldSpec.words contract))) ↔
      v ∈ overridden values (specs.map FieldSpec.values) := by
  induction specs generalizing L values with
  | nil =>
      simp only [Generators.override, List.map_nil, List.foldlM_nil, bind_pure]
      exact hBase v
  | cons spec specs ih =>
      have hFirst : Generators.override L ((spec :: specs).map (FieldSpec.words contract)) =
          Generators.override
            (L >>= fun result => Generators.assignMember result (spec.words contract))
            (specs.map (FieldSpec.words contract)) := by
        simp only [Generators.override, List.map_cons, List.foldlM_cons, bind_assoc]
      rw [hFirst]
      refine ih fun v => ?_
      simp only [Language.mem_image_bind, hBase, Generators.assignMember, Language.image_pure]
      refine exists_congr fun result => and_congr_right fun _ => exists_congr fun x => ?_
      exact and_congr (spec.2.draws.values x) Iff.rfl

/-- `override` of a generator. -/
def override (base : Generator S contract ((i : Fin n) → τ i))
    (specs : List (FieldSpec S contract τ)) : Generator S contract ((i : Fin n) → τ i) where
  doDraw := Generators.override base.doDraw (specs.map FieldSpec.doDraw)
  words promises :=
    Generators.override (base.words promises) (specs.map (FieldSpec.words promises))
  values := overridden base.values (specs.map FieldSpec.values)
  draws := {
    runs := exact_bind base.draws.runs exact_assignMembers
    lawful := base.draws.lawful.bind assignMembers_within
    values := mem_override base.draws.values }

/-- The generator that `DefaultGenerator` composes for a struct. -/
def struct (initial : (i : Fin n) → τ i) (fields : (i : Fin n) → Generator S contract (τ i)) :
    Generator S contract ((i : Fin n) → τ i) where
  doDraw := Generators.buildsAgg initial fun i => CppType.member i (fields i).doDraw
  words promises := Words.drawTupleImpl n τ fun i => (fields i).words promises
  values := {v | ∀ i, v i ∈ (fields i).values}
  draws := {
    runs := by
      rw [CppType.buildsAgg_member]
      exact .drawTupleImpl n τ fun i => (fields i).draws.runs
    lawful := Words.drawTupleImpl_within n τ fun i => (fields i).draws.lawful
    values := by
      intro v
      refine (Words.mem_drawTupleImpl n τ _ v).trans (forall_congr' fun i => ?_)
      exact (fields i).draws.values (v i) }

/-- A member that is replaced may have had any value before. -/
theorem overridden_pi {values : (i : Fin n) → Set (τ i)} (hValues : ∀ i, (values i).Nonempty)
    {specs : List ((i : Fin n) × Set (τ i))} (hSpecs : ∀ spec ∈ specs, spec.2.Nonempty) :
    overridden {v | ∀ i, v i ∈ values i} specs = {v | ∀ i, v i ∈
      specs.foldl (fun values spec => Function.update values spec.1 spec.2) values i} := by
  induction specs generalizing values with
  | nil => rfl
  | cons spec specs ih =>
      have hFirst : {v | ∃ result, (∀ i, result i ∈ values i) ∧ ∃ x ∈ spec.2,
          v = Function.update result spec.1 x} =
            {v | ∀ i, v i ∈ Function.update values spec.1 spec.2 i} := by
        ext v
        constructor
        · rintro ⟨result, hResult, x, hx, rfl⟩ i
          by_cases hSame : i = spec.1
          · subst hSame
            simpa only [Function.update_self] using hx
          · simpa only [Function.update_of_ne hSame] using hResult i
        · intro hv
          obtain ⟨old, hOld⟩ := hValues spec.1
          refine ⟨Function.update v spec.1 old, fun i => ?_, v spec.1, ?_, ?_⟩
          · by_cases hSame : i = spec.1
            · subst hSame
              simpa only [Function.update_self] using hOld
            · simpa only [Function.update_of_ne hSame] using hv i
          · simpa only [Function.update_self] using hv spec.1
          · simp only [Function.update_idem, Function.update_eq_self]
      rw [overridden, List.foldl_cons]
      refine (congrArg (fun values => overridden values specs) hFirst).trans (ih (fun i => ?_) ?_)
      · by_cases hSame : i = spec.1
        · subst hSame
          simpa only [Function.update_self] using hSpecs spec List.mem_cons_self
        · simpa only [Function.update_of_ne hSame] using hValues i
      · exact fun spec hSpec => hSpecs spec (List.mem_cons_of_mem _ hSpec)

/-- The generators of the fields after the ones that were given last. -/
def replaced (fields : (i : Fin n) → Generator S contract (τ i))
    (specs : List (FieldSpec S contract τ)) : (i : Fin n) → Generator S contract (τ i) :=
  specs.foldl (fun fields spec => Function.update fields spec.1 spec.2) fields

theorem values_replaced (fields : (i : Fin n) → Generator S contract (τ i))
    (specs : List (FieldSpec S contract τ)) (i : Fin n) :
    (specs.map FieldSpec.values).foldl
        (fun values spec => Function.update values spec.1 spec.2) (fun i => (fields i).values) i =
      (replaced fields specs i).values := by
  induction specs generalizing fields with
  | nil => rfl
  | cons spec specs ih =>
      have hUpdate : (fun j => (Function.update fields spec.1 spec.2 j).values) =
          Function.update (fun j => (fields j).values) spec.1 spec.2.values := by
        funext j
        by_cases hSame : j = spec.1
        · subst hSame
          simp only [Function.update_self]
        · simp only [Function.update_of_ne hSame]
      have hRest := ih (Function.update fields spec.1 spec.2)
      rw [hUpdate] at hRest
      exact hRest

/-- `override` leaves the values of the struct whose fields have the generators
that were given last for them, as long as no generator is without values. -/
theorem override_replaces_fields (initial : (i : Fin n) → τ i)
    {fields : (i : Fin n) → Generator S contract (τ i)}
    (hFields : ∀ i, (fields i).values.Nonempty) {specs : List (FieldSpec S contract τ)}
    (hSpecs : ∀ spec ∈ specs, spec.2.values.Nonempty) :
    ((struct initial fields).override specs).values =
      (struct initial (replaced fields specs)).values := by
  refine (overridden_pi hFields ?_).trans ?_
  · intro spec hSpec
    obtain ⟨given, hGiven, rfl⟩ := List.mem_map.mp hSpec
    exact hSpecs given hGiven
  · ext v
    exact forall_congr' fun i => by rw [values_replaced]

/-- `booleans()`. -/
def booleans : Generator Unit contract Bool where
  doDraw := drawBoolean
  words _ := Words.call Answer.bool
  values := {_b | True}
  draws := ⟨.call _ _, .refl _, fun b => ⟨fun _ => trivial, fun _ => Words.mem_bool b⟩⟩

/-- `just(value)`. -/
def just (a : α) : Generator Unit contract α where
  doDraw := pure a
  words _ := pure a
  values := {a}
  draws := by
    refine ⟨exact_pure a, .refl _, fun b => ?_⟩
    show b ∈ Language.image (pure a : Words α) ↔ _
    rw [Language.image_pure]

/-- Of two overrides for one member, the last one counts. -/
theorem last_override_counts :
    ((struct (fun _ => false) fun _ : Fin 2 => (booleans : Generator Unit .libhegel Bool)).override
      [⟨0, just false⟩, ⟨0, just true⟩]).values = {v | v 0 = true} := by
  rw [override_replaces_fields]
  · ext v
    constructor
    · intro hv
      exact hv 0
    · intro hFirst i
      by_cases hSame : i = 0
      · subst hSame
        exact hFirst
      · simp only [replaced, List.foldl_cons, List.foldl_nil, Function.update_of_ne hSame]
        trivial
  · exact fun _ => ⟨true, trivial⟩
  · intro spec hSpec
    rcases List.mem_pair.mp hSpec with rfl | rfl
    · exact ⟨false, rfl⟩
    · exact ⟨true, rfl⟩

end Generator
end Hegel
