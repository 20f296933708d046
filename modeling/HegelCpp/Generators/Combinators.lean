import HegelCpp.Engine.Calls
import Mathlib.Data.Fin.Tuple.Basic

/-! The generator combinators. A generator is what its `do_draw` does on a
test-case handle; vectors, sets and maps are lists in draw order or in the
order of the comparison. A generator list that the constructors require to be
non-empty is a function on `Fin (n + 1)`. -/
namespace Hegel.Generators

open Logic

variable {S α β : Type}

/-- `hegel::internal::no_max_size`, which is `UINT64_MAX`. -/
def noMaxSize : Nat := 18446744073709551615

/-- `detail::collection_max_size`. -/
def collectionMaxSize (maxSize : Option Nat) : Nat := maxSize.getD noMaxSize

/-- `MappedGenerator::do_draw`. The function is user code and may throw. -/
def map (source : Client S α) (f : α → Client S β) : Client S β :=
  inSpan .mapped do
    let value ← source
    f value

/-- `Generator::flat_map`: `f` computes the generator to draw from. -/
def flatMap (inner : Client S α) (f : α → Client S β) : Client S β :=
  inSpan .flatMap do
    let value ← inner
    f value

/-- The remaining attempts of `Generator::filter`. -/
def filterAttempts (inner : Client S α) (pred : α → Client S Bool) : Nat → Client S α
  | 0 => Program.throw hegelReject
  | attempts + 1 => do
      let (value, keep) ← inSpan .filter (do
          let value ← inner
          let keep ← pred value
          pure (value, keep)) (fun attempt => !attempt.2)
      if keep then pure value else filterAttempts inner pred attempts

/-- `Generator::filter` tries three times, then rejects the test case. -/
def filter (inner : Client S α) (pred : α → Client S Bool) : Client S α :=
  filterAttempts inner pred 3

structure CollectionParams where
  minSize : Nat := 0
  maxSize : Option Nat := none

/-- `VectorsGenerator::do_draw`. `unique` is the element type's `==` when the
generator was asked for unique elements. -/
def vectors (elements : Client S α) (params : CollectionParams)
    (unique : Option (α → α → Bool)) : Client S (List α) :=
  inSpan .list do
    newCollection params.minSize (collectionMaxSize params.maxSize)
    Program.loop (fun result : List α => do
      if ← collectionMore then
        let element ← elements
        if unique.any (fun eq => result.any (fun seen => eq seen element)) then
          collectionReject "duplicate element"
          pure (.inl result)
        else pure (.inl (result ++ [element]))
      else pure (.inr result)) []

/-- `std::set::insert` on the elements in order, or nothing when an
equivalent element is already there. -/
def setInsert (lt : α → α → Bool) (x : α) : List α → Option (List α)
  | [] => some [x]
  | y :: ys =>
      if lt x y then some (x :: y :: ys)
      else if lt y x then (setInsert lt x ys).map (y :: ·)
      else none

/-- `SetsGenerator::do_draw`. -/
def sets (elements : Client S α) (params : CollectionParams) (lt : α → α → Bool) :
    Client S (List α) :=
  inSpan .set do
    newCollection params.minSize (collectionMaxSize params.maxSize)
    Program.loop (fun result : List α => do
      if ← collectionMore then
        let element ← elements
        match setInsert lt element result with
        | some inserted => pure (.inl inserted)
        | none => do
            collectionReject "duplicate element"
            pure (.inl result)
      else pure (.inr result)) []

/-- `MapsGenerator::do_draw`. A value is drawn only for a fresh key. -/
def maps (keys : Client S α) (values : Client S β) (params : CollectionParams)
    (lt : α → α → Bool) : Client S (List (α × β)) :=
  inSpan .map do
    newCollection params.minSize (collectionMaxSize params.maxSize)
    Program.loop (fun result : List (α × β) => do
      if ← collectionMore then
        let key ← keys
        if result.any (fun entry => !lt entry.1 key && !lt key entry.1) then
          collectionReject "duplicate key"
          pure (.inl result)
        else
          let value ← values
          pure (.inl ((setInsert (fun a b => lt a.1 b.1) (key, value) result).getD result))
      else pure (.inr result)) []

/-- `detail::draw_tuple_impl`: braced initialization draws left to right. -/
def drawTupleImpl : (n : Nat) → (τ : Fin n → Type) → ((i : Fin n) → Client S (τ i)) →
    Client S ((i : Fin n) → τ i)
  | 0, _, _ => pure fun i => i.elim0
  | n + 1, τ, gens => do
      let first ← gens 0
      let rest ← drawTupleImpl n (fun i => τ i.succ) (fun i => gens i.succ)
      pure (Fin.cons first rest)

/-- `TuplesGenerator::do_draw`. -/
def tuples (n : Nat) (τ : Fin n → Type) (gens : (i : Fin n) → Client S (τ i)) :
    Client S ((i : Fin n) → τ i) :=
  inSpan .tuple (drawTupleImpl n τ gens)

/-- `ArrayGenerator::do_draw`: `draw_all` draws `n` times from one element generator. -/
def arrays (n : Nat) (element : Client S α) : Client S (Fin n → α) :=
  inSpan .tuple (drawTupleImpl n (fun _ => α) (fun _ => element))

/-- The element an index drawn from `0..n` selects. -/
def select {n : Nat} {τ : Fin (n + 1) → Type} (elements : (i : Fin (n + 1)) → τ i)
    (index : Int) : τ (Fin.ofNat (n + 1) index.toNat) :=
  elements (Fin.ofNat (n + 1) index.toNat)

/-- `SampledFromGenerator::do_draw`. -/
def sampledFrom {n : Nat} (elements : Fin (n + 1) → α) : Client S α := do
  let index ← drawInteger 0 n
  pure (select elements index)

/-- `OneOfGenerator::do_draw`. -/
def oneOf {n : Nat} (gens : Fin (n + 1) → Client S α) : Client S α :=
  inSpan .oneOf do
    let index ← drawInteger 0 n
    select gens index

/-- `VariantGenerator::do_draw` with `draw_variant_impl`. -/
def variant {n : Nat} {τ : Fin (n + 1) → Type} (gens : (i : Fin (n + 1)) → Client S (τ i)) :
    Client S ((i : Fin (n + 1)) × τ i) :=
  inSpan .oneOf do
    let index ← drawInteger 0 n
    let value ← select gens index
    pure ⟨_, value⟩

/-- `OptionalGenerator::do_draw`. -/
def optional (gen : Client S α) : Client S (Option α) :=
  inSpan .optional do
    if ← drawBoolean then
      let value ← gen
      pure (some value)
    else pure none

end Hegel.Generators
