import HegelCpp.Client.Code
import HegelCpp.Logic.Language

/-! Which answers a draw takes from the engine for which value. The words are
those of a monad beside the one the library runs in; there the engine can also
be held to the promises of libhegel. -/
namespace Hegel

open Logic Program

variable {S α β : Type}

/-- What the engine promises: the sizes of a collection, and the strings of
`text()`. -/
structure Contract where
  size : Generators.CollectionParams → Nat → Prop
  text : String → Prop

namespace Contract

/-- An engine that promises nothing. -/
def none : Contract := ⟨fun _ _ => True, fun _ => True⟩

/-- The bounds that reach the engine; those of `text()` are `0` and `100`. -/
def libhegel : Contract where
  size params n := params.minSize ≤ n ∧ n ≤ Generators.collectionMaxSize params.maxSize
  text s := s.length ≤ 100

end Contract

/-- The draws that take some answers for a value. -/
abbrev Words (α : Type) : Type := Language Answer α

namespace Words

/-- A call that returned, and what is made of its answer. -/
def call (f : Answer → α) : Words α := Language.token (fun answer => answer.rc = .ok) f

/-- Only `start_span` takes an answer. -/
def span (L : Words α) : Words α := do
  call fun _ => ()
  L

def integer (minValue maxValue : Int) : Words Int :=
  call fun answer => max minValue (min answer.int maxValue)

def filterAttempts (inner : Words α) (pred : α → Words Bool) : Nat → Words α
  | 0 => Language.fail
  | attempts + 1 => do
      let (value, keep) ← span do
        let value ← inner
        let keep ← pred value
        pure (value, keep)
      if keep then pure value else filterAttempts inner pred attempts

/-- A collection that answers false to `more` has a size it may have. -/
def collection (contract : Contract) (params : Generators.CollectionParams)
    (turn : List α → Words (List α ⊕ List α)) : Words (List α) :=
  span do
    call fun _ => ()
    Language.loop (fun result => do
      if ← call Answer.bool then turn result
      else do
        Language.require (contract.size params result.length)
        pure (.inr result)) []

def vectorsTurn (elements : Words α) (unique : Option (α → α → Bool)) (result : List α) :
    Words (List α ⊕ List α) := do
  let element ← elements
  if unique.any (fun eq => result.any (fun seen => eq seen element)) then do
    call fun _ => ()
    pure (.inl result)
  else pure (.inl (result ++ [element]))

def setsTurn (elements : Words α) (lt : α → α → Bool) (result : List α) :
    Words (List α ⊕ List α) := do
  let element ← elements
  match Generators.setInsert lt element result with
  | some inserted => pure (.inl inserted)
  | none => do
      call fun _ => ()
      pure (.inl result)

def mapsTurn (keys : Words α) (values : Words β) (lt : α → α → Bool)
    (result : List (α × β)) : Words (List (α × β) ⊕ List (α × β)) := do
  let key ← keys
  if result.any (fun entry => !lt entry.1 key && !lt key entry.1) then do
    call fun _ => ()
    pure (.inl result)
  else do
    let value ← values
    pure (.inl ((Generators.setInsert (fun a b => lt a.1 b.1) (key, value) result).getD result))

def drawTupleImpl : (n : Nat) → (τ : Fin n → Type) → ((i : Fin n) → Words (τ i)) →
    Words ((i : Fin n) → τ i)
  | 0, _, _ => pure fun i => i.elim0
  | n + 1, τ, gens => do
      let first ← gens ⟨0, n.succ_pos⟩
      let rest ← drawTupleImpl n (fun i => τ i.succ) (fun i => gens i.succ)
      pure (Fin.cons first rest)

def oneOf {n : Nat} (gens : Fin (n + 1) → Words α) : Words α :=
  span do
    let index ← integer 0 n
    Generators.select gens index

/-- An alternative together with its index. -/
def alternative {n : Nat} {τ : Fin (n + 1) → Type} (gens : (i : Fin (n + 1)) → Words (τ i))
    (i : Fin (n + 1)) : Words ((i : Fin (n + 1)) × τ i) := do
  let value ← gens i
  pure ⟨i, value⟩

def variant {n : Nat} {τ : Fin (n + 1) → Type} (gens : (i : Fin (n + 1)) → Words (τ i)) :
    Words ((i : Fin (n + 1)) × τ i) :=
  oneOf (alternative gens)

def optional (gen : Words α) : Words (Option α) :=
  span do
    if ← call Answer.bool then do
      let value ← gen
      pure (some value)
    else pure none

end Words

namespace Code

/-- The generators and the code around them that keeps no state and handles no
exceptions. The constructor of `integers` checked the bounds; the comparison of
a set is one that `std::set` accepts. -/
def IsPure : {α : Type} → Code S α → Prop
  | _, ret _ => True
  | _, bind p k => IsPure p ∧ ∀ a, IsPure (k a)
  | _, throw _ => True
  | _, loop body _ => ∀ k, IsPure (body k)
  | _, note _ => True
  | _, integers minValue maxValue => minValue ≤ maxValue
  | _, booleans => True
  | _, text => True
  | _, sampledFrom _ => True
  | _, map source f => IsPure source ∧ ∀ a, IsPure (f a)
  | _, flatMap inner f => IsPure inner ∧ ∀ a, IsPure (f a)
  | _, filter inner pred => IsPure inner ∧ ∀ a, IsPure (pred a)
  | _, vectors elements _ _ => IsPure elements
  | _, sets elements _ lt => IsPure elements ∧ IsStrictWeakOrder _ fun a b => lt a b = true
  | _, maps keys values _ lt =>
      IsPure keys ∧ IsPure values ∧ IsStrictWeakOrder _ fun a b => lt a b = true
  | _, tuples _ gens => ∀ i, IsPure (gens i)
  | _, arrays _ element => IsPure element
  | _, oneOf gens => ∀ i, IsPure (gens i)
  | _, variant gens => ∀ i, IsPure (gens i)
  | _, optional gen => IsPure gen
  | _, deferred _ _ => True
  | _, tryCatch _ _ | _, read | _, write _ | _, poolAdd | _, poolDraw _ | _, «repeat» _ => False
  | _, run _ _ _ _ _ => False

/-- The words of the draws of deferred generators. -/
abbrev DelegateWords : Type 1 := (α : Type) → Nat → Words α

/-- The answers that client code takes for its values. -/
def words (contract : Contract) (delegate : DelegateWords) : {α : Type} → Code S α → Words α
  | _, ret a => pure a
  | _, bind p k => words contract delegate p >>= fun a => words contract delegate (k a)
  | _, loop body k => Language.loop (fun k => words contract delegate (body k)) k
  | _, note _ => pure ()
  | _, integers minValue maxValue => Words.integer minValue maxValue
  | _, booleans => Words.call Answer.bool
  | _, text => do
      let s ← Words.call Answer.text
      Language.require (contract.text s)
      pure s
  | _, sampledFrom (n := n) elements => do
      let index ← Words.integer 0 n
      pure (Generators.select elements index)
  | _, map source f => Words.span do
      let value ← words contract delegate source
      words contract delegate (f value)
  | _, flatMap inner f => Words.span do
      let value ← words contract delegate inner
      words contract delegate (f value)
  | _, filter inner pred =>
      Words.filterAttempts (words contract delegate inner)
        (fun a => words contract delegate (pred a)) 3
  | _, vectors elements params unique =>
      Words.collection contract params
        (Words.vectorsTurn (words contract delegate elements) unique)
  | _, sets elements params lt =>
      Words.collection contract params (Words.setsTurn (words contract delegate elements) lt)
  | _, maps keys values params lt =>
      Words.collection contract params
        (Words.mapsTurn (words contract delegate keys) (words contract delegate values) lt)
  | _, tuples n gens => Words.span (Words.drawTupleImpl n _ fun i =>
      words contract delegate (gens i))
  | _, arrays n element => Words.span (Words.drawTupleImpl n _ fun _ =>
      words contract delegate element)
  | _, oneOf gens => Words.oneOf fun i => words contract delegate (gens i)
  | _, variant gens => Words.variant fun i => words contract delegate (gens i)
  | _, optional gen => Words.optional (words contract delegate gen)
  | _, deferred α slot => delegate α slot
  | _, _ => Language.fail

end Code
end Hegel
