import HegelCpp.Stateful.Runner

/-! Everything a test body, a rule, or a function passed to a generator can do
on a test-case handle: the terms are the possible programs, built from the
public operations by any nesting, and `exec` runs them with the library's own
definitions. Only the library opens and closes spans. -/
namespace Hegel

open Logic

/-- Client code over memory `S` that returns an `α`. A generator is client
code too: `compose` turns a function that draws into a generator, and a draw
runs its `do_draw`. -/
inductive Code (S : Type) : Type → Type 1 where
  | ret {α : Type} (a : α) : Code S α
  | bind {α β : Type} (p : Code S α) (k : α → Code S β) : Code S β
  | throw {α : Type} (e : Exn) : Code S α
  | tryCatch {α : Type} (p : Code S α) (handler : Exn → Code S α) : Code S α
  | loop {α κ : Type} (body : κ → Code S (κ ⊕ α)) (k : κ) : Code S α
  | read : Code S S
  | write (memory : S) : Code S Unit
  | note (message : String) : Code S Unit
  | integers (minValue maxValue : Int) : Code S Int
  | booleans : Code S Bool
  | text : Code S String
  | poolAdd : Code S Int
  | poolDraw (consume : Bool) : Code S Int
  | sampledFrom {α : Type} {n : Nat} (elements : Fin (n + 1) → α) : Code S α
  | map {α β : Type} (source : Code S α) (f : α → Code S β) : Code S β
  | flatMap {α β : Type} (inner : Code S α) (f : α → Code S β) : Code S β
  | filter {α : Type} (inner : Code S α) (pred : α → Code S Bool) : Code S α
  | vectors {α : Type} (elements : Code S α) (params : Generators.CollectionParams)
      (unique : Option (α → α → Bool)) : Code S (List α)
  | sets {α : Type} (elements : Code S α) (params : Generators.CollectionParams)
      (lt : α → α → Bool) : Code S (List α)
  | maps {α β : Type} (keys : Code S α) (values : Code S β)
      (params : Generators.CollectionParams) (lt : α → α → Bool) : Code S (List (α × β))
  | tuples (n : Nat) {τ : Fin n → Type} (gens : (i : Fin n) → Code S (τ i)) :
      Code S ((i : Fin n) → τ i)
  | arrays {α : Type} (n : Nat) (element : Code S α) : Code S (Fin n → α)
  | oneOf {α : Type} {n : Nat} (gens : Fin (n + 1) → Code S α) : Code S α
  | variant {n : Nat} {τ : Fin (n + 1) → Type} (gens : (i : Fin (n + 1)) → Code S (τ i)) :
      Code S ((i : Fin (n + 1)) × τ i)
  | optional {α : Type} (gen : Code S α) : Code S (Option α)
  | deferred (α : Type) (slot : Nat) : Code S α
  | «repeat» (body : Code S Unit) : Code S Unit
  | run {n : Nat} (names : Fin n → String) (steps : Fin n → Code S Unit)
      (invariants : List (Invariant S)) (repr : S → Except Exn String)
      (params : RunParams) : Code S Unit

namespace Code

variable {S α : Type}

/-- What a deferred generator delegates to. -/
abbrev Delegate (S : Type) : Type 1 := (α : Type) → Nat → Client S α

/-- Run client code, with `delegate` for the draws of deferred generators. -/
def interpret (delegate : Delegate S) : {α : Type} → Code S α → Client S α
  | _, ret a => pure a
  | _, bind p k => interpret delegate p >>= fun a => interpret delegate (k a)
  | _, throw e => Program.throw e
  | _, tryCatch p handler =>
      (interpret delegate p).tryCatch fun e => interpret delegate (handler e)
  | _, loop body k => Program.loop (fun k => interpret delegate (body k)) k
  | _, read => do
      let world ← Program.get
      pure world.memory
  | _, write memory => Program.modify fun world => { world with memory }
  | _, note message => Hegel.note message
  | _, integers minValue maxValue => drawInteger minValue maxValue
  | _, booleans => drawBoolean
  | _, text => drawString
  | _, poolAdd => Hegel.poolAdd
  | _, poolDraw consume => poolDrawVariable consume
  | _, sampledFrom elements => Generators.sampledFrom elements
  | _, map source f => Generators.map (interpret delegate source) fun a => interpret delegate (f a)
  | _, flatMap inner f =>
      Generators.flatMap (interpret delegate inner) fun a => interpret delegate (f a)
  | _, filter inner pred =>
      Generators.filter (interpret delegate inner) fun a => interpret delegate (pred a)
  | _, vectors elements params unique =>
      Generators.vectors (interpret delegate elements) params unique
  | _, sets elements params lt => Generators.sets (interpret delegate elements) params lt
  | _, maps keys values params lt =>
      Generators.maps (interpret delegate keys) (interpret delegate values) params lt
  | _, tuples n gens => Generators.tuples n _ fun i => interpret delegate (gens i)
  | _, arrays n element => Generators.arrays n (interpret delegate element)
  | _, oneOf gens => Generators.oneOf fun i => interpret delegate (gens i)
  | _, variant gens => Generators.variant fun i => interpret delegate (gens i)
  | _, optional gen => Generators.optional (interpret delegate gen)
  | _, deferred α slot => delegate α slot
  | _, «repeat» body => repeatBody (interpret delegate body)
  | _, run names steps invariants repr params =>
      Hegel.run { rules := List.ofFn fun i => ⟨names i, interpret delegate (steps i)⟩
                  invariants, repr } params

/-- The generators installed by `DeferredGeneratorDefinition::set`. -/
abbrev Slots (S : Type) : Type 1 := (α : Type) → Nat → Option (Code S α)

/-- `DeferredGenerator::do_draw` with at most `depth` delegations in progress. -/
def delegate (slots : Slots S) : Nat → Delegate S
  | 0 => fun _ _ => Program.diverge
  | depth + 1 => fun α slot => match slots α slot with
      | none => Program.throw (runtimeError "deferred generator drawn before set() was called")
      | some gen => interpret (delegate slots depth) gen

/-- Run client code whose deferred generators nest at most `depth` deep. -/
def exec (slots : Slots S) (depth : Nat) (code : Code S α) : Client S α :=
  interpret (delegate slots depth) code

end Code
end Hegel
