import HegelCpp.Client.Code
import HegelCpp.Logic.Ghost

/-! The generator combinators with an observer beside the world. It sees every
`stop_span` of a compound draw and every `more` and `reject` of a collection.
Without the observer they are the combinators of the library. -/
namespace Hegel

open Logic Program

variable {S τ α β : Type}

/-- An attempt of a filter: which one, and whether the predicate held. -/
structure Attempt where
  number : Nat
  held : Bool
  deriving DecidableEq, Repr

/-- A `stop_span` call: the span the same invocation opened before, the span
the engine closed, and the argument. -/
structure SpanStop where
  opened : OpenSpan
  closed : Option OpenSpan
  discard : Bool
  attempt : Option Attempt
  deriving DecidableEq, Repr

structure Observer (τ : Type) where
  stopped : SpanStop → τ → τ := fun _ ghost => ghost
  more : Bool → τ → τ := fun _ ghost => ghost
  rejected : τ → τ := id

/-- C++ code on one test-case handle, with a ghost beside the world. -/
abbrev Observed (S τ α : Type) : Type := Program Exn (World S × τ) α

namespace Observed

variable (obs : Observer τ)

/-- `unguarded` beside a ghost. -/
def unguarded (body : Observed S τ α) : Observed S τ α :=
  body.tryCatch fun e => do
    lift (Program.modify fun world => { world with interrupted := world.interrupted + 1 })
    Program.throw e

/-- `inSpan` with its `stop_span` observed. -/
def inSpan (label : SpanLabel) (body : Observed S τ α)
    (attempt : α → Option Attempt := fun _ => none) (discard : α → Bool := fun _ => false) :
    Observed S τ α := do
  let opened ← lift (startSpan label)
  let result ← unguarded body
  let _ ← observe (stopSpan (discard result)) fun closed =>
    obs.stopped { opened, closed, discard := discard result, attempt := attempt result }
  pure result

/-- `CollectionHandle::more`, observed when it returns. -/
def collectionMore : Observed S τ Bool := observe Hegel.collectionMore obs.more

/-- `CollectionHandle::reject`, observed when it returns. -/
def collectionReject (why : String) : Observed S τ Unit :=
  observe (Hegel.collectionReject why) fun _ => obs.rejected

def map (source : Observed S τ α) (f : α → Observed S τ β) : Observed S τ β :=
  inSpan obs .mapped do
    let value ← source
    f value

def flatMap (inner : Observed S τ α) (f : α → Observed S τ β) : Observed S τ β :=
  inSpan obs .flatMap do
    let value ← inner
    f value

/-- The remaining attempts of a filter, of which the next one is `number`. -/
def filterAttempts (inner : Observed S τ α) (pred : α → Observed S τ Bool) :
    (number attempts : Nat) → Observed S τ α
  | _, 0 => Program.throw hegelReject
  | number, attempts + 1 => do
      let (value, keep) ← inSpan obs .filter (do
          let value ← inner
          let keep ← pred value
          pure (value, keep)) (fun attempt => some ⟨number, attempt.2⟩) (fun attempt => !attempt.2)
      if keep then pure value else filterAttempts inner pred (number + 1) attempts

def filter (inner : Observed S τ α) (pred : α → Observed S τ Bool) : Observed S τ α :=
  filterAttempts obs inner pred 1 3

/-- The turn of the loop in `VectorsGenerator::do_draw` that draws an element. -/
def vectorsTurn (elements : Observed S τ α) (unique : Option (α → α → Bool)) (result : List α) :
    Observed S τ (List α ⊕ List α) := do
  let element ← elements
  if unique.any (fun eq => result.any (fun seen => eq seen element)) then
    collectionReject obs "duplicate element"
    pure (.inl result)
  else pure (.inl (result ++ [element]))

/-- The turn of the loop in `SetsGenerator::do_draw` that draws an element. -/
def setsTurn (elements : Observed S τ α) (lt : α → α → Bool) (result : List α) :
    Observed S τ (List α ⊕ List α) := do
  let element ← elements
  match Generators.setInsert lt element result with
  | some inserted => pure (.inl inserted)
  | none => do
      collectionReject obs "duplicate element"
      pure (.inl result)

/-- The turn of the loop in `MapsGenerator::do_draw` that draws a key. -/
def mapsTurn (keys : Observed S τ α) (values : Observed S τ β) (lt : α → α → Bool)
    (result : List (α × β)) : Observed S τ (List (α × β) ⊕ List (α × β)) := do
  let key ← keys
  if result.any (fun entry => !lt entry.1 key && !lt key entry.1) then
    collectionReject obs "duplicate key"
    pure (.inl result)
  else
    let value ← values
    pure (.inl ((Generators.setInsert (fun a b => lt a.1 b.1) (key, value) result).getD result))

/-- The loop of the collection generators: `turn` runs while `more` answers true. -/
def collect (turn : List α → Observed S τ (List α ⊕ List α)) : Observed S τ (List α) :=
  Program.loop (fun result => do
    if ← collectionMore obs then turn result else pure (.inr result)) []

/-- A collection generator with the given loop turn. -/
def collection (label : SpanLabel) (params : Generators.CollectionParams)
    (turn : List α → Observed S τ (List α ⊕ List α)) : Observed S τ (List α) :=
  inSpan obs label do
    lift (newCollection params.minSize (Generators.collectionMaxSize params.maxSize))
    collect obs turn

def vectors (elements : Observed S τ α) (params : Generators.CollectionParams)
    (unique : Option (α → α → Bool)) : Observed S τ (List α) :=
  collection obs .list params (vectorsTurn obs elements unique)

def sets (elements : Observed S τ α) (params : Generators.CollectionParams)
    (lt : α → α → Bool) : Observed S τ (List α) :=
  collection obs .set params (setsTurn obs elements lt)

def maps (keys : Observed S τ α) (values : Observed S τ β)
    (params : Generators.CollectionParams) (lt : α → α → Bool) : Observed S τ (List (α × β)) :=
  collection obs .map params (mapsTurn obs keys values lt)

def drawTupleImpl : (n : Nat) → (types : Fin n → Type) → ((i : Fin n) → Observed S τ (types i)) →
    Observed S τ ((i : Fin n) → types i)
  | 0, _, _ => pure fun i => i.elim0
  | n + 1, types, gens => do
      let first ← gens 0
      let rest ← drawTupleImpl n (fun i => types i.succ) (fun i => gens i.succ)
      pure (Fin.cons first rest)

def tuples (n : Nat) (types : Fin n → Type) (gens : (i : Fin n) → Observed S τ (types i)) :
    Observed S τ ((i : Fin n) → types i) :=
  inSpan obs .tuple (drawTupleImpl n types gens)

def arrays (n : Nat) (element : Observed S τ α) : Observed S τ (Fin n → α) :=
  inSpan obs .tuple (drawTupleImpl n (fun _ => α) (fun _ => element))

def oneOf {n : Nat} (gens : Fin (n + 1) → Observed S τ α) : Observed S τ α :=
  inSpan obs .oneOf do
    let index ← lift (drawInteger 0 n)
    Generators.select gens index

def variant {n : Nat} {types : Fin (n + 1) → Type}
    (gens : (i : Fin (n + 1)) → Observed S τ (types i)) :
    Observed S τ ((i : Fin (n + 1)) × types i) :=
  inSpan obs .oneOf do
    let index ← lift (drawInteger 0 n)
    Generators.select (fun i => do
      let value ← gens i
      pure (Sigma.mk i value)) index

def optional (gen : Observed S τ α) : Observed S τ (Option α) :=
  inSpan obs .optional do
    if ← lift drawBoolean then
      let value ← gen
      pure (some value)
    else pure none

end Observed

namespace Code

/-- Run client code under an observer. The runners `stateful::run` and
`TestCase::repeat` and the delegates of deferred generators run unobserved. -/
def observed (obs : Observer τ) (delegate : Delegate S) : {α : Type} → Code S α → Observed S τ α
  | _, ret a => pure a
  | _, bind p k => observed obs delegate p >>= fun a => observed obs delegate (k a)
  | _, throw e => Program.throw e
  | _, tryCatch p handler =>
      (observed obs delegate p).tryCatch fun e => observed obs delegate (handler e)
  | _, loop body k => Program.loop (fun k => observed obs delegate (body k)) k
  | _, map source f => Observed.map obs (observed obs delegate source) fun a =>
      observed obs delegate (f a)
  | _, flatMap inner f => Observed.flatMap obs (observed obs delegate inner) fun a =>
      observed obs delegate (f a)
  | _, filter inner pred => Observed.filter obs (observed obs delegate inner) fun a =>
      observed obs delegate (pred a)
  | _, vectors elements params unique =>
      Observed.vectors obs (observed obs delegate elements) params unique
  | _, sets elements params lt => Observed.sets obs (observed obs delegate elements) params lt
  | _, maps keys values params lt =>
      Observed.maps obs (observed obs delegate keys) (observed obs delegate values) params lt
  | _, tuples n gens => Observed.tuples obs n _ fun i => observed obs delegate (gens i)
  | _, arrays n element => Observed.arrays obs n (observed obs delegate element)
  | _, oneOf gens => Observed.oneOf obs fun i => observed obs delegate (gens i)
  | _, variant gens => Observed.variant obs fun i => observed obs delegate (gens i)
  | _, optional gen => Observed.optional obs (observed obs delegate gen)
  | _, code => lift (interpret delegate code)

end Code

/-! Each observed combinator runs the library's. -/
namespace Observed

variable (obs : Observer τ)

theorem erases_unguarded {body : Observed S τ α} {body' : Client S α} (h : Erases body body') :
    Erases (unguarded body) (Hegel.unguarded body') :=
  h.tryCatch fun _ => (Erases.lift _).bind fun _ => .throw _

theorem erases_inSpan {body : Observed S τ α} {body' : Client S α} (h : Erases body body')
    (label : SpanLabel) (attempt : α → Option Attempt) (discard : α → Bool) :
    Erases (inSpan obs label body attempt discard) (Hegel.inSpan label body' discard) := by
  refine (Erases.lift _).bind fun opened => (erases_unguarded h).bind fun result => ?_
  exact (Erases.observe _ _).bind fun _ => .pure result

theorem erases_collectionMore :
    Erases (collectionMore obs : Observed S τ Bool) Hegel.collectionMore := .observe _ _

theorem erases_collectionReject (why : String) :
    Erases (collectionReject obs why : Observed S τ Unit) (Hegel.collectionReject why) :=
  .observe _ _

theorem erases_filterAttempts {inner : Observed S τ α} {inner' : Client S α}
    {pred : α → Observed S τ Bool} {pred' : α → Client S Bool} (hInner : Erases inner inner')
    (hPred : ∀ a, Erases (pred a) (pred' a)) (number attempts : Nat) :
    Erases (filterAttempts obs inner pred number attempts)
      (Generators.filterAttempts inner' pred' attempts) := by
  induction attempts generalizing number with
  | zero => exact .throw _
  | succ attempts ih =>
      have hAttempt := hInner.bind fun value => (hPred value).bind fun keep =>
        Erases.pure (value, keep)
      refine (erases_inSpan obs hAttempt _ _ _).bind fun attempt => ?_
      exact Erases.ite (.pure _) (ih _)

theorem erases_collection {label : SpanLabel} (params : Generators.CollectionParams)
    {turn : List α → Observed S τ (List α ⊕ List α)}
    {turn' : List α → Client S (List α ⊕ List α)} (hTurn : ∀ result, Erases (turn result)
      (turn' result)) :
    Erases (collection obs label params turn) (Hegel.inSpan label do
      newCollection params.minSize (Generators.collectionMaxSize params.maxSize)
      Program.loop (fun result => do
        if ← Hegel.collectionMore then turn' result else pure (.inr result)) []) := by
  refine erases_inSpan obs ((Erases.lift _).bind fun _ => Erases.loop (fun result => ?_) []) _ _ _
  exact (erases_collectionMore obs).bind fun more => Erases.ite (hTurn result) (.pure _)

theorem erases_vectors {elements : Observed S τ α} {elements' : Client S α}
    (h : Erases elements elements') (params : Generators.CollectionParams)
    (unique : Option (α → α → Bool)) :
    Erases (vectors obs elements params unique) (Generators.vectors elements' params unique) := by
  refine erases_collection obs params fun result => h.bind fun element => Erases.ite ?_ (.pure _)
  exact (erases_collectionReject obs _).bind fun _ => .pure _

theorem erases_sets {elements : Observed S τ α} {elements' : Client S α}
    (h : Erases elements elements') (params : Generators.CollectionParams) (lt : α → α → Bool) :
    Erases (sets obs elements params lt) (Generators.sets elements' params lt) := by
  refine erases_collection obs params fun result => h.bind fun element => ?_
  cases Generators.setInsert lt element result with
  | some inserted => exact .pure _
  | none => exact (erases_collectionReject obs _).bind fun _ => .pure _

theorem erases_maps {keys : Observed S τ α} {keys' : Client S α} {values : Observed S τ β}
    {values' : Client S β} (hKeys : Erases keys keys') (hValues : Erases values values')
    (params : Generators.CollectionParams) (lt : α → α → Bool) :
    Erases (maps obs keys values params lt) (Generators.maps keys' values' params lt) := by
  refine erases_collection obs params fun result => hKeys.bind fun key => Erases.ite ?_ ?_
  · exact (erases_collectionReject obs _).bind fun _ => .pure _
  · exact hValues.bind fun _ => .pure _

theorem erases_drawTupleImpl (n : Nat) (types : Fin n → Type)
    {gens : (i : Fin n) → Observed S τ (types i)} {gens' : (i : Fin n) → Client S (types i)}
    (h : ∀ i, Erases (gens i) (gens' i)) :
    Erases (drawTupleImpl n types gens) (Generators.drawTupleImpl n types gens') := by
  induction n with
  | zero => exact .pure _
  | succ n ih => exact (h 0).bind fun _ => (ih _ fun i => h i.succ).bind fun _ => .pure _

end Observed

/-- The observer only watches: what it is watching is `interpret`. -/
theorem Code.erases_observed (obs : Observer τ) (delegate : Code.Delegate S) (code : Code S α) :
    Erases (code.observed obs delegate) (code.interpret delegate) := by
  induction code with
  | ret a => exact .pure a
  | bind p k ihp ihk => exact ihp.bind ihk
  | throw e => exact .throw e
  | tryCatch p handler ihp ihHandler => exact ihp.tryCatch ihHandler
  | loop body k ih => exact Erases.loop ih k
  | map source f ihSource ihf => exact Observed.erases_inSpan obs (ihSource.bind ihf) _ _ _
  | flatMap inner f ihInner ihf => exact Observed.erases_inSpan obs (ihInner.bind ihf) _ _ _
  | filter inner pred ihInner ihPred =>
      exact Observed.erases_filterAttempts obs ihInner ihPred 1 3
  | vectors elements params unique ih => exact Observed.erases_vectors obs ih params unique
  | sets elements params lt ih => exact Observed.erases_sets obs ih params lt
  | maps keys values params lt ihKeys ihValues =>
      exact Observed.erases_maps obs ihKeys ihValues params lt
  | tuples n gens ih =>
      exact Observed.erases_inSpan obs (Observed.erases_drawTupleImpl n _ ih) _ _ _
  | arrays n element ih =>
      exact Observed.erases_inSpan obs (Observed.erases_drawTupleImpl n _ fun _ => ih) _ _ _
  | oneOf gens ih =>
      exact Observed.erases_inSpan obs ((Erases.lift _).bind fun _ => ih _) _ _ _
  | variant gens ih =>
      refine Observed.erases_inSpan obs ((Erases.lift _).bind fun index => ?_) _ _ _
      exact (ih (Fin.ofNat _ index.toNat)).bind fun _ => .pure _
  | optional gen ih =>
      exact Observed.erases_inSpan obs
        ((Erases.lift _).bind fun _ => Erases.ite (ih.bind fun _ => .pure _) (.pure _)) _ _ _
  | _ => exact .lift _

end Hegel
