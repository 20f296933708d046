import HegelCpp.Concurrent.Pool
import Mathlib.Data.Finset.Card

/-! `Pool` and its two generators, with values whose constructors may throw.
Every operation asks the engine first and changes its own map second, and an
exception in between leaves only the engine's half done. -/
namespace Hegel

open ConcurrentPool (Values)

variable {T α : Type}

/-- The two copies of a pool: the ids that the engine holds, and `pool_`.
Ghost: the ids the engine has handed out. -/
structure Pool (T : Type) where
  ids : Finset Int := ∅
  map : Values T := ∅
  issued : Finset Int := ∅

namespace Pool

/-- C++ code that works on a pool. What it changed before an exception stays. -/
abbrev Action (T α : Type) : Type := EStateM Exn (Pool T) α

/-- A step that may throw: a call to the engine, or a constructor of `T`. -/
def attempt : Option Exn → Action T Unit
  | none => pure ()
  | some e => throw e

/-- `PoolHandle::add`. -/
def handleAdd (answer : Answer) : Action T Int := do
  attempt (answer.rc.raised "hegel_pool_add" answer.lastError)
  modify fun pool => { pool with ids := insert answer.int pool.ids
                                 issued := insert answer.int pool.issued }
  pure answer.int

/-- `PoolHandle::draw_variable`. -/
def drawVariable (answer : Answer) (consume : Bool) : Action T Int := do
  attempt (answer.rc.raised "hegel_pool_generate" answer.lastError)
  modify fun pool => { pool with ids := if consume then pool.ids.erase answer.int else pool.ids }
  pure answer.int

/-- Both overloads of `Pool::add`. The element is copied or moved into a new
node of the map, which may throw `constructed`. -/
def add (element : T) (answer : Answer) (constructed : Option Exn) : Action T Unit := do
  let varId ← handleAdd answer
  let pool ← get
  if varId ∈ pool.map then throw (runtimeError "unexpected variable id in map")
  attempt constructed
  modify fun pool => { pool with map := pool.map.emplace varId element }

/-- The error of a draw whose id is not in the map. -/
def diverged : Exn :=
  runtimeError <| "Pool state diverged between the engine and the client, or a bug in the " ++
    "pool bookkeeping."

/-- Move a value out of the map. A move that throws leaves some value there. -/
def moveOut (varId : Int) : Option (Exn × T) → Action T Unit
  | none => modify fun pool => { pool with map := pool.map.erase varId }
  | some (e, left) => do
      modify fun pool => { pool with map := pool.map.replace varId left }
      throw e

/-- `VariablesGenerator::do_draw`. The construction of the object it returns
may throw `returned`: the copy of a value that stays, or the move of `val`
where the compiler does not elide it. -/
def doDraw (consume : Bool) (answer : Answer) (moved : Option (Exn × T))
    (returned : Option Exn) : Action T T := do
  let varId ← drawVariable answer consume
  let pool ← get
  match pool.map.lookup varId with
  | none => throw diverged
  | some value =>
      if consume then moveOut varId moved
      attempt returned
      pure value

/-- `Pool::size`. -/
def size (pool : Pool T) : Nat := pool.map.keys.length

/-- An operation on a pool, with the engine's answer and what the constructors
of `T` throw. -/
inductive Operation (T : Type) where
  | addCopy (element : T) (answer : Answer) (copied : Option Exn)
  | addMove (element : T) (answer : Answer) (moved : Option Exn)
  | valuesReusable (answer : Answer) (copied : Option Exn)
  | valuesConsumed (answer : Answer) (moved : Option (Exn × T)) (returned : Option Exn)

namespace Operation

/-- A draw returns a value. -/
def perform : Operation T → Action T (Option T)
  | addCopy element answer copied => (fun _ => none) <$> add element answer copied
  | addMove element answer moved => (fun _ => none) <$> add element answer moved
  | valuesReusable answer copied => some <$> doDraw false answer none copied
  | valuesConsumed answer moved returned => some <$> doDraw true answer moved returned

/-- What the engine promises about the answers it gives: a new id is fresh,
and a drawn one is held. A call that raises may answer anything. -/
def Answered (pool : Pool T) : Operation T → Prop
  | addCopy _ answer _ | addMove _ answer _ => answer.rc = .ok → answer.int ∉ pool.issued
  | valuesReusable answer _ | valuesConsumed answer _ _ =>
      answer.rc = .ok → answer.int ∈ pool.ids

/-- No constructor throws between the engine's answer and the end of an
operation that changes the pool. -/
def Completes : Operation T → Prop
  | addCopy _ answer constructed | addMove _ answer constructed =>
      answer.rc = .ok → constructed = none
  | valuesReusable _ _ => True
  | valuesConsumed answer moved returned => answer.rc = .ok → moved = none ∧ returned = none

end Operation

/-- The pool after an operation that returned or threw. -/
def after (pool : Pool T) (operation : Operation T) : Pool T :=
  match operation.perform.run pool with
  | .ok _ left | .error _ left => left

/-- The client's half of a pool and the engine's are the same, so whatever the
engine draws next is found. -/
structure Agrees (pool : Pool T) : Prop where
  keys : pool.map.ids = pool.ids
  size : pool.size = pool.ids.card
  found : ∀ varId ∈ pool.ids, (pool.map.lookup varId).isSome

/-- An operation leaves the two halves in agreement, and if it throws it has
neither added nor removed a value. -/
structure Atomic (pool : Pool T) (operation : Operation T) : Prop where
  agrees : (pool.after operation).Agrees
  unchanged : ∀ e left, operation.perform.run pool = .error e left →
    left.ids = pool.ids ∧ left.map.ids = pool.map.ids

/-- The operations in turn, each in the pool the ones before it left. -/
def Along (P : Pool T → Operation T → Prop) : Pool T → List (Operation T) → Prop
  | _, [] => True
  | pool, operation :: rest => P pool operation ∧ Along P (pool.after operation) rest

@[simp] theorem attempt_none : (attempt none : Action T Unit) = pure () := rfl

@[simp] theorem attempt_some (e : Exn) : (attempt (some e) : Action T Unit) = throw e := rfl

@[simp] theorem run_map_throw (f : α → T) (e : Exn) (pool : Pool T) :
    (f <$> (throw e : Action T α)).run pool = .error e pool := rfl

@[simp] theorem run_map_modify (f : PUnit → T) (g : Pool T → Pool T) (pool : Pool T) :
    (f <$> (modify g : Action T PUnit)).run pool = .ok (f ⟨⟩) (g pool) := rfl

/-! One rule for each way an operation can end. -/
section Ends
variable {pool : Pool T} {element value : T} {answer : Answer}

theorem raised_of_refused (h : answer.rc ≠ .ok) (what : String) :
    ∃ e, answer.rc.raised what answer.lastError = some e :=
  Option.ne_none_iff_exists'.mp (mt ResultCode.raised_eq_none.mp h)

theorem add_refused (h : answer.rc ≠ .ok) (constructed : Option Exn) :
    ∃ e, (add element answer constructed).run pool = .error e pool := by
  obtain ⟨e, hRaised⟩ := raised_of_refused h "hegel_pool_add"
  exact ⟨e, by simp [add, handleAdd, hRaised]⟩

theorem add_throws (h : answer.rc = .ok) (hFresh : answer.int ∉ pool.map) (e : Exn) :
    (add element answer (some e)).run pool =
      .error e { pool with ids := insert answer.int pool.ids
                           issued := insert answer.int pool.issued } := by
  simp [add, handleAdd, ResultCode.raised_eq_none.mpr h, hFresh]

theorem add_returns (h : answer.rc = .ok) (hFresh : answer.int ∉ pool.map) :
    (add element answer none).run pool =
      .ok () { pool with ids := insert answer.int pool.ids
                         map := pool.map.emplace answer.int element
                         issued := insert answer.int pool.issued } := by
  simp [add, handleAdd, ResultCode.raised_eq_none.mpr h, hFresh]

theorem doDraw_refused (h : answer.rc ≠ .ok) (consume : Bool) (moved : Option (Exn × T))
    (returned : Option Exn) : ∃ e, (doDraw consume answer moved returned).run pool =
      .error e pool := by
  obtain ⟨e, hRaised⟩ := raised_of_refused h "hegel_pool_generate"
  exact ⟨e, by simp [doDraw, drawVariable, hRaised]⟩

/-- A draw that keeps its value changes nothing, whether the copy throws or not. -/
theorem doDraw_reuses (h : answer.rc = .ok) (hFound : pool.map.lookup answer.int = some value)
    (returned : Option Exn) : (doDraw false answer none returned).run pool =
      match returned with
      | none => .ok value pool
      | some e => .error e pool := by
  cases returned with
  | none => simp [doDraw, drawVariable, ResultCode.raised_eq_none.mpr h, hFound]
  | some e => simp [doDraw, drawVariable, ResultCode.raised_eq_none.mpr h, hFound]

theorem doDraw_moveThrows (h : answer.rc = .ok) (hFound : pool.map.lookup answer.int = some value)
    (e : Exn) (left : T) (returned : Option Exn) :
    (doDraw true answer (some (e, left)) returned).run pool =
      .error e { pool with ids := pool.ids.erase answer.int
                           map := pool.map.replace answer.int left } := by
  simp [doDraw, drawVariable, moveOut, ResultCode.raised_eq_none.mpr h, hFound]

theorem doDraw_consumes (h : answer.rc = .ok) (hFound : pool.map.lookup answer.int = some value)
    (returned : Option Exn) : (doDraw true answer none returned).run pool =
      let left := { pool with ids := pool.ids.erase answer.int, map := pool.map.erase answer.int }
      match returned with
      | none => .ok value left
      | some e => .error e left := by
  cases returned with
  | none => simp [doDraw, drawVariable, moveOut, ResultCode.raised_eq_none.mpr h, hFound]
  | some e => simp [doDraw, drawVariable, moveOut, ResultCode.raised_eq_none.mpr h, hFound]

end Ends

/-- Equal keys are all that agreement takes. -/
theorem Agrees.of_keys {pool : Pool T} (h : pool.map.ids = pool.ids) : pool.Agrees where
  keys := h
  size := by
    rw [← h, Values.ids, List.toFinset_card_of_nodup pool.map.keys_nodup]
    rfl
  found := by
    intro varId hHeld
    rw [AList.lookup_isSome, ← Values.mem_ids, h]
    exact hHeld

/-- What holds of a pool between two operations. -/
structure Sound (pool : Pool T) : Prop where
  agrees : pool.Agrees
  issued : pool.ids ⊆ pool.issued

theorem sound_empty : Sound ({} : Pool T) := ⟨.of_keys rfl, Finset.Subset.refl _⟩

namespace Sound

variable {pool : Pool T} {answer : Answer}

theorem fresh (h : pool.Sound) (hAnswer : answer.int ∉ pool.issued) : answer.int ∉ pool.map := by
  intro hMem
  exact hAnswer (h.issued (h.agrees.keys ▸ Values.mem_ids.mpr hMem))

theorem found (h : pool.Sound) (hAnswer : answer.int ∈ pool.ids) :
    ∃ value, pool.map.lookup answer.int = some value :=
  Option.isSome_iff_exists.mp (h.agrees.found _ hAnswer)

end Sound

section Step
variable {pool left : Pool T} {operation : Operation T} {answer : Answer}

theorem after_of_ok {result : Option T} (h : operation.perform.run pool = .ok result left) :
    pool.after operation = left := by
  rw [after, h]

theorem after_of_error {e : Exn} (h : operation.perform.run pool = .error e left) :
    pool.after operation = left := by
  rw [after, h]

theorem atomic_of_ok {result : Option T} (h : operation.perform.run pool = .ok result left) :
    Atomic pool operation ↔ left.map.ids = left.ids := by
  constructor
  · intro hAtomic
    exact after_of_ok h ▸ hAtomic.agrees.keys
  · intro hKeys
    exact ⟨(after_of_ok h).symm ▸ .of_keys hKeys, fun e left hError => by simp [h] at hError⟩

/-- An operation that threw and left the engine other ids. -/
theorem not_atomic_of_changed {e : Exn} (h : operation.perform.run pool = .error e left)
    (hChanged : left.ids ≠ pool.ids) : ¬Atomic pool operation :=
  fun hAtomic => hChanged (hAtomic.unchanged e left h).1

theorem map_ok {β : Type} {action : Action T β} {b : β} (f : β → Option T)
    (h : action.run pool = .ok b left) : (f <$> action).run pool = .ok (f b) left := by
  show EStateM.map f action pool = _
  rw [EStateM.map, show action pool = _ from h]

theorem map_error {β : Type} {action : Action T β} {e : Exn} (f : β → Option T)
    (h : action.run pool = .error e left) : (f <$> action).run pool = .error e left := by
  show EStateM.map f action pool = _
  rw [EStateM.map, show action pool = _ from h]

/-- An operation that an engine call refused. -/
theorem Sound.refused (h : pool.Sound) {e : Exn} (hRun : operation.perform.run pool = .error e pool) :
    Atomic pool operation ∧ (pool.after operation).ids ⊆ (pool.after operation).issued := by
  rw [after_of_error hRun]
  refine ⟨⟨(after_of_error hRun).symm ▸ h.agrees, fun e' left hError => ?_⟩, h.issued⟩
  rw [hRun] at hError
  cases hError
  exact ⟨rfl, rfl⟩

theorem Sound.add (h : pool.Sound) {element : T} {constructed : Option Exn}
    (hPerform : operation.perform = (fun _ => none) <$> Pool.add element answer constructed)
    (hAnswered : answer.rc = .ok → answer.int ∉ pool.issued) :
    (Atomic pool operation ↔ (answer.rc = .ok → constructed = none)) ∧
      (pool.after operation).ids ⊆ (pool.after operation).issued := by
  by_cases hRc : answer.rc = .ok
  case neg =>
    obtain ⟨e, hRun⟩ := add_refused hRc constructed
    have hRefused := h.refused (hPerform ▸ map_error _ hRun)
    exact ⟨iff_of_true hRefused.1 fun hOk => absurd hOk hRc, hRefused.2⟩
  have hFresh := h.fresh (hAnswered hRc)
  have hIssued : insert answer.int pool.ids ⊆ insert answer.int pool.issued :=
    Finset.insert_subset_insert _ h.issued
  cases constructed with
  | none =>
      have hRun := hPerform ▸ map_ok (fun _ => none) (add_returns hRc hFresh)
      rw [after_of_ok hRun, atomic_of_ok hRun]
      refine ⟨iff_of_true ?_ fun _ => rfl, hIssued⟩
      exact (Values.ids_emplace _ _ _).trans (congrArg _ h.agrees.keys)
  | some e =>
      have hRun := hPerform ▸ map_error (fun _ => none) (add_throws hRc hFresh e)
      have hAdded : insert answer.int pool.ids ≠ pool.ids := fun hSame =>
        hAnswered hRc (h.issued (hSame ▸ Finset.mem_insert_self _ _))
      rw [after_of_error hRun]
      exact ⟨iff_of_false (not_atomic_of_changed hRun hAdded)
        fun hNone => Option.some_ne_none _ (hNone hRc), hIssued⟩

theorem Sound.reuse (h : pool.Sound) {copied : Option Exn}
    (hAnswered : answer.rc = .ok → answer.int ∈ pool.ids) :
    Atomic pool (.valuesReusable answer copied) ∧
      (pool.after (.valuesReusable answer copied)).ids ⊆
        (pool.after (.valuesReusable answer copied)).issued := by
  by_cases hRc : answer.rc = .ok
  case neg =>
    obtain ⟨e, hRun⟩ := doDraw_refused hRc false none copied
    exact h.refused (map_error _ hRun)
  obtain ⟨value, hFound⟩ := h.found (hAnswered hRc)
  have hRun := doDraw_reuses hRc hFound copied
  cases copied with
  | none =>
      have hRun : (Operation.valuesReusable answer none).perform.run pool = .ok (some value) pool :=
        map_ok _ hRun
      rw [after_of_ok hRun, atomic_of_ok hRun]
      exact ⟨h.agrees.keys, h.issued⟩
  | some e => exact h.refused (map_error _ hRun)

theorem Sound.consume (h : pool.Sound) {moved : Option (Exn × T)} {returned : Option Exn}
    (hAnswered : answer.rc = .ok → answer.int ∈ pool.ids) :
    (Atomic pool (.valuesConsumed answer moved returned) ↔
        (answer.rc = .ok → moved = none ∧ returned = none)) ∧
      (pool.after (.valuesConsumed answer moved returned)).ids ⊆
        (pool.after (.valuesConsumed answer moved returned)).issued := by
  by_cases hRc : answer.rc = .ok
  case neg =>
    obtain ⟨e, hRun⟩ := doDraw_refused hRc true moved returned
    have hRun : (Operation.valuesConsumed answer moved returned).perform.run pool = .error e pool :=
      map_error _ hRun
    have hRefused := h.refused hRun
    exact ⟨iff_of_true hRefused.1 fun hOk => absurd hOk hRc, hRefused.2⟩
  obtain ⟨value, hFound⟩ := h.found (hAnswered hRc)
  have hIssued : pool.ids.erase answer.int ⊆ pool.issued :=
    (Finset.erase_subset _ _).trans h.issued
  have hRemoved : pool.ids.erase answer.int ≠ pool.ids := fun hSame =>
    Finset.notMem_erase answer.int pool.ids (hSame.symm ▸ hAnswered hRc)
  cases moved with
  | some thrown =>
      obtain ⟨e, left⟩ := thrown
      have hRun : (Operation.valuesConsumed answer (some (e, left)) returned).perform.run pool = _ :=
        map_error _ (doDraw_moveThrows hRc hFound e left returned)
      rw [after_of_error hRun]
      exact ⟨iff_of_false (not_atomic_of_changed hRun hRemoved)
        fun hNone => Option.some_ne_none _ (hNone hRc).1, hIssued⟩
  | none =>
      have hDraw := doDraw_consumes hRc hFound returned
      cases returned with
      | none =>
          have hRun : (Operation.valuesConsumed answer none none).perform.run pool = _ :=
            map_ok _ hDraw
          rw [after_of_ok hRun, atomic_of_ok hRun]
          refine ⟨iff_of_true ?_ fun _ => ⟨rfl, rfl⟩, hIssued⟩
          exact (Values.ids_erase _ _).trans (congrArg (Finset.erase · _) h.agrees.keys)
      | some e =>
          have hRun : (Operation.valuesConsumed answer none (some e)).perform.run pool = _ :=
            map_error _ hDraw
          rw [after_of_error hRun]
          exact ⟨iff_of_false (not_atomic_of_changed hRun hRemoved)
            fun hNone => Option.some_ne_none _ (hNone hRc).2, hIssued⟩

/-- One operation. The ids that the engine holds stay among those it issued
even where the two halves part. -/
theorem Sound.step (h : pool.Sound) (hAnswered : operation.Answered pool) :
    (Atomic pool operation ↔ operation.Completes) ∧
      (pool.after operation).ids ⊆ (pool.after operation).issued := by
  cases operation with
  | addCopy element answer copied => exact h.add rfl hAnswered
  | addMove element answer moved => exact h.add rfl hAnswered
  | valuesReusable answer copied =>
      exact (h.reuse hAnswered).imp_left fun hAtomic => iff_of_true hAtomic trivial
  | valuesConsumed answer moved returned => exact h.consume hAnswered

end Step

theorem Sound.along_iff {pool : Pool T} (h : pool.Sound) {operations : List (Operation T)}
    (hAnswered : Along (fun pool operation => operation.Answered pool) pool operations) :
    Along Atomic pool operations ↔ ∀ operation ∈ operations, operation.Completes := by
  induction operations generalizing pool with
  | nil => exact iff_of_true trivial (List.forall_mem_nil _)
  | cons operation rest ih =>
      obtain ⟨hFirst, hRest⟩ := hAnswered
      obtain ⟨hIff, hIssued⟩ := h.step hFirst
      rw [List.forall_mem_cons, Along, ← hIff]
      exact and_congr_right fun hAtomic => ih ⟨hAtomic.agrees, hIssued⟩ hRest

/-- In every sequence of operations on a pool, each one is atomic exactly if
no constructor of `T` throws between the engine's answer and the end of an
addition or a consuming draw. -/
theorem operations_atomic_iff (operations : List (Operation T))
    (hAnswered : Along (fun pool operation => operation.Answered pool) {} operations) :
    Along Atomic {} operations ↔ ∀ operation ∈ operations, operation.Completes :=
  sound_empty.along_iff hAnswered

/-- Two elements are added, and one of them is consumed. -/
def addTwice : List (Operation Int) :=
  [.addCopy 10 { int := 0 } none, .addMove 20 { int := 1 } none,
    .valuesConsumed { int := 0 } none none]

theorem operations_atomic_iff_addTwice : Along Atomic {} addTwice := by
  refine (operations_atomic_iff addTwice ?_).mpr ?_
  · refine ⟨fun _ => ?_, fun _ => ?_, fun _ => ?_, trivial⟩ <;> decide
  · simp [addTwice, Operation.Completes]

/-- A copy constructor that throws: the engine holds the id 0, the map does not. -/
theorem not_every_operation_atomic :
    ¬ ∀ operations : List (Operation Int),
      Along (fun pool operation => operation.Answered pool) {} operations →
        Along Atomic {} operations := by
  intro hAll
  have hAtomic := (hAll [.addCopy 10 { int := 0 } (some (runtimeError "copy"))]
    ⟨fun _ => by decide, trivial⟩).1
  have hHeld : (0 : Int) ∈ (({} : Pool Int).after
      (.addCopy 10 { int := 0 } (some (runtimeError "copy")))).ids := by decide
  exact absurd (hAtomic.agrees.found 0 hHeld) (by decide)

end Pool
end Hegel
