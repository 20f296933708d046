import HegelCpp.Generators.Combinators
import Mathlib.Logic.Equiv.Basic

/-! `builds` and `builds_agg`. The draws of `builds` are the arguments of a
parenthesised call, which are evaluated one after the other in an order that
C++ leaves to the compiler; those of `builds_agg` and `tuples` have an order. -/
namespace Hegel.Generators

open Logic

variable {S T : Type} {n : Nat} {τ : Fin n → Type}

/-- The arguments of a call, drawn one after the other: `order k` is the
argument that is evaluated `k`-th. -/
def drawArguments (order : Equiv.Perm (Fin n)) (gens : (i : Fin n) → Client S (τ i)) :
    Client S ((i : Fin n) → τ i) := do
  let drawn ← drawTupleImpl n (fun k => τ (order k)) (fun k => gens (order k))
  pure (Equiv.piCongrLeft τ order drawn)

/-- `builds`: `T(g.do_draw(tc)...)`. The constructor is user code and may throw. -/
def builds (construct : ((i : Fin n) → τ i) → Client S T) (order : Equiv.Perm (Fin n))
    (gens : (i : Fin n) → Client S (τ i)) : Client S T := do
  let arguments ← drawArguments order gens
  construct arguments

/-- `Field`: a pointer to a member of type `F`, and the generator for it. -/
structure Field (S T F : Type) where
  get : T → F
  set : F → T → T
  generator : Client S F

/-- The comma fold of `builds_agg`, with the fields assigned so far. -/
def assignFields : (n : Nat) → {τ : Fin n → Type} → ((i : Fin n) → Field S T (τ i)) → T →
    Client S T
  | 0, _, _, result => pure result
  | n + 1, _, fields, result => do
      let value ← (fields ⟨0, n.succ_pos⟩).generator
      assignFields n (fun i => fields i.succ) ((fields ⟨0, n.succ_pos⟩).set value result)

/-- `builds_agg`, from the aggregate `T{}`. -/
def buildsAgg (initial : T) (fields : (i : Fin n) → Field S T (τ i)) : Client S T :=
  assignFields n fields initial

/-- The fields are distinct members. -/
structure Distinct (fields : (i : Fin n) → Field S T (τ i)) : Prop where
  own : ∀ i value t, (fields i).get ((fields i).set value t) = value
  other : ∀ i j, i ≠ j → ∀ value t, (fields i).get ((fields j).set value t) = (fields i).get t

/-- The values of a tuple, assigned to the fields in order. -/
def assign : (n : Nat) → {τ : Fin n → Type} → ((i : Fin n) → Field S T (τ i)) →
    ((i : Fin n) → τ i) → T → T
  | 0, _, _, _, result => result
  | n + 1, _, fields, values, result =>
      assign n (fun i => fields i.succ) (fun i => values i.succ)
        ((fields ⟨0, n.succ_pos⟩).set (values ⟨0, n.succ_pos⟩) result)

/-- Both functions draw what `tuples` draws inside its span, in its order, and
make of these values what they should. -/
structure YieldsTuple (order : Equiv.Perm (Fin n)) (gens : (i : Fin n) → Client S (τ i)) :
    Prop where
  tuples : tuples n τ gens = inSpan .tuple (builds pure order gens)
  builds : ∀ (T : Type) (construct : ((i : Fin n) → τ i) → Client S T),
    builds construct order gens = drawTupleImpl n τ gens >>= construct
  buildsAgg : ∀ (T : Type) (initial : T) (fields : (i : Fin n) → Field S T (τ i)),
    (∀ i, (fields i).generator = gens i) → Distinct fields →
      ∃ result : ((i : Fin n) → τ i) → T,
        buildsAgg initial fields = result <$> drawTupleImpl n τ gens ∧
        ∀ values i, (fields i).get (result values) = values i

section Agg

theorem assignFields_eq (fields : (i : Fin n) → Field S T (τ i)) (result : T) :
    assignFields n fields result = (assign n fields · result) <$>
      drawTupleImpl n τ fun i => (fields i).generator := by
  induction n generalizing result with
  | zero => simp [assignFields, drawTupleImpl, assign]
  | succ n ih =>
      simp only [assignFields, drawTupleImpl, ih, map_bind, map_pure, assign, Fin.cons_succ]
      rfl

theorem get_assign_of_unchanged {F : Type} {get : T → F} (fields : (i : Fin n) → Field S T (τ i))
    (hOther : ∀ i value t, get ((fields i).set value t) = get t) (values : (i : Fin n) → τ i)
    (t : T) : get (assign n fields values t) = get t := by
  induction n generalizing t with
  | zero => rfl
  | succ n ih =>
      rw [assign, ih (fun i => fields i.succ) (fun i => hOther i.succ)]
      exact hOther 0 _ _

theorem get_assign (fields : (i : Fin n) → Field S T (τ i)) (hDistinct : Distinct fields)
    (values : (i : Fin n) → τ i) (t : T) (i : Fin n) :
    (fields i).get (assign n fields values t) = values i := by
  induction n generalizing t with
  | zero => exact i.elim0
  | succ n ih =>
      rw [assign]
      cases i using Fin.cases with
      | zero =>
          rw [get_assign_of_unchanged (fun i => fields i.succ) fun i =>
            hDistinct.other 0 i.succ (Fin.succ_ne_zero i).symm]
          exact hDistinct.own 0 _ _
      | succ i =>
          refine ih (fun i => fields i.succ) ⟨?_, ?_⟩ _ _ i
          · exact fun i => hDistinct.own i.succ
          · exact fun i j hNe => hDistinct.other i.succ j.succ fun hSame =>
              hNe (Fin.succ_injective n hSame)

end Agg

/-- Left to right, the arguments are drawn like the elements of a tuple. -/
theorem drawArguments_refl (gens : (i : Fin n) → Client S (τ i)) :
    drawArguments (Equiv.refl _) gens = drawTupleImpl n τ gens :=
  bind_pure (drawTupleImpl n τ gens)

theorem yieldsTuple_refl (gens : (i : Fin n) → Client S (τ i)) :
    YieldsTuple (Equiv.refl _) gens where
  tuples := by
    rw [builds, bind_pure, drawArguments_refl]
    rfl
  builds := by
    intro T construct
    rw [builds, drawArguments_refl]
  buildsAgg := by
    intro T initial fields hGens hDistinct
    obtain rfl : (fun i => (fields i).generator) = gens := funext hGens
    exact ⟨(assign n fields · initial), assignFields_eq fields initial,
      fun values i => get_assign fields hDistinct values initial i⟩

/-! A stream of the numbers `0, 1, 2, …`, which shows the order of the draws. -/
section Order

/-- The engine's next `count` choices are the numbers from `start` on. -/
def counting (start count : Nat) : World Unit where
  answers := (List.range' start count).map fun k : Nat => { int := k }
  memory := ()

/-- Every generator draws from the same interval. -/
def counter (n : Nat) : Client Unit Int := drawInteger 0 n

theorem counter_run {n start : Nat} (hLe : start ≤ n) (count : Nat) :
    counter n 0 (counting start (count + 1)) = some (.ok start, counting (start + 1) count) := by
  have hClamp : max 0 (min (start : Int) n) = start := by omega
  show some (Except.ok (max 0 (min (start : Int) n)), counting (start + 1) count) = _
  rw [hClamp]

theorem counter_draws {n start count : Nat} (hLe : start + count ≤ n) :
    drawTupleImpl count (fun _ => Int) (fun _ => counter n) 0 (counting start count) =
      some (.ok fun i => start + i, counting (start + count) 0) := by
  induction count generalizing start with
  | zero =>
      have hNone : (fun i : Fin 0 => (start + i : Int)) = fun i => i.elim0 :=
        funext fun i => i.elim0
      rw [hNone]
      rfl
  | succ count ih =>
      rw [drawTupleImpl, Program.bind_of_ok (counter_run (by omega) count),
        Program.bind_of_ok (ih (by omega))]
      have hCons : (Fin.cons (start : Int) fun i : Fin count => (start + 1 : Nat) + (i : Int)) =
          fun i : Fin (count + 1) => (start + i : Int) := by
        funext i
        cases i using Fin.cases with
        | zero => simp
        | succ i =>
            simp only [Fin.cons_succ, Fin.val_succ]
            omega
      rw [Nat.add_right_comm]
      exact congrArg (fun values => some (Except.ok values, counting (start + 1 + count) 0)) hCons

/-- The values show the order in which the arguments were drawn. -/
theorem eq_refl_of_yields {order : Equiv.Perm (Fin n)}
    (h : YieldsTuple order fun _ : Fin n => counter n) : order = Equiv.refl _ := by
  have hDraws : drawTupleImpl n (fun _ => Int) (fun _ => counter n) 0 (counting 0 n) = _ :=
    counter_draws (Nat.zero_add n).le
  have hTuple : (drawTupleImpl n (fun _ => Int) (fun _ => counter n) >>= pure) 0 (counting 0 n) =
      some (.ok fun i => (0 : Nat) + (i : Int), counting (0 + n) 0) := by
    rw [bind_pure, hDraws]
  have hBuilds : builds pure order (fun _ : Fin n => counter n) 0 (counting 0 n) =
      some (.ok (Equiv.piCongrLeft (fun _ => Int) order fun i => (0 : Nat) + (i : Int)),
        counting (0 + n) 0) := by
    rw [builds, bind_pure, drawArguments, Program.bind_of_ok hDraws]
    rfl
  rw [h.builds, hTuple] at hBuilds
  have hValues : (fun i : Fin n => (0 : Nat) + (i : Int)) =
      Equiv.piCongrLeft (fun _ => Int) order fun i => (0 : Nat) + (i : Int) := by
    simpa using hBuilds
  refine Equiv.ext fun k => Fin.ext ?_
  have hAt := congrFun hValues (order k)
  rw [Equiv.piCongrLeft_apply_apply] at hAt
  show (order k : Nat) = k
  omega

end Order

/-- `builds` yields what `tuples` yields, for all generators and whatever is
made of the values, exactly with compilers that evaluate arguments from left
to right; `builds_agg` always does. -/
theorem builds_yields_tuple_iff (order : Equiv.Perm (Fin n)) :
    (∀ (S : Type) (τ : Fin n → Type) (gens : (i : Fin n) → Client S (τ i)),
      YieldsTuple order gens) ↔ order = Equiv.refl _ := by
  constructor
  · intro h
    exact eq_refl_of_yields (h _ _ _)
  · rintro rfl S τ gens
    exact yieldsTuple_refl gens

/-- Two arguments that are drawn from right to left. -/
theorem not_every_order_yields_tuple :
    ¬ ∀ (n : Nat) (order : Equiv.Perm (Fin n)) (S : Type) (τ : Fin n → Type)
      (gens : (i : Fin n) → Client S (τ i)), YieldsTuple order gens := by
  intro hAll
  have hSame := eq_refl_of_yields (hAll 2 (Equiv.swap 0 1) Unit (fun _ => Int) fun _ => counter 2)
  exact absurd (Equiv.congr_fun hSame 0) (by decide)

end Hegel.Generators
