import HegelCpp.Logic.Program
import Mathlib.Data.Set.Defs
import Mathlib.Logic.Relation

/-! Programs that take tokens off the front of a stream, and the languages they
accept: which tokens a program takes for which value. -/
namespace Logic

/-- The tokens that may be taken for a value. -/
def Language (τ α : Type) : Type := List τ → α → Prop

namespace Language

variable {τ α β κ : Type}

protected def pure (a : α) : Language τ α := fun taken value => taken = [] ∧ value = a

protected def bind (L : Language τ α) (K : α → Language τ β) : Language τ β := fun taken value =>
  ∃ first second a, taken = first ++ second ∧ L first a ∧ K a second value

instance : Monad (Language τ) where
  pure := Language.pure
  bind := Language.bind

instance : LawfulMonad (Language τ) := by
  refine LawfulMonad.mk' (Language τ) ?_ ?_ ?_
  · intro α L
    funext taken value
    apply propext
    constructor
    · rintro ⟨first, second, a, rfl, hFirst, rfl, rfl⟩
      rwa [List.append_nil]
    · intro hL
      exact ⟨taken, [], value, (List.append_nil taken).symm, hL, rfl, rfl⟩
  · intro α β a K
    funext taken value
    apply propext
    constructor
    · rintro ⟨first, second, _, rfl, ⟨rfl, rfl⟩, hK⟩
      exact hK
    · intro hK
      exact ⟨[], taken, a, rfl, ⟨rfl, rfl⟩, hK⟩
  · intro α β γ L K M
    funext taken value
    apply propext
    constructor
    · rintro ⟨_, third, b, rfl, ⟨first, second, a, rfl, hL, hK⟩, hM⟩
      refine ⟨first, second ++ third, a, List.append_assoc .., hL, ?_⟩
      exact ⟨second, third, b, rfl, hK, hM⟩
    · rintro ⟨first, _, a, rfl, hL, second, third, b, rfl, hK, hM⟩
      refine ⟨first ++ second, third, b, (List.append_assoc ..).symm, ?_, hM⟩
      exact ⟨first, second, a, rfl, hL, hK⟩

/-- No tokens lead to a value. -/
def fail : Language τ α := fun _ _ => False

/-- The next token, if it is accepted, and what is made of it. -/
def token (accept : τ → Prop) (f : τ → α) : Language τ α := fun taken value =>
  ∃ t, taken = [t] ∧ accept t ∧ value = f t

/-- Only where the condition holds. -/
def require (condition : Prop) : Language τ Unit := fun taken _ => taken = [] ∧ condition

theorem token_map {accept : τ → Prop} (f : τ → α) :
    (token accept (fun t => t) >>= fun t => pure (f t)) = token accept f := by
  funext taken value
  apply propext
  constructor
  · rintro ⟨first, second, t, rfl, ⟨_, rfl, hAccept, rfl⟩, rfl, rfl⟩
    exact ⟨t, rfl, hAccept, rfl⟩
  · rintro ⟨t, rfl, hAccept, rfl⟩
    exact ⟨[t], [], t, rfl, ⟨t, rfl, hAccept, rfl⟩, rfl, rfl⟩

/-- A condition that holds requires nothing. -/
theorem require_bind {condition : Prop} (h : condition) (L : Language τ α) :
    (require condition >>= fun _ => L) = L := by
  funext taken value
  apply propext
  constructor
  · rintro ⟨first, second, _, rfl, ⟨rfl, -⟩, hL⟩
    exact hL
  · intro hL
    exact ⟨[], taken, (), rfl, ⟨rfl, h⟩, hL⟩

/-- Repeat the body: `inl` goes on, `inr` leaves. -/
inductive loop (body : κ → Language τ (κ ⊕ α)) : κ → Language τ α where
  | leave {k : κ} {taken : List τ} {a : α} (last : body k taken (.inr a)) : loop body k taken a
  | again {k k' : κ} {first rest : List τ} {a : α} (turn : body k first (.inl k'))
      (later : loop body k' rest a) : loop body k (first ++ rest) a

/-- Every word of `L` is one of `M`. -/
def Within (L M : Language τ α) : Prop := ∀ taken a, L taken a → M taken a

section Within

variable {L L' : Language τ α} {K K' : α → Language τ β}

theorem Within.refl (L : Language τ α) : Within L L := fun _ _ h => h

theorem Within.bind (hL : Within L L') (hK : ∀ a, Within (K a) (K' a)) :
    Within (L >>= K) (L' >>= K') := by
  rintro taken b ⟨first, second, a, rfl, hFirst, hSecond⟩
  exact ⟨first, second, a, rfl, hL _ _ hFirst, hK a _ _ hSecond⟩

theorem Within.ite {c : Prop} [Decidable c] {M M' : Language τ α} (hL : Within L L')
    (hM : Within M M') : Within (if c then L else M) (if c then L' else M') := by
  split
  · exact hL
  · exact hM

theorem Within.require {condition condition' : Prop} (h : condition → condition') :
    Within (require condition : Language τ Unit) (require condition') :=
  fun _ _ hTaken => ⟨hTaken.1, h hTaken.2⟩

theorem Within.loop {body body' : κ → Language τ (κ ⊕ α)}
    (hBody : ∀ k, Within (body k) (body' k)) (k : κ) :
    Within (loop body k) (loop body' k) := by
  intro taken a h
  induction h with
  | leave last => exact .leave (hBody _ _ _ last)
  | again turn later ih => exact .again (hBody _ _ _ turn) ih

end Within

/-- The values that some tokens lead to. -/
def image (L : Language τ α) : Set α := fun value => ∃ taken, L taken value

section Image

variable {L : Language τ α} {K : α → Language τ β} {a : α} {b : β}

@[simp] theorem image_pure : image (pure a : Language τ α) = {a} := by
  funext value
  apply propext
  constructor
  · rintro ⟨taken, -, hValue⟩
    exact hValue
  · intro hValue
    exact ⟨[], rfl, hValue⟩

theorem mem_image_bind : b ∈ image (L >>= K) ↔ ∃ a ∈ image L, b ∈ image (K a) := by
  constructor
  · rintro ⟨taken, first, second, a, -, hFirst, hSecond⟩
    exact ⟨a, ⟨first, hFirst⟩, second, hSecond⟩
  · rintro ⟨a, ⟨first, hFirst⟩, second, hSecond⟩
    exact ⟨first ++ second, first, second, a, rfl, hFirst, hSecond⟩

theorem mem_image_token {accept : τ → Prop} {f : τ → α} :
    a ∈ image (token accept f) ↔ ∃ t, accept t ∧ a = f t := by
  constructor
  · rintro ⟨taken, t, -, hAccept, hValue⟩
    exact ⟨t, hAccept, hValue⟩
  · rintro ⟨t, hAccept, hValue⟩
    exact ⟨[t], t, rfl, hAccept, hValue⟩

theorem mem_image_require {condition : Prop} {u : Unit} :
    u ∈ image (require condition : Language τ Unit) ↔ condition :=
  ⟨fun ⟨_, hTaken⟩ => hTaken.2, fun h => ⟨[], rfl, h⟩⟩

theorem image_loop_leave {body : κ → Language τ (κ ⊕ α)} {k : κ}
    (h : .inr a ∈ image (body k)) : a ∈ image (loop body k) := by
  obtain ⟨taken, last⟩ := h
  exact ⟨taken, .leave last⟩

theorem image_loop_again {body : κ → Language τ (κ ⊕ α)} {k k' : κ}
    (hTurn : .inl k' ∈ image (body k)) (hLater : a ∈ image (loop body k')) :
    a ∈ image (loop body k) := by
  obtain ⟨first, turn⟩ := hTurn
  obtain ⟨rest, later⟩ := hLater
  exact ⟨first ++ rest, .again turn later⟩

theorem mem_image_loop {body : κ → Language τ (κ ⊕ α)} {k : κ} :
    a ∈ image (loop body k) ↔ ∃ k', Relation.ReflTransGen
      (fun k k' => .inl k' ∈ image (body k)) k k' ∧ .inr a ∈ image (body k') := by
  constructor
  · rintro ⟨taken, hLoop⟩
    induction hLoop with
    | leave last => exact ⟨_, .refl, _, last⟩
    | again turn later ih =>
        obtain ⟨k', hTurns, hLast⟩ := ih
        exact ⟨k', .head ⟨_, turn⟩ hTurns, hLast⟩
  · rintro ⟨k', hTurns, hLast⟩
    induction hTurns using Relation.ReflTransGen.head_induction_on with
    | refl => exact image_loop_leave hLast
    | head hTurn _ ih => exact image_loop_again hTurn ih

/-- An invariant of the loop's variable holds of it when the loop is left. -/
theorem loop_invariant {body : κ → Language τ (κ ⊕ α)} (inv : κ → Prop) (post : α → Prop)
    (hAgain : ∀ k k', inv k → .inl k' ∈ image (body k) → inv k')
    (hLeave : ∀ k a, inv k → .inr a ∈ image (body k) → post a) {k : κ} (hInv : inv k)
    (h : a ∈ image (loop body k)) : post a := by
  obtain ⟨k', hTurns, hLast⟩ := mem_image_loop.mp h
  refine hLeave k' a ?_ hLast
  clear hLast
  induction hTurns with
  | refl => exact hInv
  | tail _ hTurn ih => exact hAgain _ _ ih hTurn

end Image

end Language

namespace Program

variable {ε σ τ α β κ : Type} (left : σ → List τ)

/-- However the program returns, the tokens it took and its value are of the
language. -/
def Reads (p : Program ε σ α) (L : Language τ α) : Prop :=
  ∀ world, p.Ensures world (andThen
    (fun a world' => ∃ taken, left world = taken ++ left world' ∧ L taken a) fun _ _ => True)

/-- With enough fuel the program takes exactly these tokens and returns the value. -/
def Yields (p : Program ε σ α) (taken : List τ) (a : α) : Prop :=
  ∃ enough, ∀ fuel ≥ enough, ∀ world rest, left world = taken ++ rest →
    ∃ world', p fuel world = some (.ok a, world') ∧ left world' = rest

/-- The program is a reader of the language. -/
structure Exact (p : Program ε σ α) (L : Language τ α) : Prop where
  reads : Reads left p L
  yields : ∀ taken a, L taken a → Yields left p taken a

variable {left} {p : Program ε σ α} {L : Language τ α}

theorem exact_pure (a : α) : Exact left (pure a : Program ε σ α) (pure a) where
  reads := fun _ => ensures_pure a ⟨[], rfl, rfl, rfl⟩
  yields := by
    rintro taken value ⟨rfl, rfl⟩
    exact ⟨0, fun fuel _ world rest hLeft => ⟨world, rfl, hLeft⟩⟩

theorem exact_throw (e : ε) : Exact left (throw e : Program ε σ α) Language.fail where
  reads := fun _ => ensures_throw e trivial
  yields := fun _ _ h => h.elim

/-- What returns without taking tokens makes no difference. -/
theorem exact_silent {q : Program ε σ β} {M : Language τ β}
    (hSilent : ∀ fuel world, ∃ a world', p fuel world = some (.ok a, world') ∧
      left world' = left world) (hq : Exact left q M) : Exact left (p >>= fun _ => q) M where
  reads := by
    intro world fuel result world' hEnd
    obtain ⟨a, middle, hFirst, hSame⟩ := hSilent fuel world
    rw [bind_of_ok hFirst] at hEnd
    rw [← hSame]
    exact hq.reads middle fuel result world' hEnd
  yields := by
    intro taken b hM
    obtain ⟨enough, hYields⟩ := hq.yields taken b hM
    refine ⟨enough, fun fuel hFuel world rest hLeft => ?_⟩
    obtain ⟨a, middle, hFirst, hSame⟩ := hSilent fuel world
    rw [bind_of_ok hFirst]
    exact hYields fuel hFuel middle rest (hSame.trans hLeft)

theorem exact_modify {f : σ → σ} (hLeft : ∀ world, left (f world) = left world) :
    Exact left (modify f : Program ε σ Unit) (pure ()) := by
  have hUnit : Exact left (pure () : Program ε σ Unit) (pure ()) := exact_pure ()
  have hSilent := exact_silent (p := modify f) (fun fuel world => ⟨(), f world, rfl, hLeft world⟩)
    hUnit
  rwa [bind_pure_unit] at hSilent

theorem exact_bind {k : α → Program ε σ β} {K : α → Language τ β} (hp : Exact left p L)
    (hk : ∀ a, Exact left (k a) (K a)) : Exact left (p >>= k) (L >>= K) where
  reads := by
    intro world
    refine ensures_bind ((hp.reads world).mono ?_)
    rintro (e | a) middle hFirst
    · trivial
    obtain ⟨first, hTaken, hL⟩ := hFirst
    refine ((hk a).reads middle).mono ?_
    rintro (e | b) world' hSecond
    · trivial
    obtain ⟨second, hTaken', hK⟩ := hSecond
    refine ⟨first ++ second, ?_, first, second, a, rfl, hL, hK⟩
    rw [hTaken, hTaken', List.append_assoc]
  yields := by
    rintro taken b ⟨first, second, a, rfl, hL, hK⟩
    obtain ⟨enough, hFirst⟩ := hp.yields first a hL
    obtain ⟨enough', hSecond⟩ := (hk a).yields second b hK
    refine ⟨max enough enough', fun fuel hFuel world rest hLeft => ?_⟩
    rw [List.append_assoc] at hLeft
    obtain ⟨middle, hEnd, hMiddle⟩ := hFirst fuel (by omega) world _ hLeft
    rw [bind_of_ok hEnd]
    exact hSecond fuel (by omega) middle rest hMiddle

/-- The budget for iterations is kept apart from the fuel of the body. -/
private theorem iterate_yields {body : κ → Program ε σ (κ ⊕ α)} {B : κ → Language τ (κ ⊕ α)}
    (hBody : ∀ k, Exact left (body k) (B k)) {k : κ} {taken : List τ} {a : α}
    (h : Language.loop B k taken a) : ∃ enough, ∀ fuel ≥ enough, ∀ budget ≥ enough,
      ∀ world rest, left world = taken ++ rest →
        ∃ world', iterate body fuel budget k world = some (.ok a, world') ∧ left world' = rest := by
  induction h with
  | leave last =>
      obtain ⟨enough, hLast⟩ := (hBody _).yields _ _ last
      refine ⟨enough + 1, fun fuel hFuel budget hBudget world rest hLeft => ?_⟩
      obtain ⟨budget, rfl⟩ := Nat.exists_eq_add_of_lt hBudget
      obtain ⟨world', hEnd, hRest⟩ := hLast fuel (by omega) world rest hLeft
      refine ⟨world', ?_, hRest⟩
      rw [iterate, hEnd]
  | again turn later ih =>
      obtain ⟨enough, hTurn⟩ := (hBody _).yields _ _ turn
      obtain ⟨enough', hLater⟩ := ih
      refine ⟨max enough enough' + 1, fun fuel hFuel budget hBudget world rest hLeft => ?_⟩
      obtain ⟨budget, rfl⟩ := Nat.exists_eq_add_of_lt hBudget
      rw [List.append_assoc] at hLeft
      obtain ⟨middle, hEnd, hMiddle⟩ := hTurn fuel (by omega) world _ hLeft
      rw [iterate, hEnd]
      exact hLater fuel (by omega) _ (by omega) middle rest hMiddle

theorem exact_loop {body : κ → Program ε σ (κ ⊕ α)} {B : κ → Language τ (κ ⊕ α)}
    (hBody : ∀ k, Exact left (body k) (B k)) (k : κ) :
    Exact left (loop body k) (Language.loop B k) where
  reads := by
    intro world
    refine ensures_loop (fun k' middle => ∃ taken, left world = taken ++ left middle ∧
      ∀ rest a, Language.loop B k' rest a → Language.loop B k (taken ++ rest) a)
      ⟨[], rfl, fun _ _ h => h⟩ ?_
    rintro k' middle ⟨taken, hTaken, hSoFar⟩
    refine ((hBody k').reads middle).mono ?_
    rintro (e | next) world' hNext
    · trivial
    obtain ⟨more, hMore, hB⟩ := hNext
    have hAll : left world = (taken ++ more) ++ left world' := by
      rw [hTaken, hMore, List.append_assoc]
    rcases next with k'' | a
    · refine ⟨taken ++ more, hAll, fun rest a hRest => ?_⟩
      rw [List.append_assoc]
      exact hSoFar _ _ (.again hB hRest)
    · exact ⟨taken ++ more, hAll, hSoFar _ _ (.leave hB)⟩
  yields := by
    intro taken a h
    obtain ⟨enough, hEnough⟩ := iterate_yields hBody h
    exact ⟨enough, fun fuel hFuel => hEnough fuel hFuel fuel hFuel⟩

theorem exact_ite {c : Prop} [Decidable c] {q : Program ε σ α} {M : Language τ α}
    (hp : c → Exact left p L) (hq : ¬c → Exact left q M) :
    Exact left (if c then p else q) (if c then L else M) := by
  split
  · exact hp ‹_›
  · exact hq ‹_›

end Program
end Logic
