import Mathlib.Logic.Function.Basic
import Mathlib.Order.Defs.PartialOrder

/-! Imperative programs with exceptions, a world that survives an exception,
and unbounded loops. A program is run with some fuel for its loops; `none`
means that the fuel ran out, so it says nothing about how the program ends.
`Ensures` speaks about every way the program can end, whatever the fuel. -/
namespace Logic

/-- A program over worlds `σ` that returns an `α` or throws an `ε`. The world
is kept in both cases, as it is when an exception unwinds. -/
def Program (ε σ α : Type) : Type := Nat → σ → Option (Except ε α × σ)

namespace Program

variable {ε σ α β κ : Type}

protected def pure (a : α) : Program ε σ α := fun _ world => some (.ok a, world)

protected def bind (p : Program ε σ α) (k : α → Program ε σ β) : Program ε σ β :=
  fun fuel world => match p fuel world with
    | none => none
    | some (.ok a, world') => k a fuel world'
    | some (.error e, world') => some (.error e, world')

instance : Monad (Program ε σ) where
  pure := Program.pure
  bind := Program.bind

def throw (e : ε) : Program ε σ α := fun _ world => some (.error e, world)

/-- The handler starts in the world the exception left behind. -/
def tryCatch (p : Program ε σ α) (handler : ε → Program ε σ α) : Program ε σ α :=
  fun fuel world => match p fuel world with
    | none => none
    | some (.ok a, world') => some (.ok a, world')
    | some (.error e, world') => handler e fuel world'

def get : Program ε σ σ := fun _ world => some (.ok world, world)

def modify (f : σ → σ) : Program ε σ Unit := fun _ world => some (.ok (), f world)

/-- The iterations of a loop that are still allowed to start. -/
def iterate (body : κ → Program ε σ (κ ⊕ α)) (fuel : Nat) :
    Nat → κ → σ → Option (Except ε α × σ)
  | 0, _, _ => none
  | n + 1, k, world => match body k fuel world with
    | none => none
    | some (.error e, world') => some (.error e, world')
    | some (.ok (.inl k'), world') => iterate body fuel n k' world'
    | some (.ok (.inr a), world') => some (.ok a, world')

/-- Repeat the body from loop variable `k`: `inl` goes on, `inr` leaves. -/
def loop (body : κ → Program ε σ (κ ⊕ α)) (k : κ) : Program ε σ α :=
  fun fuel world => iterate body fuel fuel k world

/-- A program that never ends. -/
def diverge : Program ε σ α := fun _ _ => none

section Runs

variable {p : Program ε σ α} {fuel : Nat} {world world' : σ} {a : α} {e : ε}

theorem bind_of_ok {k : α → Program ε σ β} (h : p fuel world = some (.ok a, world')) :
    (p >>= k) fuel world = k a fuel world' := by
  change Program.bind p k fuel world = _
  rw [Program.bind, h]

theorem bind_of_error {k : α → Program ε σ β} (h : p fuel world = some (.error e, world')) :
    (p >>= k) fuel world = some (.error e, world') := by
  change Program.bind p k fuel world = _
  rw [Program.bind, h]

theorem tryCatch_of_ok {handler : ε → Program ε σ α} (h : p fuel world = some (.ok a, world')) :
    p.tryCatch handler fuel world = some (.ok a, world') := by
  rw [tryCatch, h]

theorem tryCatch_of_error {handler : ε → Program ε σ α}
    (h : p fuel world = some (.error e, world')) :
    p.tryCatch handler fuel world = handler e fuel world' := by
  rw [tryCatch, h]

end Runs

instance : LawfulMonad (Program ε σ) := by
  refine LawfulMonad.mk' (Program ε σ) ?_ (fun _ _ => rfl) ?_
  · intro α p
    funext fuel world
    cases hEnd : p fuel world with
    | none =>
        change Program.bind p _ fuel world = _
        rw [Program.bind, hEnd]
    | some ending =>
        obtain ⟨result, world'⟩ := ending
        cases result with
        | ok a => exact bind_of_ok hEnd
        | error e => exact bind_of_error hEnd
  · intro α β γ p k l
    funext fuel world
    change Program.bind (Program.bind p k) l fuel world = Program.bind p _ fuel world
    simp only [Program.bind]
    cases p fuel world with
    | none => rfl
    | some ending =>
        obtain ⟨result, world'⟩ := ending
        cases result <;> rfl

/-- Every way in which `p` can end when it starts in `world` satisfies `post`. -/
def Ensures (p : Program ε σ α) (world : σ) (post : Except ε α → σ → Prop) : Prop :=
  ∀ fuel result world', p fuel world = some (result, world') → post result world'

/-- Continue with the value, or let the exception through. -/
def andThen (next : α → σ → Prop) (failed : ε → σ → Prop) : Except ε α → σ → Prop
  | .ok a, world => next a world
  | .error e, world => failed e world

@[simp] theorem andThen_ok (next : α → σ → Prop) (failed : ε → σ → Prop) (a : α) (world : σ) :
    andThen next failed (.ok a) world ↔ next a world := Iff.rfl

@[simp] theorem andThen_error (next : α → σ → Prop) (failed : ε → σ → Prop) (e : ε) (world : σ) :
    andThen next failed (.error e) world ↔ failed e world := Iff.rfl

variable {p : Program ε σ α} {world : σ} {post : Except ε α → σ → Prop}

theorem Ensures.mono {post' : Except ε α → σ → Prop} (h : p.Ensures world post)
    (hPost : ∀ result world', post result world' → post' result world') :
    p.Ensures world post' :=
  fun fuel result world' hEnd => hPost result world' (h fuel result world' hEnd)

theorem Ensures.and {post' : Except ε α → σ → Prop} (h : p.Ensures world post)
    (h' : p.Ensures world post') :
    p.Ensures world (fun result world' => post result world' ∧ post' result world') :=
  fun fuel result world' hEnd => ⟨h fuel result world' hEnd, h' fuel result world' hEnd⟩

theorem ensures_pure (a : α) (h : post (.ok a) world) :
    Ensures (pure a : Program ε σ α) world post := by
  intro fuel result world' hEnd
  cases hEnd
  exact h

theorem ensures_throw (e : ε) (h : post (.error e) world) :
    (throw e : Program ε σ α).Ensures world post := by
  intro fuel result world' hEnd
  cases hEnd
  exact h

theorem ensures_get {post : Except ε σ → σ → Prop} (h : post (.ok world) world) :
    (get : Program ε σ σ).Ensures world post := by
  intro fuel result world' hEnd
  cases hEnd
  exact h

theorem ensures_modify {post : Except ε Unit → σ → Prop} (f : σ → σ) (h : post (.ok ()) (f world)) :
    (modify f : Program ε σ Unit).Ensures world post := by
  intro fuel result world' hEnd
  cases hEnd
  exact h

theorem ensures_diverge : (diverge : Program ε σ α).Ensures world post := by
  intro fuel result world' hEnd
  cases hEnd

theorem ensures_bind {k : α → Program ε σ β} {post : Except ε β → σ → Prop}
    (h : p.Ensures world (andThen (fun a world' => (k a).Ensures world' post)
      (fun e world' => post (.error e) world'))) :
    Ensures (p >>= k) world post := by
  intro fuel result world' hEnd
  change Program.bind p k fuel world = _ at hEnd
  unfold Program.bind at hEnd
  split at hEnd
  · cases hEnd
  · rename_i a middle hFirst
    exact h fuel _ _ hFirst fuel result world' hEnd
  · rename_i e middle hFirst
    cases hEnd
    exact h fuel _ _ hFirst

theorem ensures_tryCatch {handler : ε → Program ε σ α}
    (h : p.Ensures world (andThen (fun a world' => post (.ok a) world')
      (fun e world' => (handler e).Ensures world' post))) :
    (p.tryCatch handler).Ensures world post := by
  intro fuel result world' hEnd
  unfold tryCatch at hEnd
  split at hEnd
  · cases hEnd
  · rename_i a middle hFirst
    cases hEnd
    exact h fuel _ _ hFirst
  · rename_i e middle hFirst
    exact h fuel _ _ hFirst fuel result world' hEnd

/-- The fuel of the body stays the same while the iterations are counted down. -/
private theorem ensures_iterate {body : κ → Program ε σ (κ ⊕ α)} (inv : κ → σ → Prop)
    (hBody : ∀ k world, inv k world → (body k).Ensures world
      (andThen (fun next world' => next.elim (fun k' => inv k' world')
        (fun a => post (.ok a) world')) (fun e world' => post (.error e) world')))
    (fuel budget : Nat) {k : κ} {world : σ} (hInv : inv k world) {result : Except ε α}
    {world' : σ} (hEnd : iterate body fuel budget k world = some (result, world')) :
    post result world' := by
  induction budget generalizing k world with
  | zero => cases hEnd
  | succ budget ih =>
      unfold iterate at hEnd
      split at hEnd
      · cases hEnd
      · rename_i e middle hFirst
        cases hEnd
        exact hBody k world hInv fuel _ _ hFirst
      · rename_i k' middle hFirst
        exact ih (hBody k world hInv fuel _ _ hFirst) hEnd
      · rename_i a middle hFirst
        cases hEnd
        exact hBody k world hInv fuel _ _ hFirst

/-- The invariant of the loop is a relation between its variable and the
world. It holds before every iteration and carries the exits with it. -/
theorem ensures_loop {body : κ → Program ε σ (κ ⊕ α)} (inv : κ → σ → Prop) {k : κ}
    (hInv : inv k world)
    (hBody : ∀ k world, inv k world → (body k).Ensures world
      (andThen (fun next world' => next.elim (fun k' => inv k' world')
        (fun a => post (.ok a) world')) (fun e world' => post (.error e) world'))) :
    (loop body k).Ensures world post := by
  intro fuel result world' hEnd
  exact ensures_iterate inv hBody fuel fuel hInv hEnd

theorem ensures_ite {c : Prop} [Decidable c] {q : Program ε σ α}
    (hThen : c → p.Ensures world post) (hElse : ¬ c → q.Ensures world post) :
    (if c then p else q).Ensures world post := by
  split
  · exact hThen ‹_›
  · exact hElse ‹_›

/-- However `p` ends, the world it leaves is related to the world it found. -/
def Preserves (R : σ → σ → Prop) (p : Program ε σ α) : Prop :=
  ∀ world, p.Ensures world (fun _ world' => R world world')

/-! A preorder on worlds that the primitive operations respect is respected by
everything that is built from them. -/
section Preorder
variable {R : σ → σ → Prop} (hRefl : ∀ world, R world world)
  (hTrans : ∀ ⦃a b c⦄, R a b → R b c → R a c)

include hRefl

theorem preserves_pure (a : α) : Preserves R (pure a : Program ε σ α) :=
  fun world => ensures_pure a (hRefl world)

theorem preserves_throw (e : ε) : Preserves R (throw e : Program ε σ α) :=
  fun world => ensures_throw e (hRefl world)

theorem preserves_get : Preserves R (get : Program ε σ σ) :=
  fun world => ensures_get (hRefl world)

omit hRefl
include hTrans

theorem preserves_bind {k : α → Program ε σ β} (hp : Preserves R p)
    (hk : ∀ a, Preserves R (k a)) : Preserves R (p >>= k) := by
  intro world
  refine ensures_bind ((hp world).mono ?_)
  rintro (e | a) world' hMiddle
  · exact hMiddle
  · exact (hk a world').mono fun _ _ hLast => hTrans hMiddle hLast

theorem preserves_tryCatch {handler : ε → Program ε σ α} (hp : Preserves R p)
    (hHandler : ∀ e, Preserves R (handler e)) : Preserves R (p.tryCatch handler) := by
  intro world
  refine ensures_tryCatch ((hp world).mono ?_)
  rintro (e | a) world' hMiddle
  · exact (hHandler e world').mono fun _ _ hLast => hTrans hMiddle hLast
  · exact hMiddle

include hRefl

theorem preserves_loop {body : κ → Program ε σ (κ ⊕ α)} (hBody : ∀ k, Preserves R (body k))
    (k : κ) : Preserves R (loop body k) := by
  intro world
  refine ensures_loop (fun _ world' => R world world') (hRefl world) ?_
  intro k middle hMiddle
  refine (hBody k middle).mono ?_
  rintro (e | next) world' hLast
  · exact hTrans hMiddle hLast
  · cases next <;> exact hTrans hMiddle hLast

end Preorder

theorem preserves_ite {R : σ → σ → Prop} {c : Prop} [Decidable c] {q : Program ε σ α}
    (hp : Preserves R p) (hq : Preserves R q) : Preserves R (if c then p else q) := by
  split
  · exact hp
  · exact hq

/-- A normal end of `p` is related to its start by `R`, an exceptional one by `E`. -/
def Ends (R E : σ → σ → Prop) (p : Program ε σ α) : Prop :=
  ∀ world, p.Ensures world (andThen (fun _ world' => R world world') (fun _ world' => E world world'))

/-! Exceptions may leave more behind than a return does. -/
section Ends
variable {R E : σ → σ → Prop}

theorem ends_pure (hRefl : ∀ world, R world world) (a : α) : Ends R E (pure a : Program ε σ α) :=
  fun world => ensures_pure a (hRefl world)

theorem ends_throw (hRefl : ∀ world, E world world) (e : ε) :
    Ends R E (throw e : Program ε σ α) :=
  fun world => ensures_throw e (hRefl world)

theorem ends_bind {k : α → Program ε σ β} (hTrans : ∀ ⦃a b c⦄, R a b → R b c → R a c)
    (hExn : ∀ ⦃a b c⦄, R a b → E b c → E a c) (hp : Ends R E p) (hk : ∀ a, Ends R E (k a)) :
    Ends R E (p >>= k) := by
  intro world
  refine ensures_bind ((hp world).mono ?_)
  rintro (e | a) middle hMiddle
  · exact hMiddle
  · refine (hk a middle).mono ?_
    rintro (e | b) world' hLast
    · exact hExn hMiddle hLast
    · exact hTrans hMiddle hLast

theorem ends_tryCatch {handler : ε → Program ε σ α} (hCaught : ∀ ⦃a b c⦄, E a b → R b c → R a c)
    (hAgain : ∀ ⦃a b c⦄, E a b → E b c → E a c) (hp : Ends R E p)
    (hHandler : ∀ e, Ends R E (handler e)) : Ends R E (p.tryCatch handler) := by
  intro world
  refine ensures_tryCatch ((hp world).mono ?_)
  rintro (e | a) middle hMiddle
  · refine (hHandler e middle).mono ?_
    rintro (e | a) world' hLast
    · exact hAgain hMiddle hLast
    · exact hCaught hMiddle hLast
  · exact hMiddle

theorem ends_loop {body : κ → Program ε σ (κ ⊕ α)} (hRefl : ∀ world, R world world)
    (hTrans : ∀ ⦃a b c⦄, R a b → R b c → R a c) (hExn : ∀ ⦃a b c⦄, R a b → E b c → E a c)
    (hBody : ∀ k, Ends R E (body k)) (k : κ) : Ends R E (loop body k) := by
  intro world
  refine ensures_loop (fun _ world' => R world world') (hRefl world) ?_
  intro k middle hMiddle
  refine (hBody k middle).mono ?_
  rintro (e | next) world' hLast
  · exact hExn hMiddle hLast
  · cases next <;> exact hTrans hMiddle hLast

theorem ends_ite {c : Prop} [Decidable c] {q : Program ε σ α} (hp : Ends R E p)
    (hq : Ends R E q) : Ends R E (if c then p else q) := by
  split
  · exact hp
  · exact hq

end Ends

/-- The program ends from every world. -/
def Total (p : Program ε σ α) : Prop :=
  ∀ fuel world, ∃ result world', p fuel world = some (result, world')

section Total

theorem total_pure (a : α) : Total (pure a : Program ε σ α) := fun _ world => ⟨.ok a, world, rfl⟩

theorem total_throw (e : ε) : Total (throw e : Program ε σ α) :=
  fun _ world => ⟨.error e, world, rfl⟩

theorem total_get : Total (get : Program ε σ σ) := fun _ world => ⟨.ok world, world, rfl⟩

theorem total_modify (f : σ → σ) : Total (modify f : Program ε σ Unit) :=
  fun _ world => ⟨.ok (), f world, rfl⟩

theorem total_bind {k : α → Program ε σ β} (hp : Total p) (hk : ∀ a, Total (k a)) :
    Total (p >>= k) := by
  intro fuel world
  obtain ⟨result, middle, hFirst⟩ := hp fuel world
  cases result with
  | ok a =>
      rw [bind_of_ok hFirst]
      exact hk a fuel middle
  | error e => exact ⟨_, _, bind_of_error hFirst⟩

theorem total_tryCatch {handler : ε → Program ε σ α} (hp : Total p)
    (hHandler : ∀ e, Total (handler e)) : Total (p.tryCatch handler) := by
  intro fuel world
  obtain ⟨result, middle, hFirst⟩ := hp fuel world
  cases result with
  | ok a => exact ⟨_, _, tryCatch_of_ok hFirst⟩
  | error e =>
      rw [tryCatch_of_error hFirst]
      exact hHandler e fuel middle

theorem total_ite {c : Prop} [Decidable c] {q : Program ε σ α} (hp : Total p) (hq : Total q) :
    Total (if c then p else q) := by
  split
  · exact hp
  · exact hq

/-- What a program that ends ensures does hold at its end. -/
theorem Total.ends (hp : Total p) (h : p.Ensures world post) (fuel : Nat) :
    ∃ result world', p fuel world = some (result, world') ∧ post result world' := by
  obtain ⟨result, world', hEnd⟩ := hp fuel world
  exact ⟨result, world', hEnd, h fuel result world' hEnd⟩

end Total

/-- The program leaves no larger world behind, and it ends once the fuel
exceeds the size of the world. -/
structure Bounded (size : σ → Nat) (p : Program ε σ α) : Prop where
  shrinks : Preserves (fun a b => size b ≤ size a) p
  ends : ∀ fuel world, size world < fuel → ∃ result world', p fuel world = some (result, world')

section Bounded

variable {size : σ → Nat}

theorem Total.bounded (hp : Total p)
    (hSize : Preserves (fun a b => size b ≤ size a) p) : Bounded size p :=
  ⟨hSize, fun fuel world _ => hp fuel world⟩

theorem bounded_pure (a : α) : Bounded size (pure a : Program ε σ α) :=
  (total_pure a).bounded fun _ => ensures_pure a (Nat.le_refl _)

theorem bounded_throw (e : ε) : Bounded size (throw e : Program ε σ α) :=
  (total_throw e).bounded fun _ => ensures_throw e (Nat.le_refl _)

theorem bounded_get : Bounded size (get : Program ε σ σ) :=
  total_get.bounded fun _ => ensures_get (Nat.le_refl _)

theorem bounded_modify {f : σ → σ} (hSize : ∀ world, size (f world) ≤ size world) :
    Bounded size (modify f : Program ε σ Unit) :=
  (total_modify f).bounded fun world => ensures_modify f (hSize world)

theorem le_size_trans ⦃a b c : σ⦄ (hab : size b ≤ size a) (hbc : size c ≤ size b) :
    size c ≤ size a := Nat.le_trans hbc hab

theorem bounded_bind {k : α → Program ε σ β} (hp : Bounded size p)
    (hk : ∀ a, Bounded size (k a)) : Bounded size (p >>= k) where
  shrinks := preserves_bind le_size_trans hp.shrinks fun a => (hk a).shrinks
  ends := by
    intro fuel world hFuel
    obtain ⟨result, middle, hFirst⟩ := hp.ends fuel world hFuel
    have hLe := hp.shrinks world fuel result middle hFirst
    cases result with
    | ok a =>
        rw [bind_of_ok hFirst]
        exact (hk a).ends fuel middle (Nat.lt_of_le_of_lt hLe hFuel)
    | error e => exact ⟨_, _, bind_of_error hFirst⟩

theorem bounded_tryCatch {handler : ε → Program ε σ α} (hp : Bounded size p)
    (hHandler : ∀ e, Bounded size (handler e)) : Bounded size (p.tryCatch handler) where
  shrinks := preserves_tryCatch le_size_trans hp.shrinks fun e => (hHandler e).shrinks
  ends := by
    intro fuel world hFuel
    obtain ⟨result, middle, hFirst⟩ := hp.ends fuel world hFuel
    have hLe := hp.shrinks world fuel result middle hFirst
    cases result with
    | ok a => exact ⟨_, _, tryCatch_of_ok hFirst⟩
    | error e =>
        rw [tryCatch_of_error hFirst]
        exact (hHandler e).ends fuel middle (Nat.lt_of_le_of_lt hLe hFuel)

theorem bounded_ite {c : Prop} [Decidable c] {q : Program ε σ α} (hp : Bounded size p)
    (hq : Bounded size q) : Bounded size (if c then p else q) := by
  split
  · exact hp
  · exact hq

/-- An iteration that goes on must leave a smaller world. -/
theorem bounded_loop {body : κ → Program ε σ (κ ⊕ α)} (hBody : ∀ k, Bounded size (body k))
    (hSmaller : ∀ k world, (body k).Ensures world fun result world' =>
      ∀ k', result = .ok (.inl k') → size world' < size world) (k : κ) :
    Bounded size (loop body k) where
  shrinks := preserves_loop (R := fun a b => size b ≤ size a) (fun _ => Nat.le_refl _)
    le_size_trans (fun k => (hBody k).shrinks) k
  ends := by
    intro fuel world hFuel
    -- The budget for iterations starts as the fuel and stays above the size.
    have hIterate (budget : Nat) : ∀ (k : κ) (world : σ), size world < budget →
        size world < fuel → ∃ ending, iterate body fuel budget k world = some ending := by
      induction budget with
      | zero => exact fun _ _ hBudget => absurd hBudget (Nat.not_lt_zero _)
      | succ budget ih =>
          intro k world hBudget hFuel
          obtain ⟨result, middle, hFirst⟩ := (hBody k).ends fuel world hFuel
          unfold iterate
          rw [hFirst]
          rcases result with e | k' | a
          · exact ⟨_, rfl⟩
          · have hLt := hSmaller k world fuel _ _ hFirst k' rfl
            exact ih k' middle (by omega) (by omega)
          · exact ⟨_, rfl⟩
    obtain ⟨⟨result, world'⟩, hEnd⟩ := hIterate fuel k world hFuel hFuel
    exact ⟨result, world', hEnd⟩

end Bounded

end Program
end Logic
