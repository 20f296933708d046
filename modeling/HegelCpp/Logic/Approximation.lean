import HegelCpp.Logic.Program

/-! A program approximates another if they end alike where the first one ends,
though the second may have more fuel. A program that approximates itself has one
ending, whatever fuel suffices for it. -/
namespace Logic
namespace Program

variable {ε σ α β κ : Type}

def Approximates (p q : Program ε σ α) : Prop :=
  ∀ fuel fuel' world ending, fuel ≤ fuel' → p fuel world = some ending →
    q fuel' world = some ending

variable {p q : Program ε σ α}

theorem approximates_of_diverge : Approximates diverge q := by
  intro fuel fuel' world ending _ hEnd
  cases hEnd

theorem approximates_pure (a : α) : Approximates (pure a : Program ε σ α) (pure a) :=
  fun _ _ _ _ _ hEnd => hEnd

theorem approximates_throw (e : ε) : Approximates (throw e : Program ε σ α) (throw e) :=
  fun _ _ _ _ _ hEnd => hEnd

theorem approximates_get : Approximates (get : Program ε σ σ) get := fun _ _ _ _ _ hEnd => hEnd

theorem approximates_modify (f : σ → σ) :
    Approximates (modify f : Program ε σ Unit) (modify f) := fun _ _ _ _ _ hEnd => hEnd

theorem approximates_bind {k k' : α → Program ε σ β} (hp : Approximates p q)
    (hk : ∀ a, Approximates (k a) (k' a)) : Approximates (p >>= k) (q >>= k') := by
  intro fuel fuel' world ending hLe hEnd
  cases hFirst : p fuel world with
  | none =>
      change Program.bind p k fuel world = _ at hEnd
      rw [Program.bind, hFirst] at hEnd
      cases hEnd
  | some first =>
      obtain ⟨result, middle⟩ := first
      have hFirst' := hp fuel fuel' world _ hLe hFirst
      cases result with
      | ok a =>
          rw [bind_of_ok hFirst] at hEnd
          rw [bind_of_ok hFirst']
          exact hk a fuel fuel' middle ending hLe hEnd
      | error e =>
          rw [bind_of_error hFirst] at hEnd
          rw [bind_of_error hFirst']
          exact hEnd

theorem approximates_tryCatch {handler handler' : ε → Program ε σ α} (hp : Approximates p q)
    (hHandler : ∀ e, Approximates (handler e) (handler' e)) :
    Approximates (p.tryCatch handler) (q.tryCatch handler') := by
  intro fuel fuel' world ending hLe hEnd
  cases hFirst : p fuel world with
  | none =>
      rw [tryCatch, hFirst] at hEnd
      cases hEnd
  | some first =>
      obtain ⟨result, middle⟩ := first
      have hFirst' := hp fuel fuel' world _ hLe hFirst
      cases result with
      | ok a =>
          rw [tryCatch_of_ok hFirst] at hEnd
          rw [tryCatch_of_ok hFirst']
          exact hEnd
      | error e =>
          rw [tryCatch_of_error hFirst] at hEnd
          rw [tryCatch_of_error hFirst']
          exact hHandler e fuel fuel' middle ending hLe hEnd

theorem approximates_ite {c : Prop} [Decidable c] {p' q' : Program ε σ α} (hp : Approximates p q)
    (hp' : Approximates p' q') : Approximates (if c then p else p') (if c then q else q') := by
  split
  · exact hp
  · exact hp'

theorem approximates_loop {body body' : κ → Program ε σ (κ ⊕ α)}
    (hBody : ∀ k, Approximates (body k) (body' k)) (k : κ) :
    Approximates (loop body k) (loop body' k) := by
  intro fuel fuel' world ending hLe hEnd
  -- The budget for iterations grows along with the fuel of the body.
  have hIterate (budget : Nat) : ∀ (budget' : Nat) (k : κ) (world : σ), budget ≤ budget' →
      iterate body fuel budget k world = some ending →
        iterate body' fuel' budget' k world = some ending := by
    induction budget with
    | zero =>
        intro budget' k world _ hEnd
        cases hEnd
    | succ budget ih =>
        intro budget' k world hBudget hEnd
        obtain ⟨budget', rfl⟩ := Nat.exists_eq_add_of_lt hBudget
        rw [iterate] at hEnd ⊢
        cases hFirst : body k fuel world with
        | none =>
            rw [hFirst] at hEnd
            cases hEnd
        | some first =>
            rw [hFirst] at hEnd
            rw [hBody k fuel fuel' world _ hLe hFirst]
            obtain ⟨result, middle⟩ := first
            rcases result with e | k' | a
            · exact hEnd
            · exact ih _ k' middle (by omega) hEnd
            · exact hEnd
  exact hIterate fuel fuel' k world hLe hEnd

end Program
end Logic
