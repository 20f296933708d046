import HegelCpp.Logic.Program

/-! Two programs that do the same as far as a view of the world shows. The part
of the world outside of the view may differ, and decides nothing. -/
namespace Logic.Program

variable {ε σ τ α β κ : Type} {view : σ → τ}

/-- What one sees of a run of `p` through the view is the run of `q`. -/
def Projects (view : σ → τ) (p : Program ε σ α) (q : Program ε τ α) : Prop :=
  ∀ fuel world,
    (p fuel world).map (fun ending => (ending.1, view ending.2)) = q fuel (view world)

namespace Projects

variable {p : Program ε σ α} {q : Program ε τ α}

protected theorem pure (a : α) :
    Projects view (pure a : Program ε σ α) (pure a) := fun _ _ => rfl

protected theorem throw (e : ε) :
    Projects view (throw e : Program ε σ α) (throw e) := fun _ _ => rfl

protected theorem diverge : Projects view (diverge : Program ε σ α) diverge := fun _ _ => rfl

protected theorem modify {f : σ → σ} {g : τ → τ} (h : ∀ world, view (f world) = g (view world)) :
    Projects view (modify f : Program ε σ Unit) (modify g) := by
  intro fuel world
  simp [modify, h]

/-- A change outside of the view. -/
protected theorem silent {f : σ → σ} (h : ∀ world, view (f world) = view world) :
    Projects view (modify f : Program ε σ Unit) (pure ()) := by
  intro fuel world
  simp only [modify, Option.map_some, h]
  rfl

protected theorem bind {k : α → Program ε σ β} {l : α → Program ε τ β} (h : Projects view p q)
    (hk : ∀ a, Projects view (k a) (l a)) : Projects view (p >>= k) (q >>= l) := by
  intro fuel world
  have hFirst := h fuel world
  cases hEnd : p fuel world with
  | none =>
      rw [hEnd, Option.map_none] at hFirst
      change (Program.bind p k fuel world).map _ = Program.bind q l fuel (view world)
      rw [Program.bind, Program.bind, hEnd, ← hFirst]
      rfl
  | some ending =>
      obtain ⟨result, world'⟩ := ending
      rw [hEnd, Option.map_some] at hFirst
      cases result with
      | error e => rw [bind_of_error hEnd, bind_of_error hFirst.symm, Option.map_some]
      | ok a => rw [bind_of_ok hEnd, bind_of_ok hFirst.symm, hk a fuel world']

/-- Code that looks at the world may look at the view only. -/
protected theorem get_bind {k : σ → Program ε σ β} {l : τ → Program ε τ β}
    (hk : ∀ world, Projects view (k world) (l (view world))) :
    Projects view (get >>= k) (get >>= l) :=
  fun fuel world => hk world fuel world

protected theorem tryCatch {handler : ε → Program ε σ α} {handler' : ε → Program ε τ α}
    (h : Projects view p q) (hHandler : ∀ e, Projects view (handler e) (handler' e)) :
    Projects view (p.tryCatch handler) (q.tryCatch handler') := by
  intro fuel world
  have hFirst := h fuel world
  cases hEnd : p fuel world with
  | none =>
      rw [hEnd, Option.map_none] at hFirst
      rw [tryCatch, tryCatch, hEnd, ← hFirst]
      rfl
  | some ending =>
      obtain ⟨result, world'⟩ := ending
      rw [hEnd, Option.map_some] at hFirst
      cases result with
      | error e =>
          rw [tryCatch_of_error hEnd, tryCatch_of_error hFirst.symm, hHandler e fuel world']
      | ok a => rw [tryCatch_of_ok hEnd, tryCatch_of_ok hFirst.symm, Option.map_some]

/-- The iterations correspond one by one. -/
private theorem iterates {body : κ → Program ε σ (κ ⊕ α)} {body' : κ → Program ε τ (κ ⊕ α)}
    (h : ∀ k, Projects view (body k) (body' k)) (fuel budget : Nat) (k : κ) (world : σ) :
    (iterate body fuel budget k world).map (fun ending => (ending.1, view ending.2)) =
      iterate body' fuel budget k (view world) := by
  induction budget generalizing k world with
  | zero => rfl
  | succ budget ih =>
      have hFirst := h k fuel world
      rw [iterate, iterate, ← hFirst]
      cases hEnd : body k fuel world with
      | none => rfl
      | some ending =>
          obtain ⟨result, world'⟩ := ending
          cases result with
          | error e => rfl
          | ok next =>
              cases next with
              | inl k' => exact ih k' world'
              | inr a => rfl

protected theorem loop {body : κ → Program ε σ (κ ⊕ α)} {body' : κ → Program ε τ (κ ⊕ α)}
    (h : ∀ k, Projects view (body k) (body' k)) (k : κ) :
    Projects view (loop body k) (loop body' k) :=
  fun fuel world => iterates h fuel fuel k world

protected theorem ite {c : Prop} [Decidable c] {p' : Program ε σ α} {q' : Program ε τ α}
    (h : Projects view p q) (h' : Projects view p' q') :
    Projects view (if c then p else p') (if c then q else q') := by
  split
  · exact h
  · exact h'

end Projects
end Logic.Program
