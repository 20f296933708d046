import HegelCpp.Logic.Program

/-! Programs that carry a ghost state beside their world. The ghost observes
the run and never decides anything, so it can be erased. -/
namespace Logic.Program

variable {ε σ τ α β κ : Type}

/-- Run a program beside a ghost it does not touch. -/
def lift (p : Program ε σ α) : Program ε (σ × τ) α :=
  fun fuel state => (p fuel state.1).map fun ending => (ending.1, (ending.2, state.2))

/-- Change the ghost only. -/
def tell (f : τ → τ) : Program ε (σ × τ) Unit := modify fun state => (state.1, f state.2)

/-- Run a program and let the ghost see the value it returns. -/
def observe (p : Program ε σ α) (f : α → τ → τ) : Program ε (σ × τ) α := do
  let a ← lift p
  tell (f a)
  pure a

/-- `q` is what remains of `p` without its ghost. -/
def Erases (p : Program ε (σ × τ) α) (q : Program ε σ α) : Prop :=
  ∀ fuel world ghost,
    (p fuel (world, ghost)).map (fun ending => (ending.1, ending.2.1)) = q fuel world

namespace Erases

variable {p : Program ε (σ × τ) α} {q : Program ε σ α}

protected theorem pure (a : α) :
    Erases (pure a : Program ε (σ × τ) α) (pure a) := fun _ _ _ => rfl

protected theorem throw (e : ε) :
    Erases (throw e : Program ε (σ × τ) α) (throw e) := fun _ _ _ => rfl

protected theorem lift (q : Program ε σ α) : Erases (lift q : Program ε (σ × τ) α) q := by
  intro fuel world ghost
  unfold Program.lift
  cases q fuel world <;> rfl

protected theorem bind {k : α → Program ε (σ × τ) β} {k' : α → Program ε σ β}
    (h : Erases p q) (hk : ∀ a, Erases (k a) (k' a)) : Erases (p >>= k) (q >>= k') := by
  intro fuel world ghost
  change (Program.bind p k fuel (world, ghost)).map _ = Program.bind q k' fuel world
  have hFirst := h fuel world ghost
  unfold Program.bind
  rw [← hFirst]
  cases hEnd : p fuel (world, ghost) with
  | none => rfl
  | some ending =>
      obtain ⟨result, world', ghost'⟩ := ending
      cases result with
      | error e => rfl
      | ok a => exact hk a fuel world' ghost'

/-- The value may hold more than what remains of it. -/
protected theorem bindMap {γ : Type} {f : α → γ} {q : Program ε σ γ}
    {k : α → Program ε (σ × τ) β} {k' : γ → Program ε σ β} (h : Erases (f <$> p) q)
    (hk : ∀ a, Erases (k a) (k' (f a))) : Erases (p >>= k) (q >>= k') := by
  intro fuel world ghost
  have hFirst := h fuel world ghost
  change (Program.bind p (fun a => pure (f a)) fuel (world, ghost)).map _ = _ at hFirst
  change (Program.bind p k fuel (world, ghost)).map _ = Program.bind q k' fuel world
  unfold Program.bind at hFirst ⊢
  cases hEnd : p fuel (world, ghost) with
  | none =>
      simp only [hEnd] at hFirst
      rw [← hFirst]
      rfl
  | some ending =>
      obtain ⟨result, world', ghost'⟩ := ending
      simp only [hEnd] at hFirst
      rw [← hFirst]
      cases result with
      | error e => rfl
      | ok a => exact hk a fuel world' ghost'

protected theorem observe (q : Program ε σ α) (f : α → τ → τ) : Erases (observe q f) q := by
  intro fuel world ghost
  change (Program.bind (Program.lift q) _ fuel (world, ghost)).map _ = _
  unfold Program.bind Program.lift
  cases hEnd : q fuel world with
  | none => rfl
  | some ending =>
      obtain ⟨result, world'⟩ := ending
      cases result <;> rfl

protected theorem tryCatch {handler : ε → Program ε (σ × τ) α} {handler' : ε → Program ε σ α}
    (h : Erases p q) (hHandler : ∀ e, Erases (handler e) (handler' e)) :
    Erases (p.tryCatch handler) (q.tryCatch handler') := by
  intro fuel world ghost
  have hFirst := h fuel world ghost
  unfold Program.tryCatch
  rw [← hFirst]
  cases hEnd : p fuel (world, ghost) with
  | none => rfl
  | some ending =>
      obtain ⟨result, world', ghost'⟩ := ending
      cases result with
      | error e => exact hHandler e fuel world' ghost'
      | ok a => rfl

/-- The iterations correspond one by one. -/
private theorem iterate {body : κ → Program ε (σ × τ) (κ ⊕ α)} {body' : κ → Program ε σ (κ ⊕ α)}
    (h : ∀ k, Erases (body k) (body' k)) (fuel budget : Nat) (k : κ) (world : σ) (ghost : τ) :
    (Program.iterate body fuel budget k (world, ghost)).map
      (fun ending => (ending.1, ending.2.1)) = Program.iterate body' fuel budget k world := by
  induction budget generalizing k world ghost with
  | zero => rfl
  | succ budget ih =>
      have hFirst := h k fuel world ghost
      unfold Program.iterate
      rw [← hFirst]
      cases hEnd : body k fuel (world, ghost) with
      | none => rfl
      | some ending =>
          obtain ⟨result, world', ghost'⟩ := ending
          cases result with
          | error e => rfl
          | ok next =>
              cases next with
              | inl k' => exact ih k' world' ghost'
              | inr a => rfl

protected theorem loop {body : κ → Program ε (σ × τ) (κ ⊕ α)}
    {body' : κ → Program ε σ (κ ⊕ α)} (h : ∀ k, Erases (body k) (body' k)) (k : κ) :
    Erases (loop body k) (loop body' k) :=
  fun fuel world ghost => iterate h fuel fuel k world ghost

protected theorem ite {c : Prop} [Decidable c] {p' : Program ε (σ × τ) α} {q' : Program ε σ α}
    (h : Erases p q) (h' : Erases p' q') : Erases (if c then p else p') (if c then q else q') := by
  split
  · exact h
  · exact h'

/-- What every run with the ghost ensures about the world holds without it. -/
theorem ensures {world : σ} {ghost : τ} {post : Except ε α → σ → Prop} (h : Erases p q)
    (hEnsures : p.Ensures (world, ghost) fun result state => post result state.1) :
    q.Ensures world post := by
  intro fuel result world' hEnd
  rw [← h fuel world ghost] at hEnd
  obtain ⟨⟨result', state⟩, hEnd', hSame⟩ := Option.map_eq_some_iff.mp hEnd
  cases hSame
  exact hEnsures fuel _ _ hEnd'

end Erases

section Rules

variable {world : σ} {ghost : τ}

theorem ensures_lift {p : Program ε σ α} {post : Except ε α → σ × τ → Prop}
    (h : p.Ensures world fun result world' => post result (world', ghost)) :
    (lift p : Program ε (σ × τ) α).Ensures (world, ghost) post := by
  intro fuel result state hEnd
  obtain ⟨ending, hEnd', hSame⟩ := Option.map_eq_some_iff.mp hEnd
  cases hSame
  exact h fuel _ _ hEnd'

theorem ensures_tell {f : τ → τ} {post : Except ε Unit → σ × τ → Prop}
    (h : post (.ok ()) (world, f ghost)) :
    (tell f : Program ε (σ × τ) Unit).Ensures (world, ghost) post :=
  ensures_modify _ h

theorem ensures_observe {p : Program ε σ α} {f : α → τ → τ} {post : Except ε α → σ × τ → Prop}
    (h : p.Ensures world (andThen (fun a world' => post (.ok a) (world', f a ghost))
      (fun e world' => post (.error e) (world', ghost)))) :
    (observe p f).Ensures (world, ghost) post := by
  refine ensures_bind (ensures_lift (h.mono ?_))
  rintro (e | a) world' hEnd
  · exact hEnd
  · exact ensures_bind (ensures_tell (ensures_pure a hEnd))

theorem Bounded.lift {size : σ → Nat} {p : Program ε σ α} (hp : Bounded size p) :
    Bounded (fun state : σ × τ => size state.1) (lift p : Program ε (σ × τ) α) where
  shrinks := fun state => ensures_lift (hp.shrinks state.1)
  ends := by
    intro fuel state hFuel
    obtain ⟨result, world', hEnd⟩ := hp.ends fuel state.1 hFuel
    exact ⟨result, (world', state.2), by rw [Program.lift, hEnd]; rfl⟩

theorem Bounded.observe {size : σ → Nat} {p : Program ε σ α} (hp : Bounded size p)
    (f : α → τ → τ) : Bounded (fun state : σ × τ => size state.1) (observe p f) :=
  bounded_bind hp.lift fun a =>
    bounded_bind (bounded_modify fun _ => Nat.le_refl _) fun _ => bounded_pure a

theorem Erases.bounded {size : σ → Nat} {p : Program ε (σ × τ) α} {q : Program ε σ α}
    (h : Erases p q) (hp : Bounded (fun state : σ × τ => size state.1) p) (ghost : τ) :
    Bounded size q where
  shrinks := fun world => h.ensures (hp.shrinks (world, ghost))
  ends := by
    intro fuel world hFuel
    obtain ⟨result, state, hEnd⟩ := hp.ends fuel (world, ghost) hFuel
    exact ⟨result, state.1, by rw [← h fuel world ghost, hEnd]; rfl⟩

end Rules
end Logic.Program
