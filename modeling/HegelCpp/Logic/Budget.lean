import HegelCpp.Logic.Program

/-! Programs that end as long as their world is small. A program that pays before
it goes on only has to continue in smaller worlds, which is what makes a
recursion end. -/
namespace Logic
namespace Program

variable {ε σ α β κ : Type} {size : σ → Nat} {limit : Nat}

/-- The program leaves no larger world behind, and it ends from the worlds below
the limit, once the fuel exceeds their size. -/
structure EndsBelow (size : σ → Nat) (limit : Nat) (p : Program ε σ α) : Prop where
  shrinks : Preserves (fun a b => size b ≤ size a) p
  ends : ∀ fuel world, size world < limit → size world < fuel →
    ∃ result world', p fuel world = some (result, world')

/-- A return leaves a smaller world behind. -/
def Pays (size : σ → Nat) (p : Program ε σ α) : Prop :=
  ∀ world, p.Ensures world (andThen (fun _ world' => size world' < size world) fun _ _ => True)

variable {p : Program ε σ α} {k : α → Program ε σ β}

theorem Bounded.endsBelow (hp : Bounded size p) (limit : Nat) : EndsBelow size limit p :=
  ⟨hp.shrinks, fun fuel world _ hFuel => hp.ends fuel world hFuel⟩

/-- No world is below `0`. -/
theorem endsBelow_zero (hp : Preserves (fun a b => size b ≤ size a) p) : EndsBelow size 0 p :=
  ⟨hp, fun _ _ hLimit => absurd hLimit (Nat.not_lt_zero _)⟩

theorem EndsBelow.mono (hp : EndsBelow size limit p) {limit' : Nat} (hLe : limit' ≤ limit) :
    EndsBelow size limit' p :=
  ⟨hp.shrinks, fun fuel world hLimit => hp.ends fuel world (Nat.lt_of_lt_of_le hLimit hLe)⟩

theorem endsBelow_bind (hp : EndsBelow size limit p) (hk : ∀ a, EndsBelow size limit (k a)) :
    EndsBelow size limit (p >>= k) where
  shrinks := preserves_bind le_size_trans hp.shrinks fun a => (hk a).shrinks
  ends := by
    intro fuel world hLimit hFuel
    obtain ⟨result, middle, hFirst⟩ := hp.ends fuel world hLimit hFuel
    have hLe := hp.shrinks world fuel result middle hFirst
    cases result with
    | ok a =>
        rw [bind_of_ok hFirst]
        exact (hk a).ends fuel middle (Nat.lt_of_le_of_lt hLe hLimit)
          (Nat.lt_of_le_of_lt hLe hFuel)
    | error e => exact ⟨_, _, bind_of_error hFirst⟩

/-- After a program that pays, the rest starts in a smaller world. -/
theorem endsBelow_bind_of_pays (hp : EndsBelow size (limit + 1) p) (hPays : Pays size p)
    (hk : ∀ a, EndsBelow size limit (k a)) : EndsBelow size (limit + 1) (p >>= k) where
  shrinks := preserves_bind le_size_trans hp.shrinks fun a => (hk a).shrinks
  ends := by
    intro fuel world hLimit hFuel
    obtain ⟨result, middle, hFirst⟩ := hp.ends fuel world hLimit hFuel
    cases result with
    | ok a =>
        have hLess : size middle < size world := hPays world fuel _ middle hFirst
        rw [bind_of_ok hFirst]
        exact (hk a).ends fuel middle (by omega) (by omega)
    | error e => exact ⟨_, _, bind_of_error hFirst⟩

theorem endsBelow_tryCatch {handler : ε → Program ε σ α} (hp : EndsBelow size limit p)
    (hHandler : ∀ e, EndsBelow size limit (handler e)) :
    EndsBelow size limit (p.tryCatch handler) where
  shrinks := preserves_tryCatch le_size_trans hp.shrinks fun e => (hHandler e).shrinks
  ends := by
    intro fuel world hLimit hFuel
    obtain ⟨result, middle, hFirst⟩ := hp.ends fuel world hLimit hFuel
    have hLe := hp.shrinks world fuel result middle hFirst
    cases result with
    | ok a => exact ⟨_, _, tryCatch_of_ok hFirst⟩
    | error e =>
        rw [tryCatch_of_error hFirst]
        exact (hHandler e).ends fuel middle (Nat.lt_of_le_of_lt hLe hLimit)
          (Nat.lt_of_le_of_lt hLe hFuel)

theorem endsBelow_ite {c : Prop} [Decidable c] {q : Program ε σ α} (hp : EndsBelow size limit p)
    (hq : EndsBelow size limit q) : EndsBelow size limit (if c then p else q) := by
  split
  · exact hp
  · exact hq

/-- An iteration that goes on must leave a smaller world. -/
theorem endsBelow_loop {body : κ → Program ε σ (κ ⊕ α)} (hBody : ∀ k, EndsBelow size limit (body k))
    (hSmaller : ∀ k world, (body k).Ensures world fun result world' =>
      ∀ k', result = .ok (.inl k') → size world' < size world) (k : κ) :
    EndsBelow size limit (loop body k) where
  shrinks := preserves_loop (R := fun a b => size b ≤ size a) (fun _ => Nat.le_refl _)
    le_size_trans (fun k => (hBody k).shrinks) k
  ends := by
    intro fuel world hLimit hFuel
    -- The budget for iterations starts as the fuel and stays above the size.
    have hIterate (budget : Nat) : ∀ (k : κ) (world : σ), size world < budget →
        size world < limit → size world < fuel →
          ∃ ending, iterate body fuel budget k world = some ending := by
      induction budget with
      | zero => exact fun _ _ hBudget => absurd hBudget (Nat.not_lt_zero _)
      | succ budget ih =>
          intro k world hBudget hLimit hFuel
          obtain ⟨result, middle, hFirst⟩ := (hBody k).ends fuel world hLimit hFuel
          unfold iterate
          rw [hFirst]
          rcases result with e | k' | a
          · exact ⟨_, rfl⟩
          · have hLt := hSmaller k world fuel _ _ hFirst k' rfl
            exact ih k' middle (by omega) (by omega) (by omega)
          · exact ⟨_, rfl⟩
    obtain ⟨⟨result, world'⟩, hEnd⟩ := hIterate fuel k world hFuel hLimit hFuel
    exact ⟨result, world', hEnd⟩

theorem pays_bind (hp : Pays size p) (hk : ∀ a, Preserves (fun a b => size b ≤ size a) (k a)) :
    Pays size (p >>= k) := by
  intro world
  refine ensures_bind ((hp world).mono ?_)
  rintro (e | a) middle hLess
  · trivial
  · refine (hk a middle).mono ?_
    rintro (e | b) world' hLe
    · trivial
    · exact Nat.lt_of_le_of_lt hLe hLess

theorem pays_of_bind (hp : Preserves (fun a b => size b ≤ size a) p) (hk : ∀ a, Pays size (k a)) :
    Pays size (p >>= k) := by
  intro world
  refine ensures_bind ((hp world).mono ?_)
  rintro (e | a) middle hLe
  · trivial
  · refine (hk a middle).mono ?_
    rintro (e | b) world' hLess
    · trivial
    · exact Nat.lt_of_lt_of_le hLess hLe

theorem pays_tryCatch {handler : ε → Program ε σ α}
    (hShrinks : Preserves (fun a b => size b ≤ size a) p) (hp : Pays size p)
    (hHandler : ∀ e, Pays size (handler e)) : Pays size (p.tryCatch handler) := by
  intro world
  refine ensures_tryCatch (((hp world).and (hShrinks world)).mono ?_)
  rintro (e | a) middle ⟨hLess, hLe⟩
  · refine (hHandler e middle).mono ?_
    rintro (e | a) world' hLess
    · trivial
    · exact Nat.lt_of_lt_of_le hLess hLe
  · exact hLess

end Program
end Logic
