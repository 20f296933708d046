import HegelCpp.Logic.Approximation

/-! Total correctness. A program halts from a world if it has one ending there,
for all the fuel from some bound on. What a program ensures then holds of that
ending. -/
namespace Logic
namespace Program

variable {ε σ α β κ : Type} {p : Program ε σ α} {world : σ} {size : σ → Nat} {limit : Nat}

def Halts (p : Program ε σ α) (world : σ) : Prop :=
  ∃ enough ending, ∀ fuel, enough ≤ fuel → p fuel world = some ending

theorem Halts.ensures (h : p.Halts world) {post : Except ε α → σ → Prop}
    (hPost : p.Ensures world post) :
    ∃ enough result world', (∀ fuel, enough ≤ fuel → p fuel world = some (result, world')) ∧
      post result world' := by
  obtain ⟨enough, ⟨result, world'⟩, hEnd⟩ := h
  exact ⟨enough, result, world', hEnd, hPost enough _ _ (hEnd enough (Nat.le_refl _))⟩

/-- More fuel does not change the ending of a program that approximates itself. -/
theorem Approximates.halts (hSelf : Approximates p p) {fuel : Nat} {ending : Except ε α × σ}
    (hEnd : p fuel world = some ending) : p.Halts world :=
  ⟨fuel, ending, fun _ hLe => hSelf fuel _ world ending hLe hEnd⟩

/-- The rest has to halt where the first part returns. -/
theorem halts_bind {k : α → Program ε σ β} (hp : p.Halts world)
    (hk : p.Ensures world (andThen (fun a world' => (k a).Halts world') fun _ _ => True)) :
    (p >>= k).Halts world := by
  obtain ⟨enough, result, middle, hFirst, hRest⟩ := hp.ensures hk
  cases result with
  | error e => exact ⟨enough, _, fun fuel hFuel => bind_of_error (hFirst fuel hFuel)⟩
  | ok a =>
      obtain ⟨enough', ending, hEnd⟩ := hRest
      refine ⟨max enough enough', ending, fun fuel hFuel => ?_⟩
      rw [bind_of_ok (hFirst fuel (Nat.le_trans (Nat.le_max_left ..) hFuel))]
      exact hEnd fuel (Nat.le_trans (Nat.le_max_right ..) hFuel)

theorem halts_tryCatch {handler : ε → Program ε σ α} (hp : p.Halts world)
    (hHandler : p.Ensures world
      (andThen (fun _ _ => True) fun e world' => (handler e).Halts world')) :
    (p.tryCatch handler).Halts world := by
  obtain ⟨enough, result, middle, hFirst, hRest⟩ := hp.ensures hHandler
  cases result with
  | ok a => exact ⟨enough, _, fun fuel hFuel => tryCatch_of_ok (hFirst fuel hFuel)⟩
  | error e =>
      obtain ⟨enough', ending, hEnd⟩ := hRest
      refine ⟨max enough enough', ending, fun fuel hFuel => ?_⟩
      rw [tryCatch_of_error (hFirst fuel (Nat.le_trans (Nat.le_max_left ..) hFuel))]
      exact hEnd fuel (Nat.le_trans (Nat.le_max_right ..) hFuel)

/-! Programs that halt in small worlds and leave no larger ones behind. -/

structure HaltsBelow (size : σ → Nat) (limit : Nat) (p : Program ε σ α) : Prop where
  shrinks : Preserves (fun a b => size b ≤ size a) p
  halts : ∀ world, size world < limit → p.Halts world

theorem Bounded.haltsBelow (hp : Bounded size p) (hSelf : Approximates p p) (limit : Nat) :
    HaltsBelow size limit p where
  shrinks := hp.shrinks
  halts := by
    intro world _
    obtain ⟨result, world', hEnd⟩ := hp.ends _ world (Nat.lt_succ_self (size world))
    exact hSelf.halts hEnd

theorem haltsBelow_pure (a : α) : HaltsBelow size limit (pure a : Program ε σ α) :=
  (bounded_pure a).haltsBelow (approximates_pure a) limit

theorem haltsBelow_throw (e : ε) : HaltsBelow size limit (throw e : Program ε σ α) :=
  (bounded_throw e).haltsBelow (approximates_throw e) limit

theorem haltsBelow_get : HaltsBelow size limit (get : Program ε σ σ) :=
  bounded_get.haltsBelow approximates_get limit

theorem haltsBelow_modify {f : σ → σ} (hSize : ∀ world, size (f world) ≤ size world) :
    HaltsBelow size limit (modify f : Program ε σ Unit) :=
  (bounded_modify hSize).haltsBelow (approximates_modify f) limit

theorem haltsBelow_bind {k : α → Program ε σ β} (hp : HaltsBelow size limit p)
    (hk : ∀ a, HaltsBelow size limit (k a)) : HaltsBelow size limit (p >>= k) where
  shrinks := preserves_bind le_size_trans hp.shrinks fun a => (hk a).shrinks
  halts := by
    intro world hLimit
    refine halts_bind (hp.halts world hLimit) ((hp.shrinks world).mono ?_)
    rintro (e | a) middle hLe
    · trivial
    · exact (hk a).halts middle (Nat.lt_of_le_of_lt hLe hLimit)

theorem haltsBelow_tryCatch {handler : ε → Program ε σ α} (hp : HaltsBelow size limit p)
    (hHandler : ∀ e, HaltsBelow size limit (handler e)) :
    HaltsBelow size limit (p.tryCatch handler) where
  shrinks := preserves_tryCatch le_size_trans hp.shrinks fun e => (hHandler e).shrinks
  halts := by
    intro world hLimit
    refine halts_tryCatch (hp.halts world hLimit) ((hp.shrinks world).mono ?_)
    rintro (e | a) middle hLe
    · exact (hHandler e).halts middle (Nat.lt_of_le_of_lt hLe hLimit)
    · trivial

theorem haltsBelow_ite {c : Prop} [Decidable c] {q : Program ε σ α} (hp : HaltsBelow size limit p)
    (hq : HaltsBelow size limit q) : HaltsBelow size limit (if c then p else q) := by
  split
  · exact hp
  · exact hq

/-- An iteration that goes on must leave a smaller world. -/
theorem haltsBelow_loop {body : κ → Program ε σ (κ ⊕ α)}
    (hBody : ∀ k, HaltsBelow size limit (body k))
    (hSmaller : ∀ k world, (body k).Ensures world fun result world' =>
      ∀ k', result = .ok (.inl k') → size world' < size world) (k : κ) :
    HaltsBelow size limit (loop body k) where
  shrinks := preserves_loop (R := fun a b => size b ≤ size a) (fun _ => Nat.le_refl _)
    le_size_trans (fun k => (hBody k).shrinks) k
  halts := by
    intro world hLimit
    -- By induction on the size: there is fuel for all the iterations that follow.
    have hIterate (bound : Nat) : ∀ (k : κ) (world : σ), size world < bound →
        size world < limit → ∃ enough ending, ∀ fuel budget, enough ≤ fuel → bound ≤ budget →
          iterate body fuel budget k world = some ending := by
      induction bound with
      | zero => exact fun _ _ hBound => absurd hBound (Nat.not_lt_zero _)
      | succ bound ih =>
          intro k world hBound hLimit
          obtain ⟨enough, result, middle, hFirst, hLess⟩ :=
            ((hBody k).halts world hLimit).ensures (hSmaller k world)
          rcases result with e | k' | a
          · refine ⟨enough, (.error e, middle), fun fuel budget hFuel hBudget => ?_⟩
            obtain ⟨budget, rfl⟩ := Nat.exists_eq_add_of_lt hBudget
            rw [iterate, hFirst fuel hFuel]
          · have hLt := hLess k' rfl
            obtain ⟨enough', ending, hEnd⟩ := ih k' middle (by omega) (by omega)
            refine ⟨max enough enough', ending, fun fuel budget hFuel hBudget => ?_⟩
            obtain ⟨budget, rfl⟩ := Nat.exists_eq_add_of_lt hBudget
            rw [iterate, hFirst fuel (Nat.le_trans (Nat.le_max_left ..) hFuel)]
            exact hEnd fuel _ (Nat.le_trans (Nat.le_max_right ..) hFuel) (Nat.le_add_right ..)
          · refine ⟨enough, (.ok a, middle), fun fuel budget hFuel hBudget => ?_⟩
            obtain ⟨budget, rfl⟩ := Nat.exists_eq_add_of_lt hBudget
            rw [iterate, hFirst fuel hFuel]
    obtain ⟨enough, ending, hEnd⟩ := hIterate (size world + 1) k world (Nat.lt_succ_self _) hLimit
    refine ⟨max enough (size world + 1), ending, fun fuel hFuel => ?_⟩
    exact hEnd fuel fuel (Nat.le_trans (Nat.le_max_left ..) hFuel)
      (Nat.le_trans (Nat.le_max_right ..) hFuel)

end Program
end Logic
