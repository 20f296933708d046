import HegelCpp.Client.RunEffect

/-! Is the span stack restored after every absorbed reject? The compound draws
close their span only when their body returns. A reject that leaves one from
inside therefore keeps its span open, and the handler of `stateful::run` closes
that span in place of its own. -/
namespace Hegel

open Logic Program

variable {S : Type}

theorem clientEffect_respected : Respected (ClientEffect : World S → World S → Prop) where
  refl := fun world => Effect.refl world.machines world
  trans := fun _ _ _ => ClientEffect.trans
  answers := fun world rest _ => (Effect.refl _ world).touch rest _ _
  memory := fun world memory => (Effect.refl _ world).touch _ memory _
  note := fun world text => (Effect.refl _ world).noted _ text
  inSpan := fun _ _ _ hBody _ => inSpan_effect fun _ _ => hBody _
  repeatIteration := fun _ hBody world => repeatIteration_effect (hBody world)
  run := fun _ _ hRules => run_effect hRules

/-- The rejects that were absorbed, in order. -/
def absorptions (history : List (Event S)) : List Absorption :=
  history.filterMap fun
    | .absorbed x => some x
    | _ => none

theorem mem_absorptions {history : List (Event S)} {x : Absorption} :
    x ∈ absorptions history ↔ .absorbed x ∈ history := by
  unfold absorptions
  rw [List.mem_filterMap]
  constructor
  · rintro ⟨e, he, hx⟩
    cases e <;> simp_all
  · intro hx
    exact ⟨.absorbed x, hx, rfl⟩

/-- Every reject absorbed between `a` and `b` satisfies `P`. -/
def AbsorbedBetween (P : Absorption → Prop) (a b : World S) : Prop :=
  ∃ new, b.history = a.history ++ new ∧ ∀ x ∈ absorptions new, P x

theorem Effect.absorbedBetween {floor : Nat} {a b : World S} (h : Effect floor a b) :
    AbsorbedBetween (fun x => x.Restored ↔ x.interrupted = 0) a b := by
  obtain ⟨new, hNew, hAllowed⟩ := h.history
  exact ⟨new, hNew, fun x hx => hAllowed _ (mem_absorptions.mp hx)⟩

/-- The rules of a concurrent machine, given by client code. -/
def clientRules (slots : Code.Slots S) (depth : Nat)
    (rules : List (String × String × Code S Unit)) : List (ConcurrentRule S) :=
  rules.map fun (name, group, function) => { name, group, function := function.exec slots depth }

/-- Code that runs on the machine `handle` after it was created. -/
def Owned (handle : Nat) (a b : World S) : Prop := handle < a.machines → Effect handle a b

namespace Owned

variable {handle : Nat}

theorem refl (handle : Nat) (a : World S) : Owned handle a a := fun _ => Effect.refl handle a

theorem trans ⦃a b c : World S⦄ (hab : Owned handle a b) (hbc : Owned handle b c) :
    Owned handle a c := by
  intro hOwn
  have hFirst := hab hOwn
  exact hFirst.trans (hbc (Nat.lt_of_lt_of_le hOwn hFirst.machines_le))

variable {rules : List (ConcurrentRule S)}
  (hRules : ∀ rule ∈ rules, Preserves ClientEffect rule.function)
include hRules

/-- One rule of a worker. The span stack in the handler is the rule's own. -/
theorem preserves_runRoundRule : Preserves (Owned handle) (runRoundRule rules handle) := by
  intro world
  by_cases hOwn : handle < world.machines
  case neg => exact fun _ _ _ _ hOwn' => absurd hOwn' hOwn
  refine ensures_bind ((nextRule_calls handle world).mono ?_)
  rintro (e | index) middle hMiddle
  · exact fun _ => hMiddle.effect
  obtain ⟨⟨hAsked, -⟩, hOutstanding⟩ := hMiddle
  refine ensures_ite (fun _ => ensures_pure _ fun _ => hAsked) fun hNotDone => ?_
  have hTaken : middle.outstanding handle = true := by
    rw [hOutstanding]
    simpa using hNotDone
  have hOwn' : handle < middle.machines := Nat.lt_of_lt_of_le hOwn hAsked.machines_le
  cases hRule : ruleAt rules index with
  | none => exact ensures_throw _ fun _ => hAsked
  | some rule =>
      have hBody : Preserves (Kept handle) (noteIndentScope rule.function) :=
        Kept.preserves_noteIndentScope fun world =>
          (hRules rule (ruleAt_spec hRule).1 world).mono fun _ _ => Kept.of_client
      have hNoted := hAsked.noted middle.noteIndent ("Rule: " ++ rule.name)
      refine ensures_bind (ensures_note _ (ensures_bind (ensures_get (ensures_bind ?_))))
      refine ensures_tryCatch ((hBody _).mono ?_)
      rintro (e | _) world' hEnd
      · obtain ⟨⟨hInside, -⟩, hKept⟩ := hEnd hOwn'
        refine ensures_ite (fun _ => ?_) fun _ => ensures_throw _ fun _ => hNoted.trans hInside
        refine ensures_bind (ensures_ruleRejected (hKept.trans hTaken) (ensures_bind ?_))
        refine ensures_note _ (ensures_bind (ensures_get (ensures_record _ ?_)))
        have hReported := ((hInside.called .ruleRejected).event
          (e := .rejectedRule handle .ok) ⟨Nat.le_refl handle, rfl⟩).setOutstanding
            (Nat.le_refl handle) false
        refine ensures_pure _ fun _ => hNoted.trans ((hReported.noted _ _).event ?_)
        show _ ∧ _ ↔ _
        simpa using hInside.spans_eq_iff
      · exact ensures_pure _ fun _ => hNoted.trans (hEnd hOwn').1.effect

theorem preserves_runRound (capture : Exn → CapturedException) :
    Preserves (Owned handle) (runRound rules handle capture) := by
  refine preserves_tryCatch trans ?_ fun e => preserves_pure (refl handle) _
  exact preserves_loop (refl handle) trans (fun _ => preserves_runRoundRule hRules) ()

end Owned

/-- The span stack around every reject that library code absorbs: whatever
client code runs, also in rules and repeat bodies nested in each other, and
whatever the engine answers, it is restored exactly when no exception left a
compound draw of the absorbed body from inside. -/
theorem absorbed_restored_iff (slots : Code.Slots S) (depth : Nat) :
    (∀ {α : Type} (code : Code S α) (world : World S),
      (code.exec slots depth).Ensures world fun _ world' =>
      AbsorbedBetween (fun x => x.Restored ↔ x.interrupted = 0) world world') ∧
    (∀ (rules : List (String × String × Code S Unit)) (handle : Nat)
      (capture : Exn → CapturedException) (world : World S), handle < world.machines →
      (runRound (clientRules slots depth rules) handle capture).Ensures world fun _ world' =>
        AbsorbedBetween (fun x => x.Restored ↔ x.interrupted = 0) world world') := by
  constructor
  · intro α code world
    exact (clientEffect_respected.exec slots depth code world).mono fun _ _ hEnd =>
      Effect.absorbedBetween hEnd
  · intro rules handle capture world hOwn
    have hRules : ∀ rule ∈ clientRules slots depth rules, Preserves ClientEffect rule.function := by
      intro rule hRule
      obtain ⟨entry, _, rfl⟩ := List.mem_map.mp hRule
      exact clientEffect_respected.exec slots depth entry.2.2
    exact (Owned.preserves_runRound hRules capture world).mono fun _ _ hEnd =>
      (hEnd hOwn).absorbedBetween

/-! A machine whose only rule draws `vectors(booleans().filter(b => false))`. -/
section NeverFilter

def noSlots : Code.Slots Unit := fun _ _ => none

def neverFilterRule : Code Unit Unit :=
  .bind (.vectors (.filter .booleans fun _ => .ret false) {} none) fun _ => .ret ()

def neverFilterMachine : Code Unit Unit :=
  .run (fun _ : Fin 1 => "draw") (fun _ => neverFilterRule) [] (fun _ => .ok "") {}

/-- One round of one step: the collection asks for one element, and each of
the three attempts of the filter draws a boolean. -/
def neverFilterWorld : World Unit where
  answers := [{}, { int := 0 }, { int := 0 }, {}, {}, {}, { bool := true }, {}, {}, {}, {}, {}, {},
    { int := stateMachineDone }, { int := stateMachineDone }]
  memory := ()

/-- The handler closes the vector's span; the span of the step stays open. -/
private theorem neverFilter_run :
    ((neverFilterMachine.exec noSlots 0) 5 neverFilterWorld).map
        (fun r => absorptions r.2.history) =
      some [{ site := .run, before := [], after := [⟨.statefulRule, 0⟩]
              opened := some ⟨.statefulRule, 0⟩, closed := some ⟨.list, 1⟩, interrupted := 1 }] := by
  rfl

theorem not_every_absorption_restored :
    ¬ ∀ (code : Code Unit Unit) (world : World Unit),
      (code.exec noSlots 0).Ensures world fun _ world' =>
        AbsorbedBetween Absorption.Restored world world' := by
  intro hAll
  obtain ⟨⟨result, world'⟩, hEnd, hAbsorbed⟩ := Option.map_eq_some_iff.mp neverFilter_run
  obtain ⟨new, hNew, hRestored⟩ := hAll _ _ _ _ _ hEnd
  have hHistory : world'.history = new := hNew
  rw [hHistory] at hAbsorbed
  have hSame := (hRestored _ (hAbsorbed ▸ List.mem_singleton_self _)).1
  cases hSame

/-- The same rule for a worker of `run_concurrent`, on its own handle. -/
def neverFilterWorker : World Unit := { neverFilterWorld with machines := 1 }

theorem absorbed_restored_iff_neverFilter :
    (runRound (clientRules noSlots 0 [("draw", "g", neverFilterRule)]) 0 fun e =>
      { exception := e, origin := e.typeName }).Ensures neverFilterWorker fun _ world' =>
        AbsorbedBetween (fun x => x.Restored ↔ x.interrupted = 0) neverFilterWorker world' :=
  (absorbed_restored_iff noSlots 0).2 _ 0 _ neverFilterWorker Nat.one_pos

end NeverFilter
end Hegel
