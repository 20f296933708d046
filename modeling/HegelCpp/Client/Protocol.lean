import HegelCpp.Client.Spans

/-! `stateful::run` speaks the protocol of the engine's state machines. Its
rules are arbitrary client code; they may run other machines, whose calls are
no calls of this one. -/
namespace Hegel

open Logic Program

variable {S : Type}

/-- A sequential machine whose rules are given by client code. -/
def clientMachine (slots : Code.Slots S) (depth : Nat) (rules : List (String × Code S Unit))
    (invariants : List (Invariant S)) (repr : S → Except Exn String) : StateMachine S where
  rules := rules.map fun (name, step) => { name, step := step.exec slots depth }
  invariants
  repr

theorem clientMachine_rules (slots : Code.Slots S) (depth : Nat)
    (rules : List (String × Code S Unit)) (invariants : List (Invariant S))
    (repr : S → Except Exn String) :
    ∀ rule ∈ (clientMachine slots depth rules invariants repr).rules,
      Preserves ClientEffect rule.step := by
  intro rule hRule
  obtain ⟨entry, _, rfl⟩ := List.mem_map.mp hRule
  exact clientEffect_respected.exec slots depth entry.2

/-- Whatever the engine answers and the rules do, the machine's calls are a
prefix of a regular run, up to a last call that was refused; a regular return
has made the whole run's calls. Every rule that was started has had its span
stopped, however the run ended, and no reported rejection was refused. -/
theorem run_speaks_protocol (slots : Code.Slots S) (depth : Nat)
    (rules : List (String × Code S Unit)) (invariants : List (Invariant S))
    (repr : S → Except Exn String) (params : RunParams) (world : World S) :
    (run (clientMachine slots depth rules invariants repr) params).Ensures world
      fun result world' => ∃ new, world'.history = world.history ++ new ∧
        (∃ rounds : List (Round rules.length),
          Speaks rules.length (callsOf world.machines new)
            (protocolCalls invariants.length rounds) ∧
          (result = .ok () →
            callsOf world.machines new = protocolCalls invariants.length rounds)) ∧
        (callsOf world.machines new).countP Call.isRule =
          (callsOf world.machines new).countP Call.isStopSpan ∧
        ∀ machine rc, .rejectedRule machine rc ∈ new → rc = .ok := by
  have hRun := run_calls (clientMachine_rules slots depth rules invariants repr) params world
  have hLength : (clientMachine slots depth rules invariants repr).rules.length = rules.length :=
    List.length_map _
  rw [hLength] at hRun
  refine hRun.mono fun result world' hEnd => ?_
  obtain ⟨calls, rounds, hCalls, ⟨hSpeaks, hBalanced⟩, hWhole⟩ := hEnd
  obtain ⟨new, hNew, hAllowed⟩ := hCalls.effect.history
  have hOwn : callsOf world.machines new = calls := by
    have hAll := hCalls.calls_eq
    rw [hNew, callsOf_append] at hAll
    exact List.append_cancel_left hAll
  rw [← hOwn] at hSpeaks hBalanced hWhole
  exact ⟨new, hNew, ⟨rounds, hSpeaks, hWhole⟩, hBalanced,
    fun machine rc hRejected => (hAllowed _ hRejected).2⟩

end Hegel
