import HegelCpp.Client.Effect
import HegelCpp.Stateful.Overlooks
import HegelCpp.Stateful.Protocol

/-! The effect of the runners, and the calls they make for their machine.
Between `next_rule` and the end of the step the machine's rule stays
outstanding, because the rule's own code owns younger machines only; this is
why the reject handler is never refused. -/
namespace Hegel

open Logic Program

variable {S α : Type} {handle : Nat}

/-- Older machines are left alone, and for `handle` exactly `calls` were made. -/
structure Calling (handle : Nat) (calls : List Call) (a b : World S) : Prop where
  effect : Effect handle a b
  calls_eq : callsOf handle b.history = callsOf handle a.history ++ calls

namespace Calling

variable {a b c : World S} {calls calls' : List Call}

theorem refl (handle : Nat) (a : World S) : Calling handle [] a a :=
  ⟨Effect.refl handle a, by simp⟩

theorem trans (hab : Calling handle calls a b) (hbc : Calling handle calls' b c) :
    Calling handle (calls ++ calls') a c := by
  refine ⟨hab.effect.trans hbc.effect, ?_⟩
  rw [hbc.calls_eq, hab.calls_eq, List.append_assoc]

theorem called (h : Calling handle calls a b) (call : Call) :
    Calling handle (calls ++ [call]) a (b.log (.call handle call)) := by
  refine ⟨h.effect.called call, ?_⟩
  have hCall : callsOf handle [Event.call (S := S) handle call] = [call] := by simp [callsOf]
  rw [callsOf_append, h.calls_eq, hCall, List.append_assoc]

theorem touch (h : Calling handle calls a b) (rest : List Answer) (memory : S) (indent : Nat) :
    Calling handle calls a { b with answers := rest, memory := memory, noteIndent := indent } :=
  ⟨h.effect.touch rest memory indent, h.calls_eq⟩

theorem create (h : Calling handle calls a b) :
    Calling handle calls a { b with machines := b.machines + 1 } :=
  ⟨h.effect.create, h.calls_eq⟩

theorem setOutstanding (h : Calling handle calls a b) (flag : Bool) :
    Calling handle calls a { b with outstanding := Function.update b.outstanding handle flag } :=
  ⟨h.effect.setOutstanding (Nat.le_refl handle) flag, h.calls_eq⟩

/-- An event that is no call of the machine. -/
theorem event (h : Calling handle calls a b) {e : Event S} (he : e.Allowed handle)
    (hSilent : callsOf handle [e] = []) : Calling handle calls a (b.log e) := by
  refine ⟨h.effect.event he, ?_⟩
  rw [callsOf_append, hSilent, List.append_nil]
  exact h.calls_eq

theorem noted (h : Calling handle calls a b) (indent : Nat) (text : String) :
    Calling handle calls a (b.log (.note indent text)) :=
  h.event trivial rfl

theorem close {rest : List Answer} {opened : OpenSpan}
    (h : Calling handle calls (Effect.opening a rest opened) b) :
    Calling handle calls a { b with spans := b.spans.tail } :=
  ⟨h.effect.close, h.calls_eq⟩

/-- Client code makes no calls for machines that existed before. -/
theorem of_client (h : ClientEffect a b) (hOwn : handle < a.machines) : Calling handle [] a b := by
  refine ⟨Effect.mono (Nat.le_of_lt hOwn) h, ?_⟩
  obtain ⟨new, hNew, hAllowed⟩ := h.history
  have hNone : callsOf handle new = [] := by
    apply List.filterMap_eq_nil_iff.mpr
    intro e he
    cases e with
    | call m call =>
        have hYounger : a.machines ≤ m := hAllowed _ he
        exact if_neg (by omega)
    | _ => rfl
  rw [hNew, callsOf_append, hNone]

end Calling

/-- Code that runs while a rule of `handle` is outstanding and makes no call
for the machine. -/
def Kept (handle : Nat) (a b : World S) : Prop :=
  handle < a.machines → Calling handle [] a b ∧ b.outstanding handle = a.outstanding handle

namespace Kept

theorem refl (handle : Nat) (a : World S) : Kept handle a a :=
  fun _ => ⟨Calling.refl handle a, rfl⟩

theorem trans ⦃a b c : World S⦄ (hab : Kept handle a b) (hbc : Kept handle b c) :
    Kept handle a c := by
  intro hOwn
  obtain ⟨hFirst, hKept⟩ := hab hOwn
  obtain ⟨hSecond, hKept'⟩ := hbc (Nat.lt_of_lt_of_le hOwn hFirst.effect.machines_le)
  exact ⟨hFirst.trans hSecond, hKept'.trans hKept⟩

/-- What client code does is kept by every machine that existed before. -/
theorem of_client {a b : World S} (h : ClientEffect a b) : Kept handle a b :=
  fun hOwn => ⟨Calling.of_client h hOwn, h.outstanding handle hOwn⟩

theorem touch (a : World S) (rest : List Answer) (memory : S) (indent : Nat) :
    Kept handle a { a with answers := rest, memory := memory, noteIndent := indent } :=
  fun _ => ⟨(Calling.refl handle a).touch rest memory indent, rfl⟩

theorem preserves_observe (what : Observation S) :
    Preserves (Kept handle) (record (.observed handle what)) :=
  fun world => ensures_record _ fun _ =>
    ⟨(Calling.refl handle world).event (Nat.le_refl handle) rfl, rfl⟩

theorem preserves_note (text : String) : Preserves (Kept handle) (note text : Client S Unit) :=
  fun world => ensures_note text fun _ => ⟨(Calling.refl handle world).noted _ text, rfl⟩

theorem preserves_noteIndentScope {body : Client S Unit} (hBody : Preserves (Kept handle) body) :
    Preserves (Kept handle) (noteIndentScope body) :=
  Hegel.preserves_noteIndentScope trans (fun world => touch world _ _) hBody

theorem preserves_printState (machine : StateMachine S) (params : RunParams) :
    Preserves (Kept handle) (printState machine params) :=
  Hegel.preserves_printState (refl handle) trans preserves_note machine params

theorem preserves_checkInvariant (origin : String) (index : Nat) (invariant : Invariant S) :
    Preserves (Kept handle) (checkInvariant handle origin index invariant) :=
  Hegel.preserves_checkInvariant (refl handle) trans (fun _ _ => preserves_observe _)
    (preserves_note _)

/-- The unconditional checks ask the engine nothing. -/
theorem preserves_checkInvariants (origin : String) (index : Nat)
    (invariants : List (Invariant S)) :
    Preserves (Kept handle) (checkInvariants handle origin false index invariants) :=
  Hegel.preserves_checkInvariants (refl handle) trans (by simp) (preserves_checkInvariant origin)
    index invariants

theorem preserves_observeRule {step : Client S Unit} (index : Nat)
    (hStep : Preserves (Kept handle) step) :
    Preserves (Kept handle) (observeRule handle index step) := by
  apply preserves_bind trans (preserves_observe _)
  intro _
  refine preserves_bind trans (preserves_tryCatch trans hStep fun e => ?_) fun _ =>
    preserves_bind trans (preserves_get (refl handle)) fun _ => preserves_observe _
  apply preserves_bind trans (preserves_get (refl handle))
  intro _
  apply preserves_bind trans (preserves_observe _)
  intro _
  refine preserves_bind trans ?_ fun _ => preserves_throw (refl handle) e
  exact preserves_ite (preserves_pure (refl handle) _) (preserves_observe _)

/-- Continue after code that is kept. -/
theorem ensures_bind {β : Type} {p : Client S α} {k : α → Client S β} {world : World S}
    {post : Except Exn β → World S → Prop} (hp : Preserves (Kept handle) p)
    (hOwn : handle < world.machines)
    (hNext : ∀ a world', Calling handle [] world world' → handle < world'.machines →
      (k a).Ensures world' post)
    (hRaise : ∀ e world', Calling handle [] world world' → post (.error e) world') :
    Ensures (p >>= k) world post := by
  refine Program.ensures_bind ((hp world).mono ?_)
  rintro (e | a) world' hEnd
  · exact hRaise e world' (hEnd hOwn).1
  · have hCalls := (hEnd hOwn).1
    exact hNext a world' hCalls (Nat.lt_of_lt_of_le hOwn hCalls.effect.machines_le)

end Kept

section Calls
variable {world : World S}

/-- While its rule is outstanding, the machine accepts one rejection. -/
theorem ensures_ruleRejected {post : Except Exn Unit → World S → Prop}
    (hOutstanding : world.outstanding handle = true)
    (h : post (.ok ())
      { (world.log (.call handle .ruleRejected)).log (.rejectedRule handle .ok) with
        outstanding := Function.update world.outstanding handle false }) :
    (ruleRejected handle).Ensures world post := by
  refine ensures_bind (ensures_get ?_)
  simp only [andThen_ok, hOutstanding, if_true]
  refine ensures_bind (ensures_record _ (ensures_bind (ensures_record _ ?_)))
  refine ensures_bind (ensures_modify _ (ensures_raiseForRc (fun _ => h) fun hNe => ?_))
  exact absurd rfl hNe

theorem Answer.value_of_ok {answer : Answer} (h : answer.rc = .ok) :
    answer.value? = some answer.int := if_pos h

theorem Answer.value_of_raised {answer : Answer} (h : answer.rc ≠ .ok) : answer.value? = none :=
  if_neg h

/-- A rule that is returned is outstanding afterwards. -/
theorem nextRule_calls (handle : Nat) (world : World S) :
    (nextRule handle : Client S Int).Ensures world (andThen
      (fun index world' => Calling handle [.nextRule (some index)] world world' ∧
        world'.outstanding handle = (index != stateMachineDone))
      (fun _ world' => Calling handle [.nextRule none] world world')) := by
  refine ensures_bind (ensures_nextAnswer fun answer rest => ensures_bind (ensures_record _ ?_))
  have hAsked := ((Calling.refl handle world).touch rest world.memory world.noteIndent).called
    (.nextRule answer.value?)
  refine ensures_bind (ensures_raiseForRc (fun hOk => ?_) fun hRaised _ _ => ?_)
  · refine ensures_bind (ensures_modify _ (ensures_pure _ ?_))
    rw [Answer.value_of_ok hOk] at hAsked ⊢
    exact ⟨hAsked.setOutstanding _, Function.update_self _ _ _⟩
  · rw [Answer.value_of_raised hRaised] at hAsked ⊢
    exact hAsked

theorem nextGroup_calls (handle : Nat) (world : World S) :
    (nextGroup handle : Client S Int).Ensures world (andThen
      (fun group world' => Calling handle [.nextGroup (some group)] world world')
      (fun _ world' => Calling handle [.nextGroup none] world world')) := by
  refine ensures_bind (ensures_nextAnswer fun answer rest => ensures_bind (ensures_record _ ?_))
  have hAsked := ((Calling.refl handle world).touch rest world.memory world.noteIndent).called
    (.nextGroup answer.value?)
  refine ensures_bind (ensures_raiseForRc (fun hOk => ?_) fun hRaised _ _ => ?_)
  · refine ensures_bind (ensures_modify _ (ensures_pure _ ?_))
    rw [Answer.value_of_ok hOk] at hAsked ⊢
    exact hAsked.setOutstanding _
  · rw [Answer.value_of_raised hRaised] at hAsked ⊢
    exact hAsked

theorem shouldCheckInvariant_calls (handle index : Nat) (world : World S) :
    (shouldCheckInvariant handle index : Client S Bool).Ensures world fun _ world' =>
      Calling handle [.shouldCheckInvariant index] world world' := by
  refine ensures_bind (ensures_nextAnswer fun answer rest => ensures_bind (ensures_record _ ?_))
  have hAsked := ((Calling.refl handle world).touch rest world.memory world.noteIndent).called
    (.shouldCheckInvariant index)
  exact ensures_bind (ensures_raiseForRc (fun _ => ensures_pure _ hAsked) fun _ _ _ => hAsked)

/-- The new machine is the caller's own. -/
theorem newStateMachine_calls (world : World S) :
    (newStateMachine : Client S Nat).Ensures world fun result world' =>
      Calling world.machines [.newStateMachine] world world' ∧ world.machines < world'.machines ∧
        ∀ handle, result = .ok handle → handle = world.machines := by
  have hCreated : Calling world.machines [.newStateMachine] world
      (({ world with machines := world.machines + 1 }).log
        (.call world.machines .newStateMachine)) :=
    (Calling.refl world.machines world).create.called .newStateMachine
  refine ensures_bind (ensures_get (ensures_bind (ensures_modify _ (ensures_bind
    (ensures_record _ ?_)))))
  refine ensures_bind (ensures_engineCall (fun _ rest => ensures_pure _ ?_) fun _ rest => ?_)
  · refine ⟨hCreated.touch rest _ _, Nat.lt_succ_self _, ?_⟩
    rintro handle ⟨⟩
    rfl
  · exact ⟨hCreated.touch rest _ _, Nat.lt_succ_self _, fun _ h => by cases h⟩

end Calls

section Run
variable {machine : StateMachine S} {params : RunParams} {rule : Rule S}

/-- How a step of `stateful::run` can end, with its calls so far. -/
def StepEnds (index : Nat) : Except Exn Unit → List Call → Prop
  | .ok (), calls => ∃ exn, calls = stepTail index exn
  | .error e, calls => calls = [.startSpan] ∨ calls = stepTail index (some e)

/-- The `try` block closes its span last, so an exception leaves it open. -/
theorem stepBody_calls {world : World S} (index : Nat) (hOwn : handle < world.machines)
    (hStep : Preserves ClientEffect rule.step) :
    (stepBody machine params handle index rule).Ensures world (andThen
      (fun _ world' => ∃ middle, Calling handle [.ended none] world middle ∧
        world' = { middle.log (.call handle (.stopSpan false)) with spans := middle.spans.tail })
      (fun _ world' => Calling handle [] world world' ∧
        world'.outstanding handle = world.outstanding handle)) := by
  have hRule : Preserves (Kept handle) (observeRule handle index (noteIndentScope rule.step)) :=
    Kept.preserves_observeRule index (Kept.preserves_noteIndentScope fun world =>
      (hStep world).mono fun _ _ => Kept.of_client)
  have hPrint : Preserves (Kept handle) (printState machine params) :=
    Kept.preserves_printState machine params
  refine ensures_bind ((hRule world).mono ?_)
  rintro (e | _) middle hMiddle
  · exact hMiddle hOwn
  refine ensures_bind ((hPrint middle).mono ?_)
  rintro (e | _) last hLast
  · exact Kept.trans hMiddle hLast hOwn
  refine ensures_bind (ensures_record _ (ensures_bind (ensures_record _ (ensures_bind
    (ensures_stopSpan (ensures_pure _ ?_))))))
  exact ⟨_, (Kept.trans hMiddle hLast hOwn).1.called (.ended none), rfl⟩

/-- The handlers of a step, in a world reached from right after its
`start_span`. An absorbed reject is accepted by the engine, and the handler's
`stop_span` makes up for the `start_span`. -/
theorem stepHandler_calls {start a world : World S} {rest : List Answer} {opened : OpenSpan}
    {calls : List Call} (hSpans : start.spans = a.spans)
    (hInterrupted : start.interrupted = a.interrupted)
    (hInside : Calling handle calls (Effect.opening a rest opened) world)
    (hOutstanding : world.outstanding handle = true) (e : Exn) :
    (stepHandler handle start opened e).Ensures world fun result world' =>
      Calling handle (calls ++ .ended (some e) :: endCalls (some e)) a world' ∧
        ∀ e', result = .error e' → e' = e := by
  have hEnded := hInside.called (.ended (some e))
  refine ensures_bind (ensures_record _ (ensures_ite (fun hReject => ?_) fun hOther => ?_))
  · refine ensures_bind (ensures_note _ (ensures_bind (ensures_ruleRejected hOutstanding ?_)))
    refine ensures_bind (ensures_record _ (ensures_bind (ensures_stopSpan ?_)))
    refine ensures_bind (ensures_get (ensures_record _ ?_))
    have hAbsorbed : Event.Allowed handle (.absorbed (S := S)
        { site := .run, before := start.spans, after := world.spans.tail, opened := some opened
          closed := world.spans.head?, interrupted := world.interrupted - start.interrupted }) := by
      rw [Event.Allowed, Absorption.Restored, hSpans, hInterrupted]
      exact hInside.effect.closed_iff
    have hReported := (((hEnded.noted world.noteIndent rejectedNote).called .ruleRejected).event
      (e := .rejectedRule handle .ok) ⟨Nat.le_refl handle, rfl⟩ rfl).setOutstanding false
    have hClosed := (hReported.close.called (.stopSpan true)).event hAbsorbed rfl
    have hCalls : calls ++ [.ended (some e)] ++ [.ruleRejected] ++ [.stopSpan true] =
        calls ++ .ended (some e) :: endCalls (some e) := by
      simp [endCalls, hReject]
    rw [hCalls] at hClosed
    exact ⟨hClosed, fun _ h => by cases h⟩
  · refine ensures_bind (ensures_record _ (ensures_bind (ensures_stopSpan (ensures_throw _ ?_))))
    have hClosed := hEnded.close.called (.stopSpan false)
    have hCalls : calls ++ [.ended (some e)] ++ [.stopSpan false] =
        calls ++ .ended (some e) :: endCalls (some e) := by
      simp [endCalls, hOther]
    rw [hCalls] at hClosed
    refine ⟨hClosed, ?_⟩
    rintro _ ⟨⟩
    rfl

/-- One step of `stateful::run`. -/
theorem runStep_calls {world : World S} (index stepsRun : Nat) (hOwn : handle < world.machines)
    (hOutstanding : world.outstanding handle = true) (hStep : Preserves ClientEffect rule.step) :
    (runStep machine params handle index stepsRun rule).Ensures world fun result world' =>
      ∃ calls, Calling handle calls world world' ∧ StepEnds index result calls := by
  have hAsked : Calling handle [.startSpan] world (world.log (.call handle .startSpan)) :=
    (Calling.refl handle world).called _
  refine ensures_bind (ensures_get (ensures_bind (ensures_record _ ?_)))
  refine ensures_bind (ensures_startSpan (fun opened rest _ => ?_)
    fun _ rest => ⟨_, hAsked.touch rest _ _, .inl rfl⟩)
  refine ensures_bind (ensures_note _ (ensures_bind (ensures_record _ (ensures_tryCatch ?_))))
  have hOpened := ((Calling.refl handle
    (Effect.opening (world.log (.call handle .startSpan)) rest opened)).noted world.noteIndent
      ("Step " ++ toString stepsRun ++ ": " ++ rule.name)).called (.rule index)
  refine Ensures.mono (stepBody_calls index hOwn hStep) ?_
  rintro (e | _) world' hEnd
  · obtain ⟨hBody, hKept⟩ := hEnd
    refine (stepHandler_calls rfl rfl (hOpened.trans hBody) (hKept.trans hOutstanding) e).mono ?_
    rintro result last ⟨hLast, hSame⟩
    refine ⟨_, hAsked.trans hLast, ?_⟩
    cases result with
    | error e' => exact .inr (by rw [hSame e' rfl]; rfl)
    | ok _ => exact ⟨some e, rfl⟩
  · obtain ⟨middle, hBody, rfl⟩ := hEnd
    exact ⟨_, hAsked.trans ((hOpened.trans hBody).close.called (.stopSpan false)), none, rfl⟩

theorem ruleAt_spec {R : Type} {rules : List R} {index : Int} {rule : R}
    (h : ruleAt rules index = some rule) :
    rule ∈ rules ∧ index.toNat < rules.length ∧ (index.toNat : Int) = index := by
  unfold ruleAt at h
  split at h
  · cases h
  · obtain ⟨hLt, -⟩ := List.getElem?_eq_some_iff.mp h
    exact ⟨List.mem_of_getElem? h, hLt, by omega⟩

theorem ruleAt_none {R : Type} {rules : List R} {index : Int} (h : ruleAt rules index = none)
    {i : Nat} (hIndex : index = i) : rules.length ≤ i := by
  subst hIndex
  unfold ruleAt at h
  split at h
  · omega
  · exact List.getElem?_eq_none_iff.mp h

variable (hRules : ∀ rule ∈ machine.rules, Preserves ClientEffect rule.step)
  (hPos : 0 < machine.rules.length)
include hRules hPos

/-- What was said when an exception ended the run within `word`. -/
def Cut (ruleCount : Nat) (word calls : List Call) : Prop :=
  Speaks ruleCount calls word ∧ Balanced calls

/-- One pass of the inner loop: a whole step, the end of the round, or a cut
step. A step starts only with a rule that was just returned. -/
theorem runRules_calls {world : World S} (stepsRun : Nat) (hOwn : handle < world.machines) :
    (runRules machine params handle stepsRun).Ensures world (andThen
      (fun next world' => next.elim
        (fun _ => ∃ (index : Fin machine.rules.length) (exn : Option Exn),
          Calling handle (stepCalls index exn) world world')
        (fun _ => Calling handle [.nextRule (some stateMachineDone)] world world'))
      (fun e world' => ∃ (calls : List Call) (index : Fin machine.rules.length),
        Calling handle calls world world' ∧
          Cut machine.rules.length (stepCalls index (some e)) calls)) := by
  refine ensures_bind ((nextRule_calls handle world).mono ?_)
  rintro (e | index) middle hMiddle
  · refine ⟨_, ⟨0, hPos⟩, hMiddle, ?_, rfl⟩
    exact .refused [] _ _ _ rfl rfl (.rule none ⟨0, hPos⟩ (fun _ h => by cases h) (by simp))
  obtain ⟨hAsked, hOutstanding⟩ := hMiddle
  refine ensures_ite (fun hDone => ?_) fun hNotDone => ?_
  · subst hDone
    exact ensures_pure _ hAsked
  have hTaken : middle.outstanding handle = true := by
    rw [hOutstanding]
    simpa using hNotDone
  cases hRule : ruleAt machine.rules index with
  | none =>
      refine ensures_throw _ ⟨_, ⟨0, hPos⟩, hAsked, ?_, rfl⟩
      refine .refused [] _ _ _ rfl rfl (.rule (some index) ⟨0, hPos⟩ (fun i h => ?_) (by simpa))
      exact ruleAt_none hRule (Option.some.inj h)
  | some rule =>
      obtain ⟨hMem, hLt, hIndex⟩ := ruleAt_spec hRule
      rw [← hIndex] at hAsked
      have hOwn' : handle < middle.machines := Nat.lt_of_lt_of_le hOwn hAsked.effect.machines_le
      refine ensures_bind ((runStep_calls index.toNat (stepsRun + 1) hOwn' hTaken
        (hRules rule hMem)).mono ?_)
      rintro (e | _) world' ⟨calls, hStep, hEnds⟩
      · refine ⟨_, ⟨index.toNat, hLt⟩, hAsked.trans hStep, ?_⟩
        rcases hEnds with rfl | rfl
        · exact ⟨.regular ⟨_, rfl⟩, rfl⟩
        · exact ⟨.regular (List.prefix_refl _), (Balanced.step index.toNat (some e)).cons rfl rfl⟩
      · obtain ⟨exn, rfl⟩ := hEnds
        exact ensures_pure _ ⟨⟨index.toNat, hLt⟩, exn, hAsked.trans hStep⟩

/-- The inner loop: the steps of a round, then its end or a cut step. -/
theorem runRules_loop_calls {world : World S} (stepsRun : Nat) (hOwn : handle < world.machines) :
    (Program.loop (runRules machine params handle) stepsRun).Ensures world (andThen
      (fun _ world' => ∃ steps : List (Fin machine.rules.length × Option Exn),
        Calling handle (stepsCalls steps ++ [.nextRule (some stateMachineDone)]) world world')
      (fun _ world' => ∃ (calls : List Call) (steps : List (Fin machine.rules.length × Option Exn)),
        Calling handle calls world world' ∧
          Cut machine.rules.length (stepsCalls steps) calls)) := by
  refine ensures_loop (fun _ middle => ∃ steps : List (Fin machine.rules.length × Option Exn),
    Calling handle (stepsCalls steps) world middle) ⟨[], Calling.refl handle world⟩ ?_
  rintro stepsRun middle ⟨steps, hSteps⟩
  have hOwn' : handle < middle.machines := Nat.lt_of_lt_of_le hOwn hSteps.effect.machines_le
  refine (runRules_calls hRules hPos stepsRun hOwn').mono ?_
  rintro (e | next | next) world' hEnd
  · obtain ⟨calls, index, hCalls, hSpeaks, hBalanced⟩ := hEnd
    refine ⟨_, steps ++ [(index, some e)], hSteps.trans hCalls, ?_, ?_⟩
    · rw [stepsCalls_concat]
      exact hSpeaks.after _
    · exact (Balanced.steps steps).append hBalanced
  · obtain ⟨index, exn, hCalls⟩ := hEnd
    refine ⟨steps ++ [(index, exn)], ?_⟩
    rw [stepsCalls_concat]
    exact hSteps.trans hCalls
  · exact ⟨steps, hSteps.trans hEnd⟩

omit hRules hPos

/-- A join point asks about every invariant in turn; an exception cuts this short. -/
theorem checkInvariants_calls {world : World S} (origin : String) (index : Nat)
    (invariants : List (Invariant S)) (hOwn : handle < world.machines) :
    (checkInvariants handle origin true index invariants).Ensures world fun result world' =>
      ∃ count ≤ invariants.length, Calling handle (joinCalls index count) world world' ∧
        (result = .ok () → count = invariants.length) := by
  induction invariants generalizing index world with
  | nil => exact ensures_pure _ ⟨0, Nat.le_refl _, Calling.refl handle world, fun _ => rfl⟩
  | cons invariant rest ih =>
      have hFirst : 1 ≤ (invariant :: rest).length := Nat.succ_pos _
      refine ensures_bind ((shouldCheckInvariant_calls handle index world).mono ?_)
      rintro (e | selected) middle hAsked
      · exact ⟨1, hFirst, hAsked, fun h => by cases h⟩
      have hOwn' : handle < middle.machines := Nat.lt_of_lt_of_le hOwn hAsked.effect.machines_le
      have hCheck : Preserves (Kept handle) (if selected = true then
          checkInvariant handle origin index invariant else pure ()) :=
        preserves_ite (Kept.preserves_checkInvariant origin index invariant)
          (preserves_pure (Kept.refl handle) _)
      refine ensures_bind ((hCheck middle).mono ?_)
      rintro (e | _) checked hChecked
      · exact ⟨1, hFirst, hAsked.trans (hChecked hOwn').1, fun h => by cases h⟩
      have hCalls := hAsked.trans (hChecked hOwn').1
      have hOwn'' : handle < checked.machines :=
        Nat.lt_of_lt_of_le hOwn hCalls.effect.machines_le
      refine (ih (index + 1) hOwn'').mono ?_
      rintro result world' ⟨count, hCount, hRest, hDone⟩
      refine ⟨count + 1, Nat.succ_le_succ hCount, hCalls.trans hRest, fun h => ?_⟩
      rw [hDone h, List.length_cons]

include hRules hPos

/-- One pass of the outer loop: a whole round, the end of the run, or a cut round. -/
theorem runRounds_calls {world : World S} (stepsRun : Nat) (hOwn : handle < world.machines) :
    (runRounds machine params handle stepsRun).Ensures world (andThen
      (fun next world' => next.elim
        (fun _ => ∃ round : Round machine.rules.length,
          Calling handle (round.calls machine.invariants.length) world world')
        (fun _ => Calling handle [.nextGroup (some stateMachineDone)] world world'))
      (fun _ world' => ∃ (calls : List Call) (round : Round machine.rules.length),
        Calling handle calls world world' ∧
          Cut machine.rules.length (round.calls machine.invariants.length) calls)) := by
  refine ensures_bind ((nextGroup_calls handle world).mono ?_)
  rintro (e | group) asked hAsked
  · refine ⟨_, ⟨0, by decide, []⟩, hAsked, ?_, rfl⟩
    exact .refused [] _ _ _ rfl rfl (.group 0)
  refine ensures_ite (fun hDone => ?_) fun hGroup => ?_
  · subst hDone
    exact ensures_pure _ hAsked
  have hOwn' : handle < asked.machines := Nat.lt_of_lt_of_le hOwn hAsked.effect.machines_le
  refine ensures_bind ((runRules_loop_calls hRules hPos stepsRun hOwn').mono ?_)
  rintro (e | steps') ended hEnded
  · obtain ⟨calls, steps, hCalls, hSpeaks, hBalanced⟩ := hEnded
    refine ⟨_, ⟨group, hGroup, steps⟩, hAsked.trans hCalls, ?_, hBalanced.cons rfl rfl⟩
    exact (hSpeaks.extend _).after [.nextGroup (some group)]
  obtain ⟨steps, hSteps⟩ := hEnded
  have hRound := hAsked.trans hSteps
  have hOwn'' : handle < ended.machines := Nat.lt_of_lt_of_le hOwn hRound.effect.machines_le
  refine ensures_bind ((checkInvariants_calls _ 0 machine.invariants hOwn'').mono ?_)
  rintro result world' ⟨count, hCount, hJoin, hDone⟩
  have hWord (count : Nat) : (⟨group, hGroup, steps⟩ : Round machine.rules.length).calls count =
      [.nextGroup (some group)] ++ (stepsCalls steps ++ [.nextRule (some stateMachineDone)]) ++
        joinCalls 0 count := by
    simp [Round.calls]
  cases result with
  | error e =>
      refine ⟨_, ⟨group, hGroup, steps⟩, hRound.trans hJoin, ?_, ?_⟩
      · rw [hWord]
        exact (Speaks.regular (joinCalls_extends 0 hCount)).after _
      · have hEnd : Balanced [.nextRule (some stateMachineDone)] := rfl
        exact (((Balanced.steps steps).append hEnd).cons rfl rfl).append (Balanced.join 0 count)
  | ok _ =>
      refine ensures_pure _ ⟨⟨group, hGroup, steps⟩, ?_⟩
      rw [hWord, ← hDone rfl]
      exact hRound.trans hJoin

/-- The outer loop: the rounds, then the end of the run or a cut round. -/
theorem runRounds_loop_calls {world : World S} (stepsRun : Nat) (hOwn : handle < world.machines) :
    (Program.loop (runRounds machine params handle) stepsRun).Ensures world (andThen
      (fun _ world' => ∃ rounds : List (Round machine.rules.length),
        Calling handle (roundsCalls machine.invariants.length rounds ++
          [.nextGroup (some stateMachineDone)]) world world')
      (fun _ world' => ∃ (calls : List Call) (rounds : List (Round machine.rules.length)),
        Calling handle calls world world' ∧
          Cut machine.rules.length (roundsCalls machine.invariants.length rounds) calls)) := by
  refine ensures_loop (fun _ middle => ∃ rounds : List (Round machine.rules.length),
    Calling handle (roundsCalls machine.invariants.length rounds) world middle)
    ⟨[], Calling.refl handle world⟩ ?_
  rintro stepsRun middle ⟨rounds, hRounds⟩
  have hOwn' : handle < middle.machines := Nat.lt_of_lt_of_le hOwn hRounds.effect.machines_le
  refine (runRounds_calls hRules hPos stepsRun hOwn').mono ?_
  rintro (e | next | next) world' hEnd
  · obtain ⟨calls, round, hCalls, hSpeaks, hBalanced⟩ := hEnd
    refine ⟨_, rounds ++ [round], hRounds.trans hCalls, ?_, ?_⟩
    · rw [roundsCalls_concat]
      exact hSpeaks.after _
    · exact (Balanced.rounds _ rounds).append hBalanced
  · obtain ⟨round, hCalls⟩ := hEnd
    refine ⟨rounds ++ [round], ?_⟩
    rw [roundsCalls_concat]
    exact hRounds.trans hCalls
  · exact ⟨rounds, hRounds.trans hEnd⟩

omit hPos

/-- `stateful::run`, as the engine hears it. -/
theorem run_calls (params : RunParams) (world : World S) :
    (run machine params).Ensures world fun result world' =>
      ∃ (calls : List Call) (rounds : List (Round machine.rules.length)),
        Calling world.machines calls world world' ∧
          Cut machine.rules.length (protocolCalls machine.invariants.length rounds) calls ∧
          (result = .ok () → calls = protocolCalls machine.invariants.length rounds) := by
  refine ensures_ite (fun _ => ensures_throw _ ?_) fun hSome => ?_
  · exact ⟨[], [], Calling.refl _ world, ⟨.regular List.nil_prefix, rfl⟩, fun h => by cases h⟩
  have hPos : 0 < machine.rules.length := by
    cases hList : machine.rules with
    | nil => simp [hList] at hSome
    | cons => exact Nat.succ_pos _
  have hBegun : Cut machine.rules.length
      (protocolCalls machine.invariants.length ([] : List (Round machine.rules.length)))
      [.newStateMachine] := ⟨.regular ⟨_, rfl⟩, rfl⟩
  refine ensures_bind ((newStateMachine_calls world).mono ?_)
  rintro (e | handle) created ⟨hCreated, hOwn, hHandle⟩
  · exact ⟨_, [], hCreated, hBegun, fun h => by cases h⟩
  obtain rfl := hHandle handle rfl
  -- Up to the loop nothing is said, and whatever raises ends the run there.
  have hCutHere {a b : World S} {e : Exn} (hab : Calling world.machines [.newStateMachine] world a)
      (hb : Calling world.machines [] a b) :
      ∃ (calls : List Call) (rounds : List (Round machine.rules.length)),
        Calling world.machines calls world b ∧
          Cut machine.rules.length (protocolCalls machine.invariants.length rounds) calls ∧
          ((.error e : Except Exn Unit) = .ok () →
            calls = protocolCalls machine.invariants.length rounds) :=
    ⟨_, [], hab.trans hb, hBegun, fun h => by cases h⟩
  refine Kept.ensures_bind (Kept.preserves_note _) hOwn (fun _ noted hNoted hOwn => ?_)
    fun _ _ => hCutHere hCreated
  have hCreated := hCreated.trans hNoted
  refine Kept.ensures_bind (Kept.preserves_printState machine params) hOwn
    (fun _ printed hPrinted hOwn => ?_) fun _ _ => hCutHere hCreated
  have hCreated := hCreated.trans hPrinted
  refine Kept.ensures_bind (Kept.preserves_checkInvariants _ _ _) hOwn
    (fun _ checked hChecked hOwn => ?_) fun _ _ => hCutHere hCreated
  have hCreated := hCreated.trans hChecked
  refine ensures_bind ((runRounds_loop_calls hRules hPos 0 hOwn).mono ?_)
  rintro (e | _) looped hLooped
  · obtain ⟨calls, rounds, hCalls, hSpeaks, hBalanced⟩ := hLooped
    refine ⟨_, rounds, hCreated.trans hCalls, ⟨?_, hBalanced.cons rfl rfl⟩, fun h => by cases h⟩
    exact (hSpeaks.extend _).after [.newStateMachine]
  obtain ⟨rounds, hRounds⟩ := hLooped
  have hDone := hCreated.trans hRounds
  have hOwn' : world.machines < looped.machines :=
    Nat.lt_of_lt_of_le hOwn hRounds.effect.machines_le
  have hFinal : Preserves (Kept world.machines) (note "Final invariant check." >>= fun _ =>
      checkInvariants world.machines "in the final state" false 0 machine.invariants) :=
    preserves_bind Kept.trans (Kept.preserves_note _) fun _ => Kept.preserves_checkInvariants _ _ _
  refine (hFinal looped).mono fun result world' hEnd => ?_
  have hWhole := hDone.trans (hEnd hOwn').1
  rw [List.append_nil] at hWhole
  exact ⟨_, rounds, hWhole, ⟨.regular (List.prefix_refl _), Balanced.protocol _ rounds⟩,
    fun _ => rfl⟩

/-- `stateful::run` as client code of whoever calls it. -/
theorem run_effect : Preserves ClientEffect (run machine params) :=
  fun world => (run_calls hRules params world).mono fun _ _ ⟨_, _, hCalls, _⟩ => hCalls.effect

end Run
end Hegel
