import HegelCpp.Client.StateLines
import HegelCpp.Stateful.Transcript

/-! The steps of a run of `stateful::run`, read back from what it printed. -/
namespace Hegel

open Logic Program

variable {S : Type} {names : List String} {handle count : Nat}

/-- On the way from `a` to `b` the lines tell the steps that were taken. There
were `before` steps earlier, and there are `after` now. -/
structure Tells (names : List String) (handle before after : Nat) (a b : World S) : Prop where
  machines_le : a.machines ≤ b.machines
  indent_eq : b.noteIndent = a.noteIndent
  history : ∃ new, b.history = a.history ++ new ∧ ∀ steps : List StepTaken, steps.length = before →
    (new.foldl (takeStep names handle) steps).length = after ∧
      (printedLines new).foldl (readLine a.noteIndent) steps =
        new.foldl (takeStep names handle) steps

namespace Tells

variable {a b c : World S} {before middle after : Nat}

theorem of_eq (hMachines : a.machines ≤ b.machines) (hIndent : b.noteIndent = a.noteIndent)
    (hHistory : b.history = a.history) : Tells names handle count count a b :=
  ⟨hMachines, hIndent, [], by rw [hHistory, List.append_nil], fun _ hCount => ⟨hCount, rfl⟩⟩

theorem refl (a : World S) : Tells names handle count count a a := of_eq (Nat.le_refl _) rfl rfl

theorem trans (hab : Tells names handle before middle a b)
    (hbc : Tells names handle middle after b c) : Tells names handle before after a c where
  machines_le := hab.machines_le.trans hbc.machines_le
  indent_eq := hbc.indent_eq.trans hab.indent_eq
  history := by
    obtain ⟨first, hFirst, hTold⟩ := hab.history
    obtain ⟨second, hSecond, hTold'⟩ := hbc.history
    rw [hab.indent_eq] at hTold'
    refine ⟨first ++ second, by rw [hSecond, hFirst, List.append_assoc], fun steps hBefore => ?_⟩
    obtain ⟨hMiddle, hRead⟩ := hTold steps hBefore
    obtain ⟨hAfter, hRead'⟩ := hTold' _ hMiddle
    rw [printedLines_append, List.foldl_append, List.foldl_append, hRead]
    exact ⟨hAfter, hRead'⟩

/-- One more event, which prints what it does to the steps. -/
theorem log (a : World S) {e : Event S}
    (h : ∀ steps : List StepTaken, steps.length = before →
      (takeStep names handle steps e).length = after ∧
        e.lines.foldl (readLine a.noteIndent) steps = takeStep names handle steps e) :
    Tells names handle before after a (a.log e) := by
  refine ⟨Nat.le_refl _, rfl, [e], rfl, fun steps hBefore => ?_⟩
  simpa [printedLines] using h steps hBefore

theorem overlooks : Overlooks (Tells names handle count count : World S → World S → Prop) where
  refl := refl
  trans := fun _ _ _ hab hbc => hab.trans hbc
  answers := fun _ _ => of_eq (Nat.le_refl _) rfl rfl
  outstanding := fun _ _ => of_eq (Nat.le_refl _) rfl rfl
  spans := fun _ _ _ => of_eq (Nat.le_refl _) rfl rfl
  machines := fun _ => of_eq (Nat.le_succ _) rfl rfl
  talk := fun world e he => by
    refine log world fun steps hCount => ?_
    cases e with
    | call machine call =>
        cases call with
        | rule | ended => exact he.elim
        | _ => exact ⟨hCount, rfl⟩
    | rejectedRule | absorbed => exact ⟨hCount, rfl⟩
    | note | observed => exact he.elim

theorem observed (a : World S) (machine : Nat) (what : Observation S) :
    Tells names handle count count a (a.log (.observed machine what)) :=
  log a fun _ hCount => ⟨hCount, rfl⟩

/-- A note of the run about something else than its steps. -/
theorem preserves_note {text : String} {c : Char} (hPlain : '\n' ∉ text.toList)
    (hFirst : text.toList.head? = some c) (hStep : c ≠ 'S') (hRule : c ≠ 'R') :
    Preserves (Tells names handle count count) (note text : Client S Unit) := by
  refine fun world => ensures_note text (log world fun steps hCount => ⟨hCount, ?_⟩)
  rw [Event.lines_note hPlain, List.foldl_cons, List.foldl_nil, readLine_other hFirst hStep hRule]
  rfl

/-- A step starts: its line, then its rule. -/
theorem started (a : World S) {index : Nat} {rule : String} (hRule : names.getD index "" = rule)
    (hPlain : '\n' ∉ rule.toList) :
    Tells names handle count (count + 1) a
      ((a.log (.note a.noteIndent ("Step " ++ toString (count + 1) ++ ": " ++ rule))).log
        (.call handle (.rule index))) where
  machines_le := Nat.le_refl _
  indent_eq := rfl
  history := by
    refine ⟨_, List.append_assoc _ _ _, ?_⟩
    rintro steps rfl
    have hTaken : takeStep names handle steps (.call (S := S) handle (.rule index)) =
        { number := steps.length + 1, rule } :: steps := by
      rw [takeStep, if_pos rfl, hRule]
    constructor
    · exact congrArg List.length hTaken
    · show (Event.lines (.note a.noteIndent _) ++ []).foldl _ steps = _
      rw [Event.lines_note (header_plain _ hPlain)]
      exact (readLine_header _ rule).trans hTaken.symm

/-- A rejected step: how its `try` block ended, then the line. -/
theorem rejected (a : World S) {e : Exn} (hReject : e.isReject = true) :
    Tells names handle count count a
      ((a.log (.call handle (.ended (some e)))).log (.note a.noteIndent rejectedNote)) where
  machines_le := Nat.le_refl _
  indent_eq := rfl
  history := by
    have hPlain : '\n' ∉ rejectedNote.toList := by
      decide
    refine ⟨_, List.append_assoc _ _ _, fun steps hCount => ?_⟩
    have hTaken : takeStep names handle steps (.call (S := S) handle (.ended (some e))) =
        rejectLatest steps := if_pos ⟨rfl, hReject⟩
    constructor
    · exact (congrArg List.length hTaken).trans ((length_rejectLatest steps).trans hCount)
    · show ([] ++ (Event.lines (.note a.noteIndent rejectedNote) ++ [])).foldl _ steps = _
      rw [Event.lines_note hPlain]
      exact readLine_rejected.trans hTaken.symm

theorem preserves_checkInvariants {origin : String} (sampled : Bool) (index : Nat)
    {invariants : List (Invariant S)} (hOrigin : '\n' ∉ origin.toList)
    (hNames : ∀ invariant ∈ invariants, '\n' ∉ invariant.name.toList) :
    Preserves (Tells names handle count count)
      (checkInvariants handle origin sampled index invariants) := by
  induction invariants generalizing index with
  | nil => exact overlooks.pure ()
  | cons invariant rest ih =>
      obtain ⟨hName, hNames⟩ := List.forall_mem_cons.mp hNames
      have hSelected : Preserves (Tells names handle count count)
          (if sampled then shouldCheckInvariant handle index else Pure.pure true : Client S Bool) :=
        preserves_ite (overlooks.shouldCheckInvariant handle index) (overlooks.pure true)
      have hNote : '\n' ∉ ("Invariant " ++ invariant.name ++ " violated " ++ origin).toList := by
        simp [hName, hOrigin]
      have hCheck : Preserves (Tells names handle count count)
          (checkInvariant handle origin index invariant) :=
        preserves_checkInvariant refl overlooks.trans
          (fun _ _ world => ensures_record _ (observed world _ _))
          (preserves_note (c := 'I') hNote (by simp) (by decide) (by decide))
      exact overlooks.bind hSelected fun _ =>
        overlooks.bind (preserves_ite hCheck (overlooks.pure ())) fun _ => ih (index + 1) hNames

end Tells

/-- What an event of deeper code does to the steps: nothing, and its lines say so. -/
theorem untold {e : Event S} {floor indent deeper : Nat} (hAllowed : e.Allowed floor)
    (hWithin : e.Within deeper) (hOwn : handle < floor) (hDeeper : indent < deeper)
    (steps : List StepTaken) :
    takeStep names handle steps e = steps ∧ e.lines.foldl (readLine indent) steps = steps := by
  cases e with
  | note i text =>
      refine ⟨rfl, ?_⟩
      rw [Event.lines, List.foldl_map]
      refine List.foldl_fixed' (fun segment => readLine_deeper ?_) _
      exact Nat.lt_of_lt_of_le hDeeper hWithin
  | call machine call =>
      have hOther : machine ≠ handle := Nat.ne_of_gt (Nat.lt_of_lt_of_le hOwn hAllowed)
      refine ⟨?_, rfl⟩
      cases call with
      | rule => exact if_neg hOther
      | ended exn =>
          cases exn with
          | none => rfl
          | some e => exact if_neg fun h => hOther h.1
      | _ => rfl
  | _ => exact ⟨rfl, rfl⟩

/-- What a rule does tells nothing of the machine that runs it. -/
theorem rule_tells {step : Client S Unit} (hStep : Preserves Contained step) (world : World S)
    (hOwn : handle < world.machines) :
    (noteIndentScope step).Ensures world fun _ world' =>
      Tells names handle count count world world' := by
  refine ensures_noteIndentScope ((hStep _).mono fun _ left hEnd => ?_)
  obtain ⟨hEffect, hNested⟩ := hEnd
  obtain ⟨new, hNew, hAllowed⟩ := hEffect.history
  obtain ⟨new', hNew', hWithin⟩ := hNested.history
  obtain rfl : new = new' := List.append_cancel_left (hNew.symm.trans hNew')
  refine ⟨hEffect.machines_le, by simp [hNested.indent_eq], new, hNew, fun steps hCount => ?_⟩
  have hUntold : ∀ e ∈ new, takeStep names handle steps e = steps ∧
      e.lines.foldl (readLine world.noteIndent) steps = steps := fun e he =>
    untold (hAllowed e he) (hWithin e he) hOwn (Nat.lt_succ_self _) steps
  clear hNew hNew' hAllowed hWithin
  suffices hSame : new.foldl (takeStep names handle) steps = steps ∧
      (printedLines new).foldl (readLine world.noteIndent) steps = steps by
    rw [hSame.1, hSame.2]
    exact ⟨hCount, rfl⟩
  induction new with
  | nil => exact ⟨rfl, rfl⟩
  | cons e new ih =>
      obtain ⟨⟨hTaken, hRead⟩, hUntold⟩ := List.forall_mem_cons.mp hUntold
      rw [printedLines, List.flatMap_cons, List.foldl_append, List.foldl_cons, hTaken, hRead]
      exact ih hUntold

/-- Whatever a machine prints of its own stands on one line. -/
structure StateMachine.OnOneLine (machine : StateMachine S) : Prop where
  rules : ∀ rule ∈ machine.rules, '\n' ∉ rule.name.toList
  invariants : ∀ invariant ∈ machine.invariants, '\n' ∉ invariant.name.toList
  repr : ∀ now text, machine.repr now = .ok text → '\n' ∉ text.toList

/-- The names of the rules, which the engine gets. -/
abbrev StateMachine.ruleNames (machine : StateMachine S) : List String :=
  machine.rules.map (·.name)

/-- A loop whose variable counts the steps told so far. -/
theorem Tells.ensures_loop {α : Type} {body : Nat → Client S (Nat ⊕ α)} {Exits : α → Nat → Prop}
    (hBody : ∀ count world, handle < world.machines → (body count).Ensures world (andThen
      (fun next world' => next.elim (fun after => Tells names handle count after world world')
        (fun a => ∃ after, Exits a after ∧ Tells names handle count after world world'))
      (fun _ world' => ∃ after, Tells names handle count after world world')))
    (world : World S) (hOwn : handle < world.machines) :
    (Program.loop body count).Ensures world (andThen
      (fun a world' => ∃ after, Exits a after ∧ Tells names handle count after world world')
      (fun _ world' => ∃ after, Tells names handle count after world world')) := by
  refine Program.ensures_loop (fun now there => Tells names handle count now world there)
    (Tells.refl world) fun now there hNow => ?_
  have hOwn' := Nat.lt_of_lt_of_le hOwn hNow.machines_le
  refine (hBody now there hOwn').mono fun result world' hEnd => ?_
  rcases result with e | next
  · obtain ⟨after, hAfter⟩ := hEnd
    exact ⟨after, hNow.trans hAfter⟩
  cases next with
  | inl after => exact hNow.trans hEnd
  | inr a =>
      obtain ⟨after, hExits, hAfter⟩ := hEnd
      exact ⟨after, hExits, hNow.trans hAfter⟩

/-- What takes no step keeps what was told, and whatever it raises ends the run there. -/
theorem Tells.ensures_bind {α : Type} {before : Nat} {world there : World S} {p : Client S α}
    {k : α → Client S Unit} (h : Tells names handle before count world there)
    (hp : Preserves (Tells names handle count count) p)
    (hk : ∀ a next, Tells names handle before count world next →
      (k a).Ensures next fun _ world' => ∃ after, Tells names handle before after world world') :
    (p >>= k).Ensures there fun _ world' =>
      ∃ after, Tells names handle before after world world' := by
  refine Program.ensures_bind ((hp there).mono fun result next hNext => ?_)
  cases result with
  | error e => exact ⟨count, h.trans hNext⟩
  | ok a => exact hk a next (h.trans hNext)

section Run
variable {machine : StateMachine S} {params : RunParams} {rule : Rule S}

theorem observeRule_tells {step : Client S Unit} (index : Nat) (hStep : Preserves Contained step)
    (world : World S) (hOwn : handle < world.machines) :
    (observeRule handle index (noteIndentScope step)).Ensures world fun _ world' =>
      Tells names handle count count world world' := by
  have hBegun : Tells names handle count count world
      (world.log (.observed handle (.rule index))) := Tells.observed world _ _
  have hSeen {a : World S} (h : Tells names handle count count world a) (what : Observation S) :
      Tells names handle count count world (a.log (.observed handle what)) :=
    h.trans (Tells.observed a _ _)
  refine ensures_bind (ensures_record _ (ensures_bind (ensures_tryCatch ?_)))
  have hRule : (noteIndentScope step).Ensures _ fun _ world' =>
      Tells names handle count count (world.log (.observed handle (.rule index))) world' :=
    rule_tells hStep _ hOwn
  refine hRule.mono fun result left hLeft => ?_
  have hLeft := hBegun.trans hLeft
  cases result with
  | ok _ => exact ensures_bind (ensures_get (ensures_record _ (hSeen hLeft _)))
  | error e =>
      refine ensures_bind (ensures_get (ensures_bind (ensures_record _ (ensures_bind ?_))))
      refine ensures_ite (fun _ => ensures_pure _ (ensures_throw e (hSeen hLeft _))) fun _ => ?_
      exact ensures_record _ (ensures_throw e (hSeen (hSeen hLeft _) _))

theorem Tells.preserves_printState (hPlain : machine.OnOneLine) :
    Preserves (Tells names handle count count) (printState machine params) := by
  refine Tells.overlooks.bind Tells.overlooks.get fun world => ?_
  refine preserves_ite ?_ (Tells.overlooks.pure ())
  cases hText : machine.repr world.memory with
  | error e => exact Tells.overlooks.throw e
  | ok text =>
      have hLine : '\n' ∉ ("state = " ++ text).toList := by
        simp [hPlain.repr _ _ hText]
      exact Tells.preserves_note (c := 's') hLine (by simp) (by decide) (by decide)

theorem stepBody_tells (index : Nat) (hStep : Preserves Contained rule.step)
    (hPlain : machine.OnOneLine) (world : World S) (hOwn : handle < world.machines) :
    (stepBody machine params handle index rule).Ensures world fun _ world' =>
      Tells names handle count count world world' := by
  have hEnded : Preserves (Tells names handle count count)
      (record (.call handle (.ended none)) : Client S Unit) :=
    fun world => ensures_record _ (Tells.log world fun _ hCount => ⟨hCount, rfl⟩)
  have hRest : Preserves (Tells names handle count count) (do
      printState machine params
      record (.call handle (.ended none))
      record (.call handle (.stopSpan false))
      let _ ← stopSpan false
      pure () : Client S Unit) :=
    Tells.overlooks.bind (Tells.preserves_printState hPlain) fun _ =>
      Tells.overlooks.bind hEnded fun _ =>
        Tells.overlooks.bind (Tells.overlooks.record trivial) fun _ =>
          Tells.overlooks.bind (Tells.overlooks.stopSpan false) fun _ => Tells.overlooks.pure ()
  have hRule : (observeRule handle index (noteIndentScope rule.step)).Ensures world
      fun _ world' => Tells names handle count count world world' :=
    observeRule_tells index hStep world hOwn
  refine ensures_bind (hRule.mono fun result left hLeft => ?_)
  cases result with
  | error e => exact hLeft
  | ok _ => exact (hRest left).mono fun _ _ hEnd => hLeft.trans hEnd

theorem stepHandler_tells (start : World S) (opened : OpenSpan) (e : Exn) (world : World S) :
    (stepHandler handle start opened e).Ensures world fun _ world' =>
      Tells names handle count count world world' := by
  refine ensures_bind (ensures_record _ (ensures_ite (fun hReject => ?_) fun hReject => ?_))
  · have hRest : Preserves (Tells names handle count count) (do
        ruleRejected handle
        record (.call handle (.stopSpan true))
        let closed ← stopSpan true
        recordAbsorption .run start (some opened) closed : Client S Unit) :=
      Tells.overlooks.bind (Tells.overlooks.ruleRejected handle) fun _ =>
        Tells.overlooks.bind (Tells.overlooks.record trivial) fun _ =>
          Tells.overlooks.bind (Tells.overlooks.stopSpan true) fun _ =>
            Tells.overlooks.recordAbsorption _ _ _ _
    refine ensures_bind (ensures_note _ ((hRest _).mono fun _ _ hEnd => ?_))
    exact (Tells.rejected world hReject).trans hEnd
  · have hLeaves : Preserves (Tells names handle count count) (do
        record (.call handle (.stopSpan false))
        let _ ← stopSpan false
        Program.throw e : Client S Unit) :=
      Tells.overlooks.bind (Tells.overlooks.record trivial) fun _ =>
        Tells.overlooks.bind (Tells.overlooks.stopSpan false) fun _ => Tells.overlooks.throw e
    refine (hLeaves _).mono fun _ _ hEnd => ?_
    have hEnded : Tells names handle count count world
        (world.log (.call handle (.ended (some e)))) := by
      refine Tells.log world fun steps hCount => ?_
      have hKept : takeStep names handle steps (.call (S := S) handle (.ended (some e))) = steps :=
        if_neg fun h => hReject h.2
      exact ⟨hKept.symm ▸ hCount, hKept.symm⟩
    exact hEnded.trans hEnd

theorem runStep_tells (index : Nat) (hStep : Preserves Contained rule.step)
    (hPlain : machine.OnOneLine) (hRule : machine.rules[index]? = some rule) (world : World S)
    (hOwn : handle < world.machines) :
    (runStep machine params handle index (count + 1) rule).Ensures world (andThen
      (fun _ world' => Tells machine.ruleNames handle count (count + 1) world world')
      (fun _ world' => ∃ now, Tells machine.ruleNames handle count now world world')) := by
  have hName : machine.ruleNames.getD index "" = rule.name := by
    simp [hRule]
  have hLine : '\n' ∉ rule.name.toList := hPlain.rules rule (List.mem_of_getElem? hRule)
  have hAsked : Tells machine.ruleNames handle count count world
      (world.log (.call handle .startSpan)) :=
    Tells.overlooks.talk world _ trivial
  have hSpan : Preserves (Tells machine.ruleNames handle count count)
      (startSpan .statefulRule : Client S OpenSpan) := Tells.overlooks.startSpan _
  refine ensures_bind (ensures_get (ensures_bind (ensures_record _ ?_)))
  refine ensures_bind ((hSpan _).mono fun result asked hOpened => ?_)
  have hOpened := hAsked.trans hOpened
  cases result with
  | error e => exact ⟨count, hOpened⟩
  | ok opened =>
      have hStarted := hOpened.trans (Tells.started asked hName hLine)
      have hOwn' := Nat.lt_of_lt_of_le hOwn hStarted.machines_le
      refine ensures_bind (ensures_note _ (ensures_bind (ensures_record _ (ensures_tryCatch ?_))))
      have hBody : (stepBody machine params handle index rule).Ensures _ fun _ world' =>
          Tells machine.ruleNames handle (count + 1) (count + 1) _ world' :=
        stepBody_tells index hStep hPlain _ hOwn'
      refine hBody.mono fun result left hLeft => ?_
      have hLeft := hStarted.trans hLeft
      cases result with
      | ok _ => exact hLeft
      | error e =>
          have hHandler : (stepHandler handle world opened e).Ensures left fun _ world' =>
              Tells machine.ruleNames handle (count + 1) (count + 1) left world' :=
            stepHandler_tells world opened e left
          refine hHandler.mono fun result world' hEnd => ?_
          cases result with
          | ok _ => exact hLeft.trans hEnd
          | error e => exact ⟨_, hLeft.trans hEnd⟩

variable (hPlain : machine.OnOneLine)
  (hRules : ∀ rule ∈ machine.rules, Preserves Contained rule.step)
include hPlain hRules

theorem runRules_tells (world : World S) (hOwn : handle < world.machines) :
    (runRules machine params handle count).Ensures world (andThen
      (fun next world' => next.elim
        (fun after => Tells machine.ruleNames handle count after world world')
        (fun total => ∃ after, after = total ∧
          Tells machine.ruleNames handle count after world world'))
      (fun _ world' => ∃ after, Tells machine.ruleNames handle count after world world')) := by
  have hNext : Preserves (Tells machine.ruleNames handle count count)
      (nextRule handle : Client S Int) := Tells.overlooks.nextRule handle
  refine ensures_bind ((hNext world).mono fun result asked hAsked => ?_)
  cases result with
  | error e => exact ⟨count, hAsked⟩
  | ok index =>
      refine ensures_ite (fun _ => ensures_pure _ ⟨count, rfl, hAsked⟩) fun _ => ?_
      cases hRule : ruleAt machine.rules index with
      | none => exact ensures_throw _ ⟨count, hAsked⟩
      | some rule =>
          obtain ⟨hMem, -, -⟩ := ruleAt_spec hRule
          have hAt : machine.rules[index.toNat]? = some rule := by
            unfold ruleAt at hRule
            split at hRule
            · cases hRule
            · exact hRule
          have hOwn' := Nat.lt_of_lt_of_le hOwn hAsked.machines_le
          have hStep :
              (runStep machine params handle index.toNat (count + 1) rule).Ensures asked _ :=
            runStep_tells _ (hRules rule hMem) hPlain hAt asked hOwn'
          refine ensures_bind (hStep.mono fun result world' hEnd => ?_)
          cases result with
          | ok _ => exact ensures_pure _ (hAsked.trans hEnd)
          | error e =>
              obtain ⟨now, hNow⟩ := hEnd
              exact ⟨now, hAsked.trans hNow⟩

theorem runRounds_tells (world : World S) (hOwn : handle < world.machines) :
    (runRounds machine params handle count).Ensures world (andThen
      (fun next world' => next.elim
        (fun after => Tells machine.ruleNames handle count after world world')
        (fun _ => ∃ after, True ∧ Tells machine.ruleNames handle count after world world'))
      (fun _ world' => ∃ after, Tells machine.ruleNames handle count after world world')) := by
  have hNext : Preserves (Tells machine.ruleNames handle count count)
      (nextGroup handle : Client S Int) := Tells.overlooks.nextGroup handle
  refine ensures_bind ((hNext world).mono fun result asked hAsked => ?_)
  cases result with
  | error e => exact ⟨count, hAsked⟩
  | ok group =>
      refine ensures_ite (fun _ => ensures_pure _ ⟨count, trivial, hAsked⟩) fun _ => ?_
      have hOwn' := Nat.lt_of_lt_of_le hOwn hAsked.machines_le
      have hRound : (Program.loop (runRules machine params handle) count).Ensures asked _ :=
        Tells.ensures_loop (fun _ => runRules_tells hPlain hRules) asked hOwn'
      refine ensures_bind (hRound.mono fun result ended hEnded => ?_)
      rcases result with e | total
      · obtain ⟨after, hAfter⟩ := hEnded
        exact ⟨after, hAsked.trans hAfter⟩
      obtain ⟨after, rfl, hAfter⟩ := hEnded
      have hEnded := hAsked.trans hAfter
      have hOrigin : '\n' ∉ ("after step " ++ toString after).toList := by
        have hNumber : '\n' ∉ Nat.toDigits 10 after := fun hMem => by
          cases Decoder.isDigit_of_mem_toDigits hMem
        simp [hNumber]
      have hChecks : Preserves (Tells machine.ruleNames handle after after)
          (checkInvariants handle ("after step " ++ toString after) true 0 machine.invariants) :=
        Tells.preserves_checkInvariants true 0 hOrigin hPlain.invariants
      refine ensures_bind ((hChecks ended).mono fun result checked hChecked => ?_)
      cases result with
      | error e => exact ⟨after, hEnded.trans hChecked⟩
      | ok _ => exact ensures_pure _ (hEnded.trans hChecked)

/-- `stateful::run`, as its lines tell it. -/
theorem run_tells (world : World S) :
    (run machine params).Ensures world fun _ world' =>
      ∃ after, Tells machine.ruleNames world.machines 0 after world world' := by
  refine ensures_ite (fun _ => ensures_throw _ ⟨0, Tells.refl world⟩) fun _ => ?_
  have hNew : Preserves (Tells machine.ruleNames world.machines 0 0)
      (newStateMachine : Client S Nat) := Tells.overlooks.newStateMachine
  refine ensures_bind (((newStateMachine_calls world).and (hNew world)).mono ?_)
  rintro (e | handle) created ⟨⟨-, hOwn, hHandle⟩, hCreated⟩
  · exact ⟨0, hCreated⟩
  obtain rfl := hHandle handle rfl
  suffices hRest : Ensures _ created fun _ world' =>
      ∃ after, Tells machine.ruleNames world.machines 0 after created world' by
    exact hRest.mono fun _ world' ⟨after, hEnd⟩ => ⟨after, hCreated.trans hEnd⟩
  have hChecks (origin : String) (hOrigin : '\n' ∉ origin.toList) (count : Nat) :
      Preserves (Tells machine.ruleNames world.machines count count)
        (checkInvariants world.machines origin false 0 machine.invariants) :=
    Tells.preserves_checkInvariants false 0 hOrigin hPlain.invariants
  refine (Tells.refl created).ensures_bind
    (Tells.preserves_note (c := 'I') (by decide) rfl (by decide) (by decide)) fun _ a ha => ?_
  refine ha.ensures_bind (Tells.preserves_printState hPlain) fun _ b hb => ?_
  refine hb.ensures_bind (hChecks _ (by decide) 0) fun _ c hc => ?_
  have hOwn' := Nat.lt_of_lt_of_le hOwn hc.machines_le
  have hRounds : (Program.loop (runRounds machine params world.machines) 0).Ensures c _ :=
    Tells.ensures_loop (fun _ => runRounds_tells hPlain hRules) c hOwn'
  refine ensures_bind (hRounds.mono fun result d hd => ?_)
  cases result with
  | error e =>
      obtain ⟨after, hAfter⟩ := hd
      exact ⟨after, hc.trans hAfter⟩
  | ok _ =>
      obtain ⟨after, -, hAfter⟩ := hd
      refine (hc.trans hAfter).ensures_bind
        (Tells.preserves_note (c := 'F') (by decide) rfl (by decide) (by decide)) fun _ f hf => ?_
      exact (hChecks _ (by decide) after f).mono fun _ world' hEnd => ⟨after, hf.trans hEnd⟩

end Run

/-- The printed lines of a run tell which rules its steps ran, in their order
and numbered from 1, and which of the steps were rejected - whatever the rules
do and note, whatever the engine answers and however the run ends. -/
theorem run_reads_back (slots : Code.Slots S) (depth : Nat) (rules : List (String × Code S Unit))
    (invariants : List (Invariant S)) (repr : S → Except Exn String) (params : RunParams)
    (hPlain : (clientMachine slots depth rules invariants repr).OnOneLine) (world : World S) :
    (run (clientMachine slots depth rules invariants repr) params).Ensures world fun _ world' =>
      ∃ new, world'.history = world.history ++ new ∧
        readSteps world.noteIndent (printedText new) =
          stepsTaken (rules.map (·.1)) world.machines new := by
  have hRules : ∀ rule ∈ (clientMachine slots depth rules invariants repr).rules,
      Preserves Contained rule.step := by
    intro rule hRule
    obtain ⟨entry, -, rfl⟩ := List.mem_map.mp hRule
    exact contained_respected.exec slots depth entry.2
  have hNames : (clientMachine slots depth rules invariants repr).ruleNames = rules.map (·.1) :=
    List.map_map
  refine (run_tells hPlain hRules world).mono fun _ world' ⟨after, hTells⟩ => ?_
  obtain ⟨new, hNew, hTold⟩ := hTells.history
  refine ⟨new, hNew, ?_⟩
  rw [readSteps_printedText, (hTold [] rfl).2, hNames, stepsTaken]

/-! A run of two steps, the second of which is rejected. -/
section TwoSteps

def twoRules : List (String × Code Unit Unit) :=
  [("push", .note "Step 7: pushed"), ("pop", .throw hegelReject)]

def twoSteps : World Unit where
  answers := [{}, { int := 0 }, { int := 0 }, {}, { int := 1 }, {}, { int := stateMachineDone },
    { int := stateMachineDone }]
  memory := ()

private theorem twoSteps_run :
    (run (clientMachine (fun _ _ => none) 0 twoRules [] fun _ => .ok "()") {} 5 twoSteps).map
        (fun r => stepsTaken ["push", "pop"] 0 r.2.history) =
      some [{ number := 1, rule := "push" }, { number := 2, rule := "pop", rejected := true }] := by
  rfl

theorem run_reads_back_twoSteps :
    ∃ result world',
      run (clientMachine (fun _ _ => none) 0 twoRules [] fun _ => .ok "()") {} 5 twoSteps =
        some (result, world') ∧
      readSteps 0 (printedText world'.history) =
        [{ number := 1, rule := "push" }, { number := 2, rule := "pop", rejected := true }] := by
  have hPlain : (clientMachine (fun _ _ => none) 0 twoRules [] fun _ => .ok "()").OnOneLine := by
    refine ⟨?_, List.forall_mem_nil _, ?_⟩
    · simp [clientMachine, twoRules]
    · rintro now text ⟨⟩
      decide
  obtain ⟨⟨result, world'⟩, hEnd, hTaken⟩ := Option.map_eq_some_iff.mp twoSteps_run
  obtain ⟨new, hNew, hRead⟩ := run_reads_back _ _ _ _ _ _ hPlain twoSteps _ _ _ hEnd
  have hHistory : world'.history = new := hNew
  rw [← hHistory] at hRead
  exact ⟨result, world', hEnd, hRead.trans hTaken⟩

end TwoSteps
end Hegel
