import HegelCpp.Client.Threads
import HegelCpp.Concurrent.Outcome
import Mathlib.Tactic.Abel

/-! Where the return codes go by which the engine stops or rejects a test case:
every such code is reported by the exception that leaves the body, or absorbed,
or was lost in one of the ways the ghosts of the trace tell apart. -/
namespace Hegel.Threads

open Logic Program Origin Concurrent

/-- The `catch` clause that the exception for a refusal selects. -/
def Refusal.cls (refusal : Refusal) : ExnClass :=
  match refusal.entry with
  | .testCaseClone => .stdException
  | _ => if refusal.rc = .stopTest then .stopTest else .reject

/-- The exception selects the `catch` clause of every refusal it stands for. -/
def Raised.Faithful (raised : Raised) : Prop :=
  ∀ refusal ∈ raised.refusals, raised.exn.cls = refusal.cls

def Pending.refusals (pending : Pending) : Multiset Refusal :=
  match pending.raised with
  | none => 0
  | some raised => raised.refusals

/-- The refusals whose exceptions ended workers that were not joined. -/
def Trace.unheard (trace : Trace) : Multiset Refusal := (trace.unjoined.map Pending.refusals).sum

/-- The refusals no exception in flight stands for any more. -/
def Trace.settled (trace : Trace) : Multiset Refusal :=
  trace.absorbed + trace.dropped + trace.overtaken + trace.unheard

/-- The books of a case while exceptions that stand for `flight` are under way. -/
structure Books (trace : Trace) (flight : Multiset Refusal) : Prop where
  balanced : trace.refused = trace.settled + flight
  refused : ∀ refusal ∈ trace.refused, refusal.rc = .stopTest ∨ refusal.rc = .assume
  absorbed : ∀ refusal ∈ trace.absorbed, refusal.cls = .reject
  unjoined : ∀ pending ∈ trace.unjoined, ∀ raised, pending.raised = some raised → raised.Faithful

/-- However the code ends, the books are kept and the exception that leaves it
is faithful. -/
def Keeps {α : Type} (p : Thread α) : Prop :=
  ∀ trace flight, Books trace flight → p.Ensures trace
    (andThen (fun _ trace' => Books trace' flight)
      fun raised trace' => Books trace' (flight + raised.refusals) ∧ raised.Faithful)

variable {α β κ : Type}

/-! One rule for each way to put code together. -/
namespace Keeps

theorem pure (a : α) : Keeps (Pure.pure a : Thread α) := fun _ _ hBooks => ensures_pure a hBooks

theorem fail (exn : Exn) : Keeps (Threads.fail exn : Thread α) := by
  intro trace flight hBooks
  refine ensures_throw _ ⟨?_, fun refusal hRefusal => ?_⟩
  · rwa [add_zero]
  · exact absurd hRefusal (Multiset.notMem_zero refusal)

theorem bind {p : Thread α} {k : α → Thread β} (hp : Keeps p) (hk : ∀ a, Keeps (k a)) :
    Keeps (p >>= k) := by
  intro trace flight hBooks
  refine ensures_bind ((hp trace flight hBooks).mono ?_)
  rintro (raised | a) trace' hEnd
  · exact hEnd
  · exact hk a trace' flight hEnd

/-- A handler starts with the exception still under way. -/
theorem tryCatch {p : Thread α} {handler : Raised → Thread α} (hp : Keeps p)
    (hHandler : ∀ raised : Raised, raised.Faithful → ∀ trace flight,
      Books trace (flight + raised.refusals) → (handler raised).Ensures trace
        (andThen (fun _ trace' => Books trace' flight)
          fun later trace' => Books trace' (flight + later.refusals) ∧ later.Faithful)) :
    Keeps (p.tryCatch handler) := by
  intro trace flight hBooks
  refine ensures_tryCatch ((hp trace flight hBooks).mono ?_)
  rintro (raised | a) trace' hEnd
  · exact hHandler raised hEnd.2 trace' flight hEnd.1
  · exact hEnd

theorem loop {body : κ → Thread (κ ⊕ α)} (hBody : ∀ k, Keeps (body k)) (k : κ) :
    Keeps (Program.loop body k) := by
  intro trace flight hBooks
  refine ensures_loop (fun _ trace' => Books trace' flight) hBooks ?_
  intro k trace' hBooks'
  refine (hBody k trace' flight hBooks').mono ?_
  rintro (raised | next) last hEnd
  · exact hEnd
  · cases next with
    | inl k' => exact hEnd
    | inr a => exact hEnd

theorem ite {c : Prop} [Decidable c] {p q : Thread α} (hp : Keeps p) (hq : Keeps q) :
    Keeps (if c then p else q) := by
  split
  · exact hp
  · exact hq

/-- The code may look at the trace. -/
theorem get_bind {k : Trace → Thread β}
    (hk : ∀ trace flight, Books trace flight → (k trace).Ensures trace
      (andThen (fun _ trace' => Books trace' flight)
        fun raised trace' => Books trace' (flight + raised.refusals) ∧ raised.Faithful)) :
    Keeps (Program.get >>= k) :=
  fun trace flight hBooks => ensures_bind (ensures_get (hk trace flight hBooks))

theorem rethrow {raised : Raised} (hFaithful : raised.Faithful) {trace : Trace}
    {flight : Multiset Refusal} (hBooks : Books trace (flight + raised.refusals)) :
    (Program.throw raised : Thread α).Ensures trace (andThen (fun _ trace' => Books trace' flight)
      fun later trace' => Books trace' (flight + later.refusals) ∧ later.Faithful) :=
  ensures_throw _ ⟨hBooks, hFaithful⟩

end Keeps

/-- An exception that is under way through code that keeps the books. -/
abbrev Underway (raised : Raised) (trace : Trace) (flight : Multiset Refusal) : Prop :=
  Books trace (flight + raised.refusals) ∧ raised.Faithful

theorem Books.frame {trace trace' : Trace} {flight flight' : Multiset Refusal}
    (h : Books trace flight) (hBalanced : trace'.refused = trace'.settled + flight')
    (hRefused : trace'.refused = trace.refused) (hAbsorbed : trace'.absorbed = trace.absorbed)
    (hUnjoined : trace'.unjoined = trace.unjoined) : Books trace' flight' :=
  ⟨hBalanced, hRefused ▸ h.refused, hAbsorbed ▸ h.absorbed, hUnjoined ▸ h.unjoined⟩

section Call

variable {entry : EntryPoint} {answer : Answer} {number : Nat}

theorem raised_of_ne (h : entry ≠ .testCaseClone) :
    entry.raised answer = answer.rc.raised entry.what answer.lastError := by
  cases entry <;> first | rfl | exact absurd rfl h

theorem Refusal.cls_of_ne {refusal : Refusal} (h : refusal.entry ≠ .testCaseClone) :
    refusal.cls = if refusal.rc = .stopTest then .stopTest else .reject := by
  obtain ⟨number, entry, rc⟩ := refusal
  cases entry <;> first | rfl | exact absurd rfl h

theorem mem_refusals {refusal : Refusal} :
    refusal ∈ Answer.refusals answer number entry ↔
      (answer.rc = .stopTest ∨ answer.rc = .assume) ∧ refusal = ⟨number, entry, answer.rc⟩ := by
  unfold Answer.refusals
  split <;> simp [*]

theorem refusals_of_answered (h : entry.raised answer = none) :
    Answer.refusals answer number entry = 0 := by
  refine if_neg ?_
  rintro (hRc | hRc)
  all_goals
    cases entry <;> simp [EntryPoint.raised, checkRc, ResultCode.raised, hRc] at h

/-- `raise_for_rc` and `check_rc` throw what the code of a refusal stands for. -/
theorem raised_faithful {exn : Exn} (h : entry.raised answer = some exn) :
    Raised.Faithful { exn, refusals := Answer.refusals answer number entry } := by
  intro refusal hRefusal
  obtain ⟨hRc, rfl⟩ := mem_refusals.mp hRefusal
  by_cases hClone : entry = .testCaseClone
  · subst hClone
    rcases hRc with hRc | hRc
    all_goals
      simp only [EntryPoint.raised, checkRc, hRc, Option.some.injEq] at h
      exact h ▸ rfl
  · rw [raised_of_ne hClone] at h
    rw [Refusal.cls_of_ne hClone]
    rcases hRc with hRc | hRc
    all_goals
      simp only [ResultCode.raised, hRc, Option.some.injEq] at h
      simp only [hRc]
      exact h ▸ rfl

theorem call_keeps (entry : EntryPoint) : Keeps (call entry) := by
  refine Keeps.get_bind fun trace flight hBooks => ?_
  refine ensures_bind (ensures_modify _ ?_)
  have hCalled : Books { trace with
      answers := trace.answers.tail, calls := trace.calls + 1
      refused := trace.refused + Answer.refusals (trace.answers.headD { rc := .stopTest })
        trace.calls entry }
      (flight + Answer.refusals (trace.answers.headD { rc := .stopTest }) trace.calls entry) := by
    refine ⟨?_, fun refusal hRefusal => ?_, hBooks.absorbed, hBooks.unjoined⟩
    · show trace.refused + _ = trace.settled + _
      rw [hBooks.balanced, add_assoc]
    · rcases Multiset.mem_add.mp hRefusal with h | h
      · exact hBooks.refused refusal h
      · obtain ⟨hRc, rfl⟩ := mem_refusals.mp h
        exact hRc
  cases hRaised : entry.raised (trace.answers.headD { rc := .stopTest }) with
  | none =>
      rw [refusals_of_answered hRaised, add_zero, add_zero] at hCalled
      refine ensures_pure _ ?_
      rw [refusals_of_answered hRaised, add_zero]
      exact hCalled
  | some exn => exact ensures_throw _ ⟨hCalled, raised_faithful hRaised⟩

end Call

theorem refusalsOf_cons (first : Raised) (rest : List Raised) :
    refusalsOf (first :: rest) = first.refusals + refusalsOf rest := by
  rw [refusalsOf, List.map_cons, List.sum_cons, refusalsOf]

theorem mem_refusalsOf {refusal : Refusal} {raised : List Raised} :
    refusal ∈ refusalsOf raised ↔ ∃ other ∈ raised, refusal ∈ other.refusals := by
  induction raised with
  | nil => simp [refusalsOf]
  | cons first rest ih => simp [refusalsOf_cons, ih]

theorem refusalsOf_filter (p : Raised → Bool) (raised : List Raised) :
    refusalsOf raised =
      refusalsOf (raised.filter fun other => !p other) + refusalsOf (raised.filter p) := by
  induction raised with
  | nil => rfl
  | cons first rest ih =>
      cases hFirst : p first with
      | true =>
          rw [List.filter_cons_of_pos hFirst, List.filter_cons_of_neg (by simp [hFirst]),
            refusalsOf_cons, refusalsOf_cons, ih, add_left_comm]
      | false =>
          have hOther : (!p first) = true := by rw [hFirst]; rfl
          rw [List.filter_cons_of_pos (p := fun other => !p other) hOther,
            List.filter_cons_of_neg (by simp [hFirst]), refusalsOf_cons, refusalsOf_cons, ih,
            add_assoc]

/-- What takes the place of other exceptions stands for those of its own class. -/
theorem raiseInstead_keeps {exn : Exn} {raised : List Raised} {trace : Trace}
    {flight : Multiset Refusal} (hBooks : Books trace (flight + refusalsOf raised))
    (hFaithful : ∀ other ∈ raised, other.Faithful) :
    (raiseInstead exn raised : Thread α).Ensures trace
      (andThen (fun _ _ => False) fun later trace' => Underway later trace' flight) := by
  refine ensures_bind (ensures_modify _ (ensures_throw _ ⟨?_, ?_⟩))
  · refine hBooks.frame ?_ rfl rfl rfl
    show trace.refused = trace.absorbed + trace.dropped + (trace.overtaken + _) + trace.unheard + _
    rw [hBooks.balanced, Trace.settled,
      refusalsOf_filter (fun other => decide (other.exn.cls = exn.cls)) raised]
    abel
  · intro refusal hRefusal
    obtain ⟨other, hOther, hMem⟩ := mem_refusalsOf.mp hRefusal
    obtain ⟨hOther, hCls⟩ := List.mem_filter.mp hOther
    exact (of_decide_eq_true hCls).symm.trans (hFaithful other hOther refusal hMem)

/-! One lemma for each handler and runner of the library. -/

theorem absorbed_keeps {raised : Raised} (hReject : raised.exn.isReject = true)
    (hFaithful : raised.Faithful) {handler : Thread α} (hHandler : Keeps handler) {trace : Trace}
    {flight : Multiset Refusal} (hBooks : Books trace (flight + raised.refusals)) :
    (do
      Program.modify fun trace => { trace with absorbed := trace.absorbed + raised.refusals }
      handler : Thread α).Ensures trace (andThen (fun _ trace' => Books trace' flight)
        fun later trace' => Underway later trace' flight) := by
  refine ensures_bind (ensures_modify _ ?_)
  refine hHandler _ flight ⟨?_, hBooks.refused, ?_, hBooks.unjoined⟩
  · show trace.refused = trace.absorbed + raised.refusals + trace.dropped + trace.overtaken +
      trace.unheard + flight
    rw [hBooks.balanced, Trace.settled]
    abel
  · intro refusal hRefusal
    rcases Multiset.mem_add.mp hRefusal with h | h
    · exact hBooks.absorbed refusal h
    · exact (hFaithful refusal h).symm.trans (eq_of_beq hReject)

theorem absorbReject_keeps {body handler : Thread Unit} (hBody : Keeps body)
    (hHandler : Keeps handler) : Keeps (absorbReject body handler) := by
  refine hBody.tryCatch fun raised hFaithful trace flight hBooks => ?_
  cases hReject : raised.exn.isReject with
  | true => exact absorbed_keeps hReject hFaithful hHandler hBooks
  | false => exact Keeps.rethrow hFaithful hBooks

theorem repeatBody_keeps {body : Thread Unit} (hBody : Keeps body) : Keeps (repeatBody body) := by
  refine (call_keeps _).bind fun _ => (call_keeps _).bind fun _ => Keeps.loop (fun _ => ?_) ()
  refine (call_keeps _).bind fun answer => Keeps.ite ?_ (Keeps.pure _)
  exact (absorbReject_keeps hBody (Keeps.pure ())).bind fun _ => Keeps.pure _

theorem checkInvariants_keeps {sampled : Bool} {invariants : List (Thread Unit)}
    (hInvariants : ∀ invariant ∈ invariants, Keeps invariant) :
    Keeps (checkInvariants sampled invariants) := by
  induction invariants with
  | nil => exact Keeps.pure ()
  | cons invariant rest ih =>
      refine (Keeps.ite (call_keeps _) (Keeps.pure _)).bind fun answer => ?_
      refine (Keeps.ite (hInvariants _ List.mem_cons_self) (Keeps.pure _)).bind fun _ => ?_
      exact ih fun other hOther => hInvariants other (List.mem_cons_of_mem _ hOther)

theorem closeAndRethrow_keeps {raised : Raised} (hFaithful : raised.Faithful) {trace : Trace}
    {flight : Multiset Refusal} (hBooks : Books trace (flight + raised.refusals)) :
    (closeAndRethrow raised).Ensures trace (andThen (fun _ trace' => Books trace' flight)
      fun later trace' => Underway later trace' flight) := by
  refine ensures_bind (ensures_tryCatch ((call_keeps .stopSpan trace _ hBooks).mono ?_))
  rintro (later | answer) trace' hEnd
  · have hBoth : Books trace' (flight + refusalsOf [raised, later]) := by
      have hSum : refusalsOf [raised, later] = raised.refusals + later.refusals := by
        simp [refusalsOf]
      rw [hSum, ← add_assoc]
      exact hEnd.1
    have hEach : ∀ other ∈ [raised, later], other.Faithful := by
      simp only [List.mem_cons, List.not_mem_nil, or_false, forall_eq_or_imp, forall_eq]
      exact ⟨hFaithful, hEnd.2⟩
    refine (raiseInstead_keeps hBoth hEach).mono ?_
    rintro (last | answer) trace'' hLast
    · exact hLast
    · exact hLast.elim
  · exact Keeps.rethrow hFaithful hEnd

theorem runStep_keeps {print rule : Thread Unit} (hPrint : Keeps print) (hRule : Keeps rule) :
    Keeps (runStep print rule) := by
  have hBody : Keeps (do rule; print; let _ ← call .stopSpan; pure () : Thread Unit) :=
    hRule.bind fun _ => hPrint.bind fun _ => (call_keeps _).bind fun _ => Keeps.pure ()
  refine (call_keeps _).bind fun _ => hBody.tryCatch fun raised hFaithful trace flight hBooks => ?_
  cases hReject : raised.exn.isReject with
  | true =>
      have hHandler : Keeps (do
          let _ ← call .ruleRejected
          let _ ← call .stopSpan
          pure () : Thread Unit) :=
        (call_keeps _).bind fun _ => (call_keeps _).bind fun _ => Keeps.pure ()
      exact absorbed_keeps hReject hFaithful hHandler hBooks
  | false => exact closeAndRethrow_keeps hFaithful hBooks

theorem ruleAt_keeps {rules : List (Thread Unit)} (hRules : ∀ rule ∈ rules, Keeps rule)
    {index : Int} {rule : Thread Unit} (hRule : ruleAt rules index = some rule) : Keeps rule := by
  unfold ruleAt at hRule
  split at hRule
  · cases hRule
  · exact hRules rule (List.mem_of_getElem? hRule)

theorem runRules_keeps {rules : List (Thread Unit)} {print : Thread Unit}
    (hRules : ∀ rule ∈ rules, Keeps rule) (hPrint : Keeps print) :
    Keeps (runRules rules print) := by
  refine (call_keeps _).bind fun answer => Keeps.ite (Keeps.pure _) ?_
  split
  · exact Keeps.fail _
  · next rule hRule =>
      exact (runStep_keeps hPrint (ruleAt_keeps hRules hRule)).bind fun _ => Keeps.pure _

theorem run_keeps {rules invariants : List (Thread Unit)} {print : Thread Unit}
    (hRules : ∀ rule ∈ rules, Keeps rule) (hInvariants : ∀ invariant ∈ invariants, Keeps invariant)
    (hPrint : Keeps print) : Keeps (run rules invariants print) := by
  have hRound : Keeps (runRounds rules invariants print) := by
    refine (call_keeps _).bind fun answer => Keeps.ite (Keeps.pure _) ?_
    refine (Keeps.loop (fun _ => runRules_keeps hRules hPrint) ()).bind fun _ => ?_
    exact (checkInvariants_keeps hInvariants).bind fun _ => Keeps.pure _
  refine Keeps.ite (Keeps.fail _) ?_
  refine (call_keeps _).bind fun _ => hPrint.bind fun _ => ?_
  refine (checkInvariants_keeps hInvariants).bind fun _ => ?_
  exact (Keeps.loop (fun _ => hRound) ()).bind fun _ => checkInvariants_keeps hInvariants

/-- The refusals a captured exception stands for stay under way. -/
theorem capture_keeps {p : Thread α} (hp : Keeps p) {trace : Trace} {flight : Multiset Refusal}
    (hBooks : Books trace flight) :
    (capture p).Ensures trace (andThen (fun ended trace' =>
        Books trace' (flight + refusalsOf ended.getRight?.toList) ∧
          ∀ raised ∈ ended.getRight?, raised.Faithful) fun _ _ => False) := by
  refine ensures_tryCatch (ensures_bind ((hp trace flight hBooks).mono ?_))
  rintro (raised | a) trace' hEnd
  · refine ensures_pure _ ⟨?_, fun other hOther => Option.some.inj hOther ▸ hEnd.2⟩
    have hSum : refusalsOf [raised] = raised.refusals := by simp [refusalsOf]
    show Books trace' (flight + refusalsOf [raised])
    rw [hSum]
    exact hEnd.1
  · refine ensures_pure _ ⟨?_, fun other hOther => nomatch hOther⟩
    show Books trace' (flight + refusalsOf [])
    rw [refusalsOf, List.map_nil, List.sum_nil, add_zero]
    exact hEnd

theorem runRoundRule_keeps {rules : List (Thread Unit)} (hRules : ∀ rule ∈ rules, Keeps rule) :
    Keeps (runRoundRule rules) := by
  refine (call_keeps _).bind fun answer => Keeps.ite (Keeps.pure _) ?_
  split
  · exact Keeps.fail _
  · next rule hRule =>
      have hHandler : Keeps (do let _ ← call .ruleRejected; pure () : Thread Unit) :=
        (call_keeps _).bind fun _ => Keeps.pure ()
      exact (absorbReject_keeps (ruleAt_keeps hRules hRule) hHandler).bind fun _ => Keeps.pure _

theorem refusalsOf_append (raised rest : List Raised) :
    refusalsOf (raised ++ rest) = refusalsOf raised + refusalsOf rest := by
  simp [refusalsOf]

/-- The exceptions that ended the workers' rounds are all under way. -/
theorem runWorkers_keeps {rules : List (Thread Unit)} (hRules : ∀ rule ∈ rules, Keeps rule)
    (workers : Nat) {trace : Trace} {flight : Multiset Refusal} (hBooks : Books trace flight) :
    (runWorkers rules workers).Ensures trace (andThen (fun ended trace' =>
        Books trace' (flight + refusalsOf (ended.filterMap id)) ∧
          ∀ raised ∈ ended.filterMap id, raised.Faithful) fun _ _ => False) := by
  induction workers generalizing trace flight with
  | zero =>
      refine ensures_pure _ ⟨?_, fun raised hRaised => nomatch hRaised⟩
      rw [List.filterMap_nil, refusalsOf, List.map_nil, List.sum_nil, add_zero]
      exact hBooks
  | succ workers ih =>
      have hRound := capture_keeps (Keeps.loop (fun _ => runRoundRule_keeps hRules) ()) hBooks
      refine ensures_bind (ensures_bind (hRound.mono ?_))
      rintro (raised | ended) trace' hEnd
      · exact hEnd.elim
      refine ensures_pure _ (ensures_bind ((ih hEnd.1).mono ?_))
      rintro (raised | rest) trace'' hRest
      · exact hRest
      have hEnded : (ended.getRight? :: rest).filterMap id =
          ended.getRight?.toList ++ rest.filterMap id := by
        cases ended.getRight? <;> rfl
      refine ensures_pure _ ?_
      rw [andThen_ok, hEnded, refusalsOf_append, ← add_assoc]
      refine ⟨hRest.1, fun raised hRaised => ?_⟩
      rcases List.mem_append.mp hRaised with h | h
      · exact hEnd.2 raised (Option.mem_toList.mp h)
      · exact hRest.2 raised h

/-- A round without a verdict has no exception under way. -/
theorem no_exceptions {ended : List (Option Raised)}
    (h : (roundOutcome fun w : Fin ended.length => eventOf (ended.get w)) = none) :
    ended.filterMap id = [] := by
  have hVerdict := RoundVerdict.iff_roundOutcome.mpr h
  cases hVerdict with
  | roundDone hAll =>
      rw [List.filterMap_eq_nil_iff]
      intro result hResult
      obtain ⟨w, rfl⟩ := List.mem_iff_get.mp hResult
      have hDone := hAll w
      cases hGet : ended.get w with
      | none => rfl
      | some raised =>
          rw [hGet] at hDone
          obtain ⟨⟨cls, typeName, what, failureOrigin⟩, refusals⟩ := raised
          cases cls <;> cases hDone

theorem scanRound_keeps {ended : List (Option Raised)}
    (hFaithful : ∀ raised ∈ ended.filterMap id, raised.Faithful) {trace : Trace}
    {flight : Multiset Refusal}
    (hBooks : Books trace (flight + refusalsOf (ended.filterMap id))) :
    (scanRound ended).Ensures trace (andThen (fun _ trace' => Books trace' flight)
      fun later trace' => Underway later trace' flight) := by
  unfold scanRound
  split
  · next hNone =>
      rw [no_exceptions hNone, refusalsOf, List.map_nil, List.sum_nil, add_zero] at hBooks
      exact ensures_pure _ hBooks
  · refine (raiseInstead_keeps hBooks hFaithful).mono ?_
    rintro (later | u) trace' hEnd
    · exact hEnd
    · exact hEnd.elim

theorem startWorkers_keeps (started remaining : Nat) : Keeps (startWorkers started remaining) := by
  induction remaining generalizing started with
  | zero => exact Keeps.pure ()
  | succ remaining ih =>
      refine Keeps.bind ((call_keeps _).tryCatch fun raised hFaithful trace flight hBooks => ?_)
        fun _ => ih (started + 1)
      exact ensures_ite (fun _ => Keeps.rethrow hFaithful hBooks) fun _ => ensures_diverge

theorem concurrentRound_keeps {rules invariants : List (Thread Unit)}
    (hRules : ∀ rule ∈ rules, Keeps rule) (hInvariants : ∀ invariant ∈ invariants, Keeps invariant)
    (groups workers : Nat) : Keeps (concurrentRound groups workers rules invariants) := by
  refine (call_keeps _).bind fun answer => Keeps.ite (Keeps.pure _) (Keeps.ite (Keeps.fail _) ?_)
  intro trace flight hBooks
  refine ensures_bind ((runWorkers_keeps hRules workers hBooks).mono ?_)
  rintro (raised | ended) trace' hEnd
  · exact hEnd.elim
  refine ensures_bind ((scanRound_keeps hEnd.2 hEnd.1).mono ?_)
  rintro (raised | u) trace'' hScan
  · exact hScan
  have hRest : Keeps (do checkInvariants true invariants; pure (.inl ()) : Thread (Unit ⊕ Unit)) :=
    (checkInvariants_keeps hInvariants).bind fun _ => Keeps.pure _
  exact hRest trace'' flight hScan

theorem runConcurrent_keeps {rules invariants : List (Thread Unit)}
    (hRules : ∀ rule ∈ rules, Keeps rule) (hInvariants : ∀ invariant ∈ invariants, Keeps invariant)
    (decls : List RuleDecl) (minConcurrency maxConcurrency : Int) :
    Keeps (runConcurrent decls rules invariants minConcurrency maxConcurrency) := by
  refine Keeps.ite (Keeps.fail _) (Keeps.ite (Keeps.fail _) ?_)
  refine (call_keeps _).bind fun machine => (checkInvariants_keeps hInvariants).bind fun _ => ?_
  refine (startWorkers_keeps _ _).bind fun _ => ?_
  exact (Keeps.loop (fun _ => concurrentRound_keeps hRules hInvariants _ _) ()).bind fun _ =>
    checkInvariants_keeps hInvariants

theorem spawn_keeps {body : Thread α} (hBody : Keeps body) : Keeps (spawn body) := by
  refine (call_keeps _).bind fun _ => ?_
  intro trace flight hBooks
  refine ensures_bind ((capture_keeps hBody hBooks).mono ?_)
  rintro (raised | ended) trace' hEnd
  · exact hEnd.elim
  refine ensures_bind (ensures_get (ensures_bind (ensures_modify _ (ensures_pure _ ?_))))
  refine ⟨?_, hEnd.1.refused, hEnd.1.absorbed, fun pending hPending => ?_⟩
  · have hUnheard : ((trace'.unjoined ++ [Pending.mk trace'.spawned ended.getRight?]).map
        Pending.refusals).sum = trace'.unheard + refusalsOf ended.getRight?.toList := by
      rw [List.map_append, List.sum_append, Trace.unheard]
      cases ended.getRight? <;> rfl
    show trace'.refused = trace'.absorbed + trace'.dropped + trace'.overtaken + List.sum _ + flight
    rw [hUnheard, hEnd.1.balanced, Trace.settled]
    abel
  · rcases List.mem_append.mp hPending with h | h
    · exact hEnd.1.unjoined pending h
    · rw [List.mem_singleton.mp h]
      exact fun raised hRaised => hEnd.2 raised hRaised

theorem sum_eraseP {p : Pending → Bool} {unjoined : List Pending} {pending : Pending}
    (hFound : unjoined.find? p = some pending) :
    (unjoined.map Pending.refusals).sum =
      ((unjoined.eraseP p).map Pending.refusals).sum + pending.refusals := by
  induction unjoined with
  | nil => cases hFound
  | cons first rest ih =>
      cases hFirst : p first with
      | true =>
          rw [List.find?_cons_of_pos hFirst] at hFound
          rw [List.eraseP_cons_of_pos hFirst, List.map_cons, List.sum_cons,
            ← Option.some.inj hFound, add_comm]
      | false =>
          have hNot : ¬p first = true := by rw [hFirst]; exact Bool.false_ne_true
          rw [List.find?_cons_of_neg hNot] at hFound
          rw [List.eraseP_cons_of_neg hNot, List.map_cons, List.sum_cons, List.map_cons,
            List.sum_cons, ih hFound, add_assoc]

/-- A worker's exception goes on in the thread that joins it. -/
theorem join_keeps (worker : Worker α) : Keeps (join worker) := by
  refine Keeps.get_bind fun trace flight hBooks => ?_
  split
  · exact Keeps.fail _ trace flight hBooks
  · next pending hFound =>
      have hJoined : Books { trace with
          unjoined := trace.unjoined.eraseP fun pending => pending.id == worker.id }
          (flight + pending.refusals) := by
        refine ⟨?_, hBooks.refused, hBooks.absorbed, fun other hOther =>
          hBooks.unjoined other (List.mem_of_mem_eraseP hOther)⟩
        show trace.refused = trace.absorbed + trace.dropped + trace.overtaken + List.sum _ + _
        rw [hBooks.balanced, Trace.settled, Trace.unheard, sum_eraseP hFound]
        abel
      have hHeard := hBooks.unjoined pending (List.mem_of_find?_eq_some hFound)
      obtain ⟨id, raised⟩ := pending
      refine ensures_bind (ensures_modify _ ?_)
      cases raised with
      | some raised => exact Keeps.rethrow (hHeard raised rfl) hJoined
      | none =>
          have hNone : Books _ flight := (add_zero flight) ▸ hJoined
          cases worker.value with
          | none => exact Keeps.fail _ _ flight hNone
          | some a => exact ensures_pure _ hNone

/-- A handler of the body drops the exception or lets it through. -/
theorem handle_keeps {raised : Raised} (hFaithful : raised.Faithful) {handler : Thread (Option α)}
    (hHandler : Keeps handler) {trace : Trace} {flight : Multiset Refusal}
    (hBooks : Books trace (flight + raised.refusals)) :
    (handle raised handler).Ensures trace (andThen (fun _ trace' => Books trace' flight)
      fun later trace' => Underway later trace' flight) := by
  have hDrop {trace : Trace} (more : Multiset Refusal)
      (hBooks : Books trace (flight + raised.refusals + more)) :
      Books { trace with dropped := trace.dropped + raised.refusals } (flight + more) := by
    refine hBooks.frame ?_ rfl rfl rfl
    show trace.refused = trace.absorbed + (trace.dropped + raised.refusals) + trace.overtaken +
      trace.unheard + _
    rw [hBooks.balanced, Trace.settled]
    abel
  refine ensures_bind (ensures_tryCatch ((hHandler trace _ hBooks).mono ?_))
  rintro (later | result) trace' hEnd
  · exact ensures_bind (ensures_modify _ (ensures_throw _ ⟨hDrop _ hEnd.1, hEnd.2⟩))
  · cases result with
    | none => exact Keeps.rethrow hFaithful hEnd
    | some a =>
        have hNone := hDrop 0 (by rwa [add_zero])
        rw [add_zero] at hNone
        exact ensures_bind (ensures_modify _ (ensures_pure _ hNone))

theorem exec_keeps {S : Type} (seen : Nat → S) (task : Task S α) : Keeps (task.exec seen) := by
  induction task with
  | ret a => exact Keeps.pure a
  | bind p k ihp ihk => exact ihp.bind ihk
  | loop body k ih => exact Keeps.loop ih k
  | throw exn => exact Keeps.fail exn
  | tryCatch p handler ihp ihHandler =>
      exact ihp.tryCatch fun raised hFaithful trace flight hBooks =>
        handle_keeps hFaithful (ihHandler raised.exn) hBooks
  | read =>
      refine Keeps.get_bind fun trace flight hBooks => ?_
      refine ensures_bind (ensures_modify _ (ensures_pure _ ?_))
      exact hBooks.frame hBooks.balanced rfl rfl rfl
  | call entry => exact call_keeps entry
  | «repeat» body ih => exact repeatBody_keeps ih
  | run rules invariants print ihRules ihInvariants ihPrint =>
      exact run_keeps (List.forall_mem_ofFn_iff.mpr ihRules)
        (List.forall_mem_ofFn_iff.mpr ihInvariants) ihPrint
  | runConcurrent decls rules invariants minConcurrency maxConcurrency ihRules ihInvariants =>
      exact runConcurrent_keeps (List.forall_mem_ofFn_iff.mpr ihRules)
        (List.forall_mem_ofFn_iff.mpr ihInvariants) _ _ _
  | spawn body ih => exact spawn_keeps ih
  | join worker => exact join_keeps worker

/-- The body lets the exceptions through that stand for refusals: its handlers
do, and its workers were joined. -/
structure Trace.Propagated (trace : Trace) : Prop where
  dropped : trace.dropped = 0
  unheard : trace.unheard = 0

section Status

variable {dladdr : Dladdr} (thread : ThreadState dladdr) {ending : Except Raised Unit}
  {trace : Trace}

/-- The status of the case whose body ended like this. -/
def statusOf (ending : Except Raised Unit) : Status :=
  caseStatus thread (ending.mapError Raised.exn)

/-- The code of a refusal decides about the case. -/
def Refusal.Respected (refusal : Refusal) (trace : Trace) (ending : Except Raised Unit) : Prop :=
  (refusal.rc = .stopTest → statusOf thread ending = .overrun) ∧
    (refusal.rc = .assume → refusal ∈ trace.absorbed ∨ statusOf thread ending = .invalid)

/-- The engine's codes decide about the case. -/
def Respected (trace : Trace) (ending : Except Raised Unit) : Prop :=
  ∀ refusal ∈ trace.refused, refusal.Respected thread trace ending

theorem statusOf_error (raised : Raised) :
    statusOf thread (.error raised) = match raised.exn.cls with
      | .stopTest => .overrun
      | .reject => .invalid
      | _ => .interesting := by
  obtain ⟨⟨cls, typeName, what, failureOrigin⟩, refusals⟩ := raised
  cases cls <;> rfl

/-- A refusal was absorbed, lost to another exception, or left the body. -/
theorem refusal_reported {flight : Multiset Refusal} (hBooks : Books trace flight)
    (hPropagated : trace.Propagated) {refusal : Refusal} (hRefusal : refusal ∈ trace.refused) :
    (refusal ∈ trace.absorbed ∨ refusal ∈ trace.overtaken) ∨ refusal ∈ flight := by
  rw [hBooks.balanced, Trace.settled, hPropagated.dropped, hPropagated.unheard, add_zero,
    add_zero] at hRefusal
  exact (Multiset.mem_add.mp hRefusal).imp_left Multiset.mem_add.mp

/-- The case has the status of each refusal that was neither absorbed nor lost. -/
theorem status_of_refusal
    (hEnd : andThen (fun _ trace => Books trace 0) (fun raised trace => Underway raised trace 0)
      ending trace) (hPropagated : trace.Propagated) {refusal : Refusal}
    (hRefusal : refusal ∈ trace.refused) (hAbsorbed : refusal ∉ trace.absorbed)
    (hOvertaken : refusal ∉ trace.overtaken) :
    statusOf thread ending = match refusal.cls with
      | .stopTest => .overrun
      | .reject => .invalid
      | _ => .interesting := by
  have hOpen : ¬(refusal ∈ trace.absorbed ∨ refusal ∈ trace.overtaken) :=
    not_or.mpr ⟨hAbsorbed, hOvertaken⟩
  cases ending with
  | ok u =>
      have hFlight := (refusal_reported hEnd hPropagated hRefusal).resolve_left hOpen
      exact absurd hFlight (Multiset.notMem_zero refusal)
  | error raised =>
      have hFlight := (refusal_reported hEnd.1 hPropagated hRefusal).resolve_left hOpen
      rw [zero_add] at hFlight
      rw [statusOf_error, hEnd.2 refusal hFlight]

/-- A refusal of a call other than a clone is never absorbed as a stop. -/
theorem rc_of_absorbed {flight : Multiset Refusal} (hBooks : Books trace flight)
    {refusal : Refusal} (hAbsorbed : refusal ∈ trace.absorbed) :
    refusal.entry ≠ .testCaseClone ∧ refusal.rc ≠ .stopTest := by
  have hCls := hBooks.absorbed refusal hAbsorbed
  have hEntry : refusal.entry ≠ .testCaseClone := by
    intro hClone
    rw [Refusal.cls, hClone] at hCls
    cases hCls
  rw [Refusal.cls_of_ne hEntry] at hCls
  exact ⟨hEntry, fun hStop => by rw [if_pos hStop] at hCls; cases hCls⟩

/-- A code whose exception was not lost to another one is respected exactly if it
answered no clone. -/
theorem Refusal.respected_iff
    (hEnd : andThen (fun _ trace => Books trace 0) (fun raised trace => Underway raised trace 0)
      ending trace) (hPropagated : trace.Propagated) {refusal : Refusal}
    (hRefusal : refusal ∈ trace.refused) (hOvertaken : refusal ∉ trace.overtaken) :
    refusal.Respected thread trace ending ↔ refusal.entry ≠ .testCaseClone := by
  have hBooks : ∃ flight, Books trace flight := by
    cases ending with
    | ok u => exact ⟨_, hEnd⟩
    | error raised => exact ⟨_, hEnd.1⟩
  obtain ⟨flight, hBooks⟩ := hBooks
  have hStatus (hAbsorbed : refusal ∉ trace.absorbed) :=
    status_of_refusal thread hEnd hPropagated hRefusal hAbsorbed hOvertaken
  constructor
  · intro hRespected hClone
    have hAbsorbed : refusal ∉ trace.absorbed := fun h => (rc_of_absorbed hBooks h).1 hClone
    have hCls : refusal.cls = .stdException := by rw [Refusal.cls, hClone]
    have hStatus := hStatus hAbsorbed
    rw [hCls] at hStatus
    rcases hBooks.refused refusal hRefusal with hRc | hRc
    · have hOverrun := hRespected.1 hRc
      rw [hStatus] at hOverrun
      cases hOverrun
    · have hInvalid := (hRespected.2 hRc).resolve_left hAbsorbed
      rw [hStatus] at hInvalid
      cases hInvalid
  · intro hOther
    have hCls := Refusal.cls_of_ne hOther
    constructor
    · intro hRc
      have hAbsorbed : refusal ∉ trace.absorbed := fun h => (rc_of_absorbed hBooks h).2 hRc
      rw [hStatus hAbsorbed, hCls, if_pos hRc]
    · intro hRc
      by_cases hAbsorbed : refusal ∈ trace.absorbed
      · exact .inl hAbsorbed
      · have hNotStop : refusal.rc ≠ .stopTest := by rw [hRc]; nofun
        rw [hStatus hAbsorbed, hCls, if_neg hNotStop]
        exact .inr rfl

end Status

theorem books_start (answers : List Answer) : Books { answers } 0 where
  balanced := rfl
  refused refusal hRefusal := absurd hRefusal (Multiset.notMem_zero refusal)
  absorbed refusal hRefusal := absurd hRefusal (Multiset.notMem_zero refusal)
  unjoined _ hPending := nomatch hPending

/-- In a run whose exceptions are let through, the engine's codes decide about
the case exactly when it refused no clone, provided that no exception for a
refusal was lost to one of another kind. With such losses this is still so of
every code whose own exception was not lost. -/
theorem codes_respected_iff {dladdr : Dladdr} (thread : ThreadState dladdr) {S : Type}
    (seen : Nat → S) (body : Task S Unit) (answers : List Answer) (fuel : Nat)
    (ending : Except Raised Unit) (trace : Trace)
    (hRun : body.exec seen fuel { answers } = some (ending, trace))
    (hPropagated : trace.Propagated) :
    (trace.overtaken = 0 → (Respected thread trace ending ↔
      ∀ refusal ∈ trace.refused, refusal.entry ≠ .testCaseClone)) ∧
    ∀ refusal ∈ trace.refused, refusal ∉ trace.overtaken →
      (refusal.Respected thread trace ending ↔ refusal.entry ≠ .testCaseClone) := by
  have hEach : ∀ refusal ∈ trace.refused, refusal ∉ trace.overtaken →
      (refusal.Respected thread trace ending ↔ refusal.entry ≠ .testCaseClone) :=
    fun _ => Refusal.respected_iff thread
      (exec_keeps seen body _ 0 (books_start answers) fuel ending trace hRun) hPropagated
  refine ⟨fun hNone => forall₂_congr fun refusal hRefusal => hEach refusal hRefusal ?_, hEach⟩
  rw [hNone]
  exact Multiset.notMem_zero refusal

/-- A `repeat` loop around a draw from an empty pool. -/
def drawEmptyPool : Task Unit Unit := .«repeat» (.bind (.call .poolGenerate) fun _ => .ret ())

/-- The answers for one iteration; the budget is spent after it. -/
def oneIteration : List Answer := [{}, {}, { bool := true }, { rc := .assume }]

/-- The draw was rejected and absorbed, the next iteration stopped the case. -/
def afterOneIteration : Trace where
  calls := 5
  absorbed := {⟨3, .poolGenerate, .assume⟩}
  refused := {⟨3, .poolGenerate, .assume⟩, ⟨4, .collectionMore, .stopTest⟩}

theorem codes_respected_iff_drawEmptyPool :
    statusOf ({} : ThreadState fun _ => none)
      (.error ⟨hegelStopTest, {⟨4, .collectionMore, .stopTest⟩}⟩) = .overrun := by
  have hRun : drawEmptyPool.exec (fun _ => ()) 3 { answers := oneIteration } =
      some (.error ⟨hegelStopTest, {⟨4, .collectionMore, .stopTest⟩}⟩, afterOneIteration) := rfl
  have hRespected := ((codes_respected_iff ({} : ThreadState fun _ => none) _ drawEmptyPool _ 3 _ _
    hRun ⟨rfl, rfl⟩).1 rfl).mpr (by decide)
  exact (hRespected ⟨4, .collectionMore, .stopTest⟩ (by decide)).1 rfl

/-- `auto worker = tc.clone();` when the choice budget is spent. -/
theorem not_every_code_respected :
    ∃ ending trace, (Task.bind (.call .testCaseClone) fun _ => .ret () : Task Unit Unit).exec
        (fun _ => ()) 1 {} = some (ending, trace) ∧ trace.Propagated ∧ trace.overtaken = 0 ∧
      statusOf ({} : ThreadState fun _ => none) ending = .interesting ∧
      ¬ Respected ({} : ThreadState fun _ => none) trace ending := by
  refine ⟨_, _, rfl, ⟨rfl, rfl⟩, rfl, rfl, fun hRespected => ?_⟩
  have hOverrun := (hRespected ⟨0, .testCaseClone, .stopTest⟩ (by decide)).1 rfl
  cases hOverrun

end Hegel.Threads
