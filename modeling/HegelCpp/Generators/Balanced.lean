import HegelCpp.Generators.Observed

/-! Generators are span-balanced. A compound draw closes its own span whenever
everything inside it was closed, which an exception that leaves a compound draw
prevents: the span it was in stays open for good. -/
namespace Hegel

open Logic Program

variable {S α β : Type}

/-- The call closed the span its own invocation opened. -/
def SpanStop.Matched (stop : SpanStop) : Prop := stop.closed = some stop.opened

/-- The span is discarded for a failed attempt of a filter and for nothing else. -/
def SpanStop.Marked (stop : SpanStop) : Prop :=
  stop.discard = true ↔ ∃ number, stop.attempt = some ⟨number, false⟩

/-- The observer that keeps every `stop_span` call, in order. -/
def stopLog : Observer (List SpanStop) where
  stopped stop log := log ++ [stop]

/-- What `interrupted` says of the span stack: the spans that exceptions left
open lie on the stack of the start, and without one every call matched. -/
structure Tracked (a b : World S × List SpanStop) : Prop where
  spans : ∃ left, b.1.spans = left ++ a.1.spans ∧ b.1.interrupted = a.1.interrupted + left.length
  stops : ∃ new, b.2 = a.2 ++ new ∧ (∀ stop ∈ new, stop.Marked) ∧
    (b.1.interrupted = a.1.interrupted → ∀ stop ∈ new, stop.Matched)

namespace Tracked

variable {a b c : World S × List SpanStop}

theorem of_same (hSpans : b.1.spans = a.1.spans) (hInterrupted : b.1.interrupted = a.1.interrupted)
    (hLog : b.2 = a.2) : Tracked a b where
  spans := ⟨[], hSpans, hInterrupted⟩
  stops := by
    refine ⟨[], ?_, List.forall_mem_nil _, fun _ => List.forall_mem_nil _⟩
    rw [hLog, List.append_nil]

theorem refl (a : World S × List SpanStop) : Tracked a a := of_same rfl rfl rfl

theorem interrupted_le (h : Tracked a b) : a.1.interrupted ≤ b.1.interrupted := by
  obtain ⟨left, -, hCount⟩ := h.spans
  omega

theorem trans ⦃a b c : World S × List SpanStop⦄ (hab : Tracked a b) (hbc : Tracked b c) :
    Tracked a c where
  spans := by
    obtain ⟨first, hFirst, hCount⟩ := hab.spans
    obtain ⟨second, hSecond, hCount'⟩ := hbc.spans
    refine ⟨second ++ first, ?_, ?_⟩
    · rw [hSecond, hFirst, List.append_assoc]
    · rw [List.length_append]
      omega
  stops := by
    obtain ⟨first, hFirst, hMarked, hMatched⟩ := hab.stops
    obtain ⟨second, hSecond, hMarked', hMatched'⟩ := hbc.stops
    have hLe := hab.interrupted_le
    have hLe' := hbc.interrupted_le
    refine ⟨first ++ second, ?_, ?_, ?_⟩
    · rw [hSecond, hFirst, List.append_assoc]
    · intro stop hStop
      exact (List.mem_append.mp hStop).elim (hMarked stop) (hMarked' stop)
    · intro hSame stop hStop
      exact (List.mem_append.mp hStop).elim (hMatched (by omega) stop) (hMatched' (by omega) stop)

/-- Nothing was left open exactly when the stack is the one of the start. -/
theorem spans_eq_iff (h : Tracked a b) :
    b.1.spans = a.1.spans ↔ b.1.interrupted = a.1.interrupted := by
  obtain ⟨left, hLeft, hCount⟩ := h.spans
  rw [hLeft, hCount]
  constructor
  · intro hSame
    rw [List.append_left_eq_self.mp hSame]
    rfl
  · intro hSame
    rw [List.length_eq_zero_iff.mp (by omega : left.length = 0), List.nil_append]

/-- `b` is `a` with one more span open. -/
def Opened (opened : OpenSpan) (a b : World S × List SpanStop) : Prop :=
  b.1.spans = opened :: a.1.spans ∧ b.1.interrupted = a.1.interrupted ∧ b.2 = a.2

variable {opened : OpenSpan} {a' : World S × List SpanStop}

/-- An exception left the span open, below whatever else was left open. -/
theorem abandoned (opened : OpenSpan) (hOpened : Opened opened a a') (h : Tracked a' b) :
    Tracked a ({ b.1 with interrupted := b.1.interrupted + 1 }, b.2) := by
  obtain ⟨hSpans, hInterrupted, hLog⟩ := hOpened
  obtain ⟨left, hLeft, hCount⟩ := h.spans
  obtain ⟨new, hNew, hMarked, hMatched⟩ := h.stops
  have hCount' : b.1.interrupted = a.1.interrupted + left.length := hInterrupted ▸ hCount
  refine { spans := ⟨left ++ [opened], ?_, ?_⟩, stops := ⟨new, hLog ▸ hNew, hMarked, ?_⟩ }
  · show b.1.spans = _
    rw [hLeft, hSpans, List.append_assoc, List.singleton_append]
  · simp only [List.length_append, List.length_singleton]
    omega
  · intro hSame
    simp only at hSame
    omega

/-- `stop_span` closes the own span when nothing above it was left open, and
otherwise a span that was, in its place. -/
theorem stopped (hOpened : Opened opened a a') (h : Tracked a' b) (stop : SpanStop)
    (hOwn : stop.opened = opened) (hClosed : stop.closed = b.1.spans.head?)
    (hMarked : stop.Marked) :
    Tracked a ({ b.1 with spans := b.1.spans.tail }, b.2 ++ [stop]) := by
  obtain ⟨hSpans, hInterrupted, hLog⟩ := hOpened
  obtain ⟨left, hLeft, hCount⟩ := h.spans
  obtain ⟨new, hNew, hMarkedNew, hMatched⟩ := h.stops
  rw [hInterrupted] at hCount
  rw [hInterrupted] at hMatched
  rw [hSpans] at hLeft
  rw [hLog] at hNew
  refine { spans := ?_, stops := ⟨new ++ [stop], ?_, ?_, ?_⟩ }
  · cases left with
    | nil => exact ⟨[], congrArg List.tail hLeft, hCount⟩
    | cons last left =>
        refine ⟨left ++ [opened], ?_, ?_⟩
        · simpa using congrArg List.tail hLeft
        · simpa using hCount
  · rw [hNew, List.append_assoc]
  · intro other hOther
    rcases List.mem_append.mp hOther with hOld | hLast
    · exact hMarkedNew other hOld
    · rwa [List.mem_singleton.mp hLast]
  · intro hKept other hOther
    rcases List.mem_append.mp hOther with hOld | hLast
    · exact hMatched hKept other hOld
    · have hEmpty : left = [] := List.length_eq_zero_iff.mp (by simp only at hKept; omega)
      rw [List.mem_singleton.mp hLast, SpanStop.Matched, hClosed, hOwn, hLeft, hEmpty]
      rfl

end Tracked

/-- A normal return. Without a handler nothing can have been left open. -/
def StackKept (handlers : Bool) (a b : World S × List SpanStop) : Prop :=
  Tracked a b ∧ (handlers = false → b.1.interrupted = a.1.interrupted)

namespace Code

/-- The terms over generators. User code computes, throws, uses its memory and
draws; it has exception handlers only where `handlers` allows them. -/
def IsGenerator (handlers : Bool) : {α : Type} → Code S α → Prop
  | _, tryCatch p handler =>
      handlers = true ∧ IsGenerator handlers p ∧ ∀ e, IsGenerator handlers (handler e)
  | _, bind p k => IsGenerator handlers p ∧ ∀ a, IsGenerator handlers (k a)
  | _, loop body _ => ∀ k, IsGenerator handlers (body k)
  | _, map source f => IsGenerator handlers source ∧ ∀ a, IsGenerator handlers (f a)
  | _, flatMap inner f => IsGenerator handlers inner ∧ ∀ a, IsGenerator handlers (f a)
  | _, filter inner pred => IsGenerator handlers inner ∧ ∀ a, IsGenerator handlers (pred a)
  | _, vectors elements _ _ => IsGenerator handlers elements
  | _, sets elements _ _ => IsGenerator handlers elements
  | _, maps keys values _ _ => IsGenerator handlers keys ∧ IsGenerator handlers values
  | _, tuples _ gens => ∀ i, IsGenerator handlers (gens i)
  | _, arrays _ element => IsGenerator handlers element
  | _, oneOf gens => ∀ i, IsGenerator handlers (gens i)
  | _, variant gens => ∀ i, IsGenerator handlers (gens i)
  | _, optional gen => IsGenerator handlers gen
  | _, deferred _ _ => False
  | _, «repeat» _ => False
  | _, run _ _ _ _ _ => False
  | _, _ => True

end Code

/-! The combinators, one by one: what a normal end and an exceptional end of
each leaves behind. -/
namespace Observed

variable {handlers : Bool}

/-- The program ends as generators do. -/
abbrev Balances (handlers : Bool) (p : Observed S (List SpanStop) α) : Prop :=
  Ends (StackKept handlers) Tracked p

namespace Balances

theorem stackKept_refl (a : World S × List SpanStop) : StackKept handlers a a :=
  ⟨Tracked.refl a, fun _ => rfl⟩

theorem stackKept_trans ⦃a b c : World S × List SpanStop⦄ (hab : StackKept handlers a b)
    (hbc : StackKept handlers b c) : StackKept handlers a c :=
  ⟨hab.1.trans hbc.1, fun h => (hbc.2 h).trans (hab.2 h)⟩

theorem stackKept_exn ⦃a b c : World S × List SpanStop⦄ (hab : StackKept handlers a b)
    (hbc : Tracked b c) : Tracked a c := hab.1.trans hbc

protected theorem pure (a : α) :
    Balances handlers (pure a : Observed S (List SpanStop) α) := ends_pure stackKept_refl a

protected theorem throw (e : Exn) :
    Balances handlers (Program.throw e : Observed S (List SpanStop) α) := ends_throw Tracked.refl e

protected theorem bind {p : Observed S (List SpanStop) α} {k : α → Observed S (List SpanStop) β}
    (hp : Balances handlers p) (hk : ∀ a, Balances handlers (k a)) :
    Balances handlers (p >>= k) :=
  ends_bind stackKept_trans stackKept_exn hp hk

/-- What leaves the spans alone is balanced. -/
theorem quiet {p : Client S α} (hQuiet : Preserves (fun a b : World S =>
    b.spans = a.spans ∧ b.interrupted = a.interrupted) p) :
    Balances handlers (lift p : Observed S (List SpanStop) α) := by
  rintro ⟨world, log⟩
  refine ensures_lift ((hQuiet world).mono ?_)
  intro result world' hSame
  have hTracked : Tracked (world, log) (world', log) := .of_same hSame.1 hSame.2 rfl
  cases result with
  | error e => exact hTracked
  | ok a => exact ⟨hTracked, fun _ => hSame.2⟩

/-- A primitive that post-processes the answer of one engine call. -/
theorem ofAnswer (what : String) (f : Answer → α) : Balances handlers
    (lift (engineCall what >>= fun answer => pure (f answer)) : Observed S (List SpanStop) α) :=
  quiet fun _ => ensures_bind (ensures_engineCall
    (fun _ _ => ensures_pure _ ⟨rfl, rfl⟩) fun _ _ => ⟨rfl, rfl⟩)

/-- `more` and `reject` under an observer that does not look at them. -/
theorem observeAnswer (what : String) (f : Answer → α) : Balances handlers
    (observe (engineCall what >>= fun answer => pure (f answer)) (fun _ log => log) :
      Observed S (List SpanStop) α) :=
  (ofAnswer what f).bind fun a => (quiet fun _ => ensures_modify _ ⟨rfl, rfl⟩ :
    Balances handlers (tell id)).bind fun _ => .pure a

/-- The step lemma. The body finds its span on top of the stack; if it left
nothing above it, `stop_span` closes that span. -/
theorem inSpan {body : Observed S (List SpanStop) α} (hBody : Balances handlers body)
    (label : SpanLabel) {attempt : α → Option Attempt} {discard : α → Bool}
    (hMarked : ∀ result, discard result = true ↔ ∃ number, attempt result = some ⟨number, false⟩) :
    Balances handlers (Observed.inSpan stopLog label body attempt discard) := by
  rintro ⟨world, log⟩
  refine ensures_bind (ensures_lift (ensures_startSpan (fun opened rest _ => ?_) fun e rest => ?_))
  · have hOpened : Tracked.Opened opened (world, log) ({ world with
        answers := rest, spans := opened :: world.spans, spansOpened := world.spansOpened + 1 },
        log) := ⟨rfl, rfl, rfl⟩
    refine ensures_bind (ensures_tryCatch ((hBody _).mono ?_))
    rintro (e | result) ⟨middle, log'⟩ hInside
    · refine ensures_bind (ensures_lift (ensures_modify _ (ensures_throw _ ?_)))
      exact hInside.abandoned opened hOpened
    · refine ensures_bind (ensures_observe (ensures_stopSpan (ensures_pure _ ⟨?_, hInside.2⟩)))
      exact hInside.1.stopped hOpened ⟨opened, _, _, _⟩ rfl rfl (hMarked result)
  · exact Tracked.of_same rfl rfl rfl

/-- A compound draw that never discards its span. -/
theorem inSpan_kept {body : Observed S (List SpanStop) α} (hBody : Balances handlers body)
    (label : SpanLabel) : Balances handlers (Observed.inSpan stopLog label body) :=
  hBody.inSpan label fun _ => ⟨by simp, by simp⟩

theorem filterAttempts {inner : Observed S (List SpanStop) α}
    {pred : α → Observed S (List SpanStop) Bool} (hInner : Balances handlers inner)
    (hPred : ∀ a, Balances handlers (pred a)) (number attempts : Nat) :
    Balances handlers (Observed.filterAttempts stopLog inner pred number attempts) := by
  induction attempts generalizing number with
  | zero => exact .throw _
  | succ attempts ih =>
      have hAttempt := hInner.bind fun value => (hPred value).bind fun keep =>
        (Balances.pure (value, keep) : Balances handlers (pure (value, keep) :
          Observed S (List SpanStop) (α × Bool)))
      refine (hAttempt.inSpan .filter fun result => ?_).bind fun result =>
        ends_ite (Balances.pure _) (ih _)
      cases result.2 <;> simp

theorem collection {label : SpanLabel} (params : Generators.CollectionParams)
    {turn : List α → Observed S (List SpanStop) (List α ⊕ List α)}
    (hTurn : ∀ result, Balances handlers (turn result)) :
    Balances handlers (Observed.collection stopLog label params turn) := by
  refine inSpan_kept (Balances.bind (ofAnswer _ _) fun _ => ?_) label
  refine ends_loop stackKept_refl stackKept_trans stackKept_exn (fun result => ?_) []
  exact (observeAnswer _ _).bind fun _ => ends_ite (hTurn result) (Balances.pure _)

theorem drawTupleImpl (n : Nat) (types : Fin n → Type)
    {gens : (i : Fin n) → Observed S (List SpanStop) (types i)}
    (hGens : ∀ i, Balances handlers (gens i)) :
    Balances handlers (Observed.drawTupleImpl n types gens) := by
  induction n with
  | zero => exact .pure _
  | succ n ih =>
      exact (hGens 0).bind fun _ => (ih _ fun i => hGens i.succ).bind fun _ => .pure _

end Balances

/-- The predicate, which is user code, answered true when it was asked about the value. -/
def Satisfies (pred : α → Observed S τ Bool) (value : α) : Prop :=
  ∃ fuel before later, pred value fuel before = some (.ok true, later)

/-- The last call was the `stop_span` of attempt `number`, whose predicate held. -/
def EndsHeld (number : Nat) (log : List SpanStop) : Prop :=
  ∃ earlier stop, log = earlier ++ [stop] ∧ stop.attempt = some ⟨number, true⟩

/-- The induction is on the attempts that remain. -/
theorem filterAttempts_held {inner : Observed S (List SpanStop) α}
    {pred : α → Observed S (List SpanStop) Bool} (number attempts : Nat)
    (state : World S × List SpanStop) :
    (filterAttempts stopLog inner pred number attempts).Ensures state fun result after =>
      ∀ value, result = .ok value → Satisfies pred value ∧
        ∃ last, number ≤ last ∧ last < number + attempts ∧ EndsHeld last after.2 := by
  induction attempts generalizing number state with
  | zero => exact ensures_throw _ nofun
  | succ attempts ih =>
      have hBody (before : World S × List SpanStop) : Ensures (do
          let value ← inner
          let keep ← pred value
          pure (value, keep)) before fun result _ =>
            ∀ attempt, result = .ok attempt → attempt.2 = true → Satisfies pred attempt.1 := by
        refine ensures_bind ?_
        rintro fuel (e | value) middle -
        · exact nofun
        refine ensures_bind ?_
        rintro fuel' (e | keep) middle' hKeep
        · exact nofun
        refine ensures_pure _ ?_
        rintro attempt hAttempt hHeld
        cases hAttempt
        subst hHeld
        exact ⟨fuel', middle, middle', hKeep⟩
      obtain ⟨world, log⟩ := state
      refine ensures_bind (ensures_bind (ensures_lift (ensures_startSpan ?_ fun _ _ => nofun)))
      intro opened rest _
      refine ensures_bind (ensures_tryCatch ((hBody _).mono ?_))
      rintro (e | attempt) ⟨middle, log'⟩ hAttempt
      · exact ensures_bind (ensures_lift (ensures_modify _ (ensures_throw _ nofun)))
      refine ensures_bind (ensures_observe (ensures_stopSpan (ensures_pure _ ?_)))
      refine ensures_ite (fun hHeld => ensures_pure _ ?_) fun _ => (ih (number + 1) _).mono ?_
      · rintro value hValue
        cases hValue
        refine ⟨hAttempt attempt rfl hHeld, number, Nat.le_refl _, by omega, log', _, rfl, ?_⟩
        simp [hHeld]
      · rintro result after hRest value hValue
        obtain ⟨hHolds, last, hFrom, hTo, hLast⟩ := hRest value hValue
        exact ⟨hHolds, last, by omega, by omega, hLast⟩

end Observed

/-- The run lemma: the cases follow the constructors. -/
theorem Code.balances {handlers : Bool} (delegate : Code.Delegate S) (code : Code S α)
    (hGen : code.IsGenerator handlers) :
    Observed.Balances handlers (code.observed stopLog delegate) := by
  open Observed in
  induction code with
  | ret a => exact Balances.pure a
  | bind p k ihp ihk => exact (ihp hGen.1).bind fun a => ihk a (hGen.2 a)
  | throw e => exact Balances.throw e
  | tryCatch p handler ihp ihHandler =>
      obtain ⟨rfl, hp, hHandler⟩ := hGen
      refine ends_tryCatch (fun _ _ _ hab hbc => ⟨hab.trans hbc.1, nofun⟩) Tracked.trans
        (ihp hp) fun e => ihHandler e (hHandler e)
  | loop body k ih =>
      exact ends_loop Balances.stackKept_refl Balances.stackKept_trans Balances.stackKept_exn
        (fun k => ih k (hGen k)) k
  | read => exact Balances.quiet fun _ => ensures_bind (ensures_get (ensures_pure _ ⟨rfl, rfl⟩))
  | write memory => exact Balances.quiet fun _ => ensures_modify _ ⟨rfl, rfl⟩
  | note message => exact Balances.quiet fun _ => ensures_note _ ⟨rfl, rfl⟩
  | integers minValue maxValue => exact Balances.ofAnswer _ _
  | booleans => exact Balances.ofAnswer _ _
  | text => exact Balances.ofAnswer _ _
  | poolAdd => exact Balances.ofAnswer _ _
  | poolDraw consume => exact Balances.ofAnswer _ _
  | sampledFrom elements =>
      exact Balances.quiet fun _ => ensures_bind (ensures_bind (ensures_engineCall
        (fun _ _ => ensures_pure _ (ensures_pure _ ⟨rfl, rfl⟩)) fun _ _ => ⟨rfl, rfl⟩))
  | map source f ihSource ihf =>
      exact ((ihSource hGen.1).bind fun a => ihf a (hGen.2 a)).inSpan_kept _
  | flatMap inner f ihInner ihf =>
      exact ((ihInner hGen.1).bind fun a => ihf a (hGen.2 a)).inSpan_kept _
  | filter inner pred ihInner ihPred =>
      exact (ihInner hGen.1).filterAttempts (fun a => ihPred a (hGen.2 a)) 1 3
  | vectors elements params unique ih =>
      refine Balances.collection params fun result => (ih hGen).bind fun element => ends_ite ?_ ?_
      · exact (Balances.observeAnswer _ _).bind fun _ => Balances.pure _
      · exact Balances.pure _
  | sets elements params lt ih =>
      refine Balances.collection params fun result => (ih hGen).bind fun element => ?_
      cases Generators.setInsert lt element result with
      | some inserted => exact Balances.pure _
      | none => exact (Balances.observeAnswer _ _).bind fun _ => Balances.pure _
  | maps keys values params lt ihKeys ihValues =>
      refine Balances.collection params fun result => (ihKeys hGen.1).bind fun key => ends_ite ?_ ?_
      · exact (Balances.observeAnswer _ _).bind fun _ => Balances.pure _
      · exact (ihValues hGen.2).bind fun _ => Balances.pure _
  | tuples n gens ih =>
      exact (Balances.drawTupleImpl n _ fun i => ih i (hGen i)).inSpan_kept _
  | arrays n element ih => exact (Balances.drawTupleImpl n _ fun _ => ih hGen).inSpan_kept _
  | oneOf gens ih =>
      exact (Balances.bind (Balances.ofAnswer _ _) fun _ => ih _ (hGen _)).inSpan_kept _
  | variant gens ih =>
      refine (Balances.bind (Balances.ofAnswer _ _) fun index => ?_).inSpan_kept _
      exact (ih (Fin.ofNat _ index.toNat) (hGen _)).bind fun _ => Balances.pure _
  | optional gen ih =>
      exact (Balances.bind (Balances.ofAnswer _ _) fun _ =>
        ends_ite ((ih hGen).bind fun _ => Balances.pure _) (Balances.pure _)).inSpan_kept _
  | deferred α slot => exact hGen.elim
  | «repeat» body ih => exact hGen.elim
  | run names steps invariants repr params ih => exact hGen.elim

/-- The span stack is the one of the start, and every `stop_span` in between
closed the span of its own invocation and discarded failed attempts only. -/
structure SpanBalanced (a b : World S × List SpanStop) : Prop where
  spans : b.1.spans = a.1.spans
  stops : ∃ new, b.2 = a.2 ++ new ∧ ∀ stop ∈ new, stop.Matched ∧ stop.Marked

theorem Tracked.balanced_iff {a b : World S × List SpanStop} (h : Tracked a b) :
    SpanBalanced a b ↔ b.1.interrupted = a.1.interrupted := by
  constructor
  · intro hBalanced
    exact h.spans_eq_iff.mp hBalanced.spans
  · intro hSame
    obtain ⟨new, hNew, hMarked, hMatched⟩ := h.stops
    exact ⟨h.spans_eq_iff.mpr hSame, new, hNew,
      fun stop hStop => ⟨hMatched hSame stop hStop, hMarked stop hStop⟩⟩

/-- Whatever the user functions do and whatever the engine answers, a draw that
returns is balanced if and only if no exception left a compound draw on the way,
and without handlers none did. A filter returns a value its predicate held of,
from one of three attempts. What is observed are the library's own runs. -/
theorem generators_balanced (delegate : Code.Delegate S) :
    (∀ {α : Type} (code : Code S α),
      Erases (code.observed stopLog delegate) (code.interpret delegate)) ∧
    (∀ {handlers : Bool} {α : Type} (code : Code S α), code.IsGenerator handlers →
      ∀ (world : World S) (log : List SpanStop),
        (code.observed stopLog delegate).Ensures (world, log) fun result after =>
          ∀ value, result = .ok value →
            (SpanBalanced (world, log) after ↔ after.1.interrupted = world.interrupted) ∧
            (handlers = false → after.1.interrupted = world.interrupted)) ∧
    (∀ {α : Type} (inner : Code S α) (pred : α → Code S Bool) (world : World S)
      (log : List SpanStop),
        ((Code.filter inner pred).observed stopLog delegate).Ensures (world, log)
          fun result after => ∀ value, result = .ok value →
            Observed.Satisfies (fun a => (pred a).observed stopLog delegate) value ∧
            ∃ number, 1 ≤ number ∧ number ≤ 3 ∧ Observed.EndsHeld number after.2) := by
  refine ⟨Code.erases_observed stopLog delegate, ?_, ?_⟩
  · intro handlers α code hGen world log
    refine (code.balances delegate hGen (world, log)).mono ?_
    rintro result after hEnd value rfl
    exact ⟨hEnd.1.balanced_iff, hEnd.2⟩
  · intro α inner pred world log
    refine (Observed.filterAttempts_held 1 3 (world, log)).mono ?_
    rintro result after hEnd value hValue
    obtain ⟨hHolds, last, hFrom, hTo, hLast⟩ := hEnd value hValue
    exact ⟨hHolds, last, hFrom, Nat.le_of_lt_succ hTo, hLast⟩

section Runs

def noDelegate : Code.Delegate Unit := fun _ _ => Program.diverge

/-- `vectors(booleans().filter(b => b))`. -/
def keptBooleans : Code Unit (List Bool) :=
  .vectors (.filter .booleans fun keep => .ret keep) {} none

/-- One element, which the filter keeps at its second attempt. -/
def keptBooleansWorld : World Unit where
  answers := [{}, {}, { bool := true }, {}, { bool := false }, {}, { bool := true }, {}]
  memory := ()

theorem generators_balanced_keptBooleans :
    ∃ after, keptBooleans.observed stopLog noDelegate 3 (keptBooleansWorld, []) =
        some (.ok [true], after) ∧ SpanBalanced (keptBooleansWorld, []) after := by
  have hGen : keptBooleans.IsGenerator false := ⟨trivial, fun _ => trivial⟩
  exact ⟨_, rfl, ((generators_balanced noDelegate).2.1 keptBooleans hGen keptBooleansWorld [] 3 _ _
    rfl [true] rfl).1.mpr rfl⟩

/-- A function for `compose` that falls back to `false` when `map` throws. -/
def fallback : Code Unit Bool :=
  .tryCatch (.map .booleans fun _ => .throw (runtimeError "odd")) fun _ => .ret false

/-- The span of `map` is open when the function returns. -/
theorem not_every_generator_balanced :
    ¬ ∀ (code : Code Unit Bool), code.IsGenerator true →
      ∀ (world : World Unit) (log : List SpanStop),
        (code.observed stopLog noDelegate).Ensures (world, log) fun result after =>
          ∀ value, result = .ok value → SpanBalanced (world, log) after := by
  intro hAll
  have hGen : fallback.IsGenerator true := ⟨rfl, ⟨trivial, fun _ => trivial⟩, fun _ => trivial⟩
  have hBalanced := hAll fallback hGen { answers := [{}, {}], memory := () } [] 0 _ _ rfl false rfl
  exact absurd hBalanced.spans (List.cons_ne_nil _ _)

end Runs
end Hegel
