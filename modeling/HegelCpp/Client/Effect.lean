import HegelCpp.Client.Respected
import Mathlib.Tactic.Common

/-! What client code can do to the world of its test-case handle. It leaves
the state machines that were created before it alone, and it leaves the open
spans alone up to the compound draws that an exception interrupted: each of
those keeps exactly one span open. -/
namespace Hegel

open Logic Program

variable {S α : Type}

/-- The stack is as before the body, and the handler closed what the step opened. -/
def Absorption.Restored (x : Absorption) : Prop := x.after = x.before ∧ x.closed = x.opened

/-- Events that code may add when only the machines from `floor` on are its own. -/
def Event.Allowed (floor : Nat) : Event S → Prop
  | .note _ _ => True
  | .call machine _ => floor ≤ machine
  | .rejectedRule machine rc => floor ≤ machine ∧ rc = .ok
  | .observed machine _ => floor ≤ machine
  | .absorbed x => x.Restored ↔ x.interrupted = 0

theorem Event.Allowed.mono {floor floor' : Nat} (hLe : floor' ≤ floor) {e : Event S}
    (h : e.Allowed floor) : e.Allowed floor' := by
  cases e with
  | note => trivial
  | call machine => exact Nat.le_trans hLe h
  | rejectedRule machine rc => exact ⟨Nat.le_trans hLe h.1, h.2⟩
  | observed machine => exact Nat.le_trans hLe h
  | absorbed x => exact h

/-- The effect of code that does not own the machines below `floor`. -/
structure Effect (floor : Nat) (a b : World S) : Prop where
  machines_le : a.machines ≤ b.machines
  outstanding : ∀ machine < floor, b.outstanding machine = a.outstanding machine
  history : ∃ new, b.history = a.history ++ new ∧ ∀ e ∈ new, e.Allowed floor
  interrupted_le : a.interrupted ≤ b.interrupted
  length : b.spans.length = a.spans.length + (b.interrupted - a.interrupted)
  spans : b.interrupted = a.interrupted → b.spans = a.spans

namespace Effect

variable {floor : Nat} {a b c : World S}

theorem refl (floor : Nat) (a : World S) : Effect floor a a where
  machines_le := Nat.le_refl _
  outstanding := fun _ _ => rfl
  history := ⟨[], by simp, by simp⟩
  interrupted_le := Nat.le_refl _
  length := by simp
  spans := fun _ => rfl

theorem trans (hab : Effect floor a b) (hbc : Effect floor b c) : Effect floor a c where
  machines_le := Nat.le_trans hab.machines_le hbc.machines_le
  outstanding := fun m hm => (hbc.outstanding m hm).trans (hab.outstanding m hm)
  history := by
    obtain ⟨first, hFirst, hAllowed⟩ := hab.history
    obtain ⟨second, hSecond, hAllowed'⟩ := hbc.history
    refine ⟨first ++ second, by rw [hSecond, hFirst, List.append_assoc], fun e he => ?_⟩
    exact (List.mem_append.mp he).elim (hAllowed e) (hAllowed' e)
  interrupted_le := Nat.le_trans hab.interrupted_le hbc.interrupted_le
  length := by
    have := hab.length; have := hbc.length
    have := hab.interrupted_le; have := hbc.interrupted_le
    omega
  spans := by
    intro hSame
    have := hab.interrupted_le; have := hbc.interrupted_le
    exact (hbc.spans (by omega)).trans (hab.spans (by omega))

theorem mono {floor' : Nat} (hLe : floor' ≤ floor) (h : Effect floor a b) : Effect floor' a b where
  machines_le := h.machines_le
  outstanding := fun m hm => h.outstanding m (Nat.lt_of_lt_of_le hm hLe)
  history := by
    obtain ⟨new, hNew, hAllowed⟩ := h.history
    exact ⟨new, hNew, fun e he => (hAllowed e he).mono hLe⟩
  interrupted_le := h.interrupted_le
  length := h.length
  spans := h.spans

/-- Answers, memory and indentation are free to change. -/
theorem touch (h : Effect floor a b) (rest : List Answer) (memory : S) (indent : Nat) :
    Effect floor a { b with answers := rest, memory := memory, noteIndent := indent } :=
  ⟨h.machines_le, h.outstanding, h.history, h.interrupted_le, h.length, h.spans⟩

theorem event (h : Effect floor a b) {e : Event S} (he : e.Allowed floor) :
    Effect floor a (b.log e) where
  machines_le := h.machines_le
  outstanding := h.outstanding
  history := by
    obtain ⟨new, hNew, hAllowed⟩ := h.history
    refine ⟨new ++ [e], by simp [hNew], fun e' he' => ?_⟩
    rcases List.mem_append.mp he' with hOld | hLast
    · exact hAllowed e' hOld
    · rw [List.mem_singleton.mp hLast]
      exact he
  interrupted_le := h.interrupted_le
  length := h.length
  spans := h.spans

theorem noted (h : Effect floor a b) (indent : Nat) (text : String) :
    Effect floor a (b.log (.note indent text)) :=
  h.event trivial

theorem called (h : Effect floor a b) (call : Call) : Effect floor a (b.log (.call floor call)) :=
  h.event (Nat.le_refl floor)

theorem create (h : Effect floor a b) :
    Effect floor a { b with machines := b.machines + 1 } :=
  ⟨Nat.le_succ_of_le h.machines_le, h.outstanding, h.history, h.interrupted_le, h.length, h.spans⟩

theorem setOutstanding (h : Effect floor a b) {machine : Nat} (hOwn : floor ≤ machine) (flag : Bool) :
    Effect floor a { b with outstanding := Function.update b.outstanding machine flag } where
  machines_le := h.machines_le
  outstanding := by
    intro m hm
    have hne : m ≠ machine := by omega
    have hKept : Function.update b.outstanding machine flag m = b.outstanding m :=
      Function.update_of_ne hne _ _
    rw [← h.outstanding m hm]
    exact hKept
  history := h.history
  interrupted_le := h.interrupted_le
  length := h.length
  spans := h.spans

/-- The world right after `start_span` returned. -/
abbrev opening (a : World S) (rest : List Answer) (opened : OpenSpan) : World S :=
  { a with answers := rest, spans := opened :: a.spans, spansOpened := a.spansOpened + 1 }

variable {rest : List Answer} {opened : OpenSpan}

/-- One `stop_span` makes up for the `start_span`, whichever span it closes. -/
theorem close (h : Effect floor (opening a rest opened) b) :
    Effect floor a { b with spans := b.spans.tail } where
  machines_le := h.machines_le
  outstanding := h.outstanding
  history := h.history
  interrupted_le := h.interrupted_le
  length := by
    have hLength := h.length
    simp only [List.length_cons, List.length_tail] at hLength ⊢
    omega
  spans := fun hSame => by simp [h.spans hSame]

/-- An exception that skips the `stop_span` leaves one more span open. -/
theorem interrupt (h : Effect floor (opening a rest opened) b) :
    Effect floor a { b with interrupted := b.interrupted + 1 } where
  machines_le := h.machines_le
  outstanding := h.outstanding
  history := h.history
  interrupted_le := Nat.le_succ_of_le h.interrupted_le
  length := by
    have hLe : a.interrupted ≤ b.interrupted := h.interrupted_le
    have hLength : b.spans.length = a.spans.length + 1 + (b.interrupted - a.interrupted) := h.length
    show b.spans.length = a.spans.length + (b.interrupted + 1 - a.interrupted)
    omega
  spans := by
    intro hSame
    have hLe : a.interrupted ≤ b.interrupted := h.interrupted_le
    have hNext : b.interrupted + 1 = a.interrupted := hSame
    omega

/-- Whether the stack is restored, read off the interrupted draws alone. -/
theorem spans_eq_iff (h : Effect floor a b) :
    b.spans = a.spans ↔ b.interrupted - a.interrupted = 0 := by
  have hLe := h.interrupted_le
  constructor
  · intro hSpans
    have hLength := h.length
    rw [hSpans] at hLength
    omega
  · intro hNone
    exact h.spans (by omega)

/-- The same question for a step that opened its own span. -/
theorem closed_iff (h : Effect floor (opening a rest opened) b) :
    b.spans.tail = a.spans ∧ b.spans.head? = some opened ↔ b.interrupted - a.interrupted = 0 := by
  have hLe : a.interrupted ≤ b.interrupted := h.interrupted_le
  constructor
  · rintro ⟨hTail, -⟩
    have hLength := h.close.length
    simp only [hTail] at hLength
    omega
  · intro hNone
    have hSpans : b.spans = opened :: a.spans := h.spans (by simp only; omega)
    simp [hSpans]

end Effect

/-- Client code owns the machines it creates itself. -/
def ClientEffect (a b : World S) : Prop := Effect a.machines a b

theorem ClientEffect.trans {a b c : World S} (hab : ClientEffect a b) (hbc : ClientEffect b c) :
    ClientEffect a c :=
  Effect.trans hab (Effect.mono hab.machines_le hbc)

theorem inSpan_effect {floor : Nat} {world : World S} {label : SpanLabel} {body : Client S α}
    {discard : α → Bool}
    (hBody : ∀ opened rest, body.Ensures (Effect.opening world rest opened)
      (fun _ world' => Effect floor (Effect.opening world rest opened) world')) :
    (inSpan label body discard).Ensures world (fun _ world' => Effect floor world world') := by
  refine ensures_bind (ensures_startSpan (fun opened rest _ => ?_)
    (fun _ rest => (Effect.refl floor world).touch rest _ _))
  refine ensures_bind (ensures_unguarded ((hBody opened rest).mono ?_))
  rintro (e | a) world' hEnd
  · exact hEnd.interrupt
  · exact ensures_bind (ensures_stopSpan (ensures_pure _ hEnd.close))

theorem repeatIteration_effect {floor : Nat} {world : World S} {body : Client S Unit}
    (hBody : body.Ensures world (fun _ world' => Effect floor world world')) :
    (repeatIteration body).Ensures world (fun _ world' => Effect floor world world') := by
  refine ensures_bind (ensures_get (ensures_tryCatch (hBody.mono ?_)))
  rintro (e | a) world' hEnd
  · refine ensures_ite (fun _ => ?_) (fun _ => ensures_throw _ hEnd)
    refine ensures_bind (ensures_get (ensures_record _ (hEnd.event ?_)))
    show _ ∧ _ ↔ _
    simpa using hEnd.spans_eq_iff
  · exact hEnd

end Hegel
