import HegelCpp.Stateful.Runner
import Mathlib.Data.List.Basic

/-! What a report shows of the state of a sequential machine. The state is
printed before the first step and after each one that completes; a step that
was rejected may leave another state than the one that was printed last. -/
namespace Hegel

variable {S : Type}

/-- The rendering in a note that reads `state = ...`. -/
def stateLine (text : String) : Option String :=
  if "state = ".toList <+: text.toList then some (String.ofList (text.toList.drop 8)) else none

theorem stateLine_state (text : String) : stateLine ("state = " ++ text) = some text := by
  simp [stateLine]

/-- Every other note of a runner starts with a capital letter. -/
theorem stateLine_none {text : String} {c : Char} (h : text.toList.head? = some c)
    (hFirst : c ≠ 's') : stateLine text = none := by
  apply if_neg
  rintro ⟨rest, hText⟩
  rw [← hText] at h
  exact hFirst (Option.some.inj h).symm

/-- What the report shows of a machine, and what its steps do to it. -/
inductive Shown (S : Type) where
  | state (text : String)
  | started
  | left (now : S)
  | ended (completed : Bool)

/-- The state lines of a run at its own indent, and the steps it takes. -/
def shownOf (handle indent : Nat) (history : List (Event S)) : List (Shown S) :=
  history.filterMap fun
    | .note i text => if i = indent then (stateLine text).map .state else none
    | .call machine (.rule _) => if machine = handle then some .started else none
    | .call machine (.ended exn) => if machine = handle then some (.ended exn.isNone) else none
    | .observed machine (.state now) => if machine = handle then some (.left now) else none
    | _ => none

@[simp] theorem shownOf_append (handle indent : Nat) (first second : List (Event S)) :
    shownOf handle indent (first ++ second) =
      shownOf handle indent first ++ shownOf handle indent second :=
  List.filterMap_append

/-- The machine's state after what was shown. -/
def present (initial : S) (shown : List (Shown S)) : S :=
  shown.foldl (fun now item => match item with
    | .left next => next
    | _ => now) initial

/-- The state line that was printed last. -/
def lastLine (shown : List (Shown S)) : Option String :=
  shown.foldl (fun line item => match item with
    | .state text => some text
    | _ => line) none

theorem present_append (initial : S) (first second : List (Shown S)) :
    present initial (first ++ second) = present (present initial first) second :=
  List.foldl_append

/-- A step was started right after `before`, and none was completed since. -/
def SinceStart (before shown : List (Shown S)) : Prop :=
  ∃ middle, shown = before ++ .started :: middle ∧ .ended true ∉ middle

/-- `P` holds of what was shown before each start of a step. -/
def AtStarts (P : List (Shown S) → Prop) (shown : List (Shown S)) : Prop :=
  ∀ before, before ++ [.started] <+: shown → P before

section Starts
variable {P : List (Shown S) → Prop} {before shown : List (Shown S)} {item : Shown S}

theorem sinceStart_concat : SinceStart before (shown ++ [item]) ↔
    (item = .started ∧ before = shown) ∨ (SinceStart before shown ∧ item ≠ .ended true) := by
  constructor
  · rintro ⟨middle, hShown, hNone⟩
    rcases List.eq_nil_or_concat' middle with rfl | ⟨front, last, rfl⟩
    · obtain ⟨rfl, ⟨⟩⟩ := List.append_inj' hShown rfl
      exact .inl ⟨rfl, rfl⟩
    · rw [← List.cons_append, ← List.append_assoc] at hShown
      obtain ⟨rfl, ⟨⟩⟩ := List.append_inj' hShown rfl
      refine .inr ⟨⟨front, rfl, fun h => hNone (List.mem_append_left _ h)⟩, ?_⟩
      rintro rfl
      simp at hNone
  · rintro (⟨rfl, rfl⟩ | ⟨⟨middle, rfl, hNone⟩, hItem⟩)
    · exact ⟨[], rfl, List.not_mem_nil⟩
    · refine ⟨middle ++ [item], by simp, fun h => ?_⟩
      rcases List.mem_append.mp h with h | h
      · exact hNone h
      · exact hItem (List.mem_singleton.mp h).symm

theorem SinceStart.isPrefix (h : SinceStart before shown) : before ++ [.started] <+: shown := by
  obtain ⟨middle, rfl, -⟩ := h
  exact ⟨middle, by simp⟩

theorem atStarts_concat : AtStarts P (shown ++ [item]) ↔
    AtStarts P shown ∧ (item = .started → P shown) := by
  constructor
  · refine fun h => ⟨fun before hBefore => h before (hBefore.trans (List.prefix_append _ _)), ?_⟩
    rintro rfl
    exact h shown (List.prefix_refl _)
  · rintro ⟨hOld, hLast⟩ before hBefore
    rcases List.prefix_concat_iff.mp hBefore with hSame | hOlder
    · obtain ⟨rfl, ⟨⟩⟩ := List.append_inj' hSame rfl
      exact hLast rfl
    · exact hOld before hOlder

end Starts

variable {repr : S → Except Exn String} {initial : S} {shown : List (Shown S)}

/-- The state line that was printed last renders the state after `before`. -/
def Renders (repr : S → Except Exn String) (initial : S) (before shown : List (Shown S)) : Prop :=
  ∃ text, repr (present initial before) = .ok text ∧ lastLine shown = some text

/-- At every start of a step the last state line renders the present state,
and until a step completes it goes on to show the state of that start. -/
structure LinesCurrent (repr : S → Except Exn String) (initial : S) (shown : List (Shown S)) :
    Prop where
  atStart : AtStarts (fun before => Renders repr initial before before) shown
  sinceStart : ∀ before, SinceStart before shown → Renders repr initial before shown

/-- Before each start of a step, the steps since the last completed one have
changed nothing that the rendering shows. -/
def UncompletedKeep (repr : S → Except Exn String) (initial : S) (shown : List (Shown S)) : Prop :=
  AtStarts (fun now => ∀ before, SinceStart before now →
    repr (present initial before) = repr (present initial now)) shown

/-- What `stateful::run` shows with `print_state` on, from its first state on. -/
inductive Printed (repr : S → Except Exn String) (initial : S) : List (Shown S) → Prop
  | begun {text : String} (hRepr : repr initial = .ok text) : Printed repr initial [.state text]
  | completed {shown : List (Shown S)} {now : S} {text : String}
      (prior : Printed repr initial shown) (hRepr : repr now = .ok text) :
      Printed repr initial (shown ++ [.started] ++ [.left now] ++ [.state text] ++ [.ended true])
  | thrown {shown : List (Shown S)} {now : S} (prior : Printed repr initial shown) :
      Printed repr initial (shown ++ [.started] ++ [.left now] ++ [.ended false])

namespace Printed

/-- Only a step that completes prints a line. -/
theorem lastLine_eq (h : Printed repr initial shown) {before : List (Shown S)}
    (hSince : SinceStart before shown) : lastLine shown = lastLine before := by
  induction h with
  | begun hRepr =>
      obtain ⟨middle, hShown, -⟩ := hSince
      cases before <;> simp at hShown
  | completed prior hRepr ih => exact absurd rfl (sinceStart_concat.mp hSince |>.elim
      (fun h => by cases h.1) And.right)
  | @thrown shown now prior ih =>
      have hSame : lastLine (shown ++ [.started] ++ [.left now] ++ [.ended false]) =
          lastLine shown := by
        simp [lastLine]
      rw [hSame]
      simp only [sinceStart_concat, reduceCtorEq, false_and, false_or] at hSince
      obtain ⟨⟨⟨-, rfl⟩ | ⟨hSince, -⟩, -⟩, -⟩ := hSince
      · rfl
      · exact ih hSince

/-- Either the present state was just printed, or the last step threw. -/
theorem renders_or_since (h : Printed repr initial shown) :
    Renders repr initial shown shown ∨ ∃ before, SinceStart before shown := by
  cases h with
  | begun hRepr => exact .inl ⟨_, hRepr, rfl⟩
  | @completed shown now text prior hRepr =>
      refine .inl ⟨text, ?_, ?_⟩
      · simp only [present_append]
        exact hRepr
      · simp [lastLine]
  | @thrown shown now prior => exact .inr ⟨shown, [.left now, .ended false], by simp, by simp⟩

/-- Where all starts so far were current, the next one is current exactly if
nothing visible changed since the last line. -/
theorem renders_iff (h : Printed repr initial shown)
    (hStarts : AtStarts (fun before => Renders repr initial before before) shown) :
    Renders repr initial shown shown ↔ ∀ before, SinceStart before shown →
      repr (present initial before) = repr (present initial shown) := by
  constructor
  · rintro ⟨text, hRepr, hLine⟩ before hSince
    obtain ⟨text', hRepr', hLine'⟩ := hStarts before hSince.isPrefix
    have hText : text = text' := by
      rw [h.lastLine_eq hSince, hLine'] at hLine
      exact (Option.some.inj hLine).symm
    rw [hRepr, hRepr', hText]
  · intro hKept
    rcases h.renders_or_since with hRenders | ⟨before, hSince⟩
    · exact hRenders
    · obtain ⟨text, hRepr, hLine⟩ := hStarts before hSince.isPrefix
      exact ⟨text, hKept before hSince ▸ hRepr, (h.lastLine_eq hSince).trans hLine⟩

theorem atStarts_iff (h : Printed repr initial shown) :
    AtStarts (fun before => Renders repr initial before before) shown ↔
      UncompletedKeep repr initial shown := by
  unfold UncompletedKeep
  induction h with
  | @begun text hRepr =>
      rw [← List.nil_append [Shown.state text], atStarts_concat, atStarts_concat]
      simp [AtStarts]
  | completed prior hRepr ih =>
      simp only [atStarts_concat, reduceCtorEq, false_implies, and_true, true_implies]
      rw [← ih]
      exact and_congr_right fun hStarts => prior.renders_iff hStarts
  | thrown prior ih =>
      simp only [atStarts_concat, reduceCtorEq, false_implies, and_true, true_implies]
      rw [← ih]
      exact and_congr_right fun hStarts => prior.renders_iff hStarts

/-- The lines are current exactly in the runs whose uncompleted steps leave
the rendering alone, the last step excepted. -/
theorem linesCurrent_iff (h : Printed repr initial shown) :
    LinesCurrent repr initial shown ↔ UncompletedKeep repr initial shown := by
  rw [← h.atStarts_iff]
  refine ⟨LinesCurrent.atStart, fun hStarts => ⟨hStarts, fun before hSince => ?_⟩⟩
  obtain ⟨text, hRepr, hLine⟩ := hStarts before hSince.isPrefix
  exact ⟨text, hRepr, (h.lastLine_eq hSince).trans hLine⟩

end Printed

theorem linesCurrent_nil : LinesCurrent repr initial [] ↔ UncompletedKeep repr initial [] := by
  have hNever {P : List (Shown S) → Prop} : AtStarts P [] := by
    intro before hBefore
    simp at hBefore
  refine ⟨fun _ => hNever, fun _ => ⟨hNever, ?_⟩⟩
  rintro before ⟨middle, hShown, -⟩
  simp at hShown

end Hegel
