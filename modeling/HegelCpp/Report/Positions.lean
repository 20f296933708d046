import HegelCpp.Logic.Separated
import HegelCpp.Report.GTest

/-! Which failures share a GTestFailure origin. An origin is documented as the
set of positions a case failed at; the code joins one entry per failure. -/
namespace Hegel.GTest

open Logic Decoder Separated

/-- The source position of an assertion, if GoogleTest could place it. -/
abbrev Place := Option (String × Int)

def TestPartResult.place (part : TestPartResult) : Place :=
  part.fileName.map fun file => (file, part.lineNumber)

/-- Where the assertions of a case failed, in order and as often as they did. -/
def places (recorded : List TestPartResult) : List Place :=
  (recorded.filter TestPartResult.failed).map TestPartResult.place

def SamePlaces (recorded recorded' : List TestPartResult) : Prop :=
  ∀ place, place ∈ places recorded ↔ place ∈ places recorded'

/-- The text `position` writes for a place. -/
def entry : Place → List Char
  | none => "<unknown>".toList
  | some (file, line) => file.toList ++ ':' :: decimal line

def separator : List Char := ", ".toList

/-- No file name of a failed assertion contains the separator. -/
def Separable (recorded : List TestPartResult) : Prop :=
  ∀ file line, some (file, line) ∈ places recorded → ¬separator <:+: file.toList

/-- The origin of what `raise_failures` throws. -/
def raisedOrigin (recorded : List TestPartResult) : Option String :=
  (raiseFailures recorded).bind (·.failureOrigin)

/-- The texts between the separators in an entry: the entry itself, unless the
file name contains one. -/
def pieces (place : Place) : List (List Char) := cut separator (entry place)

/-! The origin as a joined text. -/

theorem position_toList (part : TestPartResult) : (position part).toList = entry part.place := by
  unfold position TestPartResult.place
  cases part.fileName with
  | none => rfl
  | some file =>
      simp only [String.toList_append, String.toList_ofList, List.append_assoc]
      rfl

theorem separator_ne_nil : separator ≠ [] := List.cons_ne_nil _ _

theorem separator_unbordered : Unbordered separator := by
  have hSep : separator = [',', ' '] := rfl
  intro front back hSplit hBack
  rw [hSep] at hSplit hBack
  match front, hSplit with
  | [], _ => exact Or.inl rfl
  | [_], hSplit =>
      obtain rfl : [' '] = back := (List.cons.inj hSplit).2
      exact absurd hBack (by decide)
  | [_, _], hSplit => exact Or.inr (List.cons.inj (List.cons.inj hSplit).2).2.symm

theorem places_cons_failed {part : TestPartResult} (hFailed : part.failed = true)
    (recorded : List TestPartResult) :
    places (part :: recorded) = part.place :: places recorded := by
  rw [places, List.filter_cons_of_pos hFailed]
  rfl

theorem places_cons_passed {part : TestPartResult} (hFailed : part.failed = false)
    (recorded : List TestPartResult) : places (part :: recorded) = places recorded := by
  rw [places, List.filter_cons_of_neg (by rw [hFailed]; exact Bool.false_ne_true)]
  rfl

theorem add_passed {part : TestPartResult} (hFailed : part.failed = false) (out : Failures) :
    out.add part = out := by
  rw [Failures.add, hFailed]
  rfl

/-- Behind a first entry, each failure adds the separator and its own entry. -/
theorem foldl_origin (recorded : List TestPartResult) (out : Failures)
    (hOut : out.message.isEmpty = false) :
    (recorded.foldl Failures.add out).origin.toList =
      out.origin.toList ++ ((places recorded).map entry).flatMap (separator ++ ·) := by
  induction recorded generalizing out with
  | nil => simp [places]
  | cons part recorded ih =>
      have hAdded : (out.add part).message.isEmpty = false := by
        rw [add_isEmpty, hOut, Bool.false_and]
      rw [List.foldl_cons, ih _ hAdded]
      cases hFailed : part.failed with
      | false => rw [add_passed hFailed, places_cons_passed hFailed]
      | true =>
          have hOrigin : (out.add part).origin = out.origin ++ ", " ++ position part := by
            simp [Failures.add, hFailed, hOut]
          rw [hOrigin, places_cons_failed hFailed, String.toList_append, String.toList_append,
            position_toList, List.map_cons, List.flatMap_cons, List.append_assoc, List.append_assoc,
            List.append_assoc]
          rfl

theorem origin_joined (recorded : List TestPartResult) :
    (recorded.foldl Failures.add {}).origin =
      String.ofList (joined separator ((places recorded).map entry)) := by
  induction recorded with
  | nil => rfl
  | cons part recorded ih =>
      rw [List.foldl_cons]
      cases hFailed : part.failed with
      | false => rw [add_passed hFailed, places_cons_passed hFailed, ih]
      | true =>
          have hAdded : (Failures.add {} part).message.isEmpty = false := by
            rw [add_isEmpty, hFailed]
            rfl
          have hOrigin : (Failures.add {} part).origin = position part := by
            simp [Failures.add, hFailed]
          rw [← String.toList_inj, foldl_origin recorded _ hAdded, hOrigin, position_toList,
            places_cons_failed hFailed, String.toList_ofList]
          rfl

theorem someFailed_iff (recorded : List TestPartResult) :
    SomeFailed recorded ↔ places recorded ≠ [] := by
  rw [places, ne_eq, List.map_eq_nil_iff, List.filter_eq_nil_iff]
  simp [SomeFailed]

theorem raisedOrigin_eq (recorded : List TestPartResult) :
    raisedOrigin recorded = if places recorded = [] then none else
      some ("hegel::GTestFailure at " ++
        String.ofList (joined separator ((places recorded).map entry))) := by
  by_cases hFailed : SomeFailed recorded
  · rw [if_neg ((someFailed_iff recorded).mp hFailed), ← origin_joined, raisedOrigin,
      failures_raised hFailed]
    rfl
  · have hEmpty := not_not.mp (mt (someFailed_iff recorded).mpr hFailed)
    rw [raisedOrigin, nothing_raised hFailed, if_pos hEmpty]
    rfl

theorem decimal_injective : Function.Injective decimal :=
  @integer_inverts.injective _ _ _ _ _ [] nofun

theorem mem_decimal {c : Char} {n : Int} (h : c ∈ decimal n) : c = '-' ∨ c.isDigit = true := by
  cases n with
  | ofNat n => exact Or.inr (isDigit_of_mem_toDigits h)
  | negSucc n => exact (List.mem_cons.mp h).imp_right isDigit_of_mem_toDigits

theorem colon_not_decimal (n : Int) : ':' ∉ decimal n := fun h =>
  absurd (mem_decimal h) (by decide)

/-- An entry ends with the line number, behind its last colon. -/
theorem entry_injective : Function.Injective entry := by
  have hUnknown : ':' ∉ entry none := by decide
  rintro (_ | ⟨file, line⟩) (_ | ⟨file', line'⟩) h
  · rfl
  · exact absurd (h ▸ List.mem_append_right _ List.mem_cons_self) hUnknown
  · exact absurd (h ▸ List.mem_append_right _ List.mem_cons_self) hUnknown
  · obtain ⟨hFile, hLine⟩ :=
      last_separator (colon_not_decimal line) (colon_not_decimal line') h
    rw [String.toList_inj.mp hFile, decimal_injective hLine]

theorem pieces_eq_nil_iff (recorded : List TestPartResult) :
    (places recorded).flatMap pieces = [] ↔ places recorded = [] := by
  rw [List.flatMap_eq_nil_iff]
  constructor
  · intro hNil
    rw [List.eq_nil_iff_forall_not_mem]
    exact fun place hPlace => cutAfter_ne_nil _ _ _ (hNil place hPlace)
  · intro hNil place hPlace
    rw [hNil] at hPlace
    cases hPlace

/-- Two cases get one origin when their failures, in order and with every
repetition, read the same. -/
theorem raisedOrigin_eq_iff (recorded recorded' : List TestPartResult) :
    raisedOrigin recorded = raisedOrigin recorded' ↔
      (places recorded).flatMap pieces = (places recorded').flatMap pieces := by
  have hMap (places : List Place) :
      (places.map entry).flatMap (cut separator) = places.flatMap pieces := List.flatMap_map ..
  rw [raisedOrigin_eq, raisedOrigin_eq]
  by_cases h : places recorded = []
  · rw [if_pos h, (pieces_eq_nil_iff recorded).mpr h, eq_comm (a := []), pieces_eq_nil_iff]
    split <;> simp [*]
  · by_cases h' : places recorded' = []
    · rw [if_neg h, if_pos h', (pieces_eq_nil_iff recorded').mpr h', pieces_eq_nil_iff]
      simp [h]
    · rw [if_neg h, if_neg h', Option.some.injEq, String.append_right_inj, String.ofList_inj,
        joined_eq_iff separator_ne_nil separator_unbordered (by simpa using h) (by simpa using h'),
        hMap, hMap]

theorem pieces_separable {recorded : List TestPartResult} (h : Separable recorded) :
    (places recorded).flatMap pieces = (places recorded).map entry := by
  have hPieces (place : Place) (hPlace : place ∈ places recorded) :
      pieces place = [entry place] := by
    refine cut_eq_singleton fun hInfix => ?_
    cases place with
    | none =>
        have hComma : ',' ∈ entry none := hInfix.subset List.mem_cons_self
        exact absurd hComma (by decide)
    | some fileLine =>
        obtain ⟨file, line⟩ := fileLine
        have hBlank : ' ' ∉ ':' :: decimal line := by
          rw [List.mem_cons]
          rintro (h | h)
          · exact absurd h (by decide)
          · exact absurd (mem_decimal h) (by decide)
        have hFront : [','] ++ [' '] <:+: file.toList := infix_front hBlank hInfix
        exact h file line hPlace hFront
  rw [List.flatMap_congr hPieces, ← List.map_eq_flatMap]

/-- Separable failures are read back from the origin one by one. -/
theorem places_eq_of_separable {recorded recorded' : List TestPartResult} (h : Separable recorded)
    (h' : Separable recorded') (hOrigin : raisedOrigin recorded = raisedOrigin recorded') :
    places recorded = places recorded' := by
  rw [raisedOrigin_eq_iff, pieces_separable h, pieces_separable h'] at hOrigin
  exact entry_injective.list_map hOrigin

/-- The origins of the two cases identify the sets of their failed positions. -/
def Identified (recorded recorded' : List TestPartResult) : Prop :=
  (SamePlaces recorded recorded' → raisedOrigin recorded = raisedOrigin recorded') ∧
    (Separable recorded → Separable recorded' → ¬SamePlaces recorded recorded' →
      raisedOrigin recorded ≠ raisedOrigin recorded')

theorem identified_iff (recorded recorded' : List TestPartResult) :
    Identified recorded recorded' ↔ (SamePlaces recorded recorded' →
      (places recorded).flatMap pieces = (places recorded').flatMap pieces) := by
  constructor
  · intro h hSame
    exact (raisedOrigin_eq_iff recorded recorded').mp (h.1 hSame)
  · intro hReads
    constructor
    · intro hSame
      exact (raisedOrigin_eq_iff recorded recorded').mpr (hReads hSame)
    · intro hSeparable hSeparable' hOther hOrigin
      have hPlaces := places_eq_of_separable hSeparable hSeparable' hOrigin
      exact hOther fun place => by rw [hPlaces]

/-- One `EXPECT_EQ` in a loop, failing once and twice. -/
theorem not_every_case_identified :
    SamePlaces [failedExpect] [failedExpect, failedExpect] ∧
      raisedOrigin [failedExpect] = some "hegel::GTestFailure at test.cpp:3" ∧
      raisedOrigin [failedExpect, failedExpect] =
        some "hegel::GTestFailure at test.cpp:3, test.cpp:3" ∧
      ¬Identified [failedExpect] [failedExpect, failedExpect] := by
  have hSame : SamePlaces [failedExpect] [failedExpect, failedExpect] := by
    have hOnce : places [failedExpect] = [failedExpect.place] := rfl
    have hTwice : places [failedExpect, failedExpect] =
        [failedExpect.place, failedExpect.place] := rfl
    intro place
    rw [hOnce, hTwice]
    simp
  have hOnce : raisedOrigin [failedExpect] = some "hegel::GTestFailure at test.cpp:3" := by
    rw [raisedOrigin_eq]
    decide
  have hTwice : raisedOrigin [failedExpect, failedExpect] =
      some "hegel::GTestFailure at test.cpp:3, test.cpp:3" := by
    rw [raisedOrigin_eq]
    decide
  refine ⟨hSame, hOnce, hTwice, fun hIdentified => ?_⟩
  have hOrigin := hIdentified.1 hSame
  rw [hOnce, hTwice] at hOrigin
  exact absurd hOrigin (by decide)

end Hegel.GTest
