import HegelCpp.Logic.Decoder
import HegelCpp.Run.FailureReport

/-! The way back from a report: the line it ends with, put into the source as an
annotation, makes its test replay the failure. -/
namespace Hegel.Session

open Logic Program Decoder Origin DatabaseKey Notes

/-- A name that the macros can be given. -/
structure MacroName extends Identifier where
  noComma : ',' ∉ text.toList

/-- A letter that stands for itself in a string literal. -/
def unescaped (c : Char) : Bool := c ≠ '"' && c ≠ '\\' && c ≠ '\n'

/-- A blob is a base64 text. -/
structure Blob extends CString where
  unescaped : ∀ c ∈ text.toList, Session.unescaped c = true

/-- A `HEGEL_TEST`: what `__FILE__`, `#name` and `__LINE__` say. -/
structure MacroTest where
  file : CString
  name : MacroName
  line : Int

/-- A `HEGEL_REPRODUCE_FAILURE`, with its first blob; the others are not read. -/
structure ReproduceFailure where
  file : CString
  name : MacroName
  blob : CString

/-- `blob_registry`. -/
abbrev Registry : Type := List (String × String)

/-- `register_blob`. `std::map::insert` keeps the blob a name already has. -/
def registerBlob (registry : Registry) (name : String) (blob : String) : Registry :=
  if (registry.lookup name).isSome then registry else registry ++ [(name, blob)]

/-- `reproduce_blobs_for`. -/
def reproduceBlobsFor (registry : Registry) (name : String) : List String :=
  (registry.lookup name).toList

/-- `__FILE__ "::" #name`. -/
def ReproduceFailure.key (reproduce : ReproduceFailure) : String :=
  TestId.key ⟨reproduce.file.text, reproduce.name.text⟩

/-- The registry after the static initializers of the program. -/
def registered (annotations : List ReproduceFailure) : Registry :=
  annotations.foldl (fun registry reproduce =>
    registerBlob registry reproduce.key reproduce.blob.text) []

namespace MacroTest

def key (test : MacroTest) : String := TestId.key ⟨test.file.text, test.name.text⟩

/-- The blobs that `test_from_macro` is given. -/
def failureBlobs (test : MacroTest) (annotations : List ReproduceFailure) : List String :=
  reproduceBlobsFor (registered annotations) test.key

/-- `test_from_macro`. -/
def frame (test : MacroTest) (verbosity : Verbosity) (printBlob : Bool) : Frame where
  verbosity := verbosity
  printBlob := printBlob
  location := some { name := test.name.text, file := test.file.text, line := test.line }
  rerunForm := RerunForm.annotation

/-- The annotation is keyed by the test. -/
def Has (test : MacroTest) (reproduce : ReproduceFailure) : Prop :=
  reproduce.file = test.file ∧ reproduce.name = test.name

end MacroTest

section Registry

theorem lookup_registerBlob (registry : Registry) (name blob key : String) :
    (registerBlob registry name blob).lookup key =
      (registry.lookup key).or (if name = key then some blob else none) := by
  unfold registerBlob
  by_cases hKey : name = key
  · subst hKey
    cases hKnown : registry.lookup name with
    | some known => simp [hKnown]
    | none => simp [List.lookup_append, hKnown]
  · have hOther : (key == name) = false := beq_false_of_ne (Ne.symm hKey)
    rw [if_neg hKey]
    split <;> simp [hOther, List.lookup_append]

/-- The first registration of a name counts. -/
theorem lookup_registered (annotations : List ReproduceFailure) (key : String) :
    (registered annotations).lookup key =
      (annotations.find? fun reproduce => reproduce.key = key).map fun reproduce =>
        reproduce.blob.text := by
  have hLoop (registry : Registry) :
      (annotations.foldl (fun registry reproduce =>
        registerBlob registry reproduce.key reproduce.blob.text) registry).lookup key =
      (registry.lookup key).or ((annotations.find? fun reproduce => reproduce.key = key).map
        fun reproduce => reproduce.blob.text) := by
    induction annotations generalizing registry with
    | nil => simp
    | cons reproduce annotations ih =>
        rw [List.foldl_cons, ih, lookup_registerBlob, List.find?_cons, Option.or_assoc]
        by_cases hKey : reproduce.key = key <;> simp [hKey]
  exact hLoop []

theorem not_shifted {a b : TestId} (hColon : ':' ∉ a.name.toList) : ¬a.Shifted b := by
  rintro (⟨-, hName⟩ | ⟨part, -, hName⟩)
  · exact hColon (by simp [hName])
  · exact hColon (by simp [hName])

theorem MacroName.ext {name name' : MacroName} (h : name.text = name'.text) : name = name' := by
  obtain ⟨⟨⟨text, noNul⟩, nonempty, noColon⟩, noComma⟩ := name
  obtain ⟨⟨⟨text', noNul'⟩, nonempty', noColon'⟩, noComma'⟩ := name'
  cases h
  rfl

/-- No identifier contains a colon, so an annotation is found by its own test only. -/
theorem annotation_key_eq_iff (test : MacroTest) (reproduce : ReproduceFailure) :
    reproduce.key = test.key ↔ test.Has reproduce := by
  constructor
  · intro hKey
    rcases TestId.key_eq_iff.mp hKey with hSame | hShifted | hShifted
    · rw [TestId.mk.injEq] at hSame
      exact ⟨CString.ext hSame.1, MacroName.ext hSame.2⟩
    · exact absurd hShifted (not_shifted reproduce.name.noColon)
    · exact absurd hShifted (not_shifted test.name.noColon)
  · rintro ⟨hFile, hName⟩
    rw [ReproduceFailure.key, MacroTest.key, hFile, hName]

variable {test : MacroTest} {before after : List ReproduceFailure} {reproduce : ReproduceFailure}

theorem failureBlobs_eq (test : MacroTest) (annotations : List ReproduceFailure) :
    test.failureBlobs annotations =
      ((annotations.find? fun reproduce => reproduce.key = test.key).map fun reproduce =>
        reproduce.blob.text).toList := by
  rw [MacroTest.failureBlobs, reproduceBlobsFor, lookup_registered]

/-- The first annotation of a test counts. -/
theorem failureBlobs_of_first (hFor : test.Has reproduce)
    (hFirst : ∀ other ∈ before, ¬test.Has other) :
    test.failureBlobs (before ++ reproduce :: after) = [reproduce.blob.text] := by
  have hNone : before.find? (fun reproduce => reproduce.key = test.key) = none := by
    rw [List.find?_eq_none]
    intro other hOther
    rw [decide_eq_true_iff, annotation_key_eq_iff]
    exact hFirst other hOther
  rw [failureBlobs_eq, List.find?_append, hNone]
  simp [(annotation_key_eq_iff test reproduce).mpr hFor]

/-- An annotation of another test is not looked at. -/
theorem failureBlobs_of_other (hOther : ¬test.Has reproduce) :
    test.failureBlobs (before ++ reproduce :: after) = test.failureBlobs (before ++ after) := by
  have hKey : ¬reproduce.key = test.key := fun h =>
    hOther ((annotation_key_eq_iff test reproduce).mp h)
  simp [failureBlobs_eq, List.find?_append, hKey]

end Registry

/-! The line of the report. -/

/-- A name up to a comma, and a string literal without escapes. -/
def macroArguments : Decoder Char (Run (fun c => c ≠ ',') × Run unescaped) :=
  framed "HEGEL_REPRODUCE_FAILURE(".toList "\")".toList
    (pairing ", \"".toList (run fun c => c ≠ ',') (run unescaped))

/-- The annotation in a line that a report ends a section with. -/
def rerunArguments (line : String) : Option (String × String) := do
  let arguments ← behind "rerun with: ".toList macroArguments line.toList
  pure (String.ofList arguments.1.1.val, String.ofList arguments.1.2.val)

theorem macroArguments_inverts : macroArguments.Inverts
    (fun arguments => "HEGEL_REPRODUCE_FAILURE(".toList ++
      (arguments.1.val ++ (", \"".toList ++ arguments.2.val) ++ "\")".toList)) fun _ => True := by
  refine Inverts.framed (Inverts.pairing run_inverts ?_ run_inverts) ?_
  · intro rest c hHead
    cases hHead
    rfl
  · intro rest _ c hHead
    cases hHead
    rfl

/-- The line that a failure of a test ends with names the test and the blob. -/
theorem rerunArguments_rerunLine (test : MacroTest) (verbosity : Verbosity) (blob : Blob) :
    rerunArguments ((test.frame verbosity true).rerunLine blob.text) =
      some (test.name.text, blob.text) := by
  have hName (c : Char) (hMem : c ∈ test.name.text.toList) : decide (c ≠ ',') = true := by
    rw [decide_eq_true_iff]
    rintro rfl
    exact test.name.noComma hMem
  have hRead := macroArguments_inverts.behind "rerun with: ".toList
    (⟨test.name.text.toList, hName⟩, ⟨blob.text.toList, blob.unescaped⟩) "\n".toList trivial
  have hLine : ((test.frame verbosity true).rerunLine blob.text).toList =
      "rerun with: ".toList ++ ("HEGEL_REPRODUCE_FAILURE(".toList ++
        (test.name.text.toList ++ (", \"".toList ++ blob.text.toList) ++ "\")".toList)) ++
        "\n".toList := by
    simp [Frame.rerunLine, MacroTest.frame]
  rw [rerunArguments, hLine]
  refine (congrArg (Option.bind · _) hRead).trans ?_
  simp

/-! The run of a test that has an annotation. -/
section Replay

/-- What a replay that fails again writes at its end. -/
def reproducedLine (ending : Ending) (blob : String) : String :=
  if ending.own = none then ""
  else "Failure blob " ++ (cStr blob).text ++ " reproduced an error\n"

theorem prints_blob {dladdr : Dladdr} {bodies : Nat → BodyRun}
    {notes : Nat → (root : NoteData) → List (NoteCall root)} {frame : Frame}
    (hLoud : frame.quiet = false) {engine : Engine} {statefulStepCount : Int}
    (hUndisturbed : Undisturbed engine statefulStepCount) (blob : String) (more : List String) :
    Prints (Printing.test dladdr bodies notes frame engine statefulStepCount (blob :: more)) 0
      (.error (some ((bodies 0).ending.own.getD notReproduced))) 1
      ((Printing.noted notes 0 (.replayed frame.verbosity false)).live ++
        reproducedLine (bodies 0).ending blob) := by
  have hLawful := hUndisturbed.engine
  refine (Prints.check hLawful.settingsNew).skip ?_
  rw [if_neg (Int.not_lt.mpr hUndisturbed.settings)]
  refine (Prints.checkAll hLawful.setters).skip ?_
  refine (Prints.replayFailure hLawful.blobReplay false).bind ?_
  dsimp only
  rw [outcomeAt_exception]
  cases hOwn : (bodies 0).ending.own with
  | none => exact (Prints.throw _).of_eq rfl rfl (by rw [reproducedLine, if_pos hOwn])
  | some exn =>
      refine ((Prints.report hLoud _).silently (.throw _)).of_eq rfl rfl ?_
      rw [reproducedLine, if_neg (by rw [hOwn]; exact Option.some_ne_none exn)]

/-- A test whose report ended with a blob, given the annotation that the line
names, replays it, and no other test does. -/
theorem annotation_replays (dladdr : Dladdr) (bodies : Nat → BodyRun)
    (notes : Nat → (root : NoteData) → List (NoteCall root)) {engine : Engine}
    {statefulStepCount : Int} (hUndisturbed : Undisturbed engine statefulStepCount)
    {verbosity : Verbosity} (hLoud : verbosity ≠ .quiet) (printBlob : Bool) (test : MacroTest)
    (blob : Blob) {before : List ReproduceFailure} (hFirst : ∀ other ∈ before, ¬test.Has other)
    (after : List ReproduceFailure) (fuel : Nat) :
    ∃ reproduce : ReproduceFailure, reproduce.file = test.file ∧
      rerunArguments ((test.frame verbosity true).rerunLine blob.text) =
        some (reproduce.name.text, reproduce.blob.text) ∧
      (∀ other : MacroTest, ¬other.Has reproduce →
        other.failureBlobs (before ++ reproduce :: after) =
          other.failureBlobs (before ++ after)) ∧
      ∃ state, state.calls = 1 ∧
        Printing.test dladdr bodies notes (test.frame verbosity printBlob) engine statefulStepCount
            (test.failureBlobs (before ++ reproduce :: after)) fuel ({}, "") =
          some (.error (some ((bodies 0).ending.own.getD notReproduced)), (state,
            (Printing.noted notes 0 (.replayed verbosity false)).live ++
              reproducedLine (bodies 0).ending blob.text)) := by
  refine ⟨⟨test.file, test.name, blob.toCString⟩, rfl, rerunArguments_rerunLine test _ blob,
    fun other hOther => failureBlobs_of_other hOther, ?_⟩
  rw [failureBlobs_of_first ⟨rfl, rfl⟩ hFirst]
  exact (prints_blob (by simpa [Frame.quiet, MacroTest.frame] using hLoud) hUndisturbed
    blob.text []).ends fuel

/-- It is the only annotation of the program. -/
theorem annotation_replays_failing :
    ∃ reproduce : ReproduceFailure, reproduce.file.text = "lists.cpp" ∧
      ∃ state, Printing.test (fun _ => none) failing (fun _ _ => [])
        { verbosity := .normal, location := some ⟨"reverse", "lists.cpp", 3⟩,
          rerunForm := RerunForm.annotation } oneFailure 50
        (reproduceBlobsFor (registered [reproduce]) "lists.cpp::reverse") 0 ({}, "") =
          some (.error (some (runtimeError "failed")), (state,
            "Failure blob AAEC reproduced an error\n")) := by
  obtain ⟨reproduce, hFile, -, -, state, -, hEnd⟩ := annotation_replays (fun _ => none) failing
    (fun _ _ => []) (show Undisturbed oneFailure 50 from ⟨oneFailure_lawful, by decide⟩)
    (show Verbosity.normal ≠ .quiet by decide) true
    ⟨⟨"lists.cpp", by decide⟩, ⟨⟨⟨"reverse", by decide⟩, by decide, by decide⟩, by decide⟩, 3⟩
    ⟨⟨"AAEC", by decide⟩, List.all_eq_true.mp (by decide)⟩ (List.forall_mem_nil _) [] 0
  have hBlob : (cStr "AAEC").text = "AAEC" := by decide
  refine ⟨reproduce, by rw [hFile], state, hEnd.trans ?_⟩
  simp [reproducedLine, hBlob, failing, Ending.own, Fails, runtimeError, Printing.noted, serial]

end Replay

end Hegel.Session
