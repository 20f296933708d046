import HegelCpp.Report.ReadBack
import HegelCpp.Run.FailureReport

/-! What a report says about a failure that the run found: the replay draws what
the failing case drew, and its section can be read back. -/
namespace Hegel.Session

open Logic Program Origin DatabaseKey Notes Report Hegel.Repr

variable {S α : Type} {m : DataModel}

/-- Follow a script along the section of the failure `index` of `count`. -/
def readSection (script : Script m S α) (count index : Nat) (text : String) :
    Option (List (Drawn m) × α) :=
  script.readOutput
    (text.toList.drop (if count = 1 then "" else Frame.heading count index).toList.length)

/-- The values that the section of a failure declares are those that the failing
case drew, whether or not that case printed them itself. The memory holds the
answers of the engine; a blob makes it give the same ones again. -/
theorem counterexample_reads_back (dladdr : Dladdr) (bodies : Nat → BodyRun) (frame : Frame)
    (hLoud : frame.verbosity ≠ .quiet) (engine : Engine) (index : Nat) {script : Script m S α}
    (hOwn : script.OnOwnHandle) (hRenders : script.Renders) {memory : S} {logs : Bool} {fuel : Nat}
    {drawn : List (Drawn m) × α} {failed : Family S}
    (hFailed : script.body.exec true fuel { memory, shouldLog := logs } = some (.ok drawn, failed)) :
    ∃ replayed, script.body.exec true fuel { memory } = some (.ok drawn, replayed) ∧
      replayed.unlogged = failed.unlogged ∧
      ∀ notes : Nat → (root : NoteData) → List (NoteCall root),
        (∀ root, notes (engine.cases.length + index) root = noteCalls root replayed.lines) →
        readSection script engine.failureCount index
          (failureSection dladdr bodies notes frame engine index) = some drawn := by
  have hProjects := projects_exec (Script.body_renders hRenders) true fuel
  have hCase := hProjects { memory, shouldLog := logs }
  have hReplay := hProjects { memory }
  rw [hFailed, Option.map_some] at hCase
  obtain ⟨⟨result, replayed⟩, hEnd, hSame⟩ := Option.map_eq_some_iff.mp (hReplay.trans hCase.symm)
  obtain ⟨rfl, hView⟩ := Prod.mk.inj hSame
  refine ⟨replayed, hEnd, hView, fun notes hNotes => ?_⟩
  obtain ⟨lines, hLines, hPrinted⟩ := ensures_body hOwn (ready_start memory) fuel _ _ hEnd
  rw [failureSection, opened, Session.replayed, Printing.noted, hNotes,
    show replayed.lines = lines from hLines]
  have hRead := readOutput_printed hLoud hPrinted
  rw [readSection, String.append_assoc, String.toList_append, List.drop_left,
    String.toList_append]
  exact hRead _

/-- A test that draws a flag and, when it is set, a text. -/
def drawsText : Script .lp64 Unit Bool :=
  .draw ⟨"flag", false⟩ (.integral .bool) (fun _ => .ret true) fun (flag : Bool) =>
    if flag then .draw ⟨"", false⟩ .string (fun _ => .ret [34, 10]) fun _ => .done false
    else .done true

/-- The text has a quote and a newline. -/
theorem counterexample_reads_back_drawsText :
    ∃ replayed, drawsText.body.exec true 0 { memory := () } =
        some (.ok ([⟨.integral .bool, true⟩, ⟨.string, [34, 10]⟩], false), replayed) ∧
      readSection drawsText 1 0 (failureSection (fun _ => none) failing
        (fun _ root => noteCalls root replayed.lines) {} oneFailure 0) =
        some ([⟨.integral .bool, true⟩, ⟨.string, [34, 10]⟩], false) := by
  have hOwn : drawsText.OnOwnHandle := by
    refine ⟨trivial, fun flag => ?_⟩
    cases flag with
    | false => trivial
    | true => exact ⟨trivial, fun _ => trivial⟩
  have hRenders : drawsText.Renders := by
    refine ⟨fun _ => trivial, fun flag => ?_⟩
    cases flag with
    | false => trivial
    | true => exact ⟨fun _ => trivial, fun _ => trivial⟩
  have hFailed : drawsText.body.exec true 0 { memory := (), shouldLog := false } =
      some (.ok ([⟨.integral .bool, true⟩, ⟨.string, [34, 10]⟩], false), _) := rfl
  obtain ⟨replayed, hEnd, -, hRead⟩ := counterexample_reads_back (fun _ => none) failing {}
    (show Verbosity.normal ≠ .quiet by decide) oneFailure 0 hOwn hRenders hFailed
  exact ⟨replayed, hEnd, hRead (fun _ root => noteCalls root replayed.lines) fun _ => rfl⟩

end Hegel.Session
