import HegelCpp.Report.Notes
import HegelCpp.Report.Transparency
import HegelCpp.Repr.Decode

/-! The declarations that a test prints determine the values it drew: a test
that decides by its draws alone can be followed along what it printed. -/
namespace Hegel.Report

open Logic Program Decoder Hegel.Repr Notes

variable {S α : Type} {m : DataModel}

/-- A value that was drawn. -/
abbrev Drawn (m : DataModel) : Type := (type : Ty) × type.Val m

/-- A test that draws on its own handle, and goes on by what it drew. -/
inductive Script (m : DataModel) (S α : Type) : Type 1 where
  | done (a : α)
  | draw (call : DrawCall) (type : Ty) (gen : Nat → Body S (type.Val m))
      (rest : type.Val m → Script m S α)

/-- The draws of a body, and those inside of them, are made on one handle. -/
def Body.OnHandle (handle : Nat) : {α : Type} → Body S α → Prop
  | _, .ret _ => True
  | _, .bind p k => p.OnHandle handle ∧ ∀ a, (k a).OnHandle handle
  | _, .throw _ => True
  | _, .tryCatch p handler => p.OnHandle handle ∧ ∀ e, (handler e).OnHandle handle
  | _, .loop body _ => ∀ k, (body k).OnHandle handle
  | _, .read => True
  | _, .write _ => True
  | _, .clone => True
  | _, .draw other _ _ gen => other = handle ∧ (gen handle).OnHandle handle

namespace Script

/-- The test as a body. It returns what it drew. -/
def body : Script m S α → Body S (List (Drawn m) × α)
  | done a => .ret ([], a)
  | draw call type gen rest =>
      .bind (.draw 0 call (fun value => .ok (String.ofList (repr m type value))) gen) fun value =>
        .bind (rest value).body fun (drawn, a) => .ret (⟨type, value⟩ :: drawn, a)

/-- Generators draw on the handle they are given. -/
def OnOwnHandle : Script m S α → Prop
  | done _ => True
  | draw _ _ gen rest => (gen 0).OnHandle 0 ∧ ∀ value, (rest value).OnOwnHandle

/-- Nothing that a generator draws fails to be rendered. -/
def Renders : Script m S α → Prop
  | done _ => True
  | draw _ _ gen rest => (∀ handle, (gen handle).Renders) ∧ ∀ value, (rest value).Renders

/-- Follow a script along its declarations. -/
def read : Script m S α → NameTable → Text → Option (List (Drawn m) × α)
  | done a, _, _ => some ([], a)
  | draw call type _ rest, table, text => do
      let (display, table) := table.display call
      let (value, text) ← (decode m type).framed ("auto " ++ display ++ " = ").toList
        ";\n".toList text
      let (drawn, a) ← (rest value).read table text
      pure (⟨type, value⟩ :: drawn, a)

/-- Follow a script along the output of a replay, which is indented and opens
with a blank line unless it is empty. -/
def readOutput : Script m S α → Text → Option (List (Drawn m) × α)
  | done a, _ => some ([], a)
  | script@(draw ..), text => script.read {} (undented '\n' 2 (text.drop 1))

end Script

theorem Script.body_renders {script : Script m S α} (h : script.Renders) : script.body.Renders := by
  induction script with
  | done a => trivial
  | draw call type gen rest ih =>
      exact ⟨⟨fun _ => ⟨_, rfl⟩, h.1⟩, fun value => ⟨ih value (h.2 value), fun _ => trivial⟩⟩

/-! One draw. -/

/-- While a draw is in progress on the handle, it gets no names and prints nothing. -/
structure Inside (handle : Nat) (a b : Family S) : Prop where
  created_le : a.created ≤ b.created
  shouldLog_eq : b.shouldLog = a.shouldLog
  depth_eq : handle < a.created → b.depth handle = a.depth handle
  names_eq : handle < a.created → a.depth handle ≠ 0 →
    (b.handles handle).names = (a.handles handle).names
  lines_eq : handle < a.created → a.depth handle ≠ 0 → b.lines = a.lines

namespace Inside

variable {handle : Nat} {a b : Family S}

theorem refl (a : Family S) : Inside handle a a where
  created_le := Nat.le_refl _
  shouldLog_eq := rfl
  depth_eq _ := rfl
  names_eq _ _ := rfl
  lines_eq _ _ := rfl

theorem trans ⦃a b c : Family S⦄ (hab : Inside handle a b) (hbc : Inside handle b c) :
    Inside handle a c where
  created_le := Nat.le_trans hab.created_le hbc.created_le
  shouldLog_eq := hbc.shouldLog_eq.trans hab.shouldLog_eq
  depth_eq hHandle := by
    rw [hbc.depth_eq (Nat.lt_of_lt_of_le hHandle hab.created_le), hab.depth_eq hHandle]
  names_eq hHandle hInside := by
    have hLater := Nat.lt_of_lt_of_le hHandle hab.created_le
    rw [hbc.names_eq hLater (by rwa [hab.depth_eq hHandle]), hab.names_eq hHandle hInside]
  lines_eq hHandle hInside := by
    have hLater := Nat.lt_of_lt_of_le hHandle hab.created_le
    rw [hbc.lines_eq hLater (by rwa [hab.depth_eq hHandle]), hab.lines_eq hHandle hInside]

theorem write (a : Family S) (memory : S) : Inside handle a { a with memory } where
  created_le := Nat.le_refl _
  shouldLog_eq := rfl
  depth_eq _ := rfl
  names_eq _ _ := rfl
  lines_eq _ _ := rfl

theorem clone (a : Family S) : Inside handle a a.clone where
  created_le := Nat.le_succ _
  shouldLog_eq := rfl
  depth_eq hHandle := by
    simp [Family.clone, Family.set, Family.depth, Nat.ne_of_lt hHandle]
  names_eq hHandle _ := by
    simp [Family.clone, Family.set, Nat.ne_of_lt hHandle]
  lines_eq _ _ := rfl

end Inside

section Scope

variable {handle other : Nat} {call : DrawCall} {family : Family S}

/-- A draw inside of another one takes no name. -/
theorem names_openScope (hInside : family.depth handle ≠ 0) :
    ((family.openScope handle call).handles other).names = (family.handles other).names := by
  have hDepth : ¬(family.handles handle).drawDepth = 0 := hInside
  by_cases hSame : other = handle
  · subst hSame
    simp [Family.openScope, Family.set, hDepth]
  · simp [Family.openScope, Family.set, hSame]

theorem names_closeScope :
    ((family.closeScope handle).handles other).names = (family.handles other).names := by
  by_cases hSame : other = handle
  · subst hSame
    simp [Family.closeScope, Family.set]
  · simp [Family.closeScope, Family.set, hSame]

theorem ensures_logDraw_none (draw : Nat) (rendered : Except Exn String) :
    (logDraw draw none rendered).Ensures family (andThen (fun _ world => world = family)
      fun _ _ => False) :=
  ensures_bind (ensures_get (ensures_pure _ rfl))

theorem ensures_logDraw_some (hLogs : family.shouldLog = true) (draw : Nat)
    (display text : String) :
    (logDraw draw (some display) (.ok text)).Ensures family (andThen
      (fun _ world => world = { family with
        lines := family.lines ++ [⟨draw, "auto " ++ display ++ " = " ++ text ++ ";"⟩] })
      fun _ _ => False) := by
  refine ensures_bind (ensures_get ?_)
  rw [andThen_ok]
  refine ensures_ite (fun _ => ensures_modify _ rfl) fun hQuiet => absurd hLogs hQuiet

theorem ensures_drawAndLog_inside {draw : Nat} {display : Option String}
    {render : α → Except Exn String} {doDraw : Program Exn (Family S) α}
    (hInner : Preserves (Inside handle) doDraw) :
    (drawAndLog draw display render doDraw).Ensures family fun _ world =>
      ∃ inner lines, Inside handle family inner ∧ world = { inner with lines } ∧
        (display = none → lines = inner.lines) := by
  apply ensures_bind
  refine (hInner family).mono ?_
  intro result inner hInside
  cases result with
  | error e => exact ⟨inner, inner.lines, hInside, rfl, fun _ => rfl⟩
  | ok value =>
      apply ensures_bind
      cases display with
      | none =>
          refine (ensures_logDraw_none draw (render value)).mono ?_
          intro result world hLogged
          cases result with
          | error e => exact absurd hLogged id
          | ok _ => exact ensures_pure value ⟨inner, inner.lines, hInside, hLogged, fun _ => rfl⟩
      | some display =>
          refine ensures_logDraw.mono ?_
          intro result world hLogged
          cases result with
          | error e => exact ⟨inner, inner.lines, hInside, hLogged, fun _ => rfl⟩
          | ok _ =>
              obtain ⟨lines, hLines, -⟩ := hLogged
              exact ensures_pure value ⟨inner, lines, hInside, hLines, nofun⟩

/-- A scope inside of another one leaves no trace. -/
theorem Inside.close {inner : Family S} {lines : List DrawLine} (hHandle : handle < family.created)
    (h : Inside handle (family.openScope handle call) inner)
    (hLines : family.depth handle ≠ 0 → lines = inner.lines) :
    Inside handle family (({ inner with lines } : Family S).closeScope handle) where
  created_le := h.created_le
  shouldLog_eq := h.shouldLog_eq
  depth_eq _ := by
    have hDepth : inner.depth handle = family.depth handle + 1 := by
      rw [h.depth_eq hHandle, DrawEffect.depth_openScope, if_pos rfl]
    show (inner.closeScope handle).depth handle = _
    rw [DrawEffect.depth_closeScope, if_pos rfl, hDepth, Nat.add_sub_cancel]
  names_eq _ hInside := by
    have hOpen : (family.openScope handle call).depth handle ≠ 0 := by
      rw [DrawEffect.depth_openScope, if_pos rfl]
      exact Nat.succ_ne_zero _
    show ((inner.closeScope handle).handles handle).names = _
    rw [names_closeScope, h.names_eq hHandle hOpen, names_openScope hInside]
  lines_eq _ hInside := by
    have hOpen : (family.openScope handle call).depth handle ≠ 0 := by
      rw [DrawEffect.depth_openScope, if_pos rfl]
      exact Nat.succ_ne_zero _
    exact (hLines hInside).trans (h.lines_eq hHandle hOpen)

theorem preserves_inside_draw (byBody : Bool) (call : DrawCall) (render : α → Except Exn String)
    {doDraw : Program Exn (Family S) α} (hInner : Preserves (Inside handle) doDraw) :
    Preserves (Inside handle) (draw byBody handle call render doDraw) := by
  intro family
  refine ensures_bind (ensures_get ?_)
  rw [andThen_ok]
  refine ensures_ite ?_ fun _ => ensures_diverge
  intro hHandle
  refine ensures_bind (ensures_modify _ ?_)
  rw [andThen_ok]
  refine ensures_bind (ensures_tryCatch ((ensures_drawAndLog_inside hInner).mono ?_))
  rintro result _ ⟨inner, lines, hInside, rfl, hLines⟩
  have hOwnLines : family.depth handle ≠ 0 → lines = inner.lines :=
    fun hDepth => hLines (by simp [hDepth])
  have hClosed := hInside.close hHandle hOwnLines
  cases result with
  | error e => exact ensures_bind (ensures_modify _ (ensures_throw e hClosed))
  | ok value =>
      refine ensures_bind (ensures_modify _ (ensures_bind (ensures_modify _ ?_)))
      exact ensures_pure value ⟨hClosed.created_le, hClosed.shouldLog_eq, hClosed.depth_eq,
        hClosed.names_eq, hClosed.lines_eq⟩

end Scope

theorem preserves_inside {handle : Nat} {body : Body S α} (h : body.OnHandle handle)
    (byBody : Bool) : Preserves (Inside handle) (body.exec byBody) := by
  induction body generalizing byBody with
  | ret a => exact preserves_pure Inside.refl a
  | bind p k ihp ihk =>
      exact preserves_bind Inside.trans (ihp h.1 byBody) fun a => ihk a (h.2 a) byBody
  | throw e => exact preserves_throw Inside.refl e
  | tryCatch p handler ihp ihHandler =>
      exact preserves_tryCatch Inside.trans (ihp h.1 byBody) fun e => ihHandler e (h.2 e) byBody
  | loop body k ih =>
      exact preserves_loop Inside.refl Inside.trans (fun k => ih k (h k) byBody) k
  | read =>
      exact preserves_bind Inside.trans (preserves_get Inside.refl) fun _ =>
        preserves_pure Inside.refl _
  | write memory => exact fun a => ensures_modify _ (Inside.write a memory)
  | clone =>
      refine preserves_bind Inside.trans (preserves_get Inside.refl) fun _ =>
        preserves_bind Inside.trans ?_ fun _ => preserves_pure Inside.refl _
      exact fun a => ensures_modify _ (Inside.clone a)
  | draw other call render gen ih =>
      obtain ⟨rfl, hGen⟩ := h
      exact preserves_inside_draw byBody call render (ih other hGen false)

/-! A whole test. -/

/-- No draw is in progress on the first handle, and draws are printed. -/
structure Family.Ready (family : Family S) : Prop where
  created : 0 < family.created
  depth : family.depth 0 = 0
  logs : family.shouldLog = true

theorem ready_start (memory : S) : (Family.start memory).Ready := ⟨Nat.one_pos, rfl, rfl⟩

/-- An outermost draw takes the next name, and prints its value under it. -/
structure Declares (call : DrawCall) (text : String) (a b : Family S) : Prop where
  ready : b.Ready
  names : (b.handles 0).names = ((a.handles 0).names.display call).2
  lines : ∃ draw, b.lines = a.lines ++
    [⟨draw, "auto " ++ ((a.handles 0).names.display call).1 ++ " = " ++ text ++ ";"⟩]

theorem ensures_draw_outermost {family : Family S} (hReady : family.Ready) (call : DrawCall)
    (text : α → String) {doDraw : Program Exn (Family S) α}
    (hInner : Preserves (Inside 0) doDraw) :
    (draw true 0 call (fun value => .ok (text value)) doDraw).Ensures family (andThen
      (fun value world => Declares call (text value) family world) fun _ _ => True) := by
  have hDepth : (family.handles 0).drawDepth = 0 := hReady.depth
  have hOpen : (family.openScope 0 call).depth 0 ≠ 0 := by
    rw [DrawEffect.depth_openScope, if_pos rfl]
    exact Nat.succ_ne_zero _
  have hNames : ((family.openScope 0 call).handles 0).names =
      ((family.handles 0).names.display call).2 := by
    simp [Family.openScope, Family.set, hDepth]
  refine ensures_bind (ensures_get ?_)
  rw [andThen_ok]
  refine ensures_ite ?_ fun _ => ensures_diverge
  intro hHandle
  refine ensures_bind (ensures_modify _ ?_)
  rw [andThen_ok]
  refine ensures_bind (ensures_tryCatch (ensures_bind ((hInner _).mono ?_)))
  intro result inner hInside
  cases result with
  | error e => exact ensures_bind (ensures_modify _ (ensures_throw e trivial))
  | ok value =>
      have hLogs : inner.shouldLog = true := hInside.shouldLog_eq.trans hReady.logs
      have hInner : inner.depth 0 = family.depth 0 + 1 := by
        rw [hInside.depth_eq hHandle, DrawEffect.depth_openScope, if_pos rfl]
      rw [hReady.depth, decide_eq_true rfl, if_pos rfl]
      refine ensures_bind ((ensures_logDraw_some hLogs _ _ _).mono ?_)
      intro result world hLogged
      cases result with
      | error e => exact absurd hLogged id
      | ok _ =>
          rw [andThen_ok] at hLogged
          subst hLogged
          refine ensures_pure value ?_
          refine ensures_bind (ensures_modify _ (ensures_bind (ensures_modify _ ?_)))
          refine ensures_pure value ⟨⟨?_, ?_, hLogs⟩, ?_, ?_⟩
          · exact Nat.lt_of_lt_of_le hHandle hInside.created_le
          · show (inner.closeScope 0).depth 0 = 0
            rw [DrawEffect.depth_closeScope, if_pos rfl, hInner, hReady.depth]
          · show ((inner.closeScope 0).handles 0).names = _
            rw [names_closeScope, hInside.names_eq hHandle hOpen, hNames]
          · refine ⟨family.draws, ?_⟩
            show inner.lines ++ _ = _
            rw [hInside.lines_eq hHandle hOpen]
            rfl

/-- The declarations, one after the other. -/
def transcript (lines : List DrawLine) : Text :=
  lines.flatMap fun line => line.text.toList ++ "\n".toList

theorem stops_declaration (rest : Text) : Stops (";\n".toList ++ rest) :=
  ⟨';', '\n' :: rest, rfl, .inr (.inr rfl)⟩

/-- One declaration is read back, whatever is printed behind it. -/
theorem declaration_inverts (m : DataModel) (type : Ty) (display : String) :
    ((decode m type).framed ("auto " ++ display ++ " = ").toList ";\n".toList).Inverts
      (fun value => ("auto " ++ display ++ " = ").toList ++ (repr m type value ++ ";\n".toList))
      fun _ => True :=
  (decode_inverts type).framed fun rest _ => stops_declaration rest

/-- The lines are those of a script that drew and ended so. -/
structure Script.Printed (script : Script m S α) (table : NameTable) (lines : List DrawLine)
    (drawn : List (Drawn m) × α) : Prop where
  done : lines = [] → ∃ a, script = .done a
  reads : ∀ rest, script.read table (transcript lines ++ rest) = some drawn

theorem Script.Printed.draw {call : DrawCall} {type : Ty} {gen : Nat → Body S (type.Val m)}
    {rest : type.Val m → Script m S α} {table : NameTable} {value : type.Val m}
    {lines : List DrawLine} {drawn : List (Drawn m) × α}
    (h : (rest value).Printed (table.display call).2 lines drawn) (id : Nat) :
    (Script.draw call type gen rest).Printed table
      (⟨id, "auto " ++ (table.display call).1 ++ " = " ++ String.ofList (repr m type value) ++
        ";"⟩ :: lines) (⟨type, value⟩ :: drawn.1, drawn.2) where
  done := nofun
  reads tail := by
    have hValue := declaration_inverts m type (table.display call).1 value
      (transcript lines ++ tail) trivial
    have hText (text : Text) : transcript (⟨id, "auto " ++ (table.display call).1 ++ " = " ++
        String.ofList text ++ ";"⟩ :: lines) ++ tail =
        ("auto " ++ (table.display call).1 ++ " = ").toList ++ (text ++ ";\n".toList) ++
          (transcript lines ++ tail) := by
      simp [transcript]
    rw [Script.read, hText]
    simp only [hValue, Option.bind_eq_bind, Option.bind_some, h.reads tail]
    rfl

/-- A test that ends without an exception has printed what it drew. -/
theorem ensures_body {script : Script m S α} (hOwn : script.OnOwnHandle) {family : Family S}
    (hReady : family.Ready) :
    (script.body.exec true).Ensures family (andThen
      (fun drawn world => ∃ lines, world.lines = family.lines ++ lines ∧
        script.Printed (family.handles 0).names lines drawn) fun _ _ => True) := by
  induction script generalizing family with
  | done a =>
      refine ensures_pure _ ⟨[], by simp, ?_⟩
      exact { done := fun _ => ⟨a, rfl⟩, reads := fun _ => rfl }
  | draw call type gen rest ih =>
      refine ensures_bind ((ensures_draw_outermost hReady call
        (fun value => String.ofList (repr m type value)) (preserves_inside hOwn.1 false)).mono ?_)
      intro result middle hMiddle
      cases result with
      | error e => trivial
      | ok value =>
          refine ensures_bind ((ih value (hOwn.2 value) hMiddle.ready).mono ?_)
          intro result world hWorld
          cases result with
          | error e => trivial
          | ok drawn =>
              obtain ⟨lines, hLines, hPrinted⟩ := hWorld
              obtain ⟨id, hDraw⟩ := hMiddle.lines
              rw [hMiddle.names] at hPrinted
              exact ensures_pure _ ⟨_, by rw [hLines, hDraw, List.append_assoc]; rfl,
                hPrinted.draw id⟩

/-! The output of a replay. -/

theorem newline_not_empty : '\n' ∉ "".toList := by
  decide

/-- The calls of `note` for the declarations. -/
def noteCalls (root : NoteData) (lines : List DrawLine) : List (NoteCall root) :=
  lines.map fun line =>
    { handle := root, member := .root, message := line.text, plain := newline_not_empty }

theorem calls_loop {root : NoteData} (call : NoteCall root) (rest : List Char)
    (out : Output root) : (out.loop call rest).calls = out.calls := by
  induction rest using nextSegment_induction '\n' generalizing out with
  | last rest segment hNext =>
      rw [Output.loop_of_none hNext]
      rfl
  | more rest segment rest' hNext ih =>
      rw [Output.loop_of_some hNext, ih]
      rfl

theorem calls_note {root : NoteData} {call : NoteCall root} (hLogs : call.handle.shouldLog = true)
    (out : Output root) : (out.note call).calls = out.calls ++ [call] := by
  rw [Output.note, if_pos hLogs, calls_loop]
  rfl

/-- What stands in the sinks after calls that one thread made. -/
theorem serial_holds {root : NoteData} (hLogs : root.shouldLog = true)
    (calls : List (NoteCall root)) :
    (serial calls).calls = calls ∧ (serial calls).Holds (calls.flatMap NoteCall.lines) := by
  have hReachable : ((monitor root).system Unit).Reachable (.idle Unit (serial calls)) ∧
      (serial calls).calls = calls := by
    induction calls using List.reverseRecOn with
    | nil => exact ⟨.init ⟨rfl, rfl, fun _ => rfl⟩, rfl⟩
    | append_singleton calls call ih =>
        have hCall : call.handle.shouldLog = true := call.member.agrees.2.2.2.trans hLogs
        have hNext : serial (calls ++ [call]) = (serial calls).note call := by simp [serial]
        rw [hNext, calls_note hCall, ih.2]
        exact ⟨reachable_note ih.1 () call hCall, rfl⟩
  obtain ⟨hRun, hCalls⟩ := hReachable
  have hHolds := ((monitor_keeps root).reachable hRun).1 rfl
  exact ⟨hCalls, by simpa [Monitor.State.idle, hCalls] using hHolds⟩

theorem printed_lines {root : NoteData} (call : NoteCall root) (segments : List (List Char)) :
    (printed (segments.map call.line)).toList =
      segments.flatMap fun segment => call.lead.toList ++ segment ++ ['\n'] := by
  induction segments with
  | nil => rfl
  | cons segment segments ih =>
      rw [List.map_cons, ← List.singleton_append, printed_append, printed_singleton,
        String.toList_append, ih, NoteCall.line]
      simp

theorem printed_noteCalls (verbosity : Verbosity) (lines : List DrawLine) :
    (printed ((noteCalls (.replayed verbosity true) lines).flatMap NoteCall.lines)).toList =
      (lines.flatMap fun line => line.text.toList.splitOn '\n').flatMap fun segment =>
        "  ".toList ++ segment ++ ['\n'] := by
  induction lines with
  | nil => rfl
  | cons line lines ih =>
      rw [noteCalls, List.map_cons, List.flatMap_cons, printed_append, String.toList_append,
        NoteCall.lines, printed_lines, ← noteCalls, ih, List.flatMap_cons, List.flatMap_append]
      rfl

/-- The declarations in a report: behind a blank line, each of their lines indented. -/
theorem live_noteCalls {verbosity : Verbosity} (hLoud : verbosity ≠ .quiet)
    (lines : List DrawLine) :
    (serial (noteCalls (.replayed verbosity true) lines)).live.toList =
      (if lines = [] then [] else ['\n']) ++
        (lines.flatMap fun line => line.text.toList.splitOn '\n').flatMap fun segment =>
          "  ".toList ++ segment ++ ['\n'] := by
  have hLogs : (NoteData.replayed verbosity true).shouldLog = true := by
    cases verbosity with
    | quiet => exact absurd rfl hLoud
    | _ => rfl
  obtain ⟨hCalls, hHolds⟩ := serial_holds hLogs (noteCalls (.replayed verbosity true) lines)
  rw [hHolds.live, if_pos (NoteData.emitLive_of_inReport rfl), Output.opening, hCalls,
    String.toList_append]
  congr 1
  · cases lines <;> simp [noteCalls, NoteData.replayed]
  · exact printed_noteCalls verbosity lines

/-- The output of a replay is read back, whatever the report says behind it. -/
theorem readOutput_printed {verbosity : Verbosity} (hLoud : verbosity ≠ .quiet)
    {script : Script m S α} {lines : List DrawLine} {drawn : List (Drawn m) × α}
    (h : script.Printed {} lines drawn) (rest : Text) :
    script.readOutput ((serial (noteCalls (.replayed verbosity true) lines)).live.toList ++ rest) =
      some drawn := by
  cases script with
  | done a => exact h.reads []
  | draw call type gen next =>
      have hSome : lines ≠ [] := by
        intro hNil
        obtain ⟨a, hDone⟩ := h.done hNil
        cases hDone
      have hSegments : ∀ segment ∈ lines.flatMap fun line => line.text.toList.splitOn '\n',
          '\n' ∉ segment := by
        intro segment hMem
        obtain ⟨line, -, hSegment⟩ := List.mem_flatMap.mp hMem
        exact notMem_of_mem_splitOn hSegment
      have hLead : '\n' ∉ "  ".toList := by decide
      have hTwo : "  ".toList.length = 2 := by decide
      have hLines := undented_lines hLead hSegments rest
      have hMessages : (lines.flatMap fun line => line.text.toList.splitOn '\n').flatMap
          (· ++ ['\n']) = transcript lines := by
        rw [List.flatMap_assoc, transcript]
        simp [flatMap_splitOn]
      rw [hMessages, hTwo] at hLines
      rw [Script.readOutput, live_noteCalls hLoud, if_neg hSome]
      have hRead := h.reads (undented '\n' 2 rest)
      rw [← hLines] at hRead
      exact hRead

end Hegel.Report
