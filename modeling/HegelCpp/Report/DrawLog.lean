import HegelCpp.Exception
import HegelCpp.Logic.Program
import HegelCpp.Report.DrawNames

/-! Which draws print a declaration line. A test body draws on the handles it
has, a generator may draw on handles too, and the library tells the two apart
by a depth that every handle counts for itself. -/
namespace Hegel.Report

open Logic Program

variable {S α β : Type}

/-- What `DrawLogScope` reads and writes in the `TestCaseData` of a handle. -/
structure DrawData where
  drawDepth : Nat := 0
  names : NameTable := {}

/-- A declaration line. The number of the draw is a ghost. -/
structure DrawLine where
  draw : Nat
  text : String
  deriving DecidableEq, Repr

/-- Ghost: a draw that returned, whether the body itself made it, and whether
another draw was in progress on its handle. -/
structure ReturnedDraw where
  draw : Nat
  byBody : Bool
  inProgress : Bool
  deriving DecidableEq, Repr

/-- A test case with the clones made of it. -/
structure Family (S : Type) where
  memory : S
  shouldLog : Bool := true
  handles : Nat → DrawData := fun _ => {}
  created : Nat := 1
  lines : List DrawLine := []
  /-- Ghost: how many draws were started. -/
  draws : Nat := 0
  /-- Ghost: the draws that returned, in that order. -/
  returned : List ReturnedDraw := []

/-- The name of a draw and the table behind it. Where an `int` overflows, which
C++ leaves undefined, the name is the base. -/
def NameTable.display (table : NameTable) (call : DrawCall) : String × NameTable :=
  (table.draw call).getD (call.base, table)

def Family.depth (family : Family S) (handle : Nat) : Nat := (family.handles handle).drawDepth

def Family.set (family : Family S) (handle : Nat) (data : DrawData) : Family S :=
  { family with handles := Function.update family.handles handle data }

/-- `DrawLogScope::DrawLogScope`. Only an outermost draw gets a name. -/
def Family.openScope (family : Family S) (handle : Nat) (call : DrawCall) : Family S :=
  let data := family.handles handle
  let names := if data.drawDepth = 0 then (data.names.display call).2 else data.names
  { family.set handle { drawDepth := data.drawDepth + 1, names } with draws := family.draws + 1 }

/-- `DrawLogScope::~DrawLogScope`. -/
def Family.closeScope (family : Family S) (handle : Nat) : Family S :=
  let data := family.handles handle
  family.set handle { data with drawDepth := data.drawDepth - 1 }

/-- `TestCase::clone`: a new handle shares the output, and starts with a depth
and names of its own. -/
def Family.clone (family : Family S) : Family S :=
  { family.set family.created {} with created := family.created + 1 }

/-- `DrawLogScope::log`, after `should_log` and `repr`. Rendering is user code
and may throw. -/
def logDraw (draw : Nat) (display : Option String) (rendered : Except Exn String) :
    Program Exn (Family S) Unit := do
  let family ← Program.get
  match display with
  | none => pure ()
  | some display =>
      if family.shouldLog then
        match rendered with
        | .error e => Program.throw e
        | .ok text => Program.modify fun family =>
            { family with
              lines := family.lines ++ [⟨draw, "auto " ++ display ++ " = " ++ text ++ ";"⟩] }
      else pure ()

/-- What `TestCase::draw` does while its scope is open. -/
def drawAndLog (draw : Nat) (display : Option String) (render : α → Except Exn String)
    (doDraw : Program Exn (Family S) α) : Program Exn (Family S) α := do
  let value ← doDraw
  logDraw draw display (render value)
  pure value

/-- `TestCase::draw`. The destructor of the scope runs however the draw ends.
Code only has the handles that were created. -/
def draw (byBody : Bool) (handle : Nat) (call : DrawCall) (render : α → Except Exn String)
    (doDraw : Program Exn (Family S) α) : Program Exn (Family S) α := do
  let family ← Program.get
  if handle < family.created then
    let outermost := decide (family.depth handle = 0)
    let display := if outermost then some ((family.handles handle).names.display call).1 else none
    Program.modify fun family => family.openScope handle call
    let value ← (drawAndLog family.draws display render doDraw).tryCatch fun e => do
      Program.modify fun family => family.closeScope handle
      Program.throw e
    Program.modify fun family => family.closeScope handle
    Program.modify fun world =>
      { world with returned := world.returned ++ [⟨family.draws, byBody, !outermost⟩] }
    pure value
  else Program.diverge

/-- Test bodies, and generators given the handle they are drawn on. Everything
else that they do only reads and writes the memory. -/
inductive Body (S : Type) : Type → Type 1 where
  | ret {α : Type} (a : α) : Body S α
  | bind {α β : Type} (p : Body S α) (k : α → Body S β) : Body S β
  | throw {α : Type} (e : Exn) : Body S α
  | tryCatch {α : Type} (p : Body S α) (handler : Exn → Body S α) : Body S α
  | loop {α κ : Type} (body : κ → Body S (κ ⊕ α)) (k : κ) : Body S α
  | read : Body S S
  | write (memory : S) : Body S Unit
  | clone : Body S Nat
  | draw {α : Type} (handle : Nat) (call : DrawCall) (render : α → Except Exn String)
      (gen : Nat → Body S α) : Body S α

/-- Run a body, or a generator inside a draw. -/
def Body.exec : {α : Type} → (byBody : Bool) → Body S α → Program Exn (Family S) α
  | _, _, ret a => pure a
  | _, byBody, bind p k => exec byBody p >>= fun a => exec byBody (k a)
  | _, _, throw e => Program.throw e
  | _, byBody, tryCatch p handler =>
      (exec byBody p).tryCatch fun e => exec byBody (handler e)
  | _, byBody, loop body k => Program.loop (fun k => exec byBody (body k)) k
  | _, _, read => do
      let family ← Program.get
      pure family.memory
  | _, _, write memory => Program.modify fun family => { family with memory }
  | _, _, clone => do
      let family ← Program.get
      Program.modify Family.clone
      pure family.created
  | _, byBody, draw handle call render gen =>
      Report.draw byBody handle call render (exec false (gen handle))

/-- No draw is in progress on any handle. -/
def Family.Idle (family : Family S) : Prop := ∀ handle < family.created, family.depth handle = 0

/-- Every handle is where it was, and the new lines belong to the new draws that
were outermost on their handles. -/
structure DrawEffect (byBody : Bool) (a b : Family S) : Prop where
  created_le : a.created ≤ b.created
  depth_eq : ∀ handle < a.created, b.depth handle = a.depth handle
  depth_new : ∀ handle, a.created ≤ handle → handle < b.created → b.depth handle = 0
  shouldLog_eq : b.shouldLog = a.shouldLog
  draws_le : a.draws ≤ b.draws
  returned : ∃ new, b.returned = a.returned ++ new ∧
    b.lines.map DrawLine.draw = a.lines.map DrawLine.draw ++
      (if a.shouldLog then (new.filter (!·.inProgress)).map ReturnedDraw.draw else []) ∧
    (new.map ReturnedDraw.draw).Nodup ∧
    (∀ x ∈ new, a.draws ≤ x.draw ∧ x.draw < b.draws) ∧
    ∀ x ∈ new, x.byBody = true → byBody = true ∧ (a.Idle → x.inProgress = false)

namespace DrawEffect

variable {byBody : Bool} {a b : Family S}

theorem idle (h : DrawEffect byBody a b) (hIdle : a.Idle) : b.Idle := by
  intro handle hHandle
  by_cases hOld : handle < a.created
  · rw [h.depth_eq handle hOld, hIdle handle hOld]
  · exact h.depth_new handle (Nat.le_of_not_lt hOld) hHandle

theorem refl (a : Family S) : DrawEffect byBody a a where
  created_le := Nat.le_refl _
  depth_eq _ _ := rfl
  depth_new handle hLe hLt := absurd hLt (Nat.not_lt_of_le hLe)
  shouldLog_eq := rfl
  draws_le := Nat.le_refl _
  returned := ⟨[], by simp⟩

theorem trans ⦃a b c : Family S⦄ (hab : DrawEffect byBody a b) (hbc : DrawEffect byBody b c) :
    DrawEffect byBody a c where
  created_le := Nat.le_trans hab.created_le hbc.created_le
  depth_eq handle hHandle := by
    rw [hbc.depth_eq handle (Nat.lt_of_lt_of_le hHandle hab.created_le),
      hab.depth_eq handle hHandle]
  depth_new handle hLe hLt := by
    by_cases hOld : handle < b.created
    · rw [hbc.depth_eq handle hOld, hab.depth_new handle hLe hOld]
    · exact hbc.depth_new handle (Nat.le_of_not_lt hOld) hLt
  shouldLog_eq := hbc.shouldLog_eq.trans hab.shouldLog_eq
  draws_le := Nat.le_trans hab.draws_le hbc.draws_le
  returned := by
    obtain ⟨first, hFirst, hLines, hNodup, hRange, hBody⟩ := hab.returned
    obtain ⟨second, hSecond, hLines', hNodup', hRange', hBody'⟩ := hbc.returned
    have hMiddle := hab.draws_le
    have hLast := hbc.draws_le
    refine ⟨first ++ second, by rw [hSecond, hFirst, List.append_assoc], ?_, ?_, ?_, ?_⟩
    · rw [hLines', hLines, hab.shouldLog_eq]
      split
      · rw [List.filter_append, List.map_append, List.append_assoc]
      · exact List.append_nil _
    · rw [List.map_append]
      refine List.Nodup.append hNodup hNodup' ?_
      intro id hId hId'
      obtain ⟨x, hx, rfl⟩ := List.mem_map.mp hId
      obtain ⟨x', hx', hSame⟩ := List.mem_map.mp hId'
      have hBefore := hRange x hx
      have hAfter := hRange' x' hx'
      omega
    · intro x hx
      rcases List.mem_append.mp hx with hx | hx
      · have hBefore := hRange x hx
        omega
      · have hAfter := hRange' x hx
        omega
    · intro x hx hOwn
      rcases List.mem_append.mp hx with hx | hx
      · exact hBody x hx hOwn
      · exact ⟨(hBody' x hx hOwn).1, fun hIdle => (hBody' x hx hOwn).2 (hab.idle hIdle)⟩

/-- Memory is free to change. -/
theorem write (a : Family S) (memory : S) : DrawEffect byBody a { a with memory } where
  created_le := Nat.le_refl _
  depth_eq _ _ := rfl
  depth_new handle hLe hLt := absurd hLt (Nat.not_lt_of_le hLe)
  shouldLog_eq := rfl
  draws_le := Nat.le_refl _
  returned := ⟨[], by simp⟩

theorem clone (a : Family S) : DrawEffect byBody a a.clone where
  created_le := Nat.le_succ _
  depth_eq handle hHandle := by
    have hOther : handle ≠ a.created := Nat.ne_of_lt hHandle
    simp [Family.clone, Family.set, Family.depth, hOther]
  depth_new handle hLe hLt := by
    have hNew : handle = a.created := Nat.le_antisymm (Nat.le_of_lt_succ hLt) hLe
    simp [Family.clone, Family.set, Family.depth, hNew]
  shouldLog_eq := rfl
  draws_le := Nat.le_refl _
  returned := ⟨[], by simp [Family.clone, Family.set]⟩

section Scope

variable {handle : Nat} {call : DrawCall} {world : Family S}

theorem depth_set (family : Family S) (handle other : Nat) (data : DrawData) :
    (family.set handle data).depth other =
      if other = handle then data.drawDepth else family.depth other := by
  simp only [Family.depth, Family.set, Function.update_apply]
  split
  · rfl
  · rfl

theorem depth_openScope (family : Family S) (handle other : Nat) (call : DrawCall) :
    (family.openScope handle call).depth other =
      if other = handle then family.depth handle + 1 else family.depth other :=
  depth_set family handle other _

theorem depth_closeScope (family : Family S) (handle other : Nat) :
    (family.closeScope handle).depth other =
      if other = handle then family.depth handle - 1 else family.depth other :=
  depth_set family handle other _

/-- What the scope counts up it counts down again. -/
theorem depth_closed (hHandle : handle < a.created)
    (h : DrawEffect false (a.openScope handle call) world) {other : Nat}
    (hOther : other < a.created) : (world.closeScope handle).depth other = a.depth other := by
  rw [depth_closeScope, h.depth_eq other hOther, h.depth_eq handle hHandle, depth_openScope,
    depth_openScope]
  by_cases hSame : other = handle
  · subst hSame
    simp
  · simp [hSame]

theorem depth_closed_new (hHandle : handle < a.created)
    (h : DrawEffect false (a.openScope handle call) world) {other : Nat}
    (hLe : a.created ≤ other) (hLt : other < world.created) :
    (world.closeScope handle).depth other = 0 := by
  have hNe : other ≠ handle := by omega
  rw [depth_closeScope, if_neg hNe]
  exact h.depth_new other hLe hLt

/-- A draw that is left by an exception. -/
theorem close (hHandle : handle < a.created)
    (h : DrawEffect false (a.openScope handle call) world) :
    DrawEffect byBody a (world.closeScope handle) where
  created_le := h.created_le
  depth_eq other hOther := depth_closed hHandle h hOther
  depth_new other hLe hLt := depth_closed_new hHandle h hLe hLt
  shouldLog_eq := h.shouldLog_eq
  draws_le := Nat.le_of_succ_le h.draws_le
  returned := by
    obtain ⟨new, hNew, hLines, hNodup, hRange, hBody⟩ := h.returned
    refine ⟨new, hNew, hLines, hNodup, ?_, ?_⟩
    · intro x hx
      exact ⟨Nat.le_of_succ_le (hRange x hx).1, (hRange x hx).2⟩
    · intro x hx hOwn
      cases (hBody x hx hOwn).1

/-- A draw that returned: its line is there exactly if it was outermost on its
handle. -/
theorem finish (hHandle : handle < a.created)
    (h : DrawEffect false (a.openScope handle call) world) {lines : List DrawLine}
    (hLines : lines.map DrawLine.draw = world.lines.map DrawLine.draw ++
      if a.shouldLog && decide (a.depth handle = 0) then [a.draws] else []) :
    DrawEffect byBody a { ({ world with lines } : Family S).closeScope handle with
      returned := world.returned ++ [⟨a.draws, byBody, !decide (a.depth handle = 0)⟩] } where
  created_le := h.created_le
  depth_eq other hOther := depth_closed hHandle h hOther
  depth_new other hLe hLt := depth_closed_new hHandle h hLe hLt
  shouldLog_eq := h.shouldLog_eq
  draws_le := Nat.le_of_succ_le h.draws_le
  returned := by
    obtain ⟨new, hNew, hOld, hNodup, hRange, hBody⟩ := h.returned
    refine ⟨new ++ [⟨a.draws, byBody, !decide (a.depth handle = 0)⟩], ?_, ?_, ?_, ?_, ?_⟩
    · show world.returned ++ _ = _
      rw [hNew, List.append_assoc]
      rfl
    · show lines.map DrawLine.draw = _
      rw [hLines, hOld]
      show a.lines.map DrawLine.draw ++ (if a.shouldLog then _ else []) ++ _ = _
      cases a.shouldLog with
      | false => simp
      | true =>
          by_cases hOutermost : a.depth handle = 0
          · simp [hOutermost]
          · simp [hOutermost]
    · rw [List.map_append]
      refine List.Nodup.append hNodup (List.nodup_singleton _) ?_
      intro id hId hOwn
      obtain ⟨x, hx, rfl⟩ := List.mem_map.mp hId
      have hAfter : a.draws + 1 ≤ x.draw := (hRange x hx).1
      have hSame : x.draw = a.draws := List.mem_singleton.mp hOwn
      omega
    · intro x hx
      have hLast : a.draws + 1 ≤ world.draws := h.draws_le
      show _ ∧ x.draw < world.draws
      rcases List.mem_append.mp hx with hx | hx
      · have hAfter : a.draws + 1 ≤ x.draw ∧ x.draw < world.draws := hRange x hx
        omega
      · rw [List.mem_singleton.mp hx]
        exact ⟨Nat.le_refl _, hLast⟩
    · intro x hx hOwn
      rcases List.mem_append.mp hx with hx | hx
      · cases (hBody x hx hOwn).1
      · rw [List.mem_singleton.mp hx] at hOwn ⊢
        exact ⟨hOwn, fun hIdle => by simp [hIdle handle hHandle]⟩

end Scope

end DrawEffect

/-- A draw logs a line, or throws and leaves the family alone. -/
theorem ensures_logDraw {draw : Nat} {display : Option String} {rendered : Except Exn String}
    {family : Family S} :
    (logDraw draw display rendered).Ensures family (andThen
      (fun _ world => ∃ lines, world = { family with lines } ∧
        lines.map DrawLine.draw = family.lines.map DrawLine.draw ++
          if family.shouldLog && display.isSome then [draw] else [])
      (fun _ world => world = family)) := by
  apply ensures_bind
  apply ensures_get
  cases display with
  | none => exact ensures_pure _ ⟨family.lines, rfl, by simp⟩
  | some display =>
      rw [andThen_ok]
      apply ensures_ite
      · intro hLog
        cases rendered with
        | error e => exact ensures_throw e rfl
        | ok text => exact ensures_modify _ ⟨_, rfl, by simp [hLog]⟩
      · intro hLog
        exact ensures_pure _ ⟨family.lines, rfl, by simp [hLog]⟩

theorem ensures_drawAndLog {draw : Nat} {display : Option String}
    {render : α → Except Exn String} {doDraw : Program Exn (Family S) α} {a : Family S}
    (hDraw : Preserves (DrawEffect false) doDraw) :
    (drawAndLog draw display render doDraw).Ensures a (andThen
      (fun _ world' => ∃ world lines, DrawEffect false a world ∧ world' = { world with lines } ∧
        lines.map DrawLine.draw = world.lines.map DrawLine.draw ++
          if a.shouldLog && display.isSome then [draw] else [])
      (fun _ world' => DrawEffect false a world')) := by
  apply ensures_bind
  refine (hDraw a).mono ?_
  rintro (e | value) world hWorld
  · exact hWorld
  · apply ensures_bind
    refine ensures_logDraw.mono ?_
    rintro (e | _) world' hLogged
    · rw [andThen_error] at hLogged ⊢
      rw [hLogged]
      exact hWorld
    · obtain ⟨lines, hLines, hLogged⟩ := hLogged
      rw [hWorld.shouldLog_eq] at hLogged
      exact ensures_pure _ ⟨world, lines, hWorld, hLines, hLogged⟩

theorem preserves_draw {byBody : Bool} (handle : Nat) (call : DrawCall)
    (render : α → Except Exn String) {doDraw : Program Exn (Family S) α}
    (hDraw : Preserves (DrawEffect false) doDraw) :
    Preserves (DrawEffect byBody) (draw byBody handle call render doDraw) := by
  intro a
  apply ensures_bind
  apply ensures_get
  rw [andThen_ok]
  refine ensures_ite ?_ fun _ => ensures_diverge
  intro hHandle
  apply ensures_bind
  apply ensures_modify
  rw [andThen_ok]
  apply ensures_bind
  apply ensures_tryCatch
  refine (ensures_drawAndLog hDraw).mono ?_
  rintro (e | value) world' hEnd
  · apply ensures_bind
    apply ensures_modify
    exact ensures_throw e (hEnd.close hHandle)
  · obtain ⟨world, lines, hWorld, rfl, hLines⟩ := hEnd
    apply ensures_bind
    apply ensures_modify
    apply ensures_bind
    apply ensures_modify
    apply ensures_pure
    apply hWorld.finish hHandle
    rw [hLines]
    have hDisplay (display : String) :
        (if decide (a.depth handle = 0) = true then some display else none).isSome =
          decide (a.depth handle = 0) := by
      cases decide (a.depth handle = 0) with
      | false => rfl
      | true => rfl
    rw [hDisplay]
    rfl

/-- However a body or a generator ends, the handles are where they were, and the
lines are those of the draws that were outermost on their handles. -/
theorem preserves_exec (byBody : Bool) (body : Body S α) :
    Preserves (DrawEffect byBody) (body.exec byBody) := by
  induction body generalizing byBody with
  | ret a => exact preserves_pure DrawEffect.refl a
  | bind p k ihp ihk =>
      exact preserves_bind DrawEffect.trans (ihp byBody) fun a => ihk a byBody
  | throw e => exact preserves_throw DrawEffect.refl e
  | tryCatch p handler ihp ihHandler =>
      exact preserves_tryCatch DrawEffect.trans (ihp byBody) fun e =>
        ihHandler e byBody
  | loop body k ih =>
      exact preserves_loop DrawEffect.refl DrawEffect.trans (fun k => ih k byBody) k
  | read =>
      exact preserves_bind DrawEffect.trans (preserves_get DrawEffect.refl) fun _ =>
        preserves_pure DrawEffect.refl _
  | write memory => exact fun a => ensures_modify _ (DrawEffect.write a memory)
  | clone =>
      refine preserves_bind DrawEffect.trans (preserves_get DrawEffect.refl) fun _ =>
        preserves_bind DrawEffect.trans ?_ fun _ =>
          preserves_pure DrawEffect.refl _
      exact fun a => ensures_modify _ (DrawEffect.clone a)
  | draw handle call render gen ih => exact preserves_draw handle call render (ih handle false)

/-- A test case at its start. -/
def Family.start (memory : S) : Family S := { memory }

/-- The lines are those of the body's own draws, once each and in the order they
returned. -/
def Family.LogsBodyDraws (family : Family S) : Prop :=
  family.lines.map DrawLine.draw =
    (family.returned.filter (·.byBody)).map ReturnedDraw.draw

/-- A stronger test keeps as many entries only if it keeps the same ones. -/
theorem map_filter_eq_iff {f : α → β} {l : List α} {p q : α → Bool}
    (hImp : ∀ x ∈ l, q x = true → p x = true) :
    (l.filter p).map f = (l.filter q).map f ↔ ∀ x ∈ l, p x = true → q x = true := by
  have hTwice : (l.filter p).filter q = l.filter q := by
    rw [List.filter_filter]
    apply List.filter_congr
    intro x hx
    cases hKept : q x with
    | false => rfl
    | true => simp [hImp x hx hKept]
  have hSublist : (l.filter q).Sublist (l.filter p) := by
    rw [← hTwice]
    exact List.filter_sublist
  constructor
  · intro hSame x hx hKept
    have hLength : (l.filter q).length = (l.filter p).length := by
      simpa using (congrArg List.length hSame).symm
    have hFilter : x ∈ l.filter q := by
      rw [hSublist.eq_of_length hLength]
      exact List.mem_filter.mpr ⟨hx, hKept⟩
    exact (List.mem_filter.mp hFilter).2
  · intro hBack
    have hFilter : l.filter p = l.filter q :=
      List.filter_congr fun x hx => Bool.eq_iff_iff.mpr ⟨hBack x hx, hImp x hx⟩
    rw [hFilter]

/-- A body prints one line for each of its own draws exactly if every other draw
that returned found a draw in progress on its handle. The depth of the handle
is restored in any case. -/
theorem body_draws_logged_iff (body : Body S α) (memory : S) :
    (body.exec true).Ensures (Family.start memory) fun _ world =>
      world.Idle ∧ (world.returned.map ReturnedDraw.draw).Nodup ∧
      (world.LogsBodyDraws ↔ ∀ x ∈ world.returned, x.byBody = false → x.inProgress = true) := by
  refine (preserves_exec true body (Family.start memory)).mono ?_
  intro result world hEffect
  have hIdle : (Family.start memory).Idle := fun _ _ => rfl
  obtain ⟨new, hNew, hLines, hNodup, -, hBody⟩ := hEffect.returned
  have hReturned : world.returned = new := hNew
  have hOutermost : world.lines.map DrawLine.draw =
      (new.filter (!·.inProgress)).map ReturnedDraw.draw := hLines
  refine ⟨hEffect.idle hIdle, by rwa [hReturned], ?_⟩
  have hOwn : ∀ x ∈ new, x.byBody = true → (!x.inProgress) = true := by
    intro x hx hByBody
    rw [((hBody x hx hByBody).2 hIdle)]
    rfl
  rw [Family.LogsBodyDraws, hReturned, hOutermost, map_filter_eq_iff hOwn]
  constructor
  · intro hAll x hx hInner
    by_contra hOutermost
    rw [hAll x hx (by simpa using hOutermost)] at hInner
    cases hInner
  · intro hAll x hx hOutermost
    by_contra hInner
    rw [hAll x hx (by simpa using hInner)] at hOutermost
    cases hOutermost

/-- A generator that draws on a clone it makes of the test case. -/
def drawsOnClone : Body Unit Nat :=
  .draw 0 ⟨"x", false⟩ (fun value => .ok (toString value)) fun _ =>
    .bind .clone fun clone =>
      .draw clone ⟨"", false⟩ (fun value => .ok (toString value)) fun _ => .ret 7

theorem not_every_body_logs_its_draws :
    ¬ ∀ body : Body Unit Nat, (body.exec true).Ensures (Family.start ()) fun _ world =>
      world.LogsBodyDraws := by
  intro hAll
  have hRun := hAll drawsOnClone 0 _ _ rfl
  cases hRun

end Hegel.Report
