import HegelCpp.Logic.Projection
import HegelCpp.Report.DrawLog

/-! A run that prints its draws and a run that does not are the same run: a
failure is found by a case that logs nothing, and reported by one that does. -/
namespace Hegel.Report

open Logic Program

variable {S α : Type}

/-- The family without what it has printed. -/
def Family.unlogged (family : Family S) : Family S :=
  { family with shouldLog := false, lines := [] }

/-- No drawn value fails to be rendered. -/
def Body.Renders : {α : Type} → Body S α → Prop
  | _, ret _ => True
  | _, bind p k => p.Renders ∧ ∀ a, (k a).Renders
  | _, throw _ => True
  | _, tryCatch p handler => p.Renders ∧ ∀ e, (handler e).Renders
  | _, loop body _ => ∀ k, (body k).Renders
  | _, read => True
  | _, write _ => True
  | _, clone => True
  | _, draw _ _ render gen =>
      (∀ a, ∃ text, render a = .ok text) ∧ ∀ handle, (gen handle).Renders

section Draws

variable {p : Program Exn (Family S) α}

theorem projects_logDraw (draw : Nat) (display : Option String) (text : String) :
    Projects Family.unlogged (logDraw draw display (.ok text) : Program Exn (Family S) Unit)
      (logDraw draw display (.ok text)) := by
  refine Projects.get_bind fun family => ?_
  cases display with
  | none => exact Projects.pure ()
  | some display =>
      cases hLogs : family.shouldLog with
      | false =>
          simp only [Family.unlogged]
          exact Projects.pure ()
      | true =>
          simp only [Family.unlogged, if_true]
          exact Projects.silent fun _ => rfl

theorem projects_drawAndLog {render : α → Except Exn String}
    (hRender : ∀ a, ∃ text, render a = .ok text) (hDraw : Projects Family.unlogged p p)
    (draw : Nat) (display : Option String) :
    Projects Family.unlogged (drawAndLog draw display render p)
      (drawAndLog draw display render p) := by
  refine hDraw.bind fun value => ?_
  obtain ⟨text, hText⟩ := hRender value
  rw [hText]
  exact (projects_logDraw draw display text).bind fun _ => Projects.pure value

/-- The name of a draw and its scope are the same with the log and without it. -/
theorem projects_draw {render : α → Except Exn String}
    (hRender : ∀ a, ∃ text, render a = .ok text) (hDraw : Projects Family.unlogged p p)
    (byBody : Bool) (handle : Nat) (call : DrawCall) :
    Projects Family.unlogged (draw byBody handle call render p)
      (draw byBody handle call render p) := by
  refine Projects.get_bind fun family => ?_
  refine Projects.ite ?_ Projects.diverge
  refine Projects.bind (Projects.modify fun _ => rfl) fun _ => ?_
  refine Projects.bind ?_ fun value => ?_
  · refine (projects_drawAndLog hRender hDraw _ _).tryCatch fun e => ?_
    exact Projects.bind (Projects.modify fun _ => rfl) fun _ => Projects.throw e
  · refine Projects.bind (Projects.modify fun _ => rfl) fun _ => ?_
    exact Projects.bind (Projects.modify fun _ => rfl) fun _ => Projects.pure value

end Draws

theorem projects_exec {body : Body S α} (hRenders : body.Renders) (byBody : Bool) :
    Projects Family.unlogged (body.exec byBody) (body.exec byBody) := by
  induction body generalizing byBody with
  | ret a => exact Projects.pure a
  | bind p k ihp ihk =>
      exact (ihp hRenders.1 byBody).bind fun a => ihk a (hRenders.2 a) byBody
  | throw e => exact Projects.throw e
  | tryCatch p handler ihp ihHandler =>
      exact (ihp hRenders.1 byBody).tryCatch fun e => ihHandler e (hRenders.2 e) byBody
  | loop body k ih => exact Projects.loop (fun k => ih k (hRenders k) byBody) k
  | read => exact Projects.get_bind fun family => Projects.pure family.memory
  | write memory => exact Projects.modify fun _ => rfl
  | clone =>
      refine Projects.get_bind fun family => ?_
      exact Projects.bind (Projects.modify fun _ => rfl) fun _ => Projects.pure family.created
  | draw handle call render gen ih =>
      exact projects_draw hRenders.1 (ih handle (hRenders.2 handle) false) byBody handle call

/-- The run that prints the draws ends as the one that does not, with the same
memory, handles and draws. -/
theorem logging_changes_nothing {body : Body S α} (hRenders : body.Renders) (memory : S)
    (fuel : Nat) :
    (body.exec true fuel { memory }).map (fun ending => (ending.1, ending.2.unlogged)) =
      body.exec true fuel { memory, shouldLog := false } :=
  projects_exec hRenders true fuel { memory }

/-- A draw on a clone prints a line of its own, and changes nothing either. -/
theorem logging_changes_nothing_drawsOnClone :
    (drawsOnClone.exec true 0 { memory := () }).map
        (fun ending => (ending.1, ending.2.unlogged)) =
      drawsOnClone.exec true 0 { memory := (), shouldLog := false } :=
  logging_changes_nothing (show drawsOnClone.Renders from
    ⟨fun _ => ⟨_, rfl⟩, fun _ => ⟨trivial, fun _ => ⟨fun _ => ⟨_, rfl⟩, fun _ => trivial⟩⟩⟩) () 0

end Hegel.Report
