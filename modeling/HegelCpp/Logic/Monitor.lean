import HegelCpp.Logic.Transition

/-! Threads that work on one shared state in sections guarded by one mutex. A
section may take several steps. What every section keeps when it runs alone
holds whenever the mutex is free, for any threads in any order. -/
namespace Logic

/-- The sections of a monitor: where one may begin, its steps, and its last
step, which gives the mutex back. -/
structure Monitor (σ L : Type*) where
  init : σ → Prop
  enter : L → Prop
  step : σ → L → σ → L → Prop
  leave : σ → L → σ → Prop

namespace Monitor

variable {ι σ L : Type*}

/-- A thread whose place is `none` is outside every section. -/
structure State (ι σ L : Type*) where
  shared : σ
  mutex : Option ι
  places : ι → Option L

variable [DecidableEq ι]

/-- Only `acquire` looks at the mutex. -/
inductive Step (monitor : Monitor σ L) (s : State ι σ L) : State ι σ L → Prop where
  | acquire (i : ι) (place : L) (hFree : s.mutex = none) (hOutside : s.places i = none)
      (hEnter : monitor.enter place) :
      Step monitor s
        { s with mutex := some i, places := Function.update s.places i (some place) }
  | inside (i : ι) (place place' : L) (shared : σ) (hPlace : s.places i = some place)
      (hStep : monitor.step s.shared place shared place') :
      Step monitor s { s with shared, places := Function.update s.places i (some place') }
  | release (i : ι) (place : L) (shared : σ) (hPlace : s.places i = some place)
      (hLeave : monitor.leave s.shared place shared) :
      Step monitor s
        { shared, mutex := none, places := Function.update s.places i none }

def system (monitor : Monitor σ L) (ι : Type*) [DecidableEq ι] : System (State ι σ L) where
  init := fun s => monitor.init s.shared ∧ s.mutex = none ∧ ∀ i, s.places i = none
  step := Step monitor

variable {monitor : Monitor σ L}

/-- Only the owner of the mutex is inside a section. -/
theorem places_exclusive {s : State ι σ L} (h : (monitor.system ι).Reachable s) {i : ι} {place : L}
    (hPlace : s.places i = some place) : s.mutex = some i := by
  induction h generalizing i place with
  | init hInit => exact absurd (hInit.2.2 i) (by simp [hPlace])
  | step _ hStep ih =>
      cases hStep with
      | acquire j entered hFree hOutside hEnter =>
          by_cases hSame : i = j
          · rw [hSame]
          · simp only [Function.update_of_ne hSame] at hPlace
            simpa [hFree] using ih hPlace
      | inside j before after shared hBefore hStep =>
          by_cases hSame : i = j
          · subst hSame
            exact ih hBefore
          · simp only [Function.update_of_ne hSame] at hPlace
            exact ih hPlace
      | release j before shared hBefore hLeave =>
          by_cases hSame : i = j
          · simp [hSame] at hPlace
          · simp only [Function.update_of_ne hSame] at hPlace
            have hOwners := (ih hPlace).symm.trans (ih hBefore)
            exact absurd (Option.some.inj hOwners) hSame

theorem owner_inside {s : State ι σ L} (h : (monitor.system ι).Reachable s) {i : ι}
    (hOwner : s.mutex = some i) : ∃ place, s.places i = some place := by
  induction h with
  | init hInit => simp [hInit.2.1] at hOwner
  | step hReachable hStep ih =>
      cases hStep with
      | acquire j entered hFree hOutside hEnter =>
          obtain rfl := Option.some.inj hOwner
          exact ⟨entered, by simp⟩
      | inside j before after shared hBefore hStep =>
          obtain rfl := Option.some.inj (hOwner.symm.trans (places_exclusive hReachable hBefore))
          exact ⟨after, by simp⟩
      | release j before shared hBefore hLeave => cases hOwner

/-- What a section relies on and restores: `inv` between sections, `during` at
each place inside one. -/
structure Keeps (monitor : Monitor σ L) (inv : σ → Prop) (during : L → σ → Prop) : Prop where
  init : ∀ shared, monitor.init shared → inv shared
  enter : ∀ place shared, monitor.enter place → inv shared → during place shared
  step : ∀ shared place shared' place', monitor.step shared place shared' place' →
    during place shared → during place' shared'
  leave : ∀ shared place shared', monitor.leave shared place shared' →
    during place shared → inv shared'

/-- The rule of a monitor: sections are checked one at a time. -/
theorem Keeps.reachable {inv : σ → Prop} {during : L → σ → Prop}
    (hKeeps : Keeps monitor inv during) {s : State ι σ L} (h : (monitor.system ι).Reachable s) :
    (s.mutex = none → inv s.shared) ∧
      ∀ i place, s.places i = some place → during place s.shared := by
  induction h with
  | init hInit =>
      exact ⟨fun _ => hKeeps.init _ hInit.1, fun i _ hPlace => by simp [hInit.2.2 i] at hPlace⟩
  | step hReachable hStep ih =>
      have hAfter := hReachable.step hStep
      -- The step is the owner's, so it decides what holds of the shared state.
      cases hStep with
      | acquire j entered hFree hOutside hEnter =>
          refine ⟨nofun, fun i place hPlace => ?_⟩
          obtain rfl := Option.some.inj (places_exclusive hAfter hPlace)
          obtain rfl : entered = place := by simpa using hPlace
          exact hKeeps.enter _ _ hEnter (ih.1 hFree)
      | inside j before after shared hBefore hStep =>
          have hDuring := hKeeps.step _ _ _ _ hStep (ih.2 j before hBefore)
          have hOwner := places_exclusive hReachable hBefore
          refine ⟨fun hFree => by simp [hOwner] at hFree, fun i place hPlace => ?_⟩
          obtain rfl := Option.some.inj (hOwner.symm.trans (places_exclusive hAfter hPlace))
          obtain rfl : after = place := by simpa using hPlace
          exact hDuring
      | release j before shared hBefore hLeave =>
          have hInv := hKeeps.leave _ _ _ hLeave (ih.2 j before hBefore)
          exact ⟨fun _ => hInv, fun i place hPlace => nomatch places_exclusive hAfter hPlace⟩

/-- What holds both between sections and inside them holds always. -/
theorem Keeps.always {inv p : σ → Prop} {during : L → σ → Prop}
    (hKeeps : Keeps monitor inv during) (hInv : ∀ shared, inv shared → p shared)
    (hDuring : ∀ place shared, during place shared → p shared) {s : State ι σ L}
    (h : (monitor.system ι).Reachable s) : p s.shared := by
  cases hMutex : s.mutex with
  | none => exact hInv _ ((hKeeps.reachable h).1 hMutex)
  | some i =>
      obtain ⟨place, hPlace⟩ := owner_inside h hMutex
      exact hDuring place _ ((hKeeps.reachable h).2 i place hPlace)

/-- While a thread is inside a section every step is its own. -/
theorem Step.inside_own {s s' : State ι σ L} (h : (monitor.system ι).Reachable s)
    (hStep : Step monitor s s') {i : ι} {place : L} (hPlace : s.places i = some place) :
    (∃ place', monitor.step s.shared place s'.shared place') ∨
      monitor.leave s.shared place s'.shared := by
  have hOwner := places_exclusive h hPlace
  cases hStep with
  | acquire j entered hFree hOutside hEnter => simp [hOwner] at hFree
  | inside j before after shared hBefore hStep =>
      obtain rfl := Option.some.inj (hOwner.symm.trans (places_exclusive h hBefore))
      obtain rfl := Option.some.inj (hPlace.symm.trans hBefore)
      exact .inl ⟨after, hStep⟩
  | release j before shared hBefore hLeave =>
      obtain rfl := Option.some.inj (hOwner.symm.trans (places_exclusive h hBefore))
      obtain rfl := Option.some.inj (hPlace.symm.trans hBefore)
      exact .inr hLeave

/-- Every thread is outside. -/
def State.idle (ι : Type*) {L : Type*} (shared : σ) : State ι σ L where
  shared := shared
  mutex := none
  places := fun _ => none

/-- A whole section of one step and its end, which no other thread can tell
from a single step. -/
theorem reachable_section {shared shared' shared'' : σ} {place place' : L}
    (h : (monitor.system ι).Reachable (.idle ι shared)) (i : ι) (hEnter : monitor.enter place)
    (hStep : monitor.step shared place shared' place')
    (hLeave : monitor.leave shared' place' shared'') :
    (monitor.system ι).Reachable (.idle ι shared'') := by
  have hEntered := h.step (.acquire i place rfl rfl hEnter)
  have hInside := hEntered.step (.inside i place place' shared' (by simp) hStep)
  have hLeft := hInside.step (.release i place' shared'' (by simp) hLeave)
  simpa [State.idle, Function.update_idem] using hLeft

end Monitor
end Logic
