import HegelCpp.Logic.Transition

/-! A barrier that a coordinator opens for one round after another. Every
participant enters and leaves each round once; the coordinator ends the round
when all have left it. The participants are any type. -/
namespace Logic.RoundBarrier

variable {ι : Type*}

/-- How many rounds were started, and how many of them each participant has
entered and left. -/
structure State (ι : Type*) where
  round : Nat
  running : Bool
  closed : Bool
  entered : ι → Nat
  left : ι → Nat

def initial : State ι where
  round := 0
  running := false
  closed := false
  entered := fun _ => 0
  left := fun _ => 0

/-- Everybody is at most one round behind, and nobody is behind while the
barrier is idle. -/
structure Invariant (b : State ι) : Prop where
  left_le : ∀ i, b.left i ≤ b.entered i
  entered_le : ∀ i, b.entered i ≤ b.round
  round_le : ∀ i, b.round ≤ b.left i + 1
  idle : b.running = false → ∀ i, b.left i = b.round
  closed : b.closed = true → b.running = false

theorem invariant_initial : Invariant (initial : State ι) where
  left_le := fun _ => Nat.le_refl _
  entered_le := fun _ => Nat.le_refl _
  round_le := fun _ => Nat.zero_le _
  idle := fun _ _ => rfl
  closed := fun _ => rfl

/-- A participant that has not left the round it entered is in the round that
is running. -/
theorem Invariant.inside {b : State ι} (h : Invariant b) {i : ι} (hInside : b.left i ≠ b.entered i) :
    b.running = true ∧ b.entered i = b.round ∧ b.left i + 1 = b.round := by
  have hLeft := h.left_le i
  have hEntered := h.entered_le i
  have hRound := h.round_le i
  refine ⟨?_, by omega, by omega⟩
  cases hRunning : b.running with
  | true => rfl
  | false =>
      have := h.idle hRunning i
      omega

/-- Nobody is inside an idle barrier, and everybody has been in every round. -/
theorem Invariant.outside {b : State ι} (h : Invariant b) (hIdle : b.running = false) (i : ι) :
    b.entered i = b.round ∧ b.left i = b.round := by
  have hAll := h.idle hIdle i
  have := h.left_le i
  have := h.entered_le i
  omega

variable [DecidableEq ι]

inductive Step (b : State ι) : State ι → Prop where
  | start (hIdle : b.running = false) (hOpen : b.closed = false) :
      Step b { b with round := b.round + 1, running := true }
  | enter (i : ι) (hRunning : b.running = true) (hFirst : b.entered i ≠ b.round) :
      Step b { b with entered := Function.update b.entered i (b.entered i + 1) }
  | leave (i : ι) (hInside : b.left i ≠ b.entered i) :
      Step b { b with left := Function.update b.left i (b.left i + 1) }
  | finish (hAll : ∀ i, b.left i = b.round) : Step b { b with running := false }
  | close (hIdle : b.running = false) : Step b { b with closed := true }

def barrier (ι : Type*) [DecidableEq ι] : System (State ι) where
  init := fun b => b = initial
  step := Step

theorem invariant_step {b b' : State ι} (h : Invariant b) (hStep : Step b b') : Invariant b' := by
  cases hStep with
  | start hIdle hOpen =>
      have hAll := h.idle hIdle
      refine ⟨h.left_le, fun i => Nat.le_succ_of_le (h.entered_le i), fun i => ?_, ?_, ?_⟩
      · exact Nat.succ_le_succ (Nat.le_of_eq (hAll i).symm)
      · exact fun hRunning => by cases hRunning
      · exact fun hClosed => by simp [hOpen] at hClosed
  | enter i hRunning hFirst =>
      refine ⟨fun j => ?_, fun j => ?_, h.round_le, h.idle, h.closed⟩
      · by_cases hj : j = i
        · subst hj
          have := h.left_le j
          simp only [Function.update_self]
          omega
        · simpa only [Function.update_of_ne hj] using h.left_le j
      · by_cases hj : j = i
        · subst hj
          have := h.entered_le j
          simp only [Function.update_self]
          omega
        · simpa only [Function.update_of_ne hj] using h.entered_le j
  | leave i hInside =>
      have hLe := h.left_le i
      refine ⟨fun j => ?_, h.entered_le, fun j => ?_, fun hIdle j => ?_, h.closed⟩
      · by_cases hj : j = i
        · subst hj
          simp only [Function.update_self]
          omega
        · simpa only [Function.update_of_ne hj] using h.left_le j
      · by_cases hj : j = i
        · subst hj
          have := h.round_le j
          simp only [Function.update_self]
          omega
        · simpa only [Function.update_of_ne hj] using h.round_le j
      · have := h.idle hIdle i
        have := h.entered_le i
        omega
  | finish hAll => exact ⟨h.left_le, h.entered_le, h.round_le, fun _ => hAll, fun _ => rfl⟩
  | close hIdle => exact ⟨h.left_le, h.entered_le, h.round_le, h.idle, fun _ => hIdle⟩

/-- A closed barrier stays closed, and nobody enters it. -/
theorem closed_step {b b' : State ι} (h : Invariant b) (hClosed : b.closed = true)
    (hStep : Step b b') : b'.closed = true ∧ b'.entered = b.entered := by
  have hIdle := h.closed hClosed
  cases hStep with
  | start _ hOpen => simp [hClosed] at hOpen
  | enter i hRunning _ => simp [hIdle] at hRunning
  | leave i _ => exact ⟨hClosed, rfl⟩
  | finish _ => exact ⟨hClosed, rfl⟩
  | close _ => exact ⟨rfl, rfl⟩

theorem reachable_invariant {b : State ι} (h : (barrier ι).Reachable b) : Invariant b :=
  h.invariant (fun _ hInit => hInit ▸ invariant_initial) fun _ _ _ hInv => invariant_step hInv

end Logic.RoundBarrier
