import HegelCpp.Stateful.Runner
import Mathlib.Data.List.Basic

/-! The state-machine protocol of the engine, as a language of calls. A round
names a group, takes rules until none is left, and asks once for every
invariant whether to check it. -/
namespace Hegel

variable {S : Type}

/-- The calls of one machine, in order. -/
def callsOf (machine : Nat) (history : List (Event S)) : List Call :=
  history.filterMap fun
    | .call m call => if m = machine then some call else none
    | _ => none

@[simp] theorem callsOf_append (machine : Nat) (first second : List (Event S)) :
    callsOf machine (first ++ second) = callsOf machine first ++ callsOf machine second :=
  List.filterMap_append

/-- How a step ends, once its `try` block ended with `exn`. -/
def endCalls (exn : Option Exn) : List Call :=
  if exn.any Exn.isReject then [.ruleRejected, .stopSpan true] else [.stopSpan false]

/-- What a step does once the engine has named its rule. -/
def stepTail (index : Nat) (exn : Option Exn) : List Call :=
  [.startSpan, .rule index, .ended exn] ++ endCalls exn

def stepCalls (index : Nat) (exn : Option Exn) : List Call :=
  .nextRule (some index) :: stepTail index exn

/-- A round of a machine with `ruleCount` rules: its group, and the rule of
every step with the exception that ended its `try` block, if any. -/
structure Round (ruleCount : Nat) where
  group : Int
  group_ne : group ≠ stateMachineDone
  steps : List (Fin ruleCount × Option Exn)

variable {ruleCount : Nat}

def stepsCalls (steps : List (Fin ruleCount × Option Exn)) : List Call :=
  steps.flatMap fun step => stepCalls step.1 step.2

theorem stepsCalls_concat (steps : List (Fin ruleCount × Option Exn)) (index : Fin ruleCount)
    (exn : Option Exn) :
    stepsCalls (steps ++ [(index, exn)]) = stepsCalls steps ++ stepCalls index exn := by
  rw [stepsCalls, List.flatMap_append, List.flatMap_singleton]
  rfl

/-- The questions of a join point, from the invariant `index` on. -/
def joinCalls (index count : Nat) : List Call :=
  (List.range' index count).map .shouldCheckInvariant

theorem joinCalls_extends (index : Nat) {count total : Nat} (h : count ≤ total) :
    joinCalls index count <+: joinCalls index total := by
  obtain ⟨more, rfl⟩ := Nat.exists_eq_add_of_le h
  unfold joinCalls
  rw [← List.range'_append_1, List.map_append]
  exact List.prefix_append _ _

def Round.calls (invariantCount : Nat) (round : Round ruleCount) : List Call :=
  .nextGroup (some round.group) :: stepsCalls round.steps ++
    .nextRule (some stateMachineDone) :: joinCalls 0 invariantCount

def roundsCalls (invariantCount : Nat) (rounds : List (Round ruleCount)) : List Call :=
  rounds.flatMap (Round.calls invariantCount)

theorem roundsCalls_concat (invariantCount : Nat) (rounds : List (Round ruleCount))
    (round : Round ruleCount) : roundsCalls invariantCount (rounds ++ [round]) =
      roundsCalls invariantCount rounds ++ round.calls invariantCount := by
  rw [roundsCalls, List.flatMap_append, List.flatMap_singleton]
  rfl

/-- The calls of a run that comes to its regular end. -/
def protocolCalls (invariantCount : Nat) (rounds : List (Round ruleCount)) : List Call :=
  .newStateMachine :: roundsCalls invariantCount rounds ++ [.nextGroup (some stateMachineDone)]

/-- A call that raised, or whose answer names no rule, in the place of a
regular one. The runner makes no further call. -/
inductive Call.Refused (ruleCount : Nat) : Call → Call → Prop where
  | group (group : Int) : Refused ruleCount (.nextGroup none) (.nextGroup (some group))
  | rule (answer : Option Int) (index : Fin ruleCount)
      (h : ∀ i : Nat, answer = some (i : Int) → ruleCount ≤ i)
      (hDone : answer ≠ some stateMachineDone) :
      Refused ruleCount (.nextRule answer) (.nextRule (some (index : Nat)))
  | done : Refused ruleCount (.nextRule none) (.nextRule (some stateMachineDone))

/-- The calls are a prefix of the word, or a prefix and then a refused call. -/
inductive Speaks (ruleCount : Nat) (calls word : List Call) : Prop where
  | regular (h : calls <+: word)
  | refused (front rest : List Call) (last regular : Call) (h : calls = front ++ [last])
      (hWord : word = front ++ regular :: rest) (hLast : last.Refused ruleCount regular)

namespace Speaks

variable {calls word : List Call}

theorem after (h : Speaks ruleCount calls word) (front : List Call) :
    Speaks ruleCount (front ++ calls) (front ++ word) := by
  cases h with
  | regular h => exact .regular (List.prefix_append_right_inj front |>.mpr h)
  | refused front' rest last regular hCalls hWord hLast =>
      exact .refused (front ++ front') rest last regular (by rw [hCalls, List.append_assoc])
        (by rw [hWord, List.append_assoc]) hLast

theorem extend (h : Speaks ruleCount calls word) (more : List Call) :
    Speaks ruleCount calls (word ++ more) := by
  cases h with
  | regular h => exact .regular (h.trans (List.prefix_append word more))
  | refused front rest last regular hCalls hWord hLast =>
      exact .refused front (rest ++ more) last regular hCalls (by simp [hWord]) hLast

end Speaks

def Call.isRule : Call → Bool
  | .rule _ => true
  | _ => false

def Call.isStopSpan : Call → Bool
  | .stopSpan _ => true
  | _ => false

/-- As many spans were stopped as rules were run. -/
def Balanced (calls : List Call) : Prop :=
  calls.countP Call.isRule = calls.countP Call.isStopSpan

namespace Balanced

theorem append {first second : List Call} (h : Balanced first) (h' : Balanced second) :
    Balanced (first ++ second) := by
  unfold Balanced at *
  rw [List.countP_append, List.countP_append, h, h']

theorem step (index : Nat) (exn : Option Exn) : Balanced (stepTail index exn) := by
  unfold stepTail endCalls
  split <;> rfl

theorem cons {call : Call} {calls : List Call} (hRule : call.isRule = false)
    (hStop : call.isStopSpan = false) (h : Balanced calls) : Balanced (call :: calls) := by
  unfold Balanced at *
  rw [List.countP_cons_of_neg (by simp [hRule]), List.countP_cons_of_neg (by simp [hStop]), h]

theorem flatMap {α : Type} {f : α → List Call} (h : ∀ a, Balanced (f a)) (l : List α) :
    Balanced (l.flatMap f) := by
  induction l with
  | nil => rfl
  | cons a rest ih =>
      rw [List.flatMap_cons]
      exact (h a).append ih

theorem steps (steps : List (Fin ruleCount × Option Exn)) : Balanced (stepsCalls steps) := by
  have hStep (step : Fin ruleCount × Option Exn) : Balanced (stepCalls step.1 step.2) :=
    cons rfl rfl (Balanced.step step.1 step.2)
  exact flatMap hStep steps

/-- Questions about invariants open and close nothing. -/
theorem join (index count : Nat) : Balanced (joinCalls index count) := by
  induction count generalizing index with
  | zero => rfl
  | succ count ih => exact cons rfl rfl (ih (index + 1))

theorem rounds (invariantCount : Nat) (rounds : List (Round ruleCount)) :
    Balanced (roundsCalls invariantCount rounds) := by
  have hRound (round : Round ruleCount) : Balanced (round.calls invariantCount) :=
    cons rfl rfl ((Balanced.steps round.steps).append (cons rfl rfl (join 0 invariantCount)))
  exact flatMap hRound rounds

theorem protocol (invariantCount : Nat) (rounds : List (Round ruleCount)) :
    Balanced (protocolCalls invariantCount rounds) := by
  have hEnd : Balanced [.nextGroup (some stateMachineDone)] := rfl
  exact ((Balanced.rounds invariantCount rounds).append hEnd).cons rfl rfl

end Balanced
end Hegel
