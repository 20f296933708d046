import HegelCpp.Concurrent.Barrier

/-! What the round barrier gives the rules: the rounds and the concurrency
groups never overlap, and the main thread calls the invariants and the engine
between rounds only. -/
namespace Hegel.Concurrent

open Logic

variable {S : Type} {n : Nat} {params : Params S}

section Groups

/-- `group_names` and `rule_groups` give back each rule's own group. -/
def Names (rules : List RuleDecl) (table : List String × List Nat) : Prop :=
  table.2.map (fun group => table.1[group]?) = rules.map fun rule => some rule.group

theorem names_addRule {rules : List RuleDecl} {table : List String × List Nat}
    (h : Names rules table) (rule : RuleDecl) : Names (rules ++ [rule]) (addRule table rule) := by
  rw [addRule]
  by_cases hKnown : rule.group ∈ table.1
  · rw [if_pos hKnown, Names, List.map_append, List.map_append]
    exact congrArg₂ _ h (by simp [List.getElem?_idxOf hKnown])
  · have hOld : ∀ group ∈ table.2, (table.1 ++ [rule.group])[group]? = table.1[group]? := by
      intro group hGroup
      have hMem : table.1[group]? ∈ table.2.map fun group => table.1[group]? :=
        List.mem_map.mpr ⟨group, hGroup, rfl⟩
      rw [h] at hMem
      obtain ⟨old, _, hSome⟩ := List.mem_map.mp hMem
      exact List.getElem?_append_left (List.getElem?_eq_some_iff.mp hSome.symm).1
    rw [if_neg hKnown, Names, List.map_append, List.map_append, List.map_congr_left hOld]
    exact congrArg₂ _ h (by simp)

theorem names_groupTable (rules : List RuleDecl) : Names rules (groupTable rules) := by
  induction rules using List.reverseRecOn with
  | nil => rfl
  | append_singleton rules rule ih =>
      rw [groupTable, List.foldl_append]
      exact names_addRule ih rule

/-- A rule whose group has the number `group` belongs to the group of that name. -/
theorem groupNames_ruleGroups {index group : Nat} (h : params.ruleGroups[index]? = some group) :
    ∃ rule, params.rules[index]? = some rule ∧ params.groupNames[group]? = some rule.group := by
  have hNames := congrArg (fun names => names[index]?) (names_groupTable params.rules)
  have hId : (groupTable params.rules).2[index]? = some group := h
  simp only [List.getElem?_map, hId, Option.map_some] at hNames
  obtain ⟨rule, hRule, hGroup⟩ := Option.map_eq_some_iff.mp hNames.symm
  exact ⟨rule, hRule, hGroup.symm⟩

end Groups

/-- No worker is in its round while none is running. -/
theorem idle_outside {s : State S n} (h : (runConcurrent params n).Reachable s)
    (hIdle : s.main.running = false) (w : Fin n) : (s.workers w).pc.inRound = false := by
  obtain ⟨hLinked, hBarrier⟩ := reachable_linked h
  have hOutside := hBarrier.outside hIdle w
  by_contra hInRound
  exact (hLinked.workers w).inRound.mp (by simpa using hInRound)
    (hOutside.2.trans hOutside.1.symm)

/-- Every rule that is running belongs to the current group. -/
def Grouped (params : Params S) (s : State S n) : Prop :=
  ∀ w index, (s.workers w).pc = .inRule index → params.ruleGroups[index]? = some s.currentGroup

namespace Grouped

variable {s s' : State S n}

theorem of_outside (h : ∀ w, (s.workers w).pc.inRound = false) : Grouped params s := by
  intro w index hPc
  have hOutside := h w
  simp [hPc, WorkerPc.inRound] at hOutside

theorem workerStep (h : Grouped params s) {w : Fin n} (hStep : WorkerStep params w s s') :
    Grouped params s' := by
  intro v index hPc
  cases hStep.effect with
  | free hSame hMain hEvents hGroup =>
      rw [hSame.workers] at hPc
      rw [hGroup]
      exact h v index hPc
  | move worker hSame hMain hEvents hGroup hMoves =>
      rw [hSame.workers] at hPc
      rw [hGroup]
      rcases setWorker_pc hPc with ⟨_, hRule⟩ | ⟨_, hRule⟩
      · exact hMoves.rule index hRule
      · exact h v index hRule
  | enter hFrom hStop hNew hEq =>
      subst hEq
      exact h v index ((setWorker_pc hPc).resolve_left (by simp)).2
  | store event hFrom hEq =>
      subst hEq
      exact h v index ((setWorker_pc hPc).resolve_left (by simp)).2
  | notify hFrom hEq =>
      subst hEq
      exact h v index ((setWorker_pc hPc).resolve_left (by simp)).2

theorem mainStep (h : Grouped params s) (hReachable : (runConcurrent params n).Reachable s)
    (hStep : MainStep params s s') : Grouped params s' := by
  have hReachable' := hReachable.step (.main hStep)
  have hAfter (hIdle : s'.main.running = false) : Grouped params s' :=
    .of_outside (idle_outside hReachable' hIdle)
  cases hStep.effect with
  | quiet hSame hEvents hMain hFailed hRaised => exact hAfter (hMain.running'.trans rfl)
  | leave e hSame hEvents hIdle hStopping hEnded hBefore hMain hRaised hFailed =>
      exact hAfter (by rw [hMain]; rfl)
  | terminate w e hPc hLater hEq => exact hAfter (by rw [hEq]; rfl)
  | spawn w hPc hEq => exact hAfter (by simp [hEq])
  | startRound group hPc hEq =>
      have hOutside := idle_outside hReachable (show s.main.running = false by rw [hPc]; rfl)
      subst hEq
      exact .of_outside hOutside
  | notifyStart hPc hEq =>
      subst hEq
      exact fun v index hRule => h v index (wakeWorkers_pc hRule (by simp)).1
  | allDone hPc hAll hEq => exact hAfter (by rw [hEq]; rfl)
  | blockDone hPc hSome hEq =>
      subst hEq
      exact h
  | setStop exit hPc hEq => exact hAfter (by rw [hEq]; rfl)
  | notifyStop exit hPc hEq => exact hAfter (by simp [hEq])
  | join exit w hPc hExited hEq => exact hAfter (by simp [hEq])

theorem reachable (h : (runConcurrent params n).Reachable s) : Grouped params s := by
  refine h.invariant (fun s hInit => ?_) fun s s' hReachable hInv hStep => ?_
  · exact .of_outside fun w => by rw [hInit.workers]; rfl
  · cases hStep with
    | main hStep => exact hInv.mainStep hReachable hStep
    | worker w hStep => exact hInv.workerStep hStep
    | spurious hStep =>
        cases hStep with
        | main hPc => exact hInv
        | worker w hPc =>
            exact fun v index hRule => hInv v index ((setWorker_pc hRule).resolve_left (by simp)).2

end Grouped

/-- After `stop` was set no worker enters a round, however many steps follow. -/
theorem stopped_forever {s s' : State S n} (h : (runConcurrent params n).Reachable s)
    (hStop : s.stop = true) (hSteps : Relation.ReflTransGen (Step params) s s') :
    s'.stop = true ∧ ∀ w, (s'.workers w).entered = (s.workers w).entered := by
  induction hSteps with
  | refl => exact ⟨hStop, fun _ => rfl⟩
  | tail hSteps hStep ih =>
      have hReachable := h.steps hSteps
      obtain ⟨hLinked, hBarrier⟩ := reachable_linked hReachable
      rcases (hLinked.step hBarrier hStep).2 with hSame | hMoved
      · exact ⟨(congrArg RoundBarrier.State.closed hSame).trans ih.1, fun w =>
          (congrFun (congrArg RoundBarrier.State.entered hSame) w).trans (ih.2 w)⟩
      · obtain ⟨hClosed, hEntered⟩ := RoundBarrier.closed_step hBarrier ih.1 hMoved
        exact ⟨hClosed, fun w => (congrFun hEntered w).trans (ih.2 w)⟩

/-- The main thread runs an invariant or asks the engine for a decision. -/
def MainPc.evaluating : MainPc → Bool
  | .check _ _ | .sample _ | .nextGroup => true
  | _ => false

/-- What a state of `run_concurrent` shows of the rounds. A worker `entered`
and `left` as many calls of `run_round`, and `rounds` were started. -/
structure RoundDiscipline (params : Params S) (s : State S n) : Prop where
  /-- A worker is in `run_round` only from the start of a round to its own completion of it. -/
  within : ∀ w, (s.workers w).pc.inRound = true →
    s.main.running = true ∧ (s.workers w).entered = s.rounds ∧ (s.workers w).left + 1 = s.rounds
  /-- No worker runs ahead of the rounds, and between two rounds all have run every one once. -/
  once : ∀ w, (s.workers w).left ≤ (s.workers w).entered ∧ (s.workers w).entered ≤ s.rounds ∧
    (s.main.running = false → (s.workers w).entered = s.rounds ∧ (s.workers w).left = s.rounds)
  /-- Rules that run together belong to one round and to one group, the current one. -/
  together : ∀ v w i j, (s.workers v).pc = .inRule i → (s.workers w).pc = .inRule j →
    (s.workers v).entered = (s.workers w).entered ∧
      ∃ rule rule', params.rules[i]? = some rule ∧ params.rules[j]? = some rule' ∧
        rule.group = rule'.group ∧ params.groupNames[s.currentGroup]? = some rule.group
  /-- Invariants and the engine's decisions come while no worker is in a round. -/
  apart : s.main.evaluating = true → ∀ w, (s.workers w).pc.inRound = false
  /-- Nobody starts a round once `stop` is set. -/
  stopped : s.stop = true → ∀ s', Relation.ReflTransGen (Step params) s s' →
    s'.stop = true ∧ ∀ w, (s'.workers w).entered = (s.workers w).entered

theorem roundDiscipline {s : State S n} (h : (runConcurrent params n).Reachable s) :
    RoundDiscipline params s := by
  obtain ⟨hLinked, hBarrier⟩ := reachable_linked h
  have hWithin (w : Fin n) (hIn : (s.workers w).pc.inRound = true) :=
    hBarrier.inside (i := w) ((hLinked.workers w).inRound.mp hIn)
  refine ⟨hWithin, fun w => ?_, fun v w i j hv hw => ?_, fun hMain w => ?_, fun hStop s' => ?_⟩
  · exact ⟨hBarrier.left_le w, hBarrier.entered_le w, fun hIdle => hBarrier.outside hIdle w⟩
  · obtain ⟨rule, hRule, hName⟩ := groupNames_ruleGroups (Grouped.reachable h v i hv)
    obtain ⟨rule', hRule', hName'⟩ := groupNames_ruleGroups (Grouped.reachable h w j hw)
    refine ⟨?_, rule, rule', hRule, hRule', ?_, hName⟩
    · exact (hWithin v (by rw [hv]; rfl)).2.1.trans (hWithin w (by rw [hw]; rfl)).2.1.symm
    · exact Option.some.inj (hName.symm.trans hName')
  · refine idle_outside h ?_ w
    cases hPc : s.main <;> simp_all [MainPc.evaluating, MainPc.running]
  · exact stopped_forever h hStop

/-- Up to two workers that all increment one counter. -/
def counter : Params Nat where
  rules := [{ name := "increment", group := "writers" }]
  invariants := [{ name := "small", check := fun _ => none }]
  minConcurrency := 1
  maxConcurrency := 2
  root := { isFinal := true, verbosity := .normal, bufferOutput := true }
  elapsed := fun _ => "0"

/-- Both workers apply the rule in the first round, which the main thread waits for. -/
theorem counter_inRule : ∃ s : State Nat 2, (runConcurrent counter 2).Reachable s ∧
    (∀ w, (s.workers w).pc = .inRule 0) ∧ s.main = .blockedDone ∧ s.rounds = 1 ∧
      s.startFailed = none := by
  have h0 : (runConcurrent counter 2).Reachable (State.start 0 2) := .init (initial_start 0 2)
  have h1 := h0.step (.main (.create rfl rfl (by decide) (by decide)))
  have h2 := h1.step (.main (.evaluate .initial 0 _ rfl rfl rfl))
  have h3 := h2.step (.main (.spawn 0 rfl))
  have h4 := h3.step (.main (.spawn 1 rfl))
  have h5 := h4.step (.main (.nextGroup 0 rfl (by decide)))
  have h6 := h5.step (.main (.startRound 0 rfl))
  have h7 := h6.step (.main (.notifyStart rfl))
  have h8 := h7.step (.worker 1 (.enter rfl rfl (by decide)))
  have h9 := h8.step (.worker 0 (.enter rfl rfl (by decide)))
  have h10 := h9.step (.main (.blockDone rfl (by decide)))
  have h11 := h10.step (.worker 0 (.nextRule 0 _ rfl rfl rfl))
  have h12 := h11.step (.worker 1 (.nextRule 0 _ rfl rfl rfl))
  exact ⟨_, h12, Fin.forall_fin_two.mpr ⟨rfl, rfl⟩, rfl, rfl, rfl⟩

theorem roundDiscipline_inRule : ∃ s : State Nat 2, (∀ w, (s.workers w).pc = .inRule 0) ∧
    s.main = .blockedDone ∧ RoundDiscipline counter s := by
  obtain ⟨s, hReachable, hPc, hMain, _⟩ := counter_inRule
  exact ⟨s, hPc, hMain, roundDiscipline hReachable⟩

end Hegel.Concurrent
