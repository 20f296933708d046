import HegelCpp.Client.Soundness
import HegelCpp.Concurrent.Leaving
import HegelCpp.Concurrent.Outcome

/-! `run_concurrent` is sound under sampling: what an observer of the machine
has seen fits the place where the main thread stands. -/
namespace Hegel

variable {S : Type}

theorem evaluations_append (now : S) (index : Nat) (first second : List (Invariant S)) :
    evaluations now index (first ++ second) =
      evaluations now index first ++ evaluations now (index + first.length) second := by
  induction first generalizing index with
  | nil => rfl
  | cons invariant rest ih =>
      rw [List.cons_append, evaluations, evaluations, ih, List.cons_append, List.length_cons,
        Nat.add_right_comm]
      rfl

/-- One more invariant is evaluated. -/
theorem evaluations_take {invariants : List (Invariant S)} {index : Nat} {invariant : Invariant S}
    (h : invariants[index]? = some invariant) (now : S) :
    evaluations now 0 (invariants.take (index + 1)) =
      evaluations now 0 (invariants.take index) ++
        [.invariant index now (invariant.check now)] := by
  obtain ⟨hIndex, -⟩ := List.getElem?_eq_some_iff.mp h
  rw [List.take_add_one, h, evaluations_append, List.length_take, Nat.min_eq_left hIndex.le,
    Nat.zero_add]
  rfl

theorem holds_take {invariants : List (Invariant S)} {index : Nat} {invariant : Invariant S}
    {now : S} (h : invariants[index]? = some invariant) (hHolds : Holds (invariants.take index) now)
    (hCheck : invariant.check now = none) : Holds (invariants.take (index + 1)) now := by
  intro other hMem
  rw [List.take_add_one, h] at hMem
  rcases List.mem_append.mp hMem with hOld | hMem
  · exact hHolds other hOld
  · obtain rfl := List.mem_singleton.mp hMem
    exact hCheck

namespace Concurrent

open Logic

variable {n : Nat} {params : Params S}

section Stages
variable (invariants : List (Invariant S)) (initial : S)

/-- The first `index` invariants were evaluated on the initial state. -/
def Starting (index : Nat) (seen : List (Observation S)) : Prop :=
  seen = evaluations initial 0 (invariants.take index) ∧ Holds (invariants.take index) initial

/-- All invariants hold initially, and nothing has failed since. -/
def Going (seen : List (Observation S)) : Prop :=
  Holds invariants initial ∧ ∃ more, seen = evaluations initial 0 invariants ++ more ∧ Clean more

/-- The first `index` invariants were evaluated on the final state. -/
def Closing (index : Nat) (seen : List (Observation S)) : Prop :=
  Holds invariants initial ∧ ∃ more, Clean more ∧
    Holds (invariants.take index) (lastState initial more) ∧
    seen = evaluations initial 0 invariants ++
      (more ++ evaluations (lastState initial more) 0 (invariants.take index))

/-- An exception is on its way out, and what raised it was the last thing seen. -/
def Failed (seen : List (Observation S)) : Prop :=
  OnlyEvaluations seen ∧ Clean seen.dropLast ∨
    Holds invariants initial ∧
      ∃ more, seen = evaluations initial 0 invariants ++ more ∧ Clean more.dropLast

/-- What the observer has seen when the main thread stands at `pc`. -/
def Stage (seen : List (Observation S)) : MainPc → Prop
  | .create => seen = []
  | .check .initial index => Starting invariants initial index seen
  | .check .final index => Closing invariants initial index seen
  | .setStop none | .notifyStop none | .join none _ | .finished none =>
      Closing invariants initial invariants.length seen
  | .setStop (some _) | .notifyStop (some _) | .join (some _) _ | .finished (some _) =>
      Failed invariants initial seen
  | _ => Going invariants initial seen

variable {invariants initial} {seen : List (Observation S)}

theorem Starting.going {index : Nat} (h : Starting invariants initial index seen)
    (hAll : invariants.length ≤ index) : Going invariants initial seen := by
  obtain ⟨hSeen, hHolds⟩ := h
  rw [List.take_of_length_le hAll] at hSeen hHolds
  exact ⟨hHolds, [], by rw [hSeen, List.append_nil], Clean.nil⟩

theorem Going.closing (h : Going invariants initial seen) : Closing invariants initial 0 seen := by
  obtain ⟨hHolds, more, hSeen, hClean⟩ := h
  exact ⟨hHolds, more, hClean, by simp [Holds], by simpa [evaluations] using hSeen⟩

theorem Going.failed (h : Going invariants initial seen) : Failed invariants initial seen := by
  obtain ⟨hHolds, more, hSeen, hClean⟩ := h
  exact .inr ⟨hHolds, more, hSeen, hClean.dropLast⟩

/-- One more harmless observation. -/
theorem Going.observe (h : Going invariants initial seen) {what : Observation S}
    (hWhat : ¬ what.Fatal) : Going invariants initial (seen ++ [what]) := by
  obtain ⟨hHolds, more, rfl, hClean⟩ := h
  exact ⟨hHolds, more ++ [what], List.append_assoc .., hClean.append (Clean.nil.cons hWhat)⟩

/-- One more observation, which raises. -/
theorem Going.raise (h : Going invariants initial seen) (what : Observation S) :
    Failed invariants initial (seen ++ [what]) := by
  obtain ⟨hHolds, more, rfl, hClean⟩ := h
  refine .inr ⟨hHolds, more ++ [what], List.append_assoc .., ?_⟩
  rwa [List.dropLast_concat]

theorem Starting.observe {index : Nat} {invariant : Invariant S}
    (h : Starting invariants initial index seen) (hInvariant : invariants[index]? = some invariant)
    (hCheck : invariant.check initial = none) :
    Starting invariants initial (index + 1) (seen ++ [.invariant index initial none]) := by
  obtain ⟨rfl, hHolds⟩ := h
  exact ⟨by rw [evaluations_take hInvariant, hCheck], holds_take hInvariant hHolds hCheck⟩

theorem Starting.raise {index : Nat} (h : Starting invariants initial index seen)
    (now : S) (failed : Option Exn) :
    Failed invariants initial (seen ++ [.invariant index now failed]) := by
  obtain ⟨rfl, hHolds⟩ := h
  refine .inl ⟨fun what hMem => ?_, ?_⟩
  · rcases List.mem_append.mp hMem with hOld | hMem
    · exact onlyEvaluations_evaluations _ _ _ what hOld
    · exact ⟨index, now, failed, List.mem_singleton.mp hMem⟩
  · rw [List.dropLast_concat]
    exact clean_of_holds 0 hHolds

theorem Closing.observe {index : Nat} (h : Closing invariants initial index seen)
    {invariant : Invariant S} (hInvariant : invariants[index]? = some invariant)
    (hCheck : invariant.check (lastState initial seen) = none) :
    Closing invariants initial (index + 1)
      (seen ++ [.invariant index (lastState initial seen) none]) := by
  obtain ⟨hHolds, more, hClean, hLast, rfl⟩ := h
  simp only [lastState_append, lastState_evaluations] at hCheck ⊢
  refine ⟨hHolds, more, hClean, holds_take hInvariant hLast hCheck, ?_⟩
  rw [evaluations_take hInvariant, hCheck, List.append_assoc, List.append_assoc]

theorem Closing.raise {index : Nat} (h : Closing invariants initial index seen)
    (what : Observation S) : Failed invariants initial (seen ++ [what]) := by
  obtain ⟨hHolds, more, hClean, hLast, rfl⟩ := h
  refine .inr ⟨hHolds, _, List.append_assoc .., ?_⟩
  rw [List.dropLast_concat]
  exact hClean.append (clean_of_holds 0 hLast)

/-- While a round runs nothing has failed. -/
theorem stage_running {pc : MainPc} (h : pc.running = true) :
    Stage invariants initial seen pc ↔ Going invariants initial seen := by
  cases pc <;> first | exact Iff.rfl | cases h

theorem Starting.clean {index : Nat} (h : Starting invariants initial index seen) : Clean seen := by
  obtain ⟨rfl, hHolds⟩ := h
  exact clean_of_holds 0 hHolds

theorem Going.clean (h : Going invariants initial seen) : Clean seen := by
  obtain ⟨hHolds, more, rfl, hClean⟩ := h
  exact (clean_of_holds 0 hHolds).append hClean

theorem Closing.clean {index : Nat} (h : Closing invariants initial index seen) : Clean seen := by
  obtain ⟨hHolds, more, hClean, hLast, rfl⟩ := h
  exact (clean_of_holds 0 hHolds).append (hClean.append (clean_of_holds 0 hLast))

/-! Each stage is sound as long as nothing returns. -/

variable {returned : Prop}

theorem Starting.sound {index : Nat} (h : Starting invariants initial index seen)
    (hNot : ¬ returned) : Sound invariants initial returned seen := by
  obtain ⟨rfl, hHolds⟩ := h
  exact .early (onlyEvaluations_evaluations _ _ _) (clean_of_holds 0 hHolds).dropLast hNot

theorem Going.sound (h : Going invariants initial seen) (hNot : ¬ returned) :
    Sound invariants initial returned seen := by
  obtain ⟨hHolds, more, rfl, hClean⟩ := h
  exact .raised hHolds hClean.dropLast hNot

theorem Closing.sound {index : Nat} (h : Closing invariants initial index seen)
    (hNot : ¬ returned) : Sound invariants initial returned seen := by
  obtain ⟨hHolds, more, hClean, hLast, rfl⟩ := h
  exact .raised hHolds (hClean.append (clean_of_holds 0 hLast)).dropLast hNot

theorem Closing.finished (h : Closing invariants initial invariants.length seen) :
    Sound invariants initial returned seen := by
  obtain ⟨hHolds, more, hClean, hLast, rfl⟩ := h
  rw [List.take_length] at hLast ⊢
  exact .finished hHolds hClean hLast

theorem Failed.sound (h : Failed invariants initial seen) (hNot : ¬ returned) :
    Sound invariants initial returned seen := by
  rcases h with ⟨hOnly, hClean⟩ | ⟨hHolds, more, rfl, hClean⟩
  · exact .early hOnly hClean hNot
  · exact .raised hHolds hClean hNot

/-- Only the regular end is a return. -/
theorem Stage.sound {pc : MainPc} (h : Stage invariants initial seen pc) :
    Sound invariants initial (pc = .finished none) seen := by
  cases pc with
  | create =>
      obtain rfl : seen = [] := h
      exact .early (by simp [OnlyEvaluations]) Clean.nil (by simp)
  | check phase index =>
      cases phase with
      | initial => exact Starting.sound h (by simp)
      | joined => exact Going.sound h (by simp)
      | final => exact Closing.sound h (by simp)
  | setStop exit =>
      cases exit with
      | none => exact Closing.sound h (by simp)
      | some e => exact Failed.sound h (by simp)
  | notifyStop exit =>
      cases exit with
      | none => exact Closing.sound h (by simp)
      | some e => exact Failed.sound h (by simp)
  | join exit w =>
      cases exit with
      | none => exact Closing.sound h (by simp)
      | some e => exact Failed.sound h (by simp)
  | finished exit =>
      cases exit with
      | none => exact Closing.finished h
      | some e => exact Failed.sound h (by simp)
  | _ => exact Going.sound h (by simp)

/-- What is fatal is followed by an exception that leaves. -/
theorem Stage.leaving {pc : MainPc} (h : Stage invariants initial seen pc) {what : Observation S}
    (hMem : what ∈ seen) (hFatal : what.Fatal) : ∃ e, pc.leaving = some e := by
  have hClean (hClean : Clean seen) : ∃ e, pc.leaving = some e :=
    absurd hFatal (hClean what hMem)
  cases pc with
  | create =>
      obtain rfl : seen = [] := h
      cases hMem
  | check phase index =>
      cases phase with
      | initial => exact hClean (Starting.clean h)
      | joined => exact hClean (Going.clean h)
      | final => exact hClean (Closing.clean h)
  | setStop exit =>
      cases exit with
      | none => exact hClean (Closing.clean h)
      | some e => exact ⟨e, rfl⟩
  | notifyStop exit =>
      cases exit with
      | none => exact hClean (Closing.clean h)
      | some e => exact ⟨e, rfl⟩
  | join exit w =>
      cases exit with
      | none => exact hClean (Closing.clean h)
      | some e => exact ⟨e, rfl⟩
  | finished exit =>
      cases exit with
      | none => exact hClean (Closing.clean h)
      | some e => exact ⟨e, rfl⟩
  | _ => exact hClean (Going.clean h)

/-! Where the loops of the main thread lead. -/

theorem stage_spawnFrom (h : Going invariants initial seen) (w : Nat) :
    Stage invariants initial seen (spawnFrom n w) :=
  spawnFrom_cases (Stage invariants initial seen) w (fun _ => h) fun _ => h

theorem stage_joinFrom {exit : Option Exn} (w : Nat)
    (h : Stage invariants initial seen (.setStop exit)) :
    Stage invariants initial seen (joinFrom n exit w) := by
  cases exit with
  | none => exact joinFrom_cases (Stage invariants initial seen) none w (fun _ => h) fun _ => h
  | some e => exact joinFrom_cases (Stage invariants initial seen) (some e) w (fun _ => h) fun _ => h

end Stages

section Loops
variable {initial : S} {seen : List (Observation S)} {index : Nat}

theorem stage_initial (h : Starting params.invariants initial index seen) :
    Stage params.invariants initial seen (checkFrom params n .initial index) := by
  unfold checkFrom
  split
  · exact h
  · next hAll => exact stage_spawnFrom (h.going (Nat.le_of_not_lt hAll)) 0

theorem stage_joined (h : Going params.invariants initial seen) (index : Nat) :
    Stage params.invariants initial seen (checkFrom params n .joined index) := by
  unfold checkFrom
  split <;> exact h

theorem stage_final (h : Closing params.invariants initial index seen) :
    Stage params.invariants initial seen (checkFrom params n .final index) := by
  unfold checkFrom
  split
  · exact h
  · next hAll =>
      obtain ⟨hHolds, more, hClean, hLast, hSeen⟩ := h
      rw [List.take_of_length_le (Nat.le_of_not_lt hAll)] at hLast hSeen
      refine ⟨hHolds, more, hClean, ?_, ?_⟩
      · rwa [List.take_length]
      · rwa [List.take_length]

end Loops

/-- A round is followed by the invariants only if nobody failed in it. -/
theorem roundDone_of_outcome {events : Fin n → RoundEvent} (h : roundOutcome events = none) :
    roundSeen events = ([] : List (Observation S)) := by
  have hVerdict := RoundVerdict.iff_roundOutcome.mpr h
  cases hVerdict with
  | roundDone hAll => exact if_pos hAll

theorem roundSeen_raise {invariants : List (Invariant S)} {initial : S}
    {seen : List (Observation S)} (h : Going invariants initial seen) (events : Fin n → RoundEvent) :
    Failed invariants initial (seen ++ roundSeen events) := by
  unfold roundSeen
  split
  · rw [List.append_nil]
    exact h.failed
  · exact h.raise _

theorem failed_nil {invariants : List (Invariant S)} {initial : S} {seen : List (Observation S)}
    (h : seen = []) : Failed invariants initial seen := by
  subst h
  exact .inl ⟨by simp [OnlyEvaluations], Clean.nil⟩

theorem Starting.memory {invariants : List (Invariant S)} {initial now : S} {index : Nat}
    {seen : List (Observation S)} (h : Starting invariants initial index seen)
    (hMemory : now = lastState initial seen) : now = initial := by
  rw [hMemory, h.1, lastState_evaluations]

theorem lastState_invariant (initial : S) (seen : List (Observation S)) (index : Nat) (now : S)
    (failed : Option Exn) :
    lastState initial (seen ++ [.invariant index now failed]) = lastState initial seen :=
  lastState_append ..

/-- The observer's view of `s`, whose memory is the last state that was seen. -/
structure Watching (params : Params S) (initial : S) (s : State S n) : Prop where
  stage : Stage params.invariants initial s.seen s.main
  memory : s.memory = lastState initial s.seen

namespace Watching

variable {initial : S} {s s' : State S n}

theorem mainStep (h : Watching params initial s) (hStep : MainStep params s s') :
    Watching params initial s' := by
  obtain ⟨hStage, hMemory⟩ := h
  cases hStep with
  | rejectArguments e hPc hError =>
      rw [hPc] at hStage
      exact ⟨failed_nil hStage, hMemory⟩
  | createFails e hPc hArguments =>
      rw [hPc] at hStage
      exact ⟨failed_nil hStage, hMemory⟩
  | create hPc hArguments hMin hMax =>
      rw [hPc] at hStage
      exact ⟨stage_initial ⟨hStage, by simp [Holds]⟩, hMemory⟩
  | sampleRaises e index hPc =>
      rw [hPc] at hStage
      exact ⟨Going.failed hStage, hMemory⟩
  | sample index selected hPc =>
      rw [hPc] at hStage
      refine ⟨?_, hMemory⟩
      cases selected with
      | false =>
          simp only [Bool.false_eq_true, if_false]
          exact stage_joined hStage _
      | true => exact hStage
  | evaluate phase index invariant hPc hInvariant hHolds =>
      rw [hPc] at hStage
      refine ⟨?_, hMemory.trans (lastState_invariant ..).symm⟩
      cases phase with
      | initial =>
          rw [hStage.memory hMemory] at hHolds ⊢
          exact stage_initial (hStage.observe hInvariant hHolds)
      | joined => exact stage_joined (n := n) (Going.observe hStage id) _
      | final =>
          rw [hMemory] at hHolds ⊢
          exact stage_final (n := n) (hStage.observe hInvariant hHolds)
  | violate phase index invariant e hPc hInvariant hViolated =>
      rw [hPc] at hStage
      refine ⟨?_, hMemory.trans (lastState_invariant ..).symm⟩
      cases phase with
      | initial => exact Starting.raise hStage s.memory (some e)
      | joined => exact Going.raise hStage _
      | final => exact Closing.raise hStage _
  | spawn w hPc =>
      rw [hPc] at hStage
      exact ⟨stage_spawnFrom hStage _, hMemory⟩
  | spawnFails w e hPc =>
      rw [hPc] at hStage
      refine ⟨?_, hMemory⟩
      by_cases hw : (w : Nat) = 0
      · simp only [hw, if_true]
        exact Going.failed hStage
      · simp only [hw, if_false]
        exact hStage
  | nextGroupRaises e hPc =>
      rw [hPc] at hStage
      exact ⟨Going.failed hStage, hMemory⟩
  | nextGroupDone hPc =>
      rw [hPc] at hStage
      exact ⟨stage_final (n := n) (Going.closing hStage), hMemory⟩
  | nextGroup group hPc hGroup =>
      rw [hPc] at hStage
      exact ⟨hStage, hMemory⟩
  | startRound group hPc =>
      rw [hPc] at hStage
      exact ⟨Going.observe hStage id, by rw [State.startRound, lastState_append, ← hMemory]; rfl⟩
  | notifyStart hPc =>
      rw [hPc] at hStage
      exact ⟨hStage, hMemory⟩
  | allDone hPc hAll =>
      rw [hPc] at hStage
      exact ⟨hStage, hMemory⟩
  | blockDone hPc hSome =>
      rw [hPc] at hStage
      exact ⟨hStage, hMemory⟩
  | scanRaises e hPc hOutcome =>
      rw [hPc] at hStage
      refine ⟨roundSeen_raise hStage s.events, hMemory.trans ?_⟩
      unfold roundSeen
      split
      · rw [List.append_nil]
      · rw [lastState_append]
        rfl
  | scan hPc hOutcome =>
      rw [hPc] at hStage
      simp only [roundDone_of_outcome hOutcome, List.append_nil]
      exact ⟨stage_joined (n := n) hStage 0, hMemory⟩
  | setStop exit hPc =>
      rw [hPc] at hStage
      exact ⟨by cases exit <;> exact hStage, hMemory⟩
  | notifyStop exit hPc =>
      rw [hPc] at hStage
      exact ⟨stage_joinFrom 0 (by cases exit <;> exact hStage), hMemory⟩
  | join exit w hPc hExited =>
      rw [hPc] at hStage
      exact ⟨stage_joinFrom _ (by cases exit <;> exact hStage), hMemory⟩

/-- A worker shows something only within a round. -/
theorem workerStep (h : Watching params initial s)
    (hReachable : (runConcurrent params n).Reachable s)
    {w : Fin n} (hStep : WorkerStep params w s s') : Watching params initial s' := by
  obtain ⟨hLinked, hBarrier⟩ := reachable_linked hReachable
  have hRunning (hPc : (s.workers w).pc.inRound = true) : s.main.running = true :=
    (hBarrier.inside ((hLinked.workers w).inRound.mp hPc)).1
  cases hStep with
  | nextRule index rule hPc hRule hGroup =>
      have hRun := hRunning (by rw [hPc]; rfl)
      refine ⟨(stage_running hRun).mpr (((stage_running hRun).mp h.stage).observe id), ?_⟩
      exact h.memory.trans (lastState_append initial s.seen [.rule index]).symm
  | write index memory hPc =>
      have hRun := hRunning (by rw [hPc]; rfl)
      refine ⟨(stage_running hRun).mpr (((stage_running hRun).mp h.stage).observe id), ?_⟩
      exact (lastState_append initial s.seen [.state memory]).symm
  | notifyDone hPc =>
      refine ⟨?_, h.memory⟩
      by_cases hBlocked : s.main = .blockedDone
      · have hStage := h.stage
        rw [hBlocked] at hStage
        simp only [hBlocked, if_true]
        exact hStage
      · simp only [hBlocked, if_false]
        exact h.stage
  | _ => exact ⟨h.stage, h.memory⟩

theorem reachable {s₀ : State S n} (hInit : Initial s₀) (hMemory : s₀.memory = initial)
    (h : Relation.ReflTransGen (Step params) s₀ s) : Watching params initial s := by
  induction h with
  | refl =>
      refine ⟨?_, ?_⟩
      · rw [hInit.main]
        exact hInit.seen
      · rw [hInit.seen, hMemory]
        rfl
  | tail hSteps hStep ih =>
      have hReachable : (runConcurrent params n).Reachable _ :=
        System.Reachable.steps (.init hInit) hSteps
      cases hStep with
      | main hStep => exact ih.mainStep hStep
      | worker w hStep => exact ih.workerStep hReachable hStep
      | spurious hStep =>
          cases hStep with
          | main hPc =>
              have hStage := ih.stage
              rw [hPc] at hStage
              exact ⟨hStage, ih.memory⟩
          | worker w hPc => exact ⟨ih.stage, ih.memory⟩

end Watching

/-- What holds of every state that `run_concurrent` reaches from a memory
`initial`: it is sound so far, and once something was fatal an exception leaves,
whichever thread is scheduled next. -/
structure SoundSoFar (params : Params S) (initial : S) (s : State S n) : Prop where
  memory : s.memory = lastState initial s.seen
  sound : SamplingSound params.invariants initial (s.main = .finished none) s.seen
  leaving : ∀ what ∈ s.seen, what.Fatal → ∃ e, s.main.leaving = some e ∧
    Inevitable (Scheduled params) (fun s' => s'.main = .finished (some e)) s

theorem Watching.soundSoFar {initial : S} {s : State S n} (h : Watching params initial s)
    (hReachable : (runConcurrent params n).Reachable s) : SoundSoFar params initial s where
  memory := h.memory
  sound := h.stage.sound.samplingSound
  leaving := by
    intro what hMem hFatal
    obtain ⟨e, hLeaving⟩ := h.stage.leaving hMem hFatal
    exact ⟨e, hLeaving, leaves hReachable hLeaving⟩

/-- Both runners are sound, whatever the engine answers and samples, the rules
do, and the threads' schedule is. -/
theorem runners_sound (slots : Code.Slots S) (depth : Nat) (rules : List (String × Code S Unit))
    (invariants : List (Invariant S)) (repr : S → Except Exn String) (runParams : RunParams)
    (world : World S) (params : Params S) (n : Nat) (s₀ s : State S n) (hInit : Initial s₀)
    (hSteps : Relation.ReflTransGen (Step params) s₀ s) :
    SoundRun (clientMachine slots depth rules invariants repr) runParams world ∧
      SoundSoFar params s₀.memory s := by
  constructor
  · exact run_sound (clientMachine_rules slots depth rules invariants repr)
      (clientMachine_shrinks slots depth rules invariants repr) world
  · exact (Watching.reachable hInit rfl hSteps).soundSoFar (.steps (.init hInit) hSteps)

/-- Both workers increment the counter in one round, and all end. -/
theorem counter_finished : ∃ s : State Nat 2,
    Relation.ReflTransGen (Step counter) (State.start 0 2) s ∧ s.main = .finished none ∧
      s.rounds = 1 ∧ s.memory = 2 := by
  have h0 : Relation.ReflTransGen (Step counter) (State.start 0 2) (State.start 0 2) := .refl
  have h1 := h0.tail (.main (.create rfl rfl (by decide) (by decide)))
  have h2 := h1.tail (.main (.evaluate .initial 0 _ rfl rfl rfl))
  have h3 := h2.tail (.main (.spawn 0 rfl))
  have h4 := h3.tail (.main (.spawn 1 rfl))
  have h5 := h4.tail (.main (.nextGroup 0 rfl (by decide)))
  have h6 := h5.tail (.main (.startRound 0 rfl))
  have h7 := h6.tail (.main (.notifyStart rfl))
  have h8 := h7.tail (.worker 0 (.enter rfl rfl (by decide)))
  have h9 := h8.tail (.worker 1 (.enter rfl rfl (by decide)))
  have h10 := h9.tail (.worker 1 (.nextRule 0 _ rfl rfl rfl))
  have h11 := h10.tail (.worker 0 (.nextRule 0 _ rfl rfl rfl))
  have h12 := h11.tail (.worker 1 (.write 0 1 rfl))
  have h13 := h12.tail (.worker 0 (.write 0 2 rfl))
  have h14 := h13.tail (.worker 0 (.ruleReturns 0 rfl))
  have h15 := h14.tail (.worker 1 (.ruleReturns 0 rfl))
  have h16 := h15.tail (.worker 0 (.nextRuleDone rfl))
  have h17 := h16.tail (.worker 0 (.store _ rfl))
  have h18 := h17.tail (.worker 1 (.nextRuleDone rfl))
  have h19 := h18.tail (.worker 1 (.store _ rfl))
  have h20 := h19.tail (.worker 0 (.notifyDone rfl))
  have h21 := h20.tail (.worker 1 (.notifyDone rfl))
  have h22 := h21.tail (.main (.allDone rfl rfl))
  have h23 := h22.tail (.main (.scan rfl rfl))
  have h24 := h23.tail (.main (.sample 0 false rfl))
  have h25 := h24.tail (.main (.nextGroupDone rfl))
  have h26 := h25.tail (.main (.evaluate .final 0 _ rfl rfl rfl))
  have h27 := h26.tail (.main (.setStop none rfl))
  have h28 := h27.tail (.main (.notifyStop none rfl))
  have h29 := h28.tail (.worker 0 (.stop rfl rfl))
  have h30 := h29.tail (.worker 1 (.stop rfl rfl))
  have h31 := h30.tail (.main (.join none 0 rfl rfl))
  have h32 := h31.tail (.main (.join none 1 rfl rfl))
  exact ⟨_, h32, rfl, rfl, rfl⟩

/-- The same rule for `stateful::run`. -/
def incrementRule : Code Nat Unit := .bind .read fun count => .write (count + 1)

/-- A counter that is not to be incremented. -/
def brokenCounter : StateMachine Nat :=
  clientMachine (fun _ _ => none) 0 [("increment", incrementRule)]
    [{ name := "zero", check := fun count => if count = 0 then none else some (runtimeError "one") }]
    fun count => .ok (toString count)

/-- One round of one rule; the engine leaves the invariant out after it. -/
def oneRule : World Nat where
  answers := [{}, {}, {}, {}, { int := stateMachineDone }, { bool := false },
    { int := stateMachineDone }]
  memory := 0

theorem runners_sound_counter : (∃ enough world', (∀ fuel, enough ≤ fuel →
      run brokenCounter {} fuel oneRule = some (.error (runtimeError "one"), world')) ∧
        SoundEnd brokenCounter oneRule (.error (runtimeError "one")) world') ∧
    ∃ s : State Nat 2, s.main = .finished none ∧ SoundSoFar counter 0 s := by
  obtain ⟨s, hSteps, hMain, _, _⟩ := counter_finished
  obtain ⟨hRun, hConcurrent⟩ := runners_sound (fun _ _ => none) 0 [("increment", incrementRule)]
    brokenCounter.invariants brokenCounter.repr {} oneRule counter 2 _ s (initial_start 0 2) hSteps
  refine ⟨?_, s, hMain, hConcurrent⟩
  obtain ⟨enough, result, world', hEnd, hSound⟩ := hRun.ends fun rule hRule later _ => by
    obtain rfl := List.mem_singleton.mp hRule
    exact ⟨0, _, fun _ _ => rfl⟩
  have hResult : (run brokenCounter {} (enough + 10) oneRule).map Prod.fst =
      some (.error (runtimeError "one")) := rfl
  have hSame : run brokenCounter {} (enough + 10) oneRule = some (result, world') :=
    hEnd _ (Nat.le_add_right ..)
  rw [hSame] at hResult
  obtain rfl := Option.some.inj hResult
  exact ⟨enough, world', hEnd, hSound⟩

end Concurrent
end Hegel
