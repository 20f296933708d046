import HegelCpp.Client.Threads
import HegelCpp.Concurrent.Output
import HegelCpp.Logic.DenseNumbering

/-! The tables with which `run_concurrent` numbers the concurrency groups, and
the group a round's header names. -/
namespace Hegel.Concurrent

open Logic DenseNumbering

/-- `anonymous_group`. -/
def anonymousGroup : String := "<anonymous>"

/-- The constructor of `ConcurrentRule` that names no group. -/
def RuleDecl.ungrouped (name : String) : RuleDecl := ⟨name, anonymousGroup⟩

/-- `std::map<std::string, int64_t>`. -/
abbrev GroupIds : Type := AList fun _ : String => Int

/-- `std::map::emplace`: the map, the id that is now there and whether it is new. -/
def GroupIds.emplace (group : String) (id : Int) (groupIds : GroupIds) : GroupIds × Int × Bool :=
  match groupIds.lookup group with
  | some old => (groupIds, old, false)
  | none => (groupIds.insert group id, id, true)

/-- What the loop over the rules builds. -/
structure GroupTables where
  ruleNames : List String := []
  groupNames : List String := []
  groupIds : GroupIds := ∅
  ruleGroups : List Int := []

/-- One iteration of the loop. The size is taken before the insertion. -/
def GroupTables.add (tables : GroupTables) (rule : RuleDecl) : GroupTables :=
  let size : Int := tables.groupIds.entries.length
  let (groupIds, id, inserted) := GroupIds.emplace rule.group size tables.groupIds
  { ruleNames := tables.ruleNames ++ [rule.name]
    groupNames := if inserted then tables.groupNames ++ [rule.group] else tables.groupNames
    groupIds
    ruleGroups := tables.ruleGroups ++ [id] }

def groupTables (rules : List RuleDecl) : GroupTables := rules.foldl GroupTables.add {}

/-- The text of a round's header. -/
def headerText (roundNumber : UInt64) (group : String) : String :=
  "---------------- Round " ++ toString roundNumber ++ ": group \"" ++ group ++
    "\" ----------------"

/-- What the main thread makes of the answer of `next_group`: the end of the
rounds, an exception, or the header of the next round. -/
def roundHeader (groupNames : List String) (roundNumber : UInt64) (group : Int) :
    Except Exn (Option String) :=
  if group = stateMachineDone then .ok none
  else if group < 0 ∨ groupNames.length ≤ group.toNat then .error Threads.outOfRangeGroup
  else .ok (some (headerText roundNumber (groupNames.getD group.toNat "")))

/-- A number of the table is neither the sentinel nor out of range. -/
theorem roundHeader_of_lt {groupNames : List String} {group : Nat}
    (hLt : group < groupNames.length) (roundNumber : UInt64) :
    roundHeader groupNames roundNumber group =
      .ok (some (headerText roundNumber (groupNames.getD group ""))) := by
  have hOther : ¬ (group : Int) = stateMachineDone := by
    rw [stateMachineDone]
    omega
  have hKnown : ¬ ((group : Int) < 0 ∨ groupNames.length ≤ (group : Int).toNat) := by omega
  rw [roundHeader, if_neg hOther, if_neg hKnown, Int.toNat_natCast]

/-- The rules so far are numbered by the place of their group's name. -/
structure GroupTables.Numbered (tables : GroupTables) (rules : List RuleDecl) : Prop where
  numbers : Numbers (rules.map (·.group)) tables.groupNames tables.groupIds
  ruleNames : tables.ruleNames = rules.map (·.name)
  ruleGroups : tables.ruleGroups =
    rules.map fun rule => (tables.groupNames.idxOf rule.group : Int)

namespace GroupTables.Numbered

variable {tables : GroupTables} {rules : List RuleDecl}

theorem mem_groupNames (h : tables.Numbered rules) {group : String} :
    group ∈ tables.groupNames ↔ ∃ rule ∈ rules, rule.group = group := by
  rw [h.numbers.names_eq, List.mem_eraseDups, List.mem_map]

theorem add (h : tables.Numbered rules) (rule : RuleDecl) :
    (tables.add rule).Numbered (rules ++ [rule]) := by
  have hGroups : (rules ++ [rule]).map (·.group) = rules.map (·.group) ++ [rule.group] := by simp
  have hNames : tables.ruleNames ++ [rule.name] = (rules ++ [rule]).map (·.name) := by
    simp [h.ruleNames]
  rw [GroupTables.add, GroupIds.emplace]
  cases hLookup : tables.groupIds.lookup rule.group with
  | some id =>
      obtain ⟨hId, hNumbers⟩ := h.numbers.known hLookup
      exact ⟨hGroups ▸ hNumbers, hNames, by simp [h.ruleGroups, hId]⟩
  | none =>
      obtain ⟨hId, hNumbers⟩ := h.numbers.fresh hLookup
      refine ⟨hGroups ▸ hNumbers, hNames, ?_⟩
      have hOld : ∀ old ∈ rules, ((tables.groupNames ++ [rule.group]).idxOf old.group : Int) =
          tables.groupNames.idxOf old.group := fun old hMem => by
        rw [List.idxOf_append_of_mem (h.mem_groupNames.mpr ⟨old, hMem, rfl⟩)]
      show tables.ruleGroups ++ [(tables.groupIds.entries.length : Int)] =
        (rules ++ [rule]).map fun one =>
          ((tables.groupNames ++ [rule.group]).idxOf one.group : Int)
      rw [List.map_append, List.map_congr_left hOld, ← h.ruleGroups, hId]
      rfl

end GroupTables.Numbered

theorem numbered_groupTables (rules : List RuleDecl) : (groupTables rules).Numbered rules := by
  induction rules using List.reverseRecOn with
  | nil => exact ⟨numbers_nil, rfl, rfl⟩
  | append_singleton rules rule ih =>
      rw [groupTables, List.foldl_append]
      exact ih.add rule

/-- The number of distinct group names. -/
def groupCount (rules : List RuleDecl) : Nat := (rules.map (·.group)).toFinset.card

/-- A dense numbering of the groups, in the order of their first rules, that
`group_names` inverts. -/
structure GroupTables.Dense (tables : GroupTables) (rules : List RuleDecl) : Prop where
  /-- Every rule has an id. -/
  total : tables.ruleGroups.length = rules.length
  /-- The ids are all the numbers below the number of groups. -/
  ids : ∀ id, id ∈ tables.ruleGroups ↔ 0 ≤ id ∧ id < groupCount rules
  names : tables.groupNames.length = groupCount rules
  named : ∀ (i : Nat) rule, rules[i]? = some rule →
    ∃ id : Nat, tables.ruleGroups[i]? = some (id : Int) ∧ tables.groupNames[id]? = some rule.group
  same : ∀ (i j : Nat) rule rule', rules[i]? = some rule → rules[j]? = some rule' →
    (tables.ruleGroups[i]? = tables.ruleGroups[j]? ↔ rule.group = rule'.group)
  firstOccurrence : ∀ (i j : Nat) rule rule' id id', rules[i]? = some rule →
    rules[j]? = some rule' → tables.ruleGroups[i]? = some id → tables.ruleGroups[j]? = some id' →
    (id < id' ↔ (rules.map (·.group)).idxOf rule.group < (rules.map (·.group)).idxOf rule'.group)
  /-- An id of a rule is no sentinel and no unknown group, and the header names
  the rule's group. -/
  header : ∀ (i : Nat) rule id, rules[i]? = some rule → tables.ruleGroups[i]? = some id →
    ∀ roundNumber, roundHeader tables.groupNames roundNumber id =
      .ok (some (headerText roundNumber rule.group))

namespace GroupTables.Numbered

variable {tables : GroupTables} {rules : List RuleDecl} {rule rule' : RuleDecl} {i j : Nat}

theorem length_groupNames (h : tables.Numbered rules) :
    tables.groupNames.length = groupCount rules := by
  rw [h.numbers.names_eq, length_eraseDups, groupCount]

theorem id_eq (h : tables.Numbered rules) (hRule : rules[i]? = some rule) :
    tables.ruleGroups[i]? = some (tables.groupNames.idxOf rule.group : Int) := by
  rw [h.ruleGroups, List.getElem?_map, hRule]
  rfl

theorem group_mem (h : tables.Numbered rules) (hRule : rules[i]? = some rule) :
    rule.group ∈ tables.groupNames :=
  h.mem_groupNames.mpr ⟨rule, List.mem_of_getElem? hRule, rfl⟩

theorem mem_ruleGroups_iff (h : tables.Numbered rules) (id : Int) :
    id ∈ tables.ruleGroups ↔ 0 ≤ id ∧ id < groupCount rules := by
  have hExists := exists_idxOf_eraseDups (rules.map (·.group)) id.toNat
  rw [← h.numbers.names_eq, h.length_groupNames] at hExists
  rw [h.ruleGroups, List.mem_map]
  constructor
  · rintro ⟨rule, hMem, rfl⟩
    have hLt := hExists.mp ⟨rule.group, List.mem_map_of_mem hMem, (Int.toNat_natCast _).symm⟩
    omega
  · rintro ⟨hPos, hLt⟩
    obtain ⟨group, hGroup, hNumber⟩ := hExists.mpr (by omega)
    obtain ⟨rule, hMem, rfl⟩ := List.mem_map.mp hGroup
    exact ⟨rule, hMem, by omega⟩

theorem roundHeader_eq (h : tables.Numbered rules) (hRule : rules[i]? = some rule)
    (roundNumber : UInt64) :
    roundHeader tables.groupNames roundNumber (tables.groupNames.idxOf rule.group) =
      .ok (some (headerText roundNumber rule.group)) := by
  have hMem := h.group_mem hRule
  rw [roundHeader_of_lt (List.idxOf_lt_length_of_mem hMem), List.getD_eq_getElem?_getD,
    List.getElem?_idxOf hMem, Option.getD_some]

theorem dense (h : tables.Numbered rules) : tables.Dense rules where
  total := by rw [h.ruleGroups, List.length_map]
  ids := h.mem_ruleGroups_iff
  names := h.length_groupNames
  named i rule hRule := ⟨_, h.id_eq hRule, List.getElem?_idxOf (h.group_mem hRule)⟩
  same i j rule rule' hRule hRule' := by
    rw [h.id_eq hRule, h.id_eq hRule', Option.some.injEq, Int.natCast_inj,
      List.idxOf_inj (h.group_mem hRule)]
  firstOccurrence i j rule rule' id id' hRule hRule' hId hId' := by
    rw [h.id_eq hRule, Option.some.injEq] at hId
    rw [h.id_eq hRule', Option.some.injEq] at hId'
    rw [← hId, ← hId', Int.ofNat_lt, h.numbers.names_eq]
    exact idxOf_eraseDups_lt_iff (List.mem_map_of_mem (List.mem_of_getElem? hRule))
      (List.mem_map_of_mem (List.mem_of_getElem? hRule'))
  header i rule id hRule hId := by
    rw [h.id_eq hRule, Option.some.injEq] at hId
    exact hId ▸ h.roundHeader_eq hRule

end GroupTables.Numbered

/-! The runs, which read the names and the ids of the same tables. -/

theorem groupTables_eq (rules : List RuleDecl) :
    (groupTables rules).groupNames = (groupTable rules).1 ∧
      (groupTables rules).ruleGroups = (groupTable rules).2.map fun id => (id : Int) := by
  induction rules using List.reverseRecOn with
  | nil => exact ⟨rfl, rfl⟩
  | append_singleton rules rule ih =>
      obtain ⟨hNames, hGroups⟩ := ih
      have hNumbers := (numbered_groupTables rules).numbers
      have hLookup := hNumbers.lookup rule.group
      have hSize := hNumbers.size
      rw [hNames] at hLookup hSize
      rw [groupTables, List.foldl_append, groupTable, List.foldl_append]
      show ((groupTables rules).add rule).groupNames = (addRule (groupTable rules) rule).1 ∧
        ((groupTables rules).add rule).ruleGroups =
          (addRule (groupTable rules) rule).2.map fun id => (id : Int)
      rw [GroupTables.add, GroupIds.emplace, hLookup, addRule]
      by_cases hKnown : rule.group ∈ (groupTable rules).1
      · simp [hKnown, hNames, hGroups]
      · simp [hKnown, hNames, hGroups, hSize]

/-- The tables number the groups densely, and the runs read them. -/
theorem dense_groupTables (rules : List RuleDecl) : (groupTables rules).Dense rules ∧
    (groupTables rules).groupNames = (groupTable rules).1 ∧
      (groupTables rules).ruleGroups = (groupTable rules).2.map fun id => (id : Int) :=
  ⟨(numbered_groupTables rules).dense, groupTables_eq rules⟩

example : (groupTables [⟨"a", "x"⟩, .ungrouped "b", ⟨"c", "x"⟩]).ruleGroups = [0, 1, 0] := by decide

variable {S : Type} {n : Nat} {params : Params S} {s s' : State S n}

section Loops
variable (group : Nat)

theorem spawnFrom_ne_startRound (w : Nat) : spawnFrom n w ≠ .startRound group :=
  spawnFrom_cases (fun pc => pc ≠ .startRound group) w (fun _ => by simp) fun _ => by simp

theorem joinFrom_ne_startRound (exit : Option Exn) (w : Nat) :
    joinFrom n exit w ≠ .startRound group :=
  joinFrom_cases (fun pc => pc ≠ .startRound group) exit w (fun _ => by simp) fun _ => by simp

theorem checkFrom_ne_startRound (phase : Phase) (index : Nat) :
    checkFrom params n phase index ≠ .startRound group :=
  checkFrom_cases params phase index (fun pc => pc ≠ .startRound group) (fun _ => by simp)
    (fun _ => by simp) (spawnFrom_ne_startRound group 0) (by simp) (by simp)

end Loops

/-- A step that brings the main thread to the start of a round has chosen its group. -/
theorem MainStep.chosen (h : MainStep params s s') {group : Nat}
    (hPc : s'.main = .startRound group) : s'.currentGroup = group := by
  have hCheck (phase : Phase) (index : Nat) :
      checkFrom params n phase index ≠ .startRound group :=
    checkFrom_ne_startRound group phase index
  cases h with
  | nextGroup group' hNext hGroup => exact MainPc.startRound.inj hPc
  | create hCreate hArguments hMin hMax => exact (hCheck .initial 0 hPc).elim
  | sample index selected hSample =>
      cases selected with
      | false => exact (hCheck .joined (index + 1) hPc).elim
      | true => cases hPc
  | evaluate phase index invariant hEvaluate hInvariant hHolds =>
      exact (hCheck phase (index + 1) hPc).elim
  | violate phase index invariant e hViolate hInvariant hViolated => cases phase <;> cases hPc
  | spawn w hSpawn => exact (spawnFrom_ne_startRound group (w + 1) hPc).elim
  | spawnFails w e hSpawn => by_cases hFirst : (w : Nat) = 0 <;> simp [hFirst] at hPc
  | nextGroupDone hNext => exact (hCheck .final 0 hPc).elim
  | scan hScan hOutcome => exact (hCheck .joined 0 hPc).elim
  | notifyStop exit hNotify => exact (joinFrom_ne_startRound group exit 0 hPc).elim
  | join exit w hJoin hExited => exact (joinFrom_ne_startRound group exit (w + 1) hPc).elim
  | _ => cases hPc

/-- The round that is running is the one that was running, if none has started. -/
theorem MainStep.sameRound (h : MainStep params s s') (hRunning : s'.main.running = true) :
    (∃ group, s.main = .startRound group) ∨ s.main.running = true ∧
      s'.currentGroup = s.currentGroup ∧ s'.roundNumber = s.roundNumber := by
  have hNot (hIdle : s'.main.running = false) {p : Prop} : p := by
    rw [hIdle] at hRunning
    cases hRunning
  cases h.effect with
  | quiet hSame hEvents hMain hFailed hRaised => exact hNot hMain.running'
  | leave e hSame hEvents hIdle hStopping hEnded hBefore hMain hRaised hFailed =>
      exact hNot (by rw [hMain]; rfl)
  | terminate w e hPc hLater hEq => exact hNot (by rw [hEq]; rfl)
  | spawn w hPc hEq => exact hNot (by simp [hEq])
  | startRound group hPc hEq => exact .inl ⟨group, hPc⟩
  | notifyStart hPc hEq => exact .inr ⟨by rw [hPc]; rfl, by rw [hEq], by rw [hEq]⟩
  | allDone hPc hAll hEq => exact hNot (by rw [hEq]; rfl)
  | blockDone hPc hSome hEq => exact .inr ⟨by rw [hPc]; rfl, by rw [hEq], by rw [hEq]⟩
  | setStop exit hPc hEq => exact hNot (by rw [hEq]; rfl)
  | notifyStop exit hPc hEq => exact hNot (by simp [hEq])
  | join exit w hPc hExited hEq => exact hNot (by simp [hEq])

/-- A worker leaves the choice of the round and its number alone. -/
theorem WorkerStep.sameRound {w : Fin n} (h : WorkerStep params w s s') :
    s'.currentGroup = s.currentGroup ∧ s'.roundNumber = s.roundNumber ∧
      s'.main.running = s.main.running ∧
      ∀ group, s'.main = .startRound group → s.main = .startRound group := by
  have hRound : s'.currentGroup = s.currentGroup ∧ s'.roundNumber = s.roundNumber := by
    cases h.effect with
    | free hSame hMain hEvents hGroup => exact ⟨hGroup, hSame.roundNumber⟩
    | move worker hSame hMain hEvents hGroup hMoves => exact ⟨hGroup, hSame.roundNumber⟩
    | enter hPc hStop hNew hEq => exact ⟨by rw [hEq]; rfl, by rw [hEq]; rfl⟩
    | store event hPc hEq => exact ⟨by rw [hEq]; rfl, by rw [hEq]; rfl⟩
    | notify hPc hEq => exact ⟨by rw [hEq]; rfl, by rw [hEq]; rfl⟩
  refine ⟨hRound.1, hRound.2, ?_⟩
  rcases h.frame.main with hMain | ⟨hMain, hMain'⟩
  · rw [hMain]
    exact ⟨rfl, fun _ hPc => hPc⟩
  · rw [hMain, hMain']
    exact ⟨rfl, fun _ hPc => by cases hPc⟩

/-- The lines the header of the round `k` emitted. -/
def headerLines (k : Nat) (lines : List WorkerOutputLine) : List WorkerOutputLine :=
  lines.filter fun line => line.emitter = .header k

theorem headerLines_append (k : Nat) (lines new : List WorkerOutputLine) :
    headerLines k (lines ++ new) = headerLines k lines ++ headerLines k new := List.filter_append ..

theorem headerLines_eq_nil {k : Nat} {lines : List WorkerOutputLine}
    (h : ∀ line ∈ lines, line.emitter ≠ .header k) : headerLines k lines = [] :=
  List.filter_eq_nil_iff.mpr fun line hMem => by simpa using h line hMem

theorem headerLines_note (data : TestCaseData) (elapsed text : String) (k : Nat) :
    headerLines k (data.note elapsed text (.header k)) = data.note elapsed text (.header k) :=
  List.filter_eq_self.mpr fun line hMem => by simpa using (TestCaseData.of_mem_note hMem).2.1

/-- The header of the round that is running is all there is of its number, and
names the group that was chosen. -/
structure HeaderNamed (params : Params S) (s : State S n) : Prop where
  chosen : ∀ group, s.main = .startRound group → s.currentGroup = group
  past : ∀ line ∈ s.outputLines, ∀ k, line.emitter = .header k → k ≤ s.rounds
  current : s.main.running = true → headerLines s.rounds s.outputLines =
    params.root.note "" (State.header params s.currentGroup s.roundNumber) (.header s.rounds)

namespace HeaderNamed

/-- A step that starts no round and emits no header. -/
theorem frame (h : HeaderNamed params s) {new : List WorkerOutputLine}
    (hLines : s'.outputLines = s.outputLines ++ new)
    (hNew : ∀ line ∈ new, ∀ k, line.emitter ≠ .header k) (hRounds : s'.rounds = s.rounds)
    (hChosen : ∀ group, s'.main = .startRound group → s'.currentGroup = group)
    (hCurrent : s'.main.running = true → s.main.running = true ∧
      s'.currentGroup = s.currentGroup ∧ s'.roundNumber = s.roundNumber) :
    HeaderNamed params s' where
  chosen := hChosen
  past line hMem k hEmitter := by
    rw [hLines] at hMem
    rcases List.mem_append.mp hMem with hOld | hMem
    · exact hRounds ▸ h.past line hOld k hEmitter
    · exact absurd hEmitter (hNew line hMem k)
  current hRunning := by
    obtain ⟨hBefore, hGroup, hNumber⟩ := hCurrent hRunning
    have hNone : headerLines s.rounds new = [] :=
      headerLines_eq_nil fun line hMem => hNew line hMem s.rounds
    rw [hRounds, hLines, hGroup, hNumber, headerLines_append, hNone, List.append_nil,
      h.current hBefore]

theorem mainStep (h : HeaderNamed params s) (hStep : MainStep params s s') :
    HeaderNamed params s' := by
  cases hStep.output with
  | silent hLines hRounds hRunning =>
      refine h.frame (hLines.trans (List.append_nil _).symm) (by simp) hRounds
        (fun group => hStep.chosen) fun hRunning' => ?_
      refine (hStep.sameRound hRunning').resolve_left ?_
      rintro ⟨group, hPc⟩
      rw [hPc] at hRunning
      cases hRunning hRunning'
  | notes new hLines hRounds hIdle hIdle' hNew =>
      refine h.frame hLines (fun line hMem k => ?_) hRounds (fun group => hStep.chosen) ?_
      · obtain ⟨text, hNote⟩ := hNew line hMem
        rw [(TestCaseData.of_mem_note hNote).2.1]
        simp
      · simp [hIdle']
  | header group hPc hEq =>
      subst hEq
      have hGroup := h.chosen group hPc
      refine ⟨(fun _ hStart => by cases hStart), fun line hMem k hEmitter => ?_, fun _ => ?_⟩
      · rcases List.mem_append.mp hMem with hOld | hMem
        · exact Nat.le_succ_of_le (h.past line hOld k hEmitter)
        · rw [(TestCaseData.of_mem_note hMem).2.1] at hEmitter
          exact (Emitter.header.inj hEmitter).ge
      · have hNone : headerLines (s.rounds + 1) s.outputLines = [] :=
          headerLines_eq_nil fun line hMem hEmitter =>
            Nat.not_succ_le_self _ (h.past line hMem _ hEmitter)
        show headerLines (s.rounds + 1) (s.outputLines ++ params.root.note ""
          (State.header params group (s.roundNumber + 1)) (.header (s.rounds + 1))) =
            params.root.note "" (State.header params s.currentGroup (s.roundNumber + 1))
              (.header (s.rounds + 1))
        rw [headerLines_append, hNone, headerLines_note, hGroup, List.nil_append]

theorem workerStep (h : HeaderNamed params s) {w : Fin n} (hStep : WorkerStep params w s s') :
    HeaderNamed params s' := by
  obtain ⟨hGroup, hNumber, hRunning, hPc⟩ := hStep.sameRound
  have hChosen : ∀ group, s'.main = .startRound group → s'.currentGroup = group :=
    fun group hStart => hGroup.trans (h.chosen group (hPc group hStart))
  cases hStep.output with
  | silent hLines hRounds =>
      exact h.frame (hLines.trans (List.append_nil _).symm) (by simp) hRounds hChosen
        fun hRunning' => ⟨hRunning ▸ hRunning', hGroup, hNumber⟩
  | emits depth indent elapsed text hIn hRounds hLines =>
      refine h.frame hLines (fun line hMem k => ?_) hRounds hChosen
        fun hRunning' => ⟨hRunning ▸ hRunning', hGroup, hNumber⟩
      rw [(TestCaseData.of_mem_note hMem).2.1]
      simp

theorem reachable (h : (runConcurrent params n).Reachable s) : HeaderNamed params s := by
  refine h.invariant (fun s hInit => ?_) fun s s' _ hInv hStep => ?_
  · refine ⟨?_, ?_, ?_⟩
    · simp [hInit.main]
    · simp [hInit.outputLines]
    · simp [hInit.main, MainPc.running]
  · cases hStep with
    | main hStep => exact hInv.mainStep hStep
    | worker w hStep => exact hInv.workerStep hStep
    | spurious hStep =>
        cases hStep with
        | main hPc =>
            exact ⟨by simp, hInv.past, fun _ => hInv.current (by rw [hPc]; rfl)⟩
        | worker w hPc => exact ⟨hInv.chosen, hInv.past, hInv.current⟩

end HeaderNamed

/-- While a rule runs, the header of the round names the rule's group, and
nothing else is recorded as that header. -/
theorem headerLines_of_inRule (h : (runConcurrent params n).Reachable s) {w : Fin n} {index : Nat}
    {rule : RuleDecl} (hPc : (s.workers w).pc = .inRule index)
    (hRule : params.rules[index]? = some rule) :
    headerLines s.rounds s.outputLines =
      params.root.note "" (headerText s.roundNumber rule.group) (.header s.rounds) := by
  have hRunning := ((roundDiscipline h).within w (by rw [hPc]; rfl)).1
  obtain ⟨rule', hRule', hName⟩ := groupNames_ruleGroups (Grouped.reachable h w index hPc)
  have hText : State.header params s.currentGroup s.roundNumber =
      headerText s.roundNumber rule.group := by
    obtain rfl : rule = rule' := Option.some.inj (hRule.symm.trans hRule')
    show headerText s.roundNumber (params.groupNames.getD s.currentGroup "") = _
    rw [List.getD_eq_getElem?_getD, hName, Option.getD_some]
  rw [(HeaderNamed.reachable h).current hRunning, hText]

/-- The counter's rules are in one group. -/
theorem headerLines_of_inRule_counter : ∃ s : State Nat 2,
    (∀ w, (s.workers w).pc = .inRule 0) ∧ headerLines s.rounds s.outputLines =
      counter.root.note "" (headerText s.roundNumber "writers") (.header s.rounds) := by
  obtain ⟨s, hReachable, hPc, _⟩ := counter_inRule
  have hRule : counter.rules[0]? = some { name := "increment", group := "writers" } := rfl
  have hLines := headerLines_of_inRule hReachable (hPc 1) hRule
  exact ⟨s, hPc, hLines⟩

end Hegel.Concurrent
