import HegelCpp.Logic.Monitor
import HegelCpp.Engine.Calls
import Mathlib.Data.Finset.Basic
import Mathlib.Data.List.AList

/-! `ConcurrentPool` and its two generators. The engine keeps the ids of the
pool and the client the values. Every operation holds the pool's mutex over
both the call to the engine and the change of the values. -/
namespace Hegel.ConcurrentPool

open Logic

variable {T ι : Type}

/-- `std::map<int64_t, T>`. -/
abbrev Values (T : Type) : Type := AList fun _ : Int => T

/-- `std::map::emplace` keeps the value of a key that is there. -/
def Values.emplace (varId : Int) (value : T) (values : Values T) : Values T :=
  if varId ∈ values then values else values.insert varId value

/-- `ConcurrentPool::add` after its call to the engine. -/
def add (varId : Int) (value : T) (values : Values T) : Values T := values.emplace varId value

/-- `ConcurrentVariablesGenerator::do_draw` after its call to the engine: what
it returns and the values it leaves. `none` is the exception of `at`. -/
def doDraw (consume : Bool) (varId : Int) (values : Values T) : Option (T × Values T) :=
  (values.lookup varId).map fun result =>
    (result, if consume then values.erase varId else values)

/-- What a thread asks of the pool. -/
inductive Operation (T : Type) where
  | add (value : T)
  | draw (consume : Bool)
  | size
  | empty
  deriving Repr

/-- Where a thread stands inside a section: before the call to the engine, or
with the id that the engine answered. -/
inductive Place (T : Type) where
  | entered (operation : Operation T)
  | adding (varId : Int) (value : T)
  | drawing (consume : Bool) (varId : Int)
  deriving Repr

/-- An operation that returned, or the exception of `at`. -/
inductive Event (T : Type) where
  | added (varId : Int) (value : T)
  | reused (varId : Int) (value : T)
  | consumed (varId : Int) (value : T)
  | sized (size : Nat)
  | foundEmpty (answer : Bool)
  | outOfRange (varId : Int)
  deriving DecidableEq, Repr

/-- The two copies of a pool. Ghosts: the ids the engine has handed out, and
the operations so far, the latest first. -/
structure Pool (T : Type) where
  ids : Finset Int := ∅
  values : Values T := ∅
  issued : Finset Int := ∅
  history : List (Event T) := []

def drawn (consume : Bool) (varId : Int) (value : T) : Event T :=
  if consume then .consumed varId value else .reused varId value

/-- The call to the engine in the middle of a section. An id it hands out is
fresh, and it draws an id that it holds. -/
inductive EngineAnswers (pool : Pool T) : Place T → Pool T → Place T → Prop where
  | add (value : T) (varId : Int) (hFresh : varId ∉ pool.issued) :
      EngineAnswers pool (.entered (.add value))
        { pool with ids := insert varId pool.ids, issued := insert varId pool.issued }
        (.adding varId value)
  | draw (consume : Bool) (varId : Int) (hHeld : varId ∈ pool.ids) :
      EngineAnswers pool (.entered (.draw consume))
        { pool with ids := if consume then pool.ids.erase varId else pool.ids }
        (.drawing consume varId)

/-- The end of a section. It may also be left by an exception: of
`raise_for_rc`, of the copy constructor of a value that is reused, or of `at`. -/
inductive Leaves (pool : Pool T) : Place T → Pool T → Prop where
  | addRaises (value : T) (rc : ResultCode) (lastError : String)
      (hRaised : (rc.raised "hegel_pool_add" lastError).isSome) :
      Leaves pool (.entered (.add value)) pool
  | drawRaises (consume : Bool) (rc : ResultCode) (lastError : String)
      (hRaised : (rc.raised "hegel_pool_generate" lastError).isSome) :
      Leaves pool (.entered (.draw consume)) pool
  | added (varId : Int) (value : T) :
      Leaves pool (.adding varId value)
        { pool with values := add varId value pool.values
                    history := .added varId value :: pool.history }
  | drawn (consume : Bool) (varId : Int) (value : T) (values : Values T)
      (hDraw : doDraw consume varId pool.values = some (value, values)) :
      Leaves pool (.drawing consume varId)
        { pool with values, history := drawn consume varId value :: pool.history }
  | copyThrows (varId : Int) (hDraw : (doDraw false varId pool.values).isSome) :
      Leaves pool (.drawing false varId) pool
  | outOfRange (consume : Bool) (varId : Int) (hDraw : doDraw consume varId pool.values = none) :
      Leaves pool (.drawing consume varId)
        { pool with history := .outOfRange varId :: pool.history }
  | size :
      Leaves pool (.entered .size)
        { pool with history := .sized pool.values.keys.length :: pool.history }
  | empty :
      Leaves pool (.entered .empty)
        { pool with history := .foundEmpty pool.values.keys.isEmpty :: pool.history }

/-- The pool under its mutex. -/
def monitor (T : Type) : Monitor (Pool T) (Place T) where
  init := fun pool => pool = {}
  enter := fun place => ∃ operation, place = .entered operation
  step := EngineAnswers
  leave := Leaves

/-! What was added and consumed, as the operations record it. -/

def Event.added? : Event T → Option (Int × T)
  | .added varId value => some (varId, value)
  | _ => none

def Event.consumed? : Event T → Option (Int × T)
  | .consumed varId value => some (varId, value)
  | _ => none

def addedValues (history : List (Event T)) : Multiset (Int × T) := history.filterMap Event.added?

def consumedValues (history : List (Event T)) : Multiset (Int × T) :=
  history.filterMap Event.consumed?

def Values.held (values : Values T) : Multiset (Int × T) :=
  (values.entries.map fun entry => (entry.1, entry.2) : List (Int × T))

/-- An event is right after those before it. A draw returns a value that was
added under its id and that no draw has consumed; an id is added once. -/
def Event.Right (earlier : List (Event T)) : Event T → Prop
  | .added varId _ => ∀ value, .added varId value ∉ earlier
  | .reused varId value | .consumed varId value =>
      .added varId value ∈ earlier ∧ ∀ value, .consumed varId value ∉ earlier
  | .sized size => size + (consumedValues earlier).card = (addedValues earlier).card
  | .foundEmpty answer =>
      answer = decide ((consumedValues earlier).card = (addedValues earlier).card)
  | .outOfRange _ => False

def Legal : List (Event T) → Prop
  | [] => True
  | event :: earlier => event.Right earlier ∧ Legal earlier

/-- The keys of the map. -/
def Values.ids (values : Values T) : Finset Int := values.keys.toFinset

/-- How the engine's ids and the client's stand to each other while a thread
is at a place. Between sections they are equal. -/
def Place.Agrees (ids keys : Finset Int) : Place T → Prop
  | .entered _ => keys = ids
  | .adding varId _ => varId ∉ keys ∧ insert varId keys = ids
  | .drawing consume varId => varId ∈ keys ∧ (if consume then keys.erase varId else keys) = ids

@[simp] theorem mem_addedValues {history : List (Event T)} {varId : Int} {value : T} :
    (varId, value) ∈ addedValues history ↔ .added varId value ∈ history := by
  simp only [addedValues, Multiset.mem_coe, List.mem_filterMap]
  constructor
  · rintro ⟨event, hEvent, hAdded⟩
    cases event <;> simp_all [Event.added?]
  · intro hEvent
    exact ⟨_, hEvent, rfl⟩

@[simp] theorem addedValues_drawn (consume : Bool) (varId : Int) (value : T)
    (history : List (Event T)) :
    addedValues (drawn consume varId value :: history) = addedValues history := by
  cases consume <;> rfl

@[simp] theorem consumedValues_drawn (consume : Bool) (varId : Int) (value : T)
    (history : List (Event T)) :
    consumedValues (drawn consume varId value :: history) =
      if consume then (varId, value) ::ₘ consumedValues history else consumedValues history := by
  cases consume <;> rfl

theorem Values.held_emplace {values : Values T} {varId : Int} (hFresh : varId ∉ values)
    (value : T) : (values.emplace varId value).held = (varId, value) ::ₘ values.held := by
  rw [emplace, if_neg hFresh, held, AList.entries_insert_of_notMem hFresh]
  rfl

theorem Values.held_erase {values : Values T} {varId : Int} {value : T}
    (hLookup : values.lookup varId = some value) :
    values.held = (varId, value) ::ₘ Values.held (values.erase varId) := by
  have hMem : varId ∈ values := AList.lookup_isSome.mp (by simp [hLookup])
  obtain ⟨other, front, back, hFront, hEntries, hErase⟩ := List.exists_of_kerase hMem
  obtain rfl : other = value := by
    have hOther : other ∈ values.lookup varId := AList.mem_lookup_iff.mpr (by simp [hEntries])
    simpa [hLookup, eq_comm] using hOther
  have hErased : (values.erase varId).entries = front ++ back := hErase
  simp [held, hErased, hEntries, List.perm_middle]

@[simp] theorem Values.mem_ids {values : Values T} {varId : Int} :
    varId ∈ values.ids ↔ varId ∈ values := by simp [ids, AList.mem_keys]

theorem Values.ids_emplace (values : Values T) (varId : Int) (value : T) :
    (values.emplace varId value).ids = insert varId values.ids := by
  ext other
  by_cases hMem : varId ∈ values
  · simp [emplace, hMem]
  · simp [emplace, hMem]

theorem Values.ids_erase (values : Values T) (varId : Int) :
    Values.ids (values.erase varId) = values.ids.erase varId := by
  ext other
  simp

theorem Values.card_held (values : Values T) : values.held.card = values.keys.length := by
  simp [held, AList.keys, List.keys]

/-- What the operations so far and the values in the map have to do with each
other and with the ids the engine has handed out. -/
structure Recorded (issued : Finset Int) (values : Values T) (history : List (Event T)) :
    Prop where
  legal : Legal history
  conserved : addedValues history = consumedValues history + values.held
  unconsumed : ∀ varId ∈ values, ∀ value, Event.consumed varId value ∉ history
  issued : ∀ varId value, Event.added varId value ∈ history → varId ∈ issued

variable {issued : Finset Int} {values : Values T} {history : List (Event T)}

theorem Legal.added_of_consumed (h : Legal history) {varId : Int} {value : T}
    (hConsumed : Event.consumed varId value ∈ history) :
    Event.added varId value ∈ history := by
  induction history with
  | nil => cases hConsumed
  | cons event earlier ih =>
      cases hConsumed with
      | head => exact List.mem_cons_of_mem _ h.1.1
      | tail _ hEarlier => exact List.mem_cons_of_mem _ (ih h.2 hEarlier)

namespace Recorded

theorem empty : Recorded ∅ (∅ : Values T) [] where
  legal := trivial
  conserved := rfl
  unconsumed := fun _ hMem => absurd hMem (AList.notMem_empty _)
  issued := nofun

theorem added_of_lookup (h : Recorded issued values history) {varId : Int} {value : T}
    (hLookup : values.lookup varId = some value) : Event.added varId value ∈ history := by
  rw [← mem_addedValues, h.conserved, Values.held_erase hLookup]
  simp

theorem card_eq (h : Recorded issued values history) :
    values.keys.length + (consumedValues history).card = (addedValues history).card := by
  rw [h.conserved, Multiset.card_add, Values.card_held, Nat.add_comm]

theorem keys_issued (h : Recorded issued values history) : values.ids ⊆ issued := by
  intro varId hMem
  obtain ⟨value, hLookup⟩ := Option.isSome_iff_exists.mp
    (AList.lookup_isSome.mpr (Values.mem_ids.mp hMem))
  exact h.issued varId value (h.added_of_lookup hLookup)

theorem issue (h : Recorded issued values history) (varId : Int) :
    Recorded (insert varId issued) values history :=
  { h with issued := fun _ _ hAdded => Finset.mem_insert_of_mem (h.issued _ _ hAdded) }

/-- An event that adds and consumes nothing is recorded if it is right. -/
theorem observe (h : Recorded issued values history) (event : Event T)
    (hRight : event.Right history) (hAdded : event.added? = none)
    (hConsumed : event.consumed? = none) : Recorded issued values (event :: history) where
  legal := ⟨hRight, h.legal⟩
  conserved := by
    simpa [addedValues, consumedValues, List.filterMap_cons, hAdded, hConsumed] using h.conserved
  unconsumed := by
    intro varId hMem value hEvent
    cases hEvent with
    | head => cases hConsumed
    | tail _ hEarlier => exact h.unconsumed varId hMem value hEarlier
  issued := by
    intro varId value hEvent
    cases hEvent with
    | head => cases hAdded
    | tail _ hEarlier => exact h.issued varId value hEarlier

theorem add (h : Recorded issued values history) {varId : Int} (value : T)
    (hIssued : varId ∈ issued) (hAbsent : varId ∉ values)
    (hFresh : ∀ value, Event.added varId value ∉ history) :
    Recorded issued (add varId value values) (.added varId value :: history) where
  legal := ⟨hFresh, h.legal⟩
  conserved := by
    have hHeld := Values.held_emplace hAbsent value
    calc addedValues (.added varId value :: history)
        = (varId, value) ::ₘ addedValues history := rfl
      _ = consumedValues history + (varId, value) ::ₘ values.held := by
          rw [h.conserved, Multiset.add_cons]
      _ = consumedValues (.added varId value :: history) +
            (ConcurrentPool.add varId value values).held := by
          rw [ConcurrentPool.add, hHeld]; rfl
  unconsumed := by
    intro other hMem found hEvent
    have hConsumed : Event.consumed other found ∈ history := by simpa using hEvent
    rw [← Values.mem_ids, ConcurrentPool.add, Values.ids_emplace, Finset.mem_insert] at hMem
    obtain rfl | hOld := hMem
    · exact hFresh found (h.legal.added_of_consumed hConsumed)
    · exact h.unconsumed other (Values.mem_ids.mp hOld) found hConsumed
  issued := by
    intro other found hEvent
    cases hEvent with
    | head => exact hIssued
    | tail _ hEarlier => exact h.issued other found hEarlier

/-- A draw that finds its id in the map. -/
theorem draw (h : Recorded issued values history) {consume : Bool} {varId : Int} {value : T}
    {values' : Values T} (hDraw : doDraw consume varId values = some (value, values')) :
    Recorded issued values' (drawn consume varId value :: history) := by
  simp only [doDraw, Option.map_eq_some_iff, Prod.mk.injEq] at hDraw
  obtain ⟨found, hLookup, rfl, rfl⟩ := hDraw
  have hMem : varId ∈ values := AList.lookup_isSome.mp (by simp [hLookup])
  have hRight := And.intro (h.added_of_lookup hLookup) (h.unconsumed varId hMem)
  cases consume with
  | false => exact h.observe _ hRight rfl rfl
  | true =>
      refine ⟨⟨hRight, h.legal⟩, ?_, ?_, ?_⟩
      · rw [addedValues_drawn, consumedValues_drawn, h.conserved, Values.held_erase hLookup]
        simp
      · intro other hOther value hEvent
        obtain ⟨hNe, hOld⟩ := AList.mem_erase.mp hOther
        cases hEvent with
        | head => exact hNe rfl
        | tail _ hEarlier => exact h.unconsumed other hOld value hEarlier
      · intro other value hEvent
        cases hEvent with
        | tail _ hEarlier => exact h.issued other value hEarlier

end Recorded

/-- What holds of a pool between two sections. -/
structure Settled (pool : Pool T) : Prop where
  recorded : Recorded pool.issued pool.values pool.history
  agrees : pool.values.ids = pool.ids

/-- What holds of a pool while a thread is at a place inside a section. -/
structure Working (place : Place T) (pool : Pool T) : Prop where
  recorded : Recorded pool.issued pool.values pool.history
  agrees : place.Agrees pool.ids pool.values.ids
  fresh : ∀ varId value, place = .adding varId value →
    varId ∈ pool.issued ∧ ∀ value, Event.added varId value ∉ pool.history

theorem Working.of_settled {pool : Pool T} (h : Settled pool) (operation : Operation T) :
    Working (.entered operation) pool where
  recorded := h.recorded
  agrees := h.agrees
  fresh := nofun

theorem Working.answers {pool pool' : Pool T} {place place' : Place T} (h : Working place pool)
    (hStep : EngineAnswers pool place pool' place') : Working place' pool' := by
  have hAgrees : pool.values.ids = pool.ids := by cases hStep <;> exact h.agrees
  cases hStep with
  | add value varId hFresh =>
      refine ⟨h.recorded.issue varId, ⟨?_, ?_⟩, ?_⟩
      · exact fun hMem => hFresh (h.recorded.keys_issued hMem)
      · rw [hAgrees]
      · intro added found hPlace
        cases hPlace
        refine ⟨Finset.mem_insert_self _ _, fun value hAdded => ?_⟩
        exact hFresh (h.recorded.issued _ _ hAdded)
  | draw consume varId hHeld =>
      refine ⟨h.recorded, ⟨?_, ?_⟩, nofun⟩
      · rwa [hAgrees]
      · rw [hAgrees]

/-- `at` finds the id that the engine drew. -/
theorem Working.doDraw_isSome {pool : Pool T} {consume : Bool} {varId : Int}
    (h : Working (.drawing consume varId) pool) :
    (doDraw consume varId pool.values).isSome := by
  rw [doDraw, Option.isSome_map, AList.lookup_isSome]
  exact Values.mem_ids.mp h.agrees.1

theorem doDraw_ids {consume : Bool} {varId : Int} {values values' : Values T} {value : T}
    (hDraw : doDraw consume varId values = some (value, values')) :
    values'.ids = if consume then values.ids.erase varId else values.ids := by
  simp only [doDraw, Option.map_eq_some_iff, Prod.mk.injEq] at hDraw
  obtain ⟨found, hLookup, rfl, rfl⟩ := hDraw
  cases consume with
  | false => rfl
  | true => exact Values.ids_erase values varId

theorem Working.leaves {pool pool' : Pool T} {place : Place T} (h : Working place pool)
    (hLeaves : Leaves pool place pool') : Settled pool' := by
  cases hLeaves with
  | addRaises value rc lastError hRaised => exact ⟨h.recorded, h.agrees⟩
  | drawRaises consume rc lastError hRaised => exact ⟨h.recorded, h.agrees⟩
  | added varId value =>
      obtain ⟨hIssued, hFresh⟩ := h.fresh varId value rfl
      have hAbsent : varId ∉ pool.values := fun hMem => h.agrees.1 (Values.mem_ids.mpr hMem)
      exact ⟨h.recorded.add value hIssued hAbsent hFresh,
        (Values.ids_emplace _ _ _).trans h.agrees.2⟩
  | drawn consume varId value values hDraw =>
      exact ⟨h.recorded.draw hDraw, (doDraw_ids hDraw).trans h.agrees.2⟩
  | copyThrows varId hDraw => exact ⟨h.recorded, h.agrees.2⟩
  | outOfRange consume varId hDraw =>
      have hFound := h.doDraw_isSome
      simp [hDraw] at hFound
  | size => exact ⟨h.recorded.observe _ h.recorded.card_eq rfl rfl, h.agrees⟩
  | empty =>
      have hCard := h.recorded.card_eq
      refine ⟨h.recorded.observe _ ?_ rfl rfl, h.agrees⟩
      rw [Event.Right, Bool.eq_iff_iff, List.isEmpty_iff_length_eq_zero, decide_eq_true_iff]
      omega

theorem keeps_settled : Monitor.Keeps (monitor T) Settled Working where
  init := by
    rintro _ rfl
    exact ⟨.empty, rfl⟩
  enter := by
    rintro _ pool ⟨operation, rfl⟩ hSettled
    exact .of_settled hSettled operation
  step := fun _ _ _ _ hStep hWorking => hWorking.answers hStep
  leave := fun _ _ _ hLeaves hWorking => hWorking.leaves hLeaves

/-- A thread that reuses a value changes neither copy of the pool. -/
theorem reusing_unchanged {pool pool' : Pool T} {place : Place T}
    (hPlace : place = .entered (.draw false) ∨ ∃ varId, place = .drawing false varId)
    (hStep : (∃ place', EngineAnswers pool place pool' place') ∨ Leaves pool place pool') :
    pool'.ids = pool.ids ∧ pool'.values = pool.values := by
  obtain ⟨place', hAnswers⟩ | hLeaves := hStep
  · cases hAnswers with
    | add value varId hFresh => simp at hPlace
    | draw consume varId hHeld =>
        obtain rfl : consume = false := by simpa using hPlace
        exact ⟨rfl, rfl⟩
  · cases hLeaves with
    | added varId value => simp at hPlace
    | drawn consume varId value values hDraw =>
        obtain rfl : consume = false := by simpa using hPlace
        simp only [doDraw, Option.map_eq_some_iff, Prod.mk.injEq] at hDraw
        obtain ⟨found, hLookup, rfl, rfl⟩ := hDraw
        exact ⟨rfl, rfl⟩
    | _ => exact ⟨rfl, rfl⟩

variable [DecidableEq ι]

/-- Whatever the threads do in whatever order: the two copies of the pool
agree, `at` finds what the engine drew, every value added is consumed once or
still there, and every operation returned what it should. -/
theorem concurrentPool_conserves {s : Monitor.State ι (Pool T) (Place T)}
    (hReachable : ((monitor T).system ι).Reachable s) :
    (s.mutex = none → s.shared.values.ids = s.shared.ids) ∧
    (∀ i place, s.places i = some place →
      s.mutex = some i ∧ place.Agrees s.shared.ids s.shared.values.ids) ∧
    (∀ i consume varId, s.places i = some (.drawing consume varId) →
      (doDraw consume varId s.shared.values).isSome) ∧
    addedValues s.shared.history = consumedValues s.shared.history + s.shared.values.held ∧
    Legal s.shared.history ∧
    s.shared.values.keys.length + (consumedValues s.shared.history).card =
      (addedValues s.shared.history).card ∧
    ∀ s', ((monitor T).system ι).step s s' → ∀ i place, s.places i = some place →
      place = .entered (.draw false) ∨ (∃ varId, place = .drawing false varId) →
      s'.shared.ids = s.shared.ids ∧ s'.shared.values = s.shared.values := by
  obtain ⟨hSettled, hWorking⟩ := keeps_settled.reachable hReachable
  have hRecorded : Recorded s.shared.issued s.shared.values s.shared.history :=
    keeps_settled.always (fun _ h => h.recorded) (fun _ _ h => h.recorded) hReachable
  refine ⟨fun hFree => (hSettled hFree).agrees, fun i place hPlace => ?_, ?_,
    hRecorded.conserved, hRecorded.legal, hRecorded.card_eq, ?_⟩
  · exact ⟨Monitor.places_exclusive hReachable hPlace, (hWorking i place hPlace).agrees⟩
  · intro i consume varId hPlace
    exact (hWorking i _ hPlace).doDraw_isSome
  · intro s' hStep i place hPlace hReusing
    exact reusing_unchanged hReusing (Monitor.Step.inside_own hReachable hStep hPlace)

/-- One thread added 10, another reused it, and the first consumed it. -/
def afterThreeSections : Pool Int where
  issued := {0}
  history := [.consumed 0 10, .reused 0 10, .added 0 10]

theorem afterThreeSections_reachable :
    ((monitor Int).system Bool).Reachable (.idle Bool afterThreeSections) := by
  have hInit : ((monitor Int).system Bool).Reachable (.idle Bool {}) :=
    .init ⟨rfl, rfl, fun _ => rfl⟩
  have hAdded := Monitor.reachable_section hInit true ⟨.add 10, rfl⟩
    (.add 10 0 (Finset.notMem_empty 0)) (.added 0 10)
  have hReused := Monitor.reachable_section hAdded false ⟨.draw false, rfl⟩
    (.draw false 0 (by decide)) (.drawn false 0 10 _ rfl)
  exact Monitor.reachable_section hReused true ⟨.draw true, rfl⟩
    (.draw true 0 (by decide)) (.drawn true 0 10 _ rfl)

theorem concurrentPool_conserves_afterThreeSections :
    addedValues afterThreeSections.history = {(0, 10)} ∧
      afterThreeSections.values.held = 0 ∧ Legal afterThreeSections.history :=
  ⟨rfl, rfl, (concurrentPool_conserves afterThreeSections_reachable).2.2.2.2.1⟩

end Hegel.ConcurrentPool
