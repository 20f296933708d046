import HegelCpp.Exception
import HegelCpp.Report.Output
import Mathlib.Data.List.TakeWhile

/-! The database key of a test. Each way to start a test derives a key of its
own from the file and the name; the engine reads it as a C string, seeds
derandomized runs with it and stores examples under it. -/
namespace Hegel.DatabaseKey

/-! The settings. -/

inductive HealthCheck where
  | filterTooMuch
  | tooSlow
  | testCasesTooLarge
  | largeInitialTestCase
  deriving DecidableEq, Repr

inductive Phase where
  | explicit
  | reuse
  | generate
  | target
  | shrink
  deriving DecidableEq, Repr

inductive Backend where
  | auto
  | default
  | urandom
  deriving DecidableEq, Repr

/-- `Database`, by its kind. -/
inductive Database where
  | unset
  | disabled
  | path (root : String)
  deriving DecidableEq, Repr

/-- The fields of `Settings` that `apply_settings` reads. The defaults of
`derandomize` and `database` depend on `inCi`. -/
structure Settings where
  testCases : Option UInt64 := none
  verbosity : Verbosity := .normal
  seed : Option UInt64 := none
  derandomize : Bool
  reportMultipleFailures : Bool := false
  database : Database
  databaseKey : Option String := none
  suppressHealthCheck : List HealthCheck := []
  phases : List Phase := [.explicit, .reuse, .generate, .target, .shrink]
  backend : Backend := .auto
  statefulStepCount : Int := 50
  deriving DecidableEq, Repr

/-- `Settings{}`. -/
def Settings.default (inCi : Bool) : Settings where
  derandomize := inCi
  database := if inCi then .disabled else .unset

/-- A text that a callee gets as a `const char*`. -/
structure CString where
  text : String
  noNul : '\x00' ∉ text.toList
  deriving DecidableEq

/-- `std::string::c_str`, as the callee reads it: up to the first NUL. -/
def cStr (text : String) : CString where
  text := String.ofList (text.toList.takeWhile (· ≠ '\x00'))
  noNul := by
    rw [String.toList_ofList]
    intro hMem
    simpa using List.mem_takeWhile_imp hMem

/-! What reaches the engine. -/

def HealthCheck.mask : HealthCheck → UInt32
  | filterTooMuch => 1
  | tooSlow => 2
  | testCasesTooLarge => 4
  | largeInitialTestCase => 8

def Phase.mask : Phase → UInt32
  | explicit => 1
  | reuse => 2
  | generate => 4
  | target => 8
  | shrink => 16

/-- A call of a `hegel_settings_set_` function. -/
inductive SetterCall where
  | testCases (n : UInt64)
  | verbosity (verbosity : Verbosity)
  | seed (seed : UInt64) (hasSeed : Bool)
  | derandomize (on : Bool)
  | reportMultipleFailures (on : Bool)
  | database (root : CString)
  | databaseKey (key : CString)
  | suppressHealthCheck (mask : UInt32)
  | phases (mask : UInt32)
  | backend (backend : Backend)

def databaseCalls : Database → List SetterCall
  | .unset => []
  | .disabled => [.database (cStr "")]
  | .path root => [.database (cStr root)]

/-- `apply_settings`: what it throws, or the setters it calls. They all answer
`HEGEL_OK`. -/
def applySettings (settings : Settings) : Except Exn (List SetterCall) :=
  if settings.statefulStepCount < 1 then
    .error (invalidArgument "Settings::stateful_step_count must be at least 1")
  else
    let suppress := settings.suppressHealthCheck.foldl (fun mask check => mask ||| check.mask) 0
    let phases := settings.phases.foldl (fun mask phase => mask ||| phase.mask) 0
    .ok ((settings.testCases.map .testCases).toList ++
      [.verbosity settings.verbosity,
        .seed (settings.seed.getD 0) settings.seed.isSome,
        .derandomize settings.derandomize,
        .reportMultipleFailures settings.reportMultipleFailures] ++
      databaseCalls settings.database ++
      (settings.databaseKey.map fun key => .databaseKey (cStr key)).toList ++
      (if suppress ≠ 0 then [.suppressHealthCheck suppress] else []) ++
      [.phases phases] ++
      (if settings.backend = .auto then [] else [.backend settings.backend]))

/-- What the engine knows of a test's identity. Without a `database` it keeps
the root of its own settings profile. -/
structure EngineSettings where
  seed : Option UInt64 := none
  derandomize : Bool := false
  database : Option CString := none
  databaseKey : Option CString := none
  deriving DecidableEq

namespace EngineSettings

def receive (engine : EngineSettings) : SetterCall → EngineSettings
  | .seed seed hasSeed => { engine with seed := if hasSeed then some seed else none }
  | .derandomize on => { engine with derandomize := on }
  | .database root => { engine with database := some root }
  | .databaseKey key => { engine with databaseKey := some key }
  | _ => engine

end EngineSettings

/-- Where the engine takes a run's seed from, as `libhegel` documents it. -/
inductive SeedSource where
  | explicit (seed : UInt64)
  | hashed (key : Option CString)
  | fresh
  deriving DecidableEq

namespace EngineSettings

def seedSource (engine : EngineSettings) : SeedSource :=
  match engine.seed with
  | some seed => .explicit seed
  | none => if engine.derandomize then .hashed engine.databaseKey else .fresh

/-- The place of a test's examples. There is none in a disabled database or
without a key. -/
def stored (engine : EngineSettings) : Option (Option CString × CString) :=
  if engine.database = some (cStr "") then none
  else engine.databaseKey.map fun key => (engine.database, key)

end EngineSettings

/-- What `run_test` hands to the engine. -/
def received (settings : Settings) : Except Exn EngineSettings :=
  (applySettings settings).map fun calls => calls.foldl EngineSettings.receive {}

/-! The entry points. -/

structure TestLocation where
  name : String
  file : String
  line : Int := 0
  deriving DecidableEq, Repr

/-- An identifier of the language, where the key is concerned. -/
structure Identifier extends CString where
  nonempty : text ≠ ""
  noColon : ':' ∉ text.toList

/-- How a test is started. The framework names the running test, or nothing. -/
inductive Launch where
  | hegelTest (file : CString) (name : Identifier)
  | byCaller (callerFile callerFunction : Option CString) (frameworkName : String)
  | byLocation (location : TestLocation)

/-- `with_default_database_key`. -/
def withDefaultDatabaseKey (settings : Settings) (file : Option CString) (name : String) :
    Settings :=
  if settings.databaseKey.isSome || name.isEmpty || settings.database == .disabled then settings
  else
    { settings with databaseKey := some ((file.map (·.text)).getD "" ++ "::" ++ name) }

namespace Launch

/-- `key_name`. -/
def keyName (callerFunction : Option CString) (frameworkName : String) : String :=
  if frameworkName.isEmpty then (callerFunction.map (·.text)).getD "" else frameworkName

/-- The settings with which an entry point calls `run_test`. -/
def settings (given : Settings) : Launch → Settings
  | hegelTest file name =>
      if given.databaseKey.isSome then given
      else { given with databaseKey := some (file.text ++ "::" ++ name.text) }
  | byCaller callerFile callerFunction frameworkName =>
      withDefaultDatabaseKey given callerFile (keyName callerFunction frameworkName)
  | byLocation location =>
      withDefaultDatabaseKey given (some (cStr location.file)) location.name

/-- What the engine gets of a test. -/
def engine (launch : Launch) (given : Settings) : Except Exn EngineSettings :=
  received (launch.settings given)

end Launch

/-! The identity of a test. -/

structure TestId where
  file : String
  name : String
  deriving DecidableEq, Repr

/-- The file and the name that an entry point knows a test by. -/
def Launch.id : Launch → TestId
  | .hegelTest file name => ⟨file.text, name.text⟩
  | .byCaller callerFile callerFunction frameworkName =>
      ⟨(callerFile.map (·.text)).getD "", keyName callerFunction frameworkName⟩
  | .byLocation location => ⟨location.file, location.name⟩

/-- Two tests whose keys reach the engine and differ, and what they then do not
share: a seed that is a hash of the key, and a place for examples. -/
structure EngineSettings.Separate (engine engine' : EngineSettings) : Prop where
  keys : ∃ key key', engine.databaseKey = some key ∧ engine'.databaseKey = some key' ∧ key ≠ key'
  seeds : ∀ key key', engine.seedSource = .hashed key → engine'.seedSource = .hashed key' →
    key ≠ key'
  examples : ∀ place place', engine.stored = some place → engine'.stored = some place' →
    place ≠ place'

def Separate (run run' : Except Exn EngineSettings) : Prop :=
  ∃ engine engine', run = .ok engine ∧ run' = .ok engine' ∧ engine.Separate engine'

/-- The entry point sets a key. `HEGEL_TEST` does not look at the database. -/
def Launch.Keyed : Launch → Settings → Prop
  | .hegelTest _ _, _ => True
  | .byCaller _ _ _, given | .byLocation _, given => given.database ≠ .disabled

/-- The settings are accepted, and the entry point sets a key. -/
structure Launch.Sends (launch : Launch) (given : Settings) : Prop where
  accepted : 1 ≤ given.statefulStepCount
  keyed : launch.Keyed given

namespace TestId

/-- What the engine can read of an identity. -/
def read (id : TestId) : TestId := ⟨(cStr id.file).text, (cStr id.name).text⟩

/-- A part of the first test's name stands at the end of the second one's file. -/
def Shifted (a b : TestId) : Prop :=
  (b.file = a.file ++ ":" ∧ a.name = ":" ++ b.name) ∨
    ∃ part, b.file = a.file ++ "::" ++ part ∧ a.name = part ++ "::" ++ b.name

/-- The identities are the same to the engine, or they join to the same text. -/
def Mixed (a b : TestId) : Prop :=
  a.read = b.read ∨ a.read.Shifted b.read ∨ b.read.Shifted a.read

def key (id : TestId) : String := id.file ++ "::" ++ id.name

theorem key_of_shifted {a b : TestId} (h : a.Shifted b) : a.key = b.key := by
  rw [key, key]
  rcases h with ⟨hFile, hName⟩ | ⟨part, hFile, hName⟩
  · rw [hFile, hName, String.append_assoc, String.append_assoc, String.append_assoc]
    rfl
  · simp only [hFile, hName, String.append_assoc]

example : (TestId.mk "a" "b::c").key = (TestId.mk "a::b" "c").key := rfl

theorem shifted_of_key {a b : TestId} {part : List Char}
    (hFile : b.file.toList = a.file.toList ++ part)
    (hName : "::".toList ++ a.name.toList = part ++ ("::".toList ++ b.name.toList)) :
    a = b ∨ a.Shifted b := by
  match part, hFile, hName with
  | [], hFile, hName =>
      left
      have hSame := String.toList_injective (hFile.trans (List.append_nil _))
      have hSame' := String.toList_injective (List.append_cancel_left hName)
      cases a
      cases b
      simp_all
  | [c], hFile, hName =>
      obtain ⟨rfl, hRest⟩ : c = ':' ∧ a.name.toList = ':' :: b.name.toList := by
        simpa [eq_comm] using hName
      refine .inr (.inl ⟨String.toList_injective ?_, String.toList_injective ?_⟩)
      · simpa using hFile
      · simpa using hRest
  | c :: d :: part, hFile, hName =>
      obtain ⟨rfl, rfl, hRest⟩ : c = ':' ∧ d = ':' ∧
          a.name.toList = part ++ "::".toList ++ b.name.toList := by
        simpa [eq_comm] using hName
      refine .inr (.inr
        ⟨String.ofList part, String.toList_injective ?_, String.toList_injective ?_⟩)
      · simpa using hFile
      · simpa using hRest

/-- When two identities join to the same text. -/
theorem key_eq_iff {a b : TestId} : a.key = b.key ↔ a = b ∨ a.Shifted b ∨ b.Shifted a := by
  constructor
  · intro hKey
    have hLists : a.file.toList ++ ("::".toList ++ a.name.toList) =
        b.file.toList ++ ("::".toList ++ b.name.toList) := by
      simpa [key] using congrArg String.toList hKey
    rcases List.append_eq_append_iff.mp hLists with ⟨part, hFile, hName⟩ | ⟨part, hFile, hName⟩
    · exact (shifted_of_key hFile hName).imp_right .inl
    · exact (shifted_of_key hFile hName).imp Eq.symm .inr
  · rintro (rfl | hShifted | hShifted)
    · rfl
    · exact key_of_shifted hShifted
    · exact (key_of_shifted hShifted).symm

end TestId

/-! What an entry point sends. -/

theorem CString.ext {a b : CString} (h : a.text = b.text) : a = b := by
  cases a
  cases b
  simp_all

theorem toList_cStr (text : String) :
    (cStr text).text.toList = text.toList.takeWhile (· ≠ '\x00') := String.toList_ofList

/-- A C string is read as it is. -/
@[simp] theorem cStr_text (c : CString) : cStr c.text = c := by
  apply CString.ext
  apply String.toList_injective
  rw [toList_cStr, List.takeWhile_eq_self_iff]
  intro char hMem
  rw [decide_eq_true_eq]
  rintro rfl
  exact c.noNul hMem

/-- The engine reads the key up to a NUL in the name. -/
theorem text_cStr_append (c : CString) (name : String) :
    (cStr (c.text ++ "::" ++ name)).text = c.text ++ "::" ++ (cStr name).text := by
  apply String.toList_injective
  have hFront : ∀ char ∈ (c.text ++ "::").toList, (decide (char ≠ '\x00')) = true := by
    intro char hMem
    rw [String.toList_append, List.mem_append] at hMem
    rw [decide_eq_true_eq]
    rintro rfl
    rcases hMem with hFile | hColons
    · exact c.noNul hFile
    · simp at hColons
  have hRead : (c.text ++ "::" ++ (cStr name).text).toList =
      (c.text ++ "::").toList ++ (cStr name).text.toList := String.toList_append
  rw [toList_cStr, String.toList_append, List.takeWhile_append_of_pos hFront, hRead, toList_cStr]

def Database.root : Database → Option CString
  | unset => none
  | disabled => some (cStr "")
  | path root => some (cStr root)

namespace EngineSettings

/-! What the engine keeps of each group of calls. -/

theorem receive_testCases (engine : EngineSettings) (testCases : Option UInt64) :
    (testCases.map SetterCall.testCases).toList.foldl receive engine = engine := by
  cases testCases <;> rfl

theorem receive_seed (engine : EngineSettings) (seed : Option UInt64) :
    engine.receive (.seed (seed.getD 0) seed.isSome) = { engine with seed := seed } := by
  cases seed <;> rfl

theorem receive_database {engine : EngineSettings} (hNone : engine.database = none)
    (database : Database) : (databaseCalls database).foldl receive engine =
      { engine with database := database.root } := by
  cases database with
  | unset => exact congrArg (fun root => { engine with database := root }) hNone
  | disabled => rfl
  | path root => rfl

theorem receive_databaseKey {engine : EngineSettings} (hNone : engine.databaseKey = none)
    (key : Option String) :
    (key.map fun key => SetterCall.databaseKey (cStr key)).toList.foldl receive engine =
      { engine with databaseKey := key.map cStr } := by
  cases key with
  | none => exact congrArg (fun key => { engine with databaseKey := key }) hNone
  | some key => rfl

theorem receive_suppressHealthCheck (engine : EngineSettings) (mask : UInt32) :
    (if mask ≠ 0 then [SetterCall.suppressHealthCheck mask] else []).foldl receive engine =
      engine := by
  split <;> rfl

theorem receive_backend (engine : EngineSettings) (backend : Backend) :
    (if backend = .auto then [] else [SetterCall.backend backend]).foldl receive engine =
      engine := by
  split <;> rfl

end EngineSettings

open EngineSettings in
theorem received_ok (settings : Settings) (h : 1 ≤ settings.statefulStepCount) :
    received settings = .ok
      { seed := settings.seed
        derandomize := settings.derandomize
        database := settings.database.root
        databaseKey := settings.databaseKey.map cStr } := by
  have hAccepted : ¬settings.statefulStepCount < 1 := Int.not_lt.mpr h
  simp only [received, applySettings, if_neg hAccepted, Except.map, List.foldl_append,
    List.foldl_cons, List.foldl_nil, receive_testCases, receive_seed, receive_suppressHealthCheck,
    receive_backend]
  rw [receive_database rfl, receive_databaseKey rfl]
  rfl

theorem received_error (settings : Settings) (h : settings.statefulStepCount < 1) :
    ∃ e, received settings = .error e := by
  rw [received, applySettings, if_pos h]
  exact ⟨_, rfl⟩

theorem withDefaultDatabaseKey_eq {settings : Settings} (hKey : settings.databaseKey = none)
    (file : Option CString) {name : String} (hName : name ≠ "") :
    withDefaultDatabaseKey settings file name =
      if settings.database = .disabled then settings
      else { settings with databaseKey := some ((file.map (·.text)).getD "" ++ "::" ++ name) } := by
  have hNonempty : name.isEmpty = false := by simpa using hName
  simp [withDefaultDatabaseKey, hKey, hNonempty]

namespace Launch

variable {launch : Launch} {given : Settings}

theorem settings_keyed (hKey : given.databaseKey = none) (hNamed : launch.id.name ≠ "")
    (hKeyed : launch.Keyed given) : launch.settings given =
      { given with
        databaseKey := some ((cStr launch.id.file).text ++ "::" ++ launch.id.name) } := by
  cases launch with
  | hegelTest file name => simp [settings, id, hKey]
  | byCaller callerFile callerFunction frameworkName =>
      have hFile : (cStr ((callerFile.map (·.text)).getD "")).text =
          (callerFile.map (·.text)).getD "" := by
        cases callerFile with
        | none => rfl
        | some file => simp
      have hName : keyName callerFunction frameworkName ≠ "" := hNamed
      rw [settings, withDefaultDatabaseKey_eq hKey callerFile hName, if_neg hKeyed, id, hFile]
  | byLocation location =>
      have hName : location.name ≠ "" := hNamed
      rw [settings, withDefaultDatabaseKey_eq hKey _ hName, if_neg hKeyed]
      rfl

theorem settings_unkeyed (hKey : given.databaseKey = none) (hNamed : launch.id.name ≠ "")
    (hKeyed : ¬launch.Keyed given) : launch.settings given = given := by
  cases launch with
  | hegelTest file name => exact absurd trivial hKeyed
  | byCaller callerFile callerFunction frameworkName =>
      have hName : keyName callerFunction frameworkName ≠ "" := hNamed
      rw [settings, withDefaultDatabaseKey_eq hKey callerFile hName, if_pos (not_not.mp hKeyed)]
  | byLocation location =>
      have hName : location.name ≠ "" := hNamed
      rw [settings, withDefaultDatabaseKey_eq hKey _ hName, if_pos (not_not.mp hKeyed)]

/-- A test that sends a key sends its identity as the engine can read it. -/
theorem engine_sends (hKey : given.databaseKey = none) (hNamed : launch.id.name ≠ "")
    (hSends : launch.Sends given) : ∃ engine key, launch.engine given = .ok engine ∧
      engine.databaseKey = some key ∧ key.text = launch.id.read.key := by
  rw [Launch.engine, settings_keyed hKey hNamed hSends.keyed]
  exact ⟨_, _, received_ok _ hSends.accepted, rfl, text_cStr_append _ _⟩

/-- A test that sends none is refused, or runs without. -/
theorem sends_of_engine {engine : EngineSettings} {key : CString}
    (hKey : given.databaseKey = none) (hNamed : launch.id.name ≠ "")
    (hEngine : launch.engine given = .ok engine) (hSome : engine.databaseKey = some key) :
    launch.Sends given := by
  have hAccepted : 1 ≤ given.statefulStepCount := by
    by_contra hRefused
    have hSteps : (launch.settings given).statefulStepCount < 1 := by
      by_cases hKeyed : launch.Keyed given
      · rw [settings_keyed hKey hNamed hKeyed]
        exact Int.not_le.mp hRefused
      · rw [settings_unkeyed hKey hNamed hKeyed]
        exact Int.not_le.mp hRefused
    obtain ⟨e, hError⟩ := received_error _ hSteps
    rw [Launch.engine, hError] at hEngine
    cases hEngine
  refine ⟨hAccepted, ?_⟩
  by_contra hKeyed
  rw [Launch.engine, settings_unkeyed hKey hNamed hKeyed, received_ok _ hAccepted, hKey] at hEngine
  cases hEngine
  cases hSome

end Launch

namespace EngineSettings

variable {engine engine' : EngineSettings} {key key' : CString}

theorem databaseKey_of_hashed {key : Option CString} (h : engine.seedSource = .hashed key) :
    engine.databaseKey = key := by
  unfold seedSource at h
  split at h
  · cases h
  · split at h
    · exact SeedSource.hashed.inj h
    · cases h

theorem databaseKey_of_stored {place : Option CString × CString} (h : engine.stored = some place) :
    engine.databaseKey = some place.2 := by
  unfold stored at h
  split at h
  · cases h
  · obtain ⟨key, hKey, rfl⟩ := Option.map_eq_some_iff.mp h
    exact hKey

/-- Everything that two tests could share hangs on their keys. -/
theorem separate_of_ne (hKey : engine.databaseKey = some key)
    (hKey' : engine'.databaseKey = some key') (hNe : key ≠ key') : engine.Separate engine' where
  keys := ⟨key, key', hKey, hKey', hNe⟩
  seeds := by
    rintro hash hash' hSeed hSeed' rfl
    have hSame := (databaseKey_of_hashed hSeed).trans (databaseKey_of_hashed hSeed').symm
    rw [hKey, hKey'] at hSame
    exact hNe (Option.some.inj hSame)
  examples := by
    rintro place place' hPlace hPlace' rfl
    have hSame := (databaseKey_of_stored hPlace).trans (databaseKey_of_stored hPlace').symm
    rw [hKey, hKey'] at hSame
    exact hNe (Option.some.inj hSame)

end EngineSettings

/-! When the keys differ. -/
section Distinct

variable {launch launch' : Launch} {given given' : Settings}

/-- Two tests are told apart exactly if each sends a key and these differ. -/
theorem separate_iff (hKey : given.databaseKey = none) (hKey' : given'.databaseKey = none)
    (hNamed : launch.id.name ≠ "") (hNamed' : launch'.id.name ≠ "") :
    Separate (launch.engine given) (launch'.engine given') ↔
      launch.Sends given ∧ launch'.Sends given' ∧ launch.id.read.key ≠ launch'.id.read.key := by
  constructor
  · rintro ⟨engine, engine', hEngine, hEngine', ⟨key, key', hSome, hSome', hNe⟩, -, -⟩
    have hSends := Launch.sends_of_engine hKey hNamed hEngine hSome
    have hSends' := Launch.sends_of_engine hKey' hNamed' hEngine' hSome'
    refine ⟨hSends, hSends', fun hSame => hNe ?_⟩
    obtain ⟨sent, text, hSent, hText, hRead⟩ := Launch.engine_sends hKey hNamed hSends
    obtain ⟨sent', text', hSent', hText', hRead'⟩ := Launch.engine_sends hKey' hNamed' hSends'
    obtain rfl := Except.ok.inj (hEngine.symm.trans hSent)
    obtain rfl := Except.ok.inj (hEngine'.symm.trans hSent')
    obtain rfl := Option.some.inj (hSome.symm.trans hText)
    obtain rfl := Option.some.inj (hSome'.symm.trans hText')
    exact CString.ext (hRead.trans (hSame.trans hRead'.symm))
  · rintro ⟨hSends, hSends', hDiffer⟩
    obtain ⟨engine, key, hEngine, hSome, hText⟩ := Launch.engine_sends hKey hNamed hSends
    obtain ⟨engine', key', hEngine', hSome', hText'⟩ := Launch.engine_sends hKey' hNamed' hSends'
    have hNe : key ≠ key' := by
      rintro rfl
      exact hDiffer (hText.symm.trans hText')
    exact ⟨engine, engine', hEngine, hEngine', EngineSettings.separate_of_ne hSome hSome' hNe⟩

/-- Names without a colon, such as identifiers, do not shift. -/
theorem TestId.eq_of_mixed {a b : TestId} (hColon : ':' ∉ a.read.name.toList)
    (hColon' : ':' ∉ b.read.name.toList) (h : a.Mixed b) : a.read = b.read := by
  have hUnshifted {a b : TestId} (hColon : ':' ∉ a.name.toList) : ¬a.Shifted b := by
    rintro (⟨-, hName⟩ | ⟨part, -, hName⟩)
    · exact hColon (by simp [hName])
    · exact hColon (by simp [hName])
  rcases h with hSame | hShifted | hShifted
  · exact hSame
  · exact absurd hShifted (hUnshifted hColon)
  · exact absurd hShifted (hUnshifted hColon')

/-- Two `HEGEL_TEST`s with accepted settings are told apart whenever their
files or their names differ, with every database. -/
theorem hegelTests_separate {file file' : CString} {name name' : Identifier}
    (hKey : given.databaseKey = none) (hKey' : given'.databaseKey = none)
    (hSteps : 1 ≤ given.statefulStepCount) (hSteps' : 1 ≤ given'.statefulStepCount)
    (hDiffer : file ≠ file' ∨ name ≠ name') :
    Separate ((Launch.hegelTest file name).engine given)
      ((Launch.hegelTest file' name').engine given') := by
  have hNamed : (Launch.hegelTest file name).id.name ≠ "" := name.nonempty
  have hNamed' : (Launch.hegelTest file' name').id.name ≠ "" := name'.nonempty
  refine (separate_iff hKey hKey' hNamed hNamed').mpr
    ⟨⟨hSteps, trivial⟩, ⟨hSteps', trivial⟩, fun hSame => ?_⟩
  have hRead (file : CString) (name : Identifier) :
      (Launch.hegelTest file name).id.read = ⟨file.text, name.text⟩ := by
    simp [Launch.id, TestId.read]
  have hIds := TestId.eq_of_mixed (by simpa [hRead] using name.noColon)
    (by simpa [hRead] using name'.noColon) (TestId.key_eq_iff.mp hSame)
  rw [hRead, hRead, TestId.mk.injEq] at hIds
  rcases hDiffer with hFile | hName
  · exact hFile (CString.ext hIds.1)
  · refine hName ?_
    cases name
    cases name'
    simpa using CString.ext hIds.2

/-- The tests are told apart exactly if both send a key and their identities do
not mix. -/
theorem keys_distinct_iff (hKey : given.databaseKey = none) (hKey' : given'.databaseKey = none)
    (hNamed : launch.id.name ≠ "") (hNamed' : launch'.id.name ≠ "") :
    Separate (launch.engine given) (launch'.engine given') ↔
      launch.Sends given ∧ launch'.Sends given' ∧ ¬launch.id.Mixed launch'.id := by
  rw [separate_iff hKey hKey' hNamed hNamed', TestId.Mixed, ← TestId.key_eq_iff]

theorem keys_distinct_iff_located :
    Separate ((Launch.byLocation ⟨"reverse", "lists.cpp", 3⟩).engine (.default false))
      ((Launch.byLocation ⟨"sort", "lists.cpp", 9⟩).engine (.default false)) := by
  refine (keys_distinct_iff rfl rfl (by decide) (by decide)).mpr
    ⟨⟨by decide, by simp [Launch.Keyed, Settings.default]⟩,
      ⟨by decide, by simp [Launch.Keyed, Settings.default]⟩, fun hMixed => ?_⟩
  exact absurd (TestId.eq_of_mixed (by decide) (by decide) hMixed) (by decide)

/-- Two tests in one file, each with a location, on a CI server. -/
theorem not_every_pair_distinct : ¬∀ (launch launch' : Launch) (given : Settings),
    given.databaseKey = none → launch.id.name ≠ "" → launch'.id.name ≠ "" →
    launch.id ≠ launch'.id → Separate (launch.engine given) (launch'.engine given) := by
  intro h
  obtain ⟨engine, engine', hEngine, -, ⟨key, key', hSome, -⟩, -⟩ :=
    h (.byLocation ⟨"reverse", "lists.cpp", 3⟩) (.byLocation ⟨"sort", "lists.cpp", 9⟩)
      (.default true) rfl (by decide) (by decide) (by decide)
  exact (Launch.sends_of_engine rfl (by decide) hEngine hSome).keyed rfl

end Distinct

end Hegel.DatabaseKey
