import HegelCpp.Logic.Flags
import HegelCpp.Run.DatabaseKey

/-! What the engine can see of the settings: the handle of its settings profile
after the setters of `apply_settings`. -/
namespace Hegel.DatabaseKey

open Logic

/-- The fields of a `hegel_settings_t` that the program can set. -/
structure Handle where
  testCases : UInt64
  verbosity : Verbosity
  seed : Option UInt64
  derandomize : Bool
  reportMultipleFailures : Bool
  /-- Without a root, the default one. -/
  database : Option CString
  databaseKey : Option CString
  suppressed : UInt32
  phases : UInt32
  backend : Backend
  deriving DecidableEq

/-- The setters of `libhegel`, and what the engine reads of a settings handle. -/
structure Libhegel (H : Type) where
  set : H → SetterCall → H
  read : H → Handle

/-- What `libhegel` documents: a setter replaces its own field, and the base
profile suppresses no check, has the default database and no key. -/
structure Libhegel.Documented {H : Type} (lib : Libhegel H) : Prop where
  testCases : ∀ h n, lib.read (lib.set h (.testCases n)) = { lib.read h with testCases := n }
  verbosity : ∀ h verbosity, lib.read (lib.set h (.verbosity verbosity)) =
    { lib.read h with verbosity := verbosity }
  seed : ∀ h seed hasSeed, lib.read (lib.set h (.seed seed hasSeed)) =
    { lib.read h with seed := if hasSeed then some seed else none }
  derandomize : ∀ h on, lib.read (lib.set h (.derandomize on)) =
    { lib.read h with derandomize := on }
  reportMultipleFailures : ∀ h on, lib.read (lib.set h (.reportMultipleFailures on)) =
    { lib.read h with reportMultipleFailures := on }
  database : ∀ h root, lib.read (lib.set h (.database root)) =
    { lib.read h with database := some root }
  databaseKey : ∀ h key, lib.read (lib.set h (.databaseKey key)) =
    { lib.read h with databaseKey := some key }
  suppressHealthCheck : ∀ h mask, lib.read (lib.set h (.suppressHealthCheck mask)) =
    { lib.read h with suppressed := mask }
  phases : ∀ h mask, lib.read (lib.set h (.phases mask)) = { lib.read h with phases := mask }
  backend : ∀ h backend, lib.read (lib.set h (.backend backend)) =
    { lib.read h with backend := backend }
  base : ∃ h, (lib.read h).suppressed = 0 ∧ (lib.read h).database = none ∧
    (lib.read h).databaseKey = none

/-- What the engine reads of the handle that a profile started with, once the
settings are applied. -/
def applied {H : Type} (lib : Libhegel H) (settings : Settings) (profile : H) :
    Except Exn Handle :=
  (applySettings settings).map fun calls => lib.read (calls.foldl lib.set profile)

/-! The settings over a profile. -/

def HealthCheck.index : HealthCheck → Nat
  | filterTooMuch => 0
  | tooSlow => 1
  | testCasesTooLarge => 2
  | largeInitialTestCase => 3

def Phase.index : Phase → Nat
  | explicit => 0
  | reuse => 1
  | generate => 2
  | target => 3
  | shrink => 4

theorem HealthCheck.distinct : Flags.Distinct 32 HealthCheck.index where
  lt check := by cases check <;> decide
  injective check check' h := by cases check <;> cases check' <;> first | rfl | cases h

theorem Phase.distinct : Flags.Distinct 32 Phase.index where
  lt phase := by cases phase <;> decide
  injective phase phase' h := by cases phase <;> cases phase' <;> first | rfl | cases h

/-- The loops over the vectors make such words. -/
theorem toBitVec_foldl {α : Type} {mask : α → UInt32} {index : α → Nat}
    (hMask : ∀ flag, (mask flag).toBitVec = BitVec.twoPow 32 (index flag)) (flags : List α) :
    (flags.foldl (fun word flag => word ||| mask flag) 0).toBitVec =
      Flags.union 32 index flags := by
  have hLoop (word : UInt32) :
      (flags.foldl (fun word flag => word ||| mask flag) word).toBitVec =
        flags.foldl (fun word flag => word ||| BitVec.twoPow 32 (index flag)) word.toBitVec := by
    induction flags generalizing word with
    | nil => rfl
    | cons flag flags ih => rw [List.foldl_cons, ih, UInt32.toBitVec_or, hMask, List.foldl_cons]
  exact hLoop 0

namespace Settings

def suppressMask (settings : Settings) : UInt32 :=
  UInt32.ofBitVec (Flags.union 32 HealthCheck.index settings.suppressHealthCheck)

def phaseMask (settings : Settings) : UInt32 :=
  UInt32.ofBitVec (Flags.union 32 Phase.index settings.phases)

/-- The settings that are set, over what the profile has. -/
def overlay (settings : Settings) (profile : Handle) : Handle where
  testCases := settings.testCases.getD profile.testCases
  verbosity := settings.verbosity
  seed := settings.seed
  derandomize := settings.derandomize
  reportMultipleFailures := settings.reportMultipleFailures
  database := settings.database.root.or profile.database
  databaseKey := (settings.databaseKey.map cStr).or profile.databaseKey
  suppressed :=
    if settings.suppressHealthCheck = [] then profile.suppressed else settings.suppressMask
  phases := settings.phaseMask
  backend := if settings.backend = .auto then profile.backend else settings.backend

end Settings

section Parts

variable {H : Type} {lib : Libhegel H} (hLib : lib.Documented) (h : H)
include hLib

theorem read_testCases (testCases : Option UInt64) :
    lib.read ((testCases.map SetterCall.testCases).toList.foldl lib.set h) =
      { lib.read h with testCases := testCases.getD (lib.read h).testCases } := by
  cases testCases with
  | none => rfl
  | some n => exact hLib.testCases h n

theorem read_database (database : Database) :
    lib.read ((databaseCalls database).foldl lib.set h) =
      { lib.read h with database := database.root.or (lib.read h).database } := by
  cases database with
  | unset => rfl
  | _ => exact hLib.database h _

theorem read_databaseKey (key : Option String) :
    lib.read ((key.map fun key => SetterCall.databaseKey (cStr key)).toList.foldl lib.set h) =
      { lib.read h with databaseKey := (key.map cStr).or (lib.read h).databaseKey } := by
  cases key with
  | none => rfl
  | some key => exact hLib.databaseKey h (cStr key)

theorem read_suppress (mask : UInt32) :
    lib.read ((if mask ≠ 0 then [SetterCall.suppressHealthCheck mask] else []).foldl lib.set h) =
      { lib.read h with suppressed := if mask = 0 then (lib.read h).suppressed else mask } := by
  by_cases hMask : mask = 0
  · rw [if_neg (not_not.mpr hMask), if_pos hMask]
    rfl
  · rw [if_pos hMask, if_neg hMask]
    exact hLib.suppressHealthCheck h mask

theorem read_backend (backend : Backend) :
    lib.read ((if backend = .auto then [] else [SetterCall.backend backend]).foldl lib.set h) =
      { lib.read h with backend := if backend = .auto then (lib.read h).backend else backend } := by
  by_cases hAuto : backend = .auto
  · rw [if_pos hAuto, if_pos hAuto]
    rfl
  · rw [if_neg hAuto, if_neg hAuto]
    exact hLib.backend h backend

/-- The base profile, with any number of test cases and any backend. -/
theorem exists_profile : ∃ base : Handle, base.suppressed = 0 ∧ base.database = none ∧
    base.databaseKey = none ∧ ∀ testCases backend, ∃ h, lib.read h =
      { base with testCases := testCases, backend := backend } := by
  obtain ⟨h, hSuppressed, hDatabase, hKey⟩ := hLib.base
  refine ⟨lib.read h, hSuppressed, hDatabase, hKey, fun testCases backend => ?_⟩
  exact ⟨lib.set (lib.set h (.testCases testCases)) (.backend backend), by
    rw [hLib.backend, hLib.testCases]⟩

theorem applied_eq {settings : Settings} (hSteps : 1 ≤ settings.statefulStepCount) (profile : H) :
    applied lib settings profile = .ok (settings.overlay (lib.read profile)) := by
  have hSuppress : settings.suppressHealthCheck.foldl (fun mask check => mask ||| check.mask) 0 =
      settings.suppressMask :=
    UInt32.toBitVec_inj.mp (toBitVec_foldl (fun check => by cases check <;> rfl) _)
  have hPhases : settings.phases.foldl (fun mask phase => mask ||| phase.mask) 0 =
      settings.phaseMask :=
    UInt32.toBitVec_inj.mp (toBitVec_foldl (fun phase => by cases phase <;> rfl) _)
  have hEmpty : settings.suppressMask = 0 ↔ settings.suppressHealthCheck = [] := by
    rw [← UInt32.toBitVec_inj]
    exact Flags.union_eq_zero_iff HealthCheck.distinct _
  have hSeed : (if settings.seed.isSome then some (settings.seed.getD 0) else none) =
      settings.seed := by
    cases settings.seed <;> rfl
  rw [applied, applySettings, if_neg (Int.not_lt.mpr hSteps)]
  simp only [hSuppress, hPhases, Except.map, List.foldl_append, List.foldl_cons, List.foldl_nil,
    read_testCases hLib, read_database hLib, read_databaseKey hLib, read_suppress hLib,
    read_backend hLib, hLib.verbosity, hLib.seed, hLib.derandomize, hLib.reportMultipleFailures,
    hLib.phases, hSeed, hEmpty]
  rfl

end Parts

/-- Two settings that the engine cannot tell apart. The checks and phases are
sets, and an empty root is no database. -/
structure Settings.Same (settings settings' : Settings) : Prop where
  testCases : settings.testCases = settings'.testCases
  verbosity : settings.verbosity = settings'.verbosity
  seed : settings.seed = settings'.seed
  derandomize : settings.derandomize = settings'.derandomize
  reportMultipleFailures : settings.reportMultipleFailures = settings'.reportMultipleFailures
  database : settings.database.root = settings'.database.root
  databaseKey : settings.databaseKey.map cStr = settings'.databaseKey.map cStr
  suppressHealthCheck : ∀ check,
    check ∈ settings.suppressHealthCheck ↔ check ∈ settings'.suppressHealthCheck
  phases : ∀ phase, phase ∈ settings.phases ↔ phase ∈ settings'.phases
  backend : settings.backend = settings'.backend

theorem suppressMask_eq_iff {settings settings' : Settings} :
    settings.suppressMask = settings'.suppressMask ↔
      ∀ check, check ∈ settings.suppressHealthCheck ↔ check ∈ settings'.suppressHealthCheck := by
  rw [← Flags.union_eq_iff HealthCheck.distinct, ← UInt32.toBitVec_inj]
  rfl

theorem phaseMask_eq_iff {settings settings' : Settings} :
    settings.phaseMask = settings'.phaseMask ↔
      ∀ phase, phase ∈ settings.phases ↔ phase ∈ settings'.phases := by
  rw [← Flags.union_eq_iff Phase.distinct, ← UInt32.toBitVec_inj]
  rfl

theorem overlay_suppressed (settings : Settings) {profile : Handle} (h : profile.suppressed = 0) :
    (settings.overlay profile).suppressed = settings.suppressMask := by
  by_cases hNone : settings.suppressHealthCheck = []
  · simp [Settings.overlay, Settings.suppressMask, h, hNone, Flags.union]
  · simp [Settings.overlay, hNone]

/-- Two defaults tell a value from its absence. -/
theorem eq_of_getD {α : Type} {a b : Option α} {d e : α} (hDiffer : d ≠ e)
    (hFirst : a.getD d = b.getD d) (hSecond : a.getD e = b.getD e) : a = b := by
  cases a with
  | none =>
      cases b with
      | none => rfl
      | some b => exact absurd (hFirst.trans hSecond.symm) hDiffer
  | some a =>
      cases b with
      | none => exact absurd (hFirst.symm.trans hSecond) hDiffer
      | some b => exact congrArg some hFirst

/-- Profiles with the base's database and checks are enough to tell settings
apart that differ. -/
theorem same_of_overlay {settings settings' : Settings} {base : Handle}
    (hSuppressed : base.suppressed = 0) (hDatabase : base.database = none)
    (hKey : base.databaseKey = none)
    (h : ∀ testCases backend,
      settings.overlay { base with testCases := testCases, backend := backend } =
        settings'.overlay { base with testCases := testCases, backend := backend }) :
    settings.Same settings' where
  testCases := eq_of_getD (show (0 : UInt64) ≠ 1 by decide)
    (congrArg Handle.testCases (h 0 .default)) (congrArg Handle.testCases (h 1 .default))
  verbosity := congrArg Handle.verbosity (h 0 .default)
  seed := congrArg Handle.seed (h 0 .default)
  derandomize := congrArg Handle.derandomize (h 0 .default)
  reportMultipleFailures := congrArg Handle.reportMultipleFailures (h 0 .default)
  database := by
    have hRoot := congrArg Handle.database (h 0 .default)
    simpa [Settings.overlay, hDatabase] using hRoot
  databaseKey := by
    have hSame := congrArg Handle.databaseKey (h 0 .default)
    simpa [Settings.overlay, hKey] using hSame
  suppressHealthCheck := by
    have hNone : { base with testCases := 0, backend := .default : Handle }.suppressed = 0 :=
      hSuppressed
    have hMask := congrArg Handle.suppressed (h 0 .default)
    rw [overlay_suppressed settings hNone, overlay_suppressed settings' hNone] at hMask
    exact suppressMask_eq_iff.mp hMask
  phases := phaseMask_eq_iff.mp (congrArg Handle.phases (h 0 .default))
  backend := by
    have hDefault := congrArg Handle.backend (h 0 .default)
    have hUrandom := congrArg Handle.backend (h 0 .urandom)
    simp only [Settings.overlay] at hDefault hUrandom
    cases hLeft : settings.backend <;> cases hRight : settings'.backend <;> simp_all

theorem Settings.Same.overlay {settings settings' : Settings} (h : settings.Same settings')
    (profile : Handle) : settings.overlay profile = settings'.overlay profile := by
  have hNone : settings.suppressHealthCheck = [] ↔ settings'.suppressHealthCheck = [] := by
    rw [List.eq_nil_iff_forall_not_mem, List.eq_nil_iff_forall_not_mem]
    simp only [h.suppressHealthCheck]
  simp only [Settings.overlay, h.testCases, h.verbosity, h.seed, h.derandomize,
    h.reportMultipleFailures, h.database, h.databaseKey, h.backend, hNone,
    suppressMask_eq_iff.mpr h.suppressHealthCheck, phaseMask_eq_iff.mpr h.phases]

/-- The handle holds the settings that are set over those of its profile, and the
engine tells two settings apart, under some profile, exactly when they are not
the same. -/
theorem settings_same_iff {H : Type} {lib : Libhegel H} (hLib : lib.Documented)
    {settings settings' : Settings} (hSteps : 1 ≤ settings.statefulStepCount)
    (hSteps' : 1 ≤ settings'.statefulStepCount) :
    (∀ profile, applied lib settings profile = .ok (settings.overlay (lib.read profile))) ∧
      ((∀ profile, applied lib settings profile = applied lib settings' profile) ↔
        settings.Same settings') := by
  refine ⟨applied_eq hLib hSteps, ?_⟩
  simp only [applied_eq hLib hSteps, applied_eq hLib hSteps', Except.ok.injEq]
  refine ⟨fun hAll => ?_, fun hSame profile => hSame.overlay (lib.read profile)⟩
  obtain ⟨base, hSuppressed, hDatabase, hKey, hProfile⟩ := exists_profile hLib
  refine same_of_overlay hSuppressed hDatabase hKey fun testCases backend => ?_
  obtain ⟨h, hRead⟩ := hProfile testCases backend
  exact hRead ▸ hAll h

/-- A handle that is no more than its fields. -/
def plainLibhegel : Libhegel Handle where
  set handle
    | .testCases n => { handle with testCases := n }
    | .verbosity verbosity => { handle with verbosity := verbosity }
    | .seed seed hasSeed => { handle with seed := if hasSeed then some seed else none }
    | .derandomize on => { handle with derandomize := on }
    | .reportMultipleFailures on => { handle with reportMultipleFailures := on }
    | .database root => { handle with database := some root }
    | .databaseKey key => { handle with databaseKey := some key }
    | .suppressHealthCheck mask => { handle with suppressed := mask }
    | .phases mask => { handle with phases := mask }
    | .backend backend => { handle with backend := backend }
  read handle := handle

def baseProfile : Handle where
  testCases := 100
  verbosity := .normal
  seed := none
  derandomize := false
  reportMultipleFailures := true
  database := none
  databaseKey := none
  suppressed := 0
  phases := 31
  backend := .default

theorem plainLibhegel_documented : plainLibhegel.Documented :=
  ⟨fun _ _ => rfl, fun _ _ => rfl, fun _ _ _ => rfl, fun _ _ => rfl, fun _ _ => rfl, fun _ _ => rfl,
    fun _ _ => rfl, fun _ _ => rfl, fun _ _ => rfl, fun _ _ => rfl, baseProfile, rfl, rfl, rfl⟩

/-- The order of the checks does not matter, nor that one is listed twice. -/
theorem settings_same_iff_twice :
    applied plainLibhegel
        { Settings.default false with suppressHealthCheck := [.tooSlow, .filterTooMuch] }
        baseProfile =
      applied plainLibhegel { Settings.default false with
        suppressHealthCheck := [.filterTooMuch, .tooSlow, .filterTooMuch] } baseProfile := by
  have hCases : (1 : Int) ≤ 50 := by decide
  refine (settings_same_iff plainLibhegel_documented hCases hCases).2.mpr
    ⟨rfl, rfl, rfl, rfl, rfl, rfl, rfl, ?_, fun _ => Iff.rfl, rfl⟩ baseProfile
  intro check
  simp [or_comm]

end Hegel.DatabaseKey
