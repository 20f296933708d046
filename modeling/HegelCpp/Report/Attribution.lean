import HegelCpp.Report.Origins

/-! When the origin `run_body` reports is that of the exception which left the
body, and when it names the throw expression that created it. -/
namespace Hegel.Origin

/-- The slot is empty unless `run_concurrent` raised what left the body, and a
failure is reported under the origin of the exception that failed the case. -/
def ReportsOwn (dladdr : Dladdr) (earlier : List Case) (case : Case) : Prop :=
  match case.ending with
  | .returns => True
  | .raises exception =>
      (threadAt dladdr earlier case).concurrentExceptionOrigin = none ∧
        (Fails exception.exn → (outcome dladdr earlier case).origin =
          (originOf exception.exn.failureOrigin exception.exn.typeName
            (threadAt dladdr earlier case)).1)
  | .reraises captured =>
      Fails captured.exception → (outcome dladdr earlier case).origin = captured.origin

/-- Since the thread's last failing case no failure of `run_concurrent` was
raised again but the one that leaves the body, if one does; and an exception
that names its own origin derives from `std::exception`. -/
def Unmixed (earlier : List Case) (case : Case) : Prop :=
  match case.ending with
  | .returns => True
  | .raises exception =>
      caughtSince earlier ++ case.rethrown = [] ∧
        (exception.exn.cls = .nonStandard → exception.exn.failureOrigin = none)
  | .reraises captured =>
      Fails captured.exception →
        case.rethrown.getLast?.map (·.origin) = some captured.origin

section Probe

/-- A loader that knows one address only. -/
def onlyAt (address : UInt64) : Dladdr := fun other =>
  if other = address then some { fname := some "", fbase := 0 } else none

variable {type : String} {address other : UInt64}

@[simp] theorem typeAt_empty : typeAt type "" = type := rfl

theorem typeAt_ne {site : String} (hSite : site ≠ "") : typeAt type site ≠ type := by
  intro h
  rw [typeAt, if_neg (by simpa using hSite)] at h
  have hLength := congrArg String.length h
  simp only [String.length_append] at hLength
  have hAt : " at ".length = 4 := rfl
  omega

theorem siteOf_onlyAt_self : siteOf (onlyAt address) address ≠ "" := by
  simp [siteOf, onlyAt]

theorem siteOf_onlyAt_of_ne (hOther : other ≠ address) : siteOf (onlyAt address) other = "" := by
  simp [siteOf, onlyAt, hOther]

/-- A fixed text is not the type at a site for every loader. -/
theorem exists_typeAt_ne (origin type : String) (address : UInt64) :
    ∃ dladdr, origin ≠ typeAt type (siteOf dladdr address) := by
  by_contra h
  push Not at h
  have hUnknown : origin = type := h fun _ => none
  exact typeAt_ne siteOf_onlyAt_self ((h (onlyAt address)).symm.trans hUnknown)

end Probe

variable {earlier : List Case} {case : Case}

theorem takeOrigin_some {dladdr : Dladdr} {thread : ThreadState dladdr} {origin : String}
    (hSlot : thread.concurrentExceptionOrigin = some origin) (named : Option String)
    (type : String) : (takeOrigin named type thread).1 = origin := by
  rw [takeOrigin, hSlot]

theorem takeOrigin_none {dladdr : Dladdr} {thread : ThreadState dladdr}
    (hSlot : thread.concurrentExceptionOrigin = none) (named : Option String) (type : String) :
    takeOrigin named type thread = originOf named type thread := by
  rw [takeOrigin, hSlot]

/-- Nothing pending is an empty slot, whatever the loader. -/
theorem slot_eq_none (dladdr : Dladdr) :
    (threadAt dladdr earlier case).concurrentExceptionOrigin = none ↔
      caughtSince earlier ++ case.rethrown = [] := by
  rw [threadAt_concurrentExceptionOrigin, Option.map_eq_none_iff, List.getLast?_eq_none_iff]

/-- Where nothing is pending, an exception of the body gets the origin that its
handler asks for. -/
theorem outcome_raises {dladdr : Dladdr} {exception : Thrown}
    (hEnding : case.ending = .raises exception) (hFails : Fails exception.exn)
    (hNone : caughtSince earlier ++ case.rethrown = []) :
    (outcome dladdr earlier case).origin =
      (originOf (namedByHandler exception.exn) exception.exn.typeName
        (threadAt dladdr earlier case)).1 := by
  have hExn : case.ending.exn = some exception.exn := by rw [hEnding]; rfl
  rw [outcome_origin dladdr earlier case hExn hFails,
    takeOrigin_none ((slot_eq_none dladdr).mpr hNone)]

/-- The last failure of `run_concurrent` raised again decides. -/
theorem outcome_reraises (dladdr : Dladdr) (earlier : List Case) {captured : CapturedException}
    (hEnding : case.ending = .reraises captured) (hFails : Fails captured.exception) :
    some (outcome dladdr earlier case).origin = case.rethrown.getLast?.map (·.origin) := by
  have hExn : case.ending.exn = some captured.exception := by rw [hEnding]; rfl
  have hEscapes := case.escapes
  rw [hEnding] at hEscapes
  have hMem : captured ∈ case.rethrown := List.mem_filterMap.mpr ⟨_, hEscapes, rfl⟩
  obtain ⟨last, hLast⟩ := Option.ne_none_iff_exists'.mp fun hNone =>
    List.ne_nil_of_mem hMem (List.getLast?_eq_none_iff.mp hNone)
  have hSlot : (threadAt dladdr earlier case).concurrentExceptionOrigin = some last.origin := by
    rw [threadAt_concurrentExceptionOrigin, List.getLast?_append, hLast]
    rfl
  rw [outcome_origin dladdr earlier case hExn hFails, takeOrigin_some hSlot, hLast]
  rfl

theorem namedByHandler_eq {exn : Exn} (h : exn.cls = .nonStandard → exn.failureOrigin = none) :
    namedByHandler exn = exn.failureOrigin := by
  obtain ⟨cls, typeName, what, failureOrigin⟩ := exn
  cases cls with
  | nonStandard => exact (h rfl).symm
  | stopTest => rfl
  | reject => rfl
  | invalidArgument => rfl
  | stdException => rfl

theorem reportsOwn_case :
    (∀ dladdr, ReportsOwn dladdr earlier case) ↔ Unmixed earlier case := by
  cases hEnding : case.ending with
  | returns => simp [ReportsOwn, Unmixed, hEnding]
  | raises exception =>
      simp only [ReportsOwn, Unmixed, hEnding]
      constructor
      · intro h
        have hNone := (slot_eq_none _).mp (h fun _ => none).1
        refine ⟨hNone, fun hClass => ?_⟩
        by_contra hNamed
        obtain ⟨origin, hOrigin⟩ := Option.ne_none_iff_exists'.mp hNamed
        have hFails : Fails exception.exn := by simp [Fails, hClass]
        obtain ⟨dladdr, hOther⟩ :=
          exists_typeAt_ne origin exception.exn.typeName (lastThrow (earlier ++ [case]))
        have hReported := (h dladdr).2 hFails
        rw [outcome_raises hEnding hFails hNone, namedByHandler, hClass, hOrigin, originOf_none,
          threadAt_lastThrowAddress] at hReported
        exact hOther hReported.symm
      · rintro ⟨hNone, hNamed⟩ dladdr
        refine ⟨(slot_eq_none dladdr).mpr hNone, fun hFails => ?_⟩
        rw [outcome_raises hEnding hFails hNone, namedByHandler_eq hNamed]
  | reraises captured =>
      simp only [ReportsOwn, Unmixed, hEnding]
      constructor
      · intro h hFails
        rw [← outcome_reraises (fun _ => none) earlier hEnding hFails,
          h (fun _ => none) hFails]
      · intro h dladdr hFails
        rw [← outcome_reraises dladdr earlier hEnding hFails] at h
        exact Option.some.inj (h hFails)

/-- Over a whole history the reported origins are those of the exceptions that
failed the cases, whatever the loader finds, exactly when no case is mixed up
with a failure of `run_concurrent` that was caught. -/
theorem reportsOwn_iff (cases : List Case) :
    (∀ dladdr earlier case, earlier ++ [case] <+: cases → ReportsOwn dladdr earlier case) ↔
      ∀ earlier case, earlier ++ [case] <+: cases → Unmixed earlier case := by
  constructor
  · intro h earlier case hPrefix
    exact reportsOwn_case.mp fun dladdr => h dladdr earlier case hPrefix
  · intro h dladdr earlier case hPrefix
    exact reportsOwn_case.mpr (h earlier case hPrefix) dladdr

section CaughtFailure

/-- One binary, loaded at address 0. -/
def testBinary : Dladdr := fun _ => some { fname := some "test", fbase := 0 }

/-- A worker's failure, captured on the worker's thread. -/
def workerFailure : CapturedException :=
  (captureCurrentException (runtimeError "worker failed")
    ({ lastThrowAddress := 0x20 } : ThreadState testBinary)).1

def checkFailed : Thrown where
  exn := { cls := .stdException, typeName := "CheckFailed", failureOrigin := some "check.cpp:7" }
  thrownAt := 0x40

/-- The body catches what `run_concurrent` throws and returns. -/
def catchingCase : Case where
  events := [.rethrowCaptured workerFailure, .caught]
  ending := .returns
  escapes := trivial

def checkingCase : Case where
  events := [.throwExpr checkFailed]
  ending := .raises checkFailed
  escapes := .inl (List.mem_singleton.mpr rfl)

/-- The second case throws an exception that names its own origin and is
reported under the one captured in the first. -/
theorem not_every_origin_own :
    ¬∀ (cases : List Case) (dladdr : Dladdr) (earlier : List Case) (case : Case),
      earlier ++ [case] <+: cases → ReportsOwn dladdr earlier case := by
  intro h
  have hOwn := h [catchingCase, checkingCase] testBinary [catchingCase] checkingCase
    (List.prefix_refl _)
  have hReported : (outcome testBinary [catchingCase] checkingCase).origin = "check.cpp:7" :=
    hOwn.2 (by decide)
  have hLeaked : (outcome testBinary [catchingCase] checkingCase).origin =
      "std::runtime_error at test+0x20" := by decide
  rw [hLeaked] at hReported
  exact absurd hReported (by decide)

end CaughtFailure

/-- The body fails with an exception that `run_concurrent` did not raise and
that does not name its own origin. -/
structure FailsUnnamed (case : Case) (exception : Thrown) : Prop where
  ending : case.ending = .raises exception
  fails : Fails exception.exn
  unnamed : exception.exn.failureOrigin = none

/-- Such an exception is reported as its type at the site of the throw
expression that created it. -/
def Attributed (dladdr : Dladdr) (earlier : List Case) (case : Case) : Prop :=
  ∀ exception, FailsUnnamed case exception →
    (outcome dladdr earlier case).origin =
      typeAt exception.exn.typeName (siteOf dladdr exception.thrownAt)

/-- No failure of `run_concurrent` is pending, and no throw expression of this
thread came after the one that created the exception, which did not come from
another thread either. -/
def ThrownLast (earlier : List Case) (case : Case) : Prop :=
  ∀ exception, FailsUnnamed case exception →
    caughtSince earlier ++ case.rethrown = [] ∧
      lastThrow (earlier ++ [case]) = exception.thrownAt

theorem FailsUnnamed.outcome_origin {dladdr : Dladdr} {exception : Thrown}
    (h : FailsUnnamed case exception) (hNone : caughtSince earlier ++ case.rethrown = []) :
    (outcome dladdr earlier case).origin =
      typeAt exception.exn.typeName (siteOf dladdr (lastThrow (earlier ++ [case]))) := by
  rw [outcome_raises h.ending h.fails hNone, namedByHandler_eq fun _ => h.unnamed, h.unnamed,
    originOf_none, threadAt_lastThrowAddress]

/-- A pending origin is one text, so it is not the type at a site for every
loader. -/
theorem FailsUnnamed.nothing_pending {exception : Thrown} (h : FailsUnnamed case exception)
    (hAttributed : ∀ dladdr, Attributed dladdr earlier case) :
    caughtSince earlier ++ case.rethrown = [] := by
  by_contra hPending
  obtain ⟨last, hLast⟩ := Option.ne_none_iff_exists'.mp (mt List.getLast?_eq_none_iff.mp hPending)
  obtain ⟨dladdr, hOther⟩ :=
    exists_typeAt_ne last.origin exception.exn.typeName exception.thrownAt
  have hSlot : (threadAt dladdr earlier case).concurrentExceptionOrigin = some last.origin := by
    rw [threadAt_concurrentExceptionOrigin, hLast]
    rfl
  have hExn : case.ending.exn = some exception.exn := by rw [h.ending]; rfl
  have hReported := hAttributed dladdr exception h
  rw [Origin.outcome_origin dladdr earlier case hExn h.fails, takeOrigin_some hSlot] at hReported
  exact hOther hReported

theorem attributed_case :
    (∀ dladdr, Attributed dladdr earlier case) ↔ ThrownLast earlier case := by
  constructor
  · intro h exception hUnnamed
    have hNone := hUnnamed.nothing_pending h
    refine ⟨hNone, ?_⟩
    by_contra hOther
    have hReported := h (onlyAt exception.thrownAt) exception hUnnamed
    rw [hUnnamed.outcome_origin hNone, siteOf_onlyAt_of_ne hOther, typeAt_empty] at hReported
    exact typeAt_ne siteOf_onlyAt_self hReported.symm
  · intro h dladdr exception hUnnamed
    obtain ⟨hNone, hLast⟩ := h exception hUnnamed
    rw [hUnnamed.outcome_origin hNone, hLast]

/-- The failing cases of a history are told apart by type and throw site. -/
structure SitesNamed (dladdr : Dladdr) (cases : List Case) : Prop where
  attributed : ∀ earlier case, earlier ++ [case] <+: cases → Attributed dladdr earlier case
  same_origin : ∀ earlier case earlier' case' exception exception',
    earlier ++ [case] <+: cases → earlier' ++ [case'] <+: cases →
    FailsUnnamed case exception → FailsUnnamed case' exception' →
    exception.exn.typeName = exception'.exn.typeName →
    siteOf dladdr exception.thrownAt = siteOf dladdr exception'.thrownAt →
      (outcome dladdr earlier case).origin = (outcome dladdr earlier' case').origin

theorem SitesNamed.of_attributed {dladdr : Dladdr} {cases : List Case}
    (h : ∀ earlier case, earlier ++ [case] <+: cases → Attributed dladdr earlier case) :
    SitesNamed dladdr cases where
  attributed := h
  same_origin earlier case earlier' case' exception exception' hPrefix hPrefix' hFails hFails'
      hType hSite := by
    rw [h earlier case hPrefix exception hFails, h earlier' case' hPrefix' exception' hFails',
      hType, hSite]

/-- Over a whole history every unnamed failure is named by its own throw site,
whatever the loader finds, exactly when each was created by the last throw
expression of the thread and nothing else was pending. -/
theorem sitesNamed_iff (cases : List Case) :
    (∀ dladdr, SitesNamed dladdr cases) ↔
      ∀ earlier case, earlier ++ [case] <+: cases → ThrownLast earlier case := by
  constructor
  · intro h earlier case hPrefix
    exact attributed_case.mp fun dladdr => (h dladdr).attributed earlier case hPrefix
  · intro h dladdr
    exact .of_attributed fun earlier case hPrefix =>
      attributed_case.mpr (h earlier case hPrefix) dladdr

section NestedThrow

def bodyFailure : Thrown := { exn := runtimeError "body failed", thrownAt := 0x10 }

def cleanupFailure : Thrown := { exn := runtimeError "cleanup failed", thrownAt := 0x20 }

/-- The body catches its failure, tries a cleanup that throws, catches that too
and raises the failure again by `throw;`. -/
def cleanupCase : Case where
  events := [.throwExpr bodyFailure, .throwExpr cleanupFailure, .caught, .raiseAgain bodyFailure]
  ending := .raises bodyFailure
  escapes := .inl List.mem_cons_self

/-- The failure is reported at the site of the throw in the cleanup. -/
theorem not_every_site_named :
    ¬∀ (cases : List Case) (dladdr : Dladdr), SitesNamed dladdr cases := by
  intro h
  have hNamed : (outcome testBinary [] cleanupCase).origin = "std::runtime_error at test+0x10" :=
    (h [cleanupCase] testBinary).attributed [] cleanupCase (List.prefix_refl _) bodyFailure
      ⟨rfl, by decide, rfl⟩
  have hNested : (outcome testBinary [] cleanupCase).origin =
      "std::runtime_error at test+0x20" := by decide
  rw [hNested] at hNamed
  exact absurd hNamed (by decide)

end NestedThrow

end Hegel.Origin
