import DocCoverage.Proofs.CommandLine.Overrides
import DocCoverage.Proofs.Project.Verdict
import DocCoverage.Proofs.Settings.Floors
/-!
# Command line — the floors that are given

A floor that is given on the command line is set over the settings file, and
it is the floor of the run if what was gathered can be read as settings. What
cannot be read counts as the built-in settings as a whole, and a floor that
was given goes down with it (`run_gates`). A number that is given never makes
settings unreadable (`readable_gathered`).
-/

namespace DocCoverage

namespace CommandLine

variable {around : Surroundings} {arguments : List String} {o : CheckOptions}
  {store store' : SettingsStore} {settings : Settings} {floors : List (Floor × Float)}

/-! ## Setting floors -/

/-- Floors as overrides. -/
def settingsOf (floors : List (Floor × Float)) : List (String × Json) :=
  floors.map fun entry => (entry.1.name, Json.ofFloat entry.2)

/-- The floors that options give, in the order in which they are set. -/
def floorsOf (o : CheckOptions) : List (Floor × Float) :=
  (o.coverageFloor.map fun x => (Floor.coverage, x)).toList ++
    (o.qualityFloor.map fun x => (Floor.quality, x)).toList

theorem overridesOf_eq (h : o.overrides = []) : overridesOf o = settingsOf (floorsOf o) := by
  rw [overridesOf, h, settingsOf, floorsOf]
  cases o.coverageFloor <;> cases o.qualityFloor <;> rfl

theorem mem_floorsOf {floor : Floor} {x : Float} : (floor, x) ∈ floorsOf o ↔
    match floor with
    | .coverage => o.coverageFloor = some x
    | .quality => o.qualityFloor = some x := by
  rw [floorsOf]
  cases floor <;> cases o.coverageFloor <;> cases o.qualityFloor <;> simp [eq_comm]

/-- No floor is given twice. -/
theorem pairwise_floorsOf (o : CheckOptions) :
    (floorsOf o).Pairwise fun a b => a.1 ≠ b.1 := by
  rw [floorsOf]
  cases o.coverageFloor <;> cases o.qualityFloor <;> simp

/-- **What is set as a floor stands at its path**, and floors that are not
set are left alone. -/
theorem at?_of_overridden (hdistinct : floors.Pairwise fun a b => a.1 ≠ b.1)
    (h : overridden store (settingsOf floors) = .ok store') :
    (∀ entry ∈ floors, store'.values.at? entry.1.path = some (Json.ofFloat entry.2)) ∧
      ∀ floor, (∀ entry ∈ floors, entry.1 ≠ floor) →
        store'.values.at? floor.path = store.values.at? floor.path := by
  induction floors generalizing store with
  | nil =>
    obtain rfl := Except.ok.inj h
    exact ⟨fun _ hmem => absurd hmem List.not_mem_nil, fun _ _ => rfl⟩
  | cons first rest ih =>
    obtain ⟨hfirst, hrest⟩ := List.pairwise_cons.mp hdistinct
    obtain ⟨next, hset, hmore⟩ := overridden_cons_eq_ok_iff.mp h
    have hset := Floor.set_eq_ok_iff.mp hset
    obtain ⟨hgiven, hothers⟩ := ih hrest hmore
    refine ⟨List.forall_mem_cons.mpr ⟨?_, hgiven⟩, fun floor hfloor => ?_⟩
    -- the floors behind the first are others, so that it stays as it was set
    · rw [hothers first.1 fun entry hentry => (hfirst entry hentry).symm]
      exact Json.at?_setAt? hset
    · obtain ⟨hne, hfloor⟩ := List.forall_mem_cons.mp hfloor
      rw [hothers floor hfloor]
      exact Floor.at?_setAt?_other hne hset

theorem eq_of_asFloat?_ofFloat {x y : Float} (h : Json.asFloat? (Json.ofFloat x) = some y) :
    x = y := by
  unfold Json.ofFloat at h
  split at h
  · exact Option.some_inj.mp h
  · cases h

/-- **A floor that is set is the floor that is read**, if anything can be
read. -/
theorem of_overridden (hdistinct : floors.Pairwise fun a b => a.1 ≠ b.1)
    (h : overridden store (settingsOf floors) = .ok store')
    (hread : Settings.ofJson? store'.values = some settings) {floor : Floor} {x : Float}
    (hmem : (floor, x) ∈ floors) : floor.of settings.standards = x :=
  (eq_of_asFloat?_ofFloat (Floor.asFloat?_of_ofJson? hread
    ((at?_of_overridden hdistinct h).1 _ hmem))).symm

/-- **Numbers that are set as floors leave settings readable.** -/
theorem readable_overridden (hfinite : ∀ entry ∈ floors, entry.2.isFinite = true)
    (hread : store.Readable) (h : overridden store (settingsOf floors) = .ok store') :
    store'.Readable := by
  induction floors generalizing store with
  | nil =>
    obtain rfl := Except.ok.inj h
    exact hread
  | cons first rest ih =>
    obtain ⟨hfirst, hrest⟩ := List.forall_mem_cons.mp hfinite
    obtain ⟨next, hset, hmore⟩ := overridden_cons_eq_ok_iff.mp h
    obtain ⟨settings, hsettings⟩ := Option.isSome_iff_exists.mp hread
    have hvalue : Json.asFloat? (Json.ofFloat first.2) = some first.2 := by
      rw [Json.ofFloat, if_pos hfirst]
      rfl
    have hnext := Floor.ofJson?_setAt? hsettings hvalue (Floor.set_eq_ok_iff.mp hset)
    exact ih hrest (Option.isSome_iff_exists.mpr ⟨_, hnext⟩) hmore

/-! ## Runs -/

/-- The directory that a check is about. -/
def rootOf (around : Surroundings) (o : CheckOptions) : Path :=
  Project.plainRoot around.files (o.path.getD ⟨"."⟩)

/-- The settings file over the built-in settings, and the files after it was
loaded. -/
def loaded (around : Surroundings) (o : CheckOptions) : SettingsStore × FileSystem :=
  SettingsStore.load around.files (settingsPath o (rootOf around o))

/-- All that is set for a check. -/
def gathered (around : Surroundings) (o : CheckOptions) : Except SettingsError SettingsStore :=
  overridden (loaded around o).1 (overridesOf o)

/-- The project that is checked with these settings. -/
def projectUnder (around : Surroundings) (o : CheckOptions) (settings : Settings) : Project :=
  Project.atRoot (loaded around o).2 (rootOf around o) settings

/-- The report of the check with these settings. -/
def reportUnder (around : Surroundings) (o : CheckOptions) (settings : Settings) : Report :=
  reportOf (projectUnder around o settings) (rangeOf o around.environment) around.versionControl

/-- **A check with these floors.** The run passes if its coverage reaches
one, and a document is adequate if its score reaches the other. -/
structure GatesAt (coverage quality : Float) (around : Surroundings) (o : CheckOptions)
    (settings : Settings) (completion : Completion) : Prop where
  passes : completion.exitCode = 0 ↔ coverage ≤ (reportUnder around o settings).coverage
  fails : completion.exitCode = 1 ↔ ¬ coverage ≤ (reportUnder around o settings).coverage
  separates : ∀ file document,
    ((projectUnder around o settings).outcome file (some document)).isAdequate = true ↔
      quality ≤ (projectUnder around o settings).scoreFor file document
  printed : completion.output =
    printed o around.colours around.now (reportUnder around o settings) coverage

theorem gatesAt_conclude (around : Surroundings) (o : CheckOptions) (settings : Settings) :
    GatesAt settings.minimumCoverage settings.minimumQuality around o settings
      (conclude around o (loaded around o).2 (rootOf around o) settings) where
  passes := by
    change (if decide (settings.minimumCoverage ≤ (reportUnder around o settings).coverage) = true
      then 0 else 1) = 0 ↔ _
    by_cases hreach : settings.minimumCoverage ≤ (reportUnder around o settings).coverage
    · simp [hreach]
    · simp [hreach]
  fails := by
    change (if decide (settings.minimumCoverage ≤ (reportUnder around o settings).coverage) = true
      then 0 else 1) = 1 ↔ _
    by_cases hreach : settings.minimumCoverage ≤ (reportUnder around o settings).coverage
    · simp [hreach]
    · simp [hreach]
  separates file document := by
    change (if settings.minimumQuality ≤ (projectUnder around o settings).scoreFor file document
      then Outcome.adequate _ else Outcome.inadequate _ _).isAdequate = true ↔ _
    by_cases hreach : settings.minimumQuality ≤
        (projectUnder around o settings).scoreFor file document
    · simp [hreach, Outcome.isAdequate, Outcome.gap?]
    · simp [hreach, Outcome.isAdequate, Outcome.gap?]
  printed := rfl

/-- A check of a directory, by what is gathered for it. -/
theorem runCheck_eq (h : around.files.isDirectory (o.path.getD ⟨"."⟩) = true) :
    runCheck around o = match gathered around o with
      | .error error =>
        .failing (loaded around o).2 (errorMessage around.colours (explained error))
      | .ok store => conclude around o (loaded around o).2 (rootOf around o) store.build := by
  unfold runCheck
  dsimp only
  rw [if_pos h]
  rfl

/-- **How a check ends**: with an error, or gated by the settings that were
gathered. -/
theorem runCheck_cases (around : Surroundings) (o : CheckOptions) :
    ((runCheck around o).exitCode = 2 ∧
      (around.files.isDirectory (o.path.getD ⟨"."⟩) = false ∨
        ∃ error, gathered around o = .error error)) ∨
    ∃ store, gathered around o = .ok store ∧
      GatesAt store.build.minimumCoverage store.build.minimumQuality around o store.build
        (runCheck around o) := by
  cases hdir : around.files.isDirectory (o.path.getD ⟨"."⟩) with
  | false =>
    refine .inl ⟨?_, .inl rfl⟩
    unfold runCheck
    dsimp only
    rw [hdir, if_neg Bool.false_ne_true]
    rfl
  | true =>
    rw [runCheck_eq hdir]
    cases hgathered : gathered around o with
    | error error => exact .inl ⟨rfl, .inr ⟨error, rfl⟩⟩
    | ok store => exact .inr ⟨store, rfl, gatesAt_conclude around o store.build⟩

theorem run_of_ofArguments (h : Command.ofArguments arguments = .ok (.check o)) :
    run around arguments = runCheck around o := by
  rw [run, h]
  rfl

/-! ## Floors of a run -/

/-- A floor that is given is the one of the settings, if these can be
read. -/
theorem of_gathered (hset : o.overrides = []) (h : gathered around o = .ok store)
    (hread : store.Readable) {floor : Floor} {x : Float} (hmem : (floor, x) ∈ floorsOf o) :
    floor.of store.build.standards = x := by
  obtain ⟨settings, hsettings⟩ := Option.isSome_iff_exists.mp hread
  rw [gathered, overridesOf_eq hset] at h
  rw [SettingsStore.build_of_ofJson? hsettings]
  exact of_overridden (pairwise_floorsOf o) h hsettings hmem

/-- Numbers that are given leave readable what was readable. -/
theorem readable_gathered (hset : o.overrides = []) (h : gathered around o = .ok store)
    (hread : (loaded around o).1.Readable)
    (hcoverage : ∀ x, o.coverageFloor = some x → x.isFinite = true)
    (hquality : ∀ x, o.qualityFloor = some x → x.isFinite = true) : store.Readable := by
  rw [gathered, overridesOf_eq hset] at h
  refine readable_overridden (fun ⟨floor, x⟩ hmem => ?_) hread h
  cases floor with
  | coverage => exact hcoverage x (mem_floorsOf.mp hmem)
  | quality => exact hquality x (mem_floorsOf.mp hmem)

/-- **The floors of a run.** A check to which numbers are given as floors,
and no other overrides, ends with an error or is gated. If what was gathered
can be read as settings, it is gated by the floors that were given, and this
is so if the settings file can be read. If not, the built-in floors hold. -/
theorem run_gates (hargs : Command.ofArguments arguments = .ok (.check o))
    (hset : o.overrides = []) (hcoverage : ∀ x, o.coverageFloor = some x → x.isFinite = true)
    (hquality : ∀ x, o.qualityFloor = some x → x.isFinite = true) :
    ((run around arguments).exitCode = 2 ∧
      (around.files.isDirectory (o.path.getD ⟨"."⟩) = false ∨
        ∃ error, gathered around o = .error error)) ∨
    ∃ store, gathered around o = .ok store ∧
      (store.Readable →
        GatesAt (o.coverageFloor.getD store.build.minimumCoverage)
          (o.qualityFloor.getD store.build.minimumQuality) around o store.build
          (run around arguments)) ∧
      ((loaded around o).1.Readable → store.Readable) ∧
      (¬ store.Readable → GatesAt 85.0 0.7 around o Settings.builtIn (run around arguments)) := by
  rw [run_of_ofArguments hargs]
  refine (runCheck_cases around o).imp_right fun ⟨store, hgathered, hgates⟩ => ?_
  refine ⟨store, hgathered, fun hread => ?_,
    fun hread => readable_gathered hset hgathered hread hcoverage hquality, fun hunread => ?_⟩
  · have hcoverage : o.coverageFloor.getD store.build.minimumCoverage =
        store.build.minimumCoverage := by
      cases hgiven : o.coverageFloor with
      | none => rfl
      | some x => exact (of_gathered hset hgathered hread
          ((@mem_floorsOf o .coverage x).mpr hgiven)).symm
    have hquality : o.qualityFloor.getD store.build.minimumQuality =
        store.build.minimumQuality := by
      cases hgiven : o.qualityFloor with
      | none => rfl
      | some x => exact (of_gathered hset hgathered hread
          ((@mem_floorsOf o .quality x).mpr hgiven)).symm
    rwa [hcoverage, hquality]
  · rw [SettingsStore.build_of_not_readable hunread] at hgates
    exact hgates

/-! ## Floors that are given and do not hold -/

/-- A menu without a document, beside a settings file. -/
def menu (settings : String) : Surroundings where
  files := (((FileSystem.empty.put [".docgaprc.json"] (.file (.text settings))).put
    ["src"] .directory).put ["src", "components"] .directory).put
      ["src", "components", "Menu.tsx"] (.file (.text ""))
  environment := fun _ => none
  versionControl := fun _ => none
  colours := false
  now := ""

/-- A quiet check with a coverage floor. -/
def quietly (floor : Float) : CheckOptions :=
  { CheckOptions.plain with quiet := true, coverageFloor := some floor }

/-- With settings that can be read, a floor of zero is the floor. -/
theorem run_gates_menu :
    Command.ofArguments ["--quiet", "--fail-under", "0"] = .ok (.check (quietly 0.0)) ∧
      (quietly 0.0).overrides = [] ∧ Float.isFinite 0.0 = true ∧
      ∃ store, gathered (menu "{}") (quietly 0.0) = .ok store ∧
        GatesAt 0.0 store.build.minimumQuality (menu "{}") (quietly 0.0) store.build
          (run (menu "{}") ["--quiet", "--fail-under", "0"]) := by
  refine ⟨rfl, rfl, by decide, ?_⟩
  have hcoverage : ∀ x, (quietly 0.0).coverageFloor = some x → x.isFinite = true := by
    intro x hx
    obtain rfl := Option.some_inj.mp hx
    decide
  have hloaded : (loaded (menu "{}") (quietly 0.0)).1.Readable := by
    unfold SettingsStore.Readable
    decide +kernel
  rcases @run_gates (menu "{}") ["--quiet", "--fail-under", "0"] (quietly 0.0) rfl rfl hcoverage
      (fun x hx => nomatch hx) with
    ⟨-, hdir | ⟨error, herror⟩⟩ | ⟨store, hgathered, hgates, hreadable, -⟩
  · have hthere : (menu "{}").files.isDirectory ⟨"."⟩ = true := by decide +kernel
    exact absurd (hthere.symm.trans hdir) Bool.false_ne_true.symm
  · have hok : (gathered (menu "{}") (quietly 0.0)).toBool = true := by decide +kernel
    rw [herror] at hok
    cases hok
  · exact ⟨store, hgathered, hgates (hreadable hloaded)⟩

/-- A check that fails although its coverage reaches some other floor. -/
theorem fails_of_any {floor : Float}
    (h : ((gathered around o).toOption.any fun store =>
      !decide (store.build.minimumCoverage ≤ (reportUnder around o store.build).coverage) &&
        decide (floor ≤ (reportUnder around o store.build).coverage)) = true)
    (hdir : around.files.isDirectory (o.path.getD ⟨"."⟩) = true) :
    (runCheck around o).exitCode = 1 ∧ ∃ store, gathered around o = .ok store ∧
      floor ≤ (reportUnder around o store.build).coverage := by
  cases hgathered : gathered around o with
  | error error =>
    rw [hgathered] at h
    cases h
  | ok store =>
    rw [hgathered] at h
    obtain ⟨hlow, hreach⟩ := (Bool.and_eq_true _ _).mp h
    rw [Bool.not_eq_true', decide_eq_false_iff_not] at hlow
    rw [runCheck_eq hdir, hgathered]
    exact ⟨(gatesAt_conclude around o store.build).fails.mpr hlow, store, rfl,
      of_decide_eq_true hreach⟩

/-- A settings file with a text where a number should be. -/
def misshapen : String :=
  "\x7b\"documentation_standards\":\x7b\"minimum_quality_score\":\"high\"\x7d\x7d"

/-- **A floor that is given does not always hold.** A file that cannot be
read as settings takes the given floor down with it, and so does a floor that
is no number. -/
theorem run_fails_below_built_in :
    Command.ofArguments ["--quiet", "--fail-under", "0"] = .ok (.check (quietly 0.0)) ∧
      (run (menu misshapen) ["--quiet", "--fail-under", "0"]).exitCode = 1 ∧
      (∃ store, gathered (menu misshapen) (quietly 0.0) = .ok store ∧
        0.0 ≤ (reportUnder (menu misshapen) (quietly 0.0) store.build).coverage) ∧
    Command.ofArguments ["--quiet", "--fail-under=-inf"] =
        .ok (.check (quietly (-(1.0 / 0.0)))) ∧
      (run (menu "{}") ["--quiet", "--fail-under=-inf"]).exitCode = 1 ∧
      ∃ store, gathered (menu "{}") (quietly (-(1.0 / 0.0))) = .ok store ∧
        -(1.0 / 0.0) ≤ (reportUnder (menu "{}") (quietly (-(1.0 / 0.0))) store.build).coverage := by
  obtain ⟨hzero, hreach⟩ := @fails_of_any (menu misshapen) (quietly 0.0) 0.0
    (by decide +kernel) (by decide +kernel)
  obtain ⟨hinfinite, hreach'⟩ := @fails_of_any (menu "{}") (quietly (-(1.0 / 0.0))) (-(1.0 / 0.0))
    (by decide +kernel) (by decide +kernel)
  exact ⟨rfl, hzero, hreach, rfl, hinfinite, hreach'⟩

end CommandLine

end DocCoverage
