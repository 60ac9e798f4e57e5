import DocCoverage.Proofs.CommandLine.Display
import DocCoverage.Proofs.CommandLine.Floors
/-!
# Command line — the verdict of a check

A check ends with an error if there is no directory to check or an override
is refused. Otherwise it passes if the coverage that it reports reaches the
floor, and fails if not. How the report is displayed has no part in this, nor
in what is left in the file system (`run_verdict`).
-/

namespace DocCoverage

namespace CommandLine

variable {around : Surroundings} {arguments : List String} {o o' : CheckOptions}
  {store : SettingsStore}

/-! ## Exit codes -/

/-- **A check ends with an error** if there is no directory to check or an
override is refused, and only then. -/
theorem exitCode_eq_two_iff (around : Surroundings) (o : CheckOptions) :
    (runCheck around o).exitCode = 2 ↔ around.files.isDirectory (o.path.getD ⟨"."⟩) = false ∨
      Refuses (loaded around o).1 (overridesOf o) := by
  cases hdir : around.files.isDirectory (o.path.getD ⟨"."⟩) with
  | false =>
    refine iff_of_true ?_ (.inl rfl)
    unfold runCheck
    dsimp only
    rw [hdir, if_neg Bool.false_ne_true]
    rfl
  | true =>
    rw [runCheck_eq hdir, ← exists_error_iff, or_iff_right Bool.false_ne_true.symm]
    change _ ↔ ∃ error, gathered around o = .error error
    cases hgathered : gathered around o with
    | error error => exact iff_of_true rfl ⟨error, rfl⟩
    | ok store =>
      refine iff_of_false (fun hcode => ?_) fun ⟨_, h⟩ => nomatch h
      change (if _ then 0 else 1) = 2 at hcode
      split at hcode <;> cases hcode

/-! ## The display -/

/-- **The display has no part in the verdict** and in what is left in the
file system. -/
theorem runCheck_withoutDisplay (around : Surroundings) (o : CheckOptions) :
    (runCheck around o).exitCode = (runCheck around o.withoutDisplay).exitCode ∧
      (runCheck around o).files = (runCheck around o.withoutDisplay).files ∧
      (runCheck around o).request = (runCheck around o.withoutDisplay).request := by
  cases hdir : around.files.isDirectory (o.path.getD ⟨"."⟩) with
  | false =>
    have hfails (o : CheckOptions) (h : around.files.isDirectory (o.path.getD ⟨"."⟩) = false) :
        runCheck around o = .failing around.files
          (errorMessage around.colours ((o.path.getD ⟨"."⟩).text ++ " is not a directory")) := by
      unfold runCheck
      dsimp only
      rw [h, if_neg Bool.false_ne_true]
    rw [hfails o hdir, hfails o.withoutDisplay hdir]
    exact ⟨rfl, rfl, rfl⟩
  | true =>
    have hsame : gathered around o.withoutDisplay = gathered around o := rfl
    rw [runCheck_eq hdir, @runCheck_eq around o.withoutDisplay hdir, hsame]
    cases gathered around o with
    | error error => exact ⟨rfl, rfl, rfl⟩
    | ok store => exact ⟨rfl, rfl, rfl⟩

theorem gathered_congr (h : o'.withoutDisplay = o.withoutDisplay) :
    gathered around o' = gathered around o := by
  change gathered around o'.withoutDisplay = gathered around o.withoutDisplay
  rw [h]

theorem reportUnder_congr (h : o'.withoutDisplay = o.withoutDisplay) (settings : Settings) :
    reportUnder around o' settings = reportUnder around o settings := by
  change reportUnder around o'.withoutDisplay settings = reportUnder around o.withoutDisplay settings
  rw [h]

/-! ## The verdict -/

/-- **The verdict of a check.** It ends with an error if there is no directory
to check or an override is refused by what those in front of it have made of
the loaded settings. Otherwise it passes just if the coverage of its report
reaches the floor that was gathered. Arguments that differ only in the flags
for the display lead to the same verdict, the same report, and the same
files. -/
theorem run_verdict (hargs : Command.ofArguments arguments = .ok (.check o)) :
    ((run around arguments).exitCode = 2 ↔
      around.files.isDirectory (o.path.getD ⟨"."⟩) = false ∨
        Refuses (loaded around o).1 (overridesOf o)) ∧
    ((run around arguments).exitCode ≠ 2 → ∃ store,
      overridden (loaded around o).1 (overridesOf o) = .ok store ∧
      (run around arguments).exitCode =
        (if store.build.minimumCoverage ≤ (reportUnder around o store.build).coverage then 0
          else 1) ∧
      (run around arguments).output = printed o around.colours around.now
        (reportUnder around o store.build) store.build.minimumCoverage) ∧
    ∀ arguments' o', Command.ofArguments arguments' = .ok (.check o') →
      withoutDisplay arguments' = withoutDisplay arguments →
      (run around arguments').exitCode = (run around arguments).exitCode ∧
        (run around arguments').files = (run around arguments).files ∧
        gathered around o' = gathered around o ∧
        ∀ settings, reportUnder around o' settings = reportUnder around o settings := by
  rw [run_of_ofArguments hargs]
  refine ⟨exitCode_eq_two_iff around o, fun hcode => ?_, fun arguments' o' hargs' hsame => ?_⟩
  · rcases runCheck_cases around o with ⟨htwo, -⟩ | ⟨store, hgathered, hgates⟩
    · exact absurd htwo hcode
    · refine ⟨store, hgathered, ?_, hgates.printed⟩
      split
      next hreach => exact hgates.passes.mpr hreach
      next hreach => exact hgates.fails.mpr hreach
  · have hoptions := CheckOptions.withoutDisplay_eq_of_ofArguments hargs hargs' hsame
    obtain ⟨hcode, hfiles, -⟩ := runCheck_withoutDisplay around o
    obtain ⟨hcode', hfiles', -⟩ := runCheck_withoutDisplay around o'
    rw [run_of_ofArguments hargs', hcode', hfiles', hoptions, ← hcode, ← hfiles]
    exact ⟨rfl, rfl, gathered_congr hoptions, reportUnder_congr hoptions⟩

/-- A quiet check and one that is told at length, as JSON. -/
theorem run_verdict_menu :
    Command.ofArguments ["--quiet", "--fail-under", "0"] = .ok (.check (quietly 0.0)) ∧
      Command.ofArguments ["-jv", "--fail-under", "0"] = .ok (.check
        { quietly 0.0 with quiet := false, json := true, verbose := true }) ∧
      ((run (menu "{}") ["--quiet", "--fail-under", "0"]).exitCode = 2 ↔
        (menu "{}").files.isDirectory ⟨"."⟩ = false ∨
          Refuses (loaded (menu "{}") (quietly 0.0)).1 [("fail_under", .float 0.0)]) ∧
      (run (menu "{}") ["-jv", "--fail-under", "0"]).exitCode =
        (run (menu "{}") ["--quiet", "--fail-under", "0"]).exitCode := by
  obtain ⟨hcode, -, hdisplay⟩ :=
    @run_verdict (menu "{}") ["--quiet", "--fail-under", "0"] (quietly 0.0) rfl
  obtain ⟨hsame, -, -, -⟩ := hdisplay ["-jv", "--fail-under", "0"] _ rfl rfl
  exact ⟨rfl, rfl, hcode, hsame⟩

end CommandLine

end DocCoverage
