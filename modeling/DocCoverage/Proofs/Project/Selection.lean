import DocCoverage.Proofs.FileSystem.Limits
import DocCoverage.Proofs.Project.Candidates
import DocCoverage.Proofs.Project.Verdict
import DocCoverage.Proofs.Text.Growth
/-!
# Projects — which files are selected

The candidates below a root are the files that a valid pattern matches and no
exclusion names, if they can be looked up by the path that the pattern spells,
whichever way they were found and spelled, each of them once and in increasing
order. Those that need documentation are discovered (`candidates_selected`). A
file that is too far away is no candidate (`candidates_too_far`).
-/

namespace DocCoverage

namespace Path

variable {path : Path}

/-- A path without a lead is nothing but its steps. -/
theorem components_eq_steps (h : path.lead? = none) : path.components = path.steps := by
  rw [components_eq, front, h, List.nil_append]

end Path

namespace Glob

open DocCoverage.Path (Component)

variable {trail : List String}

/-- A spelled trail has no dot in front. -/
theorem lead?_spelled (h : ∀ segment ∈ trail, '/' ∉ segment.toList) :
    (spelled trail).lead? = none := by
  have hfree := slash_not_mem_spelled h
  rw [Path.lead?, isAbsolute_spelled h, if_neg Bool.false_ne_true, if_neg]
  rw [spelled]
  cases hsegments : (trail.filter (· != "")).dropWhile (· == ".") with
  | nil => decide
  | cons first rest =>
    rw [hsegments] at hfree
    rw [Path.segments_ofSegments (List.cons_ne_nil _ _) hfree, List.head?_cons]
    intro hdot
    obtain rfl := Option.some_inj.mp hdot
    have hhead := List.head?_dropWhile_not (· == ".") (trail.filter (· != ""))
    rw [hsegments] at hhead
    simp at hhead

/-- A trail that is meant spells the components that are meant. -/
theorem components_spelled {segments : List GlobSegment} {steps : List Component}
    (h : ∀ segment ∈ trail, '/' ∉ segment.toList) (hmeans : Means segments trail steps) :
    (spelled trail).components = steps := by
  rw [Path.components_eq_steps (lead?_spelled h), steps_spelled h, filterMap_of_means hmeans]

/-- A spelled trail leads where the trail was walked to. -/
theorem walk_spelled {fs : FileSystem} {base place : Location}
    (h : ∀ segment ∈ trail, '/' ∉ segment.toList)
    (hsteps : trail.filterMap Component.ofSegment? ≠ []) (hwalk : fs.walk base trail = .ok place) :
    fs.walk base (spelled trail).segments = .ok place := by
  have hne : (trail.filter (· != "")).dropWhile (· == ".") ≠ [] := by
    intro hnil
    rw [← steps_spelled h, spelled, hnil] at hsteps
    exact hsteps rfl
  rw [spelled, Path.segments_ofSegments hne (slash_not_mem_spelled h)]
  have hwritten : fs.walk base (trail.filter (· != "")) = .ok place :=
    FileSystem.walk_filter (fun s hs => Path.ofSegment?_eq_none_iff.mpr (.inl (by simpa using hs)))
      hwalk
  exact FileSystem.walk_dropWhile (fun s hs =>
    Path.ofSegment?_eq_none_iff.mpr (.inr (beq_iff_eq.mp hs))) hwritten

end Glob

/-- No pattern of the settings has a segment that stands for these dots. -/
def Settings.NeverOffers (settings : Settings) (dots : String) : Prop :=
  ∀ label pattern glob, (label, pattern) ∈ settings.sources.filePatterns →
    Glob.ofText? pattern = some glob → ∀ segment ∈ glob.segments, ¬ GlobSegment.Offers segment dots

theorem Settings.neverOffers_of_refuses {settings : Settings} {dots : String}
    (hdots : dots = "." ∨ dots = "..")
    (h : ∀ entry ∈ settings.sources.filePatterns, ∀ glob ∈ Glob.ofText? entry.2,
      ∀ segment ∈ glob.segments, segment.refuses dots = true) : settings.NeverOffers dots :=
  fun _ _ glob hpattern hglob segment hmem =>
    GlobSegment.not_offers_of_refuses hdots (h _ hpattern glob hglob segment hmem)

/-- Patterns without dots spell the components of a path. -/
theorem Settings.MatchesAlong.written_eq {settings : Settings} {trail : List String}
    {steps : List Path.Component} (h : settings.MatchesAlong trail steps)
    (hdots : settings.NeverOffers ".") :
    Glob.written trail = Path.ofSegments (steps.map Path.Component.text) := by
  obtain ⟨label, pattern, glob, hpattern, hglob, -, hmeans⟩ := h
  exact Glob.written_of_means hmeans (hdots label pattern glob hpattern hglob)

namespace Project

open DocCoverage.Path (Component)
open FileSystem (pathFault? apart farAway)

variable {project : Project} {base : Location} {glob : Glob} {path : Path} {steps : List Component}
  {trail : List String}

/-! ## What is found -/

section Found

variable (hroot : project.files.resolve project.root = .ok base)
include hroot

/-- What is found below a root can be looked up by the trail on which it is
found, and so by its own path. -/
theorem FoundOn.pathFault?_full (h : project.FoundOn trail path) :
    pathFault? (project.full path) = none := by
  have hfault := h.fault
  rw [lookedUp_of_resolve hroot] at hfault
  rw [h.eq_spell, spell, hroot]
  exact FileSystem.pathFault?_join_of_suffix (FileSystem.text_ne_of_resolve hroot)
    (Glob.isAbsolute_spelled h.slash_not_mem) (Glob.isAbsolute_written h.slash_not_mem)
    (Glob.spelled_suffix trail) hfault

/-- **What is found is a file.** -/
theorem isFile_of_mem_found (h : path ∈ project.found) :
    project.files.isFile (project.full path) = true := by
  obtain ⟨trail, hon⟩ := exists_trail_of_mem_found h
  have hsteps : trail.filterMap Component.ofSegment? ≠ [] := by
    obtain ⟨_, _, glob, -, hglob, hmeant⟩ := hon.meant
    rw [Glob.filterMap_of_means hmeant.2]
    exact Glob.steps_ne_nil_of_matches hglob hmeant
  have hwalk := Glob.walk_spelled hon.slash_not_mem hsteps hon.walk
  have hspell : project.spell = Glob.spelled := by rw [spell, hroot]
  have hfault : pathFault? (project.root.join path) = none := hon.pathFault?_full hroot
  rw [← hspell, ← hon.eq_spell, base_of_resolve hroot] at hwalk
  rw [FileSystem.isFile_eq, full, FileSystem.content?_join hroot (isAbsolute_of_mem_found hroot h),
    FileSystem.unlessFault, if_pos hfault, FileSystem.contentFrom?, hwalk]
  exact hon.isFile

theorem exists_match_iff (hplain : Glob.Plain glob.segments) :
    (∃ path ∈ project.matchesOf glob, path.components = steps) ↔
      (∃ trail, glob.MatchesAlong trail steps ∧
        pathFault? (project.full (Glob.written trail)) = none) ∧
      (project.files.contentFrom? base (steps.map Component.text)).isSome := by
  rw [matchesOf, hroot]
  constructor
  · rintro ⟨path, hpath, hsteps⟩
    obtain ⟨trail, hmem, rfl⟩ := List.mem_map.mp hpath
    obtain ⟨htrail, hfault⟩ := (Glob.mem_fileTrails_iff glob).mp hmem
    obtain ⟨steps', hmeant, hfile⟩ := (Glob.mem_trailsToFiles_iff glob).mp htrail
    have hslash := (Glob.of_mem_trailsToFiles hplain htrail).2
    obtain rfl := (Glob.components_spelled hslash hmeant.2).symm.trans hsteps
    exact ⟨⟨trail, hmeant, hfault⟩, hfile⟩
  · rintro ⟨⟨trail, hmeant, hfault⟩, hfile⟩
    have htrail := (Glob.mem_trailsToFiles_iff glob).mpr ⟨steps, hmeant, hfile⟩
    have hslash := (Glob.of_mem_trailsToFiles hplain htrail).2
    exact ⟨_, List.mem_map_of_mem ((Glob.mem_fileTrails_iff glob).mpr ⟨htrail, hfault⟩),
      Glob.components_spelled hslash hmeant.2⟩

/-- **What is found** are the files that a valid pattern matches along a trail
by which they can be looked up. -/
theorem exists_found_iff : (∃ path ∈ project.found, path.components = steps) ↔
    (∃ trail, project.settings.MatchesAlong trail steps ∧
      pathFault? (project.full (Glob.written trail)) = none) ∧
    (project.files.contentFrom? base (steps.map Component.text)).isSome := by
  constructor
  · rintro ⟨path, hpath, hsteps⟩
    obtain ⟨label, pattern, glob, hpattern, hglob, hmatch⟩ := mem_found.mp hpath
    obtain ⟨⟨trail, hmeant, hfault⟩, hfile⟩ :=
      (exists_match_iff hroot (Glob.plain_of_ofText? hglob)).mp ⟨path, hmatch, hsteps⟩
    exact ⟨⟨trail, ⟨label, pattern, glob, hpattern, hglob, hmeant⟩, hfault⟩, hfile⟩
  · rintro ⟨⟨trail, ⟨label, pattern, glob, hpattern, hglob, hmeant⟩, hfault⟩, hfile⟩
    obtain ⟨path, hmatch, hsteps⟩ := (exists_match_iff hroot (Glob.plain_of_ofText? hglob)).mpr
      ⟨⟨trail, hmeant, hfault⟩, hfile⟩
    exact ⟨path, mem_found.mpr ⟨label, pattern, glob, hpattern, hglob, hmatch⟩, hsteps⟩

/-- A valid pattern matches what is found. -/
theorem exists_matches_of_mem_found (h : path ∈ project.found) :
    ∃ label pattern glob, (label, pattern) ∈ project.settings.sources.filePatterns ∧
      Glob.ofText? pattern = some glob ∧ glob.Matches path.components := by
  obtain ⟨⟨trail, ⟨label, pattern, glob, hpattern, hglob, hmeant⟩, -⟩, -⟩ :=
    (exists_found_iff hroot).mp ⟨path, h, rfl⟩
  exact ⟨label, pattern, glob, hpattern, hglob, trail, hmeant⟩

/-- Files are found only below a directory. -/
theorem entry?_of_mem_found (h : path ∈ project.found) :
    project.files.entry? base = some .directory := by
  obtain ⟨⟨_, ⟨_, _, glob, -, hglob, hmeant⟩, -⟩, hfile⟩ :=
    (exists_found_iff hroot).mp ⟨path, h, rfl⟩
  obtain ⟨content, hcontent⟩ := Option.isSome_iff_exists.mp hfile
  obtain ⟨place, hwalk, -⟩ := FileSystem.contentFrom?_eq_some_iff.mp hcontent
  exact FileSystem.entry?_of_walk_ok hwalk
    (mt List.map_eq_nil_iff.mp (Glob.steps_ne_nil_of_matches hglob hmeant))

end Found

/-! ## What is excluded -/

/-- An exclusion names the components of a path if what it is without
asterisks is not empty and occurs in the path. -/
def Excludes (exclusion : String) (steps : List Component) : Prop :=
  exclusion.toList.filter (· != '*') ≠ [] ∧
    exclusion.toList.filter (· != '*') <:+: ("/".intercalate (steps.map Component.text)).toList

instance (exclusion : String) (steps : List Component) : Decidable (Excludes exclusion steps) :=
  inferInstanceAs (Decidable (_ ∧ _))

theorem isExcluded_iff {settings : Settings} : isExcluded settings path = true ↔
    ∃ exclusion ∈ settings.sources.excludePatterns, Excludes exclusion path.components := by
  simp only [isExcluded, exclusions, List.any_eq_true, List.mem_filter, List.mem_map,
    Text.occursIn_iff, Excludes, Path.slashed, Text.without]
  constructor
  · rintro ⟨-, ⟨⟨exclusion, hmem, rfl⟩, hne⟩, hoccurs⟩
    exact ⟨exclusion, hmem, by simpa using hne, hoccurs⟩
  · rintro ⟨exclusion, hmem, hne, hoccurs⟩
    exact ⟨_, ⟨⟨exclusion, hmem, rfl⟩, by simpa using hne⟩, hoccurs⟩

theorem isExcluded_eq_false_iff {settings : Settings} : isExcluded settings path = false ↔
    ∀ exclusion ∈ settings.sources.excludePatterns, ¬ Excludes exclusion path.components := by
  rw [← Bool.not_eq_true, isExcluded_iff]
  push Not
  rfl

/-! ## What is selected -/

/-- Of a path that is found and not excluded a spelling is a candidate. -/
theorem exists_candidate_iff : (∃ path ∈ project.candidates, path.components = steps) ↔
    ∃ path ∈ project.found, path.components = steps ∧
      isExcluded project.settings path = false := by
  constructor
  · rintro ⟨path, hpath, hsteps⟩
    have hmem := List.mem_of_find?_eq_some (mem_candidates.mp hpath)
    obtain ⟨hfound, hexcluded⟩ := List.mem_filter.mp hmem
    exact ⟨path, hfound, hsteps, Bool.not_eq_true' _ ▸ hexcluded⟩
  · rintro ⟨path, hfound, rfl, hexcluded⟩
    have hmem : path ∈ project.found.filter fun path => !isExcluded project.settings path :=
      List.mem_filter.mpr ⟨hfound, by rw [hexcluded]; rfl⟩
    have hsome : ((project.found.filter fun path => !isExcluded project.settings path).find?
        path.same).isSome := List.find?_isSome.mpr ⟨path, hmem, Path.same_refl path⟩
    obtain ⟨first, hfirst⟩ := Option.isSome_iff_exists.mp hsome
    -- the first spelling of the path is the first of itself
    have hsame : path.same first = true := List.find?_some hfirst
    have hclass : first.same = path.same :=
      funext fun other => (Path.same_congr_left hsame other).symm
    exact ⟨first, mem_candidates.mpr (hclass ▸ hfirst), (Path.same_iff.mp hsame).symm⟩

/-- **The selection.** Below a root that is there, the candidates are the files
that a valid pattern matches and no exclusion names, if the path by which the
pattern leads to them can be followed: without dots in the patterns, their own
path below the root. Each of them is a candidate once, in increasing order, and
a file; an invalid pattern changes nothing. The discovered files are those
candidates, in their order, that need documentation. -/
theorem candidates_selected {project : Project} {base : Location}
    (hroot : project.files.resolve project.root = .ok base) :
    (∀ steps : List Component, (∃ path ∈ project.candidates, path.components = steps) ↔
      (project.files.contentFrom? base (steps.map Component.text)).isSome ∧
      (∃ trail, project.settings.MatchesAlong trail steps ∧
        pathFault? (project.full (Glob.written trail)) = none) ∧
      ∀ exclusion ∈ project.settings.sources.excludePatterns, ¬ Excludes exclusion steps) ∧
    (project.settings.NeverOffers "." → ∀ trail steps, project.settings.MatchesAlong trail steps →
      Glob.written trail = Path.ofSegments (steps.map Component.text)) ∧
    Path.Increasing project.candidates ∧
    (∀ path ∈ project.candidates, project.files.isFile (project.full path) = true) ∧
    project.discover =
      (project.candidates.map project.describe).filter (·.needsDocumentation) ∧
    Path.Increasing (project.discover.map CodeFile.path) := by
  refine ⟨fun steps => ?_, fun hdots trail steps hmeant => hmeant.written_eq hdots,
    increasing_candidates, fun path hpath => ?_, rfl, increasing_discover⟩
  · have hfound := @exists_found_iff project base steps hroot
    rw [exists_candidate_iff]
    constructor
    · rintro ⟨path, hpath, rfl, hexcluded⟩
      obtain ⟨hpattern, hfile⟩ := hfound.mp ⟨path, hpath, rfl⟩
      exact ⟨hfile, hpattern, isExcluded_eq_false_iff.mp hexcluded⟩
    · rintro ⟨hfile, hpattern, hnone⟩
      obtain ⟨path, hpath, rfl⟩ := hfound.mpr ⟨hpattern, hfile⟩
      exact ⟨path, hpath, rfl, isExcluded_eq_false_iff.mpr hnone⟩
  · exact isFile_of_mem_found hroot (mem_found_of_mem_candidates hpath)

/-- A service and its test, and patterns of which two match the service and
one is invalid. -/
def overlapping : Project where
  files := ((FileSystem.empty.put ["services"] .directory).put ["services", "run.ts"]
    (.file (.text ""))).put ["services", "run.test.ts"] (.file (.text ""))
  root := ⟨"/"⟩
  settings :=
    { standards := ⟨0.7, 85.0, [], []⟩
      sources := ⟨[("any", "services/*.ts"), ("bad", "services/[*.ts"),
        ("this", "services//./run.ts")], ["*.test.*", "*"], Thresholds.builtIn⟩
      documents := ⟨["index.md"], []⟩ }

theorem candidates_selected_overlapping :
    overlapping.files.resolve overlapping.root = .ok [] ∧
    (∃ path ∈ overlapping.candidates, path.components = [.name "services", .name "run.ts"]) ∧
    (¬ ∃ path ∈ overlapping.candidates,
      path.components = [.name "services", .name "run.test.ts"]) ∧
    Path.Increasing overlapping.candidates := by
  have hroot : overlapping.files.resolve overlapping.root = .ok [] := rfl
  obtain ⟨hselected, -, hincreasing, -⟩ := candidates_selected hroot
  refine ⟨hroot, (hselected _).mpr ⟨by decide +kernel, ?_, by decide +kernel⟩, ?_, hincreasing⟩
  · refine ⟨["services", "", ".", "run.ts"], ⟨"this", "services//./run.ts",
      ⟨[.plain "services", .plain "", .plain ".", .plain "run.ts"], false⟩, by decide,
      by decide +kernel, rfl, ?_⟩, by decide +kernel⟩
    exact .step rfl rfl (.silent rfl rfl (List.cons_ne_nil _ _)
      (.silent rfl rfl (List.cons_ne_nil _ _) (.step rfl rfl .nil)))
  · intro htest
    obtain ⟨-, -, hnone⟩ := (hselected _).mp htest
    exact hnone "*.test.*" (by decide) (by decide +kernel)

/-! ## What is not selected -/

/-- A service below a root that is far away. -/
def remote : Project where
  files := apart
  root := Path.ofLocation farAway
  settings := { overlapping.settings with
    sources := ⟨[("any", "services/*.ts")], ["*.test.*"], Thresholds.builtIn⟩ }

theorem resolve_remote : remote.files.resolve remote.root = .ok farAway :=
  FileSystem.resolve_farAway

/-- **A file that is too far away is no candidate**, though it is there, a
pattern matches it and no exclusion names it. -/
theorem candidates_too_far :
    remote.files.resolve remote.root = .ok farAway ∧
    (remote.files.contentFrom? farAway ["services", "a.ts"]).isSome ∧
    (∃ label pattern glob, (label, pattern) ∈ remote.settings.sources.filePatterns ∧
      Glob.ofText? pattern = some glob ∧ glob.Matches [.name "services", .name "a.ts"]) ∧
    (∀ exclusion ∈ remote.settings.sources.excludePatterns,
      ¬ Excludes exclusion [.name "services", .name "a.ts"]) ∧
    ¬ ∃ path ∈ remote.candidates, path.components = [.name "services", .name "a.ts"] := by
  refine ⟨resolve_remote, ?_, ?_, by decide +kernel, ?_⟩
  · have hfile : remote.files.contentFrom? farAway ["services", "a.ts"] = some (.text "") :=
      FileSystem.contentFrom?_farAway
    rw [hfile]
    rfl
  · refine ⟨"any", "services/*.ts", ⟨[.plain "services",
      .wild [.anyText, .char '.', .char 't', .char 's']], false⟩, by decide, by decide +kernel,
      ["services", "a.ts"], rfl, .step rfl rfl (.step ⟨?_, by decide, by decide⟩ rfl .nil)⟩
    exact (NamePattern.admits_iff_means _ _).mp (by decide)
  · rintro ⟨path, hpath, hsteps⟩
    obtain ⟨⟨trail, hmeant, hfault⟩, -⟩ :=
      (exists_found_iff resolve_remote).mp ⟨path, mem_found_of_mem_candidates hpath, hsteps⟩
    have hdots : remote.settings.NeverOffers "." :=
      Settings.neverOffers_of_refuses (.inl rfl) (by decide +kernel)
    rw [hmeant.written_eq hdots] at hfault
    have hshort := (FileSystem.pathFault?_eq_none_iff.mp hfault).2.2
    exact Nat.not_le.mpr FileSystem.longestPath_lt_farAway hshort

end Project

end DocCoverage
