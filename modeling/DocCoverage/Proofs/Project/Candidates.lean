import DocCoverage.Project.CodeFile
import DocCoverage.Proofs.Glob.Meaning
import DocCoverage.Proofs.Glob.OnWay
import DocCoverage.Proofs.Path.Firsts
/-!
# Projects — candidates, and what they depend on

A path is found on a trail on which a pattern matches it and by which it can
be looked up (`FoundOn`). It leads from the base of the project to a file, by
its steps. Which spelling of it is a candidate depends on the spellings of this
one path, and these are the same in two projects in which the same kinds of
things stand along the path and it can be looked up by the same trails
(`AlikeOn.mem_candidates`).
-/

namespace DocCoverage

/-- A valid pattern of the settings matches a path, given by its components,
along a trail. -/
def Settings.MatchesAlong (settings : Settings) (trail : List String)
    (steps : List Path.Component) : Prop :=
  ∃ label pattern glob, (label, pattern) ∈ settings.sources.filePatterns ∧
    Glob.ofText? pattern = some glob ∧ glob.MatchesAlong trail steps

namespace Project

open FileSystem (Alike AlikeAlong along pathFault?)
open Reached (isOn isOn_iff)

variable {project project' : Project} {path : Path} {glob : Glob} {location : Location}

/-! ## Where paths lead -/

/-- The location below which files are found. -/
def base (project : Project) : Location :=
  match project.files.resolve project.root with
  | .ok location => location
  | .error _ => []

/-- Where the steps of a path lead from there. -/
def place (project : Project) (path : Path) : Location := along project.base path.steps

/-- A project in which files can be found: the root is there, or empty. -/
def Rooted (project : Project) : Prop :=
  (∃ location, project.files.resolve project.root = .ok location) ∨ project.root.text = ""

/-- How the trails of the project are spelled. -/
def spell (project : Project) : List String → Path :=
  match project.files.resolve project.root with
  | .ok _ => Glob.spelled
  | .error _ => Glob.spelledFromRoot

/-- The path at which what a trail leads to is looked up. -/
def lookedUp (project : Project) : List String → Path :=
  match project.files.resolve project.root with
  | .ok _ => project.full ∘ Glob.written
  | .error _ => Glob.spelledFromRoot

theorem resolve_of_text_eq {fs : FileSystem} {root : Path} (h : root.text = "") :
    fs.resolve root = .error .notFound := by
  rw [FileSystem.resolve, FileSystem.pathFault?, if_pos h]

theorem base_of_resolve (h : project.files.resolve project.root = .ok location) :
    project.base = location := by
  rw [base, h]

theorem lookedUp_of_resolve (h : project.files.resolve project.root = .ok location)
    (trail : List String) : project.lookedUp trail = project.full (Glob.written trail) := by
  rw [lookedUp, h]
  rfl

theorem place_of_same {a b : Path} (h : a.same b = true) : project.place a = project.place b := by
  rw [place, place, Path.steps_of_same h]

theorem rooted_of_mem_matchesOf (h : path ∈ project.matchesOf glob) : project.Rooted := by
  unfold matchesOf at h
  split at h
  next location hres => exact .inl ⟨location, hres⟩
  · split at h
    next htext => exact .inr htext
    · cases h

theorem matchesOf_eq (h : project.Rooted) : project.matchesOf glob =
    (glob.fileTrails project.files project.lookedUp project.base).map project.spell := by
  rcases h with ⟨location, hres⟩ | htext
  · rw [matchesOf, base, spell, lookedUp, hres]
  · rw [matchesOf, base, spell, lookedUp, resolve_of_text_eq htext]
    exact if_pos htext

/-- A spelled trail takes the steps of the trail. -/
theorem steps_spell {trail : List String} (h : ∀ segment ∈ trail, '/' ∉ segment.toList) :
    (project.spell trail).steps = trail.filterMap Path.Component.ofSegment? := by
  rw [spell]
  cases project.files.resolve project.root with
  | ok location => exact Glob.steps_spelled h
  | error fault => exact Glob.steps_spelledFromRoot h

/-! ## What is found -/

theorem mem_found : path ∈ project.found ↔
    ∃ label pattern glob, (label, pattern) ∈ project.settings.sources.filePatterns ∧
      Glob.ofText? pattern = some glob ∧ path ∈ project.matchesOf glob := by
  rw [found, List.mem_flatMap]
  constructor
  · rintro ⟨⟨label, pattern⟩, hpattern, hpath⟩
    dsimp only at hpath
    split at hpath
    next glob hglob => exact ⟨label, pattern, glob, hpattern, hglob, hpath⟩
    · cases hpath
  · rintro ⟨label, pattern, glob, hpattern, hglob, hpath⟩
    refine ⟨(label, pattern), hpattern, ?_⟩
    dsimp only
    rw [hglob]
    exact hpath

theorem rooted_of_mem_found (h : path ∈ project.found) : project.Rooted := by
  obtain ⟨-, -, glob, -, -, hpath⟩ := mem_found.mp h
  exact rooted_of_mem_matchesOf hpath

/-- A trail on which a path is found: a pattern matches the path along it, it
is walked to a file, and the path spells it. -/
structure FoundOn (project : Project) (trail : List String) (path : Path) : Prop where
  meant : project.settings.MatchesAlong trail path.steps
  walk : project.files.walk project.base trail = .ok (project.place path)
  isFile : (project.files.contentAt? (project.place path)).isSome
  fault : pathFault? (project.lookedUp trail) = none
  slash_not_mem : ∀ segment ∈ trail, '/' ∉ segment.toList
  eq_spell : path = project.spell trail

/-- A trail to a file is meant for every path that it spells. -/
theorem matchesAlong_of_same {trail : List String} {start : Location}
    (hplain : Glob.Plain glob.segments) (htrail : trail ∈ glob.trailsToFiles project.files start)
    (hsame : path.same (project.spell trail) = true) : glob.MatchesAlong trail path.steps := by
  obtain ⟨steps, hmeant, -⟩ := (Glob.mem_trailsToFiles_iff glob).mp htrail
  rwa [Path.steps_of_same hsame, steps_spell (Glob.of_mem_trailsToFiles hplain htrail).2,
    Glob.filterMap_of_means hmeant.2]

/-- The spellings of a path that a glob matches come from trails that stay on
the way to it. -/
theorem filter_same_matchesOf (hplain : Glob.Plain glob.segments) (hrooted : project.Rooted) :
    (project.matchesOf glob).filter path.same =
      (((glob.trailsToFiles project.files project.base).filter (isOn path.steps)).filter
        fun trail => path.same (project.spell trail) &&
          (pathFault? (project.lookedUp trail)).isNone).map project.spell := by
  rw [matchesOf_eq hrooted, List.filter_map, Glob.fileTrails, List.filter_filter,
    List.filter_filter]
  refine congrArg _ (List.filter_congr fun trail htrail => ?_)
  rw [Function.comp_apply]
  cases hsame : path.same (project.spell trail) with
  | false => rfl
  | true =>
    have hsteps := Glob.filterMap_of_means (matchesAlong_of_same hplain htrail hsame).2
    have hon : isOn path.steps trail = true := isOn_iff.mpr (hsteps ▸ List.prefix_rfl)
    rw [hon, Bool.and_true]

/-- **A path that is found** is found on a trail. -/
theorem exists_trail_of_mem_found (h : path ∈ project.found) :
    ∃ trail, project.FoundOn trail path := by
  obtain ⟨label, pattern, glob, hpattern, hglob, hpath⟩ := mem_found.mp h
  have hplain := Glob.plain_of_ofText? hglob
  rw [matchesOf_eq (rooted_of_mem_matchesOf hpath)] at hpath
  obtain ⟨trail, hlookedUp, rfl⟩ := List.mem_map.mp hpath
  obtain ⟨htrail, hfault⟩ := (Glob.mem_fileTrails_iff glob).mp hlookedUp
  obtain ⟨⟨place, hwalk, hfile⟩, hslash⟩ := Glob.of_mem_trailsToFiles hplain htrail
  have hplace : project.place (project.spell trail) = place := by
    rw [Project.place, steps_spell hslash, FileSystem.walk_eq_along hwalk]
  have hmeant := matchesAlong_of_same hplain htrail (Path.same_refl (project.spell trail))
  exact ⟨trail, ⟨label, pattern, glob, hpattern, hglob, hmeant⟩,
    hplace ▸ hwalk, hplace ▸ hfile, hfault, hslash, rfl⟩

/-- **A path that is found leads to a file.** -/
theorem isSome_contentAt?_of_mem_found (h : path ∈ project.found) :
    (project.files.contentAt? (project.place path)).isSome := by
  obtain ⟨trail, hon⟩ := exists_trail_of_mem_found h
  exact hon.isFile

theorem isSome_entry?_of_mem_found (h : path ∈ project.found) :
    (project.files.entry? (project.place path)).isSome := by
  have hfile := isSome_contentAt?_of_mem_found h
  rw [FileSystem.isSome_contentAt?_iff] at hfile
  obtain ⟨entry, hentry, -⟩ := Option.map_eq_some_iff.mp hfile
  rw [hentry]
  rfl

/-- Below a root that is there, paths are relative. -/
theorem isAbsolute_of_mem_found (hroot : project.files.resolve project.root = .ok location)
    (h : path ∈ project.found) : path.isAbsolute = false := by
  obtain ⟨trail, hon⟩ := exists_trail_of_mem_found h
  rw [hon.eq_spell, spell, hroot]
  exact Glob.isAbsolute_spelled hon.slash_not_mem

/-- **What a path that is found leads to is where its steps lead.** -/
theorem eq_place_of_resolve (h : path ∈ project.found)
    (hres : project.files.resolve (project.full path) = .ok location) :
    location = project.place path := by
  rw [FileSystem.resolve_eq_along hres, full]
  rcases rooted_of_mem_found h with ⟨base, hroot⟩ | hempty
  -- a relative path is joined to the root, and its steps go on from there
  · have hrel := isAbsolute_of_mem_found hroot h
    have htext := FileSystem.text_ne_of_resolve hroot
    have hstart : project.files.start (project.root.join path) =
        project.files.start project.root := by
      rw [FileSystem.start, FileSystem.start, Path.isAbsolute_join htext hrel]
    rw [hstart, Path.steps_join htext hrel, FileSystem.along_append,
      ← FileSystem.resolve_eq_along hroot, place, base_of_resolve hroot]
  -- without a root the spelled paths are absolute
  · have hbase : project.base = [] := by
      rw [base, resolve_of_text_eq hempty]
    have habs : path.isAbsolute = true := by
      obtain ⟨trail, hon⟩ := exists_trail_of_mem_found h
      rw [hon.eq_spell, spell, resolve_of_text_eq hempty]
      exact Path.isAbsolute_ofLocation _
    rw [Path.join_of_isAbsolute habs, FileSystem.start, if_pos habs, place, hbase]

theorem mem_candidates : path ∈ project.candidates ↔
    (project.found.filter fun path => !isExcluded project.settings path).find? path.same =
      some path :=
  Path.mem_firstSpellings

theorem mem_found_of_mem_candidates (h : path ∈ project.candidates) : path ∈ project.found :=
  (List.mem_filter.mp (List.mem_of_find?_eq_some (mem_candidates.mp h))).1

/-! ## A path in two projects -/

/-- Two projects of the same settings in which the same kinds of things stand
along a path, and in which it can be looked up by the same trails. -/
structure AlikeOn (project project' : Project) (path : Path) : Prop where
  settings : project.settings = project'.settings
  rooted : project.Rooted
  rooted' : project'.Rooted
  spell : project.spell = project'.spell
  along : AlikeAlong project.files project'.files project.base project'.base path.steps
  fault : ∀ trail, project.settings.MatchesAlong trail path.steps →
    pathFault? (project.lookedUp trail) = pathFault? (project'.lookedUp trail)

/-- Below two roots that are there, it takes the same settings, the same kinds
of things along the path, and the same trails that can be joined to the
roots. -/
theorem alikeOn_of_resolve {base base' : Location}
    (hsettings : project.settings = project'.settings)
    (hroot : project.files.resolve project.root = .ok base)
    (hroot' : project'.files.resolve project'.root = .ok base')
    (halong : AlikeAlong project.files project'.files base base' path.steps)
    (hfault : ∀ trail, project.settings.MatchesAlong trail path.steps →
      pathFault? (project.full (Glob.written trail)) =
        pathFault? (project'.full (Glob.written trail))) :
    AlikeOn project project' path where
  settings := hsettings
  rooted := .inl ⟨base, hroot⟩
  rooted' := .inl ⟨base', hroot'⟩
  spell := by rw [Project.spell, Project.spell, hroot, hroot']
  along := by rwa [base_of_resolve hroot, base_of_resolve hroot']
  fault trail hmeant := by
    rw [lookedUp_of_resolve hroot, lookedUp_of_resolve hroot', hfault trail hmeant]

namespace AlikeOn

variable (h : AlikeOn project project' path)
include h

theorem symm : AlikeOn project' project path where
  settings := h.settings.symm
  rooted := h.rooted'
  rooted' := h.rooted
  spell := h.spell.symm
  along := h.along.symm
  fault trail hmeant := by
    rw [← h.settings] at hmeant
    exact (h.fault trail hmeant).symm

/-- A pattern matches the same spellings of the path in both. -/
theorem matchesOf_same {label pattern : String}
    (hpattern : (label, pattern) ∈ project.settings.sources.filePatterns)
    (hglob : Glob.ofText? pattern = some glob) :
    (project.matchesOf glob).filter path.same = (project'.matchesOf glob).filter path.same := by
  have hplain := Glob.plain_of_ofText? hglob
  rw [filter_same_matchesOf hplain h.rooted, filter_same_matchesOf hplain h.rooted',
    ← Glob.trailsToFiles_isOn h.along hplain, ← h.spell]
  refine congrArg _ (List.filter_congr fun trail htrail => ?_)
  cases hsame : path.same (project.spell trail) with
  | false => rfl
  | true =>
    have hmeant := matchesAlong_of_same hplain (List.mem_filter.mp htrail).1 hsame
    rw [h.fault trail ⟨label, pattern, glob, hpattern, hglob, hmeant⟩]

theorem found_same : project.found.filter path.same = project'.found.filter path.same := by
  rw [found, found, List.filter_flatMap, List.filter_flatMap, ← h.settings]
  refine List.flatMap_congr fun ⟨label, pattern⟩ hpattern => ?_
  dsimp only
  split
  next glob hglob => exact matchesOf_same h hpattern hglob
  · rfl

theorem mem_found_iff : path ∈ project.found ↔ path ∈ project'.found := by
  have hself (paths : List Path) : path ∈ paths ↔ path ∈ paths.filter path.same := by
    rw [List.mem_filter, and_iff_left (Path.same_refl path)]
  rw [hself, found_same h, ← hself]

/-- **A spelling of the path is a candidate in both.** -/
theorem mem_candidates {spelling : Path} (hsame : path.same spelling = true) :
    spelling ∈ project.candidates ↔ spelling ∈ project'.candidates := by
  have hclass : spelling.same = path.same := by
    funext other
    exact (Path.same_congr_left hsame other).symm
  rw [Project.mem_candidates, Project.mem_candidates, hclass, ← List.head?_filter,
    ← List.head?_filter, List.filter_comm, found_same h, List.filter_comm, h.settings]

end AlikeOn

/-! ## Other files -/

/-- The project after its files have changed. -/
def withFiles (project : Project) (files : FileSystem) : Project := { project with files := files }

section Alike

variable {files : FileSystem} {keep : Location → Bool} (h : Alike keep project.files files)
  (hpresent : ∀ other, (project.files.entry? other).isSome → keep other = true)
include h hpresent

/-- Where files can be found, the root is what it was. -/
theorem resolve_root_withFiles (hrooted : project.Rooted) :
    files.resolve project.root = project.files.resolve project.root := by
  rcases hrooted with ⟨location, hres⟩ | htext
  · have hkeep := hpresent location (FileSystem.isSome_of_resolve hres)
    rw [hres, FileSystem.resolve_of_alike h hkeep hres]
  · rw [resolve_of_text_eq htext, resolve_of_text_eq htext]

theorem base_withFiles (hrooted : project.Rooted) :
    (project.withFiles files).base = project.base := by
  have hroot := resolve_root_withFiles h hpresent hrooted
  rw [base, base, ← hroot]
  rfl

/-- **Along a path that was found, nothing has changed.** -/
theorem alikeOn_withFiles (hfound : path ∈ project.found) :
    AlikeOn project (project.withFiles files) path := by
  have hrooted := rooted_of_mem_found hfound
  have hroot := resolve_root_withFiles h hpresent hrooted
  have hbase := base_withFiles h hpresent hrooted
  obtain ⟨trail, hon⟩ := exists_trail_of_mem_found hfound
  have hkeep := hpresent _ (isSome_entry?_of_mem_found hfound)
  have halong := FileSystem.alikeAlong_of_walk hon.walk
    (FileSystem.walk_of_alike h hkeep hon.walk) (h.kind _ hkeep)
  refine ⟨rfl, hrooted, ?_, ?_, ?_, fun trail _ => ?_⟩
  · exact hrooted.imp_left fun ⟨location, hres⟩ => ⟨location, hroot.trans hres⟩
  · rw [spell, spell, ← hroot]
    rfl
  · rw [hbase, hon.eq_spell, steps_spell hon.slash_not_mem]
    exact halong
  · rw [lookedUp, lookedUp, ← hroot]
    rfl

/-- A path that leads to the same as before reads the same as before. -/
theorem readText?_withFiles (hpath : path ∈ project.found)
    (hentry : files.entry? (project.place path) = project.files.entry? (project.place path)) :
    files.readText? (project.full path) = project.files.readText? (project.full path) := by
  have hkeep := hpresent _ (isSome_entry?_of_mem_found hpath)
  have hlookUp : files.lookUp? (project.full path) = project.files.lookUp? (project.full path) := by
    rw [FileSystem.lookUp?, FileSystem.lookUp?]
    cases hres : project.files.resolve (project.full path) with
    | ok location =>
      obtain rfl := eq_place_of_resolve hpath hres
      rw [FileSystem.resolve_of_alike h hkeep hres]
      exact hentry
    | error fault =>
      cases hres' : files.resolve (project.full path) with
      | ok location =>
        -- a path that leads somewhere now leads to its place, and led there before
        have hfound := (alikeOn_withFiles h hpresent hpath).mem_found_iff.mp hpath
        have hplace : location = project.place path := by
          rw [place, ← base_withFiles h hpresent (rooted_of_mem_found hpath)]
          exact eq_place_of_resolve hfound hres'
        rw [hplace] at hres'
        rw [FileSystem.resolve_of_alike h.symm hkeep hres'] at hres
        cases hres
      | error fault' => rfl
  rw [FileSystem.readText?, FileSystem.readText?, FileSystem.content?, FileSystem.content?, hlookUp]

end Alike

end Project

end DocCoverage
