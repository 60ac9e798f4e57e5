import DocCoverage.Proofs.Project.Locality
import DocCoverage.Proofs.Project.Selection
import DocCoverage.Proofs.Project.Tests
/-!
# Projects — moving a tree

Below two roots of a file system let the same things stand. A candidate that
stays inside the root then reads the same below both, with the same documents
and tests beside it, if these stay inside as well and the limits on paths do
not tell the two roots apart (`Movable`). Where this holds of all candidates,
nothing in the report says which root it is (`check_relocated`). A candidate
stays inside if no pattern climbs (`inside_of_mem_candidates`); a pattern that
does, or a path that becomes too long, tells one root from another
(`roots_told_apart`).
-/

namespace DocCoverage

namespace Project

open FileSystem (SameBelow pathFault? apart farAway)

variable {project : Project} {root path next : Path} {base base' : Location}

/-- The project at another root. -/
def withRoot (project : Project) (root : Path) : Project := { project with root := root }

/-- What is looked at for a candidate — the file, by every path that a pattern
spells for it, its documents and its tests — stays inside the root, and can be
a path in one project if it can be one in the other. -/
structure Movable (project project' : Project) (path : Path) : Prop where
  inside : path.Inside
  inside_documents : ∀ place ∈ documentPlaces project.settings path,
    place.isAbsolute = false → place.Inside
  fault : ∀ trail, project.settings.MatchesAlong trail path.steps →
    pathFault? (project.full (Glob.written trail)) =
      pathFault? (project'.full (Glob.written trail))
  fault_documents : ∀ place ∈ documentPlaces project.settings path,
    pathFault? (project.full place) = pathFault? (project'.full place)
  fault_tests : ∀ next ∈ testsOf path,
    pathFault? ((project.full path).directory.join next) =
      pathFault? ((project'.full path).directory.join next)

/-- Candidates stay inside unless a pattern offers two dots. -/
theorem inside_of_mem_candidates (hroot : project.files.resolve project.root = .ok base)
    (hpatterns : project.settings.NeverOffers "..")
    (hpath : path ∈ project.candidates) : path.Inside := by
  obtain ⟨label, pattern, glob, hpattern, hglob, trail, -, hmeans⟩ :=
    exists_matches_of_mem_found hroot (mem_found_of_mem_candidates hpath)
  have hnames := Glob.ne_up_of_means hmeans (hpatterns label pattern glob hpattern hglob)
  exact Path.isSome_within_of_names (fun component hmem =>
    hnames component (Path.mem_components_of_mem_steps hmem)) []

/-- **What is found stands below the root**, unless its path climbs above it. -/
theorem place_of_within {down : Location}
    (hroot : project.files.resolve project.root = .ok base) (hfound : path ∈ project.found)
    (hdown : Path.within [] path.steps = some down) :
    down ≠ [] ∧ project.place path = base ++ down := by
  have hplace : project.place path = base ++ down := by
    have halong := FileSystem.along_of_within base hdown
    rw [List.append_nil] at halong
    rw [place, base_of_resolve hroot, halong]
  refine ⟨?_, hplace⟩
  rintro rfl
  -- the root is a directory, and no file
  have hfile := isSome_contentAt?_of_mem_found hfound
  rw [hplace, List.append_nil] at hfile
  exact FileSystem.entry?_of_contentAt? hfile (entry?_of_mem_found hroot hfound)

/-- What stands beside a candidate is read from the end of the way down to its
directory. -/
theorem exists_parent_of_readText? {down : Location}
    (hroot : project.files.resolve project.root = .ok base) (hpath : path ∈ project.candidates)
    (hreadable : (project.files.readText? (project.full path)).isSome)
    (hdown : Path.within [] path.steps = some down) :
    ∃ parent, (project.full path).parent? = some parent ∧
      ∀ next : Path, next.isAbsolute = false →
        project.files.content? (parent.join next) = FileSystem.unlessFault (parent.join next)
          (project.files.contentFrom? (base ++ down.dropLast) next.segments) := by
  have hfound := mem_found_of_mem_candidates hpath
  obtain ⟨place, hres⟩ := FileSystem.resolve_of_isSome_readText? hreadable
  obtain rfl := eq_place_of_resolve hfound hres
  obtain ⟨hne, hplace⟩ := place_of_within hroot hfound hdown
  obtain ⟨parent, hparent, hread⟩ :=
    FileSystem.exists_parent_of_resolve hres (isSome_contentAt?_of_mem_found hfound)
  rw [hplace, List.dropLast_append_of_ne_nil hne] at hread
  exact ⟨parent, hparent, hread⟩

section Relocation

variable (hroot : project.files.resolve project.root = .ok base)
  (hroot' : (project.withRoot root).files.resolve (project.withRoot root).root = .ok base')
  (hbelow : project.files.SameBelow base base')
include hroot hroot' hbelow

/-! ## Candidates -/

theorem alikeOn_withRoot (hmovable : Movable project (project.withRoot root) path) :
    AlikeOn project (project.withRoot root) path := by
  have halike := hbelow.alikeAlong hmovable.inside
  rw [List.append_nil, List.append_nil] at halike
  exact alikeOn_of_resolve rfl hroot hroot' halike hmovable.fault

/-- A candidate can be looked up below both roots. -/
theorem pathFault?_withRoot (hmovable : Movable project (project.withRoot root) path)
    (hpath : path ∈ project.candidates) :
    pathFault? (project.full path) = pathFault? ((project.withRoot root).full path) := by
  have hfound := mem_found_of_mem_candidates hpath
  have hfound' := (alikeOn_withRoot hroot hroot' hbelow hmovable).mem_found_iff.mp hfound
  obtain ⟨trail, hon⟩ := exists_trail_of_mem_found hfound
  obtain ⟨trail', hon'⟩ := exists_trail_of_mem_found hfound'
  rw [hon.pathFault?_full hroot, hon'.pathFault?_full hroot']

/-- **The candidates are the same.** -/
theorem candidates_withRoot
    (hmovable : ∀ path, path ∈ project.candidates ∨ path ∈ (project.withRoot root).candidates →
      Movable project (project.withRoot root) path) :
    project.candidates = (project.withRoot root).candidates := by
  refine Path.Increasing.ext increasing_candidates increasing_candidates fun path => ⟨?_, ?_⟩
  · intro hpath
    have halike := alikeOn_withRoot hroot hroot' hbelow (hmovable path (.inl hpath))
    exact (halike.mem_candidates (Path.same_refl path)).mp hpath
  · intro hpath
    have halike := alikeOn_withRoot hroot hroot' hbelow (hmovable path (.inr hpath))
    exact (halike.mem_candidates (Path.same_refl path)).mpr hpath

/-! ## Reading -/

/-- The same file stands at a path that stays inside. -/
theorem fileAt?_withRoot (hin : path.isAbsolute = false → path.Inside) :
    project.fileAt? path = (project.withRoot root).fileAt? path := by
  cases habs : path.isAbsolute with
  | true =>
    rw [fileAt?_of_isAbsolute habs, fileAt?_of_isAbsolute habs]
    rfl
  | false =>
    have hread := hbelow.contentFrom?_eq (hin habs)
    rw [List.append_nil, List.append_nil] at hread
    rw [fileAt?_of_relative habs, fileAt?_of_relative habs, base_of_resolve hroot,
      base_of_resolve hroot', hread]
    rfl

theorem readText?_withRoot (hin : path.isAbsolute = false → path.Inside)
    (hfault : pathFault? (project.full path) = pathFault? ((project.withRoot root).full path)) :
    project.files.readText? (project.full path) =
      (project.withRoot root).files.readText? ((project.withRoot root).full path) :=
  readText?_full_congr hroot hroot' hfault (fileAt?_withRoot hroot hroot' hbelow hin)

/-- A candidate that can be read has tests below both roots, or below
neither. -/
theorem hasTests_withRoot (hmovable : Movable project (project.withRoot root) path)
    (hpath : path ∈ project.candidates)
    (hreadable : (project.files.readText? (project.full path)).isSome) :
    project.hasTests path = (project.withRoot root).hasTests path := by
  have halike := alikeOn_withRoot hroot hroot' hbelow hmovable
  have hpath' := (halike.mem_candidates (Path.same_refl path)).mp hpath
  have hread := readText?_withRoot hroot hroot' hbelow (fun _ => hmovable.inside)
    (pathFault?_withRoot hroot hroot' hbelow hmovable hpath)
  have hreadable' := hreadable
  rw [hread] at hreadable'
  -- below both roots the file stands at the end of the same way down
  obtain ⟨down, hdown⟩ := Option.isSome_iff_exists.mp hmovable.inside
  obtain ⟨parent, hparent, hnext⟩ := exists_parent_of_readText? hroot hpath hreadable hdown
  obtain ⟨parent', hparent', hnext'⟩ := exists_parent_of_readText? hroot' hpath' hreadable' hdown
  have hdirectory : (project.full path).directory = parent := by
    rw [Path.directory, hparent, Option.getD_some]
  have hdirectory' : ((project.withRoot root).full path).directory = parent' := by
    rw [Path.directory, hparent', Option.getD_some]
  rw [hasTests_eq hparent, hasTests_eq hparent', List.any_map, List.any_map, Bool.eq_iff_iff,
    List.any_eq_true, List.any_eq_true]
  refine exists_congr fun next => and_congr_right fun htest => ?_
  obtain ⟨hrel, hinside⟩ := inside_of_mem_testsOf htest down.dropLast
  have hfault := hmovable.fault_tests next htest
  rw [hdirectory, hdirectory'] at hfault
  rw [Function.comp_apply, Function.comp_apply, FileSystem.isFile_eq, FileSystem.isFile_eq,
    hnext next hrel, hnext' next hrel, FileSystem.unlessFault_congr hfault,
    hbelow.contentFrom?_eq hinside]
  rfl

/-! ## Reports -/

/-- A candidate is described alike. -/
theorem describe_withRoot (hmovable : Movable project (project.withRoot root) path)
    (hpath : path ∈ project.candidates) :
    project.describe path = (project.withRoot root).describe path := by
  have hread := readText?_withRoot hroot hroot' hbelow (fun _ => hmovable.inside)
    (pathFault?_withRoot hroot hroot' hbelow hmovable hpath)
  unfold describe describeWith
  rw [← hread]
  cases htext : project.files.readText? (project.full path) with
  | none => rfl
  | some text =>
    have hreadable : (project.files.readText? (project.full path)).isSome := by
      rw [htext]
      rfl
    dsimp only
    rw [hasTests_withRoot hroot hroot' hbelow hmovable hpath hreadable]
    rfl

/-- A candidate has the same verdict. -/
theorem verdict_withRoot (hmovable : Movable project (project.withRoot root) path) :
    project.verdict (project.describe path) =
      (project.withRoot root).verdict (project.describe path) := by
  refine @verdict_congr project _ (project.withRoot root) rfl _ rfl rfl rfl fun place hplace => ?_
  rw [describe_path] at hplace
  exact readText?_withRoot hroot hroot' hbelow (hmovable.inside_documents place hplace)
    (hmovable.fault_documents place hplace)

end Relocation

/-- **Below two roots with the same tree** the candidates are the same, and so
are the discovered files and the report. -/
theorem check_withRoot (hroot : project.files.resolve project.root = .ok base)
    (hroot' : project.files.resolve root = .ok base')
    (hbelow : project.files.SameBelow base base')
    (hmovable : ∀ path, path ∈ project.candidates ∨ path ∈ (project.withRoot root).candidates →
      Movable project (project.withRoot root) path) :
    project.candidates = (project.withRoot root).candidates ∧
      project.discover = (project.withRoot root).discover ∧
        project.check = (project.withRoot root).check := by
  have hcandidates : project.candidates = (project.withRoot root).candidates :=
    candidates_withRoot hroot hroot' hbelow hmovable
  have hdiscover : project.discover = (project.withRoot root).discover := by
    rw [discover, discover, ← hcandidates]
    refine congrArg _ (List.map_congr_left fun path hpath => ?_)
    exact describe_withRoot hroot hroot' hbelow (hmovable path (.inl hpath)) hpath
  refine ⟨hcandidates, hdiscover, ?_⟩
  rw [check, check, ← hdiscover, checkFiles_of_increasing increasing_discover,
    checkFiles_of_increasing increasing_discover, tallyOf, tallyOf]
  refine congrArg _ (congrArg _ (List.map_congr_left fun file hfile => ?_))
  obtain ⟨path, hpath, -, rfl⟩ := mem_discover.mp hfile
  exact verdict_withRoot hroot hroot' hbelow (hmovable path (.inl hpath))

/-- A root without dots leads where the root leads. -/
theorem resolve_plainRoot {files : FileSystem} (hroot : files.resolve root = .ok base)
    (hfault : pathFault? (plainRoot files root) = none) :
    files.resolve (plainRoot files root) = .ok base := by
  rw [plainRoot, hroot] at hfault ⊢
  exact FileSystem.resolve_ofLocation (FileSystem.isSome_of_resolve hroot) hfault

/-- **A report does not say where the tree lives.** Let two roots lead to
places below which the same things stand, and let whatever is looked at for a
candidate below either of them stay inside it and be subject to the limits on
paths alike. Then the candidates, the discovered files and the report are the
same. -/
theorem check_relocated {files : FileSystem} {root root' : Path} {settings : Settings}
    {base base' : Location} (hroot : files.resolve root = .ok base)
    (hroot' : files.resolve root' = .ok base') (hbelow : files.SameBelow base base')
    (hfault : pathFault? (plainRoot files root) = none)
    (hfault' : pathFault? (plainRoot files root') = none)
    (hmovable : ∀ path, path ∈ (atRoot files root settings).candidates ∨
        path ∈ (atRoot files root' settings).candidates →
      Movable (atRoot files root settings) (atRoot files root' settings) path) :
    (atRoot files root settings).candidates = (atRoot files root' settings).candidates ∧
      (atRoot files root settings).discover = (atRoot files root' settings).discover ∧
        (atRoot files root settings).check = (atRoot files root' settings).check :=
  @check_withRoot (atRoot files root settings) (plainRoot files root') base base'
    (resolve_plainRoot hroot hfault) (resolve_plainRoot hroot' hfault') hbelow hmovable

/-- One service below two roots, of which one is called like components and
the other like a pattern. -/
def twins : FileSystem :=
  ["components", "[api]*"].foldl (fun files name => ((files.put [name] .directory).put
    [name, "services"] .directory).put [name, "services", "a.ts"] (.file (.text "")))
    FileSystem.empty

/-- Settings with these patterns. -/
def settingsFor (patterns : List (String × String)) : Settings where
  standards := ⟨0.7, 85.0, [], []⟩
  sources := ⟨patterns, ["node_modules"], Thresholds.builtIn⟩
  documents := ⟨["index.md", "/shared.md"], []⟩

/-- The services below a root. -/
def services (root : String) : Project := atRoot twins ⟨root⟩ (settingsFor [("all", "**/*.ts")])

theorem check_relocated_services : twins.SameBelow ["components"] ["[api]*"] ∧
    (services "components").candidates ≠ [] ∧
    (services "components").candidates = (services "./[api]*").candidates ∧
    (services "components").discover = (services "./[api]*").discover ∧
    (services "components").check = (services "./[api]*").check := by
  have hbelow : twins.SameBelow ["components"] ["[api]*"] :=
    FileSystem.sameBelow_of_listing? (by decide +kernel) (by decide +kernel)
  have hfound : (services "components").found = [⟨"services/a.ts"⟩] := by decide +kernel
  have hfound' : (services "./[api]*").found = [⟨"services/a.ts"⟩] := by decide +kernel
  have hmovable : ∀ path, path ∈ (services "components").candidates ∨
      path ∈ (services "./[api]*").candidates →
      Movable (services "components") (services "./[api]*") path := by
    intro path hpath
    have hmem : path ∈ [(⟨"services/a.ts"⟩ : Path)] := by
      rcases hpath with hpath | hpath
      · rw [← hfound]
        exact mem_found_of_mem_candidates hpath
      · rw [← hfound']
        exact mem_found_of_mem_candidates hpath
    rw [List.mem_singleton.mp hmem]
    refine ⟨by decide +kernel, by decide +kernel, fun trail hmeant => ?_, by decide +kernel,
      by decide +kernel⟩
    rw [hmeant.written_eq (Settings.neverOffers_of_refuses (.inl rfl) (by decide +kernel))]
    decide +kernel
  refine ⟨hbelow, ?_, check_relocated (by decide +kernel) (by decide +kernel) hbelow
    (by decide +kernel) (by decide +kernel) hmovable⟩
  exact List.ne_nil_of_mem (mem_candidates.mpr (show _ = some ⟨"services/a.ts"⟩ by decide +kernel))

/-! ## What tells roots apart -/

/-- The same file below two roots in different directories. -/
def cousins : FileSystem :=
  ((([["one"], ["p"], ["p", "two"]].foldl (fun files location => files.put location .directory)
    FileSystem.empty).put ["one", "b.ts"] (.file (.text ""))).put ["p", "two", "b.ts"]
    (.file (.text "")))

/-- Far away the file is too far away to be read. -/
theorem readText?_farAway (settings : Settings) :
    apart.readText? ((atRoot apart (Path.ofLocation farAway) settings).full ⟨"services/a.ts"⟩) =
      none := by
  rw [full, atRoot, plainRoot, FileSystem.resolve_farAway, FileSystem.readText?,
    FileSystem.content?_of_long FileSystem.longestPath_lt_farAway]
  rfl

/-- **What tells two roots apart.** A pattern that climbs above the root can
name the root, and a file far away may be too far away to be read. -/
theorem roots_told_apart :
    (cousins.resolve ⟨"one"⟩ = .ok ["one"] ∧ cousins.resolve ⟨"p/two"⟩ = .ok ["p", "two"] ∧
      cousins.SameBelow ["one"] ["p", "two"] ∧
      (atRoot cousins ⟨"one"⟩ (settingsFor [("up", "../one/*.ts")])).candidates ≠
        (atRoot cousins ⟨"p/two"⟩ (settingsFor [("up", "../one/*.ts")])).candidates) ∧
    apart.resolve ⟨"a"⟩ = .ok ["a"] ∧
      apart.resolve (Path.ofLocation farAway) = .ok farAway ∧ apart.SameBelow ["a"] farAway ∧
      (atRoot apart ⟨"a"⟩ (settingsFor [("all", "services/*.ts")])).discover ≠
        (atRoot apart (Path.ofLocation farAway)
          (settingsFor [("all", "services/*.ts")])).discover := by
  refine ⟨⟨rfl, rfl, ?_, ?_⟩, rfl, FileSystem.resolve_farAway, ?_, ?_⟩
  · exact FileSystem.sameBelow_of_listing? rfl rfl
  · intro heq
    have hmem : (⟨"../one/b.ts"⟩ : Path) ∈
        (atRoot cousins ⟨"one"⟩ (settingsFor [("up", "../one/*.ts")])).candidates :=
      mem_candidates.mpr (by decide +kernel)
    have hnone : (atRoot cousins ⟨"p/two"⟩ (settingsFor [("up", "../one/*.ts")])).found = [] := by
      decide +kernel
    rw [heq] at hmem
    have hfound := mem_found_of_mem_candidates hmem
    rw [hnone] at hfound
    cases hfound
  · exact FileSystem.sameBelow_of_listing? rfl FileSystem.listing?_farAway.symm
  · intro heq
    have hmem : (atRoot apart ⟨"a"⟩ (settingsFor [("all", "services/*.ts")])).describe
        ⟨"services/a.ts"⟩ ∈
          (atRoot apart ⟨"a"⟩ (settingsFor [("all", "services/*.ts")])).discover :=
      mem_discover.mpr ⟨_, mem_candidates.mpr (by decide +kernel), by decide +kernel, rfl⟩
    rw [heq] at hmem
    obtain ⟨path, -, hneeds, hdescribe⟩ := mem_discover.mp hmem
    have hpath := congrArg CodeFile.path hdescribe
    rw [describe_path, describe_path] at hpath
    have hread : (apart.readText? ((atRoot apart (Path.ofLocation farAway) _).full path)).isSome :=
      isSome_readText?_of_needsDocumentation hneeds
    rw [← hpath, readText?_farAway] at hread
    cases hread

end Project

end DocCoverage
