import DocCoverage.Proofs.FileSystem.Directory
import DocCoverage.Proofs.Project.Accounts
import DocCoverage.Proofs.Project.Candidates
/-!
# Projects — what the verdict on a file depends on

Two projects are the same at a path if it reads the same in both, and so do
all places where its documents are looked for. Then the path is discovered in
both or in neither, with the same verdict (`SameAt.discovered`). Trees in
which the file and the places beside it hold the same are the same at its
path, whatever else they hold (`sameAt_withFiles`).
-/

namespace DocCoverage

namespace Project

open FileSystem (AlikeAlong along)

variable {project project' : Project} {path spelling : Path} {file : CodeFile} {gap : Gap}
  {location : Location} {files : FileSystem}

/-! ## Projects that are the same at a path -/

/-- Two projects in which a path, as it is spelled by a candidate, reads the
same, and if it can be read, so do the places of its documents. -/
structure SameAt (project project' : Project) (path : Path) : Prop where
  alike : AlikeOn project project' path
  source : ∀ spelling ∈ project.candidates, path.same spelling = true →
    project.files.readText? (project.full spelling) =
      project'.files.readText? (project'.full spelling)
  documents : ∀ spelling ∈ project.candidates, path.same spelling = true →
    (project.files.readText? (project.full spelling)).isSome →
      ∀ place ∈ documentPlaces project.settings spelling,
        project.files.readText? (project.full place) =
          project'.files.readText? (project'.full place)

namespace SameAt

theorem symm (h : SameAt project project' path) : SameAt project' project path where
  alike := h.alike.symm
  source spelling hmem hsame :=
    (h.source spelling ((h.alike.mem_candidates hsame).mpr hmem) hsame).symm
  documents spelling hmem hsame hreadable place hplace := by
    have hbefore := (h.alike.mem_candidates hsame).mpr hmem
    rw [← h.source spelling hbefore hsame] at hreadable
    rw [← h.alike.settings] at hplace
    exact (h.documents spelling hbefore hsame hreadable place hplace).symm

variable (h : SameAt project project' path)
include h

/-- **A path is discovered in both, with the same verdict.** -/
theorem discovered (hfile : file ∈ project.discover) (hsame : path.same file.path = true) :
    ∃ file' ∈ project'.discover, file'.path = file.path ∧
      project.verdict file = project'.verdict file' := by
  obtain ⟨spelling, hmem, hneeds, rfl⟩ := mem_discover.mp hfile
  rw [describe_path] at hsame ⊢
  have hsource := h.source spelling hmem hsame
  obtain ⟨htype, hpriority, hneeds'⟩ := judged_congr h.alike.settings hsource
  refine ⟨project'.describe spelling, mem_discover.mpr ⟨spelling, ?_, ?_, rfl⟩, describe_path _, ?_⟩
  · exact (h.alike.mem_candidates hsame).mp hmem
  · rw [← hneeds', hneeds]
  · refine verdict_congr h.alike.settings ?_ htype hpriority ?_
    · rw [describe_path, describe_path]
    · rw [describe_path]
      exact h.documents spelling hmem hsame (isSome_readText?_of_needsDocumentation hneeds)

theorem mem_gaps_of_mem (hgap : gap ∈ project.check.gaps) (hsame : path.same gap.codeFile = true) :
    gap ∈ project'.check.gaps := by
  obtain ⟨file, hfile, hverdict⟩ := (mem_gaps increasing_discover).mp hgap
  rw [codeFile_of_verdict hverdict] at hsame
  obtain ⟨file', hfile', -, heq⟩ := h.discovered hfile hsame
  exact (mem_gaps increasing_discover).mpr ⟨file', hfile', by rw [← heq, hverdict]⟩

/-- **The verdict**: the file is adequate in both, or it has the same gap in
both. -/
theorem adequate_or_gap (hfile : file ∈ project.discover) (hsame : path.same file.path = true) :
    ∃ file' ∈ project'.discover, file'.path = file.path ∧
      (project.Adequate project.discover file ∧ project'.Adequate project'.discover file' ∨
        ∃ gap ∈ project.check.gaps, gap ∈ project'.check.gaps ∧ gap.codeFile = file.path) := by
  obtain ⟨file', hfile', hpath, hverdict⟩ := h.discovered hfile hsame
  refine ⟨file', hfile', hpath, ?_⟩
  rw [adequate_iff increasing_discover hfile, adequate_iff increasing_discover hfile', ← hverdict]
  cases hgap : (project.verdict file).gap? with
  | none => exact .inl ⟨rfl, rfl⟩
  | some gap =>
    have hcode := codeFile_of_verdict hgap
    have hmem := (mem_gaps increasing_discover).mpr ⟨file, hfile, hgap⟩
    exact .inr ⟨gap, hmem, h.mem_gaps_of_mem hmem (by rwa [hcode]), hcode⟩

theorem discovered_iff : (∃ file ∈ project.discover, path.same file.path = true) ↔
    ∃ file ∈ project'.discover, path.same file.path = true := by
  constructor
  · rintro ⟨file, hfile, hsame⟩
    obtain ⟨file', hfile', hpath, -⟩ := h.discovered hfile hsame
    exact ⟨file', hfile', by rwa [hpath]⟩
  · rintro ⟨file, hfile, hsame⟩
    obtain ⟨file', hfile', hpath, -⟩ := h.symm.discovered hfile hsame
    exact ⟨file', hfile', by rwa [hpath]⟩

theorem mem_gaps_iff (hsame : path.same gap.codeFile = true) :
    gap ∈ project.check.gaps ↔ gap ∈ project'.check.gaps :=
  ⟨fun hgap => h.mem_gaps_of_mem hgap hsame, fun hgap => h.symm.mem_gaps_of_mem hgap hsame⟩

end SameAt

/-- **Projects that are the same at all their candidates** have the same
report. -/
theorem check_of_sameAt (h : ∀ path, path ∈ project.candidates ∨ path ∈ project'.candidates →
    SameAt project project' path) : project.check = project'.check := by
  have hcandidates : project.candidates = project'.candidates := by
    refine Path.Increasing.ext increasing_candidates increasing_candidates fun path => ⟨?_, ?_⟩
    · exact fun hpath => ((h path (.inl hpath)).alike.mem_candidates (Path.same_refl path)).mp hpath
    · exact fun hpath => ((h path (.inr hpath)).alike.mem_candidates (Path.same_refl path)).mpr hpath
  have hjudged (path : Path) (hpath : path ∈ project.candidates) :=
    judged_congr (h path (.inl hpath)).alike.settings
      ((h path (.inl hpath)).source path hpath (Path.same_refl path))
  -- the verdicts are the same file by file, and the tally is all that is reported
  have hverdicts : project.discover.map project.verdict =
      project'.discover.map project'.verdict := by
    rw [discover, discover, List.filter_map, List.filter_map, List.map_map, List.map_map,
      ← hcandidates]
    have hneeds : project.candidates.filter ((·.needsDocumentation) ∘ project.describe) =
        project.candidates.filter ((·.needsDocumentation) ∘ project'.describe) :=
      List.filter_congr fun path hpath => (hjudged path hpath).2.2
    rw [← hneeds]
    refine List.map_congr_left fun path hmem => ?_
    obtain ⟨hpath, hneeded⟩ := List.mem_filter.mp hmem
    obtain ⟨htype, hpriority, -⟩ := hjudged path hpath
    have hsame := h path (.inl hpath)
    refine verdict_congr hsame.alike.settings ?_ htype hpriority ?_
    · rw [describe_path, describe_path]
    · rw [describe_path]
      exact hsame.documents path hpath (Path.same_refl path)
        (isSome_readText?_of_needsDocumentation hneeded)
  rw [check, check, checkFiles_of_increasing increasing_discover,
    checkFiles_of_increasing increasing_discover, tallyOf, tallyOf, hverdicts]

/-! ## Files of a project -/

/-- The content of the file that stands at a path of the project, however
long the path is. -/
def fileAt? (project : Project) (path : Path) : Option Content :=
  project.files.contentFrom? (if path.isAbsolute then [] else project.base) path.segments

theorem fileAt?_of_isAbsolute (h : path.isAbsolute = true) :
    project.fileAt? path = project.files.contentFrom? [] path.segments := by
  rw [fileAt?, if_pos h]

theorem fileAt?_of_relative (h : path.isAbsolute = false) :
    project.fileAt? path = project.files.contentFrom? project.base path.segments := by
  rw [fileAt?, h, if_neg Bool.false_ne_true]

/-- What is read at a path is the file that stands there, unless the full path
is no path of the file system. -/
theorem content?_full (hroot : project.files.resolve project.root = .ok location) (path : Path) :
    project.files.content? (project.full path) =
      FileSystem.unlessFault (project.full path) (project.fileAt? path) := by
  rw [full]
  cases habs : path.isAbsolute with
  | true =>
    rw [Path.join_of_isAbsolute habs, FileSystem.content?_eq, FileSystem.start, if_pos habs,
      fileAt?_of_isAbsolute habs]
  | false =>
    rw [FileSystem.content?_join hroot habs, fileAt?_of_relative habs, base_of_resolve hroot]

/-- Where the same file stands in two projects, the same is read, unless the
full path is a path in one of them only. -/
theorem readText?_full_congr {base base' : Location}
    (hroot : project.files.resolve project.root = .ok base)
    (hroot' : project'.files.resolve project'.root = .ok base')
    (hfault : FileSystem.pathFault? (project.full path) =
      FileSystem.pathFault? (project'.full path))
    (hfile : project.fileAt? path = project'.fileAt? path) :
    project.files.readText? (project.full path) =
      project'.files.readText? (project'.full path) := by
  rw [FileSystem.readText?, FileSystem.readText?, content?_full hroot, content?_full hroot',
    FileSystem.unlessFault_congr hfault, hfile]

theorem exists_walk_of_fileAt? (hrel : path.isAbsolute = false)
    (hfile : (project.fileAt? path).isSome) :
    project.files.walk project.base path.segments = .ok (project.place path) ∧
      (project.files.contentAt? (project.place path)).isSome := by
  rw [fileAt?_of_relative hrel] at hfile
  obtain ⟨content, hcontent⟩ := Option.isSome_iff_exists.mp hfile
  obtain ⟨place, hwalk, hplace⟩ := FileSystem.contentFrom?_eq_some_iff.mp hcontent
  obtain rfl : place = project.place path := FileSystem.walk_eq_along hwalk
  exact ⟨hwalk, by rw [hplace]; rfl⟩

/-- **What stands beside a file** is found from the directory of the file,
however the path of the file is spelled. -/
theorem fileAt?_beside (hrel : path.isAbsolute = false) (hfile : (project.fileAt? path).isSome)
    (name : String) :
    project.fileAt? (path.directory.child name) = project.files.contentFrom?
      (if Path.isAbsolute ⟨name⟩ then [] else (project.place path).dropLast)
      (Path.segments ⟨name⟩) := by
  rw [Path.child]
  cases habs : Path.isAbsolute ⟨name⟩ with
  | true => rw [Path.join_of_isAbsolute habs, fileAt?_of_isAbsolute habs, if_pos rfl]
  | false =>
    obtain ⟨hwalk, hplace⟩ := exists_walk_of_fileAt? hrel hfile
    obtain ⟨parent, hparent, hbelow⟩ := FileSystem.exists_parent_of_walk hwalk hplace
    obtain ⟨habsolute, hsegments⟩ := hbelow ⟨name⟩ habs
    rw [Path.directory, hparent, Option.getD_some,
      fileAt?_of_relative (habsolute.trans hrel), FileSystem.contentFrom?, hsegments,
      if_neg Bool.false_ne_true, FileSystem.contentFrom?]

theorem isSome_fileAt?_of_readText? (hroot : project.files.resolve project.root = .ok location)
    (h : (project.files.readText? (project.full path)).isSome) :
    (project.fileAt? path).isSome := by
  rw [FileSystem.readText?, content?_full hroot, FileSystem.unlessFault] at h
  split at h
  · exact Option.isSome_of_isSome_bind h
  · cases h

/-! ## Other trees -/

section WithFiles

variable {location' : Location} {content : Content}
  (hroot : project.files.resolve project.root = .ok location)
  (hroot' : (project.withFiles files).files.resolve (project.withFiles files).root = .ok location')
  (hrel : path.isAbsolute = false) (hfile : project.fileAt? path = some content)
  (hfile' : (project.withFiles files).fileAt? path = some content)
include hroot hroot' hrel hfile hfile'

/-- The same kinds of things stand along the path of a file that stands in
both. -/
theorem alikeOn_of_fileAt? : AlikeOn project (project.withFiles files) path := by
  rw [fileAt?_of_relative hrel, base_of_resolve hroot] at hfile
  rw [fileAt?_of_relative hrel, base_of_resolve hroot'] at hfile'
  obtain ⟨place, hwalk, hplace⟩ := FileSystem.contentFrom?_eq_some_iff.mp hfile
  obtain ⟨place', hwalk', hplace'⟩ := FileSystem.contentFrom?_eq_some_iff.mp hfile'
  refine alikeOn_of_resolve rfl hroot hroot' (FileSystem.alikeAlong_of_walk hwalk hwalk' ?_)
    fun _ _ => rfl
  rw [FileSystem.isSome_contentAt?_iff.mp (by rw [hplace]; rfl),
    FileSystem.isSome_contentAt?_iff.mp (by rw [hplace']; rfl)]

/-- Every spelling of the path leads to the same in both. -/
theorem fileAt?_same {spelling : Path} (hspelling : spelling.isAbsolute = false)
    (hsame : path.same spelling = true) :
    project.fileAt? spelling = (project.withFiles files).fileAt? spelling := by
  have halong := (alikeOn_of_fileAt? hroot hroot' hrel hfile hfile').along
  rw [fileAt?_of_relative hrel] at hfile hfile'
  obtain ⟨place, hwalk, hplace⟩ := FileSystem.contentFrom?_eq_some_iff.mp hfile
  obtain ⟨place', hwalk', hplace'⟩ := FileSystem.contentFrom?_eq_some_iff.mp hfile'
  rw [fileAt?_of_relative hspelling, fileAt?_of_relative hspelling]
  rw [Path.steps_of_same hsame] at halong
  refine FileSystem.contentFrom?_of_alikeAlong halong ?_
  change project.files.contentAt? (along _ spelling.steps) =
    (project.withFiles files).files.contentAt? (along _ spelling.steps)
  rw [← Path.steps_of_same hsame]
  have hsteps := FileSystem.walk_eq_along hwalk
  have hsteps' := FileSystem.walk_eq_along hwalk'
  rw [Path.steps, ← hsteps, ← hsteps', hplace, hplace']

/-- **Trees in which a file and the places of its documents hold the same are
the same at its path.** -/
theorem sameAt_withFiles
    (hbeside : ∀ place ∈ documentPlaces project.settings path,
      project.fileAt? place = (project.withFiles files).fileAt? place) :
    SameAt project (project.withFiles files) path where
  alike := alikeOn_of_fileAt? hroot hroot' hrel hfile hfile'
  source spelling hmem hsame := by
    have hspelling := isAbsolute_of_mem_found hroot (mem_found_of_mem_candidates hmem)
    exact readText?_full_congr hroot hroot' rfl
      (fileAt?_same hroot hroot' hrel hfile hfile' hspelling hsame)
  documents spelling hmem hsame hreadable place hplace := by
    have hspelling := isAbsolute_of_mem_found hroot (mem_found_of_mem_candidates hmem)
    have hthere := fileAt?_same hroot hroot' hrel hfile hfile' hspelling hsame
    have hsome := isSome_fileAt?_of_readText? hroot hreadable
    obtain ⟨name, hname, rfl⟩ := List.mem_map.mp hplace
    refine readText?_full_congr hroot hroot' rfl ?_
    -- beside this spelling stands what stands beside the path
    have hpath := hbeside _ (List.mem_map_of_mem hname)
    rw [fileAt?_beside hrel (by rw [hfile]; rfl),
      fileAt?_beside hrel (by rw [hfile']; rfl)] at hpath
    rw [fileAt?_beside hspelling hsome, fileAt?_beside hspelling (by rwa [← hthere]),
      ← place_of_same hsame, ← place_of_same hsame]
    exact hpath

end WithFiles

/-- **Verdicts are local.** Of two trees below a root, let a path lead to the
same file in both, and let the same files, or none, stand wherever documents
are looked for beside it. Then the path is discovered in both trees or in
neither, with the same verdict, and the gaps at this path are the same. -/
theorem check_local {project : Project} {files : FileSystem} {location location' : Location}
    {path : Path} {content : Content}
    (hroot : project.files.resolve project.root = .ok location)
    (hroot' : files.resolve project.root = .ok location') (hrel : path.isAbsolute = false)
    (hfile : project.fileAt? path = some content)
    (hfile' : (project.withFiles files).fileAt? path = some content)
    (hbeside : ∀ name ∈ project.settings.documents.besideSource,
      project.fileAt? (path.directory.child name) =
        (project.withFiles files).fileAt? (path.directory.child name)) :
    ((∃ file ∈ project.discover, path.same file.path = true) ↔
      ∃ file ∈ (project.withFiles files).discover, path.same file.path = true) ∧
    (∀ file ∈ project.discover, path.same file.path = true →
      ∃ file' ∈ (project.withFiles files).discover, file'.path = file.path ∧
        (project.Adequate project.discover file ∧
            (project.withFiles files).Adequate (project.withFiles files).discover file' ∨
          ∃ gap ∈ project.check.gaps,
            gap ∈ (project.withFiles files).check.gaps ∧ gap.codeFile = file.path)) ∧
    ∀ gap : Gap, path.same gap.codeFile = true →
      (gap ∈ project.check.gaps ↔ gap ∈ (project.withFiles files).check.gaps) := by
  have h : SameAt project (project.withFiles files) path :=
    sameAt_withFiles hroot hroot' hrel hfile hfile' (List.forall_mem_map.mpr hbeside)
  refine ⟨h.discovered_iff, ?_, ?_⟩
  · intro file hmem hsame
    exact h.adequate_or_gap hmem hsame
  · intro gap hsame
    exact h.mem_gaps_iff hsame

/-- A project of one service. -/
def alone : Project where
  files := (FileSystem.empty.put ["services"] .directory).put ["services", "run.ts"]
    (.file (.text ""))
  root := ⟨"/"⟩
  settings :=
    { standards := ⟨0.7, 85.0, [], []⟩
      sources := ⟨[("services", "services/*.ts")], [], Thresholds.builtIn⟩
      documents := ⟨["index.md"], []⟩ }

/-- The same service among others. -/
def crowd : FileSystem :=
  ((alone.files.put ["services", "stop.ts"] (.file (.text "export default run"))).put ["index.md"]
    (.file (.text "# All services"))).put ["services", "stop.md"] .directory

/-- The service is found among the others as it is found alone, and it misses
the same document. -/
theorem check_local_crowd :
    (∃ file ∈ (alone.withFiles crowd).discover,
      Path.same ⟨"services/run.ts"⟩ file.path = true) ∧
    ∀ gap : Gap, Path.same ⟨"services/run.ts"⟩ gap.codeFile = true →
      (gap ∈ alone.check.gaps ↔ gap ∈ (alone.withFiles crowd).check.gaps) := by
  have hroot : alone.files.resolve alone.root = .ok [] := rfl
  have hroot' : crowd.resolve alone.root = .ok [] := rfl
  have hfile : alone.fileAt? ⟨"services/run.ts"⟩ = some (.text "") := by decide +kernel
  have hfile' : (alone.withFiles crowd).fileAt? ⟨"services/run.ts"⟩ = some (.text "") := by
    decide +kernel
  have hbeside : ∀ name ∈ alone.settings.documents.besideSource,
      alone.fileAt? (Path.child (Path.directory ⟨"services/run.ts"⟩) name) =
        (alone.withFiles crowd).fileAt? (Path.child (Path.directory ⟨"services/run.ts"⟩) name) := by
    decide +kernel
  have hdiscovered : alone.describe ⟨"services/run.ts"⟩ ∈ alone.discover :=
    mem_discover.mpr ⟨_, mem_candidates.mpr (by decide +kernel), by decide +kernel, rfl⟩
  obtain ⟨hiff, -, hgaps⟩ := check_local hroot hroot' (by decide) hfile hfile' hbeside
  exact ⟨hiff.mp ⟨_, hdiscovered, by rw [describe_path]; exact Path.same_refl _⟩, hgaps⟩

end Project

end DocCoverage
