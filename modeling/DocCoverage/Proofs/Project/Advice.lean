import DocCoverage.Proofs.FileSystem.Writing
import DocCoverage.Proofs.Project.Candidates
import DocCoverage.Proofs.Project.Verdict
/-!
# Projects — following the advice of a missing gap

A missing gap names the document that should be there. Once a meaningful one
is written there, the file has it, for it is the first place where documents
are looked for — unless there is no such place: then the gap names a document
of a fallback name, and nothing is ever looked for
(`missing_after_writeFile_iff`).
-/

namespace DocCoverage

namespace Project

variable {project : Project} {path : Path} {file : CodeFile} {gap : Gap}

/-! ## Missing gaps -/

/-- **The missing gaps** are those of the candidates that need documentation
and have no document. -/
theorem mem_missing_iff : (gap ∈ project.check.gaps ∧ gap.kind = .missing) ↔
    ∃ path ∈ project.candidates, (project.describe path).needsDocumentation = true ∧
      project.findDocument? path = none ∧
        gap = missingGap project.settings (project.describe path) := by
  rw [check, gaps_of_increasing increasing_discover, gapsOf, List.mem_filterMap]
  constructor
  · rintro ⟨⟨file, hfile, hgap⟩, hkind⟩
    obtain ⟨path, hpath, hneeds, rfl⟩ := mem_discover.mp hfile
    rcases verdict_cases project (project.describe path) with
      ⟨hnone, hv⟩ | ⟨_, -, -, hv⟩ | ⟨_, -, -, hv⟩ <;> rw [hv] at hgap
    · rw [describe_path] at hnone
      exact ⟨path, hpath, hneeds, hnone, (Option.some_inj.mp hgap).symm⟩
    · cases hgap
    · obtain rfl := Option.some_inj.mp hgap
      cases hkind
  · rintro ⟨path, hpath, hneeds, hnone, rfl⟩
    refine ⟨⟨project.describe path, mem_discover.mpr ⟨path, hpath, hneeds, rfl⟩, ?_⟩, rfl⟩
    rw [verdict, describe_path, hnone]
    rfl

/-- A candidate has a missing gap if it needs documentation and has no
document. -/
theorem exists_missing_iff (hpath : path ∈ project.candidates) :
    (∃ gap ∈ project.check.gaps, gap.codeFile.same path = true ∧ gap.kind = .missing) ↔
      (project.describe path).needsDocumentation = true ∧ project.findDocument? path = none := by
  constructor
  · rintro ⟨gap, hgap, hsame, hkind⟩
    obtain ⟨other, hother, hneeds, hnone, rfl⟩ := mem_missing_iff.mp ⟨hgap, hkind⟩
    have hsame' : other.same path = true := by
      rw [← @describe_path project other]
      exact hsame
    obtain rfl := eq_of_same_of_mem_candidates hother hpath hsame'
    exact ⟨hneeds, hnone⟩
  · rintro ⟨hneeds, hnone⟩
    obtain ⟨hgap, hkind⟩ := mem_missing_iff.mpr ⟨path, hpath, hneeds, hnone, rfl⟩
    refine ⟨_, hgap, ?_, hkind⟩
    change (project.describe path).path.same path = true
    rw [describe_path]
    exact Path.same_refl path

/-! ## Where documents are looked for -/

/-- Where no place is set, no document is found. -/
theorem findDocument?_of_no_places (h : project.settings.documents.besideSource = []) :
    project.findDocument? path = none := by
  rw [findDocument?, documentPlaces, h]
  rfl

/-- If there are places, the expected document is looked for. -/
theorem no_places_of_findDocument? (hnone : project.findDocument? path = none)
    (hexpected : project.hasDocumentAt (expectedDocument project.settings path) = true) :
    project.settings.documents.besideSource = [] := by
  rw [findDocument?, List.find?_eq_none, documentPlaces] at hnone
  rw [expectedDocument] at hexpected
  cases hplaces : project.settings.documents.besideSource with
  | nil => rfl
  | cons name rest =>
    rw [hplaces] at hnone hexpected
    exact absurd hexpected (hnone _ (List.mem_map_of_mem List.mem_cons_self))

/-! ## Reading another tree -/

/-- What is judged of a file depends on its text. -/
theorem judged_withFiles {files : FileSystem}
    (h : files.readText? (project.full path) = project.files.readText? (project.full path)) :
    ((project.withFiles files).describe path).fileType = (project.describe path).fileType ∧
      ((project.withFiles files).describe path).priority = (project.describe path).priority ∧
      ((project.withFiles files).describe path).needsDocumentation =
        (project.describe path).needsDocumentation :=
  @judged_congr (project.withFiles files) project rfl path h

theorem missingGap_withFiles {files : FileSystem}
    (h : files.readText? (project.full path) = project.files.readText? (project.full path)) :
    missingGap project.settings ((project.withFiles files).describe path) =
      missingGap project.settings (project.describe path) := by
  obtain ⟨htype, hpriority, -⟩ := judged_withFiles h
  rw [missingGap, missingGap, describe_path, describe_path, htype, hpriority]

/-! ## After writing -/

section Writing

variable {target : Path} {content : Content} {files : FileSystem}
  (hwrite : project.files.writeFile target content = .ok files)
include hwrite

/-- A candidate stands where something stood before, so it is a candidate
again. -/
theorem mem_candidates_of_writeFile (hpath : path ∈ project.candidates) :
    path ∈ (project.withFiles files).candidates := by
  obtain ⟨_, keep, -, halike, hpresent, -⟩ := FileSystem.resolve_writeFile hwrite
  have halikeOn := alikeOn_withFiles halike hpresent (mem_found_of_mem_candidates hpath)
  exact (halikeOn.mem_candidates (Path.same_refl path)).mp hpath

/-- A file that is not the written one reads as before. -/
theorem readText?_of_writeFile (hfound : path ∈ project.found)
    (hreadable : (project.files.readText? (project.full path)).isSome)
    (hdifferent : files.resolve target ≠ files.resolve (project.full path)) :
    files.readText? (project.full path) = project.files.readText? (project.full path) := by
  obtain ⟨written, keep, hwritten, halike, hpresent, hentry⟩ :=
    FileSystem.resolve_writeFile hwrite
  refine readText?_withFiles halike hpresent hfound ?_
  obtain ⟨location, hres⟩ := FileSystem.resolve_of_isSome_readText? hreadable
  obtain rfl := eq_place_of_resolve hfound hres
  have hkeep := hpresent _ (isSome_entry?_of_mem_found hfound)
  rw [hentry, if_neg]
  -- where the document is written, both paths would lead to it
  intro hplace
  rw [hwritten, FileSystem.resolve_of_alike halike hkeep hres, hplace] at hdifferent
  exact hdifferent rfl

/-- What needed documentation still does, with the same gap if it is
missing. -/
theorem mem_missing_of_writeFile (hpath : path ∈ project.candidates)
    (hneeds : (project.describe path).needsDocumentation = true)
    (hnone : (project.withFiles files).findDocument? path = none)
    (hdifferent : files.resolve target ≠ files.resolve (project.full path)) :
    missingGap project.settings (project.describe path) ∈
      (project.withFiles files).check.gaps := by
  have hread := readText?_of_writeFile hwrite (mem_found_of_mem_candidates hpath)
    (isSome_readText?_of_needsDocumentation hneeds) hdifferent
  have hrecord := missingGap_withFiles hread
  obtain ⟨-, -, hneeds'⟩ := judged_withFiles hread
  rw [hneeds] at hneeds'
  have hagain := mem_candidates_of_writeFile hwrite hpath
  exact (mem_missing_iff.mpr ⟨path, hagain, hneeds', hnone, hrecord.symm⟩).1

end Writing

theorem hasDocumentAt_of_writeFile {target : Path} {text : String} {files : FileSystem}
    (htext : Document.isMeaningful text = true)
    (hwrite : project.files.writeFile (project.full target) (.text text) = .ok files) :
    (project.withFiles files).hasDocumentAt target = true := by
  have hread : (project.withFiles files).files.readText? ((project.withFiles files).full target) =
      some text := FileSystem.readText?_writeFile hwrite
  rw [hasDocumentAt, hread]
  exact htext

/-! ## Following the advice -/

/-- **What becomes of a missing gap** when a meaningful document is written
where it should be. The file has a missing gap again if and only if no place
is set where documents are looked for, and it still needs documentation. It
does unless the document is the file itself: then the gap stays as it was. -/
theorem missing_after_writeFile_iff {project : Project} {gap : Gap} {text : String}
    {files : FileSystem} (hgap : gap ∈ project.check.gaps) (hkind : gap.kind = .missing)
    (htext : Document.isMeaningful text = true)
    (hwrite : project.files.writeFile (project.full gap.document) (.text text) = .ok files) :
    ((∃ other ∈ (project.withFiles files).check.gaps,
        other.codeFile.same gap.codeFile = true ∧ other.kind = .missing) ↔
      project.settings.documents.besideSource = [] ∧
        ((project.withFiles files).describe gap.codeFile).needsDocumentation = true) ∧
    (project.settings.documents.besideSource = [] →
      files.resolve (project.full gap.document) ≠ files.resolve (project.full gap.codeFile) →
      gap ∈ (project.withFiles files).check.gaps) := by
  obtain ⟨path, hpath, hneeds, -, rfl⟩ := mem_missing_iff.mp ⟨hgap, hkind⟩
  have hcode : (missingGap project.settings (project.describe path)).codeFile = path :=
    describe_path path
  have hdocument : (missingGap project.settings (project.describe path)).document =
      expectedDocument project.settings path := by
    rw [missingGap, describe_path]
  rw [hdocument] at hwrite
  rw [hcode, hdocument, exists_missing_iff (mem_candidates_of_writeFile hwrite hpath)]
  -- the document that was written stands where it is looked for first, if anywhere
  have hexpected := hasDocumentAt_of_writeFile htext hwrite
  have hunfound (hplaces : project.settings.documents.besideSource = []) :
      (project.withFiles files).findDocument? path = none :=
    findDocument?_of_no_places hplaces
  refine ⟨⟨?_, ?_⟩, ?_⟩
  · rintro ⟨hneeds', hnone'⟩
    have hplaces : (project.withFiles files).settings.documents.besideSource = [] :=
      no_places_of_findDocument? hnone' hexpected
    exact ⟨hplaces, hneeds'⟩
  · rintro ⟨hplaces, hneeds'⟩
    exact ⟨hneeds', hunfound hplaces⟩
  · intro hplaces hdifferent
    exact mem_missing_of_writeFile hwrite hpath hneeds (hunfound hplaces) hdifferent

/-- A project of one service, with these places for its document. -/
def single (places : List String) : Project where
  files := (FileSystem.empty.put ["services"] .directory).put ["services", "run.ts"]
    (.file (.text ""))
  root := ⟨"/"⟩
  settings :=
    { standards := ⟨0.7, 85.0, [], []⟩
      sources := ⟨[("services", "services/run.ts")], [], Thresholds.builtIn⟩
      documents := ⟨places, []⟩ }

/-- A document for the service. -/
def note : String := "# Run\n\nThe service runs whatever it is given to run."

/-- Without a place for it the document changes nothing; with one it closes
the gap. -/
theorem missing_after_writeFile_single : Document.isMeaningful note = true ∧
    (∃ gap ∈ (single []).check.gaps, gap.kind = .missing ∧
      ∃ files, (single []).files.writeFile ((single []).full gap.document) (.text note) =
          .ok files ∧
        gap ∈ ((single []).withFiles files).check.gaps) ∧
    (∃ gap ∈ (single ["index.md"]).check.gaps, gap.kind = .missing ∧
      ∃ files, (single ["index.md"]).files.writeFile
          ((single ["index.md"]).full gap.document) (.text note) = .ok files ∧
        ∀ other ∈ ((single ["index.md"]).withFiles files).check.gaps,
          other.codeFile.same gap.codeFile = true → other.kind ≠ .missing) := by
  have htext : Document.isMeaningful note = true := by decide +kernel
  refine ⟨htext, ?_, ?_⟩
  · obtain ⟨hgap, hkind⟩ := (@mem_missing_iff (single []) _).mpr ⟨⟨"services/run.ts"⟩,
      mem_candidates.mpr (by decide +kernel), by decide +kernel,
      findDocument?_of_no_places rfl, rfl⟩
    refine ⟨_, hgap, hkind, ?_⟩
    have hwrites : ((single []).files.writeFile ⟨"/services/index.md"⟩
        (.text note)).toOption.any (fun files => decide (files.resolve ⟨"/services/index.md"⟩ ≠
          files.resolve ⟨"/services/run.ts"⟩)) = true := by decide +kernel
    cases hwrite : (single []).files.writeFile ⟨"/services/index.md"⟩ (.text note) with
    | error fault =>
      rw [hwrite] at hwrites
      cases hwrites
    | ok files =>
      rw [hwrite] at hwrites
      have hstays := (missing_after_writeFile_iff hgap hkind htext hwrite).2 rfl
      exact ⟨files, hwrite, hstays (of_decide_eq_true hwrites)⟩
  · obtain ⟨hgap, hkind⟩ := (@mem_missing_iff (single ["index.md"]) _).mpr ⟨⟨"services/run.ts"⟩,
      mem_candidates.mpr (by decide +kernel), by decide +kernel, by decide +kernel, rfl⟩
    refine ⟨_, hgap, hkind, ?_⟩
    have hwrites : ((single ["index.md"]).files.writeFile ⟨"/services/index.md"⟩
        (.text note)).toBool = true := by decide +kernel
    cases hwrite : (single ["index.md"]).files.writeFile ⟨"/services/index.md"⟩ (.text note) with
    | error fault =>
      rw [hwrite] at hwrites
      cases hwrites
    | ok files =>
      refine ⟨files, hwrite, fun other hother hsame hmissing => ?_⟩
      have hclosed := (missing_after_writeFile_iff hgap hkind htext hwrite).1
      obtain ⟨hplaces, -⟩ := hclosed.mp ⟨other, hother, hsame, hmissing⟩
      cases hplaces

end Project

end DocCoverage
