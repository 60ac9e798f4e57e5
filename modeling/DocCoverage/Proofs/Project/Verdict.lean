import DocCoverage.Project.Check
import DocCoverage.Proofs.Report.Tally
import Mathlib.Data.List.Find
/-!
# Projects — the verdict on a file

The verdict on a file is its outcome with the document that is found for it,
whatever other files are checked. Files whose paths increase, as those that
are discovered do (`increasing_discover`), have their verdicts as outcomes
one by one (`outcomes_of_increasing`), and their report can be read off
these (`checkFiles_of_increasing`).
-/

namespace DocCoverage

namespace Project

variable {project : Project} {file : CodeFile} {files : List CodeFile} {gap : Gap}

/-! ## Discovered files -/

theorem describe_path (path : Path) : (project.describe path).path = path := by
  unfold describe describeWith
  split <;> rfl

theorem increasing_candidates : Path.Increasing project.candidates :=
  Path.increasing_firstSpellings _

/-- No path has two spellings among the candidates. -/
theorem eq_of_same_of_mem_candidates {a b : Path} (ha : a ∈ project.candidates)
    (hb : b ∈ project.candidates) (hsame : a.same b = true) : a = b := by
  have hall : Path.Increasing (project.candidates.map id) := by
    rw [List.map_id]
    exact increasing_candidates
  exact hall.eq_of_same ha hb hsame

/-- **Files are discovered in strictly increasing order of their paths.** -/
theorem increasing_discover : Path.Increasing (project.discover.map CodeFile.path) := by
  have hpaths : (project.candidates.map project.describe).map CodeFile.path =
      project.candidates := by
    rw [List.map_map]
    exact (List.map_congr_left fun path _ => describe_path path).trans (List.map_id _)
  have hall : Path.Increasing project.candidates := increasing_candidates
  rw [← hpaths] at hall
  exact hall.sublist (List.filter_sublist.map _)

/-- Files picked from increasing ones increase. -/
theorem increasing_filter (h : Path.Increasing (files.map CodeFile.path)) (p : CodeFile → Bool) :
    Path.Increasing ((files.filter p).map CodeFile.path) :=
  h.sublist (List.filter_sublist.map _)

theorem mem_discover : file ∈ project.discover ↔
    ∃ path ∈ project.candidates, (project.describe path).needsDocumentation = true ∧
      file = project.describe path := by
  rw [discover, List.mem_filter, List.mem_map]
  constructor
  · rintro ⟨⟨path, hpath, rfl⟩, hneeds⟩
    exact ⟨path, hpath, hneeds, rfl⟩
  · rintro ⟨path, hpath, hneeds, rfl⟩
    exact ⟨⟨path, hpath, rfl⟩, hneeds⟩

/-- A file that needs documentation can be read. -/
theorem isSome_readText?_of_needsDocumentation
    {path : Path}
    (h : (project.describe path).needsDocumentation = true) :
    (project.files.readText? (project.full path)).isSome := by
  unfold describe describeWith at h
  cases hread : project.files.readText? (project.full path) with
  | none =>
    rw [hread] at h
    cases h
  | some text => rfl

/-! ## Documents -/

/-- What is found for increasing files is kept, in their order. -/
theorem findDocuments_of_increasing (h : Path.Increasing (files.map CodeFile.path)) :
    project.findDocuments files = files.filterMap fun file =>
      (project.findDocument? file.path).map fun document => (file.path, document) := by
  refine Path.lastOfEach_of_increasing (h.filterMap fun file entry hentry => ?_)
  obtain ⟨document, -, rfl⟩ := Option.map_eq_some_iff.mp hentry
  rfl

/-- The entry of a file is what is found for it. -/
theorem mem_findDocuments (h : Path.Increasing (files.map CodeFile.path)) (hfile : file ∈ files)
    {document : Path} :
    (file.path, document) ∈ project.findDocuments files ↔
      project.findDocument? file.path = some document := by
  rw [findDocuments_of_increasing h, List.mem_filterMap]
  constructor
  · rintro ⟨other, -, hother⟩
    obtain ⟨found, hfound, hpair⟩ := Option.map_eq_some_iff.mp hother
    obtain ⟨hpath, rfl⟩ := Prod.mk.injEq .. ▸ hpair
    rw [← hpath, hfound]
  · intro hfound
    exact ⟨file, hfile, by rw [hfound, Option.map_some]⟩

/-! ## Verdicts -/

/-- The outcome for a file with the document that is found for it. -/
def verdict (project : Project) (file : CodeFile) : Outcome :=
  project.outcome file (project.findDocument? file.path)

/-- **Each of several increasing files has its own verdict.** -/
theorem outcomes_of_increasing (h : Path.Increasing (files.map CodeFile.path)) :
    project.outcomes files = files.map project.verdict := by
  refine List.map_congr_left fun file hfile => ?_
  -- what was found is the table of the files with their documents
  have htable : (project.findDocuments files).map (fun entry =>
      (entry.1.components, entry.2)) =
      Path.table CodeFile.path (fun file => project.findDocument? file.path) files := by
    rw [findDocuments_of_increasing h, List.map_filterMap, Path.table]
    refine List.filterMap_congr fun file _ => ?_
    rw [Option.map_map]
    rfl
  change project.outcome file (((project.findDocuments files).map fun entry =>
    (entry.1.components, entry.2)).lookup file.path.components) = _
  rw [htable, Path.lookup_table _ _ h hfile, verdict]

/-- The score of a document, as it is assessed for a file. -/
def scoreFor (project : Project) (file : CodeFile) (document : Path) : Float :=
  (project.assess document file.fileType file.priority).score

/-- **The three verdicts.** There is no document, there is one that reaches
the floor, or there is one that does not. -/
theorem verdict_cases (project : Project) (file : CodeFile) :
    (project.findDocument? file.path = none ∧
      project.verdict file = .missing (missingGap project.settings file)) ∨
    (∃ document, project.findDocument? file.path = some document ∧
      project.settings.minimumQuality ≤ project.scoreFor file document ∧
      project.verdict file = .adequate (project.scoreFor file document)) ∨
    (∃ document, project.findDocument? file.path = some document ∧
      ¬ project.settings.minimumQuality ≤ project.scoreFor file document ∧
      project.verdict file = .inadequate (project.scoreFor file document)
        (inadequateGap project.settings file document
          (project.assess document file.fileType file.priority))) := by
  rw [verdict]
  cases hdoc : project.findDocument? file.path with
  | none => exact .inl ⟨rfl, rfl⟩
  | some document =>
    by_cases hfloor : project.settings.minimumQuality ≤ project.scoreFor file document
    · exact .inr (.inl ⟨document, rfl, hfloor, if_pos hfloor⟩)
    · exact .inr (.inr ⟨document, rfl, hfloor, if_neg hfloor⟩)

theorem verdict_consistent : (project.verdict file).Consistent := by
  rcases verdict_cases project file with ⟨-, h⟩ | ⟨_, -, -, h⟩ | ⟨_, -, -, h⟩
  · rw [h]
    exact rfl
  · rw [h]
    exact trivial
  · rw [h]
    exact rfl

/-! ## What a verdict depends on -/

/-- What is judged of a file with a text, by the facts about it. -/
theorem judged_describe (thresholds : Thresholds) (extract : Extractor) (hasTests : Bool)
    (path : Path) (text : List Char) :
    (CodeFile.describe thresholds extract hasTests path text).fileType =
        (CodeFile.factsOf path text (extract text)).fileType ∧
      (CodeFile.describe thresholds extract hasTests path text).priority =
        (CodeFile.factsOf path text (extract text)).priority thresholds ∧
      (CodeFile.describe thresholds extract hasTests path text).needsDocumentation =
        (CodeFile.factsOf path text (extract text)).needsDocumentation thresholds := by
  refine ⟨?_, ?_, ?_⟩
  · rw [CodeFile.describe]
  · rw [CodeFile.describe]
  · rw [CodeFile.describe]

section Congr

variable {project' : Project} (hsettings : project.settings = project'.settings)
include hsettings

/-- What is judged of a file depends on its text, and on no other file: that
there are tests or not is said, but not judged by. -/
theorem judged_congr {path : Path}
    (h : project.files.readText? (project.full path) =
      project'.files.readText? (project'.full path)) :
    (project.describe path).fileType = (project'.describe path).fileType ∧
      (project.describe path).priority = (project'.describe path).priority ∧
      (project.describe path).needsDocumentation =
        (project'.describe path).needsDocumentation := by
  unfold describe describeWith
  rw [h, hsettings]
  cases project'.files.readText? (project'.full path) with
  | none => exact ⟨rfl, rfl, rfl⟩
  | some text =>
    -- the two descriptions may differ in whether there are tests
    obtain ⟨htype, hpriority, hneeds⟩ := judged_describe project'.settings.thresholds
      Signals.extract (project'.hasTests path) path text.toList
    dsimp only
    rw [htype, hpriority, hneeds]
    exact judged_describe project'.settings.thresholds Signals.extract _ path text.toList

/-- **The verdict on a file** depends on its path, type and priority, and on
what is read where its documents are looked for. -/
theorem verdict_congr {file' : CodeFile} (hpath : file.path = file'.path)
    (htype : file.fileType = file'.fileType) (hpriority : file.priority = file'.priority)
    (hread : ∀ place ∈ documentPlaces project.settings file.path,
      project.files.readText? (project.full place) =
        project'.files.readText? (project'.full place)) :
    project.verdict file = project'.verdict file' := by
  have hfind : project.findDocument? file.path = project'.findDocument? file'.path := by
    rw [findDocument?, findDocument?, ← hsettings, ← hpath]
    refine List.find?_congr fun place hplace => ?_
    rw [hasDocumentAt, hasDocumentAt, hread place hplace]
  rw [verdict, verdict, ← hfind]
  cases hdocument : project.findDocument? file.path with
  | none => rw [outcome, outcome, missingGap, missingGap, hsettings, hpath, htype, hpriority]
  | some document =>
    have hassess : project.assess document file.fileType file.priority =
        project'.assess document file'.fileType file'.priority := by
      unfold assess
      rw [hread document (List.mem_of_find?_eq_some hdocument), hsettings, htype, hpriority]
    rw [outcome, outcome, hassess, inadequateGap, inadequateGap, hsettings, hpath, htype, hpriority]

end Congr

/-- The gap of a file is recorded under its path. -/
theorem codeFile_of_verdict (h : gap ∈ (project.verdict file).gap?) : gap.codeFile = file.path := by
  rcases verdict_cases project file with ⟨-, hv⟩ | ⟨_, -, -, hv⟩ | ⟨_, -, -, hv⟩ <;> rw [hv] at h
  · obtain rfl := Option.mem_some_iff.mp h
    rfl
  · contradiction
  · obtain rfl := Option.mem_some_iff.mp h
    rfl

/-- The gaps of files. -/
def gapsOf (project : Project) (files : List CodeFile) : List Gap :=
  files.filterMap fun file => (project.verdict file).gap?

theorem increasing_gapsOf (h : Path.Increasing (files.map CodeFile.path)) :
    Path.Increasing ((project.gapsOf files).map Gap.codeFile) :=
  h.filterMap fun _ _ hgap => codeFile_of_verdict hgap

/-! ## The tally of verdicts -/

/-- What is recorded for files. -/
def tallyOf (project : Project) (files : List CodeFile) : Tally :=
  Tally.ofOutcomes (files.map project.verdict)

/-- **The report of increasing files is that of the tally of their
verdicts.** -/
theorem checkFiles_of_increasing (h : Path.Increasing (files.map CodeFile.path)) :
    project.checkFiles files = (project.tallyOf files).report := by
  rw [checkFiles, outcomes_of_increasing h, tallyOf]

theorem balanced_tallyOf : (project.tallyOf files).Balanced := by
  refine Tally.balanced_ofOutcomes fun outcome houtcome => ?_
  obtain ⟨file, -, rfl⟩ := List.mem_map.mp houtcome
  exact verdict_consistent

theorem tallyOf_eq (project : Project) (files : List CodeFile) :
    project.tallyOf files =
      { total := files.length
        documented := files.countP fun file => (project.verdict file).isDocumented
        adequate := files.countP fun file => (project.verdict file).isAdequate
        scores := (files.filterMap fun file => (project.verdict file).score?).foldl (· + ·) 0.0
        gaps := project.gapsOf files } := by
  have h := Tally.ofOutcomes_eq (files.map project.verdict)
  simp only [List.length_map, List.countP_map, List.filterMap_map] at h
  exact h

theorem total_tallyOf : (project.tallyOf files).total = files.length := by
  rw [tallyOf_eq]

theorem gaps_tallyOf : (project.tallyOf files).gaps = project.gapsOf files := by
  rw [tallyOf_eq]

/-- The gaps of increasing files are already in order. -/
theorem gaps_of_increasing (h : Path.Increasing (files.map CodeFile.path)) :
    (project.checkFiles files).gaps = project.gapsOf files := by
  rw [checkFiles_of_increasing h, ← gaps_tallyOf]
  refine Tally.sorted_of_increasing ?_
  rw [gaps_tallyOf]
  exact increasing_gapsOf h

/-! ## The full run -/

/-- The discovered files with their outcomes, as a full check has them. -/
def fullRun (project : Project) : List (CodeFile × Outcome) :=
  project.discover.zip (project.outcomes project.discover)

theorem fullRun_eq (project : Project) :
    project.fullRun = project.discover.map fun file => (file, project.verdict file) := by
  have hzip := List.zip_map' (f := id) (g := project.verdict) (l := project.discover)
  rw [List.map_id] at hzip
  rw [fullRun, outcomes_of_increasing increasing_discover, hzip]
  rfl

end Project

end DocCoverage
