import DocCoverage.Proofs.Project.Verdict
import DocCoverage.Proofs.Report.Percentage
/-!
# Projects — what a report accounts for

A report accounts for files if each of them is counted once, as adequate,
missing or inadequate, and the gaps are those of the files that are not
adequate. All counters and both breakdowns agree with the gaps. The report
of a check accounts for the discovered files, for any tree and any settings.
-/

namespace DocCoverage

namespace Project

variable {project : Project} {file : CodeFile} {files : List CodeFile}

/-- A file is adequate among others if it has a document, and the score of
the document reaches the quality floor. -/
def Adequate (project : Project) (files : List CodeFile) (file : CodeFile) : Prop :=
  ∃ document, (file.path, document) ∈ project.findDocuments files ∧
    project.settings.minimumQuality ≤ project.scoreFor file document

/-- **What a report says about the files that were checked.** -/
structure Accounts (project : Project) (files : List CodeFile) (report : Report) : Prop where
  total : report.total = files.length
  partition : report.total = report.adequate + report.missing + report.inadequate
  documented : report.documented = report.adequate + report.inadequate
  missing : report.missing = report.gaps.countP fun gap => gap.kind == .missing
  inadequate : report.inadequate = report.gaps.countP fun gap => gap.kind == .inadequate
  /-- No path has two gaps. -/
  increasing : Path.Increasing (report.gaps.map Gap.codeFile)
  /-- Every file that is not adequate has its gap. -/
  gap_of_file : ∀ file ∈ files, ¬ project.Adequate files file →
    ∃! gap, gap ∈ report.gaps ∧ gap.codeFile = file.path
  /-- Nothing else has one. -/
  file_of_gap : ∀ gap ∈ report.gaps, ∃ file ∈ files, gap.codeFile = file.path ∧
    ¬ project.Adequate files file
  missing_iff : ∀ file ∈ files,
    (∃ gap ∈ report.gaps, gap.codeFile = file.path ∧ gap.kind = .missing) ↔
      ∀ document, (file.path, document) ∉ project.findDocuments files
  inadequate_iff : ∀ file ∈ files,
    (∃ gap ∈ report.gaps, gap.codeFile = file.path ∧ gap.kind = .inadequate) ↔
      ∃ document, (file.path, document) ∈ project.findDocuments files ∧
        ¬ project.settings.minimumQuality ≤ project.scoreFor file document
  /-- Not to reach the floor is to be below it, unless one of the two is no
  number and compares with nothing, not even with itself. -/
  below_iff : ∀ file ∈ files, ∀ document, (file.path, document) ∈ project.findDocuments files →
    project.settings.minimumQuality ≤ project.settings.minimumQuality →
    project.scoreFor file document ≤ project.scoreFor file document →
    ((∃ gap ∈ report.gaps, gap.codeFile = file.path ∧ gap.kind = .inadequate) ↔
      project.scoreFor file document < project.settings.minimumQuality)
  byPriority : ∀ priority, report.byPriority priority =
    some (report.gaps.countP fun gap => gap.priority == priority)
  byFileType_none : ∀ fileType, (∀ gap ∈ report.gaps, gap.fileType ≠ fileType) →
    report.byFileType fileType = none
  byFileType_some : ∀ fileType, (∃ gap ∈ report.gaps, gap.fileType = fileType) →
    report.byFileType fileType = some
      { missing := report.gaps.countP fun gap => gap.kind == .missing && gap.fileType == fileType
        inadequate :=
          report.gaps.countP fun gap => gap.kind == .inadequate && gap.fileType == fileType }
  /-- A count is a machine word. -/
  coverage_bounds : report.total < 2 ^ 64 → 0.0 ≤ report.coverage ∧ report.coverage ≤ 100.0
  coverage_of_no_gaps : report.total < 2 ^ 64 → report.gaps = [] → report.coverage = 100.0
  /-- The coverage is that of the counts as floating-point numbers. -/
  coverage_iff_ofNat : report.total < 2 ^ 64 →
    (report.coverage = 100.0 ↔ Float.ofNat report.adequate = Float.ofNat report.total)
  /-- Up to 2^53 these tell all counts apart. -/
  coverage_iff : report.total ≤ 2 ^ 53 → (report.coverage = 100.0 ↔ report.gaps = [])

/-! ## Gaps -/

theorem adequate_iff (h : Path.Increasing (files.map CodeFile.path)) (hfile : file ∈ files) :
    project.Adequate files file ↔ (project.verdict file).gap? = none := by
  constructor
  · rintro ⟨document, hmem, hfloor⟩
    have hfound := (mem_findDocuments h hfile).mp hmem
    rcases verdict_cases project file with ⟨hnone, -⟩ | ⟨_, -, -, hv⟩ | ⟨other, hother, hlow, -⟩
    · rw [hfound] at hnone
      contradiction
    · rw [hv]
      rfl
    · rw [hfound] at hother
      obtain rfl := Option.some_inj.mp hother
      exact absurd hfloor hlow
  · intro hgap
    rcases verdict_cases project file with ⟨-, hv⟩ | ⟨document, hfound, hfloor, -⟩ | ⟨_, -, -, hv⟩
    · rw [hv] at hgap
      contradiction
    · exact ⟨document, (mem_findDocuments h hfile).mpr hfound, hfloor⟩
    · rw [hv] at hgap
      contradiction

/-- The gaps of increasing files are those of their verdicts. -/
theorem mem_gaps (h : Path.Increasing (files.map CodeFile.path)) {gap : Gap} :
    gap ∈ (project.checkFiles files).gaps ↔ ∃ file ∈ files, (project.verdict file).gap? = some gap := by
  rw [gaps_of_increasing h, gapsOf, List.mem_filterMap]

/-- A gap with the path of a file is the gap of that file. -/
theorem gap_eq_of_path (h : Path.Increasing (files.map CodeFile.path)) (hfile : file ∈ files)
    {gap : Gap} (hgap : gap ∈ (project.checkFiles files).gaps) (hpath : gap.codeFile = file.path) :
    (project.verdict file).gap? = some gap := by
  obtain ⟨other, hother, hv⟩ := (mem_gaps h).mp hgap
  -- the gap comes from a file of this path, and there is only one
  have hsame : other.path.same file.path = true := by
    rw [← codeFile_of_verdict hv, hpath]
    exact Path.same_refl _
  rw [← h.eq_of_same hother hfile hsame, hv]

/-- A file has a gap of a kind if that is its verdict. -/
theorem exists_gap_iff (h : Path.Increasing (files.map CodeFile.path)) (hfile : file ∈ files)
    (kind : GapKind) :
    (∃ gap ∈ (project.checkFiles files).gaps, gap.codeFile = file.path ∧ gap.kind = kind) ↔
      ∃ gap, (project.verdict file).gap? = some gap ∧ gap.kind = kind := by
  constructor
  · rintro ⟨gap, hgap, hpath, hkind⟩
    exact ⟨gap, gap_eq_of_path h hfile hgap hpath, hkind⟩
  · rintro ⟨gap, hv, hkind⟩
    exact ⟨gap, (mem_gaps h).mpr ⟨file, hfile, hv⟩, codeFile_of_verdict hv, hkind⟩

theorem missing_gap_iff (h : Path.Increasing (files.map CodeFile.path)) (hfile : file ∈ files) :
    (∃ gap ∈ (project.checkFiles files).gaps, gap.codeFile = file.path ∧ gap.kind = .missing) ↔
      ∀ document, (file.path, document) ∉ project.findDocuments files := by
  rw [exists_gap_iff h hfile]
  simp only [mem_findDocuments h hfile]
  constructor
  · rintro ⟨gap, hgap, hkind⟩ document hfound
    rcases verdict_cases project file with ⟨hnone, -⟩ | ⟨_, -, -, hv⟩ | ⟨_, -, -, hv⟩
    · rw [hnone] at hfound
      contradiction
    · rw [hv] at hgap
      contradiction
    · rw [hv] at hgap
      obtain rfl := Option.some_inj.mp hgap
      contradiction
  · intro hnone
    rcases verdict_cases project file with ⟨-, hv⟩ | ⟨_, hfound, -⟩ | ⟨_, hfound, -⟩
    · exact ⟨missingGap project.settings file, by rw [hv]; rfl, rfl⟩
    · exact absurd hfound (hnone _)
    · exact absurd hfound (hnone _)

theorem inadequate_gap_iff (h : Path.Increasing (files.map CodeFile.path)) (hfile : file ∈ files) :
    (∃ gap ∈ (project.checkFiles files).gaps, gap.codeFile = file.path ∧ gap.kind = .inadequate) ↔
      ∃ document, (file.path, document) ∈ project.findDocuments files ∧
        ¬ project.settings.minimumQuality ≤ project.scoreFor file document := by
  rw [exists_gap_iff h hfile]
  simp only [mem_findDocuments h hfile]
  constructor
  · rintro ⟨gap, hgap, hkind⟩
    rcases verdict_cases project file with ⟨-, hv⟩ | ⟨_, -, -, hv⟩ | ⟨document, hfound, hlow, -⟩
    · rw [hv] at hgap
      obtain rfl := Option.some_inj.mp hgap
      contradiction
    · rw [hv] at hgap
      contradiction
    · exact ⟨document, hfound, hlow⟩
  · rintro ⟨document, hfound, hlow⟩
    rcases verdict_cases project file with ⟨hnone, -⟩ | ⟨other, hother, hfloor, -⟩ | ⟨_, -, -, hv⟩
    · rw [hnone] at hfound
      contradiction
    · rw [hfound] at hother
      obtain rfl := Option.some_inj.mp hother
      exact absurd hfloor hlow
    · exact ⟨_, by rw [hv]; rfl, rfl⟩

theorem below_gap_iff (h : Path.Increasing (files.map CodeFile.path)) (hfile : file ∈ files)
    {document : Path} (hmem : (file.path, document) ∈ project.findDocuments files)
    (hfloor : project.settings.minimumQuality ≤ project.settings.minimumQuality)
    (hscore : project.scoreFor file document ≤ project.scoreFor file document) :
    (∃ gap ∈ (project.checkFiles files).gaps, gap.codeFile = file.path ∧ gap.kind = .inadequate) ↔
      project.scoreFor file document < project.settings.minimumQuality := by
  rw [inadequate_gap_iff h hfile, ← Binary64.float_not_le hfloor hscore]
  constructor
  · rintro ⟨other, hother, hlow⟩
    rw [mem_findDocuments h hfile] at hmem hother
    rw [hmem] at hother
    rw [Option.some_inj.mp hother]
    exact hlow
  · exact fun hlow => ⟨document, hmem, hlow⟩

theorem gap_of_not_adequate (h : Path.Increasing (files.map CodeFile.path)) (hfile : file ∈ files)
    (hnot : ¬ project.Adequate files file) :
    ∃! gap, gap ∈ (project.checkFiles files).gaps ∧ gap.codeFile = file.path := by
  rw [adequate_iff h hfile] at hnot
  obtain ⟨gap, hv⟩ := Option.ne_none_iff_exists'.mp hnot
  refine ⟨gap, ⟨(mem_gaps h).mpr ⟨file, hfile, hv⟩, codeFile_of_verdict hv⟩, ?_⟩
  rintro other ⟨hother, hpath⟩
  have hv' := gap_eq_of_path h hfile hother hpath
  rw [hv] at hv'
  exact (Option.some_inj.mp hv').symm

theorem not_adequate_of_gap (h : Path.Increasing (files.map CodeFile.path)) {gap : Gap}
    (hgap : gap ∈ (project.checkFiles files).gaps) :
    ∃ file ∈ files, gap.codeFile = file.path ∧ ¬ project.Adequate files file := by
  obtain ⟨file, hfile, hv⟩ := (mem_gaps h).mp hgap
  refine ⟨file, hfile, codeFile_of_verdict hv, ?_⟩
  rw [adequate_iff h hfile, hv]
  exact Option.some_ne_none gap

/-! ## Counters -/

/-- The counts of gaps are taken before they are sorted, and sorting them
does not change a count. -/
theorem counts_of_increasing (h : Path.Increasing (files.map CodeFile.path)) :
    (project.checkFiles files).missing =
        ((project.checkFiles files).gaps.countP fun gap => gap.kind == .missing) ∧
      (project.checkFiles files).inadequate =
        ((project.checkFiles files).gaps.countP fun gap => gap.kind == .inadequate) := by
  rw [gaps_of_increasing h, checkFiles_of_increasing h, ← gaps_tallyOf]
  exact ⟨rfl, rfl⟩

theorem byPriority_of_increasing (h : Path.Increasing (files.map CodeFile.path))
    (priority : Priority) : (project.checkFiles files).byPriority priority =
      some ((project.checkFiles files).gaps.countP fun gap => gap.priority == priority) := by
  rw [gaps_of_increasing h, checkFiles_of_increasing h, ← gaps_tallyOf]
  rfl

theorem byFileType_of_increasing (h : Path.Increasing (files.map CodeFile.path))
    (fileType : FileType) :
    (project.checkFiles files).byFileType fileType =
      if ((project.checkFiles files).gaps.filter fun gap => gap.fileType == fileType).isEmpty then none
      else some (GapCounts.ofGaps
        ((project.checkFiles files).gaps.filter fun gap => gap.fileType == fileType)) := by
  rw [gaps_of_increasing h, checkFiles_of_increasing h, ← gaps_tallyOf]
  rfl

/-! ## The report of a check -/

/-- **The report of increasing files accounts for them.** -/
theorem accounts_of_increasing (h : Path.Increasing (files.map CodeFile.path)) :
    Accounts project files (project.checkFiles files) where
  total := by
    rw [checkFiles_of_increasing h]
    exact total_tallyOf
  partition := by
    rw [checkFiles_of_increasing h]
    exact balanced_tallyOf.total
  documented := by
    rw [checkFiles_of_increasing h]
    exact balanced_tallyOf.documented
  missing := (counts_of_increasing h).1
  inadequate := (counts_of_increasing h).2
  increasing := by
    rw [gaps_of_increasing h]
    exact increasing_gapsOf h
  gap_of_file _ hfile := gap_of_not_adequate h hfile
  file_of_gap _ := not_adequate_of_gap h
  missing_iff _ hfile := missing_gap_iff h hfile
  inadequate_iff _ hfile := inadequate_gap_iff h hfile
  below_iff _ hfile _ hmem hfloor hscore := below_gap_iff h hfile hmem hfloor hscore
  byPriority := byPriority_of_increasing h
  byFileType_none fileType hnone := by
    rw [byFileType_of_increasing h, if_pos]
    rw [List.isEmpty_iff, List.filter_eq_nil_iff]
    intro gap hgap
    rw [beq_iff_eq]
    exact hnone gap hgap
  byFileType_some fileType hsome := by
    obtain ⟨gap, hgap, htype⟩ := hsome
    rw [byFileType_of_increasing h, if_neg]
    · rw [GapCounts.ofGaps, List.countP_filter, List.countP_filter]
    · rw [List.isEmpty_iff, List.filter_eq_nil_iff]
      intro hnone
      exact hnone gap hgap (beq_iff_eq.mpr htype)
  coverage_bounds hword := by
    rw [checkFiles_of_increasing h] at hword ⊢
    exact balanced_tallyOf.coverage_bounds hword
  coverage_of_no_gaps hword := by
    rw [gaps_of_increasing h, ← gaps_tallyOf]
    rw [checkFiles_of_increasing h] at hword ⊢
    exact balanced_tallyOf.coverage_of_no_gaps hword
  coverage_iff_ofNat hword := by
    rw [checkFiles_of_increasing h] at hword ⊢
    exact balanced_tallyOf.coverage_iff_ofNat hword
  coverage_iff hexact := by
    rw [gaps_of_increasing h, ← gaps_tallyOf]
    rw [checkFiles_of_increasing h] at hexact ⊢
    exact balanced_tallyOf.coverage_iff hexact

/-- **The report of a check accounts for the discovered files**, whatever
tree and settings it is run on. -/
theorem check_accounts (project : Project) : Accounts project project.discover project.check :=
  accounts_of_increasing increasing_discover

end Project

end DocCoverage
