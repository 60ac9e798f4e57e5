import DocCoverage.Proofs.Binary64.Order
import DocCoverage.Proofs.Project.Candidates
import DocCoverage.Proofs.Project.Verdict
/-!
# Projects — raising the quality floor

The quality floor is looked at once, when a score is compared with it.
Raising it leaves the verdict on a file as it is, or turns an adequate file
into an inadequate one (`verdict_withFloor`), and it does so for the files
whose score lies between the floors (`exists_demoted`). What files are found,
their documents and their scores stay the same, so that the report of a check
changes by new inadequate gaps only.
-/

namespace DocCoverage

namespace Project

variable {project : Project} {file : CodeFile} {low high : Float}

/-- The project with another quality floor. -/
def withFloor (project : Project) (floor : Float) : Project :=
  { project with
    settings := { project.settings with
      standards := { project.settings.standards with minimumQuality := floor } } }

/-! ## What the floor does not touch -/

theorem candidates_withFloor (floor : Float) :
    (project.withFloor floor).candidates = project.candidates := by
  unfold candidates found
  rfl

theorem describe_withFloor (floor : Float) (path : Path) :
    (project.withFloor floor).describe path = project.describe path := by
  unfold describe describeWith
  rfl

theorem discover_withFloor (floor : Float) :
    (project.withFloor floor).discover = project.discover := by
  rw [discover, discover, candidates_withFloor]
  exact congrArg (List.filter _) (List.map_congr_left fun path _ => describe_withFloor floor path)

theorem findDocument?_withFloor (floor : Float) (path : Path) :
    (project.withFloor floor).findDocument? path = project.findDocument? path := rfl

theorem assess_withFloor (floor : Float) (document : Path) (fileType : FileType)
    (priority : Priority) : (project.withFloor floor).assess document fileType priority =
      project.assess document fileType priority := by
  unfold assess Quality.assess
  rfl

/-- The score is that of what the document has. -/
theorem scoreFor_of_readText {document : Path} {text : String}
    (h : project.files.readText? (project.full document) = some text) :
    project.scoreFor file document = (Features.ofText text.toList).score
      (project.settings.sectionsFor file.fileType) (project.settings.wordsFor file.priority) := by
  unfold scoreFor assess
  rw [h]
  rfl

/-! ## Verdicts under two floors -/

/-- With a document, a file has the verdict that its score has under the
floor. -/
theorem verdict_withFloor_eq {document : Path}
    (hdocument : project.findDocument? file.path = some document) (floor : Float) :
    (project.withFloor floor).verdict file =
      if floor ≤ project.scoreFor file document then .adequate (project.scoreFor file document)
      else .inadequate (project.scoreFor file document)
        (inadequateGap project.settings file document
          (project.assess document file.fileType file.priority)) := by
  rw [verdict, findDocument?_withFloor, hdocument, outcome, assess_withFloor]
  rfl

/-- **Raising the floor only turns adequate files into inadequate ones.** -/
theorem verdict_withFloor (hle : low ≤ high) (file : CodeFile) :
    (project.withFloor high).verdict file = (project.withFloor low).verdict file ∨
      ∃ score gap, gap.kind = GapKind.inadequate ∧
        (project.withFloor low).verdict file = .adequate score ∧
        (project.withFloor high).verdict file = .inadequate score gap := by
  cases hdocument : project.findDocument? file.path with
  | none =>
    rw [verdict, verdict, findDocument?_withFloor, findDocument?_withFloor, hdocument]
    exact .inl rfl
  | some document =>
    rw [verdict_withFloor_eq hdocument, verdict_withFloor_eq hdocument]
    by_cases hlow : low ≤ project.scoreFor file document
    · by_cases hhigh : high ≤ project.scoreFor file document
      · exact .inl (by rw [if_pos hlow, if_pos hhigh])
      · rw [if_pos hlow, if_neg hhigh]
        exact .inr ⟨_, _, rfl, rfl, rfl⟩
    · -- a score that reaches the higher floor reaches the lower one
      have hhigh : ¬ high ≤ project.scoreFor file document :=
        fun hreach => hlow (Binary64.float_le_trans hle hreach)
      exact .inl (by rw [if_neg hlow, if_neg hhigh])

/-- Whether a file has a document, with what score, and whether it is
missing one, is the same under both floors. -/
theorem verdict_withFloor_same (hle : low ≤ high) (file : CodeFile) :
    ((project.withFloor high).verdict file).isDocumented =
        ((project.withFloor low).verdict file).isDocumented ∧
      ((project.withFloor high).verdict file).score? =
        ((project.withFloor low).verdict file).score? ∧
      ((project.withFloor high).verdict file).gap?.filter (fun gap => gap.kind == .missing) =
        ((project.withFloor low).verdict file).gap?.filter fun gap => gap.kind == .missing := by
  rcases verdict_withFloor hle file with heq | ⟨score, gap, hkind, hlow, hhigh⟩
  · rw [heq]
    exact ⟨rfl, rfl, rfl⟩
  · have hnot : (gap.kind == GapKind.missing) = false := by rw [hkind]; rfl
    rw [hlow, hhigh]
    refine ⟨rfl, rfl, ?_⟩
    rw [Outcome.gap?, Outcome.gap?, Option.filter_some, hnot]
    rfl

theorem isAdequate_of_withFloor (hle : low ≤ high)
    (h : ((project.withFloor high).verdict file).isAdequate = true) :
    ((project.withFloor low).verdict file).isAdequate = true := by
  rcases verdict_withFloor hle file with heq | ⟨score, gap, -, hlow, -⟩
  · rwa [heq] at h
  · rw [hlow]
    rfl

/-! ## Reports under two floors -/

/-- **What raising the floor does to a report**: the files of a run that
were adequate may have become inadequate, and nothing else has changed. -/
structure OnlyDemotes (run : List (CodeFile × Outcome)) (before after : Report) : Prop where
  total : after.total = before.total
  documented : after.documented = before.documented
  quality : after.quality = before.quality
  missing : (after.gaps.filter fun gap => gap.kind == .missing) =
    before.gaps.filter fun gap => gap.kind == .missing
  /-- What was inadequate still is, with the same record. -/
  kept : ∀ gap ∈ before.gaps, gap.kind = .inadequate → gap ∈ after.gaps
  /-- What is new was adequate. -/
  demoted : ∀ gap ∈ after.gaps, gap ∉ before.gaps → gap.kind = .inadequate ∧
    ∃ file score, (file, Outcome.adequate score) ∈ run ∧ gap.codeFile = file.path
  adequate : after.adequate ≤ before.adequate
  /-- A count is a machine word. -/
  coverage : before.total < 2 ^ 64 → after.coverage ≤ before.coverage

/-- The check under a floor, with the files that are discovered under any
floor. -/
theorem check_eq_tallyOf (floor : Float) : (project.withFloor floor).check =
    ((project.withFloor floor).tallyOf project.discover).report := by
  rw [check, checkFiles_of_increasing increasing_discover, discover_withFloor]

theorem gaps_withFloor (floor : Float) :
    (project.withFloor floor).check.gaps = (project.withFloor floor).gapsOf project.discover := by
  rw [check, gaps_of_increasing increasing_discover, discover_withFloor]

theorem total_withFloor (floor : Float) :
    ((project.withFloor floor).tallyOf project.discover).total = project.discover.length :=
  total_tallyOf

theorem adequate_withFloor_le (hle : low ≤ high) :
    ((project.withFloor high).tallyOf project.discover).adequate ≤
      ((project.withFloor low).tallyOf project.discover).adequate := by
  rw [tallyOf_eq, tallyOf_eq]
  exact List.countP_mono_left fun file _ => isAdequate_of_withFloor hle

theorem documented_withFloor (hle : low ≤ high) :
    ((project.withFloor high).tallyOf project.discover).documented =
      ((project.withFloor low).tallyOf project.discover).documented := by
  rw [tallyOf_eq, tallyOf_eq]
  refine List.countP_congr fun file _ => ?_
  rw [(verdict_withFloor_same hle file).1]

theorem scores_withFloor (hle : low ≤ high) :
    ((project.withFloor high).tallyOf project.discover).scores =
      ((project.withFloor low).tallyOf project.discover).scores := by
  rw [tallyOf_eq, tallyOf_eq]
  refine congrArg (List.foldl (· + ·) 0.0) (List.filterMap_congr fun file _ => ?_)
  exact (verdict_withFloor_same hle file).2.1

theorem missing_withFloor (hle : low ≤ high) :
    (((project.withFloor high).gapsOf project.discover).filter fun gap => gap.kind == .missing) =
      ((project.withFloor low).gapsOf project.discover).filter fun gap => gap.kind == .missing := by
  rw [gapsOf, gapsOf, List.filter_filterMap, List.filter_filterMap]
  exact List.filterMap_congr fun file _ => (verdict_withFloor_same hle file).2.2

theorem kept_withFloor (hle : low ≤ high) {gap : Gap}
    (hgap : gap ∈ (project.withFloor low).gapsOf project.discover) :
    gap ∈ (project.withFloor high).gapsOf project.discover := by
  obtain ⟨file, hfile, hv⟩ := List.mem_filterMap.mp hgap
  refine List.mem_filterMap.mpr ⟨file, hfile, ?_⟩
  rcases verdict_withFloor hle file with heq | ⟨score, _, -, hlow, -⟩
  · rw [heq, hv]
  · rw [hlow] at hv
    contradiction

theorem demoted_withFloor (hle : low ≤ high) {gap : Gap}
    (hgap : gap ∈ (project.withFloor high).gapsOf project.discover)
    (hnew : gap ∉ (project.withFloor low).gapsOf project.discover) :
    gap.kind = .inadequate ∧ ∃ file score,
      (file, Outcome.adequate score) ∈ (project.withFloor low).fullRun ∧
        gap.codeFile = file.path := by
  obtain ⟨file, hfile, hv⟩ := List.mem_filterMap.mp hgap
  rcases verdict_withFloor hle file with heq | ⟨score, found, hkind, hlow, hhigh⟩
  · rw [heq] at hv
    exact absurd (List.mem_filterMap.mpr ⟨file, hfile, hv⟩) hnew
  · have hpath := codeFile_of_verdict hv
    rw [hhigh] at hv
    obtain rfl := Option.some_inj.mp hv
    refine ⟨hkind, file, score, ?_, hpath⟩
    rw [fullRun_eq, discover_withFloor, ← hlow]
    exact List.mem_map_of_mem hfile

/-- A file whose score lies between the floors is demoted. -/
theorem exists_demoted {document : Path} (hfile : file ∈ project.discover)
    (hdocument : project.findDocument? file.path = some document)
    (hreach : low ≤ project.scoreFor file document)
    (hbelow : ¬ high ≤ project.scoreFor file document) :
    ∃ gap ∈ (project.withFloor high).check.gaps, gap.codeFile = file.path ∧
      gap ∉ (project.withFloor low).check.gaps := by
  have hlow := verdict_withFloor_eq hdocument low
  have hhigh := verdict_withFloor_eq hdocument high
  rw [if_pos hreach] at hlow
  rw [if_neg hbelow] at hhigh
  rw [gaps_withFloor, gaps_withFloor]
  refine ⟨_, List.mem_filterMap.mpr ⟨file, hfile, by rw [hhigh]; rfl⟩, rfl, fun hmem => ?_⟩
  obtain ⟨other, hother, hgap⟩ := List.mem_filterMap.mp hmem
  -- the gap would be that of the file, and under the lower floor there is none
  have hsame : other.path.same file.path = true := by
    rw [← codeFile_of_verdict hgap]
    exact Path.same_refl _
  rw [increasing_discover.eq_of_same hother hfile hsame, hlow] at hgap
  cases hgap

/-- **Raising the quality floor only demotes adequate files.** -/
theorem check_withFloor_demotes (project : Project) (hle : low ≤ high) :
    OnlyDemotes (project.withFloor low).fullRun (project.withFloor low).check
      (project.withFloor high).check where
  total := by
    rw [check_eq_tallyOf, check_eq_tallyOf]
    exact (total_withFloor high).trans (total_withFloor low).symm
  documented := by
    rw [check_eq_tallyOf, check_eq_tallyOf]
    exact documented_withFloor hle
  quality := by
    rw [check_eq_tallyOf, check_eq_tallyOf]
    exact congrArg₂ Report.mean (scores_withFloor hle) (documented_withFloor hle)
  missing := by
    rw [gaps_withFloor, gaps_withFloor]
    exact missing_withFloor hle
  kept gap hgap _ := by
    rw [gaps_withFloor] at hgap ⊢
    exact kept_withFloor hle hgap
  demoted gap hgap hnew := by
    rw [gaps_withFloor] at hgap hnew
    exact demoted_withFloor hle hgap hnew
  adequate := by
    rw [check_eq_tallyOf, check_eq_tallyOf]
    exact adequate_withFloor_le hle
  coverage hword := by
    rw [check_eq_tallyOf] at hword ⊢
    rw [check_eq_tallyOf]
    exact Tally.coverage_le_of_adequate_le ((total_withFloor high).trans (total_withFloor low).symm)
      balanced_tallyOf (adequate_withFloor_le hle) hword

/-- A brief document. -/
def sketch : String := "# Run\n\nRuns every job in the queue of the shop and then says so."

/-- Two services, of which one has a brief document and one has none. -/
def sketched : Project where
  files := (["brief", "none"].foldl (fun files name => (files.put ["services", name]
      .directory).put ["services", name, "run.ts"] (.file (.text "")))
    (FileSystem.empty.put ["services"] .directory)).put ["services", "brief", "index.md"]
      (.file (.text sketch))
  root := ⟨"/"⟩
  settings :=
    { standards := ⟨0.7, 85.0, [], []⟩
      sources := ⟨[("services", "services/*/*.ts")], [], Thresholds.builtIn⟩
      documents := ⟨["index.md"], []⟩ }

/-- Fifteen of fifty words are enough for a quarter, but not for the floor
that is built in. -/
theorem check_withFloor_demotes_sketched :
    (0.25 : Float) ≤ 0.7 ∧
      OnlyDemotes (sketched.withFloor 0.25).fullRun (sketched.withFloor 0.25).check
        (sketched.withFloor 0.7).check ∧
      ∃ gap ∈ (sketched.withFloor 0.7).check.gaps, gap.codeFile = ⟨"services/brief/run.ts"⟩ ∧
        gap.kind = .inadequate ∧ gap ∉ (sketched.withFloor 0.25).check.gaps := by
  have hle : (0.25 : Float) ≤ 0.7 := by decide
  have hdemotes := check_withFloor_demotes sketched hle
  have hfile : sketched.describe ⟨"services/brief/run.ts"⟩ ∈ sketched.discover :=
    mem_discover.mpr ⟨_, mem_candidates.mpr (by decide +kernel), by decide +kernel, rfl⟩
  have hdocument : sketched.findDocument? (sketched.describe ⟨"services/brief/run.ts"⟩).path =
      some ⟨"services/brief/index.md"⟩ := by
    rw [describe_path]
    decide +kernel
  have hscore : sketched.scoreFor (sketched.describe ⟨"services/brief/run.ts"⟩)
      ⟨"services/brief/index.md"⟩ = Features.score
        ⟨false, false, false, false, false, false, false, true, 15, 3⟩ [] 50 := by
    have hread : sketched.files.readText? (sketched.full ⟨"services/brief/index.md"⟩) =
        some sketch := by decide +kernel
    have hfeatures : Features.ofText sketch.toList =
        ⟨false, false, false, false, false, false, false, true, 15, 3⟩ := by decide +kernel
    rw [scoreFor_of_readText hread, hfeatures]
    rfl
  obtain ⟨gap, hgap, hpath, hnew⟩ := @exists_demoted sketched _ 0.25 0.7 _ hfile hdocument
    (by rw [hscore]; decide +kernel) (by rw [hscore]; decide +kernel)
  rw [describe_path] at hpath
  exact ⟨hle, hdemotes, gap, hgap, hpath, (hdemotes.demoted gap hgap hnew).1, hnew⟩

end Project

end DocCoverage
