import DocCoverage.Proofs.Report.Tally
/-!
# Reports — how outcomes are gathered

Outcomes are recorded one after the other, or in parts of which the tallies
are merged. A gathering is one such way. All that it has besides the sum of
the scores is what the outcomes have that came in (`tally_eq`), at every stage
each outcome is counted as adequate or as a gap (`counted_tally`), and its
report hangs neither on the order nor on the parts (`gathered_report`).
-/

namespace DocCoverage

namespace Tally

variable {t u : Tally}

/-- **Every outcome is adequate or a gap**, and a document is found for the
adequate ones at least. -/
structure Counted (t : Tally) : Prop where
  total : t.total = t.adequate + t.gaps.length
  adequate_le : t.adequate ≤ t.documented
  documented_le : t.documented ≤ t.total

theorem counted_empty : empty.Counted := ⟨rfl, Nat.le_refl _, Nat.le_refl _⟩

theorem Counted.record (ht : t.Counted) (outcome : Outcome) : (t.record outcome).Counted := by
  obtain ⟨htotal, hadequate, hdocumented⟩ := ht
  cases outcome with
  | adequate score => refine ⟨?_, ?_, ?_⟩ <;> simp only [Tally.record] <;> omega
  | inadequate score gap =>
    have hgaps : (t.gaps ++ [gap]).length = t.gaps.length + 1 := List.length_append
    refine ⟨?_, ?_, ?_⟩ <;> simp only [Tally.record] <;> omega
  | missing gap =>
    have hgaps : (t.gaps ++ [gap]).length = t.gaps.length + 1 := List.length_append
    refine ⟨?_, ?_, ?_⟩ <;> simp only [Tally.record] <;> omega

theorem Counted.merge (ht : t.Counted) (hu : u.Counted) : (t.merge u).Counted := by
  obtain ⟨htotal, hadequate, hdocumented⟩ := ht
  obtain ⟨hutotal, huadequate, hudocumented⟩ := hu
  have hgaps : (t.gaps ++ u.gaps).length = t.gaps.length + u.gaps.length := List.length_append
  refine ⟨?_, ?_, ?_⟩ <;> simp only [Tally.merge] <;> omega

/-! ## The order of the gaps -/

theorem counts_of_perm {gaps gaps' : List Gap} (h : gaps.Perm gaps') :
    GapCounts.ofGaps gaps = GapCounts.ofGaps gaps' := by
  rw [GapCounts.ofGaps, GapCounts.ofGaps, h.countP_eq, h.countP_eq]

/-- **A report does not hang on the order of the gaps**, as long as no two of
them are of one path. Only its mean score hangs on the sum of the scores. -/
theorem report_of_perm (htotal : t.total = u.total) (hdocumented : t.documented = u.documented)
    (hadequate : t.adequate = u.adequate) (hgaps : t.gaps.Perm u.gaps)
    (hdistinct : Path.Distinct (t.gaps.map Gap.codeFile)) :
    t.report = { u.report with quality := t.report.quality } := by
  have hsorted : sorted t.gaps = sorted u.gaps := hdistinct.mergeSort_eq_of_perm hgaps
  have hpriority : t.report.byPriority = u.report.byPriority := by
    funext priority
    exact congrArg some (hgaps.countP_eq _)
  have htype : t.report.byFileType = u.report.byFileType := by
    funext fileType
    have hofType := hgaps.filter fun gap => gap.fileType == fileType
    simp only [report, hofType.isEmpty_eq, counts_of_perm hofType]
  rw [report, report, Report.mk.injEq]
  exact ⟨htotal, hdocumented, hadequate, by rw [counts_of_perm hgaps], by rw [counts_of_perm hgaps],
    by rw [htotal, hadequate], rfl, hsorted, hpriority, htype⟩

end Tally

/-- A way for outcomes to come together in one tally. -/
inductive Gathering where
  /-- Nothing has come in. -/
  | nothing
  /-- One more outcome is recorded. -/
  | recorded (before : Gathering) (outcome : Outcome)
  /-- What came in for one tally is merged with what came in for another. -/
  | merged (left right : Gathering)

namespace Gathering

variable {gathering stage : Gathering}

/-- The outcomes, in the order in which they stand in the tally. -/
def outcomes : Gathering → List Outcome
  | nothing => []
  | recorded before outcome => before.outcomes ++ [outcome]
  | merged left right => left.outcomes ++ right.outcomes

/-- The tally that comes of it. -/
def tally : Gathering → Tally
  | nothing => Tally.empty
  | recorded before outcome => before.tally.record outcome
  | merged left right => left.tally.merge right.tally

/-- The gatherings on the way to this one, and this one itself. -/
def stages : Gathering → List Gathering
  | nothing => [nothing]
  | recorded before outcome => recorded before outcome :: before.stages
  | merged left right => merged left right :: (left.stages ++ right.stages)

/-- **What a gathering has**, the sum of the scores aside. -/
theorem tally_eq (gathering : Gathering) :
    gathering.tally = { Tally.ofOutcomes gathering.outcomes with scores := gathering.tally.scores } := by
  induction gathering with
  | nothing => rfl
  | recorded before outcome ih =>
    rw [Tally.ofOutcomes_eq] at ih ⊢
    rw [outcomes, tally, ih]
    cases outcome <;>
      simp [Tally.record, Outcome.isDocumented, Outcome.isAdequate, Outcome.score?, Outcome.gap?]
  | merged left right ihleft ihright =>
    rw [Tally.ofOutcomes_eq] at ihleft ihright ⊢
    rw [outcomes, tally, ihleft, ihright]
    simp [Tally.merge]

/-- **Nothing is lost on the way.** -/
theorem counted_tally (gathering : Gathering) : gathering.tally.Counted := by
  induction gathering with
  | nothing => exact Tally.counted_empty
  | recorded before outcome ih => exact ih.record outcome
  | merged left right ihleft ihright => exact ihleft.merge ihright

/-- **A report hangs neither on the order nor on the grouping** of the
outcomes. Whatever way they come in, in whatever order, the report is that of
recording them in sequence, except for its mean score; and at every stage each
outcome is accounted for. -/
theorem gathered_report {outcomes : List Outcome} {gathering : Gathering}
    (hperm : gathering.outcomes.Perm outcomes)
    (hdistinct : Path.Distinct ((outcomes.filterMap Outcome.gap?).map Gap.codeFile)) :
    gathering.tally.report =
        { (Tally.ofOutcomes outcomes).report with quality := gathering.tally.report.quality } ∧
      ∀ stage ∈ gathering.stages, stage.tally.Counted := by
  refine ⟨?_, fun stage _ => counted_tally stage⟩
  have htally := gathering.tally_eq
  rw [Tally.ofOutcomes_eq] at htally
  have hgaps : gathering.tally.gaps = gathering.outcomes.filterMap Outcome.gap? := by rw [htally]
  have hsequence := Tally.ofOutcomes_eq outcomes
  refine Tally.report_of_perm ?_ ?_ ?_ ?_ ?_
  · rw [htally, hsequence]
    exact hperm.length_eq
  · rw [htally, hsequence]
    exact hperm.countP_eq _
  · rw [htally, hsequence]
    exact hperm.countP_eq _
  · rw [hgaps, hsequence]
    exact hperm.filterMap _
  · rw [hgaps]
    exact hdistinct.perm ((hperm.filterMap _).symm.map _)

/-- A weak service, with a document beside it. -/
def weakService : Gap :=
  ⟨⟨"services/run.ts"⟩, ⟨"services/index.md"⟩, .inadequate, .service, .high, [], ["usage"], .medium⟩

/-- A hook without a document. -/
def bareHook : Gap :=
  ⟨⟨"hooks/use.ts"⟩, ⟨"hooks/index.md"⟩, .missing, .hook, .low, [], [], .low⟩

/-- An adequate file, a weak one and one without a document. -/
def threeOutcomes : List Outcome :=
  [.adequate 0.9, .inadequate 0.3 weakService, .missing bareHook]

/-- The last one comes in first, and by itself. -/
def backwards : Gathering :=
  merged (recorded nothing (.missing bareHook))
    (recorded (recorded nothing (.inadequate 0.3 weakService)) (.adequate 0.9))

theorem gathered_report_backwards :
    backwards.outcomes.Perm threeOutcomes ∧
      Path.Distinct ((threeOutcomes.filterMap Outcome.gap?).map Gap.codeFile) ∧
      backwards.tally.report = { (Tally.ofOutcomes threeOutcomes).report with
        quality := backwards.tally.report.quality } := by
  have hperm : backwards.outcomes.Perm threeOutcomes := List.reverse_perm threeOutcomes
  have hdistinct : Path.Distinct ((threeOutcomes.filterMap Outcome.gap?).map Gap.codeFile) := by
    unfold Path.Distinct
    decide +kernel
  exact ⟨hperm, hdistinct, (gathered_report hperm hdistinct).1⟩

end Gathering

end DocCoverage
