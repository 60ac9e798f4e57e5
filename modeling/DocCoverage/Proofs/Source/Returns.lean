import DocCoverage.Project.CodeFile
import DocCoverage.Proofs.Pattern.Breaks
/-!
# Sources — signals of a text with returns

Every form that is looked for in a source file begins with something that is
no blank, and what is asked for behind the name of a constant or of an arrow
function, the blanks around its equals sign included, is met by a line break
whether it has a return or not. So a source file tells the same whichever way
its lines end (`extract_addReturns`).
-/

namespace DocCoverage

open Text (addReturns)

namespace Signals

variable {forms : List Declaration} {text : List Char}

/-- Whether a declaration names the same whichever way lines end: its lead
stays blocked in front of a name, and what follows the name goes past line
breaks as a whole. -/
def SkipsReturns (d : Declaration) : Prop :=
  d.lead.stance .blocked = some .blocked ∧ d.tail.stance .passing = some .passing

instance (d : Declaration) : Decidable (SkipsReturns d) := inferInstanceAs (Decidable (_ ∧ _))

theorem stance_of_mem_branchForms {p : Pattern} (h : p ∈ branchForms) :
    p.takes = true ∧ p.stance .passing = some .blocked := by
  have hforms : ∀ p ∈ branchForms, p.takes = true ∧ p.stance .passing = some .blocked := by decide
  exact hforms p h

theorem declared_addReturns (h : ∀ d ∈ forms, SkipsReturns d) (text : List Char) :
    declared forms (addReturns text) = declared forms text := by
  have hnames : ∀ d ∈ forms, (d.names (addReturns text)).map String.ofList =
      (d.names text).map String.ofList := by
    intro d hd
    obtain ⟨hlead, htail⟩ := h d hd
    rw [Declaration.names_addReturns hlead htail nofun]
  rw [declared, declared, List.flatMap_congr hnames]

theorem branches_addReturns (text : List Char) : branches (addReturns text) = branches text := by
  have hcounts : branchForms.map (fun form => form.count (addReturns text)) =
      branchForms.map fun form => form.count text := by
    refine List.map_congr_left fun form hform => ?_
    obtain ⟨htakes, hstance⟩ := stance_of_mem_branchForms hform
    exact Pattern.count_addReturns htakes hstance text
  rw [branches, branches, hcounts]

/-- **A text tells the same with returns.** -/
theorem extract_addReturns (text : List Char) : extract (addReturns text) = extract text := by
  have hskips : ∀ forms ∈ [functionForms, classForms, typeForms, constantForms],
      ∀ d ∈ forms, SkipsReturns d := by decide
  have hforms (forms : List Declaration)
      (hmem : forms ∈ [functionForms, classForms, typeForms, constantForms]) :
      declared forms (addReturns text) = declared forms text :=
    declared_addReturns (hskips forms hmem) text
  have hcomplexity : complexityOf (addReturns text) = complexityOf text := by
    rw [complexityOf, complexityOf, branches_addReturns]
  rw [extract, extract, hforms functionForms (by simp), hforms classForms (by simp),
    hforms typeForms (by simp), hforms constantForms (by simp), hcomplexity]

end Signals

/-- A file is as public as it was. -/
theorem Source.isPublic_addReturns (path text : List Char) :
    isPublic path (addReturns text) = isPublic path text := by
  have hexport : Text.occursIn "export".toList (addReturns text) =
      Text.occursIn "export".toList text :=
    Text.occursIn_addReturns (by decide) (by decide) (by decide) text
  rw [isPublic, isPublic, publicMarks, publicMarks, hexport]

namespace CodeFile

variable (thresholds : Thresholds) (hasTests : Bool) (path : Path) (text : List Char)

theorem factsOf_addReturns (signals : Signals) :
    factsOf path (addReturns text) signals = factsOf path text signals := by
  rw [factsOf, factsOf, Source.isPublic_addReturns, Text.lineCount_addReturns]

/-- **A source file is described alike whichever way its lines end.** -/
theorem describe_addReturns :
    describe thresholds Signals.extract hasTests path (addReturns text) =
      describe thresholds Signals.extract hasTests path text := by
  simp only [describe, Signals.extract_addReturns, factsOf_addReturns]

end CodeFile

end DocCoverage
