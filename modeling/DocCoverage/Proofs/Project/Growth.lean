import DocCoverage.Project.CodeFile
import DocCoverage.Proofs.Project.Candidates
import DocCoverage.Proofs.Source.Growth
import DocCoverage.Proofs.Source.Rules
import DocCoverage.Proofs.Text.Growth
/-!
# Projects — growing source files

All that the rules look at can only grow when a semicolon and more text are
added to a source file (`factsOf_atMost`). Since the rules are monotone, the
file goes on to need documentation if it did, at least as urgently
(`describe_grown`).
-/

namespace DocCoverage

/-- A public file stays public in a longer text. -/
theorem Source.isPublic_mono {path text more : List Char} (hinside : text <:+: more)
    (h : isPublic path text = true) : isPublic path more = true := by
  have hmarks (text : List Char) : publicMarks path text =
      Text.occursIn "export".toList text :: (publicMarks path []).tail := rfl
  have hexport : Text.occursIn "export".toList text = true →
      Text.occursIn "export".toList more = true := fun h => Text.occursIn_of_infix h hinside
  rw [isPublic, hmarks, List.countP_cons, decide_eq_true_eq] at h ⊢
  refine le_trans h (Nat.add_le_add_left ?_ _)
  split_ifs with hbefore hafter
  · exact le_rfl
  · exact absurd (hexport hbefore) hafter
  · exact Nat.zero_le _
  · exact le_rfl

namespace CodeFile

variable {thresholds : Thresholds} {hasTests hasTests' : Bool} {path : Path}

/-- Whether all of a file that asks for documentation is in another one too. -/
structure AtMost (a b : CodeFile) : Prop where
  functions : a.signals.functions ⊆ b.signals.functions
  classes : a.signals.classes ⊆ b.signals.classes
  complexity : a.signals.complexity ≤ b.signals.complexity
  lines : a.lines ≤ b.lines
  isPublic : a.isPublic = true → b.isPublic = true
  needsDocumentation : a.needsDocumentation = true → b.needsDocumentation = true
  priority : b.priority.rank ≤ a.priority.rank

section Describe

variable (thresholds : Thresholds) (extract : Extractor) (hasTests : Bool) (path : Path)
  (text : List Char)

theorem describe_signals :
    (describe thresholds extract hasTests path text).signals = extract text := by rw [describe]

theorem describe_lines : (describe thresholds extract hasTests path text).lines =
    (factsOf path text (extract text)).lines := by rw [describe]

theorem describe_isPublic : (describe thresholds extract hasTests path text).isPublic =
    (factsOf path text (extract text)).isPublic := by rw [describe]

theorem describe_needsDocumentation :
    (describe thresholds extract hasTests path text).needsDocumentation =
      (factsOf path text (extract text)).needsDocumentation thresholds := by rw [describe]

theorem describe_priority : (describe thresholds extract hasTests path text).priority =
    (factsOf path text (extract text)).priority thresholds := by rw [describe]

end Describe

/-- **The facts grow** with the text. -/
theorem factsOf_atMost (path : Path) (text more : List Char)
    (hfits : (Signals.extract (text ++ ';' :: more)).functions.length +
      (Signals.extract (text ++ ';' :: more)).classes.length < 2 ^ 64) :
    (factsOf path text (Signals.extract text)).AtMost
      (factsOf path (text ++ ';' :: more) (Signals.extract (text ++ ';' :: more))) where
  fileType := rfl
  complexity := Signals.complexity_le text more
  functions := Signals.length_nameSet_le (Signals.functions_subset text more)
  classes := Signals.length_nameSet_le (Signals.classes_subset text more)
  isPublic := Source.isPublic_mono (List.prefix_append text _).isInfix
  lines := Text.lineCount_le_of_infix (List.prefix_append text _).isInfix
  fits := hfits

/-- A grown text describes a file that asks for no less. -/
theorem describe_atMost (text more : List Char)
    (hfits : (Signals.extract (text ++ ';' :: more)).functions.length +
      (Signals.extract (text ++ ';' :: more)).classes.length < 2 ^ 64) :
    (describe thresholds Signals.extract hasTests path text).AtMost
      (describe thresholds Signals.extract hasTests' path (text ++ ';' :: more)) := by
  have hfacts := factsOf_atMost path text more hfits
  have hcuts := Thresholds.atMost_refl thresholds
  constructor
  · rw [describe_signals, describe_signals]
    exact Signals.functions_subset text more
  · rw [describe_signals, describe_signals]
    exact Signals.classes_subset text more
  · rw [describe_signals, describe_signals]
    exact Signals.complexity_le text more
  · rw [describe_lines, describe_lines]
    exact hfacts.lines
  · rw [describe_isPublic, describe_isPublic]
    exact hfacts.isPublic
  · rw [describe_needsDocumentation, describe_needsDocumentation]
    exact Facts.needsDocumentation_mono hfacts hcuts
  · rw [describe_priority, describe_priority]
    exact Facts.priority_mono hfacts hcuts

end CodeFile

namespace Project

theorem describe_of_readText? {project : Project} {path : Path} {text : String}
    (h : project.files.readText? (project.full path) = some text) :
    project.describe path = CodeFile.describe project.settings.thresholds Signals.extract
      (project.hasTests path) path text.toList := by
  unfold describe describeWith
  rw [h]

/-- **Growing a source file never exempts it.** Let a path lead to a text in
one tree, and in another one to this text with a semicolon and more text added.
Then the file exports what it exported, none of its counts is smaller, it is
public if it was, and it needs documentation if it did, at least as urgently.
The exports are counted with 64 bits, which they have to fit into. -/
theorem describe_grown (project : Project) (files : FileSystem) (path : Path)
    (text more : String) (hbefore : project.files.readText? (project.full path) = some text)
    (hafter : files.readText? (project.full path) = some (text ++ ";" ++ more))
    (hfits : ((project.withFiles files).describe path).signals.functions.length +
      ((project.withFiles files).describe path).signals.classes.length < 2 ^ 64) :
    (project.describe path).AtMost ((project.withFiles files).describe path) := by
  have htext : (text ++ ";" ++ more).toList = text.toList ++ ';' :: more.toList := by
    rw [String.toList_append, String.toList_append, List.append_assoc]
    rfl
  have hnow : (project.withFiles files).describe path =
      CodeFile.describe project.settings.thresholds Signals.extract
        ((project.withFiles files).hasTests path) path (text.toList ++ ';' :: more.toList) := by
    rw [← htext]
    exact describe_of_readText? hafter
  rw [hnow] at hfits ⊢
  rw [describe_of_readText? hbefore]
  rw [CodeFile.describe_signals] at hfits
  exact CodeFile.describe_atMost text.toList more.toList hfits

/-- A project of one helper. -/
def helper : Project where
  files := (FileSystem.empty.put ["utils"] .directory).put ["utils", "sum.ts"]
    (.file (.text "export const sum: Sum = ("))
  root := ⟨"/"⟩
  settings := .builtIn

/-- The same helper, which has gone on. -/
def longerHelper : FileSystem :=
  helper.files.put ["utils", "sum.ts"] (.file (.text ("export const sum: Sum = (" ++ ";" ++ " if")))

/-- The helper still exports its function, of a stated type, and becomes no
less urgent. -/
theorem describe_grown_helper :
    "sum" ∈ ((helper.withFiles longerHelper).describe ⟨"utils/sum.ts"⟩).signals.functions ∧
      ((helper.withFiles longerHelper).describe ⟨"utils/sum.ts"⟩).priority.rank ≤
        (helper.describe ⟨"utils/sum.ts"⟩).priority.rank := by
  have hbefore : helper.files.readText? (helper.full ⟨"utils/sum.ts"⟩) =
      some "export const sum: Sum = (" := by decide +kernel
  have hafter : longerHelper.readText? (helper.full ⟨"utils/sum.ts"⟩) =
      some ("export const sum: Sum = (" ++ ";" ++ " if") := by decide +kernel
  have hfits : ((helper.withFiles longerHelper).describe
        ⟨"utils/sum.ts"⟩).signals.functions.length +
      ((helper.withFiles longerHelper).describe
        ⟨"utils/sum.ts"⟩).signals.classes.length < 2 ^ 64 := by decide +kernel
  have hexported : "sum" ∈ (helper.describe ⟨"utils/sum.ts"⟩).signals.functions := by
    decide +kernel
  have hgrown := describe_grown helper longerHelper ⟨"utils/sum.ts"⟩
    "export const sum: Sum = (" " if" hbefore hafter hfits
  exact ⟨hgrown.functions hexported, hgrown.priority⟩

end Project

end DocCoverage
