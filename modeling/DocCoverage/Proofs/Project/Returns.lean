import DocCoverage.Proofs.Document.Returns
import DocCoverage.Proofs.FileSystem.Writing
import DocCoverage.Proofs.Project.Growth
import DocCoverage.Proofs.Source.Returns
/-!
# Projects — line endings

Two checkouts of a project can differ in how the lines of their files end. What
a source file is described as, and what a document is worth, is the same in
both (`describe_withReturns`).
-/

namespace DocCoverage

namespace FileSystem

variable {keep : Location → Bool} {fs fs' : FileSystem} {path : Path}

theorem isFile_of_alike (h : Alike keep fs fs') (hkeep : ∀ location, keep location = true)
    (hfile : fs.isFile path = true) : fs'.isFile path = true := by
  rw [isFile] at hfile
  split at hfile
  next content hlook =>
    cases hres : fs.resolve path with
    | error fault =>
      rw [lookUp?, hres] at hlook
      cases hlook
    | ok place =>
      rw [lookUp?_of_resolve hres] at hlook
      have hkind := h.kind place (hkeep place)
      rw [isFile, lookUp?_of_resolve (resolve_of_alike h (hkeep place) hres)]
      rw [hlook] at hkind
      cases hentry : fs'.entry? place with
      | none =>
        rw [hentry] at hkind
        cases hkind
      | some entry =>
        rw [hentry] at hkind
        cases entry with
        | directory => cases hkind
        | file other => rfl
  next => cases hfile

/-- In trees that are alike everywhere the same paths lead to files. -/
theorem isFile_eq_of_alike (h : Alike keep fs fs') (hkeep : ∀ location, keep location = true)
    (path : Path) : fs'.isFile path = fs.isFile path :=
  Bool.eq_iff_iff.mpr ⟨isFile_of_alike h.symm hkeep, isFile_of_alike h hkeep⟩

end FileSystem

namespace Project

/-- Two trees in which the same places are files give a source file the same
tests. -/
theorem hasTests_withFiles (project : Project) {files : FileSystem}
    (hsame : ∀ place, files.isFile place = project.files.isFile place) (path : Path) :
    (project.withFiles files).hasTests path = project.hasTests path := by
  have hfiles : files.isFile = project.files.isFile := funext hsame
  unfold hasTests
  rw [withFiles]
  simp only [hfiles]
  rfl

/-- **Neither the description of a source file nor the quality of a document
depends on how lines end.** Let a path lead to a text in one tree, and in
another one to this text with a carriage return in front of every line feed,
and let both have the same files. Then the file is described alike, and so is
every document assessed, for whatever source file. -/
theorem describe_withReturns (project : Project) (files : FileSystem) (path : Path)
    (text : String) (hbefore : project.files.readText? (project.full path) = some text)
    (hafter : files.readText? (project.full path) = some (Text.withReturns text))
    (hsame : ∀ place, files.isFile place = project.files.isFile place) :
    (project.withFiles files).describe path = project.describe path ∧
      ∀ settings fileType priority document,
        Quality.assess settings fileType priority (Text.withReturns document) =
          Quality.assess settings fileType priority document := by
  have hnow : (project.withFiles files).describe path =
      CodeFile.describe project.settings.thresholds Signals.extract
        ((project.withFiles files).hasTests path) path (Text.withReturns text).toList :=
    describe_of_readText? hafter
  constructor
  · rw [hnow, describe_of_readText? hbefore, Text.toList_withReturns,
      CodeFile.describe_addReturns, hasTests_withFiles project hsame]
  · exact fun settings fileType priority document =>
      Quality.assess_withReturns settings fileType priority document

/-- The text of a source file of several lines. -/
def tillText : String :=
  "export const total =\n  (prices) => prices.length\n    ? prices : [0]\nif (total) { }\n"

/-- A project of one source file. -/
def till : Project where
  files := (FileSystem.empty.put ["src"] .directory).put ["src", "till.ts"] (.file (.text tillText))
  root := ⟨"/"⟩
  settings := .builtIn

/-- The same source file, checked out with returns. -/
def tillWithReturns : FileSystem :=
  till.files.put ["src", "till.ts"] (.file (.text (Text.withReturns tillText)))

/-- The arrow function that is declared over a line break is still exported. -/
theorem describe_withReturns_till :
    (till.describe ⟨"src/till.ts"⟩).signals.functions = ["total"] ∧
      (till.withFiles tillWithReturns).describe ⟨"src/till.ts"⟩ =
        till.describe ⟨"src/till.ts"⟩ := by
  have hbefore : till.files.readText? (till.full ⟨"src/till.ts"⟩) = some tillText := by
    decide +kernel
  have hafter : tillWithReturns.readText? (till.full ⟨"src/till.ts"⟩) =
      some (Text.withReturns tillText) := by decide +kernel
  have hplace : till.files.entry? ["src", "till.ts"] = some (.file (.text tillText)) := by
    decide +kernel
  have halike : FileSystem.Alike
      (fun location => location != ["src", "till.ts"] || (till.files.entry? location).isSome)
      till.files tillWithReturns :=
    @FileSystem.alike_put till.files ["src"] "till.ts" (.text (Text.withReturns tillText))
      (by decide +kernel) (by decide +kernel) (by decide +kernel)
  have hkeep (location : Location) :
      (location != ["src", "till.ts"] || (till.files.entry? location).isSome) = true := by
    rcases eq_or_ne location ["src", "till.ts"] with rfl | hne
    · rw [hplace, Option.isSome_some, Bool.or_true]
    · exact (Bool.or_eq_true _ _).mpr (.inl (bne_iff_ne.mpr hne))
  have hsame (place : Path) : tillWithReturns.isFile place = till.files.isFile place :=
    FileSystem.isFile_eq_of_alike halike hkeep place
  exact ⟨by decide +kernel,
    (describe_withReturns till tillWithReturns ⟨"src/till.ts"⟩ tillText hbefore hafter hsame).1⟩

end Project

end DocCoverage
