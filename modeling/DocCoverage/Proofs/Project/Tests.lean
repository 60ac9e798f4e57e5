import DocCoverage.Project.CodeFile
import DocCoverage.Proofs.FileSystem.Below
import DocCoverage.Proofs.FileSystem.Directory
import DocCoverage.Proofs.Path.Name
/-!
# Projects — tests beside a file

The tests of a file are looked for in its directory and in a directory below
it, at paths that are joined to that of the directory (`testPlaces_eq`). None
of them leads out of the directory, whatever the file is called
(`inside_of_mem_testPaths`).
-/

namespace DocCoverage

namespace Project

open DocCoverage.Path (Component within)

variable {project project' : Project} {path directory next : Path} {stem extension : String}
  {way : Location}

/-! ## Where tests are looked for -/

/-- The tests of a file of this stem, as seen from its directory. -/
def testPaths (stem extension : String) : List Path :=
  [ ⟨stem ++ ".test." ++ extension⟩, ⟨stem ++ ".spec." ++ extension⟩,
    Path.child ⟨"__tests__"⟩ (stem ++ "." ++ extension),
    Path.child ⟨"__tests__"⟩ (stem ++ ".test." ++ extension) ]

theorem slash_not_mem_of_mem_testExtensions (h : extension ∈ testExtensions path) :
    '/' ∉ extension.toList := by
  have hsources : ∀ source ∈ sourceExtensions, '/' ∉ source.toList := by decide
  unfold testExtensions at h
  split at h
  next own hown =>
    rcases List.mem_cons.mp h with rfl | h
    · exact Path.slash_not_mem_extension hown
    · exact hsources extension (List.mem_filter.mp h).1
  · exact hsources extension h

section Slashless

variable (hstem : '/' ∉ stem.toList) (hextension : '/' ∉ extension.toList)
include hstem hextension

theorem slash_not_mem_testName {middle : String} (h : '/' ∉ middle.toList) :
    '/' ∉ (stem ++ middle ++ extension).toList := by
  rw [String.toList_append, String.toList_append, List.mem_append, List.mem_append]
  rintro ((hslash | hslash) | hslash)
  · exact hstem hslash
  · exact h hslash
  · exact hextension hslash

theorem testPlaces_eq (directory : Path) :
    testPlaces directory stem extension = (testPaths stem extension).map directory.join := by
  have hbelow {name : String} (h : '/' ∉ name.toList) :
      (directory.child "__tests__").child name =
        directory.join (Path.child ⟨"__tests__"⟩ name) :=
    Path.join_join directory (by decide) (by decide) (Path.isAbsolute_of_slash_not_mem h)
  rw [testPlaces, testPaths, hbelow (slash_not_mem_testName hstem hextension (by decide)),
    hbelow (slash_not_mem_testName hstem hextension (by decide))]
  rfl

/-- No test is looked for outside of the directory. -/
theorem inside_of_mem_testPaths (h : next ∈ testPaths stem extension) (way : Location) :
    next.isAbsolute = false ∧ (within way next.steps).isSome := by
  -- a name in the directory
  have hname {middle : String} (hslash : '/' ∉ middle.toList) (hlength : 2 < middle.length) :
      Path.isAbsolute ⟨stem ++ middle ++ extension⟩ = false ∧
        (within way (Path.steps ⟨stem ++ middle ++ extension⟩)).isSome := by
    have hfree := slash_not_mem_testName hstem hextension hslash
    refine ⟨Path.isAbsolute_of_slash_not_mem hfree, ?_⟩
    have hlong : 2 < (stem ++ middle ++ extension).length := by
      rw [String.length_append, String.length_append]
      omega
    rw [Path.steps_of_slash_not_mem hfree, Path.ofSegment?_of_length hlong]
    rfl
  -- one step from the directory below
  have hbelow {name : String} (hfree : '/' ∉ name.toList) :
      (Path.child ⟨"__tests__"⟩ name).isAbsolute = false ∧
        (within way (Path.child ⟨"__tests__"⟩ name).steps).isSome := by
    have hrel := Path.isAbsolute_of_slash_not_mem hfree
    refine ⟨Path.isAbsolute_join (by decide) hrel, ?_⟩
    have htests : Path.steps ⟨"__tests__"⟩ = [.name "__tests__"] := by decide
    rw [Path.child, Path.steps_join (by decide) hrel, Path.steps_of_slash_not_mem hfree, htests,
      List.singleton_append, within]
    unfold Component.ofSegment?
    split
    · rfl
    · split
      · rw [Option.toList_some, Path.within_up (by simp)]
        rfl
      · rfl
  simp only [testPaths, List.mem_cons, List.not_mem_nil, or_false] at h
  rcases h with rfl | rfl | rfl | rfl
  · exact hname (by decide) (by decide)
  · exact hname (by decide) (by decide)
  · exact hbelow (slash_not_mem_testName hstem hextension (by decide))
  · exact hbelow (slash_not_mem_testName hstem hextension (by decide))

end Slashless

/-- All tests of a file, as seen from its directory. -/
def testsOf (path : Path) : List Path := (testExtensions path).flatMap (testPaths path.stem)

theorem inside_of_mem_testsOf (h : next ∈ testsOf path) (way : Location) :
    next.isAbsolute = false ∧ (within way next.steps).isSome := by
  obtain ⟨extension, hextension, hnext⟩ := List.mem_flatMap.mp h
  exact inside_of_mem_testPaths (Path.slash_not_mem_stem path)
    (slash_not_mem_of_mem_testExtensions hextension) hnext way

/-- The places of the tests are those seen from the directory. -/
theorem flatMap_testPlaces (path directory : Path) :
    (testExtensions path).flatMap (testPlaces directory path.stem) =
      (testsOf path).map directory.join := by
  rw [testsOf, List.map_flatMap]
  refine List.flatMap_congr fun extension hextension => ?_
  exact testPlaces_eq (Path.slash_not_mem_stem path)
    (slash_not_mem_of_mem_testExtensions hextension) directory

/-- **A file has tests** if one of them stands in its directory. -/
theorem hasTests_eq (hparent : (project.full path).parent? = some directory) :
    project.hasTests path =
      ((testsOf path).map directory.join).any project.files.isFile := by
  unfold hasTests
  rw [hparent, ← flatMap_testPlaces, List.any_flatMap]

end Project

end DocCoverage
