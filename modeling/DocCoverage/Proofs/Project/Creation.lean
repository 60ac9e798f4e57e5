import DocCoverage.Project.Coverage
import DocCoverage.Proofs.FileSystem.Making
import DocCoverage.Proofs.Project.Locality
import DocCoverage.Proofs.Project.Selection
import DocCoverage.Proofs.Settings.Saved
/-!
# Projects — creating the settings file

Settings pass by an entry of the root if no pattern leads into it and no
document is called like it (`Settings.PassBy`). A file that is created there
then changes nothing in the report (`check_of_passBy`). The built-in settings
pass by the settings file (`Settings.passBy_builtIn`) and come back from it, so
that the first run, which creates it, and the second, which reads it, report
what the built-in settings report without it (`coverage_creates`).
-/

namespace DocCoverage

open DocCoverage.Path (Component)

/-! ## What settings look at -/

/-- Steps that lead down, and not into the entry of this name. -/
def Path.PassBy (name : String) (steps : List Component) : Prop :=
  ∃ first rest, first ≠ name ∧ steps = (first :: rest).map .name

/-- Settings that never look at an entry of the root: no pattern leads into
it, and no document beside a source file is called like it. -/
structure Settings.PassBy (settings : Settings) (name : String) : Prop where
  patterns : ∀ label pattern glob, (label, pattern) ∈ settings.sources.filePatterns →
    Glob.ofText? pattern = some glob → ∀ steps, glob.Matches steps → Path.PassBy name steps
  documents : ∀ document ∈ settings.documents.besideSource,
    Listing.isName document = true ∧ document ≠ name

/-- A glob that begins with a name and stays down passes by all other
names. -/
theorem Glob.passBy_of_means {first name : String} {more : List GlobSegment}
    {trail : List String} {steps : List Component} (hfirst : Listing.isName first = true)
    (hne : first ≠ name) (hdown : ∀ segment ∈ more, segment.refuses ".." = true)
    (hmeans : Means (.plain first :: more) trail steps) : Path.PassBy name steps := by
  obtain ⟨behind, rest, rfl, hrest⟩ := exists_steps_of_means_plain hfirst hmeans
  obtain ⟨names, rfl⟩ := exists_names_of_means hrest fun segment hmem =>
    GlobSegment.not_offers_of_refuses (.inr rfl) (hdown segment hmem)
  exact ⟨first, names, hne, rfl⟩

/-- **The built-in settings pass by the settings file**: all patterns begin
with the sources. -/
theorem Settings.passBy_builtIn : builtIn.PassBy SettingsStore.fileName where
  patterns label pattern glob hmem hglob steps := by
    rintro ⟨trail, -, hmeans⟩
    have hsources : ∀ entry ∈ builtIn.sources.filePatterns, ∀ glob ∈ Glob.ofText? entry.2,
        glob.segments.head? = some (.plain "src") ∧
          ∀ segment ∈ glob.segments.tail, segment.refuses ".." = true := by decide +kernel
    obtain ⟨hhead, hdown⟩ := hsources _ hmem glob hglob
    obtain ⟨more, hmore⟩ := List.head?_eq_some_iff.mp hhead
    rw [hmore] at hmeans hdown
    exact Glob.passBy_of_means (by decide) (by decide) hdown hmeans
  documents := by decide

namespace Project

open FileSystem (SameElsewhere along)

variable {project : Project} {files : FileSystem} {base : Location} {name : String} {path : Path}

/-! ## What is passed by -/

/-- What passes by an entry does not come to it. -/
theorem along_ne_of_passBy {steps front : List Component} (h : Path.PassBy name steps)
    (hfront : front <+: steps) : along base front ≠ base ++ [name] := by
  obtain ⟨first, rest, hne, rfl⟩ := h
  obtain ⟨names, hnames, rfl⟩ := List.prefix_map_iff.mp hfront
  rw [FileSystem.along_map_name]
  intro heq
  rw [List.append_cancel_left heq] at hnames
  exact hne (List.cons_prefix_cons.mp hnames).1.symm

/-- No document is the entry, wherever it is looked for. -/
theorem along_ne_of_document {document : String} {down : Location} {front : List Component}
    (hdown : down ≠ [name]) (hne : document ≠ name) (hfront : front <+: [.name document]) :
    along (base ++ down) front ≠ base ++ [name] := by
  rcases List.prefix_cons_iff.mp hfront with rfl | ⟨behind, rfl, hbehind⟩
  · exact fun heq => hdown (List.append_cancel_left heq)
  · intro heq
    rw [List.prefix_nil.mp hbehind] at heq
    change base ++ down ++ [document] = base ++ [name] at heq
    exact hne (List.cons.inj (List.append_inj' heq rfl).2).1

section PassBy

variable (hroot : project.files.resolve project.root = .ok base)
  (hroot' : files.resolve project.root = .ok base)
  (helse : SameElsewhere project.files files (base ++ [name]))
  (hpass : project.settings.PassBy name)
include hroot hpass

/-- Candidates are not led to by way of the entry. -/
theorem passBy_of_mem_candidates (hpath : path ∈ project.candidates) :
    Path.PassBy name path.steps := by
  obtain ⟨label, pattern, glob, hmem, hglob, hmatches⟩ :=
    exists_matches_of_mem_found hroot (mem_found_of_mem_candidates hpath)
  obtain ⟨first, rest, hne, hnames⟩ := hpass.patterns label pattern glob hmem hglob _ hmatches
  refine ⟨first, rest, hne, ?_⟩
  rw [Path.steps_eq_filter, hnames, List.filter_eq_self]
  exact List.forall_mem_map.mpr fun _ _ => rfl

include hroot' helse

/-- What is looked for beside a candidate is not the entry. -/
theorem contentFrom?_document {document : String} (hpath : path ∈ project.candidates)
    (hdocument : document ∈ project.settings.documents.besideSource) :
    project.files.contentFrom? (if Path.isAbsolute ⟨document⟩ then [] else
        (project.place path).dropLast) (Path.segments ⟨document⟩) =
      files.contentFrom? (if Path.isAbsolute ⟨document⟩ then [] else
        ((project.withFiles files).place path).dropLast) (Path.segments ⟨document⟩) := by
  obtain ⟨hname, hne⟩ := hpass.documents document hdocument
  obtain ⟨first, rest, hother, hsteps⟩ := passBy_of_mem_candidates hroot hpass hpath
  have hslash := (Listing.isName_iff.mp hname).2.2.2.1
  have hbeside : (first :: rest).dropLast ≠ [name] := by
    cases rest with
    | nil => exact fun heq => absurd heq (List.cons_ne_nil _ _).symm
    | cons second rest => exact fun heq => hother (List.cons.inj heq).1
  rw [Path.isAbsolute_of_slash_not_mem hslash, if_neg Bool.false_ne_true,
    if_neg Bool.false_ne_true, place, place, base_of_resolve hroot, base_of_resolve hroot', hsteps,
    FileSystem.along_map_name, List.dropLast_append_of_ne_nil (List.cons_ne_nil _ _),
    Path.segments_of_slash_not_mem hslash]
  refine helse.contentFrom?_eq fun front hfront => ?_
  rw [Path.filterMap_ofSegment?_names (List.forall_mem_singleton.mpr hname)] at hfront
  exact along_ne_of_document hbeside hne hfront

/-- **At a candidate the entry changes nothing.** -/
theorem sameAt_of_passBy (hpath : path ∈ project.candidates) :
    SameAt project (project.withFiles files) path := by
  have hread {spelling : Path} (hmem : spelling ∈ project.candidates) :
      project.fileAt? spelling = (project.withFiles files).fileAt? spelling := by
    have hrel := isAbsolute_of_mem_found hroot (mem_found_of_mem_candidates hmem)
    rw [fileAt?_of_relative hrel, fileAt?_of_relative hrel, base_of_resolve hroot,
      base_of_resolve hroot']
    exact helse.contentFrom?_eq fun front hfront =>
      along_ne_of_passBy (passBy_of_mem_candidates hroot hpass hmem) hfront
  refine ⟨?_, fun spelling hmem _ => ?_, fun spelling hmem _ hreadable place hplace => ?_⟩
  · refine alikeOn_of_resolve rfl hroot hroot' (helse.alikeAlong fun front hfront => ?_)
      fun _ _ => rfl
    exact along_ne_of_passBy (passBy_of_mem_candidates hroot hpass hpath) hfront
  · exact readText?_full_congr hroot hroot' rfl (hread hmem)
  · obtain ⟨document, hdocument, rfl⟩ := List.mem_map.mp hplace
    have hrel := isAbsolute_of_mem_found hroot (mem_found_of_mem_candidates hmem)
    have hsome := isSome_fileAt?_of_readText? hroot hreadable
    refine readText?_full_congr hroot hroot' rfl ?_
    rw [fileAt?_beside hrel hsome, fileAt?_beside hrel (by rwa [← hread hmem])]
    exact contentFrom?_document hroot hroot' helse hpass hmem hdocument

end PassBy

/-- A root in which files are found can be a path. -/
theorem pathFault?_of_mem_candidates (hroot : project.root = Path.ofLocation base)
    (hpath : path ∈ project.candidates) : FileSystem.pathFault? (Path.ofLocation base) = none := by
  rw [← hroot]
  rcases rooted_of_mem_found (mem_found_of_mem_candidates hpath) with ⟨location, hres⟩ | hempty
  · exact (FileSystem.resolve_eq_ok_iff.mp hres).1
  · have habs := Path.isAbsolute_ofLocation base
    rw [← hroot, Path.isAbsolute, hempty] at habs
    cases habs

/-- **An entry that is passed by changes nothing in the report.** -/
theorem check_of_passBy (hroot : project.root = Path.ofLocation base)
    (hdir : project.files.entry? base = some .directory)
    (helse : SameElsewhere project.files files (base ++ [name]))
    (hpass : project.settings.PassBy name) :
    project.check = (project.withFiles files).check := by
  refine check_of_sameAt fun path hpath => ?_
  have hdir' : files.entry? base = some .directory := by
    rwa [← helse.entry base (by simp)]
  have hfault : FileSystem.pathFault? (Path.ofLocation base) = none := by
    rcases hpath with hpath | hpath
    · exact pathFault?_of_mem_candidates hroot hpath
    · exact @pathFault?_of_mem_candidates (project.withFiles files) base path hroot hpath
  have hres : project.files.resolve project.root = .ok base := by
    rw [hroot]
    exact FileSystem.resolve_ofLocation (by rw [hdir]; rfl) hfault
  have hres' : files.resolve project.root = .ok base := by
    rw [hroot]
    exact FileSystem.resolve_ofLocation (by rw [hdir']; rfl) hfault
  rcases hpath with hpath | hpath
  · exact sameAt_of_passBy hres hres' helse hpass hpath
  · have hsame := @sameAt_of_passBy (project.withFiles files) project.files base name path hres'
      hres helse.symm hpass hpath
    exact hsame.symm

/-! ## The first run and the second -/

/-- Where no settings file is named, the one in the root is loaded. -/
theorem coverage_of_load {files files' : FileSystem} {root : Path} {store : SettingsStore}
    (h : SettingsStore.load files (root.child SettingsStore.fileName) = (store, files')) :
    coverage files root none = ((atRoot files' root store.build).check, files') := by
  rw [coverage, Option.getD_none, h]

/-- The files with a settings file in a directory, as the built-in settings are
saved. -/
def withSettings (files : FileSystem) (base : Location) : FileSystem :=
  files.put (base ++ [SettingsStore.fileName]) (.file (.text SettingsStore.builtIn.text))

section Created

variable {root : Path} (hroot : files.resolve root = .ok base)
  (hdir : files.entry? base = some .directory)
  (hfree : files.entry? (base ++ [SettingsStore.fileName]) ≠ some .directory)
include hroot hdir hfree

/-- The built-in settings are saved in the root. -/
theorem save_builtIn
    (hfault : FileSystem.pathFault? (root.child SettingsStore.fileName) = none) :
    SettingsStore.builtIn.save files (root.child SettingsStore.fileName) =
      (withSettings files base, none) := by
  rw [SettingsStore.save, FileSystem.writeBelow_child hroot (by decide) hdir hfault hfree]
  rfl

/-- The root is where it was. -/
theorem resolve_withSettings : (withSettings files base).resolve root = .ok base := by
  have halike := @FileSystem.alike_put files base _ (.text SettingsStore.builtIn.text) hdir
    (by decide) hfree
  exact FileSystem.resolve_of_alike halike (by simp) hroot

/-- The built-in settings report what they reported. -/
theorem check_withSettings : (atRoot (withSettings files base) root Settings.builtIn).check =
    (atRoot files root Settings.builtIn).check := by
  have hplain : plainRoot files root = Path.ofLocation base := by rw [plainRoot, hroot]
  have hplain' : plainRoot (withSettings files base) root = Path.ofLocation base := by
    rw [plainRoot, resolve_withSettings hroot hdir hfree]
  have helse : SameElsewhere files (withSettings files base) (base ++ [SettingsStore.fileName]) :=
    FileSystem.sameElsewhere_put hdir (by decide) hfree
  rw [atRoot, atRoot, hplain, hplain']
  exact (@check_of_passBy ⟨files, Path.ofLocation base, Settings.builtIn⟩ _ base _ rfl hdir helse
    Settings.passBy_builtIn).symm

end Created

/-- **Creating the settings file cannot be seen in the report.** In a directory
without a settings file, in which one can be written, the first run reports
what the built-in settings report there. It leaves all as it is, but for the
settings file in the directory. A second run reports the same and changes
nothing. -/
theorem coverage_creates {files : FileSystem} {root : Path} {base : Location}
    (hroot : files.resolve root = .ok base) (hdir : files.entry? base = some .directory)
    (hnone : files.entry? (base ++ [SettingsStore.fileName]) = none)
    (hfault : FileSystem.pathFault? (root.child SettingsStore.fileName) = none) :
    ∃ files' : FileSystem,
      coverage files root none = ((atRoot files root Settings.builtIn).check, files') ∧
      files'.workingDirectory = files.workingDirectory ∧
      (∀ location, files'.entry? location =
        if location = base ++ [SettingsStore.fileName] then
          some (.file (.text SettingsStore.builtIn.text))
        else files.entry? location) ∧
      coverage files' root none = ((atRoot files root Settings.builtIn).check, files') := by
  have hname : Listing.isName SettingsStore.fileName = true := by decide
  have hfree : files.entry? (base ++ [SettingsStore.fileName]) ≠ some .directory := by
    rw [hnone]
    exact (Option.some_ne_none _).symm
  have hcheck := check_withSettings hroot hdir hfree
  have hsave := save_builtIn hroot hdir hfree hfault
  -- the first run finds nothing and saves, the second one loads what was saved
  have hcreated : SettingsStore.load files (root.child SettingsStore.fileName) =
      (SettingsStore.builtIn, withSettings files base) := by
    rw [SettingsStore.load_of_not_leadsSomewhere
      (FileSystem.leadsSomewhere_child hroot hname hnone), hsave]
  have hloaded := SettingsStore.load_of_save_builtIn hsave
  refine ⟨withSettings files base, ?_, ?_, ?_, ?_⟩
  · rw [coverage_of_load hcreated, SettingsStore.build_builtIn, hcheck]
  · exact (FileSystem.put_of_isName hdir hname).2
  · exact FileSystem.entry?_put hdir hname hfree
  · rw [coverage_of_load hloaded, SettingsStore.build_builtIn, hcheck]

/-- A project of one service, without settings. -/
def newcomer : FileSystem :=
  ([["app"], ["app", "src"], ["app", "src", "lib"], ["app", "src", "lib", "services"]].foldl
    (fun files location => files.put location .directory) FileSystem.empty).put
      ["app", "src", "lib", "services", "run.ts"] (.file (.text ""))

theorem coverage_creates_newcomer :
    newcomer.resolve ⟨"app"⟩ = .ok ["app"] ∧
    newcomer.entry? ["app", SettingsStore.fileName] = none ∧
    (atRoot newcomer ⟨"app"⟩ Settings.builtIn).candidates ≠ [] ∧
    ∃ files' : FileSystem,
      coverage newcomer ⟨"app"⟩ none =
        ((atRoot newcomer ⟨"app"⟩ Settings.builtIn).check, files') ∧
      files'.entry? ["app", SettingsStore.fileName] =
        some (.file (.text SettingsStore.builtIn.text)) ∧
      coverage files' ⟨"app"⟩ none =
        ((atRoot newcomer ⟨"app"⟩ Settings.builtIn).check, files') := by
  have hroot : newcomer.resolve ⟨"app"⟩ = .ok ["app"] := by decide +kernel
  have hnone : newcomer.entry? (["app"] ++ [SettingsStore.fileName]) = none := by decide +kernel
  have hservice : (⟨"src/lib/services/run.ts"⟩ : Path) ∈
      (atRoot newcomer ⟨"app"⟩ Settings.builtIn).candidates :=
    mem_candidates.mpr (by decide +kernel)
  obtain ⟨files', hfirst, -, hentry, hsecond⟩ :=
    coverage_creates hroot (by decide +kernel) hnone (by decide +kernel)
  have hcreated := hentry (["app"] ++ [SettingsStore.fileName])
  rw [if_pos rfl] at hcreated
  exact ⟨hroot, hnone, List.ne_nil_of_mem hservice, files', hfirst, hcreated, hsecond⟩

end Project

end DocCoverage
