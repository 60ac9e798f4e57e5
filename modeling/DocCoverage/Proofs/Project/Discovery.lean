import DocCoverage.Proofs.FileSystem.Plain
import DocCoverage.Proofs.Project.Creation
import DocCoverage.Proofs.Project.Relocation
/-!
# Projects — discovery and the root

A root may be given with dots, as a path that is too long, or as one that
leads nowhere. Unless nothing is left of it without its dots, whatever is
found below it is reached from the directory that it denotes, by a relative
path (`candidates_below`). The path can leave this directory only with two
dots of its own, and these are offered by the pattern that matches it. Where
nothing is left of the root, patterns begin at the root of the file system
(`candidates_outside`).
-/

namespace DocCoverage

open DocCoverage.Path (Component)

namespace Path

/-- Names are a way down. -/
theorem within_map_name (way names : Location) :
    within way (names.map .name) = some (way ++ names) := by
  induction names generalizing way with
  | nil => rw [List.append_nil, List.map_nil, within]
  | cons name rest ih => rw [List.map_cons, within, ih, List.append_assoc, List.singleton_append]

end Path

/-! ## Patterns that can climb -/

namespace Glob

variable {glob : Glob} {steps : List Component}

/-- A glob can climb if one of its segments offers two dots. -/
def Climbs (glob : Glob) : Prop := ∃ segment ∈ glob.segments, segment.Offers ".."

theorem not_climbs_of_refuses (h : ∀ segment ∈ glob.segments, segment.refuses ".." = true) :
    ¬ glob.Climbs := fun ⟨segment, hmem, hoffers⟩ =>
  GlobSegment.not_offers_of_refuses (.inr rfl) (h segment hmem) hoffers

/-- Without two dots, steps lead down. -/
theorem exists_names_of_matches (hmatches : glob.Matches steps) (hclimbs : ¬ glob.Climbs) :
    ∃ names : List String, steps = names.map .name := by
  obtain ⟨trail, -, hmeans⟩ := hmatches
  exact exists_names_of_means hmeans fun segment hmem hoffers => hclimbs ⟨segment, hmem, hoffers⟩

theorem climbs_of_up_mem (hmatches : glob.Matches steps) (hup : .up ∈ steps) : glob.Climbs := by
  by_contra hclimbs
  obtain ⟨names, rfl⟩ := exists_names_of_matches hmatches hclimbs
  obtain ⟨name, -, hname⟩ := List.mem_map.mp hup
  cases hname

end Glob

namespace Project

open DocCoverage.Path (within)

variable {files : FileSystem} {root path : Path} {settings : Settings} {base directory : Location}

/-! ## Roots -/

/-- A root without dots is empty only if there was nothing but dots, and these
led nowhere. -/
theorem text_plainRoot_ne (h : (∃ location, files.resolve root = .ok location) ∨
    ∃ component ∈ root.components, component ≠ .here) : (plainRoot files root).text ≠ "" := by
  rw [plainRoot]
  cases hres : files.resolve root with
  | ok location =>
    have habs := Path.isAbsolute_ofLocation location
    intro hempty
    rw [Path.isAbsolute, hempty] at habs
    cases habs
  | error fault =>
    rcases h with ⟨location, hok⟩ | ⟨component, hmem, hne⟩
    · rw [hres] at hok
      cases hok
    · exact Path.text_plain_ne hmem hne

/-- **A root denotes the directory to which it leads without its dots.** -/
theorem denotes_of_resolve_plainRoot (h : files.resolve (plainRoot files root) = .ok base)
    (hdir : files.entry? base = some .directory) : files.Denotes root base := by
  cases hres : files.resolve root with
  | ok location =>
    have hplain := resolve_plainRoot hres (FileSystem.resolve_eq_ok_iff.mp h).1
    obtain rfl := Except.ok.inj (h.symm.trans hplain)
    exact FileSystem.denotes_of_resolve hres hdir
  | error fault =>
    rw [plainRoot, hres] at h
    exact FileSystem.denotes_of_resolve_plain h hdir

/-! ## Candidates -/

/-- A relative path leads from a directory to a file, which stands below the
directory unless the path climbs above it. -/
structure Enclosed (files : FileSystem) (directory : Location) (path : Path) : Prop where
  relative : path.isAbsolute = false
  isFile : (files.contentFrom? directory (path.components.map Component.text)).isSome
  below : ∀ names, within [] path.components = some names →
    names ≠ [] ∧ (files.contentAt? (directory ++ names)).isSome

/-- From a root that is there, what is found is as its components say. -/
theorem components_of_mem_found {project : Project}
    (hroot : project.files.resolve project.root = .ok base) (h : path ∈ project.found) :
    path.components = path.steps := by
  obtain ⟨trail, hon⟩ := exists_trail_of_mem_found h
  rw [hon.eq_spell, spell, hroot]
  exact Path.components_eq_steps (Glob.lead?_spelled hon.slash_not_mem)

theorem enclosed_of_mem_found {project : Project}
    (hroot : project.files.resolve project.root = .ok base) (h : path ∈ project.found) :
    Enclosed project.files base path where
  relative := isAbsolute_of_mem_found hroot h
  isFile := ((exists_found_iff hroot).mp ⟨path, h, rfl⟩).2
  below names hnames := by
    rw [components_of_mem_found hroot h] at hnames
    obtain ⟨hne, hplace⟩ := place_of_within hroot h hnames
    exact ⟨hne, hplace ▸ isSome_contentAt?_of_mem_found h⟩

theorem Enclosed.below_of_names {names : List String} (h : Enclosed files directory path)
    (hnames : path.components = names.map .name) :
    names ≠ [] ∧ (files.contentAt? (directory ++ names)).isSome :=
  h.below names (by rw [hnames, Path.within_map_name, List.nil_append])

/-- A candidate is enclosed by the directory that the root denotes, and a
pattern matches it. -/
theorem enclosed_of_mem_candidates (htext : (plainRoot files root).text ≠ "")
    (h : path ∈ (atRoot files root settings).candidates) :
    (∃ directory, files.Denotes root directory ∧ Enclosed files directory path) ∧
      ∃ label pattern glob, (label, pattern) ∈ settings.sources.filePatterns ∧
        Glob.ofText? pattern = some glob ∧ glob.Matches path.components := by
  have hfound := mem_found_of_mem_candidates h
  obtain ⟨base, hbase⟩ := (rooted_of_mem_found hfound).resolve_right htext
  have hdenotes := denotes_of_resolve_plainRoot hbase (entry?_of_mem_found hbase hfound)
  exact ⟨⟨base, hdenotes, enclosed_of_mem_found hbase hfound⟩,
    exists_matches_of_mem_found hbase hfound⟩

/-- **Discovery starts at the root.** Let something be left of a root without
its dots. Then every candidate leads from the directory that the root denotes
to a file, which stands below this directory unless the candidate climbs above
it. A candidate with two dots is matched by a pattern that can climb, so that
without such patterns all candidates are made of names and stand below the
root. A root that denotes no directory has no candidates. -/
theorem candidates_below (hroot : (∃ location, files.resolve root = .ok location) ∨
    ∃ component ∈ root.components, component ≠ .here) :
    (∀ path ∈ (atRoot files root settings).candidates,
      (∃ directory, files.Denotes root directory ∧ Enclosed files directory path) ∧
      (.up ∈ path.components → ∃ label pattern glob,
        (label, pattern) ∈ settings.sources.filePatterns ∧ Glob.ofText? pattern = some glob ∧
          glob.Matches path.components ∧ glob.Climbs)) ∧
    ((∀ label pattern glob, (label, pattern) ∈ settings.sources.filePatterns →
        Glob.ofText? pattern = some glob → ¬ glob.Climbs) →
      ∀ path ∈ (atRoot files root settings).candidates, path.isAbsolute = false ∧
        ∃ directory names, files.Denotes root directory ∧ path.components = names.map .name ∧
          names ≠ [] ∧ (files.contentAt? (directory ++ names)).isSome) ∧
    ((∀ directory, ¬ files.Denotes root directory) →
      (atRoot files root settings).candidates = []) := by
  have htext := text_plainRoot_ne hroot
  refine ⟨fun path hpath => ?_, fun hpatterns path hpath => ?_, fun hnone => ?_⟩
  · obtain ⟨hdirectory, label, pattern, glob, hpattern, hglob, hmatches⟩ :=
      enclosed_of_mem_candidates htext hpath
    exact ⟨hdirectory, fun hup =>
      ⟨label, pattern, glob, hpattern, hglob, hmatches, Glob.climbs_of_up_mem hmatches hup⟩⟩
  · obtain ⟨⟨directory, hdenotes, henclosed⟩, label, pattern, glob, hpattern, hglob, hmatches⟩ :=
      enclosed_of_mem_candidates htext hpath
    obtain ⟨names, hnames⟩ :=
      Glob.exists_names_of_matches hmatches (hpatterns label pattern glob hpattern hglob)
    exact ⟨henclosed.relative, directory, names, hdenotes, hnames,
      henclosed.below_of_names hnames⟩
  · refine List.eq_nil_iff_forall_not_mem.mpr fun path hpath => ?_
    obtain ⟨⟨directory, hdenotes, -⟩, -⟩ := enclosed_of_mem_candidates htext hpath
    exact hnone directory hdenotes

theorem candidates_below_cousins :
    (∃ directory names, cousins.Denotes ⟨"./p/./two"⟩ directory ∧ names ≠ [] ∧
      (cousins.contentAt? (directory ++ names)).isSome) ∧
    (atRoot cousins ⟨"./p/three"⟩ (settingsFor [("all", "*.ts")])).candidates = [] := by
  have hdown : ∀ entry ∈ [("all", "*.ts")], ∀ glob ∈ Glob.ofText? entry.2,
      ∀ segment ∈ glob.segments, segment.refuses ".." = true := by decide +kernel
  have hmem : (⟨"b.ts"⟩ : Path) ∈
      (atRoot cousins ⟨"./p/./two"⟩ (settingsFor [("all", "*.ts")])).candidates :=
    mem_candidates.mpr (by decide +kernel)
  constructor
  · obtain ⟨-, hbelow, -⟩ := @candidates_below cousins ⟨"./p/./two"⟩
      (settingsFor [("all", "*.ts")]) (.inl ⟨["p", "two"], by decide +kernel⟩)
    obtain ⟨-, directory, names, hdenotes, -, hne, hfile⟩ := hbelow
      (fun label pattern glob hpattern hglob =>
        Glob.not_climbs_of_refuses (hdown _ hpattern glob hglob)) _ hmem
    exact ⟨directory, names, hdenotes, hne, hfile⟩
  · obtain ⟨-, -, hnone⟩ := @candidates_below cousins ⟨"./p/three"⟩
      (settingsFor [("all", "*.ts")]) (.inr ⟨.name "p", by decide +kernel, by decide⟩)
    refine hnone fun directory hdenotes => ?_
    have hwalk : cousins.walk [] ["." , "p", "three"] = .ok directory := hdenotes.walk
    have hnowhere : cousins.walk [] [".", "p", "three"] = .error .notFound := by decide +kernel
    rw [hnowhere] at hwalk
    cases hwalk

/-! ## What leads outside -/

/-- **What leads outside.** A pattern without a piece of two dots can still
climb, and below the empty root patterns begin at the root of the file system. -/
theorem candidates_outside :
    (cousins.Denotes ⟨"p"⟩ ["p"] ∧ ".." ∉ Text.cutAt '/' ".*/one/b.ts" ∧
      ⟨"../one/b.ts"⟩ ∈
        (atRoot cousins ⟨"p"⟩ (settingsFor [("up", ".*/one/b.ts")])).candidates ∧
      cousins.resolve ((⟨"p"⟩ : Path).join ⟨"../one/b.ts"⟩) = .ok ["one", "b.ts"] ∧
      ¬ ["p"] <+: ["one", "b.ts"]) ∧
    (∀ directory, ¬ cousins.Denotes ⟨""⟩ directory) ∧ ".." ∉ Text.cutAt '/' "one/b.ts" ∧
      ⟨"/one/b.ts"⟩ ∈ (atRoot cousins ⟨""⟩ (settingsFor [("all", "one/b.ts")])).candidates ∧
      Path.isAbsolute ⟨"/one/b.ts"⟩ = true := by
  refine ⟨⟨⟨by decide, by decide, by decide +kernel, by decide +kernel⟩, by decide,
    mem_candidates.mpr (by decide +kernel), by decide +kernel, by decide⟩, ?_, by decide,
    mem_candidates.mpr (by decide +kernel), by decide⟩
  exact fun directory hdenotes => hdenotes.text_ne rfl

end Project

end DocCoverage
