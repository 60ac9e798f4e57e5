import DocCoverage.Proofs.FileSystem.Limits
import DocCoverage.Proofs.Glob.Meaning
/-!
# File systems — paths without dots

A path without its dots begins where the path begins and takes the same steps
(`isAbsolute_plain`, `steps_plain`). If it leads to a directory, the path
denotes this directory: what says nothing can be put back into a walk that
ends in a directory (`walk_of_texts`). The path itself may be too long to be
followed.
-/

namespace DocCoverage

open DocCoverage.Path (Component)

namespace Path

variable {path : Path} {component : Component}

/-! ## Steps and how they are written -/

theorem ofSegment?_text_of_mem_steps (h : component ∈ path.steps) :
    Component.ofSegment? component.text = some component := by
  obtain ⟨segment, -, hsegment⟩ := List.mem_filterMap.mp h
  rwa [text_of_ofSegment? hsegment]

theorem slash_not_mem_text (h : component ∈ path.steps) : '/' ∉ component.text.toList := by
  obtain ⟨segment, hmem, hsegment⟩ := List.mem_filterMap.mp h
  rw [text_of_ofSegment? hsegment]
  exact slash_not_mem_of_mem_segments hmem

/-- Written out, no step says nothing. -/
theorem text_ne_of_mem_steps (h : component ∈ path.steps) : component.text ≠ "" := by
  intro hempty
  have hnone := ofSegment?_text_of_mem_steps h
  rw [hempty] at hnone
  cases hnone

theorem slash_not_mem_texts : ∀ s ∈ path.steps.map Component.text, '/' ∉ s.toList :=
  List.forall_mem_map.mpr fun _ => slash_not_mem_text

theorem filterMap_texts (path : Path) :
    (path.steps.map Component.text).filterMap Component.ofSegment? = path.steps := by
  rw [List.filterMap_map]
  exact (List.filterMap_congr fun component h => ofSegment?_text_of_mem_steps h).trans
    List.filterMap_some

/-! ## Without dots -/

theorem filter_front (path : Path) :
    path.front.filter (· != .here) = if path.isAbsolute then [.root] else [] := by
  rw [front, lead?]
  cases path.isAbsolute with
  | true => rfl
  | false =>
    by_cases hdot : path.segments.head? = some "."
    · rw [hdot]
      rfl
    · rw [if_neg Bool.false_ne_true, if_neg hdot]
      rfl

/-- Without its dots a path is written by its steps, behind its slash if it is
absolute. -/
theorem plain_eq (path : Path) : path.plain =
    if path.isAbsolute then ofLocation (path.steps.map Component.text)
    else ofSegments (path.steps.map Component.text) := by
  have hsteps : path.steps.filter (· != .here) = path.steps := by
    refine List.filter_eq_self.mpr fun component hmem => bne_iff_ne.mpr ?_
    rintro rfl
    exact absurd (two_le_rank_of_mem_steps hmem) (by decide)
  rw [plain, components_eq, List.filter_append, filter_front, hsteps]
  cases path.isAbsolute with
  | true => rfl
  | false =>
    rw [if_neg Bool.false_ne_true, if_neg Bool.false_ne_true, List.nil_append]
    -- no step is the root
    split
    next rest heq =>
      have hmem : Component.root ∈ path.steps := by
        rw [heq]
        exact List.mem_cons_self
      exact absurd (two_le_rank_of_mem_steps hmem) (by decide)
    · rfl

theorem steps_plain (path : Path) : path.plain.steps = path.steps := by
  rw [plain_eq]
  split
  · rw [steps_ofLocation slash_not_mem_texts, filterMap_texts]
  · rw [steps_ofSegments slash_not_mem_texts, filterMap_texts]

theorem isAbsolute_plain (path : Path) : path.plain.isAbsolute = path.isAbsolute := by
  rw [plain_eq]
  split
  next habs => rw [isAbsolute_ofLocation, habs]
  next hrel =>
    rw [Bool.eq_false_iff.mpr hrel]
    refine isAbsolute_ofSegments fun s hs => ?_
    obtain ⟨component, hmem, rfl⟩ := List.mem_map.mp (List.mem_of_mem_head? hs)
    exact ⟨text_ne_of_mem_steps hmem, slash_not_mem_text hmem⟩

/-- Only of a path of dots nothing is left. -/
theorem text_plain_ne (h : component ∈ path.components) (hne : component ≠ .here) :
    path.plain.text ≠ "" := by
  intro hempty
  have hrel : path.isAbsolute = false := by
    rw [← isAbsolute_plain, isAbsolute, hempty]
    rfl
  have hsteps : path.steps = [] := by
    rw [← steps_plain, steps, segments, hempty]
    rfl
  have hkept : component ∈ path.components.filter (· != .here) :=
    List.mem_filter.mpr ⟨h, bne_iff_ne.mpr hne⟩
  rw [components_eq, hsteps, List.append_nil, filter_front, hrel] at hkept
  cases hkept

theorem null_not_mem_of_plain (h : '\x00' ∉ path.plain.text.toList) :
    '\x00' ∉ path.text.toList := by
  rw [mem_text_iff (by decide) (by decide)] at h ⊢
  rwa [steps_plain] at h

end Path

namespace FileSystem

variable {fs : FileSystem} {base place : Location} {segments : List String} {path : Path}

/-! ## Directories -/

/-- What leads to a directory leads there from a directory. -/
theorem entry?_of_walk_to_directory (hwalk : fs.walk base segments = .ok place)
    (hdir : fs.entry? place = some .directory) : fs.entry? base = some .directory := by
  cases segments with
  | nil => rwa [Except.ok.inj hwalk]
  | cons segment rest => exact entry?_of_walk_ok hwalk (List.cons_ne_nil _ _)

/-- **On the way to a directory** segments that say nothing can be walked as
well. -/
theorem walk_of_texts (hdir : fs.entry? place = some .directory)
    (hwalk : fs.walk base ((segments.filterMap Component.ofSegment?).map Component.text) =
      .ok place) : fs.walk base segments = .ok place := by
  induction segments generalizing base with
  | nil => exact hwalk
  | cons s rest ih =>
    cases hs : Component.ofSegment? s with
    | none =>
      rw [List.filterMap_cons_none hs] at hwalk
      have hstep : fs.step base s = .ok base := step_eq_ok_iff.mpr
        ⟨entry?_of_walk_to_directory hwalk hdir, by rw [if_pos (Path.ofSegment?_eq_none_iff.mp hs)]⟩
      exact walk_cons_eq_ok_iff.mpr ⟨base, hstep, ih hwalk⟩
    | some component =>
      rw [List.filterMap_cons_some hs, List.map_cons, Path.text_of_ofSegment? hs] at hwalk
      obtain ⟨next, hstep, hrest⟩ := walk_cons_eq_ok_iff.mp hwalk
      exact walk_cons_eq_ok_iff.mpr ⟨next, hstep, ih hrest⟩

/-- A path denotes the directory to which its segments lead, however long it
is. -/
structure Denotes (fs : FileSystem) (path : Path) (directory : Location) : Prop where
  text_ne : path.text ≠ ""
  null_not_mem : '\x00' ∉ path.text.toList
  walk : fs.walk (fs.start path) path.segments = .ok directory
  isDirectory : fs.entry? directory = some .directory

theorem denotes_of_resolve (h : fs.resolve path = .ok place)
    (hdir : fs.entry? place = some .directory) : fs.Denotes path place where
  text_ne := text_ne_of_resolve h
  null_not_mem := (pathFault?_eq_none_iff.mp (resolve_eq_ok_iff.mp h).1).2.1
  walk := (resolve_eq_ok_iff.mp h).2
  isDirectory := hdir

/-- **A path denotes the directory to which it leads without its dots.** -/
theorem denotes_of_resolve_plain (h : fs.resolve path.plain = .ok place)
    (hdir : fs.entry? place = some .directory) : fs.Denotes path place := by
  obtain ⟨-, hnull, hwalk, -⟩ := denotes_of_resolve h hdir
  have htexts := walk_texts hwalk
  rw [start, Path.isAbsolute_plain, ← start] at htexts
  refine ⟨?_, Path.null_not_mem_of_plain hnull, walk_of_texts hdir ?_, hdir⟩
  · intro hempty
    obtain ⟨text⟩ := path
    obtain rfl : text = "" := hempty
    exact text_ne_of_resolve h (by decide)
  · rwa [← Path.steps, ← Path.steps_plain]

end FileSystem

end DocCoverage
