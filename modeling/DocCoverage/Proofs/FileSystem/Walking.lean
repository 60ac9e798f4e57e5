import DocCoverage.Proofs.FileSystem.Contents
import DocCoverage.Proofs.Path.Segments
/-!
# File systems — where a path leads

If a path leads anywhere, its steps alone say where: up and down the names
from where it starts (`resolve_eq_along`). Two file systems are alike on some
locations if the same kinds of things stand there and directories stand
nowhere else. Whatever leads to one of these locations in one of the two
leads there in the other (`walk_of_alike`).
-/

namespace DocCoverage

/-- Whether an entry is a file. -/
def Entry.isFile : Entry → Bool
  | directory => false
  | file _ => true

namespace Path

variable {name : String} {names : List String}

/-- A name is a step down. -/
theorem ofSegment?_of_isName (h : Listing.isName name = true) :
    Component.ofSegment? name = some (.name name) := by
  obtain ⟨hempty, hdot, hdots, -⟩ := Listing.isName_iff.mp h
  rw [Component.ofSegment?, if_neg (by simp [hempty, hdot]), if_neg hdots]

theorem filterMap_ofSegment?_names (h : ∀ name ∈ names, Listing.isName name = true) :
    names.filterMap Component.ofSegment? = names.map .name := by
  induction names with
  | nil => rfl
  | cons name rest ih =>
    obtain ⟨hname, hrest⟩ := List.forall_mem_cons.mp h
    rw [List.filterMap_cons_some (ofSegment?_of_isName hname), ih hrest, List.map_cons]

end Path

namespace FileSystem

open DocCoverage.Path (Component)

variable {fs fs' : FileSystem} {location place : Location} {path : Path}
  {segment : String} {segments : List String} {keep : Location → Bool}

/-! ## Steps -/

/-- Where one step leads, if it leads anywhere. -/
def pace (location : Location) : Component → Location
  | .root | .here => location
  | .up => location.dropLast
  | .name text => location ++ [text]

/-- Where steps lead, if they lead anywhere. -/
def along (location : Location) (steps : List Component) : Location := steps.foldl pace location

theorem along_append (location : Location) (steps more : List Component) :
    along location (steps ++ more) = along (along location steps) more :=
  List.foldl_append

theorem along_map_name (location : Location) (names : List String) :
    along location (names.map .name) = location ++ names := by
  induction names generalizing location with
  | nil => exact (List.append_nil location).symm
  | cons name rest ih =>
    change along (location ++ [name]) (rest.map .name) = _
    rw [ih, List.append_assoc, List.singleton_append]

/-- Names lead down. -/
theorem along_names {way : List String} (h : ∀ name ∈ way, Listing.isName name = true)
    (location : Location) :
    along location (way.filterMap Component.ofSegment?) = location ++ way := by
  rw [Path.filterMap_ofSegment?_names h, along_map_name]

theorem step_eq_ok_iff :
    fs.step location segment = .ok place ↔
      fs.entry? location = some .directory ∧
        if segment = "" ∨ segment = "." then place = location
        else if segment = ".." then place = location.dropLast
        else isTooLong segment = false ∧ (fs.entry? (location ++ [segment])).isSome ∧
          place = location ++ [segment] := by
  unfold step
  split
  next hentry => simp [hentry]
  next hentry => simp [hentry]
  next hentry =>
    simp only [hentry, true_and]
    split
    · rw [Except.ok.injEq, eq_comm]
    · split
      · rw [Except.ok.injEq, eq_comm]
      · split
        next hlong => simp [hlong]
        next hlong =>
          split
          next hsome => simp [hlong, hsome, eq_comm]
          next hsome => simp [hsome]

theorem step_eq_along (h : fs.step location segment = .ok place) :
    place = along location (Component.ofSegment? segment).toList := by
  obtain ⟨-, hto⟩ := step_eq_ok_iff.mp h
  unfold Component.ofSegment?
  split
  next hsilent => rwa [if_pos hsilent] at hto
  next hsilent =>
    rw [if_neg hsilent] at hto
    split
    next hup => rwa [if_pos hup] at hto
    next hup =>
      rw [if_neg hup] at hto
      exact hto.2.2

/-! ## Walks -/

theorem walk_append (fs : FileSystem) (location : Location) (front more : List String) :
    fs.walk location (front ++ more) =
      match fs.walk location front with
      | .ok next => fs.walk next more
      | .error fault => .error fault := by
  induction front generalizing location with
  | nil => rfl
  | cons segment rest ih =>
    rw [List.cons_append, walk, walk]
    cases hstep : fs.step location segment with
    | ok next => exact ih next
    | error fault => rfl

theorem walk_cons_eq_ok_iff : fs.walk location (segment :: segments) = .ok place ↔
    ∃ next, fs.step location segment = .ok next ∧ fs.walk next segments = .ok place := by
  rw [walk]
  cases hstep : fs.step location segment with
  | ok next => simp
  | error fault => simp

theorem walk_eq_along (h : fs.walk location segments = .ok place) :
    place = along location (segments.filterMap Component.ofSegment?) := by
  induction segments generalizing location with
  | nil => exact (Except.ok.inj h).symm
  | cons segment rest ih =>
    obtain ⟨next, hstep, hwalk⟩ := walk_cons_eq_ok_iff.mp h
    rw [Path.filterMap_ofSegment?_cons, along_append, ← step_eq_along hstep]
    exact ih hwalk

/-- Names lead down to whatever stands there. -/
theorem walk_names {way : List String} (hnames : ∀ name ∈ way, Listing.isName name = true)
    (hsome : way ≠ [] → (fs.entry? (location ++ way)).isSome) :
    fs.walk location way = .ok (location ++ way) := by
  induction way generalizing location with
  | nil => rw [List.append_nil, walk]
  | cons name rest ih =>
    obtain ⟨hname, hrest⟩ := List.forall_mem_cons.mp hnames
    obtain ⟨hempty, hdot, hdots, -, hlong⟩ := Listing.isName_iff.mp hname
    have hthere := hsome (List.cons_ne_nil _ _)
    rw [List.append_cons] at hthere ⊢
    -- below what is no directory nothing would stand
    have hdir {front behind : Location} (hne : behind ≠ [])
        (h : (fs.entry? (front ++ behind)).isSome) : fs.entry? front = some .directory := by
      by_contra hnot
      rw [entry?_append_of_ne_directory hne hnot] at h
      cases h
    have hnext : (fs.entry? (location ++ [name])).isSome := by
      cases rest with
      | nil => rwa [List.append_nil] at hthere
      | cons second rest =>
        rw [hdir (List.cons_ne_nil _ _) hthere]
        rfl
    refine walk_cons_eq_ok_iff.mpr ⟨location ++ [name], step_eq_ok_iff.mpr ⟨?_, ?_⟩, ih hrest ?_⟩
    · exact hdir (List.cons_ne_nil _ _) hnext
    · rw [if_neg (by simp [hempty, hdot]), if_neg hdots]
      exact ⟨hlong, hnext, rfl⟩
    · exact fun _ => hthere

theorem resolve_eq_ok_iff : fs.resolve path = .ok place ↔
    pathFault? path = none ∧ fs.walk (fs.start path) path.segments = .ok place := by
  rw [resolve]
  cases pathFault? path with
  | none => simp
  | some fault => simp

/-- **Where a path leads can be told from its steps.** -/
theorem resolve_eq_along (h : fs.resolve path = .ok place) :
    place = along (fs.start path) path.steps :=
  walk_eq_along (resolve_eq_ok_iff.mp h).2

/-- **A location is where its own path leads**, if that is no longer than
paths can be. -/
theorem resolve_ofLocation (hsome : (fs.entry? location).isSome)
    (hfault : pathFault? (Path.ofLocation location) = none) :
    fs.resolve (Path.ofLocation location) = .ok location := by
  have hnames := isName_of_entry? hsome
  have hslash : fs.step [] "" = .ok [] := rfl
  have habs := Path.isAbsolute_ofLocation location
  rw [resolve, hfault, start, habs, if_pos rfl]
  dsimp only
  cases location with
  | nil =>
    change fs.walk [] ["", ""] = .ok []
    exact walk_cons_eq_ok_iff.mpr ⟨[], hslash, walk_cons_eq_ok_iff.mpr ⟨[], hslash, rfl⟩⟩
  | cons name rest =>
    have hfree : ∀ s ∈ name :: rest, '/' ∉ s.toList := fun s hs =>
      (Listing.isName_iff.mp (hnames s hs)).2.2.2.1
    rw [Path.segments_ofLocation (List.cons_ne_nil _ _) hfree]
    refine walk_cons_eq_ok_iff.mpr ⟨[], hslash, ?_⟩
    exact walk_names hnames fun _ => hsome

/-- What stands above something is a directory. -/
theorem isSome_dropLast (h : (fs.entry? location).isSome) :
    (fs.entry? location.dropLast).isSome := by
  rcases List.eq_nil_or_concat location with rfl | ⟨front, name, rfl⟩
  · exact h
  · rw [List.concat_eq_append] at h ⊢
    rw [List.dropLast_concat]
    -- below what is no directory nothing would stand
    by_cases hdir : fs.entry? front = some .directory
    · rw [hdir]
      rfl
    · rw [entry?_append_of_ne_directory (by simp) hdir] at h
      cases h

theorem isSome_of_step (h : fs.step location segment = .ok place) : (fs.entry? place).isSome := by
  obtain ⟨hdir, hto⟩ := step_eq_ok_iff.mp h
  have hsome : (fs.entry? location).isSome := by
    rw [hdir]
    rfl
  split at hto
  · rwa [hto]
  · split at hto
    · rw [hto]
      exact isSome_dropLast hsome
    · rw [hto.2.2]
      exact hto.2.1

theorem isSome_of_walk (h : fs.walk location segments = .ok place) (hne : segments ≠ []) :
    (fs.entry? place).isSome := by
  induction segments generalizing location with
  | nil => exact absurd rfl hne
  | cons segment rest ih =>
    obtain ⟨next, hstep, hwalk⟩ := walk_cons_eq_ok_iff.mp h
    cases rest with
    | nil =>
      obtain rfl := Except.ok.inj hwalk
      exact isSome_of_step hstep
    | cons second rest => exact ih hwalk (List.cons_ne_nil _ _)

/-- A path that leads somewhere leads to something. -/
theorem isSome_of_resolve (h : fs.resolve path = .ok place) : (fs.entry? place).isSome :=
  isSome_of_walk (resolve_eq_ok_iff.mp h).2 (Path.segments_ne_nil path)

theorem text_ne_of_resolve (h : fs.resolve path = .ok place) : path.text ≠ "" := by
  intro hempty
  rw [resolve, pathFault?, if_pos hempty] at h
  cases h

theorem lookUp?_of_resolve (h : fs.resolve path = .ok place) :
    fs.lookUp? path = fs.entry? place := by
  rw [lookUp?, h]

/-- What can be read is where the path leads. -/
theorem resolve_of_isSome_readText? (h : (fs.readText? path).isSome) :
    ∃ place, fs.resolve path = .ok place := by
  rw [readText?, content?, lookUp?] at h
  cases hres : fs.resolve path with
  | ok place => exact ⟨place, rfl⟩
  | error fault =>
    rw [hres] at h
    cases h

/-! ## File systems that are alike -/

/-- On the kept locations the same kinds of things stand, and directories
stand on no others. -/
structure Alike (keep : Location → Bool) (fs fs' : FileSystem) : Prop where
  workingDirectory : fs.workingDirectory = fs'.workingDirectory
  kind : ∀ location, keep location = true →
    (fs.entry? location).map Entry.isFile = (fs'.entry? location).map Entry.isFile
  keep_left : ∀ location, fs.entry? location = some .directory → keep location = true
  keep_right : ∀ location, fs'.entry? location = some .directory → keep location = true

theorem Alike.symm (h : Alike keep fs fs') : Alike keep fs' fs where
  workingDirectory := h.workingDirectory.symm
  kind location hkeep := (h.kind location hkeep).symm
  keep_left := h.keep_right
  keep_right := h.keep_left

theorem map_isFile_eq_some_false {entry : Option Entry} :
    entry.map Entry.isFile = some false ↔ entry = some .directory := by
  cases entry with
  | none => simp
  | some entry => cases entry <;> simp [Entry.isFile]

theorem Alike.directory_iff (h : Alike keep fs fs') :
    fs.entry? location = some .directory ↔ fs'.entry? location = some .directory := by
  rw [← map_isFile_eq_some_false, ← map_isFile_eq_some_false]
  constructor
  · intro hdir
    rwa [← h.kind location (h.keep_left location (map_isFile_eq_some_false.mp hdir))]
  · intro hdir
    rwa [h.kind location (h.keep_right location (map_isFile_eq_some_false.mp hdir))]

theorem Alike.isSome_iff (h : Alike keep fs fs') (hkeep : keep location = true) :
    (fs.entry? location).isSome ↔ (fs'.entry? location).isSome := by
  have hkind := congrArg Option.isSome (h.kind location hkeep)
  rw [Option.isSome_map, Option.isSome_map] at hkind
  rw [hkind]

theorem isSome_contentAt?_iff :
    (fs.contentAt? location).isSome ↔ (fs.entry? location).map Entry.isFile = some true := by
  rw [contentAt?]
  cases fs.entry? location with
  | none => simp
  | some entry => cases entry <;> simp [Entry.isFile]

/-- A step to a kept location can be taken in both. -/
theorem step_of_alike (h : Alike keep fs fs') (hkeep : keep place = true)
    (hstep : fs.step location segment = .ok place) : fs'.step location segment = .ok place := by
  rw [step_eq_ok_iff] at hstep ⊢
  obtain ⟨hdir, hto⟩ := hstep
  refine ⟨h.directory_iff.mp hdir, ?_⟩
  split
  next hsilent => rwa [if_pos hsilent] at hto
  next hsilent =>
    rw [if_neg hsilent] at hto
    split
    next hup => rwa [if_pos hup] at hto
    next hup =>
      rw [if_neg hup] at hto
      -- only a step to a name looks at its target, and the target is kept
      obtain ⟨hlong, hsome, rfl⟩ := hto
      exact ⟨hlong, (h.isSome_iff hkeep).mp hsome, rfl⟩

/-- A walk goes through directories, so that all of its way is kept if its
end is. -/
theorem keep_of_walk (h : Alike keep fs fs') (hkeep : keep place = true)
    (hwalk : fs.walk location segments = .ok place) : keep location = true := by
  cases segments with
  | nil => rwa [Except.ok.inj hwalk]
  | cons segment rest =>
    obtain ⟨next, hstep, -⟩ := walk_cons_eq_ok_iff.mp hwalk
    exact h.keep_left location (step_eq_ok_iff.mp hstep).1

/-- **What leads to a kept location leads there in both.** -/
theorem walk_of_alike (h : Alike keep fs fs') (hkeep : keep place = true)
    (hwalk : fs.walk location segments = .ok place) : fs'.walk location segments = .ok place := by
  induction segments generalizing location with
  | nil => exact hwalk
  | cons segment rest ih =>
    obtain ⟨next, hstep, hrest⟩ := walk_cons_eq_ok_iff.mp hwalk
    -- the rest of the walk starts at the next place, so that this is kept too
    have hnext : keep next = true := keep_of_walk h hkeep hrest
    exact walk_cons_eq_ok_iff.mpr ⟨next, step_of_alike h hnext hstep, ih hrest⟩

theorem resolve_of_alike (h : Alike keep fs fs') (hkeep : keep place = true)
    (hres : fs.resolve path = .ok place) : fs'.resolve path = .ok place := by
  obtain ⟨hfault, hwalk⟩ := resolve_eq_ok_iff.mp hres
  have hstart : fs'.start path = fs.start path := by
    rw [start, start, h.workingDirectory]
  refine resolve_eq_ok_iff.mpr ⟨hfault, ?_⟩
  rw [hstart]
  exact walk_of_alike h hkeep hwalk

end FileSystem

end DocCoverage
