import DocCoverage.Proofs.FileSystem.Directory
import DocCoverage.Proofs.FileSystem.Limits
import DocCoverage.Proofs.FileSystem.Writing
/-!
# File systems — writing where the directory is there

Directories that are there are not made again, and nothing is changed
(`makeDirectories_of_isDirectory`). A path into a directory that is there has
this directory above it, however it is spelled, so that writing a file there
puts the file into the directory and does nothing else (`writeBelow_child`).
-/

namespace DocCoverage

namespace FileSystem

open DocCoverage.Path (Component isSilent withoutSilentEnd parentBelow ofSegments)

variable {fs : FileSystem} {base place location : Location} {root path other : Path}
  {segments front : List String} {name last : String} {creating : Bool} {content : Content}

/-! ## Making directories -/

/-- Where segments lead to a directory, nothing is to be made. -/
theorem makeAlong_of_walk (hwalk : fs.walk location segments = .ok place)
    (hdir : fs.entry? place = some .directory) :
    fs.makeAlong creating location segments = (fs, none) := by
  induction segments generalizing location with
  | nil => rfl
  | cons segment rest ih =>
    obtain ⟨next, hstep, hrest⟩ := walk_cons_eq_ok_iff.mp hwalk
    have hnext : fs.entry? next = some .directory := by
      cases rest with
      | nil => rwa [Except.ok.inj hrest]
      | cons second rest => exact entry?_of_walk_ok hrest (List.cons_ne_nil _ _)
    rw [makeAlong, hstep]
    dsimp only
    rw [isDirectoryAt, hnext, if_pos (beq_self_eq_true _)]
    exact ih hrest

theorem isDirectory_iff : fs.isDirectory path = true ↔
    ∃ place, fs.resolve path = .ok place ∧ fs.entry? place = some .directory := by
  rw [isDirectory, beq_iff_eq, lookUp?]
  cases fs.resolve path with
  | ok place => simp
  | error fault => simp

/-- The slashes at the end of a path can be left out. -/
theorem walk_segmentsOf (hwalk : fs.walk base path.segments = .ok place) :
    fs.walk base (segmentsOf path) = .ok place := by
  have hsplit : path.segments = segmentsOf path ++ path.segments.rtakeWhile (· == "") :=
    List.rdropWhile_append_rtakeWhile.symm
  rw [hsplit] at hwalk
  refine walk_of_append_silent (fun s hs => ?_) hwalk
  rw [isSilent, List.mem_rtakeWhile_imp hs, Bool.true_or]

/-- **Directories that are there are not made again.** -/
theorem makeDirectories_of_isDirectory (h : fs.isDirectory path = true) :
    fs.makeDirectories path = (fs, none) := by
  obtain ⟨place, hres, hdir⟩ := isDirectory_iff.mp h
  obtain ⟨hfault, hwalk⟩ := resolve_eq_ok_iff.mp hres
  have hstart : fs.entry? (fs.start path) = some .directory :=
    entry?_of_walk_ok hwalk path.segments_ne_nil
  rw [makeDirectories, if_neg (text_ne_of_resolve hres), hfault]
  dsimp only
  rw [isDirectoryAt, hstart, if_pos (beq_self_eq_true _)]
  exact makeAlong_of_walk (walk_segmentsOf hwalk) hdir

/-! ## The directory of a path -/

/-- What stands in front of a path can be a path if the path can. -/
theorem pathFault?_of_prefix (hfirsts : other.text.toList <+: path.text.toList)
    (htext : other.text ≠ "") (hfault : pathFault? path = none) : pathFault? other = none := by
  obtain ⟨-, hnull, hlong⟩ := pathFault?_eq_none_iff.mp hfault
  obtain ⟨more, hmore⟩ := hfirsts
  have hpath : path.text = other.text ++ String.ofList more := by
    rw [← String.toList_inj, String.toList_append, String.toList_ofList, hmore]
  refine pathFault?_eq_none_iff.mpr ⟨htext, fun hin => hnull ?_, ?_⟩
  · rw [hpath, String.toList_append]
    exact List.mem_append_left _ hin
  · rw [hpath, String.utf8ByteSize_append] at hlong
    exact Nat.le_trans (Nat.le_add_right _ _) hlong

/-- The first segments of a path make a path that leads where they lead. -/
theorem isDirectory_ofSegments (hfirsts : segments <+: path.segments) (hne : segments ≠ [])
    (hempty : segments ≠ [""]) (hfault : pathFault? path = none)
    (hwalk : fs.walk (fs.start path) segments = .ok base)
    (hdir : fs.entry? base = some .directory) : fs.isDirectory (ofSegments segments) = true := by
  have hsegments : (ofSegments segments).segments = segments :=
    Path.segments_ofSegments hne fun s hs => Path.slash_not_mem_of_mem_segments (hfirsts.mem hs)
  have htext : (ofSegments segments).text ≠ "" :=
    Path.text_ne_of_segments_ne (by rwa [hsegments])
  have hpath : path.text ≠ "" := (pathFault?_eq_none_iff.mp hfault).1
  have habsolute : (ofSegments segments).isAbsolute = path.isAbsolute := by
    obtain ⟨more, hmore⟩ := hfirsts
    rw [Bool.eq_iff_iff, Path.isAbsolute_iff_head? htext, Path.isAbsolute_iff_head? hpath,
      hsegments, ← hmore, List.head?_append_of_ne_nil _ hne]
  refine isDirectory_iff.mpr ⟨base, resolve_eq_ok_iff.mpr ⟨?_, ?_⟩, hdir⟩
  · exact pathFault?_of_prefix (Path.ofSegments_prefix hfirsts hne) htext hfault
  · rwa [start, habsolute, ← start, hsegments]

/-- The root has a path. -/
theorem isDirectory_slash (fs : FileSystem) : fs.isDirectory ⟨"/"⟩ = true := by
  have hslash : fs.step [] "" = .ok [] := rfl
  have hwalk : fs.walk [] ["", ""] = .ok [] :=
    walk_cons_eq_ok_iff.mpr ⟨[], hslash, walk_cons_eq_ok_iff.mpr ⟨[], hslash, rfl⟩⟩
  exact isDirectory_iff.mpr ⟨[], resolve_eq_ok_iff.mpr ⟨rfl, hwalk⟩, rfl⟩

/-- Of a path below a lead, the silent segments in front of the last can be
left out. -/
theorem isDirectory_withoutSilentEnd {lead : String} {named : List String}
    (hfirsts : lead :: named <+: path.segments) (hempty : lead :: withoutSilentEnd named ≠ [""])
    (hlead : isSilent lead = true) (hfault : pathFault? path = none)
    (hwalk : fs.walk (fs.start path) (lead :: named) = .ok base)
    (hdir : fs.entry? base = some .directory) :
    fs.isDirectory (ofSegments (lead :: withoutSilentEnd named)) = true := by
  have hstart := entry?_of_walk_ok hwalk (List.cons_ne_nil _ _)
  refine isDirectory_ofSegments ?_ (List.cons_ne_nil _ _) hempty hfault ?_ hdir
  · exact (List.cons_prefix_cons.mpr ⟨rfl, Path.withoutSilentEnd_prefix named⟩).trans hfirsts
  · rw [walk_silent_cons hlead hstart] at hwalk ⊢
    exact walk_withoutSilentEnd hwalk

/-- **The directory of a path** whose last segment is a name is where the
segments in front of it lead, or nothing at all for a bare name. -/
theorem directory_isDirectory (hsegments : path.segments = front ++ [last])
    (hlast : isSilent last = false) (hfault : pathFault? path = none)
    (hwalk : fs.walk (fs.start path) front = .ok base) (hdir : fs.entry? base = some .directory) :
    path.directory.text = "" ∨ fs.isDirectory path.directory = true := by
  -- a lead says nothing, so that it is not the last segment
  have hlead {lead : String} (hsilent : isSilent lead = true)
      (hcons : path.segments = lead :: path.body) :
      ∃ named, path.body = named ++ [last] ∧ front = lead :: named := by
    rw [hcons] at hsegments
    cases front with
    | nil =>
      rw [(List.cons.inj hsegments).1, hlast] at hsilent
      cases hsilent
    | cons first rest =>
      obtain ⟨rfl, hbody⟩ := List.cons.inj hsegments
      exact ⟨rest, hbody, rfl⟩
  have hfirsts : front <+: path.segments := ⟨[last], hsegments.symm⟩
  rcases Path.lead?_cases path with ⟨hnone, hbody⟩ | ⟨hempty, hbody⟩ | ⟨hdot, hbody⟩
  · rw [Path.directory, Path.parent?_eq (hbody.trans hsegments) hlast, hnone, Option.getD_some]
    by_cases hnil : withoutSilentEnd front = []
    · rw [hnil]
      exact .inl rfl
    · exact .inr (isDirectory_ofSegments ((Path.withoutSilentEnd_prefix front).trans hfirsts) hnil
        (Path.withoutSilentEnd_ne front) hfault (walk_withoutSilentEnd hwalk) hdir)
  · obtain ⟨named, hnamed, rfl⟩ := hlead rfl hbody
    rw [Path.directory, Path.parent?_eq hnamed hlast, hempty, Option.getD_some]
    cases hrest : withoutSilentEnd named with
    | nil => exact .inr (isDirectory_slash fs)
    | cons first rest =>
      have hbelow := isDirectory_withoutSilentEnd hfirsts (by simp [hrest]) rfl hfault hwalk hdir
      rw [hrest] at hbelow
      exact .inr hbelow
  · obtain ⟨named, hnamed, rfl⟩ := hlead rfl hbody
    rw [Path.directory, Path.parent?_eq hnamed hlast, hdot, Option.getD_some]
    exact .inr (isDirectory_withoutSilentEnd hfirsts (by simp) rfl hfault hwalk hdir)

/-! ## Writing into a directory -/

/-- Behind a slash at the end of a path there is an empty segment. -/
theorem getLast?_segments_of_slash (h : endsWithSlash path = true) :
    path.segments.getLast? = some "" := by
  obtain ⟨front, hfront⟩ := List.getLast?_eq_some_iff.mp (beq_iff_eq.mp h)
  have hcut := Path.segments_append_slash front []
  rw [← hfront, String.ofList_toList] at hcut
  rw [show path.segments = _ from hcut]
  exact List.getLast?_concat ..

/-- A name says something. -/
theorem isSilent_of_isName (hname : Listing.isName name = true) : isSilent name = false := by
  obtain ⟨hempty, hdot, -⟩ := Listing.isName_iff.mp hname
  simp [isSilent, hempty, hdot]

section Child

variable (hroot : fs.resolve root = .ok base) (hname : Listing.isName name = true)
include hroot hname

/-- A name below a path is the last segment behind segments that lead where
the path leads. -/
theorem exists_front_of_child : ∃ front, (root.child name).segments = front ++ [name] ∧
    fs.walk (fs.start (root.child name)) front = .ok base := by
  have hslash := (Listing.isName_iff.mp hname).2.2.2.1
  have hnext := Path.isAbsolute_of_slash_not_mem hslash
  have htext := text_ne_of_resolve hroot
  obtain ⟨-, hwalk⟩ := resolve_eq_ok_iff.mp hroot
  obtain ⟨front, hfront, hjoin⟩ := Path.segments_join htext hnext
  rw [Path.segments_of_slash_not_mem hslash] at hjoin
  refine ⟨front, hjoin, ?_⟩
  rw [Path.child, start, Path.isAbsolute_join htext hnext, ← start]
  rcases hfront with hfront | hfront
  · rwa [← hfront]
  · rw [hfront] at hwalk
    refine walk_of_append_silent (fun s hs => ?_) hwalk
    rw [List.mem_singleton.mp hs]
    rfl

variable (hdir : fs.entry? base = some .directory)
  (hfault : pathFault? (root.child name) = none)
include hdir hfault

/-- **A file is written into a directory that is there** and nothing else is
changed, unless a directory stands in its place. -/
theorem writeBelow_child (hfree : fs.entry? (base ++ [name]) ≠ some .directory) :
    fs.writeBelow (root.child name) content = (fs.put (base ++ [name]) (.file content), none) := by
  obtain ⟨front, hsegments, hwalk⟩ := exists_front_of_child hroot hname
  obtain ⟨hempty, hdot, hdots, -, hlong⟩ := Listing.isName_iff.mp hname
  have hlast : (root.child name).segments.getLast? = some name := by
    rw [hsegments, List.getLast?_concat]
  have hmade : fs.makeDirectories (root.child name).directory = (fs, none) := by
    rcases directory_isDirectory hsegments (isSilent_of_isName hname) hfault hwalk hdir with
      htext | hthere
    · rw [makeDirectories, if_pos htext]
    · exact makeDirectories_of_isDirectory hthere
  have hnamed : segmentsOf (root.child name) = front ++ [name] := by
    rw [segmentsOf_of_getLast? (by rw [hlast]; simpa using hempty), hsegments]
  have hending : fs.ending (root.child name) = .ok (.named base name) := by
    rw [ending, hfault, hnamed, List.getLast?_concat, List.dropLast_concat]
    dsimp only
    rw [hwalk]
    dsimp only
    rw [hdir]
    dsimp only
    rw [if_neg (by simp [hdot, hdots])]
  have hopen : endsWithSlash (root.child name) = false := by
    rw [Bool.eq_false_iff]
    intro hslash
    rw [getLast?_segments_of_slash hslash] at hlast
    exact hempty (Option.some_inj.mp hlast).symm
  have hnew : fs.isDirectoryAt (base ++ [name]) = false := by
    rw [isDirectoryAt, beq_eq_false_iff_ne]
    exact hfree
  unfold writeBelow
  rw [hmade]
  dsimp only
  rw [writeFile, hending]
  dsimp only
  rw [hopen, hnew, Bool.or_false, if_neg Bool.false_ne_true, hlong, if_neg Bool.false_ne_true]

omit hdir hfault in
/-- A path to a name at which nothing stands leads nowhere. -/
theorem leadsSomewhere_child (hnone : fs.entry? (base ++ [name]) = none) :
    fs.leadsSomewhere (root.child name) = false := by
  have hslash := (Listing.isName_iff.mp hname).2.2.2.1
  rw [leadsSomewhere, Option.isSome_eq_false_iff, Option.isNone_iff_eq_none, lookUp?]
  split
  next place hres =>
    rw [resolve_eq_ok_iff, Path.child,
      walk_start_join hroot (Path.isAbsolute_of_slash_not_mem hslash)] at hres
    rw [walk_eq_along hres.2, Path.segments_of_slash_not_mem hslash,
      along_names (List.forall_mem_singleton.mpr hname), hnone]
  · rfl

end Child

/-- Putting something into a directory changes nothing elsewhere. -/
theorem sameElsewhere_put {entry : Entry} (hdir : fs.entry? base = some .directory)
    (hname : Listing.isName name = true) (hfree : fs.entry? (base ++ [name]) ≠ some .directory) :
    SameElsewhere fs (fs.put (base ++ [name]) entry) (base ++ [name]) where
  workingDirectory := (put_of_isName hdir hname).2.symm
  entry location hne := by rw [entry?_put hdir hname hfree, if_neg hne]

end FileSystem

end DocCoverage
