import DocCoverage.FileSystem.Writing
import DocCoverage.Proofs.FileSystem.Walking
/-!
# File systems — reading what was written

Writing a file changes what stands at one location, to which the way leads
that was written (`resolve_writeFile`). The file systems before and after are
alike wherever something stood before, so that whatever led somewhere still
leads there, and reading gives what was written (`readText?_writeFile`).
-/

namespace DocCoverage

namespace FileSystem

variable {fs fs' : FileSystem} {location place : Location} {path : Path}

/-! ## Writing -/

theorem put_of_isName {directory : Location} {name : String} {entry : Entry}
    (hdir : fs.entry? directory = some .directory) (hname : Listing.isName name = true) :
    (fs.put (directory ++ [name]) entry).root = fs.root.put entry (directory ++ [name]) ∧
      (fs.put (directory ++ [name]) entry).workingDirectory = fs.workingDirectory := by
  have hnames : ∀ part ∈ directory ++ [name], Listing.isName part = true := by
    intro part hpart
    rcases List.mem_append.mp hpart with hpart | hpart
    · exact isName_of_entry? (by rw [hdir]; rfl) part hpart
    · rw [List.mem_singleton.mp hpart]
      exact hname
  rw [put, dif_pos hnames]
  exact ⟨rfl, rfl⟩

theorem entry?_put {directory : Location} {name : String} {entry : Entry}
    (hdir : fs.entry? directory = some .directory) (hname : Listing.isName name = true)
    (hfree : fs.entry? (directory ++ [name]) ≠ some .directory) (location : Location) :
    entry? (fs.put (directory ++ [name]) entry) location =
      if location = directory ++ [name] then some entry else fs.entry? location := by
  unfold entry?
  rw [(put_of_isName hdir hname).1]
  exact Listing.entry?_put hdir hfree location

/-- A file that is put into a directory leaves alike all that is not the
place of a new file. -/
theorem alike_put {directory : Location} {name : String} {content : Content}
    (hdir : fs.entry? directory = some .directory) (hname : Listing.isName name = true)
    (hfree : fs.entry? (directory ++ [name]) ≠ some .directory) :
    Alike (fun location => location != directory ++ [name] || (fs.entry? location).isSome) fs
      (fs.put (directory ++ [name]) (.file content)) where
  workingDirectory := (put_of_isName hdir hname).2.symm
  kind location hkeep := by
    rw [entry?_put hdir hname hfree]
    split
    next heq =>
      -- the place itself is kept only if a file was there before
      subst heq
      rw [bne_self_eq_false, Bool.false_or] at hkeep
      obtain ⟨entry, hentry⟩ := Option.isSome_iff_exists.mp hkeep
      rw [hentry] at hfree ⊢
      cases entry with
      | directory => exact absurd rfl hfree
      | file old => rfl
    · rfl
  keep_left location hat := by
    rw [hat, Option.isSome_some, Bool.or_true]
  keep_right location hat := by
    rw [entry?_put hdir hname hfree] at hat
    split at hat
    · cases hat
    next hne => rw [bne_iff_ne.mpr hne, Bool.true_or]

/-- A path that does not end with a slash has a name behind the last one. -/
theorem getLast?_segments (htext : path.text ≠ "") (hslash : endsWithSlash path = false) :
    path.segments.getLast? ≠ some "" := by
  rw [endsWithSlash] at hslash
  rcases List.eq_nil_or_concat path.text.toList with hnil | ⟨front, last, hlist⟩
  · exact absurd (String.toList_eq_nil_iff.mp hnil) htext
  -- the last character is no slash, so it belongs to the last piece
  · have hlast : (last == '/') = false := by
      rw [hlist, List.concat_eq_append, List.getLast?_concat] at hslash
      exact hslash
    rw [Path.segments, Text.cutAt, hlist, List.concat_eq_append, List.getLast?_map]
    intro hempty
    obtain ⟨piece, hpiece, htext⟩ := Option.map_eq_some_iff.mp hempty
    obtain rfl : piece = [] := by simpa using htext
    have hlast_piece := @Text.getLast?_pieces_concat (· == '/') front last hlast
    exact hlast_piece hpiece

theorem segmentsOf_of_getLast? (h : path.segments.getLast? ≠ some "") :
    segmentsOf path = path.segments := by
  rw [segmentsOf]
  rcases List.eq_nil_or_concat path.segments with hnil | ⟨front, last, hsegments⟩
  · rw [hnil]
    rfl
  · rw [hsegments, List.concat_eq_append] at h ⊢
    rw [List.getLast?_concat] at h
    have hlast : (last == "") = false := by
      rw [beq_eq_false_iff_ne]
      exact fun hempty => h (congrArg some hempty)
    rw [List.reverse_append, List.reverse_singleton, List.singleton_append, List.dropWhile_cons,
      hlast, if_neg Bool.false_ne_true, List.reverse_cons, List.reverse_reverse]

theorem ending_eq_named {directory : Location} {name : String}
    (h : fs.ending path = .ok (.named directory name)) :
    pathFault? path = none ∧ (segmentsOf path).getLast? = some name ∧
      fs.walk (fs.start path) (segmentsOf path).dropLast = .ok directory ∧
      fs.entry? directory = some .directory ∧ ¬ (name = "." ∨ name = "..") := by
  rw [ending] at h
  split at h
  · cases h
  next hfault =>
    split at h
    · cases h
    next last hlast =>
      split at h
      · cases h
      next place hwalk =>
        split at h
        · cases h
        · cases h
        next hdir =>
          split at h
          · cases h
          next hdots =>
            obtain ⟨rfl, rfl⟩ := Ending.named.inj (Except.ok.inj h)
            exact ⟨hfault, hlast, hwalk, hdir, hdots⟩

/-- What is looked at before a file is written. -/
theorem named_of_writeFile {content : Content} (h : fs.writeFile path content = .ok fs') :
    ∃ directory name, fs.ending path = .ok (.named directory name) ∧
      endsWithSlash path = false ∧ fs.isDirectoryAt (directory ++ [name]) = false ∧
      isTooLong name = false ∧ fs' = fs.put (directory ++ [name]) (.file content) := by
  rw [writeFile] at h
  split at h
  · cases h
  · cases h
  next directory name hending =>
    split at h
    · cases h
    next hfree =>
      split at h
      · cases h
      next hlong =>
        rw [Bool.or_eq_true, not_or, Bool.not_eq_true, Bool.not_eq_true] at hfree
        exact ⟨directory, name, hending, hfree.1, hfree.2, Bool.eq_false_iff.mpr hlong,
          (Except.ok.inj h).symm⟩

/-- **Where a file is written.** The way to its directory is there, nothing
but a file is in its place, and that is all that changes. -/
theorem writeFile_eq_ok {content : Content} (h : fs.writeFile path content = .ok fs') :
    ∃ directory name, pathFault? path = none ∧ Listing.isName name = true ∧
      isTooLong name = false ∧ path.segments = path.segments.dropLast ++ [name] ∧
      fs.walk (fs.start path) path.segments.dropLast = .ok directory ∧
      fs.entry? directory = some .directory ∧
      fs.entry? (directory ++ [name]) ≠ some .directory ∧
      fs' = fs.put (directory ++ [name]) (.file content) := by
  obtain ⟨directory, name, hending, hslash, hfree, hlong, rfl⟩ := named_of_writeFile h
  obtain ⟨hfault, hname, hwalk, hdir, hdots⟩ := ending_eq_named hending
  have htext : path.text ≠ "" := by
    intro hempty
    rw [pathFault?, if_pos hempty] at hfault
    cases hfault
  -- the path does not end with a slash, so that no segment of it is left out
  have hlast := getLast?_segments htext hslash
  rw [segmentsOf_of_getLast? hlast] at hname hwalk
  have hempty : name ≠ "" := fun hempty => hlast (hempty ▸ hname)
  have hnot : '/' ∉ name.toList :=
    Path.slash_not_mem_of_mem_segments (List.mem_of_getLast? hname)
  refine ⟨directory, name, hfault, ?_, hlong, ?_, hwalk, hdir, ?_, rfl⟩
  · exact Listing.isName_iff.mpr
      ⟨hempty, fun hdot => hdots (.inl hdot), fun hdot => hdots (.inr hdot), hnot, hlong⟩
  · exact (List.dropLast_append_getLast? name hname).symm
  · intro hat
    rw [isDirectoryAt, hat] at hfree
    cases hfree

/-- **What was written is where the path leads**, and all else is as it was.
Wherever something stood before, the file systems are alike. -/
theorem resolve_writeFile {content : Content} (h : fs.writeFile path content = .ok fs') :
    ∃ location keep, fs'.resolve path = .ok location ∧ Alike keep fs fs' ∧
      (∀ other, (fs.entry? other).isSome → keep other = true) ∧
      ∀ other, fs'.entry? other =
        if other = location then some (.file content) else fs.entry? other := by
  obtain ⟨directory, name, hfault, hname, hlong, hsegments, hwalk, hdir, hfree, rfl⟩ :=
    writeFile_eq_ok h
  have halike := @alike_put fs directory name content hdir hname hfree
  obtain ⟨hempty, hdot, hdots, -⟩ := Listing.isName_iff.mp hname
  have hpresent (other : Location) (hsome : (fs.entry? other).isSome) :
      (other != directory ++ [name] || (fs.entry? other).isSome) = true := by
    rw [hsome, Bool.or_true]
  refine ⟨directory ++ [name], _, ?_, halike, hpresent, entry?_put hdir hname hfree⟩
  have hentry : entry? (fs.put (directory ++ [name]) (.file content)) (directory ++ [name]) =
      some (.file content) := by
    rw [entry?_put hdir hname hfree, if_pos rfl]
  -- the way to the directory is kept, and the last step finds what was put there
  have hstep : (fs.put (directory ++ [name]) (.file content)).step directory name =
      .ok (directory ++ [name]) := by
    rw [step_eq_ok_iff, if_neg (by simp [hempty, hdot]), if_neg hdots]
    exact ⟨halike.directory_iff.mp hdir, hlong, by rw [hentry]; rfl, rfl⟩
  have hstart : (fs.put (directory ++ [name]) (.file content)).start path = fs.start path := by
    rw [start, start, halike.workingDirectory]
  have hfront : (fs.put (directory ++ [name]) (.file content)).walk (fs.start path)
      path.segments.dropLast = .ok directory :=
    walk_of_alike halike (hpresent directory (by rw [hdir]; rfl)) hwalk
  refine resolve_eq_ok_iff.mpr ⟨hfault, ?_⟩
  rw [hstart, hsegments, walk_append, hfront]
  change (fs.put _ _).walk directory [name] = _
  rw [walk, hstep]
  rfl

/-- **Reading gives what was written.** -/
theorem readText?_writeFile {text : String} (h : fs.writeFile path (.text text) = .ok fs') :
    fs'.readText? path = some text := by
  obtain ⟨location, -, hres, -, -, hentry⟩ := resolve_writeFile h
  rw [readText?, content?, lookUp?_of_resolve hres, hentry, if_pos rfl]
  rfl

/-- The same holds if the directories above are made first. -/
theorem readText?_writeBelow {text : String} (h : fs.writeBelow path (.text text) = (fs', none)) :
    fs'.readText? path = some text := by
  unfold writeBelow at h
  split at h
  next => cases (Prod.mk.inj h).2
  next made hmade =>
    split at h
    next written hwritten =>
      obtain rfl := (Prod.mk.inj h).1
      exact readText?_writeFile hwritten
    next => cases (Prod.mk.inj h).2

end FileSystem

end DocCoverage
