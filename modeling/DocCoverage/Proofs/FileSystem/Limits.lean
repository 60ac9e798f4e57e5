import DocCoverage.Proofs.FileSystem.Along
import DocCoverage.Proofs.Path.Name
import Mathlib.Algebra.GroupWithZero.Nat
/-!
# File systems — limits on paths

How long the path of a location is can be counted from its names
(`utf8ByteSize_ofLocation`), and joining makes paths longer. What is joined can
be a path if more can be (`pathFault?_join_of_suffix`). Nothing is read at a
path that is too long, whatever stands where it leads (`content?_of_long`). A
tree can be so far away that its root is a path and its file is none
(`apart`).
-/

namespace DocCoverage

namespace Path

variable {path next : Path} {names : List String} {c : Char}

theorem utf8ByteSize_ofLocation (hne : names ≠ []) :
    (ofLocation names).text.utf8ByteSize = (names.map fun name => name.utf8ByteSize + 1).sum := by
  have hslash : "/".utf8ByteSize = 1 := rfl
  rw [ofLocation, String.utf8ByteSize_append, hslash]
  induction names with
  | nil => exact absurd rfl hne
  | cons name rest ih =>
    cases rest with
    | nil =>
      rw [String.intercalate_singleton, List.map_singleton, List.sum_singleton, Nat.add_comm]
    | cons next more =>
      have hrest := ih (List.cons_ne_nil _ _)
      rw [String.intercalate_cons_cons, String.utf8ByteSize_append, String.utf8ByteSize_append,
        hslash, List.map_cons, List.sum_cons, ← hrest]
      omega

/-- Of the characters of a location all but the slashes are those of its
names. -/
theorem mem_of_mem_ofLocation (h : c ∈ (ofLocation names).text.toList) (hslash : c ≠ '/') :
    ∃ name ∈ names, c ∈ name.toList := by
  rw [ofLocation, String.toList_append, List.mem_append] at h
  rcases h with h | h
  · exact absurd (List.mem_singleton.mp h) hslash
  · rcases Text.mem_of_mem_intercalate h with h | h
    · exact absurd (List.mem_singleton.mp h) hslash
    · exact h

/-- What is joined stands behind the path, or behind it and a slash. -/
theorem exists_join (path : Path) : ∃ front : String, (path.text ≠ "" → front ≠ "") ∧
    path.text.utf8ByteSize ≤ front.utf8ByteSize ∧
      ∀ next : Path, next.isAbsolute = false → (path.join next).text = front ++ next.text := by
  by_cases hopen : (path.text.isEmpty || path.text.toList.getLast? == some '/') = true
  · refine ⟨path.text, id, Nat.le_refl _, fun next hnext => ?_⟩
    rw [join, hnext, if_neg Bool.false_ne_true, if_pos hopen]
  · refine ⟨path.text ++ "/", fun h => by simp [h], ?_, fun next hnext => ?_⟩
    · rw [String.utf8ByteSize_append]
      exact Nat.le_add_right _ _
    · rw [join, hnext, if_neg Bool.false_ne_true, if_neg hopen]

/-- What is joined is at least as long as its parts. -/
theorem utf8ByteSize_join_ge (hnext : next.isAbsolute = false) :
    path.text.utf8ByteSize + next.text.utf8ByteSize ≤ (path.join next).text.utf8ByteSize := by
  obtain ⟨front, -, hfront, hjoin⟩ := exists_join path
  rw [hjoin next hnext, String.utf8ByteSize_append]
  exact Nat.add_le_add_right hfront _

end Path

namespace FileSystem

variable {fs : FileSystem} {path : Path}

theorem pathFault?_eq_none_iff : pathFault? path = none ↔
    path.text ≠ "" ∧ '\x00' ∉ path.text.toList ∧ path.text.utf8ByteSize ≤ longestPath := by
  rw [pathFault?]
  split
  next hempty => simp [hempty]
  next hempty =>
    split
    next hnull => simp [List.contains_iff_mem.mp hnull]
    next hnull =>
      rw [List.contains_iff_mem] at hnull
      split
      next hlong => simp [hlong]
      next hlong => simp [hempty, hnull, Nat.not_lt.mp hlong]

/-- What is joined can be a path if more can be joined in front of it. -/
theorem pathFault?_join_of_suffix {next more : Path} (hpath : path.text ≠ "")
    (hnext : next.isAbsolute = false) (hmore : more.isAbsolute = false)
    (hsuffix : next.text.toList <:+ more.text.toList)
    (h : pathFault? (path.join more) = none) : pathFault? (path.join next) = none := by
  obtain ⟨front, hfront, -, hjoin⟩ := Path.exists_join path
  obtain ⟨before, hbefore⟩ := hsuffix
  have htext : more.text = String.ofList before ++ next.text := by
    rw [← String.toList_inj, String.toList_append, String.toList_ofList, hbefore]
  rw [pathFault?_eq_none_iff, hjoin more hmore, htext] at h
  rw [pathFault?_eq_none_iff, hjoin next hnext]
  obtain ⟨-, hnull, hlong⟩ := h
  simp only [String.toList_append, List.mem_append, not_or] at hnull ⊢
  simp only [String.utf8ByteSize_append] at hlong ⊢
  exact ⟨by simp [hfront hpath], ⟨hnull.1, hnull.2.2⟩, by omega⟩

/-- Nothing is read at a path that is too long. -/
theorem content?_of_long (h : longestPath < path.text.utf8ByteSize) : fs.content? path = none := by
  rw [content?_eq, unlessFault, if_neg]
  intro hfault
  exact Nat.not_le.mpr h (pathFault?_eq_none_iff.mp hfault).2.2

/-! ## Far away -/

/-- What is below the roots of which one is far away. -/
def tree : Listing := .directory "services" (.file "a.ts" (.text "") .nothing) .nothing

/-- A name of dashes. -/
def dashes (n : ℕ) : String := String.ofList (List.replicate n '-')

theorem eq_of_mem_dashes {n : ℕ} {c : Char} (h : c ∈ (dashes n).toList) : c = '-' := by
  rw [dashes, String.toList_ofList] at h
  exact List.eq_of_mem_replicate h

theorem utf8ByteSize_dashes (n : ℕ) : (dashes n).utf8ByteSize = n := by
  induction n with
  | zero => rfl
  | succ n ih =>
    have hcons : dashes (n + 1) = String.singleton '-' ++ dashes n := by
      rw [dashes, List.replicate_succ, ← String.toList_inj, String.toList_append, dashes,
        String.toList_ofList, String.toList_ofList, String.toList_singleton, List.singleton_append]
    rw [hcons, String.utf8ByteSize_append, ih, String.utf8ByteSize_singleton, Nat.add_comm]
    rfl

theorem isName_dashes {n : ℕ} (hpos : 0 < n) (hshort : n ≤ longestName) :
    Listing.isName (dashes n) = true := by
  have hne {name : String} (h : '.' ∈ name.toList) : dashes n ≠ name := by
    rintro rfl
    exact absurd (eq_of_mem_dashes h) (by decide)
  refine Listing.isName_iff.mpr ⟨?_, hne (by decide), hne (by decide), ?_, ?_⟩
  · intro hempty
    have hsize := utf8ByteSize_dashes n
    rw [hempty, String.utf8ByteSize_empty] at hsize
    omega
  · exact fun hslash => absurd (eq_of_mem_dashes hslash) (by decide)
  · rw [isTooLong, utf8ByteSize_dashes, decide_eq_false_iff_not]
    omega

/-- The way to a root that is as far away as a path can lead. -/
def farAway : Location := "b" :: (List.replicate 15 (dashes 255) ++ [dashes 249])

theorem isName_of_mem_farAway {name : String} (h : name ∈ farAway) :
    Listing.isName name = true := by
  rcases List.mem_cons.mp h with rfl | h
  · decide
  · rcases List.mem_append.mp h with h | h
    · rw [List.eq_of_mem_replicate h]
      exact isName_dashes (by decide) (by decide)
    · rw [List.mem_singleton.mp h]
      exact isName_dashes (by decide) (by decide)

/-- Nothing but directories on a way to a tree. -/
def nested : Location → Listing
  | [] => tree
  | name :: rest => .directory name (nested rest) .nothing

theorem listing?_nested (way : Location) : (nested way).listing? way = some tree := by
  induction way with
  | nil => rfl
  | cons name rest ih =>
    rw [Listing.listing?_cons, nested, Listing.member?, if_pos rfl]
    exact ih

theorem ordered_nested (way : Location) : (nested way).Ordered := by
  induction way with
  | nil => simp [nested, tree, Listing.Ordered, Listing.names]
  | cons name rest ih => exact ⟨fun _ h => absurd h List.not_mem_nil, ih, trivial⟩

theorem named_nested {way : Location} (h : ∀ name ∈ way, Listing.isName name = true) :
    (nested way).Named := by
  induction way with
  | nil => exact ⟨by decide, ⟨by decide, trivial⟩, trivial⟩
  | cons name rest ih =>
    obtain ⟨hname, hrest⟩ := List.forall_mem_cons.mp h
    exact ⟨hname, ih hrest, trivial⟩

/-- The same tree below two roots, of which one is far away. -/
def apart : FileSystem where
  root := .directory "a" tree (nested farAway)
  workingDirectory := []
  ordered := ⟨List.forall_mem_singleton.mpr (by decide), ordered_nested [], ordered_nested farAway⟩
  named := ⟨by decide, named_nested (List.forall_mem_nil _),
    named_nested fun _ => isName_of_mem_farAway⟩

theorem listing?_farAway : apart.root.listing? farAway = some tree := listing?_nested farAway

theorem utf8ByteSize_farAway : (Path.ofLocation farAway).text.utf8ByteSize = 4092 := by
  have hne : farAway ≠ [] := List.cons_ne_nil _ _
  have hfirst : "b".utf8ByteSize = 1 := rfl
  rw [Path.utf8ByteSize_ofLocation hne, farAway, List.map_cons, List.map_append, List.map_replicate,
    List.map_singleton, List.sum_cons, List.sum_append, List.sum_replicate_nat, List.sum_singleton,
    utf8ByteSize_dashes, utf8ByteSize_dashes, hfirst]

theorem pathFault?_farAway : pathFault? (Path.ofLocation farAway) = none := by
  refine pathFault?_eq_none_iff.mpr ⟨?_, ?_, ?_⟩
  · intro hempty
    have hsize := utf8ByteSize_farAway
    rw [hempty] at hsize
    contradiction
  · intro hnull
    obtain ⟨name, hname, hin⟩ := Path.mem_of_mem_ofLocation hnull (by decide)
    rcases List.mem_cons.mp hname with rfl | hname
    · exact absurd hin (by decide)
    · obtain ⟨n, rfl⟩ : ∃ n, name = dashes n := by
        rcases List.mem_append.mp hname with hname | hname
        · exact ⟨_, List.eq_of_mem_replicate hname⟩
        · exact ⟨_, List.mem_singleton.mp hname⟩
      exact absurd (eq_of_mem_dashes hin) (by decide)
  · rw [utf8ByteSize_farAway]
    decide

theorem entry?_farAway (more : Location) : apart.entry? (farAway ++ more) = tree.entry? more :=
  Listing.entry?_append listing?_farAway more

theorem resolve_farAway : apart.resolve (Path.ofLocation farAway) = .ok farAway := by
  refine resolve_ofLocation ?_ pathFault?_farAway
  rw [← List.append_nil farAway, entry?_farAway]
  rfl

/-- The file is there, far away. -/
theorem contentFrom?_farAway :
    apart.contentFrom? farAway ["services", "a.ts"] = some (.text "") := by
  have hentry := entry?_farAway ["services", "a.ts"]
  refine contentFrom?_eq_some_iff.mpr ⟨_, walk_names (by decide) fun _ => ?_, ?_⟩
  · rw [hentry]
    rfl
  · rw [contentAt?, hentry]
    rfl

/-- But no path leads to it. -/
theorem longestPath_lt_farAway :
    longestPath < ((Path.ofLocation farAway).join ⟨"services/a.ts"⟩).text.utf8ByteSize := by
  refine Nat.lt_of_lt_of_le ?_ (Path.utf8ByteSize_join_ge (by decide))
  rw [utf8ByteSize_farAway]
  decide

end FileSystem

end DocCoverage
