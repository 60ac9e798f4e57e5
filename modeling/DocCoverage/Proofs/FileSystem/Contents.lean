import DocCoverage.Proofs.FileSystem.Listing
import Mathlib.Data.List.Lex
import Mathlib.Data.List.Sort
import Mathlib.Data.String.Basic
/-!
# File systems — what is in a directory, and below

The names in a directory and the ways down from it are listed in strictly
increasing order, and they are those under which something stands
(`mem_children`, `mem_below`). What is listed is therefore known once it is
known what stands where.
-/

namespace DocCoverage

namespace Listing

variable {listing members : Listing} {name : String} {location more : Location}

/-! ## Names -/

theorem isName_iff : isName name = true ↔
    name ≠ "" ∧ name ≠ "." ∧ name ≠ ".." ∧ '/' ∉ name.toList ∧
      FileSystem.isTooLong name = false := by
  rw [isName, Bool.and_eq_true, Bool.and_eq_true, Bool.and_eq_true, Bool.and_eq_true, bne_iff_ne,
    bne_iff_ne, bne_iff_ne, Bool.not_eq_true', Bool.not_eq_true', ← Bool.not_eq_true (List.contains _ _),
    List.contains_iff_mem, and_assoc, and_assoc, and_assoc]

theorem isSome_member?_iff : (listing.member? name).isSome ↔ name ∈ listing.names := by
  induction listing with
  | nothing => simp [member?, names]
  | file first content rest ih | directory first inner rest _ ih =>
    rw [member?, names, List.mem_cons]
    split
    next heq => simp [heq]
    next hne => rw [ih, or_iff_right hne]

theorem isName_of_mem_names (named : listing.Named) (h : name ∈ listing.names) :
    isName name = true := by
  induction listing with
  | nothing => cases h
  | file first content rest ih =>
    rcases List.mem_cons.mp h with rfl | h
    · exact named.1
    · exact ih named.2 h
  | directory first inner rest _ ih =>
    rcases List.mem_cons.mp h with rfl | h
    · exact named.1
    · exact ih named.2.2 h

theorem named_of_member? (named : listing.Named)
    (h : listing.member? name = some (.directory members)) : members.Named := by
  induction listing with
  | nothing => cases h
  | file first content rest ih =>
    rw [member?] at h
    split at h
    · cases h
    · exact ih named.2 h
  | directory first inner rest _ ih =>
    rw [member?] at h
    split at h
    · obtain rfl : inner = members := by simpa using h
      exact named.2.1
    · exact ih named.2.2 h

theorem ordered_of_member? (ordered : listing.Ordered)
    (h : listing.member? name = some (.directory members)) : members.Ordered := by
  induction listing with
  | nothing => cases h
  | file first content rest ih =>
    rw [member?] at h
    split at h
    · cases h
    · exact ih ordered.2 h
  | directory first inner rest _ ih =>
    rw [member?] at h
    split at h
    · obtain rfl : inner = members := by simpa using h
      exact ordered.2.1
    · exact ih ordered.2.2 h

/-- Only names lead to something. -/
theorem isName_of_entry? (named : listing.Named) (h : (listing.entry? location).isSome) :
    ∀ name ∈ location, isName name = true := by
  induction location generalizing listing with
  | nil => exact fun _ hmem => absurd hmem List.not_mem_nil
  | cons first rest ih =>
    rw [entry?_cons] at h
    split at h
    · cases h
    next content hmember =>
      have hname := isName_of_mem_names named (isSome_member?_iff.mp (by rw [hmember]; rfl))
      cases rest with
      | nil => exact List.forall_mem_singleton.mpr hname
      | cons second rest => cases h
    next inner hmember =>
      have hname := isName_of_mem_names named (isSome_member?_iff.mp (by rw [hmember]; rfl))
      exact List.forall_mem_cons.mpr ⟨hname, ih (named_of_member? named hmember) h⟩

theorem pairwise_names (ordered : listing.Ordered) : listing.names.Pairwise (· < ·) := by
  induction listing with
  | nothing => exact List.Pairwise.nil
  | file first content rest ih => exact List.pairwise_cons.mpr ⟨ordered.1, ih ordered.2⟩
  | directory first inner rest _ ih => exact List.pairwise_cons.mpr ⟨ordered.1, ih ordered.2.2⟩

/-! ## The listing of a directory -/

theorem listing?_cons (listing : Listing) (name : String) (more : Location) :
    listing.listing? (name :: more) =
      match listing.member? name with
      | some (.directory members) => members.listing? more
      | _ => none := by
  cases hmember : listing.member? name with
  | none => simp only [listing?, hmember]
  | some member => cases member <;> simp only [listing?, hmember]

/-- A directory is what has a listing. -/
theorem listing?_eq_none_iff : listing.listing? location = none ↔
    listing.entry? location ≠ some .directory := by
  induction location generalizing listing with
  | nil => simp [listing?, entry?_nil]
  | cons first rest ih =>
    rw [listing?_cons, entry?_cons]
    cases hmember : listing.member? first with
    | none => simp
    | some member =>
      cases member with
      | file content => cases rest <;> simp
      | directory inner => exact ih

theorem ordered_of_listing? (ordered : listing.Ordered)
    (h : listing.listing? location = some members) : members.Ordered := by
  induction location generalizing listing with
  | nil =>
    obtain rfl : listing = members := by simpa [listing?] using h
    exact ordered
  | cons first rest ih =>
    rw [listing?_cons] at h
    split at h
    next inner hmember => exact ih (ordered_of_member? ordered hmember) h
    · cases h

/-- What is below a directory is what its listing has. -/
theorem entry?_append (h : listing.listing? location = some members) (more : Location) :
    listing.entry? (location ++ more) = members.entry? more := by
  induction location generalizing listing with
  | nil =>
    obtain rfl : listing = members := by simpa [listing?] using h
    rfl
  | cons first rest ih =>
    rw [listing?_cons] at h
    split at h
    next inner hmember =>
      rw [List.cons_append, entry?_cons, hmember]
      exact ih h
    · cases h

theorem isSome_entry?_singleton : (listing.entry? [name]).isSome ↔ name ∈ listing.names := by
  rw [entry?_cons, ← isSome_member?_iff]
  cases listing.member? name with
  | none => simp
  | some member =>
    cases member with
    | file content => simp
    | directory inner => simp [entry?_nil]

/-! ## Ways down -/

theorem entry?_of_not_mem_names (h : name ∉ listing.names) (more : Location) :
    listing.entry? (name :: more) = none := by
  rw [entry?_cons, Option.not_isSome_iff_eq_none.mp (mt isSome_member?_iff.mp h)]

theorem entry?_file (first name : String) (content : Content) (rest : Listing) (more : Location) :
    entry? (file first content rest) (name :: more) =
      if name = first then if more = [] then some (.file content) else none
      else rest.entry? (name :: more) := by
  by_cases hname : name = first
  · rw [if_pos hname]
    exact entry?_of_memberOf (by rw [member?, if_pos hname]; rfl)
  · rw [if_neg hname]
    exact entry?_congr (by rw [member?, if_neg hname])

theorem entry?_directory (first name : String) (inner rest : Listing) (more : Location) :
    entry? (directory first inner rest) (name :: more) =
      if name = first then inner.entry? more else rest.entry? (name :: more) := by
  by_cases hname : name = first
  · rw [entry?_cons, member?, if_pos hname, if_pos hname]
  · rw [if_neg hname]
    exact entry?_congr (by rw [member?, if_neg hname])

theorem head_of_mem_locations (h : location ∈ listing.locations) :
    ∃ name ∈ listing.names, ∃ more, location = name :: more := by
  induction listing with
  | nothing => cases h
  | file first content rest ih =>
    rcases List.mem_cons.mp h with rfl | h
    · exact ⟨first, List.mem_cons_self, [], rfl⟩
    · obtain ⟨name, hname, hmore⟩ := ih h
      exact ⟨name, List.mem_cons_of_mem _ hname, hmore⟩
  | directory first inner rest _ ih =>
    rcases List.mem_cons.mp h with rfl | h
    · exact ⟨first, List.mem_cons_self, [], rfl⟩
    · rcases List.mem_append.mp h with h | h
      · obtain ⟨more, -, rfl⟩ := List.mem_map.mp h
        exact ⟨first, List.mem_cons_self, more, rfl⟩
      · obtain ⟨name, hname, hmore⟩ := ih h
        exact ⟨name, List.mem_cons_of_mem _ hname, hmore⟩

/-- The ways down are those that lead to something. -/
theorem mem_locations (ordered : listing.Ordered) :
    location ∈ listing.locations ↔ location ≠ [] ∧ (listing.entry? location).isSome := by
  induction listing generalizing location with
  | nothing =>
    cases location with
    | nil => simp [locations]
    | cons name more => simp [locations, entry?_cons, member?]
  | file first content rest ih =>
    have hnew : first ∉ rest.names := fun hmem => lt_irrefl _ (ordered.1 first hmem)
    cases location with
    | nil => simp [locations, ih ordered.2]
    | cons name more =>
      -- names increase, so that the first one is not among the rest
      rw [locations, List.mem_cons, ih ordered.2, entry?_file]
      by_cases hname : name = first
      · subst hname
        rw [entry?_of_not_mem_names hnew, if_pos rfl]
        cases more <;> simp
      · rw [if_neg hname]
        simp [hname]
  | directory first inner rest ihi ih =>
    have hnew : first ∉ rest.names := fun hmem => lt_irrefl _ (ordered.1 first hmem)
    cases location with
    | nil => simp [locations, ih ordered.2.2]
    | cons name more =>
      rw [locations, List.mem_cons, List.mem_append, List.mem_map, ih ordered.2.2, entry?_directory]
      by_cases hname : name = first
      · subst hname
        rw [entry?_of_not_mem_names hnew, if_pos rfl]
        simp only [List.cons.injEq, true_and, exists_eq_right, ihi ordered.2.1]
        cases more with
        | nil => simp [entry?_nil]
        | cons next more => simp
      · rw [if_neg hname]
        simp [hname, Ne.symm hname]

/-- Each directory is listed before what is below it, and that before what
has a greater name. -/
theorem pairwise_locations (ordered : listing.Ordered) : listing.locations.Pairwise (· < ·) := by
  induction listing with
  | nothing => exact List.Pairwise.nil
  | file first content rest ih =>
    refine List.pairwise_cons.mpr ⟨fun way hway => ?_, ih ordered.2⟩
    obtain ⟨name, hname, more, rfl⟩ := head_of_mem_locations hway
    exact List.cons_lt_cons_iff.mpr (.inl (ordered.1 name hname))
  | directory first inner rest ihi ih =>
    have hrest : ∀ more, ∀ way ∈ rest.locations, first :: more < way := by
      intro more way hway
      obtain ⟨name, hname, behind, rfl⟩ := head_of_mem_locations hway
      exact List.cons_lt_cons_iff.mpr (.inl (ordered.1 name hname))
    refine List.pairwise_cons.mpr ⟨fun way hway => ?_, List.pairwise_append.mpr ⟨?_, ?_, ?_⟩⟩
    · rcases List.mem_append.mp hway with hway | hway
      · obtain ⟨more, hmore, rfl⟩ := List.mem_map.mp hway
        obtain ⟨name, -, behind, rfl⟩ := head_of_mem_locations hmore
        exact List.cons_lt_cons_iff.mpr (.inr ⟨rfl, List.nil_lt_cons _ _⟩)
      · exact hrest [] way hway
    · refine List.pairwise_map.mpr ((ihi ordered.2.1).imp fun hlt => ?_)
      exact List.cons_lt_cons_iff.mpr (.inr ⟨rfl, hlt⟩)
    · exact ih ordered.2.2
    · intro way hway other hother
      obtain ⟨more, -, rfl⟩ := List.mem_map.mp hway
      exact hrest more other hother

end Listing

namespace FileSystem

variable {fs : FileSystem} {location way : Location} {name : String}

/-- Only names lead to something. -/
theorem isName_of_entry? (h : (fs.entry? location).isSome) :
    ∀ name ∈ location, Listing.isName name = true :=
  Listing.isName_of_entry? fs.named h

/-- Below a place without a directory there is nothing. -/
theorem entry?_append_of_ne_directory (hway : way ≠ [])
    (h : fs.entry? location ≠ some .directory) : fs.entry? (location ++ way) = none :=
  Listing.entry?_append_of_ne_directory hway h

/-- **The names in a directory are those under which something stands.** -/
theorem mem_children : name ∈ fs.children location ↔ (fs.entry? (location ++ [name])).isSome := by
  rw [children]
  cases hlisting : fs.root.listing? location with
  | none =>
    have hnone : fs.entry? (location ++ [name]) = none :=
      entry?_append_of_ne_directory (by simp) (Listing.listing?_eq_none_iff.mp hlisting)
    simp [hnone]
  | some members =>
    have hentry : fs.entry? (location ++ [name]) = members.entry? [name] :=
      Listing.entry?_append hlisting [name]
    rw [hentry, Listing.isSome_entry?_singleton]
    rfl

theorem pairwise_children (fs : FileSystem) (location : Location) :
    (fs.children location).Pairwise (· < ·) := by
  rw [children]
  cases hlisting : fs.root.listing? location with
  | none => exact List.Pairwise.nil
  | some members =>
    exact Listing.pairwise_names (Listing.ordered_of_listing? fs.ordered hlisting)

/-- **The ways down are those that lead to something.** -/
theorem mem_below : way ∈ fs.below location ↔ way ≠ [] ∧ (fs.entry? (location ++ way)).isSome := by
  rw [below]
  cases hlisting : fs.root.listing? location with
  | none =>
    have hnone (hway : way ≠ []) : fs.entry? (location ++ way) = none :=
      entry?_append_of_ne_directory hway (Listing.listing?_eq_none_iff.mp hlisting)
    simp +contextual [hnone]
  | some members =>
    have hentry : fs.entry? (location ++ way) = members.entry? way :=
      Listing.entry?_append hlisting way
    rw [hentry]
    exact Listing.mem_locations (Listing.ordered_of_listing? fs.ordered hlisting)

theorem pairwise_below (fs : FileSystem) (location : Location) :
    (fs.below location).Pairwise (· < ·) := by
  rw [below]
  cases hlisting : fs.root.listing? location with
  | none => exact List.Pairwise.nil
  | some members =>
    exact Listing.pairwise_locations (Listing.ordered_of_listing? fs.ordered hlisting)

end FileSystem

end DocCoverage
