import DocCoverage.FileSystem.Basic
import Mathlib.Data.List.Basic
/-!
# File systems — what stands where after a change

Putting an entry into a directory, where no directory stands in its way,
changes what stands at that one location and nothing else (`entry?_put`).
The law is read off those of a single listing, by recursion along the way to
the directory.
-/

namespace DocCoverage

namespace Listing

variable {listing : Listing} {name other : String} {entry : Entry}

/-! ## One listing -/

/-- A new member: a file, or a directory with nothing in it. -/
def memberOf : Entry → Member
  | .directory => .directory .nothing
  | .file content => .file content

theorem member?_cons (rest : Listing) :
    (cons name entry rest).member? other =
      if other = name then some (memberOf entry) else rest.member? other := by
  cases entry <;> rfl

/-- A listing has what was inserted, and what it had under other names. -/
theorem member?_insert :
    (insert name entry listing).member? other =
      if other = name then some (memberOf entry) else listing.member? other := by
  induction listing with
  | nothing => rw [insert, member?_cons]
  | file first content rest ih | directory first members rest _ ih =>
    rw [insert]
    split
    next heq =>
      rw [member?_cons]
      split
      · rfl
      next hne =>
        rw [member?, if_neg (by rwa [← heq])]
    next hne =>
      split
      · rw [member?_cons]
      · rw [member?, member?, ih]
        by_cases hfirst : other = first
        · rw [if_pos hfirst, if_pos hfirst, if_neg (by rw [hfirst]; exact Ne.symm hne)]
        · rw [if_neg hfirst, if_neg hfirst]

/-- A change within a directory is seen under its name only. -/
theorem member?_within {change : Listing → Listing} {members : Listing}
    (h : listing.member? name = some (.directory members)) :
    (within name change listing).member? other =
      if other = name then some (.directory (change members)) else listing.member? other := by
  induction listing with
  | nothing => contradiction
  | file first content rest ih =>
    rw [member?] at h
    split at h
    · cases h
    next hne =>
      rw [within, member?, member?, ih h]
      by_cases hfirst : other = first
      · rw [if_pos hfirst, if_pos hfirst, if_neg (by rw [hfirst]; exact Ne.symm hne)]
      · rw [if_neg hfirst, if_neg hfirst]
  | directory first inner rest _ ih =>
    rw [member?] at h
    split at h
    next heq =>
      obtain rfl : inner = members := by simpa using h
      subst heq
      rw [within, if_pos rfl, member?, member?]
      by_cases hname : other = name
      · rw [if_pos hname, if_pos hname]
      · rw [if_neg hname, if_neg hname, if_neg hname]
    next hne =>
      rw [within, if_neg hne, member?, member?, ih h]
      by_cases hfirst : other = first
      · rw [if_pos hfirst, if_pos hfirst, if_neg (by rw [hfirst]; exact Ne.symm hne)]
      · rw [if_neg hfirst, if_neg hfirst]

/-! ## Along a location -/

theorem entry?_nil (listing : Listing) : listing.entry? [] = some .directory := by
  unfold entry?
  rfl

theorem entry?_cons (listing : Listing) (name : String) (more : Location) :
    listing.entry? (name :: more) =
      match listing.member? name with
      | none => none
      | some (.file content) => if more.isEmpty then some (.file content) else none
      | some (.directory members) => members.entry? more := by
  cases hmember : listing.member? name with
  | none => simp only [hmember, entry?]
  | some member => cases member <;> simp only [hmember, entry?]

/-- Below a place without a directory there is nothing. -/
theorem entry?_append_of_ne_directory {location more : Location} (hmore : more ≠ [])
    (h : listing.entry? location ≠ some .directory) : listing.entry? (location ++ more) = none := by
  induction location generalizing listing with
  | nil => exact absurd (entry?_nil listing) h
  | cons name rest ih =>
    rw [entry?_cons] at h
    rw [List.cons_append, entry?_cons]
    split
    · rfl
    · rw [if_neg (by simp [hmore])]
    next members hmember =>
      rw [hmember] at h
      exact ih h

/-- What is below a new member. -/
theorem entry?_of_memberOf {more : Location} (h : listing.member? name = some (memberOf entry)) :
    listing.entry? (name :: more) = if more = [] then some entry else none := by
  rw [entry?_cons, h]
  cases entry with
  | file content => cases more <;> rfl
  | directory =>
    cases more with
    | nil => rfl
    | cons next more => rfl

/-- What stands at a location is up to the member it begins with. -/
theorem entry?_congr {other : Listing} {more : Location}
    (h : listing.member? name = other.member? name) :
    listing.entry? (name :: more) = other.entry? (name :: more) := by
  rw [entry?_cons, entry?_cons, h]

/-- An insertion is seen at its name, and below it there is nothing. -/
theorem entry?_insert (hfree : listing.entry? [name] ≠ some .directory) (location : Location) :
    entry? (insert name entry listing) location =
      if location = [name] then some entry else listing.entry? location := by
  cases location with
  | nil => rw [entry?_nil, entry?_nil, if_neg (by simp)]
  | cons first more =>
    by_cases hname : first = name
    · subst hname
      rw [entry?_of_memberOf (by rw [member?_insert, if_pos rfl])]
      by_cases hmore : more = []
      · rw [if_pos hmore, if_pos (by rw [hmore])]
      · rw [if_neg hmore, if_neg (by simpa using hmore)]
        exact (entry?_append_of_ne_directory hmore hfree).symm
    · rw [if_neg (by simp [hname])]
      exact entry?_congr (by rw [member?_insert, if_neg hname])

/-- A change within a directory is seen below this directory. -/
theorem entry?_within {change : Listing → Listing} {members : Listing}
    (h : listing.member? name = some (.directory members)) (first : String) (more : Location) :
    entry? (within name change listing) (first :: more) =
      if first = name then entry? (change members) more else listing.entry? (first :: more) := by
  by_cases hname : first = name
  · rw [entry?_cons, member?_within h, if_pos hname, if_pos hname]
  · rw [if_neg hname]
    exact entry?_congr (by rw [member?_within h, if_neg hname])

theorem put_cons {directory : Location} {last : String} :
    put entry (name :: (directory ++ [last])) listing =
      listing.within name (put entry (directory ++ [last])) := by
  cases directory <;> rfl

/-- **What stands where after an entry is put into a directory.** -/
theorem entry?_put {directory : Location} (hdir : listing.entry? directory = some .directory)
    (hfree : listing.entry? (directory ++ [name]) ≠ some .directory) (location : Location) :
    entry? (put entry (directory ++ [name]) listing) location =
      if location = directory ++ [name] then some entry else listing.entry? location := by
  induction directory generalizing listing location with
  | nil => exact entry?_insert hfree location
  | cons step rest ih =>
    rw [List.cons_append, put_cons]
    rw [entry?_cons] at hdir
    split at hdir
    · cases hdir
    · split at hdir <;> cases hdir
    next members hmember =>
      have hinner : members.entry? (rest ++ [name]) ≠ some .directory := by
        rw [List.cons_append, entry?_cons, hmember] at hfree
        exact hfree
      cases location with
      | nil => rw [entry?_nil, entry?_nil, if_neg (by simp)]
      | cons first more =>
        rw [entry?_within hmember]
        by_cases hname : first = step
        · subst hname
          rw [if_pos rfl, ih hdir hinner, entry?_cons, hmember]
          simp only [List.cons.injEq, true_and]
        · rw [if_neg hname, if_neg (by simp [hname])]

end Listing

end DocCoverage
