import DocCoverage.Text.Utf8
/-!
# File systems — listings of directories

A listing says what is in a directory: files with their contents, and
directories with listings of their own. The names in a directory increase,
and `Listing.Ordered` says that they do so in every directory below as well;
`Listing.Named` says that all of them are names. Whatever changes a listing
here keeps it ordered and, if it brings in names only, named.
-/

namespace DocCoverage

/-- What a file holds: a text, or bytes that are no text. -/
inductive Content where
  | text (value : String)
  | bytes (data : List UInt8)
deriving DecidableEq, Repr, Inhabited

namespace Content

/-- The content of a file that holds these bytes. -/
def ofBytes (data : List UInt8) : Content :=
  match Utf8.text? data with
  | some value => text value
  | none => bytes data

/-- The bytes of a file. -/
def toBytes : Content → List UInt8
  | text value => value.toUTF8.toList
  | bytes data => data

/-- The text of a file that holds a text. -/
def text? : Content → Option String
  | text value => some value
  | bytes _ => none

/-- What can be shown of a file. -/
def shown : Content → String
  | text value => value
  | bytes data => Utf8.shownText data

end Content

/-- What stands at a location. -/
inductive Entry where
  | directory
  | file (content : Content)
deriving DecidableEq, Repr, Inhabited

/-- The names on the way from a directory. -/
abbrev Location := List String

/-- What is in a directory. -/
inductive Listing where
  | nothing
  | file (name : String) (content : Content) (rest : Listing)
  | directory (name : String) (members rest : Listing)
deriving DecidableEq, Repr, Inhabited

/-- What a directory has under a name. -/
inductive Member where
  | file (content : Content)
  | directory (members : Listing)
deriving DecidableEq, Repr

namespace FileSystem

/-- The most bytes of a name. -/
def longestName : Nat := 255

/-- Whether no name can be so long. -/
def isTooLong (name : String) : Bool := longestName < name.utf8ByteSize

end FileSystem

namespace Listing

/-- The names in a directory. -/
def names : Listing → List String
  | nothing => []
  | file name _ rest => name :: rest.names
  | directory name _ rest => name :: rest.names

/-- Whether a text can be a name in a directory: it says something, has no
slash, and is not too long. -/
def isName (text : String) : Bool :=
  text != "" && text != "." && text != ".." && !text.toList.contains '/' &&
    !FileSystem.isTooLong text

/-- All names are names, here and in every directory below. -/
def Named : Listing → Prop
  | nothing => True
  | file name _ rest => isName name ∧ rest.Named
  | directory name members rest => isName name ∧ members.Named ∧ rest.Named

/-- Names increase, here and in every directory below. -/
def Ordered : Listing → Prop
  | nothing => True
  | file name _ rest => (∀ other ∈ rest.names, name < other) ∧ rest.Ordered
  | directory name members rest =>
    (∀ other ∈ rest.names, name < other) ∧ members.Ordered ∧ rest.Ordered

/-! ## Looking -/

/-- What a directory has under a name. -/
def member? (name : String) : Listing → Option Member
  | nothing => none
  | file other content rest => if name = other then some (.file content) else member? name rest
  | directory other members rest =>
    if name = other then some (.directory members) else member? name rest

/-- What stands at a location. -/
def entry? : Listing → Location → Option Entry
  | _, [] => some .directory
  | listing, name :: more =>
    match listing.member? name with
    | none => none
    | some (.file content) => if more.isEmpty then some (.file content) else none
    | some (.directory members) => members.entry? more

/-- The listing of the directory at a location. -/
def listing? : Listing → Location → Option Listing
  | listing, [] => some listing
  | listing, name :: more =>
    match listing.member? name with
    | some (.directory members) => members.listing? more
    | _ => none

/-- The locations of all that is in a directory or below, each directory
right before what is in it. -/
def locations : Listing → List Location
  | nothing => []
  | file name _ rest => [name] :: rest.locations
  | directory name members rest =>
    [name] :: (members.locations.map (name :: ·) ++ rest.locations)

/-! ## Changing -/

/-- A new entry in front. A new directory is empty. -/
def cons (name : String) (entry : Entry) (rest : Listing) : Listing :=
  match entry with
  | .file content => file name content rest
  | .directory => directory name nothing rest

/-- Put an entry into its place. One of the same name gives way. -/
def insert (name : String) (entry : Entry) : Listing → Listing
  | nothing => cons name entry nothing
  | file other content rest =>
    if name = other then cons name entry rest
    else if name < other then cons name entry (file other content rest)
    else file other content (insert name entry rest)
  | directory other members rest =>
    if name = other then cons name entry rest
    else if name < other then cons name entry (directory other members rest)
    else directory other members (insert name entry rest)

/-- Remove what has a name. -/
def erase (name : String) : Listing → Listing
  | nothing => nothing
  | file other content rest =>
    if name = other then rest else file other content (erase name rest)
  | directory other members rest =>
    if name = other then rest else directory other members (erase name rest)

/-- Change what is in the directory of a name, if there is one. -/
def within (name : String) (change : Listing → Listing) : Listing → Listing
  | nothing => nothing
  | file other content rest => file other content (within name change rest)
  | directory other members rest =>
    if name = other then directory other (change members) rest
    else directory other members (within name change rest)

/-- Put an entry at a location, if its directory is there. -/
def put (entry : Entry) : Location → Listing → Listing
  | [], listing => listing
  | [name], listing => listing.insert name entry
  | name :: more, listing => listing.within name (put entry more)

/-- Remove what stands at a location. -/
def remove : Location → Listing → Listing
  | [], _ => nothing
  | [name], listing => listing.erase name
  | name :: more, listing => listing.within name (remove more)

/-! ## Changes keep the order -/

theorem ordered_nothing : nothing.Ordered := trivial

/-- A name in front of greater names. -/
theorem ordered_cons {name : String} {entry : Entry} {rest : Listing}
    (first : ∀ other ∈ rest.names, name < other) (ordered : rest.Ordered) :
    (cons name entry rest).Ordered := by
  cases entry with
  | directory => exact ⟨first, trivial, ordered⟩
  | file content => exact ⟨first, ordered⟩

theorem names_cons {name : String} {entry : Entry} {rest : Listing} :
    (cons name entry rest).names = name :: rest.names := by
  cases entry <;> rfl

/-- After an insertion there are the names from before and the new one. -/
theorem mem_names_insert {name other : String} {entry : Entry} {listing : Listing} :
    other ∈ (insert name entry listing).names → other = name ∨ other ∈ listing.names := by
  induction listing with
  | nothing => simp [insert, names_cons, names]
  | file first content rest ih | directory first members rest _ ih =>
    simp only [insert]
    split
    · simp only [names_cons, names, List.mem_cons]
      rintro (h | h) <;> simp [h]
    · split
      · simp only [names_cons, names, List.mem_cons, imp_self]
      · simp only [names, List.mem_cons]
        rintro (h | h)
        · simp [h]
        · rcases ih h with h | h <;> simp [h]

theorem ordered_insert {name : String} {entry : Entry} {listing : Listing}
    (ordered : listing.Ordered) : (insert name entry listing).Ordered := by
  induction listing with
  | nothing => exact ordered_cons (by simp [names]) trivial
  | file first content rest ih =>
    obtain ⟨least, ordered⟩ := ordered
    simp only [insert]
    split
    · next h => exact ordered_cons (h ▸ least) ordered
    · next different =>
      split
      · next less =>
        refine ordered_cons (fun other h => ?_) ⟨least, ordered⟩
        rcases List.mem_cons.1 h with rfl | h
        · exact less
        · exact String.lt_trans less (least other h)
      · next notLess =>
        refine ⟨fun other h => ?_, ih ordered⟩
        rcases mem_names_insert h with rfl | h
        · exact Std.lt_of_le_of_ne (String.not_lt.1 notLess) (Ne.symm different)
        · exact least other h
  | directory first members rest _ ih =>
    obtain ⟨least, inner, ordered⟩ := ordered
    simp only [insert]
    split
    · next h => exact ordered_cons (h ▸ least) ordered
    · next different =>
      split
      · next less =>
        refine ordered_cons (fun other h => ?_) ⟨least, inner, ordered⟩
        rcases List.mem_cons.1 h with rfl | h
        · exact less
        · exact String.lt_trans less (least other h)
      · next notLess =>
        refine ⟨fun other h => ?_, inner, ih ordered⟩
        rcases mem_names_insert h with rfl | h
        · exact Std.lt_of_le_of_ne (String.not_lt.1 notLess) (Ne.symm different)
        · exact least other h

/-- After a removal there are no other names than before. -/
theorem mem_names_erase {name other : String} {listing : Listing} :
    other ∈ (erase name listing).names → other ∈ listing.names := by
  induction listing with
  | nothing => simp [erase]
  | file first content rest ih | directory first members rest _ ih =>
    simp only [erase]
    split
    · exact List.mem_cons_of_mem first
    · simp only [names, List.mem_cons]
      rintro (h | h)
      · exact .inl h
      · exact .inr (ih h)

theorem ordered_erase {name : String} {listing : Listing} (ordered : listing.Ordered) :
    (erase name listing).Ordered := by
  induction listing with
  | nothing => trivial
  | file first content rest ih =>
    simp only [erase]
    split
    · exact ordered.2
    · exact ⟨fun other h => ordered.1 other (mem_names_erase h), ih ordered.2⟩
  | directory first members rest _ ih =>
    simp only [erase]
    split
    · exact ordered.2.2
    · exact ⟨fun other h => ordered.1 other (mem_names_erase h), ordered.2.1, ih ordered.2.2⟩

/-- A change within a directory changes no name around it. -/
theorem names_within {name : String} {change : Listing → Listing} {listing : Listing} :
    (within name change listing).names = listing.names := by
  induction listing with
  | nothing => rfl
  | file first content rest ih => simp [within, names, ih]
  | directory first members rest _ ih =>
    simp only [within]
    split <;> simp [names, ih]

theorem ordered_within {name : String} {change : Listing → Listing} {listing : Listing}
    (keeps : ∀ members : Listing, members.Ordered → (change members).Ordered)
    (ordered : listing.Ordered) : (within name change listing).Ordered := by
  induction listing with
  | nothing => trivial
  | file first content rest ih =>
    exact ⟨by simpa [names_within] using ordered.1, ih ordered.2⟩
  | directory first members rest _ ih =>
    simp only [within]
    split
    · exact ⟨ordered.1, keeps members ordered.2.1, ordered.2.2⟩
    · exact ⟨by simpa [names_within] using ordered.1, ordered.2.1, ih ordered.2.2⟩

theorem ordered_put {entry : Entry} (location : Location) {listing : Listing}
    (ordered : listing.Ordered) : (put entry location listing).Ordered := by
  induction location generalizing listing with
  | nil => exact ordered
  | cons name more ih =>
    cases more with
    | nil => exact ordered_insert ordered
    | cons next more => exact ordered_within (fun _ => ih) ordered

theorem ordered_remove (location : Location) {listing : Listing} (ordered : listing.Ordered) :
    (remove location listing).Ordered := by
  induction location generalizing listing with
  | nil => trivial
  | cons name more ih =>
    cases more with
    | nil => exact ordered_erase ordered
    | cons next more => exact ordered_within (fun _ => ih) ordered

/-! ## Changes keep the names -/

theorem named_nothing : nothing.Named := trivial

theorem named_cons {name : String} {entry : Entry} {rest : Listing} (hname : isName name)
    (named : rest.Named) : (cons name entry rest).Named := by
  cases entry with
  | directory => exact ⟨hname, trivial, named⟩
  | file content => exact ⟨hname, named⟩

theorem named_insert {name : String} {entry : Entry} {listing : Listing} (hname : isName name)
    (named : listing.Named) : (insert name entry listing).Named := by
  induction listing with
  | nothing => exact named_cons hname trivial
  | file first content rest ih =>
    simp only [insert]
    split
    · exact named_cons hname named.2
    · split
      · exact named_cons hname named
      · exact ⟨named.1, ih named.2⟩
  | directory first members rest _ ih =>
    simp only [insert]
    split
    · exact named_cons hname named.2.2
    · split
      · exact named_cons hname named
      · exact ⟨named.1, named.2.1, ih named.2.2⟩

theorem named_erase {name : String} {listing : Listing} (named : listing.Named) :
    (erase name listing).Named := by
  induction listing with
  | nothing => trivial
  | file first content rest ih =>
    simp only [erase]
    split
    · exact named.2
    · exact ⟨named.1, ih named.2⟩
  | directory first members rest _ ih =>
    simp only [erase]
    split
    · exact named.2.2
    · exact ⟨named.1, named.2.1, ih named.2.2⟩

theorem named_within {name : String} {change : Listing → Listing} {listing : Listing}
    (keeps : ∀ members : Listing, members.Named → (change members).Named)
    (named : listing.Named) : (within name change listing).Named := by
  induction listing with
  | nothing => trivial
  | file first content rest ih => exact ⟨named.1, ih named.2⟩
  | directory first members rest _ ih =>
    simp only [within]
    split
    · exact ⟨named.1, keeps members named.2.1, named.2.2⟩
    · exact ⟨named.1, named.2.1, ih named.2.2⟩

/-- What is put where only names lead to leaves nothing but names. -/
theorem named_put {entry : Entry} {location : Location} {listing : Listing}
    (names : ∀ name ∈ location, isName name) (named : listing.Named) :
    (put entry location listing).Named := by
  induction location generalizing listing with
  | nil => exact named
  | cons name more ih =>
    obtain ⟨hname, hmore⟩ := List.forall_mem_cons.mp names
    cases more with
    | nil => exact named_insert hname named
    | cons next more => exact named_within (fun _ => ih hmore) named

theorem named_remove (location : Location) {listing : Listing} (named : listing.Named) :
    (remove location listing).Named := by
  induction location generalizing listing with
  | nil => trivial
  | cons name more ih =>
    cases more with
    | nil => exact named_erase named
    | cons next more => exact named_within (fun _ => ih) named

end Listing

end DocCoverage
