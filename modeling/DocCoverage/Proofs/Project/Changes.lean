import DocCoverage.Proofs.Path.Firsts
import DocCoverage.Proofs.Path.Name
import DocCoverage.Proofs.Project.Confinement
import DocCoverage.Proofs.Text.Lines
/-!
# Projects — from the listing to the changed files

Version control lists a change one path a line, and a path that holds more
than printable ASCII, a quote or a backslash is written in quotes, with its
bytes escaped. The quotes are not taken off again, and the line is trimmed. A
line in quotes therefore names no source file, and a path that begins with a
space is read without it: what is found of a change are its paths that are
plain (`sourcesListed_listing`), and nothing else is found except by a space
that was lost.
-/

namespace DocCoverage

/-! ## What version control prints -/

namespace VersionControl

/-- Whether a byte makes a path go in quotes: a control, the quote, the
backslash, and all beyond ASCII. -/
def isEscaped (b : UInt8) : Bool := b < 0x20 || b == 0x22 || b == 0x5C || 0x7F ≤ b

/-- The letter that stands for a byte behind a backslash. -/
def letter? (b : UInt8) : Option Char :=
  [(0x07, 'a'), (0x08, 'b'), (0x09, 't'), (0x0A, 'n'), (0x0B, 'v'), (0x0C, 'f'), (0x0D, 'r'),
    (0x22, '"'), (0x5C, '\\')].lookup b

/-- The three octal digits of a byte. -/
def octal (b : UInt8) : List Char := [b.toNat / 64, b.toNat / 8 % 8, b.toNat % 8].map Nat.digitChar

/-- A byte inside quotes. -/
def shownByte (b : UInt8) : List Char :=
  if isEscaped b then
    match letter? b with
    | some letter => ['\\', letter]
    | none => '\\' :: octal b
  else [Char.ofNat b.toNat]

/-- A path as it is printed: as it is, or in quotes if a byte of it has to be
escaped. -/
def shownName (name : List Char) : List Char :=
  let bytes := name.flatMap String.utf8EncodeChar
  if bytes.any isEscaped then '"' :: (bytes.flatMap shownByte ++ ['"']) else name

/-- The listing of these paths, one a line. -/
def listing (printed : List Path) : String :=
  String.ofList (printed.flatMap fun path => shownName path.text.toList ++ ['\n'])

/-- Whether a character is printed as it is. -/
def isPlain (c : Char) : Bool :=
  0x20 ≤ c.toNat && c.toNat < 0x7F && c.toNat != 0x22 && c.toNat != 0x5C

/-! ## Names with and without quotes -/

theorem isEscaped_ofNat : ∀ n < 128, isEscaped (UInt8.ofNat n) =
    !(0x20 ≤ n && n < 0x7F && n != 0x22 && n != 0x5C) := by decide

theorem isEscaped_of_le {n : Nat} (hlow : 0x7F ≤ n) (hhigh : n < 256) :
    isEscaped (UInt8.ofNat n) = true := by
  have hle : (0x7F : UInt8) ≤ UInt8.ofNat n := by
    rw [UInt8.le_iff_toNat_le, UInt8.toNat_ofNat_of_lt' hhigh]
    exact hlow
  rw [isEscaped, decide_eq_true hle, Bool.or_true]

/-- A character is printed as it is if none of its bytes is escaped. -/
theorem any_isEscaped (c : Char) : (String.utf8EncodeChar c).any isEscaped = !isPlain c := by
  have hval : c.val.toNat = c.toNat := rfl
  rw [String.utf8EncodeChar, hval, isPlain]
  by_cases hascii : c.toNat ≤ 127
  · rw [if_pos hascii, List.any_cons, List.any_nil, Bool.or_false,
      isEscaped_ofNat _ (Nat.lt_succ_of_le hascii)]
  -- beyond ASCII the first byte is escaped already
  · have hplain : decide (c.toNat < 0x7F) = false := decide_eq_false (by omega)
    rw [if_neg hascii, hplain]
    split_ifs <;>
    · rw [List.any_cons, isEscaped_of_le (by omega) (by omega)]
      simp

theorem newline_not_mem_shownByte (b : UInt8) : '\n' ∉ shownByte b := by
  have hall : ∀ n < 256, '\n' ∉ shownByte (UInt8.ofNat n) := by decide +kernel
  have hb := hall b.toNat b.toNat_lt
  rwa [UInt8.ofNat_toNat] at hb

section Names

variable {name : List Char}

theorem bytes_any_isEscaped : (name.flatMap String.utf8EncodeChar).any isEscaped = true ↔
    ¬ ∀ c ∈ name, isPlain c = true := by
  rw [List.any_flatMap, List.any_eq_true]
  simp only [any_isEscaped]
  simp

theorem shownName_of_plain (h : ∀ c ∈ name, isPlain c = true) : shownName name = name := by
  rw [shownName, if_neg]
  rw [bytes_any_isEscaped]
  exact not_not_intro h

theorem shownName_of_not_plain (h : ¬ ∀ c ∈ name, isPlain c = true) : shownName name =
    '"' :: ((name.flatMap String.utf8EncodeChar).flatMap shownByte ++ ['"']) := by
  rw [shownName, if_pos (bytes_any_isEscaped.mpr h)]

theorem newline_not_mem_shownName (name : List Char) : '\n' ∉ shownName name := by
  by_cases h : ∀ c ∈ name, isPlain c = true
  · rw [shownName_of_plain h]
    exact fun hmem => absurd (h _ hmem) (by decide)
  · rw [shownName_of_not_plain h, List.mem_cons, List.mem_append, List.mem_flatMap]
    rintro (hquote | ⟨b, -, hb⟩ | hquote)
    · exact absurd hquote (by decide)
    · exact newline_not_mem_shownByte b hb
    · exact absurd (List.mem_singleton.mp hquote) (by decide)

theorem getLast?_shownName (h : ¬ ∀ c ∈ name, isPlain c = true) :
    (shownName name).getLast? = some '"' := by
  rw [shownName_of_not_plain h, ← List.cons_append, List.getLast?_concat]

theorem getLast?_shownName_ne_return (name : List Char) : (shownName name).getLast? ≠ some '\r' := by
  by_cases h : ∀ c ∈ name, isPlain c = true
  · rw [shownName_of_plain h]
    exact fun hlast => absurd (h _ (List.mem_of_getLast? hlast)) (by decide)
  · rw [getLast?_shownName h]
    decide

end Names

/-- Each line of a listing is a path as it is printed. -/
theorem lines_listing (printed : List Path) : Text.lines (listing printed).toList =
    printed.map fun path => shownName path.text.toList := by
  have hlines := @Text.lines_flatMap (printed.map fun path => shownName path.text.toList)
    (List.forall_mem_map.mpr fun path _ => newline_not_mem_shownName _)
  rw [List.flatMap_map] at hlines
  rw [listing, String.toList_ofList, hlines, List.map_map]
  exact List.map_congr_left fun path _ =>
    Text.withoutReturn_of_getLast? (getLast?_shownName_ne_return _)

end VersionControl

/-- A path that is listed as it is, and that nothing is trimmed of. -/
structure Path.IsPlain (path : Path) : Prop where
  chars : ∀ c ∈ path.text.toList, VersionControl.isPlain c = true
  head : path.text.toList.head? ≠ some ' '

namespace Project

open VersionControl

variable {project : Project} {path other : Path}

/-! ## What is read of a listing -/

/-- Whether a path leads to a source file. -/
def isSource (project : Project) (path : Path) : Bool :=
  path.extension?.any sourceExtensions.contains && project.files.isFile (project.full path)

/-- The path that is read from the line of a path. -/
def readBack (path : Path) : Path := ⟨String.ofList (Text.trim (shownName path.text.toList))⟩

/-- Empty lines are no sources anyway. -/
theorem sourcesListed_eq (project : Project) (listing : String) :
    project.sourcesListed listing = Path.lastSpellings
      (((Text.lines listing.toList).map fun line => ⟨String.ofList (Text.trim line)⟩).filter
        project.isSource) := by
  have hempty : project.isSource ⟨String.ofList []⟩ = false := rfl
  change Path.lastSpellings ((_ : List Path).filter project.isSource) = _
  rw [List.filter_map, List.filter_filter, List.filter_map, List.filter_map, List.map_map]
  congr 2
  refine List.filter_congr fun line _ => ?_
  simp only [Function.comp_apply]
  cases Text.trim line with
  | nil => rw [hempty, Bool.false_and]
  | cons c rest => exact Bool.and_true _

theorem sourcesListed_listing_eq (project : Project) (printed : List Path) :
    project.sourcesListed (listing printed) =
      Path.lastSpellings ((printed.map readBack).filter project.isSource) := by
  rw [sourcesListed_eq, lines_listing, List.map_map]
  rfl

/-- A path to a source file does not end with a character that its extension
could not end with. -/
theorem getLast?_of_isSource {c : Char} (h : project.isSource path = true)
    (hlast : path.text.toList.getLast? = some c) : c = '/' ∨ c = '.' ∨ c = 's' ∨ c = 'x' := by
  obtain ⟨hextension, -⟩ := Bool.and_eq_true_iff.mp h
  obtain ⟨extension, hmem, hsource⟩ := (Option.any_eq_true _ _).mp hextension
  have hends : ∀ source ∈ sourceExtensions,
      source.toList.getLast? = some 's' ∨ source.toList.getLast? = some 'x' := by decide
  by_cases hslash : c = '/'
  · exact .inl hslash
  by_cases hdot : c = '.'
  · exact .inr (.inl hdot)
  have hc := hends extension (List.contains_iff_mem.mp hsource)
  rw [Path.getLast?_of_mem_extension? hlast hslash hdot hmem, Option.some_inj, Option.some_inj] at hc
  exact .inr (.inr hc)

theorem isBlank_of_getLast? {c : Char} (h : project.isSource path = true)
    (hlast : path.text.toList.getLast? = some c) : Text.isBlank c = false := by
  rcases getLast?_of_isSource h hlast with rfl | rfl | rfl | rfl <;> rfl

theorem isBlank_of_isPlain {c : Char} (h : isPlain c = true) (hspace : c ≠ ' ') :
    Text.isBlank c = false := by
  have hne : c.toNat ≠ 0x20 := fun heq => hspace (Char.toNat_inj.mp heq)
  simp only [isPlain, Bool.and_eq_true, decide_eq_true_eq] at h
  simp only [Text.isBlank, Bool.or_eq_false_iff, Bool.and_eq_false_iff, decide_eq_false_iff_not,
    beq_eq_false_iff_ne]
  omega

/-- **A plain path is read as it is.** -/
theorem readBack_of_isPlain (h : path.IsPlain) (hsource : project.isSource path = true) :
    readBack path = path := by
  have htrim : Text.trim path.text.toList = path.text.toList := by
    refine Text.trim_eq_self (fun c hc => ?_) fun c hc => ?_
    · refine isBlank_of_isPlain (h.chars c (List.mem_of_mem_head? hc)) ?_
      rintro rfl
      exact h.head hc
    · exact isBlank_of_getLast? hsource hc
  rw [readBack, shownName_of_plain h.chars, htrim, String.ofList_toList]

theorem readBack_of_plain (h : ∀ c ∈ path.text.toList, isPlain c = true) :
    readBack path = ⟨Text.trimmed path.text⟩ := by
  rw [readBack, shownName_of_plain h, Text.trimmed]

/-- **A path in quotes is lost**: nothing takes the quotes off, and no
extension of a source ends with one. -/
theorem plain_of_isSource_readBack (h : project.isSource (readBack path) = true) :
    ∀ c ∈ path.text.toList, isPlain c = true := by
  by_contra hnot
  have hlast := getLast?_shownName hnot
  have htrim : Text.trim (shownName path.text.toList) = shownName path.text.toList := by
    refine Text.trim_eq_self (fun c hc => ?_) fun c hc => ?_
    · rw [shownName_of_not_plain hnot, List.head?_cons] at hc
      obtain rfl := Option.some_inj.mp hc
      rfl
    · rw [hlast] at hc
      obtain rfl := Option.some_inj.mp hc
      rfl
  have hends := getLast?_of_isSource h (by rw [readBack, String.toList_ofList, htrim, hlast])
  exact absurd hends (by decide)

/-- What is read of a path is no spelling of one that is not plain. -/
theorem isPlain_of_same_readBack (h : ∀ c ∈ other.text.toList, isPlain c = true)
    (hsame : path.same (readBack other) = true) : path.IsPlain where
  chars c hc := by
    by_cases hslash : c = '/'
    · rw [hslash]
      rfl
    by_cases hdot : c = '.'
    · rw [hdot]
      rfl
    have hmem := Path.mem_text_of_same hsame hslash hdot hc
    rw [readBack, String.toList_ofList, shownName_of_plain h] at hmem
    exact h c (Text.mem_of_mem_trim hmem)
  head hhead := by
    have hfirst := Path.head?_text_of_same hsame (by decide) (by decide) hhead
    rw [readBack, String.toList_ofList] at hfirst
    exact absurd (Text.isBlank_of_head?_trim hfirst) (by decide)

/-! ## What is found of a change -/

section Changed

variable {changed printed : List Path} (hchanged : Path.Increasing changed)
  (hprinted : printed.Perm changed) (hsource : ∀ path ∈ changed, project.isSource path = true)
include hprinted hsource

/-- A changed path is found, in some spelling, if it is plain. -/
theorem listed_listing_iff (hpath : path ∈ changed) :
    listed (project.sourcesListed (listing printed)) path = true ↔ path.IsPlain := by
  rw [sourcesListed_listing_eq, listed, List.any_eq_true]
  constructor
  · rintro ⟨found, hfound, hsame⟩
    obtain ⟨hread, hisSource⟩ := List.mem_filter.mp (Path.mem_of_mem_lastSpellings hfound)
    obtain ⟨other, -, rfl⟩ := List.mem_map.mp hread
    exact isPlain_of_same_readBack (plain_of_isSource_readBack hisSource) hsame
  · intro hplain
    have hself := readBack_of_isPlain hplain (hsource path hpath)
    refine Path.exists_mem_lastSpellings (List.mem_filter.mpr ⟨?_, hsource path hpath⟩)
    exact List.mem_map.mpr ⟨path, hprinted.mem_iff.mpr hpath, hself⟩

/-- What is found is a changed path, or one without the spaces in front of
it. -/
theorem mem_or_trimmed_of_mem_sourcesListed {found : Path}
    (hfound : found ∈ project.sourcesListed (listing printed)) :
    found ∈ changed ∨ ∃ path ∈ changed, path.text.toList.head? = some ' ' ∧
      found = ⟨Text.trimmed path.text⟩ := by
  rw [sourcesListed_listing_eq] at hfound
  obtain ⟨hread, hisSource⟩ := List.mem_filter.mp (Path.mem_of_mem_lastSpellings hfound)
  obtain ⟨path, hpath, rfl⟩ := List.mem_map.mp hread
  have hmem := hprinted.mem_iff.mp hpath
  have hchars := plain_of_isSource_readBack hisSource
  by_cases hhead : path.text.toList.head? = some ' '
  · exact .inr ⟨path, hmem, hhead, readBack_of_plain hchars⟩
  · rw [readBack_of_isPlain ⟨hchars, hhead⟩ (hsource path hmem)]
    exact .inl hmem

include hchanged

/-- **The listing of a change is read as the change if all its paths are
plain**, and each path that is not is lost. Nothing is made up, except that a
path may be taken for the one without the spaces in front of it. -/
theorem sourcesListed_listing :
    (project.sourcesListed (listing printed) = changed ↔ ∀ path ∈ changed, path.IsPlain) ∧
      (∀ path ∈ changed,
        (listed (project.sourcesListed (listing printed)) path = true ↔ path.IsPlain)) ∧
      ∀ found ∈ project.sourcesListed (listing printed),
        found ∈ changed ∨ ∃ path ∈ changed, path.text.toList.head? = some ' ' ∧
          found = ⟨Text.trimmed path.text⟩ := by
  refine ⟨⟨fun hall path hpath => ?_, fun hplain => ?_⟩,
    fun path hpath => listed_listing_iff hprinted hsource hpath,
    fun found hfound => mem_or_trimmed_of_mem_sourcesListed hprinted hsource hfound⟩
  · rw [← listed_listing_iff hprinted hsource hpath, hall, listed, List.any_eq_true]
    exact ⟨path, hpath, Path.same_refl path⟩
  · have hread : printed.map readBack = printed := by
      rw [← List.map_id printed, List.map_map]
      refine List.map_congr_left fun path hpath => ?_
      have hmem := hprinted.mem_iff.mp hpath
      exact readBack_of_isPlain (hplain path hmem) (hsource path hmem)
    rw [sourcesListed_listing_eq, hread, List.filter_eq_self.mpr fun path hpath =>
      hsource path (hprinted.mem_iff.mp hpath)]
    exact Path.lastSpellings_of_perm hchanged hprinted

end Changed

/-- Sources in three spellings: behind a space, plain and beyond ASCII. -/
def cafeSources : List Path := [⟨" b.ts"⟩, ⟨"a.ts"⟩, ⟨"caf\u00e9.ts"⟩]

/-- A project of these. -/
def cafe : Project where
  files := cafeSources.foldl (fun files source => files.put [source.text] (.file (.text "")))
    FileSystem.empty
  root := ⟨"/"⟩
  settings := default

/-- Of the three only the plain one is found. -/
theorem sourcesListed_listing_cafe :
    Path.Increasing cafeSources ∧ (∀ path ∈ cafeSources, cafe.isSource path = true) ∧
      listing cafeSources.reverse = "\"caf\\303\\251.ts\"\na.ts\n b.ts\n" ∧
      cafe.sourcesListed (listing cafeSources.reverse) ≠ cafeSources ∧
      listed (cafe.sourcesListed (listing cafeSources.reverse)) ⟨"a.ts"⟩ = true ∧
      listed (cafe.sourcesListed (listing cafeSources.reverse)) ⟨"caf\u00e9.ts"⟩ = false := by
  have hincreasing : Path.Increasing cafeSources := by
    unfold Path.Increasing
    decide +kernel
  have hsource : ∀ path ∈ cafeSources, cafe.isSource path = true := by decide +kernel
  have hnot : ¬ Path.IsPlain ⟨"caf\u00e9.ts"⟩ := fun h =>
    absurd (h.chars '\u00e9' (by decide +kernel)) (by decide +kernel)
  obtain ⟨hall, heach, -⟩ := sourcesListed_listing hincreasing cafeSources.reverse_perm hsource
  have hmem : ⟨"a.ts"⟩ ∈ cafeSources := by simp [cafeSources]
  have hmem' : ⟨"caf\u00e9.ts"⟩ ∈ cafeSources := by simp [cafeSources]
  refine ⟨hincreasing, hsource, by decide +kernel, fun h => hnot (hall.mp h _ hmem'),
    (heach _ hmem).mpr ⟨List.all_eq_true.mp rfl, by decide +kernel⟩, ?_⟩
  rw [← Bool.not_eq_true, heach _ hmem']
  exact hnot

end Project

end DocCoverage
