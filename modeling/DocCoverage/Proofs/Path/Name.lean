import DocCoverage.Proofs.Path.Order
import DocCoverage.Proofs.Path.Segments
/-!
# Paths — names and what they are cut into

The name at the end of a path holds no slash, and neither do the stem and the
extension into which it is cut. A text without slashes is a path of one
segment, and leads from a directory to a name inside it unless it says
nothing or is two dots. A path that does not end with a dot ends with its
name, and one that does not begin with a dot or a slash begins with one.
Spellings of the same path therefore begin alike and hold the same characters
(`head?_text_of_same`, `mem_text_of_same`).
-/

namespace DocCoverage

namespace Text

/-- The characters of a piece are characters of the text. -/
theorem mem_of_mem_pieces {isSep : Char → Bool} {text piece : List Char}
    (h : piece ∈ pieces isSep text) : ∀ c ∈ piece, c ∈ text := by
  induction text generalizing piece with
  | nil =>
    rw [pieces, List.mem_singleton] at h
    rw [h]
    exact fun _ hc => hc
  | cons first rest ih =>
    rw [pieces] at h
    split at h
    · rcases List.mem_cons.mp h with rfl | h
      · exact fun _ hc => absurd hc List.not_mem_nil
      · exact fun c hc => List.mem_cons_of_mem _ (ih h c hc)
    · obtain ⟨head, more, hps⟩ := List.exists_cons_of_ne_nil (@pieces_ne_nil isSep rest)
      rw [hps, consFirst] at h
      rw [hps] at ih
      rcases List.mem_cons.mp h with rfl | h
      · exact List.forall_mem_cons.mpr ⟨List.mem_cons_self, fun c hc =>
          List.mem_cons_of_mem _ (ih List.mem_cons_self c hc)⟩
      · exact fun c hc => List.mem_cons_of_mem _ (ih (List.mem_cons_of_mem _ h) c hc)

theorem mem_of_mem_cutAt {sep : Char} {s piece : String} (h : piece ∈ cutAt sep s) :
    ∀ c ∈ piece.toList, c ∈ s.toList := by
  obtain ⟨chars, hchars, rfl⟩ := List.mem_map.mp h
  rw [String.toList_ofList]
  exact mem_of_mem_pieces hchars

/-- The characters of joined texts are those of the separator and of the
texts. -/
theorem mem_of_mem_intercalate {c : Char} {sep : String} {parts : List String}
    (h : c ∈ (sep.intercalate parts).toList) :
    c ∈ sep.toList ∨ ∃ part ∈ parts, c ∈ part.toList := by
  rw [String.toList_intercalate] at h
  induction parts with
  | nil => exact absurd h List.not_mem_nil
  | cons part rest ih =>
    cases rest with
    | nil =>
      rw [List.map_singleton, List.intercalate_singleton] at h
      exact .inr ⟨part, List.mem_singleton_self part, h⟩
    | cons next more =>
      rw [List.map_cons, List.intercalate_cons_of_ne_nil (by simp), List.append_assoc,
        List.mem_append, List.mem_append] at h
      rcases h with h | h | h
      · exact .inr ⟨part, List.mem_cons_self, h⟩
      · exact .inl h
      · exact (ih h).imp_right fun ⟨other, hother, hin⟩ =>
          ⟨other, List.mem_cons_of_mem _ hother, hin⟩

end Text

namespace Path

variable {path : Path} {text name : String}

/-! ## Paths of one segment -/

section Slashless

variable (h : '/' ∉ text.toList)
include h

theorem isAbsolute_of_slash_not_mem : isAbsolute ⟨text⟩ = false := by
  rw [isAbsolute, beq_eq_false_iff_ne]
  exact fun hhead => h (List.mem_of_mem_head? hhead)

theorem segments_of_slash_not_mem : segments ⟨text⟩ = [text] := by
  have hsegments := segments_ofSegments (List.cons_ne_nil text []) (List.forall_mem_singleton.mpr h)
  rwa [ofSegments, String.intercalate_singleton] at hsegments

theorem steps_of_slash_not_mem : steps ⟨text⟩ = (Component.ofSegment? text).toList := by
  rw [steps, segments_of_slash_not_mem h, filterMap_ofSegment?_cons, List.filterMap_nil,
    List.append_nil]

end Slashless

theorem ofSegment?_of_length (h : 2 < text.length) :
    Component.ofSegment? text = some (.name text) := by
  rw [Component.ofSegment?, if_neg, if_neg]
  · rintro rfl
    exact absurd h (by decide)
  · rintro (rfl | rfl) <;> exact absurd h (by decide)

/-- A segment that holds more than dots is a name. -/
theorem ofSegment?_of_mem {segment : String} {c : Char} (hmem : c ∈ segment.toList) (hdot : c ≠ '.') :
    Component.ofSegment? segment = some (.name segment) := by
  have hne : ∀ other : String, c ∉ other.toList → segment ≠ other := by
    rintro _ hnot rfl
    exact hnot hmem
  rw [Component.ofSegment?, if_neg, if_neg]
  · exact hne ".." (by simp [hdot])
  · rintro (h | h)
    · exact hne "" List.not_mem_nil h
    · exact hne "." (by simp [hdot]) h

/-- A name in a path is one of its segments. -/
theorem mem_segments_of_mem_components (h : .name name ∈ path.components) :
    name ∈ path.segments := by
  rw [components_eq, List.mem_append] at h
  rcases h with hfront | hsteps
  · have hrank := rank_lt_of_mem_front hfront
    rw [Component.rank] at hrank
    omega
  · obtain ⟨segment, hsegment, hof⟩ := List.mem_filterMap.mp hsteps
    unfold Component.ofSegment? at hof
    split at hof
    · cases hof
    · split at hof
      · cases hof
      · rwa [Component.name.inj (Option.some_inj.mp hof)] at hsegment

/-! ## The name of a path -/

theorem slash_not_mem_of_fileName? (h : path.fileName? = some name) : '/' ∉ name.toList := by
  rw [fileName?] at h
  split at h
  next text hlast =>
    obtain rfl := Option.some_inj.mp h
    exact slash_not_mem_of_mem_segments (mem_segments_of_mem_components (List.mem_of_getLast? hlast))
  · cases h

/-- A name is cut into parts of it. -/
theorem slash_not_mem_cutName (h : '/' ∉ name.toList) :
    '/' ∉ (cutName name).1.toList ∧ ∀ extension ∈ (cutName name).2, '/' ∉ extension.toList := by
  have hpieces : ∀ piece ∈ (Text.cutAt '.' name).reverse, '/' ∉ piece.toList :=
    fun piece hpiece hslash => h (Text.mem_of_mem_cutAt (List.mem_reverse.mp hpiece) _ hslash)
  unfold cutName
  split
  · exact ⟨h, fun _ hnone => nomatch hnone⟩
  · exact ⟨h, fun _ hnone => nomatch hnone⟩
  next extension front _ hcut =>
    rw [hcut] at hpieces
    obtain ⟨hextension, hfront⟩ := List.forall_mem_cons.mp hpieces
    split
    · exact ⟨h, fun _ hnone => nomatch hnone⟩
    · refine ⟨fun hslash => ?_, fun other hother => ?_⟩
      · obtain hdot | ⟨piece, hpiece, hin⟩ := Text.mem_of_mem_intercalate hslash
        · exact absurd hdot (by decide)
        · exact hfront piece (List.mem_reverse.mp hpiece) hin
      · obtain rfl := Option.mem_some_iff.mp hother
        exact hextension

theorem slash_not_mem_stem (path : Path) : '/' ∉ path.stem.toList := by
  rw [stem]
  split
  next name hname => exact (slash_not_mem_cutName (slash_not_mem_of_fileName? hname)).1
  · exact List.not_mem_nil

theorem slash_not_mem_extension {extension : String} (h : extension ∈ path.extension?) :
    '/' ∉ extension.toList := by
  obtain ⟨name, hname, hextension⟩ := Option.bind_eq_some_iff.mp h
  exact (slash_not_mem_cutName (slash_not_mem_of_fileName? hname)).2 extension hextension

/-! ## The ends of a path -/

section Last

variable {c : Char} (hlast : path.text.toList.getLast? = some c)
include hlast

/-- The last segment ends as the path does. -/
theorem exists_getLast?_segments (hslash : c ≠ '/') :
    ∃ segment, path.segments.getLast? = some segment ∧ segment.toList.getLast? = some c := by
  obtain ⟨front, hfront⟩ := List.getLast?_eq_some_iff.mp hlast
  obtain ⟨piece, hpiece⟩ := @Text.exists_getLast?_pieces_concat (· == '/') front c
    (beq_eq_false_iff_ne.mpr hslash)
  refine ⟨String.ofList (piece ++ [c]), ?_, ?_⟩
  · rw [segments, Text.cutAt, hfront, List.getLast?_map, hpiece, Option.map_some]
  · rw [String.toList_ofList, List.getLast?_concat]

variable (hslash : c ≠ '/') (hdot : c ≠ '.')
include hslash hdot

/-- And so does the name of a path that does not end with a dot. -/
theorem exists_fileName? : ∃ name, path.fileName? = some name ∧ name.toList.getLast? = some c := by
  obtain ⟨segment, hsegment, hc⟩ := exists_getLast?_segments hlast hslash
  obtain ⟨front, hfront⟩ := List.getLast?_eq_some_iff.mp hsegment
  have hname := ofSegment?_of_mem (List.mem_of_getLast? hc) hdot
  have hcomponents : path.components.getLast? = some (.name segment) := by
    rw [components_eq, steps, hfront, List.filterMap_append, filterMap_ofSegment?_cons, hname,
      List.filterMap_nil, List.append_nil, ← List.append_assoc]
    exact List.getLast?_concat
  exact ⟨segment, by rw [fileName?, hcomponents], hc⟩

/-- And its extension, if it has one. -/
theorem getLast?_of_mem_extension? {extension : String} (h : extension ∈ path.extension?) :
    extension.toList.getLast? = some c := by
  obtain ⟨name, hname, hc⟩ := exists_fileName? hlast hslash hdot
  obtain ⟨front, hfront⟩ := List.getLast?_eq_some_iff.mp hc
  obtain ⟨piece, hpiece⟩ := @Text.exists_getLast?_pieces_concat (· == '.') front c
    (beq_eq_false_iff_ne.mpr hdot)
  have hcut : (Text.cutAt '.' name).getLast? = some (String.ofList (piece ++ [c])) := by
    rw [Text.cutAt, hfront, List.getLast?_map, hpiece, Option.map_some]
  rw [extension?, hname, Option.bind_some] at h
  unfold cutName at h
  split at h
  · cases h
  · cases h
  next last more _ hreverse =>
    have hfirst : (Text.cutAt '.' name).reverse.head? = some last := by rw [hreverse, List.head?_cons]
    rw [List.head?_reverse, hcut] at hfirst
    split at h
    · cases h
    · obtain rfl := Option.mem_some_iff.mp h
      obtain rfl := Option.some_inj.mp hfirst
      rw [String.toList_ofList, List.getLast?_concat]

end Last

theorem lead?_eq_none_iff : path.lead? = none ↔
    path.isAbsolute = false ∧ path.segments.head? ≠ some "." := by
  rw [lead?]
  cases path.isAbsolute <;> simp

/-- A path that begins with a name begins with that segment. -/
theorem head?_segments_of_head?_components (h : path.components.head? = some (.name name)) :
    path.segments.head? = some name := by
  have hlead : path.lead? = none := by
    rw [components_eq, front] at h
    split at h
    · cases h
    · cases h
    · assumption
  obtain ⟨hrelative, hdot⟩ := lead?_eq_none_iff.mp hlead
  rw [components_eq, front, hlead, List.nil_append, steps] at h
  -- the empty path says nothing, and any other has a first segment that says something
  have htext : path.text ≠ "" := by
    intro htext
    rw [segments, htext] at h
    cases h
  have hempty := head?_segments_ne htext hrelative
  obtain ⟨first, more, hsegments⟩ := List.exists_cons_of_ne_nil path.segments_ne_nil
  rw [hsegments, List.head?_cons] at hempty hdot ⊢
  rw [hsegments, filterMap_ofSegment?_cons, Component.ofSegment?, if_neg (not_or.mpr
    ⟨fun heq => hempty (congrArg some heq), fun heq => hdot (congrArg some heq)⟩)] at h
  split at h
  · cases h
  · rw [Component.name.inj (Option.some_inj.mp h)]

/-- The first segment stands at the beginning of the path. -/
theorem head?_text_of_head?_segments {c : Char} (h : path.segments.head? = some name)
    (hc : name.toList.head? = some c) : path.text.toList.head? = some c := by
  obtain ⟨more, hmore⟩ := List.head?_eq_some_iff.mp h
  have hbegins : [name] <+: path.segments := ⟨more, hmore.symm⟩
  obtain ⟨rest, hrest⟩ := ofSegments_prefix hbegins (List.cons_ne_nil _ _)
  rw [ofSegments, String.intercalate_singleton] at hrest
  rw [← hrest, List.head?_append, hc, Option.some_or]

/-- A path that begins with neither a slash nor a dot begins with a name. -/
theorem exists_head?_components {c : Char} (hc : path.text.toList.head? = some c)
    (hslash : c ≠ '/') (hdot : c ≠ '.') :
    ∃ name, path.components.head? = some (.name name) ∧ name.toList.head? = some c := by
  obtain ⟨rest, hrest⟩ := List.head?_eq_some_iff.mp hc
  obtain ⟨piece, more, hpieces⟩ := List.exists_cons_of_ne_nil (@Text.pieces_ne_nil (· == '/') rest)
  have hsegments : path.segments = String.ofList (c :: piece) :: more.map String.ofList := by
    rw [segments, Text.cutAt, hrest, Text.pieces, if_neg (by simpa using hslash), hpieces]
    rfl
  have hfirst : (String.ofList (c :: piece)).toList.head? = some c := by
    rw [String.toList_ofList, List.head?_cons]
  have hlead : path.lead? = none := by
    refine lead?_eq_none_iff.mpr ⟨?_, fun h => ?_⟩
    · rw [isAbsolute, hc, beq_eq_false_iff_ne]
      exact fun h => hslash (Option.some_inj.mp h)
    · rw [hsegments, List.head?_cons] at h
      rw [Option.some_inj.mp h] at hfirst
      exact hdot (Option.some_inj.mp hfirst).symm
  refine ⟨String.ofList (c :: piece), ?_, hfirst⟩
  rw [components_eq, front, hlead, steps, hsegments, filterMap_ofSegment?_cons,
    ofSegment?_of_mem (List.mem_of_mem_head? hfirst) hdot]
  rfl

/-! ## What every spelling of a path shows -/

/-- Slashes and dots aside, a path holds the characters of its steps. -/
theorem mem_text_iff {c : Char} (hslash : c ≠ '/') (hdot : c ≠ '.') :
    c ∈ path.text.toList ↔ ∃ segment, .name segment ∈ path.steps ∧ c ∈ segment.toList := by
  constructor
  · intro hc
    rw [← Text.intercalate_cutAt '/' path.text] at hc
    rcases Text.mem_of_mem_intercalate hc with hsep | ⟨segment, hsegment, hmem⟩
    · exact absurd (List.mem_singleton.mp hsep) hslash
    · exact ⟨segment, List.mem_filterMap.mpr ⟨segment, hsegment, ofSegment?_of_mem hmem hdot⟩, hmem⟩
  · rintro ⟨segment, hsegment, hmem⟩
    have hname := mem_components_of_mem_steps hsegment
    exact Text.mem_of_mem_cutAt (mem_segments_of_mem_components hname) c hmem

section Same

variable {a b : Path} {c : Char} (hsame : a.same b = true) (hslash : c ≠ '/') (hdot : c ≠ '.')
include hsame hslash hdot

/-- However a path is spelled, it holds the same characters, slashes and dots
aside. -/
theorem mem_text_of_same (hc : c ∈ a.text.toList) : c ∈ b.text.toList := by
  rw [mem_text_iff hslash hdot, steps_of_same hsame] at hc
  exact (mem_text_iff hslash hdot).mpr hc

/-- And it begins alike. -/
theorem head?_text_of_same (hc : a.text.toList.head? = some c) : b.text.toList.head? = some c := by
  obtain ⟨name, hname, hfirst⟩ := exists_head?_components hc hslash hdot
  rw [same_iff.mp hsame] at hname
  exact head?_text_of_head?_segments (head?_segments_of_head?_components hname) hfirst

end Same

end Path

end DocCoverage
