import DocCoverage.Proofs.Source.Functions
/-!
# Sources — the functions of joined texts

An export is found behind another text if no match of the text in front runs
into it. Only the stated type of an arrow function goes on behind a semicolon,
and only as long as no equals sign ends it. So what is exported behind a
semicolon is exported in the joined text, whatever it is, if and only if in the
text in front every constant of a stated type has an equals sign behind it
(`functions_subset_joined`, `closed_of_functions_subset`).
-/

namespace DocCoverage

namespace Signals

open Pattern
open Text (AreBlank)

variable {d : Declaration} {text front more name : List Char} {i j e : ℕ} {m : List Char × ℕ}

/-! ## Names -/

theorem mem_functions_iff {name : String} : name ∈ (extract text).functions ↔
    ∃ form ∈ functionForms, ∃ i e, form.Kept text i ∧
      form.matchAt? text i = some (name.toList, e) := by
  have hnames : name ∈ (extract text).functions ↔
      ∃ form ∈ functionForms, name.toList ∈ form.names text := by
    have hset : name ∈ (extract text).functions ↔ name ∈ functionForms.flatMap fun form =>
        (form.names text).map String.ofList := mem_nameSet
    simp only [hset, List.mem_flatMap, List.mem_map]
    refine exists_congr fun form => and_congr_right fun _ => ?_
    constructor
    · rintro ⟨chars, hchars, rfl⟩
      rwa [String.toList_ofList]
    · exact fun hname => ⟨name.toList, hname, String.ofList_toList⟩
  simp only [hnames, Declaration.mem_names_iff]

/-! ## Stated types that are open -/

/-- A constant as far as the colon in front of its stated type. -/
def annotated : Declaration :=
  ⟨announced ["export", "const"], seq maybeBlanks (exactly ":")⟩

/-- Whether every constant of a stated type has an equals sign behind it. -/
def ClosedAnnotations (text : List Char) : Prop :=
  ∀ i, (annotated.matchAt? text i).isSome = true → '=' ∈ text.drop i

/-- An arrow function of a stated type is a constant of a stated type. -/
theorem isSome_annotated_of_typed (h : (typedFunction.matchAt? text i).isSome = true) :
    (annotated.matchAt? text i).isSome = true := by
  obtain ⟨lead, name, _, back, hparts⟩ := Declaration.isSome_matchAt?_iff.mp h
  obtain ⟨gap, _, rfl, hgap, colon, rest, rfl, hcolon, -⟩ := hparts.describes_tail
  have hassoc : gap ++ (colon ++ rest) ++ back = gap ++ colon ++ (rest ++ back) := by
    simp only [List.append_assoc]
  have hahead := hparts.ahead_eq
  have hlead := hparts.describes_lead
  have hwhole := hparts.isWhole
  rw [hassoc] at hahead hlead hwhole
  exact Declaration.isSome_matchAt?_iff.mpr ⟨lead, name, gap ++ colon, rest ++ back, hahead, hlead,
    hparts.name_ne_nil, hparts.isWord, hwhole, gap, colon, rfl, hgap, hcolon⟩

/-- **In front of a semicolon a match of a function ends**, if the constants of a
stated type are closed. -/
theorem end_le_of_closed (hclosed : ClosedAnnotations text) (hd : d ∈ functionForms)
    (hj : j ≤ text.length) (h : d.matchAt? (text ++ ';' :: more) j = some m) :
    m.2 ≤ text.length := by
  have hsome : (d.matchAt? (text ++ ';' :: more) j).isSome = true := by rw [h]; rfl
  have hsame : d.matchAt? (text ++ ';' :: more) j = d.matchAt? text j := by
    rcases mem_functionForms.mp hd with rfl | rfl | rfl
    · exact Declaration.matchAt?_append_wall hj (by decide) (by decide) (.inl (by decide)) more
    · exact Declaration.matchAt?_append_wall hj (by decide) (by decide) (.inl (by decide)) more
    · -- the sign that ends the stated type is in the text in front
      have hannotated := isSome_annotated_of_typed hsome
      rw [Declaration.matchAt?_append_wall hj (by decide) (by decide) (.inl (by decide)) more]
        at hannotated
      exact Declaration.matchAt?_append_wall hj (by decide) (by decide)
        (.inr ⟨'=', by decide, by decide, by decide, hclosed j hannotated⟩) more
  obtain ⟨name, e⟩ := m
  rw [hsame] at h
  exact (Declaration.lt_of_matchAt? h).2

/-- A match of a function begins with the first letter of `export`. -/
theorem getElem?_of_match (hd : d ∈ functionForms) (h : (d.matchAt? text i).isSome = true) :
    text[i]? = some 'e' := by
  obtain ⟨lead, name, tail, back, hparts⟩ := Declaration.isSome_matchAt?_iff.mp h
  obtain ⟨rest, rfl, -⟩ := exists_lead (leadsWithExport_of_mem hd) hparts
  have hahead : text.drop i = _ := hparts.ahead_eq
  rw [← List.head?_drop, hahead]
  rfl

theorem isUnanchored_of_mem (hd : d ∈ functionForms) : d.lead.isUnanchored = true := by
  have hforms : ∀ d ∈ functionForms, d.lead.isUnanchored = true := by decide
  exact hforms d hd

theorem joined_eq (text more : List Char) :
    text ++ ";\n".toList ++ more = text ++ ';' :: '\n' :: more := List.append_assoc text _ more

theorem length_front (text : List Char) : (text ++ ";\n".toList).length = text.length + 2 :=
  List.length_append

/-- **What is exported behind a semicolon** is exported in the joined text, if
the constants of a stated type are closed. -/
theorem functions_subset_joined (hclosed : ClosedAnnotations text) (more : List Char) :
    (extract more).functions ⊆ (extract (text ++ ";\n".toList ++ more)).functions := by
  intro name hname
  obtain ⟨form, hform, i, e, hkept, hmatch⟩ := mem_functions_iff.mp hname
  have hlead := isUnanchored_of_mem hform
  have hinside : ∀ j < (text ++ ";\n".toList).length, ∀ m,
      form.matchAt? (text ++ ";\n".toList ++ more) j = some m →
        m.2 ≤ (text ++ ";\n".toList).length := by
    intro j hj m hm
    rw [joined_eq] at hm
    rw [length_front] at hj ⊢
    rcases Nat.lt_succ_iff_lt_or_eq.mp hj with hlt | rfl
    · exact Nat.le_add_right_of_le (end_le_of_closed hclosed hform (Nat.le_of_lt_succ hlt) hm)
    · have hfirst := getElem?_of_match hform (by rw [hm]; rfl)
      rw [List.getElem?_append_right (Nat.le_add_right _ 1), Nat.add_sub_cancel_left] at hfirst
      exact absurd hfirst (by simp)
  refine mem_functions_iff.mpr ⟨form, hform, (text ++ ";\n".toList).length + i,
    (text ++ ";\n".toList).length + e, (Declaration.kept_append_iff hlead hinside i).mpr hkept, ?_⟩
  rw [Declaration.matchAt?_append hlead, hmatch]
  rfl

/-! ## What an open stated type hides -/

/-- A text that exports an arrow function of a stated type. -/
def typedExport (name : List Char) : List Char := "export const ".toList ++ (name ++ ":=(".toList)

theorem typedExport_eq (name : List Char) : typedExport name =
    ("export const ".toList ++ (name ++ [':'])) ++ ['=', '('] := by
  rw [List.append_assoc, List.append_assoc]
  rfl

theorem annotated_parts {c : Cursor} (hne : name ≠ [])
    (hword : ∀ x ∈ name, Text.isWordChar x = true)
    (hahead : c.ahead = "export const ".toList ++ (name ++ (":".toList ++ more))) :
    annotated.Parts c "export const ".toList name ":".toList more := by
  have hgap : [' '] ≠ [] ∧ AreBlank [' '] :=
    ⟨List.cons_ne_nil _ _, List.forall_mem_singleton.mpr (by decide)⟩
  exact ⟨hahead, describes_const.mpr ⟨[' '], [' '], by decide, hgap, hgap⟩, hne, hword, rfl,
    [], ":".toList, rfl, List.forall_mem_nil _, describes_exactly.mpr rfl⟩

/-- Behind the colon of a stated type there is everything up to the next equals
sign. -/
theorem exists_run {lead tail back : List Char}
    (h : annotated.Parts (Cursor.place text i) lead name tail back)
    (hahead : text.drop i = front ++ '=' :: more) (hfree : '=' ∉ front) :
    ∃ run, back = run ++ '=' :: more ∧ '=' ∉ run := by
  have hpassed : '=' ∉ lead ++ (name ++ tail) :=
    List.not_mem_append (not_mem_of_refuses (by decide) h.describes_lead)
      (List.not_mem_append (h.not_mem_name (by decide))
        (not_mem_of_refuses (by decide) h.describes_tail))
  have hsame : (lead ++ (name ++ tail)) ++ back = front ++ '=' :: more := by
    rw [← hahead, List.append_assoc, List.append_assoc]
    exact h.ahead_eq.symm
  obtain ⟨run, rfl, rfl⟩ := Text.exists_before hpassed hsame
  exact ⟨run, rfl, fun hmem => hfree (List.mem_append_right _ hmem)⟩

/-- **A stated type goes on to the next equals sign**, whatever stands in
between. -/
theorem isSome_typed_of_annotated (h : (annotated.matchAt? text i).isSome = true)
    (hahead : text.drop i = front ++ '=' :: '(' :: more) (hfree : '=' ∉ front) :
    (typedFunction.matchAt? text i).isSome = true := by
  obtain ⟨lead, name, tail, back, hparts⟩ := Declaration.isSome_matchAt?_iff.mp h
  obtain ⟨run, rfl, hrun⟩ := exists_run hparts hahead hfree
  obtain ⟨gap, colon, rfl, hgap, hcolon⟩ := hparts.describes_tail
  have hassoc : gap ++ colon ++ (run ++ '=' :: '(' :: more) =
      gap ++ (colon ++ ([] ++ (run ++ "=(".toList))) ++ more := by
    simp
  have hplace := hparts.ahead_eq
  have hlead := hparts.describes_lead
  have hwhole := hparts.isWhole
  rw [hassoc] at hplace hlead hwhole
  have hadmits : ∀ x ∈ run, (Glyph.anyBut '=').admits x = true :=
    fun x hx => bne_iff_ne.mpr fun heq => hrun (heq ▸ hx)
  have harrow (passed : Option Char) : arrow.Describes passed "=(".toList more :=
    ⟨"=".toList, "(".toList, rfl, describes_exactly.mpr rfl, [], "(".toList, rfl,
      List.forall_mem_nil _, [], "(".toList, rfl, .inr rfl, describes_exactly.mpr rfl⟩
  exact Declaration.isSome_matchAt?_iff.mpr ⟨lead, name, _, more, hplace, hlead,
    hparts.name_ne_nil, hparts.isWord, hwhole, gap, _, rfl, hgap, colon, _, rfl, hcolon, [], _, rfl,
    List.forall_mem_nil _, run, _, rfl, hadmits, harrow _⟩

/-- The name that such a text exports. -/
theorem matchAt?_typedExport (hne : name ≠ []) (hword : ∀ x ∈ name, Text.isWordChar x = true) :
    ∃ e, typedFunction.matchAt? (typedExport name) 0 = some (name, e) := by
  have hparts : annotated.Parts (Cursor.place (typedExport name) 0) "export const ".toList name
      ":".toList "=(".toList := annotated_parts hne hword rfl
  have hahead : (typedExport name).drop 0 =
      ("export const ".toList ++ (name ++ [':'])) ++ ['=', '('] := typedExport_eq name
  have hfree : '=' ∉ "export const ".toList ++ (name ++ [':']) :=
    List.not_mem_append (by decide)
      (List.not_mem_append (hparts.not_mem_name (by decide)) (by decide))
  obtain ⟨⟨name', e⟩, hm⟩ := Option.isSome_iff_exists.mp (isSome_typed_of_annotated
    (Declaration.isSome_matchAt?_iff.mpr ⟨_, _, _, _, hparts⟩) hahead hfree)
  obtain ⟨lead, tail, back, hparts', -⟩ := Declaration.exists_parts hm
  obtain ⟨-, rfl, -⟩ := eq_of_parts_const rfl rfl hparts hparts' rfl
  exact ⟨e, hm⟩

/-- No other form finds a function in it. -/
theorem eq_typedFunction_of_match (hne : name ≠ []) (hword : ∀ x ∈ name, Text.isWordChar x = true)
    (hfree : 'u' ∉ name) (hd : d ∈ functionForms)
    (h : (d.matchAt? (typedExport name) 0).isSome = true) : d = typedFunction := by
  obtain ⟨lead, name', tail, back, hparts⟩ := Declaration.isSome_matchAt?_iff.mp h
  have hahead : typedExport name = lead ++ (name' ++ (tail ++ back)) := hparts.ahead_eq
  rcases mem_functionForms.mp hd with rfl | rfl | rfl
  · -- the word `function` is not there
    have hmem : 'u' ∈ typedExport name := hahead ▸ List.mem_append_left _
      (mem_of_describes (by decide) hparts.describes_lead)
    exact absurd hmem (List.not_mem_append (by decide) (List.not_mem_append hfree (by decide)))
  · -- behind the name there is a colon and no equals sign
    have hannotated : annotated.Parts (Cursor.place (typedExport name) 0) "export const ".toList
        name ":".toList "=(".toList := annotated_parts hne hword rfl
    obtain ⟨-, -, hbehind⟩ := eq_of_parts_const rfl rfl hannotated hparts rfl
    obtain ⟨blanks, _, rfl, hblanks, _, rest, rfl, hsign, -⟩ := hparts.describes_tail
    obtain rfl := describes_exactly.mp hsign
    have hblank : AreBlank blanks := hblanks
    rw [List.append_assoc] at hbehind
    obtain ⟨-, hsame⟩ := Text.eq_of_run_append (List.forall_mem_nil _) hblank rfl rfl hbehind
    exact absurd (List.cons_eq_cons.mp hsame).1 (by decide)
  · rfl

/-- A name that is longer than the text in front is not found in front. -/
theorem place_of_long_name (hlong : text.length < name.length) (hfree : 'e' ∉ name)
    (hd : d ∈ functionForms)
    (h : d.matchAt? (text ++ ';' :: '\n' :: typedExport name) i = some (name, e)) :
    i = text.length + 2 := by
  obtain ⟨lead, tail, back, hparts, -⟩ := Declaration.exists_parts h
  have hfirst := getElem?_of_match hd (by rw [h]; rfl)
  rcases Nat.lt_or_ge text.length i with hbehind | hfront
  · -- the only such letter behind the text in front begins the word
    obtain ⟨n, rfl⟩ := Nat.exists_eq_add_of_lt hbehind
    rw [Nat.add_assoc, List.getElem?_append_right (Nat.le_add_right _ _), Nat.add_sub_cancel_left,
      List.getElem?_cons_succ] at hfirst
    match n with
    | 0 => exact absurd hfirst (by simp)
    | 1 => rfl
    | n + 2 =>
      have hmem : 'e' ∈ "xport const ".toList ++ (name ++ ":=(".toList) :=
        List.mem_of_getElem? (i := n) hfirst
      exact absurd hmem (List.not_mem_append (by decide) (List.not_mem_append hfree (by decide)))
  · have hsame : (lead ++ name) ++ (tail ++ back) =
        text.drop i ++ ';' :: '\n' :: typedExport name := by
      rw [List.append_assoc, ← List.drop_append_of_le_length hfront]
      exact hparts.ahead_eq.symm
    have hlead : d.lead.refuses ';' = true := (isWalledBy_of_mem_functionForms hd).1
    have hpassed : ';' ∉ lead ++ name := List.not_mem_append
      (not_mem_of_refuses hlead hparts.describes_lead) (hparts.not_mem_name (by decide))
    obtain ⟨before, hbefore, -⟩ := Text.exists_before hpassed hsame
    have hlength := congrArg List.length hbefore
    simp only [List.length_append, List.length_drop] at hlength
    omega

theorem mem_functions_typedExport (hne : name ≠ [])
    (hword : ∀ x ∈ name, Text.isWordChar x = true) :
    String.ofList name ∈ (extract (typedExport name)).functions := by
  obtain ⟨e, he⟩ := matchAt?_typedExport hne hword
  refine mem_functions_iff.mpr
    ⟨typedFunction, by decide, 0, e, ?_, by rw [he, String.toList_ofList]⟩
  exact (typedFunction_kept_iff _ 0).mpr
    ⟨by rw [he]; rfl, fun j hlt => absurd hlt (Nat.not_lt_zero j)⟩

/-- The stated type of an open constant goes on into what follows, up to the
equals sign there. -/
theorem not_kept_of_open (hannotated : (annotated.matchAt? text i).isSome = true)
    (hopen : '=' ∉ text.drop i) (hfree : '=' ∉ name) :
    ¬ typedFunction.Kept (text ++ ';' :: '\n' :: typedExport name) (text.length + 2) := by
  intro hkept
  have hi : i ≤ text.length := Nat.le_of_lt (Declaration.lt_length_of_isSome hannotated)
  have hahead : (text ++ ';' :: '\n' :: typedExport name).drop i =
      (text.drop i ++ ';' :: '\n' :: ("export const ".toList ++ (name ++ [':']))) ++
        ['=', '('] := by
    rw [List.drop_append_of_le_length hi, typedExport_eq, List.append_assoc (text.drop i)]
    rfl
  have htyped :
      (typedFunction.matchAt? (text ++ ';' :: '\n' :: typedExport name) i).isSome = true := by
    have hconst : '=' ∉ ";\nexport const ".toList ++ (name ++ [':']) :=
      List.not_mem_append (by decide) (List.not_mem_append hfree (by decide))
    refine isSome_typed_of_annotated ?_ hahead (List.not_mem_append hopen hconst)
    rwa [Declaration.matchAt?_append_wall hi (by decide) (by decide) (.inl (by decide))]
  have hsign := ((typedFunction_kept_iff _ _).mp hkept).2 i (by omega) htyped
  have hbetween : ((text ++ ';' :: '\n' :: typedExport name).drop i).take (text.length + 2 - i) =
      text.drop i ++ [';', '\n'] := by
    rw [List.drop_append_of_le_length hi, List.append_cons, List.append_cons,
      List.append_assoc _ [';']]
    refine List.take_left' ?_
    rw [List.length_append, List.length_drop]
    exact (Nat.sub_add_comm hi).symm
  rw [hbetween] at hsign
  exact List.not_mem_append hopen (by decide) hsign

/-- **An open stated type hides an export** of some text behind it. -/
theorem closed_of_functions_subset (h : ∀ more,
    (extract more).functions ⊆ (extract (text ++ ";\n".toList ++ more)).functions) :
    ClosedAnnotations text := by
  intro i hannotated
  by_contra hopen
  -- a name that no text in front can hold
  obtain ⟨name, hne, hlong, hletters⟩ : ∃ name : List Char, name ≠ [] ∧
      text.length < name.length ∧ ∀ x ∈ name, x = 'q' :=
    ⟨List.replicate (text.length + 1) 'q', List.cons_ne_nil _ _, by simp,
      fun x hx => List.eq_of_mem_replicate hx⟩
  have hfree {x : Char} (hx : x ≠ 'q') : x ∉ name := fun hmem => hx (hletters x hmem)
  have hword : ∀ x ∈ name, Text.isWordChar x = true := fun x hx => hletters x hx ▸ by decide
  obtain ⟨form, hform, k, e, hkept, hmatch⟩ :=
    mem_functions_iff.mp (h _ (mem_functions_typedExport hne hword))
  rw [joined_eq] at hkept hmatch
  rw [String.toList_ofList] at hmatch
  obtain rfl := place_of_long_name hlong (hfree (by decide)) hform hmatch
  have hlead := isUnanchored_of_mem hform
  have hsome : (form.matchAt? (typedExport name) 0).isSome = true := by
    have halone := Declaration.matchAt?_append hlead (text ++ ";\n".toList) (typedExport name) 0
    rw [joined_eq, length_front, Nat.add_zero, hmatch] at halone
    rw [← Option.isSome_map, ← halone]
    rfl
  obtain rfl := eq_typedFunction_of_match hne hword (hfree (by decide)) hform hsome
  exact not_kept_of_open hannotated hopen (hfree (by decide)) hkept

/-! ## The functions that are found -/

/-- Which functions a text exports. The names are those of the matches that are
kept. An arrow function is always kept, one of a stated type if an equals sign
stands behind every match before it, and a declared one if no match before it
takes its word `export` for the end of a name. -/
structure FunctionsFound (text : List Char) : Prop where
  names (name : String) : name ∈ (extract text).functions ↔ ∃ form ∈ functionForms, ∃ i e,
    form.Kept text i ∧ form.matchAt? text i = some (name.toList, e)
  arrow (i : ℕ) : arrowFunction.Kept text i ↔ (arrowFunction.matchAt? text i).isSome = true
  typed (i : ℕ) : typedFunction.Kept text i ↔ (typedFunction.matchAt? text i).isSome = true ∧
    ∀ j, j < i → (typedFunction.matchAt? text j).isSome = true → '=' ∈ (text.drop j).take (i - j)
  declared (i : ℕ) : declaredFunction.Kept text i ↔
    (declaredFunction.matchAt? text i).isSome = true ∧
      ∀ j before, j < i → declaredFunction.Kept text j →
        declaredFunction.matchAt? text j ≠ some (before ++ "export".toList, i + "export".length)
  joined : ClosedAnnotations text ↔
    ∀ more, (extract more).functions ⊆ (extract (text ++ ";\n".toList ++ more)).functions

/-- **The functions that a text exports.** -/
theorem functions_found (text : List Char) : FunctionsFound text where
  names _ := mem_functions_iff
  arrow := arrowFunction_kept_iff text
  typed := typedFunction_kept_iff text
  declared := declaredFunction_kept_iff text
  joined := ⟨functions_subset_joined, closed_of_functions_subset⟩

/-- A constant of a stated type without an equals sign hides the arrow function
of a stated type on the next line, and a function of the name `export` one that
is declared at its name. -/
theorem exports_hidden :
    typedFunction.matchAt? ("export const limit: number".toList ++ ";\n".toList ++
      "export const load: Handler = (req) => req;\n".toList) 28 = some ("load".toList, 58) ∧
    (extract ("export const limit: number".toList ++ ";\n".toList ++
      "export const load: Handler = (req) => req;\n".toList)).functions = ["limit"] ∧
    (extract "export const load: Handler = (req) => req;\n".toList).functions = ["load"] ∧
    declaredFunction.matchAt? "export function export function foo".toList 16 =
      some ("foo".toList, 35) ∧
    (extract "export function export function foo".toList).functions = ["export"] := by
  decide +kernel

end Signals

end DocCoverage
