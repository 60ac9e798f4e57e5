import DocCoverage.Proofs.Json.Roundtrip
import DocCoverage.Settings.Store
import Mathlib.Data.List.Nodup
/-!
# Settings — records that are read field by field

A record that is given by its fields is read field by field (`ofJson?_obj`).
Settings whose numbers are finite and fit, and whose tables are in order, are
read back from their JSON (`Settings.ofJson?_toJson`), the built-in ones
among them.
-/

namespace DocCoverage

/-! ## Fields of records -/

/-- Cut-offs are read field by field. -/
theorem Thresholds.ofJson?_obj {fields : Fields} {t : Thresholds} :
    Thresholds.ofJson? (.obj fields) = some t ↔
      Json.fieldOr? Json.asNat32? builtIn.low (Fields.get? "low" fields) = some t.low ∧
      Json.fieldOr? Json.asNat32? builtIn.medium (Fields.get? "medium" fields) = some t.medium ∧
      Json.fieldOr? Json.asNat32? builtIn.high (Fields.get? "high" fields) = some t.high ∧
      Json.fieldOr? Json.asNat32? builtIn.critical (Fields.get? "critical" fields) =
        some t.critical := by
  obtain ⟨low, medium, high, critical⟩ := t
  simp only [ofJson?, Json.someFields?, List.map_cons, List.map_nil, Option.bind_eq_bind,
    Option.bind_some, Option.bind_eq_some_iff, Option.pure_def, Option.some.injEq, mk.injEq]
  constructor
  · rintro ⟨_, hlow, _, hmedium, _, hhigh, _, hcritical, rfl, rfl, rfl, rfl⟩
    exact ⟨hlow, hmedium, hhigh, hcritical⟩
  · rintro ⟨hlow, hmedium, hhigh, hcritical⟩
    exact ⟨_, hlow, _, hmedium, _, hhigh, _, hcritical, rfl, rfl, rfl, rfl⟩

/-- Standards are read field by field. -/
theorem Standards.ofJson?_obj {fields : Fields} {s : Standards} :
    Standards.ofJson? (.obj fields) = some s ↔
      Json.fieldOr? Json.asFloat? builtIn.minimumQuality
          (Fields.get? "minimum_quality_score" fields) = some s.minimumQuality ∧
      Json.fieldOr? Json.asFloat? builtIn.minimumCoverage
          (Fields.get? "minimum_coverage_percentage" fields) = some s.minimumCoverage ∧
      Json.fieldOr? (Json.asMap? Json.asStrings?) builtIn.requiredSections
          (Fields.get? "required_sections" fields) = some s.requiredSections ∧
      Json.fieldOr? (Json.asMap? Json.asNat32?) builtIn.minimumWords
          (Fields.get? "minimum_word_count" fields) = some s.minimumWords := by
  obtain ⟨quality, coverage, sections, words⟩ := s
  simp only [ofJson?, Json.someFields?, List.map_cons, List.map_nil, Option.bind_eq_bind,
    Option.bind_some, Option.bind_eq_some_iff, Option.pure_def, Option.some.injEq, mk.injEq]
  constructor
  · rintro ⟨_, hquality, _, hcoverage, _, hsections, _, hwords, rfl, rfl, rfl, rfl⟩
    exact ⟨hquality, hcoverage, hsections, hwords⟩
  · rintro ⟨hquality, hcoverage, hsections, hwords⟩
    exact ⟨_, hquality, _, hcoverage, _, hsections, _, hwords, rfl, rfl, rfl, rfl⟩

/-- Source rules are read field by field. -/
theorem SourceRules.ofJson?_obj {fields : Fields} {s : SourceRules} :
    SourceRules.ofJson? (.obj fields) = some s ↔
      Json.fieldOr? (Json.asMap? Json.asString?) builtIn.filePatterns
          (Fields.get? "file_patterns" fields) = some s.filePatterns ∧
      Json.fieldOr? Json.asStrings? builtIn.excludePatterns
          (Fields.get? "exclude_patterns" fields) = some s.excludePatterns ∧
      Json.fieldOr? Thresholds.ofJson? builtIn.thresholds
          (Fields.get? "complexity_thresholds" fields) = some s.thresholds := by
  obtain ⟨files, excluded, thresholds⟩ := s
  simp only [ofJson?, Json.someFields?, List.map_cons, List.map_nil, Option.bind_eq_bind,
    Option.bind_some, Option.bind_eq_some_iff, Option.pure_def, Option.some.injEq, mk.injEq]
  constructor
  · rintro ⟨_, hfiles, _, hexcluded, _, hthresholds, rfl, rfl, rfl⟩
    exact ⟨hfiles, hexcluded, hthresholds⟩
  · rintro ⟨hfiles, hexcluded, hthresholds⟩
    exact ⟨_, hfiles, _, hexcluded, _, hthresholds, rfl, rfl, rfl⟩

/-- Document places are read field by field. -/
theorem DocumentPlaces.ofJson?_obj {fields : Fields} {d : DocumentPlaces} :
    DocumentPlaces.ofJson? (.obj fields) = some d ↔
      Json.fieldOr? Json.asStrings? builtIn.besideSource
          (Fields.get? "co_located_patterns" fields) = some d.besideSource ∧
      Json.fieldOr? Json.asStrings? builtIn.central
          (Fields.get? "centralized_patterns" fields) = some d.central := by
  obtain ⟨beside, central⟩ := d
  simp only [ofJson?, Json.someFields?, List.map_cons, List.map_nil, Option.bind_eq_bind,
    Option.bind_some, Option.bind_eq_some_iff, Option.pure_def, Option.some.injEq, mk.injEq]
  constructor
  · rintro ⟨_, hbeside, _, hcentral, rfl, rfl⟩
    exact ⟨hbeside, hcentral⟩
  · rintro ⟨hbeside, hcentral⟩
    exact ⟨_, hbeside, _, hcentral, rfl, rfl⟩

/-- Settings are read part by part. -/
theorem Settings.ofJson?_obj {fields : Fields} {s : Settings} :
    Settings.ofJson? (.obj fields) = some s ↔
      Json.fieldOr? Standards.ofJson? builtIn.standards
          (Fields.get? "documentation_standards" fields) = some s.standards ∧
      Json.fieldOr? SourceRules.ofJson? builtIn.sources
          (Fields.get? "code_analysis" fields) = some s.sources ∧
      Json.fieldOr? DocumentPlaces.ofJson? builtIn.documents
          (Fields.get? "documentation_discovery" fields) = some s.documents := by
  obtain ⟨standards, sources, documents⟩ := s
  simp only [ofJson?, Json.someFields?, List.map_cons, List.map_nil, Option.bind_eq_bind,
    Option.bind_some, Option.bind_eq_some_iff, Option.pure_def, Option.some.injEq, mk.injEq]
  constructor
  · rintro ⟨_, hstandards, _, hsources, _, hdocuments, rfl, rfl, rfl⟩
    exact ⟨hstandards, hsources, hdocuments⟩
  · rintro ⟨hstandards, hsources, hdocuments⟩
    exact ⟨_, hstandards, _, hsources, _, hdocuments, rfl, rfl, rfl⟩

/-- Standards of which nothing is said are the built-in ones. -/
theorem Standards.ofJson?_nil : Standards.ofJson? (.obj []) = some builtIn :=
  Standards.ofJson?_obj.mpr ⟨rfl, rfl, rfl, rfl⟩

/-! ## Reading back -/

theorem tableValue?_cons {α : Type} (entry : String × α) (table : List (String × α))
    (key : String) : tableValue? (entry :: table) key =
      if entry.1 = key then some entry.2 else tableValue? table key := by
  rw [tableValue?, List.find?_cons]
  by_cases heq : entry.1 = key
  · rw [beq_iff_eq.mpr heq, if_pos heq]
    rfl
  · rw [beq_eq_false_iff_ne.mpr heq, if_neg heq]
    rfl

namespace Json

variable {α : Type} {item? : Json → Option α} {table : List (String × α)} {fields : Fields}
  {names : List String} {values : List Json}

/-- A field that is there is read. -/
theorem fieldOr?_of_get? {fields : Fields} {name : String} {value : Json}
    {read? : Json → Option α} {default a : α} (hget : Fields.get? name fields = some value)
    (hread : read? value = some a) :
    fieldOr? read? default (Fields.get? name fields) = some a := by
  rw [hget]
  exact hread

theorem isScalar_ofFloat (x : Float) : (ofFloat x).isScalar = true := by
  rw [ofFloat]
  split <;> rfl

theorem numbersReadBack_ofFloat {x : Float} (h : IsReadBack (float x)) :
    NumbersReadBack (ofFloat x) := by
  rw [ofFloat]
  split
  · exact numbersReadBack_of_isScalar rfl fun _ => h
  · exact numbersReadBack_of_isScalar rfl (by simp)

theorem asFloat?_ofFloat {x : Float} (h : x.isFinite = true) : asFloat? (ofFloat x) = some x := by
  rw [ofFloat, if_pos h]
  rfl

theorem asNat?_nat {n bound : ℕ} (h : n < bound) : asNat? bound (nat n) = some n := by
  have hbound : 0 ≤ (n : ℤ) ∧ (n : ℤ) < bound := ⟨Int.natCast_nonneg n, Int.ofNat_lt.mpr h⟩
  rw [nat, asNat?, if_pos hbound]
  rfl

theorem asNat32?_nat {n : ℕ} (h : n < bound32) : asNat32? (nat n) = some n := asNat?_nat h

theorem asNat64?_nat {n : ℕ} (h : n < bound64) : asNat64? (nat n) = some n := asNat?_nat h

theorem mapM_map_eq_some {β : Type} {read? : β → Option α} {write : α → β} {items : List α}
    (h : ∀ item ∈ items, read? (write item) = some item) :
    (items.map write).mapM read? = some items := by
  induction items with
  | nil => rfl
  | cons item more ih =>
    obtain ⟨hitem, hmore⟩ := List.forall_mem_cons.mp h
    rw [List.map_cons, List.mapM_cons, hitem, ih hmore]
    rfl

theorem mapM_eq_some_of_zip {β γ : Type} {read? : β → Option γ} {items : List β} {results : List γ}
    (hlength : items.length = results.length)
    (h : ∀ pair ∈ items.zip results, read? pair.1 = some pair.2) :
    items.mapM read? = some results := by
  induction items generalizing results with
  | nil =>
    obtain rfl := List.eq_nil_of_length_eq_zero hlength.symm
    rfl
  | cons item more ih =>
    cases results with
    | nil => cases hlength
    | cons result rest =>
      obtain ⟨hitem, hmore⟩ := List.forall_mem_cons.mp h
      rw [List.mapM_cons, hitem, ih (Nat.succ.inj hlength) hmore]
      rfl

/-- **The fields of a record are read in order**, in whatever order they are
given. -/
theorem allFields?_object (hnodup : names.Nodup) (hlength : names.length = values.length) :
    allFields? names (object (names.zip values)) = some values := by
  have hnames : (names.zip values).map Prod.fst = names := List.map_fst_zip hlength.le
  refine mapM_eq_some_of_zip hlength fun pair hpair => Fields.get?_ofPairs hpair fun other hother => ?_
  have heq := List.inj_on_of_nodup_map (hnames.symm ▸ hnodup) hother hpair rfl
  exact congrArg Prod.snd heq

theorem asStrings?_strings (items : List String) : asStrings? (strings items) = some items :=
  mapM_map_eq_some fun _ _ => rfl

theorem asMap?_cons {name : String} {value : Json} :
    asMap? item? (obj ((name, value) :: fields)) = some table ↔
      ∃ x more, item? value = some x ∧ asMap? item? (obj fields) = some more ∧
        table = (name, x) :: more := by
  rw [asMap?, List.mapM_cons]
  simp only [Option.bind_eq_bind, Option.bind_eq_some_iff, Option.map_eq_some_iff, Option.pure_def,
    Option.some.injEq]
  constructor
  · rintro ⟨_, ⟨x, hx, rfl⟩, more, hmore, rfl⟩
    exact ⟨x, more, hx, hmore, rfl⟩
  · rintro ⟨x, more, hx, hmore, rfl⟩
    exact ⟨_, ⟨x, hx, rfl⟩, more, hmore, rfl⟩

/-- **Fields that can be read are read as a table** with the same look-ups. -/
theorem exists_asMap? (h : ∀ field ∈ fields, (item? field.2).isSome) : ∃ table,
    asMap? item? (obj fields) = some table ∧ table.map Prod.fst = fields.map Prod.fst ∧
      ∀ name, tableValue? table name = (fields.get? name).bind item? := by
  induction fields with
  | nil => exact ⟨[], rfl, rfl, fun _ => rfl⟩
  | cons field more ih =>
    obtain ⟨hfield, hmore⟩ := List.forall_mem_cons.mp h
    obtain ⟨x, hx⟩ := Option.isSome_iff_exists.mp hfield
    obtain ⟨table, htable, hnames, hvalues⟩ := ih hmore
    refine ⟨(field.1, x) :: table, asMap?_cons.mpr ⟨x, table, hx, htable, rfl⟩, ?_, fun name => ?_⟩
    · rw [List.map_cons, List.map_cons, hnames]
    · rw [tableValue?_cons, Fields.get?]
      split
      · exact hx.symm
      · exact hvalues name

/-- A table in order is read back if its entries are. -/
theorem asMap?_object {write : α → Json}
    (hsorted : table.Pairwise fun a b => a.1 < b.1)
    (hitems : ∀ entry ∈ table, item? (write entry.2) = some entry.2) :
    asMap? item? (object (table.map fun (key, x) => (key, write x))) = some table := by
  have hinc : Fields.Increasing (table.map fun (key, x) => (key, write x)) :=
    List.pairwise_map.mpr hsorted
  rw [object, hinc.ofPairs_eq, asMap?]
  refine mapM_map_eq_some fun entry hentry => ?_
  change (item? (write entry.2)).map (entry.1, ·) = some entry
  rw [hitems entry hentry]
  rfl

end Json

/-- Whether cut-offs fit 32 bits. -/
structure Thresholds.WellFormed (t : Thresholds) : Prop where
  low : t.low < Json.bound32
  medium : t.medium < Json.bound32
  high : t.high < Json.bound32
  critical : t.critical < Json.bound32

/-- Whether the floors of standards are finite, their tables in order, and
their numbers of words fit 32 bits. -/
structure Standards.WellFormed (s : Standards) : Prop where
  quality : s.minimumQuality.isFinite = true
  coverage : s.minimumCoverage.isFinite = true
  sections : s.requiredSections.Pairwise fun a b => a.1 < b.1
  words : s.minimumWords.Pairwise fun a b => a.1 < b.1
  fits : ∀ entry ∈ s.minimumWords, entry.2 < Json.bound32

/-- Whether the patterns are in order of their labels, and the cut-offs
fit. -/
structure SourceRules.WellFormed (s : SourceRules) : Prop where
  files : s.filePatterns.Pairwise fun a b => a.1 < b.1
  thresholds : s.thresholds.WellFormed

/-- Whether settings are such as they are read from JSON. -/
structure Settings.WellFormed (s : Settings) : Prop where
  standards : s.standards.WellFormed
  sources : s.sources.WellFormed

theorem Thresholds.ofJson?_toJson {t : Thresholds} (h : t.WellFormed) :
    Thresholds.ofJson? t.toJson = some t := by
  rw [toJson, Json.object, ofJson?_obj]
  exact ⟨Json.fieldOr?_of_get? rfl (Json.asNat32?_nat h.low),
    Json.fieldOr?_of_get? rfl (Json.asNat32?_nat h.medium),
    Json.fieldOr?_of_get? rfl (Json.asNat32?_nat h.high),
    Json.fieldOr?_of_get? rfl (Json.asNat32?_nat h.critical)⟩

theorem Standards.ofJson?_toJson {s : Standards} (h : s.WellFormed) :
    Standards.ofJson? s.toJson = some s := by
  rw [toJson, Json.object, ofJson?_obj]
  exact ⟨Json.fieldOr?_of_get? rfl (Json.asFloat?_ofFloat h.quality),
    Json.fieldOr?_of_get? rfl (Json.asFloat?_ofFloat h.coverage),
    Json.fieldOr?_of_get? rfl
      (Json.asMap?_object h.sections fun entry _ => Json.asStrings?_strings entry.2),
    Json.fieldOr?_of_get? rfl
      (Json.asMap?_object h.words fun entry hentry => Json.asNat32?_nat (h.fits entry hentry))⟩

theorem SourceRules.ofJson?_toJson {s : SourceRules} (h : s.WellFormed) :
    SourceRules.ofJson? s.toJson = some s := by
  rw [toJson, Json.object, ofJson?_obj]
  exact ⟨Json.fieldOr?_of_get? rfl (Json.asMap?_object h.files fun _ _ => rfl),
    Json.fieldOr?_of_get? rfl (Json.asStrings?_strings s.excludePatterns),
    Json.fieldOr?_of_get? rfl (Thresholds.ofJson?_toJson h.thresholds)⟩

theorem DocumentPlaces.ofJson?_toJson (d : DocumentPlaces) :
    DocumentPlaces.ofJson? d.toJson = some d := by
  rw [toJson, Json.object, ofJson?_obj]
  exact ⟨Json.fieldOr?_of_get? rfl (Json.asStrings?_strings d.besideSource),
    Json.fieldOr?_of_get? rfl (Json.asStrings?_strings d.central)⟩

/-- **Settings are read back from their JSON.** -/
theorem Settings.ofJson?_toJson {s : Settings} (h : s.WellFormed) :
    Settings.ofJson? s.toJson = some s := by
  rw [toJson, Json.object, ofJson?_obj]
  exact ⟨Json.fieldOr?_of_get? rfl (Standards.ofJson?_toJson h.standards),
    Json.fieldOr?_of_get? rfl (SourceRules.ofJson?_toJson h.sources),
    Json.fieldOr?_of_get? rfl (DocumentPlaces.ofJson?_toJson s.documents)⟩

theorem Settings.wellFormed_builtIn : builtIn.WellFormed where
  standards :=
    { quality := by decide +kernel
      coverage := by decide +kernel
      sections := by decide +kernel
      words := by decide +kernel
      fits := by decide +kernel }
  sources :=
    { files := by decide +kernel
      thresholds := by constructor <;> decide }

/-! ## Settings that can be read -/

namespace SettingsStore

variable {store : SettingsStore} {settings : Settings} {fs : FileSystem} {path : Path}
  {content : Content}

/-- The gathered value can be read as settings. -/
def Readable (store : SettingsStore) : Prop := (Settings.ofJson? store.values).isSome

theorem build_of_ofJson? (h : Settings.ofJson? store.values = some settings) :
    store.build = settings := by
  rw [build, h, Option.getD_some]

/-- Settings that cannot be read count as the built-in ones. -/
theorem build_of_not_readable (h : ¬ store.Readable) : store.build = Settings.builtIn := by
  rw [build, Option.not_isSome_iff_eq_none.mp h, Option.getD_none]

/-- The built-in values are read as the built-in settings. -/
theorem build_builtIn : builtIn.build = Settings.builtIn :=
  build_of_ofJson? (Settings.ofJson?_toJson Settings.wellFormed_builtIn)

/-- The content of a file that is there is laid over the built-in settings. -/
theorem load_of_content? (h : fs.content? path = some content) :
    load fs path = (ofContent content, fs) := by
  have hthere : fs.leadsSomewhere path = true := by
    rw [FileSystem.content?] at h
    rw [FileSystem.leadsSomewhere]
    cases hlook : fs.lookUp? path with
    | none =>
      rw [hlook] at h
      cases h
    | some entry => rfl
  rw [load, if_pos hthere, h]

end SettingsStore

end DocCoverage
