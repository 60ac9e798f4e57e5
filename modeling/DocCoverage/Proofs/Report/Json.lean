import DocCoverage.Proofs.Json.Roundtrip
import DocCoverage.Proofs.Settings.Records
import DocCoverage.Report.Json
/-!
# Reports — what is written is read back

A report is written in the order of its fields and read in any order. Its two
texts are read as the same value, and this value as the report itself
(`DatedReport.reads_back`), if its counts fit 64 bits and its two
floating-point numbers are finite and read back as they are. A breakdown is
read back because each key has a name of its own (`Breakdown.ofJson?_object`).
-/

namespace DocCoverage

/-! ## Keys -/

theorem GapKind.ofKey?_key (kind : GapKind) : ofKey? kind.key = some kind := by
  cases kind <;> rfl

theorem FileType.ofKey?_key (fileType : FileType) : ofKey? fileType.key = some fileType := by
  cases fileType <;> rfl

theorem FileType.mem_all (fileType : FileType) : fileType ∈ all := by
  cases fileType <;> decide

theorem Priority.ofKey?_key (priority : Priority) : ofKey? priority.key = some priority := by
  cases priority <;> rfl

theorem Priority.mem_all (priority : Priority) : priority ∈ all := by
  cases priority <;> decide

theorem Effort.ofKey?_key (effort : Effort) : ofKey? effort.key = some effort := by
  cases effort <;> rfl

/-! ## Records -/

namespace Json

theorem sorted_zip (names : List String) (values : List Json) :
    (obj (names.zip values)).sorted = object (names.zip (values.map sorted)) := by
  rw [sorted, sortedFields_eq, List.zip_map_right]
  rfl

@[simp] theorem sorted_nat (n : ℕ) : (nat n).sorted = nat n := sorted_of_isScalar rfl

@[simp] theorem sorted_str (s : String) : (str s).sorted = str s := sorted_of_isScalar rfl

@[simp] theorem sorted_ofFloat (x : Float) : (ofFloat x).sorted = ofFloat x :=
  sorted_of_isScalar (isScalar_ofFloat x)

@[simp] theorem sorted_strings (items : List String) : (strings items).sorted = strings items := by
  rw [strings, sorted, sortedItems_eq, List.map_map]
  rfl

/-- The fields of a record are read from what was written of them. -/
theorem allFields?_sorted {names : List String} {values : List Json} (hnodup : names.Nodup)
    (hlength : names.length = values.length) :
    allFields? names (obj (names.zip values)).sorted = some (values.map sorted) := by
  rw [sorted_zip, allFields?_object hnodup (by rw [List.length_map, hlength])]

end Json

theorem Gap.nodup_fieldNames : fieldNames.Nodup := by decide

/-- **A gap is read back.** -/
theorem Gap.ofJson?_sorted (g : Gap) : ofJson? g.toJson.sorted = some g := by
  have hfields : g.toJson.sorted.allFields? fieldNames = some [
      .str g.codeFile.text, .str g.document.text, .str g.kind.key, .str g.fileType.key,
      .str g.priority.key, .strings g.requiredSections, .strings g.issues, .str g.effort.key] := by
    rw [toJson, Json.allFields?_sorted Gap.nodup_fieldNames rfl]
    simp only [List.map_cons, List.map_nil, Json.sorted_strings, Json.sorted]
  rw [ofJson?, hfields]
  simp only [Option.bind_eq_bind, Option.bind_some, Json.asString?, GapKind.ofJson?,
    FileType.ofJson?, Priority.ofJson?, Effort.ofJson?, Json.asName?, GapKind.ofKey?_key,
    FileType.ofKey?_key, Priority.ofKey?_key, Effort.ofKey?_key, Json.asStrings?_strings,
    Option.pure_def]

/-- Counts are read field by field. -/
theorem GapCounts.ofJson?_of_fields {value missing inadequate : Json} {c : GapCounts}
    (hfields : value.allFields? ["missing", "inadequate"] = some [missing, inadequate])
    (hmissing : missing.asNat64? = some c.missing)
    (hinadequate : inadequate.asNat64? = some c.inadequate) : ofJson? value = some c := by
  rw [ofJson?, hfields]
  simp only [Option.bind_eq_bind, Option.bind_some, hmissing, hinadequate, Option.pure_def]

/-- Counts that fit are read back. -/
theorem GapCounts.ofJson?_sorted {c : GapCounts} (hmissing : c.missing < Json.bound64)
    (hinadequate : c.inadequate < Json.bound64) : ofJson? c.toJson.sorted = some c := by
  have hfields : c.toJson.sorted.allFields? ["missing", "inadequate"] =
      some [.nat c.missing, .nat c.inadequate] := by
    have hzip : c.toJson =
        .obj (["missing", "inadequate"].zip [.nat c.missing, .nat c.inadequate]) := rfl
    rw [hzip, Json.allFields?_sorted (by decide) rfl]
    simp only [List.map_cons, List.map_nil, Json.sorted_nat]
  exact ofJson?_of_fields hfields (Json.asNat64?_nat hmissing) (Json.asNat64?_nat hinadequate)

/-! ## Breakdowns -/

namespace Breakdown

variable {κ α : Type} {keys : List κ} {name : κ → String} {ofName? : String → Option κ}
  {toJson : α → Json} {item? : Json → Option α} {map : κ → Option α}

theorem mem_toFields {field : String × Json} : field ∈ toFields keys name toJson map ↔
    ∃ key ∈ keys, ∃ x, map key = some x ∧ (name key, toJson x) = field := by
  rw [toFields, List.mem_filterMap]
  simp only [Option.map_eq_some_iff]

theorem sorted_toFields : (Json.obj (toFields keys name toJson map)).sorted =
    Json.object (toFields keys name (fun x => (toJson x).sorted) map) := by
  rw [Json.sorted, Json.sortedFields_eq, toFields, toFields, List.map_filterMap]
  simp only [Option.map_map]
  rfl

theorem name_injective (hname : ∀ key, ofName? (name key) = some key) :
    Function.Injective name := fun key other h => by
  have heq := hname key
  rw [h, hname other] at heq
  exact (Option.some.inj heq).symm

/-- The field of a key holds the value of the key. -/
theorem get?_toFields (hall : ∀ key, key ∈ keys) (hname : Function.Injective name) (key : κ) :
    (Fields.ofPairs (toFields keys name toJson map)).get? (name key) = (map key).map toJson := by
  cases hx : map key with
  | none =>
    refine Fields.get?_ofPairs_eq_none_iff.mpr fun hmem => ?_
    obtain ⟨field, hfield, heq⟩ := List.mem_map.mp hmem
    obtain ⟨other, -, x, hother, rfl⟩ := mem_toFields.mp hfield
    rw [hname heq, hx] at hother
    cases hother
  | some x =>
    refine Fields.get?_ofPairs (mem_toFields.mpr ⟨key, hall key, x, hx, rfl⟩) fun value hvalue => ?_
    obtain ⟨other, -, y, hother, heq⟩ := mem_toFields.mp hvalue
    obtain ⟨hsame, rfl⟩ := Prod.mk.inj heq
    rw [hname hsame, hx] at hother
    rw [Option.some.inj hother]

/-- **A breakdown is read back** if every key has a name of its own, and every
value is read back. -/
theorem ofJson?_object (hall : ∀ key, key ∈ keys) (hname : ∀ key, ofName? (name key) = some key)
    (hitem : ∀ key x, map key = some x → item? (toJson x) = some x) :
    ofJson? name ofName? item? (Json.object (toFields keys name toJson map)) = some map := by
  have hfields : ∀ field ∈ Fields.ofPairs (toFields keys name toJson map), ∃ key x,
      map key = some x ∧ (name key, toJson x) = field := by
    intro field hfield
    obtain ⟨key, -, hkey⟩ := mem_toFields.mp ((Fields.ofPairs_spec _).2 field hfield)
    exact ⟨key, hkey⟩
  have hreadable : ∀ field ∈ Fields.ofPairs (toFields keys name toJson map),
      (item? field.2).isSome := by
    intro field hfield
    obtain ⟨key, x, hx, rfl⟩ := hfields field hfield
    rw [hitem key x hx]
    rfl
  obtain ⟨table, htable, hnames, hvalues⟩ := Json.exists_asMap? hreadable
  have hknown : (table.all fun entry => (ofName? entry.1).isSome) = true := by
    refine List.all_eq_true.mpr fun entry hentry => ?_
    obtain ⟨field, hfield, heq⟩ := List.mem_map.mp (hnames ▸ List.mem_map_of_mem hentry)
    obtain ⟨key, x, -, rfl⟩ := hfields field hfield
    rw [← heq, hname]
    rfl
  rw [ofJson?, Json.object, htable]
  simp only [Option.bind_eq_bind, Option.bind_some, hknown, if_true, Option.pure_def]
  refine congrArg some (funext fun key => ?_)
  rw [hvalues, get?_toFields hall (name_injective hname)]
  cases hx : map key with
  | none => rfl
  | some x => exact hitem key x hx

end Breakdown

/-! ## Reports -/

/-- Whether the counts of a report fit 64 bits. -/
structure Report.Fits (r : Report) : Prop where
  counters : ∀ n ∈ [r.total, r.documented, r.adequate, r.missing, r.inadequate], n < Json.bound64
  byPriority : ∀ priority n, r.byPriority priority = some n → n < Json.bound64
  byFileType : ∀ fileType counts, r.byFileType fileType = some counts →
    counts.missing < Json.bound64 ∧ counts.inadequate < Json.bound64

namespace DatedReport

variable {d : DatedReport}

theorem nodup_fieldNames : fieldNames.Nodup := by decide

/-- The values of the fields, in order. -/
def values (d : DatedReport) : List Json := [
  .nat d.report.total, .nat d.report.documented, .nat d.report.adequate,
  .nat d.report.missing, .nat d.report.inadequate, .ofFloat d.report.coverage,
  .ofFloat d.report.quality, .arr (d.report.gaps.map Gap.toJson),
  .obj (Breakdown.toFields Priority.all Priority.key Json.nat d.report.byPriority),
  .obj (Breakdown.toFields FileType.all FileType.key GapCounts.toJson d.report.byFileType),
  .str d.timestamp]

theorem toJson_eq (d : DatedReport) : d.toJson = .obj (fieldNames.zip d.values) := rfl

/-- A report is read field by field. -/
theorem ofJson?_of_fields {value total documented adequate missing inadequate coverage quality gaps
      byPriority byFileType timestamp : Json}
    (hfields : value.allFields? fieldNames = some [total, documented, adequate, missing,
      inadequate, coverage, quality, gaps, byPriority, byFileType, timestamp])
    (htotal : total.asNat64? = some d.report.total)
    (hdocumented : documented.asNat64? = some d.report.documented)
    (hadequate : adequate.asNat64? = some d.report.adequate)
    (hmissing : missing.asNat64? = some d.report.missing)
    (hinadequate : inadequate.asNat64? = some d.report.inadequate)
    (hcoverage : coverage.asFloat? = some d.report.coverage)
    (hquality : quality.asFloat? = some d.report.quality)
    (hgaps : gaps.asList? Gap.ofJson? = some d.report.gaps)
    (hbyPriority : Breakdown.ofJson? Priority.key Priority.ofKey? Json.asNat64? byPriority =
      some d.report.byPriority)
    (hbyFileType : Breakdown.ofJson? FileType.key FileType.ofKey? GapCounts.ofJson? byFileType =
      some d.report.byFileType)
    (htimestamp : timestamp.asString? = some d.timestamp) : ofJson? value = some d := by
  rw [ofJson?, hfields]
  simp only [Option.bind_eq_bind, Option.bind_some, htotal, hdocumented, hadequate, hmissing,
    hinadequate, hcoverage, hquality, hgaps, hbyPriority, hbyFileType, htimestamp, Option.pure_def]

/-- **A report is read back from its JSON.** -/
theorem ofJson?_sorted (hfits : d.report.Fits) (hcoverage : d.report.coverage.isFinite = true)
    (hquality : d.report.quality.isFinite = true) : ofJson? d.toJson.sorted = some d := by
  have hcounters := hfits.counters
  simp only [List.forall_mem_cons, List.not_mem_nil, false_imp_iff, implies_true, and_true]
    at hcounters
  obtain ⟨htotal, hdocumented, hadequate, hmissing, hinadequate⟩ := hcounters
  have hgaps : ((Json.arr (d.report.gaps.map Gap.toJson)).sorted).asList? Gap.ofJson? =
      some d.report.gaps := by
    rw [Json.sorted, Json.sortedItems_eq, List.map_map]
    exact Json.mapM_map_eq_some fun gap _ => gap.ofJson?_sorted
  have hfields : d.toJson.sorted.allFields? fieldNames = some [
      .nat d.report.total, .nat d.report.documented, .nat d.report.adequate,
      .nat d.report.missing, .nat d.report.inadequate, .ofFloat d.report.coverage,
      .ofFloat d.report.quality, (Json.arr (d.report.gaps.map Gap.toJson)).sorted,
      (Json.obj (Breakdown.toFields Priority.all Priority.key Json.nat
        d.report.byPriority)).sorted,
      (Json.obj (Breakdown.toFields FileType.all FileType.key GapCounts.toJson
        d.report.byFileType)).sorted,
      .str d.timestamp] := by
    rw [toJson_eq, Json.allFields?_sorted nodup_fieldNames rfl, values]
    simp only [List.map_cons, List.map_nil, Json.sorted_nat, Json.sorted_ofFloat, Json.sorted_str]
  have hbyPriority : Breakdown.ofJson? Priority.key Priority.ofKey? Json.asNat64?
      (Json.obj (Breakdown.toFields Priority.all Priority.key Json.nat
        d.report.byPriority)).sorted = some d.report.byPriority := by
    rw [Breakdown.sorted_toFields]
    refine Breakdown.ofJson?_object Priority.mem_all Priority.ofKey?_key fun key n hn => ?_
    rw [Json.sorted_nat, Json.asNat64?_nat (hfits.byPriority key n hn)]
  have hbyFileType : Breakdown.ofJson? FileType.key FileType.ofKey? GapCounts.ofJson?
      (Json.obj (Breakdown.toFields FileType.all FileType.key GapCounts.toJson
        d.report.byFileType)).sorted = some d.report.byFileType := by
    rw [Breakdown.sorted_toFields]
    refine Breakdown.ofJson?_object FileType.mem_all FileType.ofKey?_key fun key counts hcounts => ?_
    obtain ⟨hmissing, hinadequate⟩ := hfits.byFileType key counts hcounts
    exact GapCounts.ofJson?_sorted hmissing hinadequate
  exact ofJson?_of_fields hfields (Json.asNat64?_nat htotal) (Json.asNat64?_nat hdocumented)
    (Json.asNat64?_nat hadequate) (Json.asNat64?_nat hmissing) (Json.asNat64?_nat hinadequate)
    (Json.asFloat?_ofFloat hcoverage) (Json.asFloat?_ofFloat hquality) hgaps hbyPriority
    hbyFileType rfl

/-- What goes from members to arrays and objects holds of the JSON of a report,
at the depth to which it nests, if it holds of what is in it. -/
theorem of_toJson {p : ℕ → Json → Prop} (hfits : d.report.Fits)
    (hobj : ∀ depth fields, (∀ field ∈ fields, p depth field.2) → p (depth + 1) (.obj fields))
    (harr : ∀ depth items, (∀ item ∈ items, p depth item) → p (depth + 1) (.arr items))
    (hstr : ∀ depth text, p depth (.str text))
    (hnat : ∀ depth n, n < Json.bound64 → p depth (.nat n))
    (hcoverage : ∀ depth, p depth (.ofFloat d.report.coverage))
    (hquality : ∀ depth, p depth (.ofFloat d.report.quality)) (depth : ℕ) :
    p (depth + 4) d.toJson := by
  have hrecord (depth : ℕ) (names : List String) (values : List Json)
      (hvalues : ∀ value ∈ values, p depth value) : p (depth + 1) (.obj (names.zip values)) :=
    hobj _ _ fun field hfield => hvalues field.2 (List.of_mem_zip hfield).2
  have hstrings (items : List String) : p (depth + 1) (Json.strings items) :=
    harr _ _ (List.forall_mem_map.mpr fun _ _ => hstr _ _)
  have hgap (gap : Gap) : p (depth + 2) gap.toJson := by
    refine hrecord _ _ _ ?_
    simp only [List.forall_mem_cons, List.not_mem_nil, false_imp_iff, implies_true, and_true]
    exact ⟨hstr _ _, hstr _ _, hstr _ _, hstr _ _, hstr _ _, hstrings _, hstrings _, hstr _ _⟩
  have hbyPriority : p (depth + 3) (.obj (Breakdown.toFields Priority.all Priority.key Json.nat
      d.report.byPriority)) := by
    refine hobj _ _ fun field hfield => ?_
    obtain ⟨key, -, n, hn, rfl⟩ := Breakdown.mem_toFields.mp hfield
    exact hnat _ _ (hfits.byPriority key n hn)
  have hbyFileType : p (depth + 3) (.obj (Breakdown.toFields FileType.all FileType.key
      GapCounts.toJson d.report.byFileType)) := by
    refine hobj _ _ fun field hfield => ?_
    obtain ⟨key, -, counts, hcounts, rfl⟩ := Breakdown.mem_toFields.mp hfield
    obtain ⟨hmissing, hinadequate⟩ := hfits.byFileType key counts hcounts
    refine hobj _ _ ?_
    simp only [List.forall_mem_cons, List.not_mem_nil, false_imp_iff, implies_true, and_true]
    exact ⟨hnat _ _ hmissing, hnat _ _ hinadequate⟩
  have hcounters := hfits.counters
  simp only [List.forall_mem_cons, List.not_mem_nil, false_imp_iff, implies_true, and_true]
    at hcounters
  obtain ⟨htotal, hdocumented, hadequate, hmissing, hinadequate⟩ := hcounters
  rw [toJson_eq]
  refine hrecord _ _ _ ?_
  simp only [values, List.forall_mem_cons, List.not_mem_nil, false_imp_iff, implies_true, and_true]
  exact ⟨hnat _ _ htotal, hnat _ _ hdocumented, hnat _ _ hadequate, hnat _ _ hmissing,
    hnat _ _ hinadequate, hcoverage _, hquality _,
    harr _ _ (List.forall_mem_map.mpr fun gap _ => hgap gap), hbyPriority, hbyFileType, hstr _ _⟩

theorem nestsWithin_toJson (hfits : d.report.Fits) :
    d.toJson.nestsWithin Json.maximumDepth = true :=
  of_toJson (p := fun depth value => value.nestsWithin depth = true) hfits
    (fun _ _ => Json.nestsWithin_obj.mpr) (fun _ _ => Json.nestsWithin_arr.mpr)
    (fun depth _ => Json.nestsWithin_of_isScalar rfl depth)
    (fun depth _ _ => Json.nestsWithin_of_isScalar rfl depth)
    (fun depth => Json.nestsWithin_of_isScalar (Json.isScalar_ofFloat _) depth)
    (fun depth => Json.nestsWithin_of_isScalar (Json.isScalar_ofFloat _) depth) 123

theorem numbersReadBack_toJson (hfits : d.report.Fits)
    (hcoverage : Json.IsReadBack (.float d.report.coverage))
    (hquality : Json.IsReadBack (.float d.report.quality)) : Json.NumbersReadBack d.toJson := by
  exact of_toJson (p := fun _ => Json.NumbersReadBack) hfits
    (fun _ _ => Json.numbersReadBack_obj.mpr) (fun _ _ => Json.numbersReadBack_arr.mpr)
    (fun _ => Json.numbersReadBack_str) (fun _ _ => Json.numbersReadBack_nat)
    (fun _ => Json.numbersReadBack_ofFloat hcoverage)
    (fun _ => Json.numbersReadBack_ofFloat hquality) 0

/-- **A report is read back from both of its texts**, which are texts of the
same value. -/
theorem reads_back (hfits : d.report.Fits)
    (hfinite : d.report.coverage.isFinite = true ∧ d.report.quality.isFinite = true)
    (hread : Json.IsReadBack (.float d.report.coverage) ∧
      Json.IsReadBack (.float d.report.quality)) :
    ∃ value, Json.parse? d.compact = some value ∧ Json.parse? d.pretty = some value ∧
      ofJson? value = some d := by
  have hnumbers := numbersReadBack_toJson hfits hread.1 hread.2
  have htext (indent : Json.Indent) :
      Json.parse? (String.ofList (d.toJson.render indent [])) = some d.toJson.sorted := by
    have hparse := Json.parse?_render hnumbers indent 0
    rwa [if_pos (nestsWithin_toJson hfits)] at hparse
  exact ⟨d.toJson.sorted, htext none, htext (some 0), ofJson?_sorted hfits hfinite.1 hfinite.2⟩

/-- A report on a service whose path is not ASCII, without a document. -/
def sample : DatedReport where
  report := {
    total := 2
    documented := 1
    adequate := 1
    missing := 1
    inadequate := 0
    coverage := 50.0
    quality := 0.85
    gaps := [{
      codeFile := ⟨"src/lib/services/größe-\"日本\".ts"⟩
      document := ⟨"src/lib/services/index.md"⟩
      kind := .missing
      fileType := .service
      priority := .critical
      requiredSections := ["overview"]
      issues := ["Documentation file\ndoes not exist 😀"]
      effort := .high }]
    byPriority := fun priority => some (if priority = .critical then 1 else 0)
    byFileType := fun fileType => if fileType = .service then some ⟨1, 0⟩ else none }
  timestamp := "2024-01-01T00:00:00Z"

theorem reads_back_sample : ∃ value, Json.parse? sample.compact = some value ∧
    Json.parse? sample.pretty = some value ∧ ofJson? value = some sample := by
  have hfits : sample.report.Fits := by
    refine ⟨by decide, fun priority n hn => ?_, fun fileType counts hcounts => ?_⟩
    · obtain rfl := Option.some.inj hn
      cases priority <;> decide
    · obtain ⟨-, heq⟩ := Option.ite_none_right_eq_some.mp hcounts
      obtain rfl := Option.some.inj heq
      decide
  have hcoverage : Json.IsReadBack (.float 50.0) :=
    Json.isReadBack_float ['5', '0', '.', '0'] (by decide +kernel) rfl
  have hquality : Json.IsReadBack (.float 0.85) :=
    Json.isReadBack_float ['0', '.', '8', '5'] (by decide +kernel) rfl
  exact reads_back hfits ⟨by decide, by decide⟩ ⟨hcoverage, hquality⟩

end DatedReport

end DocCoverage
