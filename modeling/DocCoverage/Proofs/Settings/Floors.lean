import DocCoverage.Proofs.Json.Dotted
import DocCoverage.Proofs.Settings.Records
/-!
# Settings — the two floors

The coverage floor and the quality floor have short names. What is set under
one of them is what is read as that floor, if the settings can be read at all
(`asFloat?_of_ofJson?`). A number that is set as a floor leaves settings
readable that were readable before, and changes nothing but this floor
(`ofJson?_setAt?`).
-/

namespace DocCoverage

/-! ## Floors -/

/-- The floors that have short names. -/
inductive Floor where
  /-- The coverage that a run needs to pass. -/
  | coverage
  /-- The score that a document needs to be adequate. -/
  | quality
deriving DecidableEq, Repr

namespace Floor

variable {floor other : Floor} {values value result : Json} {fields : Fields}
  {settings : Settings} {standards : Standards} {x : Float}

/-- The short name of a floor. -/
def name : Floor → String
  | coverage => SettingsStore.coverageFloor
  | quality => SettingsStore.qualityFloor

/-- The field of the standards that holds a floor. -/
def field : Floor → String
  | coverage => "minimum_coverage_percentage"
  | quality => "minimum_quality_score"

/-- The path of field names to a floor. -/
def path (floor : Floor) : List String := ["documentation_standards", floor.field]

/-- The floor that standards set. -/
def of (floor : Floor) (standards : Standards) : Float :=
  match floor with
  | coverage => standards.minimumCoverage
  | quality => standards.minimumQuality

/-- The standards with another floor. -/
def put (floor : Floor) (x : Float) (standards : Standards) : Standards :=
  match floor with
  | coverage => { standards with minimumCoverage := x }
  | quality => { standards with minimumQuality := x }

theorem field_ne (hne : floor ≠ other) : floor.field ≠ other.field := by
  cases floor <;> cases other <;> first | decide | exact absurd rfl hne

theorem segments_keyOf_name (floor : Floor) :
    SettingsStore.segments (SettingsStore.keyOf floor.name) = floor.path := by
  cases floor <;> decide +kernel

/-- Setting a floor in the store is setting a value at its path. -/
theorem set_eq_ok_iff {store store' : SettingsStore} : store.set floor.name value = .ok store' ↔
    store.values.setAt? value floor.path = some store'.values := by
  have hnames : floor.path.contains "" = false := by cases floor <;> decide
  rw [SettingsStore.set, segments_keyOf_name, hnames, if_neg Bool.false_ne_true]
  cases hset : store.values.setAt? value floor.path with
  | none => simp
  | some values => rw [Except.ok.injEq, Option.some.injEq, SettingsStore.mk.injEq]

/-! ## Reading floors -/

/-- What stands in the field of a floor is read as this floor. -/
theorem asFloat?_of_standards (hread : Standards.ofJson? (.obj fields) = some standards)
    (hfield : Fields.get? floor.field fields = some value) :
    Json.asFloat? value = some (floor.of standards) := by
  obtain ⟨hquality, hcoverage, -⟩ := Standards.ofJson?_obj.mp hread
  cases floor with
  | coverage =>
    rw [show Fields.get? "minimum_coverage_percentage" fields = some value from hfield] at hcoverage
    exact hcoverage
  | quality =>
    rw [show Fields.get? "minimum_quality_score" fields = some value from hfield] at hquality
    exact hquality

/-- **What stands at the path of a floor is read as this floor.** -/
theorem asFloat?_of_ofJson? (hread : Settings.ofJson? values = some settings)
    (hat : values.at? floor.path = some value) :
    Json.asFloat? value = some (floor.of settings.standards) := by
  -- a path of field names leads through objects only
  rw [path, Json.at?_cons] at hat
  obtain ⟨inner, hinner, hat⟩ := Option.bind_eq_some_iff.mp hat
  rw [Json.at?_cons] at hat
  obtain ⟨found, hfound, hat⟩ := Option.bind_eq_some_iff.mp hat
  obtain rfl := Option.some_inj.mp hat
  cases values with
  | obj fields =>
    obtain ⟨hstandards, -⟩ := Settings.ofJson?_obj.mp hread
    rw [show Fields.get? "documentation_standards" fields = some inner from hinner] at hstandards
    cases inner with
    | obj inner => exact asFloat?_of_standards hstandards hfound
    | _ => cases hfound
  | _ => cases hinner

/-! ## Setting floors -/

/-- A number in the field of a floor changes this floor. -/
theorem ofJson?_insert (hread : Standards.ofJson? (.obj fields) = some standards)
    (hvalue : Json.asFloat? value = some x) :
    Standards.ofJson? (.obj (Fields.insert floor.field value fields)) =
      some (floor.put x standards) := by
  obtain ⟨hquality, hcoverage, hsections, hwords⟩ := Standards.ofJson?_obj.mp hread
  rw [Standards.ofJson?_obj]
  cases floor with
  | coverage =>
    rw [field, Fields.get?_insert_self, Fields.get?_insert_of_ne (by decide),
      Fields.get?_insert_of_ne (by decide), Fields.get?_insert_of_ne (by decide)]
    exact ⟨hquality, hvalue, hsections, hwords⟩
  | quality =>
    rw [field, Fields.get?_insert_self, Fields.get?_insert_of_ne (by decide),
      Fields.get?_insert_of_ne (by decide), Fields.get?_insert_of_ne (by decide)]
    exact ⟨hvalue, hcoverage, hsections, hwords⟩

/-- **A number that is set as a floor changes this floor**, and nothing
else. -/
theorem ofJson?_setAt? (hread : Settings.ofJson? values = some settings)
    (hvalue : Json.asFloat? value = some x) (hset : values.setAt? value floor.path = some result) :
    Settings.ofJson? result =
      some { settings with standards := floor.put x settings.standards } := by
  obtain ⟨fields, inner, rfl, hinner, rfl⟩ := (Json.setAt?_cons (List.cons_ne_nil _ _)).mp hset
  obtain ⟨old, hold, rfl⟩ := Json.setAt?_singleton.mp hinner
  obtain ⟨hstandards, hsources, hdocuments⟩ := Settings.ofJson?_obj.mp hread
  -- standards that are not there are made, and read as the built-in ones
  have hbefore : Standards.ofJson? (.obj old) = some settings.standards := by
    rw [← hold]
    cases hget : Fields.get? "documentation_standards" fields with
    | none =>
      rw [hget] at hstandards
      rw [Option.getD_none, Standards.ofJson?_nil]
      exact hstandards
    | some found =>
      rw [hget] at hstandards
      exact hstandards
  rw [Settings.ofJson?_obj, Fields.get?_insert_self, Fields.get?_insert_of_ne (by decide),
    Fields.get?_insert_of_ne (by decide)]
  exact ⟨ofJson?_insert hbefore hvalue, hsources, hdocuments⟩

/-- Setting a floor is not seen at the other one. -/
theorem at?_setAt?_other (hne : floor ≠ other)
    (hset : values.setAt? value floor.path = some result) :
    result.at? other.path = values.at? other.path :=
  @Json.at?_setAt?_of_ne values value result floor.field other.field ["documentation_standards"]
    [] [] (field_ne hne) hset

end Floor

end DocCoverage
