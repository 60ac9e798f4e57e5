import DocCoverage.Proofs.Json.Entry
import DocCoverage.Proofs.Settings.Floors
import DocCoverage.Proofs.Settings.Keys
/-!
# Settings — attempts to set a value

An attempt to set a value either reaches the place that its name stands for,
or it fails, because a segment of the key is empty or something on the way is
no object. One that succeeds does what a settings file with this one entry
would do (`set_eq_overlay_entry`), and one that fails leaves the store as it
was (`attempt_refused`). A number that is set as a floor changes this floor in
the settings, and nothing else (`build_attempt_floor`).
-/

namespace DocCoverage

namespace SettingsStore

variable {store store' : SettingsStore} {name key : String} {value : Json}

/-! ## Attempts -/

/-- Whether the key of a name cannot be set: it has an empty segment, or
something that is no object is in its way. -/
def Bars (store : SettingsStore) (name : String) : Prop :=
  "" ∈ segments (keyOf name) ∨ store.values.Obstructs (segments (keyOf name))

theorem segments_ne_nil (key : String) : segments key ≠ [] := by
  obtain ⟨first, more, hsegments⟩ := exists_segments key
  rw [hsegments]
  exact List.cons_ne_nil first more

/-- **An attempt that is barred leaves the store as it was.** -/
theorem attempt_of_bars (hordered : Json.Ordered store.values) (h : store.Bars name)
    (value : Json) : store.attempt name value = (store, some (.invalidKey name)) := by
  by_cases hempty : "" ∈ segments (keyOf name)
  · simp only [attempt, List.contains_iff_mem.mpr hempty, if_true]
  · have hassign := Json.assign_of_obstructs hordered (h.resolve_left hempty) value
    simp only [attempt, List.contains_iff_mem, hempty, hassign, if_false]
    rfl

/-- One that is not barred sets the value. -/
theorem exists_attempt (h : ¬ store.Bars name) (value : Json) : ∃ values,
    store.values.setAt? value (segments (keyOf name)) = some values ∧
      store.attempt name value = (⟨values⟩, none) := by
  obtain ⟨hempty, hway⟩ := not_or.mp h
  have hset : store.values.setAt? value (segments (keyOf name)) ≠ none :=
    mt (Json.setAt?_eq_none_iff (segments_ne_nil _)).mp hway
  obtain ⟨values, hvalues⟩ := Option.ne_none_iff_exists'.mp hset
  have hassign := Json.assign_spec value (segments (keyOf name)) store.values
  rw [hvalues, Option.elim_some] at hassign
  refine ⟨values, hvalues, ?_⟩
  simp only [attempt, List.contains_iff_mem, hempty, hassign, if_false]
  rfl

/-- Setting answers the store that an attempt leaves, or else its error. -/
theorem set_eq_attempt (store : SettingsStore) (name : String) (value : Json) :
    store.set name value =
      match store.attempt name value with
      | (store', none) => .ok store'
      | (_, some error) => .error error := by
  by_cases hempty : (segments (keyOf name)).contains ""
  · simp only [set, attempt, hempty, if_true]
  · have hassign := Json.assign_spec value (segments (keyOf name)) store.values
    simp only [set, attempt, hempty, Bool.false_eq_true, if_false]
    cases hset : store.values.setAt? value (segments (keyOf name)) with
    | none =>
      rw [hset, Option.elim_none] at hassign
      simp only [hassign, Bool.false_eq_true, if_false]
    | some values =>
      rw [hset, Option.elim_some] at hassign
      simp only [hassign, if_true]

/-! ## What attempts come to -/

/-- **An override is an entry of a settings file.** What is set at a dotted
key, step by step, is what laying the object with nothing but this entry over
the values gives; and so it is with what is set under a name that stands for
the key. An object that is set is another matter: it is not merged. -/
theorem set_eq_overlay_entry (store : SettingsStore) (key : String)
    (hleaf : value.isObject = false) :
    (∀ values, Json.assign value (segments key) store.values = (values, true) →
      values = store.values.overlay (Json.entry (segments key) value)) ∧
    ∀ name store', keyOf name = key → store.set name value = .ok store' →
      store'.values = store.values.overlay (Json.entry (segments key) value) := by
  refine ⟨fun values h => Json.eq_overlay_of_setAt? hleaf (Json.setAt?_of_assign h), ?_⟩
  rintro name store' rfl h
  exact Json.eq_overlay_of_setAt? hleaf (setAt?_of_set h)

/-- The cut-offs are an object, and a number takes its place. -/
theorem set_eq_overlay_entry_cutoffs : ∃ store,
    builtIn.set "code_analysis.complexity_thresholds" (.int 5) = .ok store ∧
    store.values =
      builtIn.values.overlay (.obj [("code_analysis", .obj [("complexity_thresholds", .int 5)])]) := by
  have hok : (builtIn.set "code_analysis.complexity_thresholds" (.int 5)).isOk = true := by
    decide +kernel
  cases hset : builtIn.set "code_analysis.complexity_thresholds" (.int 5) with
  | error error =>
    rw [hset] at hok
    cases hok
  | ok store =>
    have hsegments : segments "code_analysis.complexity_thresholds" =
        ["code_analysis", "complexity_thresholds"] := by decide +kernel
    have hleaf : (Json.int 5).isObject = false := rfl
    have hentry := (set_eq_overlay_entry builtIn "code_analysis.complexity_thresholds" hleaf).2
      _ store (by decide +kernel) hset
    rw [hsegments] at hentry
    exact ⟨store, rfl, hentry⟩

/-- **A refused override leaves no trace.** An attempt fails with an invalid
key just if a segment of the key that the name stands for is empty, or
something on the way to its last segment, the values themselves included, is
no object. Whenever it fails, the store is what it was, and no object has been
left behind. The objects of a store have their names in order, each of them
once. -/
theorem attempt_refused (hordered : Json.Ordered store.values) (name : String) (value : Json) :
    ((store.attempt name value).2 = some (.invalidKey name) ↔
      "" ∈ segments (keyOf name) ∨
        ∃ front next more found, segments (keyOf name) = front ++ next :: more ∧
          store.values.at? front = some found ∧ found.isObject = false) ∧
    ((store.attempt name value).2 ≠ none → (store.attempt name value).1 = store) := by
  change (_ ↔ store.Bars name) ∧ _
  by_cases hbars : store.Bars name
  · rw [attempt_of_bars hordered hbars]
    exact ⟨iff_of_true rfl hbars, fun _ => rfl⟩
  · obtain ⟨values, -, hattempt⟩ := exists_attempt hbars value
    rw [hattempt]
    exact ⟨iff_of_false nofun hbars, fun hfailed => absurd rfl hfailed⟩

/-- The quality floor is a number, and nothing can be set below it. -/
theorem attempt_refused_floor :
    builtIn.attempt "documentation_standards.minimum_quality_score.deeper.still" (.int 1) =
      (builtIn, some (.invalidKey "documentation_standards.minimum_quality_score.deeper.still")) := by
  have hordered : Json.Ordered builtIn.values := Settings.ordered_builtIn
  obtain ⟨hinvalid, htrace⟩ := attempt_refused hordered
    "documentation_standards.minimum_quality_score.deeper.still" (.int 1)
  have hsegments :
      segments (keyOf "documentation_standards.minimum_quality_score.deeper.still") =
        ["documentation_standards", "minimum_quality_score", "deeper", "still"] := by
    decide +kernel
  have hfailed := hinvalid.mpr (.inr
    ⟨["documentation_standards", "minimum_quality_score"], "deeper", ["still"], _, hsegments, rfl,
      rfl⟩)
  exact Prod.ext (htrace (by rw [hfailed]; nofun)) hfailed

/-- **Setting a floor touches this floor only.** For every store whose values
can be read as settings and every number, an attempt to set a floor either
fails with an invalid key, and the settings are what they were, or afterwards
they are what they were but for this floor. -/
theorem build_attempt_floor {x : Float} (hordered : Json.Ordered store.values)
    (hread : store.Readable) (hvalue : Json.asFloat? value = some x) (floor : Floor) :
    ((store.attempt floor.name value).2 = some (.invalidKey floor.name) ∧
      (store.attempt floor.name value).1.build = store.build) ∨
    ((store.attempt floor.name value).2 = none ∧
      (store.attempt floor.name value).1.build =
        { store.build with standards := floor.put x store.build.standards }) := by
  by_cases hbars : store.Bars floor.name
  · rw [attempt_of_bars hordered hbars]
    exact .inl ⟨rfl, rfl⟩
  · obtain ⟨values, hset, hattempt⟩ := exists_attempt hbars value
    obtain ⟨settings, hsettings⟩ := Option.isSome_iff_exists.mp hread
    rw [Floor.segments_keyOf_name] at hset
    rw [hattempt, build_of_ofJson? hsettings]
    exact .inr ⟨rfl, build_of_ofJson? (Floor.ofJson?_setAt? hsettings hvalue hset)⟩

/-- A store that says no more than the quality floor, and has a field that is
unknown. -/
def sparse : SettingsStore :=
  ⟨Json.object [("documentation_standards", Json.object [("minimum_quality_score", .int 1)]),
    ("team", .str "web")]⟩

/-- The coverage floor that is set is new, and the rest is as it was. -/
theorem build_attempt_floor_sparse : Json.Ordered sparse.values ∧ sparse.Readable ∧
    (sparse.attempt "fail_under" (.float 62.5)).1.build =
      { sparse.build with
        standards := { sparse.build.standards with minimumCoverage := 62.5 } } := by
  have hordered : Json.Ordered sparse.values := by
    refine Json.ordered_object (List.forall_mem_cons.mpr ⟨?_, List.forall_mem_singleton.mpr ?_⟩)
    · exact Json.ordered_object (List.forall_mem_singleton.mpr (Json.ordered_of_isScalar rfl))
    · exact Json.ordered_of_isScalar rfl
  have hread : sparse.Readable := rfl
  have hset : (sparse.attempt "fail_under" (.float 62.5)).2 = none := by decide +kernel
  have hvalue : Json.asFloat? (.float 62.5) = some 62.5 := rfl
  obtain ⟨hfailed, -⟩ | ⟨-, hbuild⟩ := build_attempt_floor hordered hread hvalue .coverage
  · cases hset.symm.trans hfailed
  · exact ⟨hordered, hread, hbuild⟩

end SettingsStore

end DocCoverage
