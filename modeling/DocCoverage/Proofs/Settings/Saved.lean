import DocCoverage.Proofs.FileSystem.Writing
import DocCoverage.Proofs.Json.Roundtrip
import DocCoverage.Proofs.Settings.Records
/-!
# Settings — what is saved and loaded again

Saved settings are laid over the built-in ones when they are loaded again. So
they come back just if they nest no deeper than the reader goes, and lack no
built-in field where they have an object like the built-in settings
(`SettingsStore.load_save`). What was loaded comes back, and setting anything
but an object loses no such field; an object that is set in the place of a
built-in one does not come back if it lacks one (`SettingsStore.not_load_save`).
-/

namespace DocCoverage

/-! ## The JSON of settings -/

/-- What goes from members to objects holds of the JSON of settings, at the
depth to which it nests, if it holds of what is in it. -/
theorem Settings.of_toJson {p : ℕ → Json → Prop} {s : Settings} (hs : s.WellFormed)
    (hobject : ∀ depth pairs, (∀ pair ∈ pairs, p depth pair.2) → p (depth + 1) (Json.object pairs))
    (hstr : ∀ depth text, p depth (.str text))
    (hstrings : ∀ depth items, p (depth + 1) (Json.strings items))
    (hnat : ∀ depth n, n < Json.bound32 → p depth (Json.nat n))
    (hquality : ∀ depth, p depth (Json.ofFloat s.standards.minimumQuality))
    (hcoverage : ∀ depth, p depth (Json.ofFloat s.standards.minimumCoverage)) (depth : ℕ) :
    p (depth + 4) s.toJson := by
  have hthresholds : p (depth + 2) s.sources.thresholds.toJson := by
    obtain ⟨hlow, hmedium, hhigh, hcritical⟩ := hs.sources.thresholds
    refine hobject _ _ ?_
    simp only [List.forall_mem_cons, List.not_mem_nil, false_imp_iff, implies_true, and_true]
    exact ⟨hnat _ _ hlow, hnat _ _ hmedium, hnat _ _ hhigh, hnat _ _ hcritical⟩
  have hstandards : p (depth + 3) s.standards.toJson := by
    refine hobject _ _ ?_
    simp only [List.forall_mem_cons, List.not_mem_nil, false_imp_iff, implies_true, and_true]
    exact ⟨hquality _, hcoverage _,
      hobject _ _ (List.forall_mem_map.mpr fun entry _ => hstrings _ entry.2),
      hobject _ _ (List.forall_mem_map.mpr fun entry hentry =>
        hnat _ entry.2 (hs.standards.fits entry hentry))⟩
  have hsources : p (depth + 3) s.sources.toJson := by
    refine hobject _ _ ?_
    simp only [List.forall_mem_cons, List.not_mem_nil, false_imp_iff, implies_true, and_true]
    exact ⟨hobject _ _ (List.forall_mem_map.mpr fun entry _ => hstr _ entry.2), hstrings _ _,
      hthresholds⟩
  have hdocuments : p (depth + 3) s.documents.toJson := by
    refine hobject _ _ ?_
    simp only [List.forall_mem_cons, List.not_mem_nil, false_imp_iff, implies_true, and_true]
    exact ⟨hstrings _ _, hstrings _ _⟩
  refine hobject _ _ ?_
  simp only [List.forall_mem_cons, List.not_mem_nil, false_imp_iff, implies_true, and_true]
  exact ⟨hstandards, hsources, hdocuments⟩

theorem Json.ordered_strings (items : List String) : Ordered (strings items) :=
  ordered_arr.mpr (List.forall_mem_map.mpr fun _ _ => ordered_of_isScalar rfl)

theorem Settings.ordered_builtIn : Json.Ordered builtIn.toJson :=
  Settings.of_toJson (p := fun _ => Json.Ordered) Settings.wellFormed_builtIn
    (fun _ _ => Json.ordered_object) (fun _ _ => Json.ordered_of_isScalar rfl)
    (fun _ => Json.ordered_strings) (fun _ _ _ => Json.ordered_of_isScalar rfl)
    (fun _ => Json.ordered_of_isScalar (Json.isScalar_ofFloat _))
    (fun _ => Json.ordered_of_isScalar (Json.isScalar_ofFloat _)) 0

theorem Settings.nestsWithin_builtIn (depth : ℕ) :
    builtIn.toJson.nestsWithin (depth + 4) = true :=
  Settings.of_toJson (p := fun depth value => value.nestsWithin depth = true)
    Settings.wellFormed_builtIn (fun _ _ => Json.nestsWithin_object)
    (fun depth _ => Json.nestsWithin_of_isScalar rfl depth)
    (fun _ _ => Json.nestsWithin_arr.mpr (List.forall_mem_map.mpr fun _ _ =>
      Json.nestsWithin_of_isScalar rfl _))
    (fun depth _ _ => Json.nestsWithin_of_isScalar rfl depth)
    (fun depth => Json.nestsWithin_of_isScalar (Json.isScalar_ofFloat _) depth)
    (fun depth => Json.nestsWithin_of_isScalar (Json.isScalar_ofFloat _) depth) depth

/-- The numbers in the built-in settings are read back. -/
theorem Settings.numbersReadBack_builtIn : Json.NumbersReadBack builtIn.toJson := by
  have hnat (n : ℕ) (hn : n < Json.bound32) : Json.NumbersReadBack (Json.nat n) :=
    Json.numbersReadBack_nat (Nat.lt_trans hn (by decide))
  have hquality : Json.IsReadBack (.float 0.7) :=
    Json.isReadBack_float ['0', '.', '7'] (by decide +kernel) rfl
  have hcoverage : Json.IsReadBack (.float 85.0) :=
    Json.isReadBack_float ['8', '5', '.', '0'] (by decide +kernel) rfl
  exact Settings.of_toJson (p := fun _ => Json.NumbersReadBack) Settings.wellFormed_builtIn
    (fun _ _ => Json.numbersReadBack_object) (fun _ => Json.numbersReadBack_str)
    (fun _ => Json.numbersReadBack_strings) (fun _ => hnat)
    (fun _ => Json.numbersReadBack_ofFloat hquality)
    (fun _ => Json.numbersReadBack_ofFloat hcoverage) 0

namespace SettingsStore

variable {store store' : SettingsStore} {fs fs' : FileSystem} {path : Path} {text name : String}
  {value : Json} {allowed : Json → Prop}

/-! ## States -/

/-- The stores that are reached from the built-in values by loading files and
by setting values that are allowed. -/
inductive Reached (allowed : Json → Prop) : SettingsStore → Prop where
  | builtIn : Reached allowed builtIn
  | load (fs : FileSystem) (path : Path) : Reached allowed (load fs path).1
  | set {store store' : SettingsStore} (hstore : Reached allowed store) {name : String}
      {value : Json} (hvalue : allowed value) (hset : store.set name value = .ok store') :
      Reached allowed store'

/-- A file is loaded, or the built-in values are. -/
theorem load_cases (fs : FileSystem) (path : Path) : (load fs path).1 = builtIn ∨
    ∃ text file, Json.parse? text = some file ∧ (load fs path).1 = ⟨builtIn.values.overlay file⟩ := by
  rw [load]
  split
  · split
    next content hcontent =>
      rw [ofContent]
      split
      next file hfile =>
        obtain ⟨text, -, hparse⟩ := Option.bind_eq_some_iff.mp hfile
        exact .inr ⟨text, file, hparse, rfl⟩
      next => exact .inl rfl
    next => exact .inl rfl
  · exact .inl rfl

/-- Setting a value sets it at the path that its name stands for. -/
theorem setAt?_of_set (h : store.set name value = .ok store') :
    store.values.setAt? value (segments (keyOf name)) = some store'.values := by
  rw [set] at h
  split at h
  · cases h
  · split at h
    next values hvalues =>
      obtain rfl := Except.ok.inj h
      exact hvalues
    next => cases h

theorem Reached.ordered (h : Reached allowed store) (hallowed : ∀ v, allowed v → Json.Ordered v) :
    Json.Ordered store.values := by
  induction h with
  | builtIn => exact Settings.ordered_builtIn
  | load fs path =>
    rcases load_cases fs path with hload | ⟨text, file, hparse, hload⟩
    · rw [hload]
      exact Settings.ordered_builtIn
    · rw [hload]
      exact Json.ordered_overlay Settings.ordered_builtIn (Json.ordered_of_parse? hparse)
  | set hstore hvalue hset ih =>
    exact Json.ordered_setAt? ih (hallowed _ hvalue) (setAt?_of_set hset)

/-- **Where no object is set, no built-in field is lost.** -/
theorem Reached.keeps (h : Reached allowed store) (hallowed : ∀ v, allowed v → v.isObject = false) :
    Json.Keeps SettingsStore.builtIn.values store.values := by
  induction h with
  | builtIn => exact Json.keeps_refl _
  | load fs path =>
    rcases load_cases fs path with hload | ⟨text, file, hparse, hload⟩
    · rw [hload]
      exact Json.keeps_refl _
    · rw [hload]
      exact Json.keeps_overlay _ (Json.ordered_of_parse? hparse)
  | set hstore hvalue hset ih =>
    exact Json.keeps_setAt? ih (hallowed _ hvalue) (setAt?_of_set hset)

theorem nestsWithin_builtIn : builtIn.values.nestsWithin Json.maximumDepth = true :=
  Settings.nestsWithin_builtIn 123

/-- What was loaded nests no deeper than the reader goes. -/
theorem nestsWithin_load (fs : FileSystem) (path : Path) :
    (load fs path).1.values.nestsWithin Json.maximumDepth = true := by
  rcases load_cases fs path with hload | ⟨text, file, hparse, hload⟩
  · rw [hload]
    exact nestsWithin_builtIn
  · rw [hload]
    exact Json.nestsWithin_overlay nestsWithin_builtIn (Json.nestsWithin_of_parse? hparse)

/-! ## Saving and loading -/

/-- Where nothing is, the built-in values are saved. -/
theorem load_of_not_leadsSomewhere (h : fs.leadsSomewhere path = false) :
    load fs path = (builtIn, (builtIn.save fs path).1) := by
  rw [load, h, if_neg Bool.false_ne_true]

/-- What was saved is laid over the built-in values, and nothing is changed. -/
theorem load_of_save (h : store.save fs path = (fs', none)) :
    load fs' path = (ofContent (.text store.text), fs') := by
  have hwrite : fs.writeBelow path (.text store.text) = (fs', none) := by
    obtain ⟨hfiles, hfault⟩ := Prod.mk.inj h
    exact Prod.ext hfiles (Option.map_eq_none_iff.mp hfault)
  have hread := FileSystem.readText?_writeBelow hwrite
  obtain ⟨content, hcontent, htext⟩ := Option.bind_eq_some_iff.mp hread
  rw [load_of_content? hcontent, ofContent, htext]
  rfl

/-- **What was saved comes back** just if it nests no deeper than the reader
goes and has all fields of the built-in values wherever both hold an object. -/
theorem load_eq_iff (hordered : Json.Ordered store.values)
    (hnumbers : Json.NumbersReadBack store.values) (hsave : store.save fs path = (fs', none)) :
    (load fs' path).1 = store ↔ store.values.nestsWithin Json.maximumDepth = true ∧
      Json.Keeps builtIn.values store.values := by
  have hload := congrArg Prod.fst (load_of_save hsave)
  rw [ofContent, Content.text?, Option.bind_some, text, Json.parse?_pretty hordered hnumbers]
    at hload
  by_cases hnests : store.values.nestsWithin Json.maximumDepth = true
  · rw [if_pos hnests] at hload
    have hmerge := Json.overlay_eq_self_iff Settings.ordered_builtIn hordered
    rw [and_iff_right hnests, hload]
    exact Iff.trans ⟨congrArg values, congrArg mk⟩ hmerge
  · -- the built-in values are not these, since they do not nest that deep
    rw [if_neg hnests] at hload
    refine iff_of_false (fun heq => hnests ?_) fun h => hnests h.1
    rw [← heq, hload]
    exact nestsWithin_builtIn

/-- **The built-in values come back**, and loading them changes nothing. -/
theorem load_of_save_builtIn (h : builtIn.save fs path = (fs', none)) :
    load fs' path = (builtIn, fs') := by
  refine Prod.ext ?_ (by rw [load_of_save h])
  exact (load_eq_iff Settings.ordered_builtIn Settings.numbersReadBack_builtIn h).mpr
    ⟨nestsWithin_builtIn, Json.keeps_refl _⟩

/-- **Which states come back.** Values come back just if they nest no deeper
than the reader goes and have all fields of the built-in values wherever both
hold an object. They have these fields if no object was set, and whatever was
loaded comes back. -/
theorem load_save (hstore : Reached Json.Ordered store)
    (hnumbers : Json.NumbersReadBack store.values) (hsave : store.save fs path = (fs', none)) :
    ((load fs' path).1 = store ↔ store.values.nestsWithin Json.maximumDepth = true ∧
      Json.Keeps builtIn.values store.values) ∧
    (Reached (fun value => Json.Ordered value ∧ value.isObject = false) store →
      Json.Keeps builtIn.values store.values) ∧
    ((∃ before place, (load before place).1 = store) → (load fs' path).1 = store) := by
  have hiff := load_eq_iff (hstore.ordered fun _ h => h) hnumbers hsave
  refine ⟨hiff, fun h => h.keeps fun _ h => h.2, ?_⟩
  rintro ⟨before, place, rfl⟩
  have hloaded : Reached (fun _ => False) (load before place).1 := .load before place
  exact hiff.mpr ⟨nestsWithin_load before place, hloaded.keeps fun _ h => h.elim⟩

/-- Where nothing is yet, a settings file can be saved. -/
theorem save_empty (store : SettingsStore) :
    store.save .empty ⟨fileName⟩ = ((store.save .empty ⟨fileName⟩).1, none) := rfl

theorem load_save_floor : ∃ store, builtIn.set "fail_under" (.int 90) = .ok store ∧
    (load (store.save .empty ⟨fileName⟩).1 ⟨fileName⟩).1 = store := by
  have hok : (builtIn.set "fail_under" (.int 90)).isOk = true := by decide +kernel
  cases hset : builtIn.set "fail_under" (.int 90) with
  | error error =>
    rw [hset] at hok
    cases hok
  | ok store =>
    have hat := setAt?_of_set hset
    have hint : Json.NumbersReadBack (.int 90) :=
      Json.numbersReadBack_of_isScalar rfl fun _ => Json.isReadBack_int (by decide) (by decide)
    have hnests : store.values.nestsWithin (2 + 125) = true := by
      have hpath : (segments (keyOf "fail_under")).length = 2 := by decide +kernel
      rw [← hpath]
      exact Json.nestsWithin_setAt? (by rw [hpath]; exact nestsWithin_builtIn) rfl hat
    obtain ⟨hback, hkeeps, -⟩ := load_save (.set .builtIn (Json.ordered_of_isScalar rfl) hset)
      (Json.numbersReadBack_setAt? Settings.numbersReadBack_builtIn hint hat) (save_empty store)
    exact ⟨store, rfl, hback.mpr ⟨hnests,
      hkeeps (.set .builtIn ⟨Json.ordered_of_isScalar rfl, rfl⟩ hset)⟩⟩

/-- **An empty table of words does not come back**: the built-in entries are
there again. -/
theorem not_load_save : ∃ store,
    builtIn.set "documentation_standards.minimum_word_count" (.obj []) = .ok store ∧
    Json.NumbersReadBack store.values ∧ (store.save .empty ⟨fileName⟩).2 = none ∧
    (load (store.save .empty ⟨fileName⟩).1 ⟨fileName⟩).1 ≠ store := by
  have hok : (builtIn.set "documentation_standards.minimum_word_count" (.obj [])).isOk = true := by
    decide +kernel
  cases hset : builtIn.set "documentation_standards.minimum_word_count" (.obj []) with
  | error error =>
    rw [hset] at hok
    cases hok
  | ok store =>
    have hpath : segments (keyOf "documentation_standards.minimum_word_count") =
      ["documentation_standards", "minimum_word_count"] := by decide +kernel
    have hat := setAt?_of_set hset
    have hordered : Json.Ordered store.values :=
      Json.ordered_setAt? Settings.ordered_builtIn (Json.ordered_of_members_nil rfl) hat
    have hnumbers : Json.NumbersReadBack store.values :=
      Json.numbersReadBack_setAt? Settings.numbersReadBack_builtIn
        (Json.numbersReadBack_obj.mpr fun _ h => absurd h List.not_mem_nil) hat
    refine ⟨store, rfl, hnumbers, rfl, fun hback => ?_⟩
    obtain ⟨-, hkeeps⟩ := (load_eq_iff hordered hnumbers (save_empty store)).mp hback
    -- the built-in table has an entry for low priority, and the one that was set has none
    obtain ⟨table, htable, hlow⟩ : ∃ table,
        builtIn.values.at? ["documentation_standards", "minimum_word_count"] = some (.obj table) ∧
          (Fields.get? "low" table).isSome := ⟨_, rfl, rfl⟩
    rw [hpath] at hat
    cases hkeeps _ table [] htable (Json.at?_setAt? hat) "low" hlow

end SettingsStore

end DocCoverage
