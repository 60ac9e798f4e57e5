import DocCoverage.Proofs.Settings.Patch
/-!
# Settings — laying a file over them is patching them

A file is laid over the JSON of settings, and the result is read. This is the
same as patching the settings with what the file says, for every base that
states all known fields (`Settings.merges`). A known field that cannot be read
makes the whole unreadable (`Settings.checks`), and a file that cannot be
read, or that leads to such a field, leaves the built-in settings
(`SettingsStore.build_load`).
-/

namespace DocCoverage

namespace Json

variable {α β : Type} {read? : Json → Option α} {item? : Json → Option β} {a default : α}
  {known inner : List KnownField} {old fields : Fields} {name : String} {value base : Json}

/-! ## Values of a type -/

/-- What reads no object has read none. -/
theorem isObject_of_read? (hobject : ∀ fields, read? (obj fields) = none)
    (h : read? value = some a) : value.isObject = false := by
  cases value with
  | obj fields =>
    rw [hobject] at h
    cases h
  | null | bool | int | float | str | arr => rfl

/-! ## Tables -/

/-- Setting a field puts an entry. -/
theorem asMap?_insert {table : List (String × β)} {x : β}
    (hfields : asMap? item? (obj fields) = some table) (hvalue : item? value = some x) :
    asMap? item? (obj (Fields.insert name value fields)) = some (putEntry name x table) := by
  induction fields generalizing table with
  | nil =>
    obtain rfl := Option.some.inj hfields
    exact asMap?_cons.mpr ⟨x, [], hvalue, rfl, rfl⟩
  | cons field rest ih =>
    obtain ⟨key, first⟩ := field
    obtain ⟨y, more, hfirst, hmore, rfl⟩ := asMap?_cons.mp hfields
    rw [Fields.insert, putEntry]
    split_ifs
    · exact asMap?_cons.mpr ⟨x, more, hvalue, hmore, rfl⟩
    · exact asMap?_cons.mpr ⟨x, _, hvalue, hfields, rfl⟩
    · exact asMap?_cons.mpr ⟨y, _, hfirst, ih hmore, rfl⟩

/-- **A table is updated entry by entry** if no entry is an object. -/
theorem asMap?_overlay {table entries : List (String × β)}
    (hobject : ∀ fields, item? (obj fields) = none)
    (hbase : asMap? item? base = some table) (hvalue : asMap? item? value = some entries) :
    asMap? item? (base.overlay value) = some (updatedTable table entries) := by
  cases base with
  | null | bool | int | float | str | arr => cases hbase
  | obj old => ?_
  cases value with
  | null | bool | int | float | str | arr => cases hvalue
  | obj fields => ?_
  rw [overlay_obj]
  induction fields generalizing entries with
  | nil =>
    obtain rfl := Option.some.inj hvalue
    rw [overlayFields]
    exact hbase
  | cons field rest ih =>
    obtain ⟨key, first⟩ := field
    obtain ⟨x, more, hfirst, hmore, rfl⟩ := asMap?_cons.mp hvalue
    rw [overlayFields_cons, overlay_of_not_isObject (.inr (isObject_of_read? hobject hfirst))]
    exact asMap?_insert (ih hmore) hfirst

/-! ## Fields of a record -/

/-- Laying an admitted value over the base is putting what it says into what
is read of the base. -/
def Merges (read? : Json → Option α) (put : α → Json → α) (admits : Json → Prop) (base : Json) :
    Prop :=
  ∀ ⦃a value⦄, read? base = some a → Ordered value → admits value →
    read? (base.overlay value) = some (put a value)

/-- Anything but an object is replaced. -/
theorem merges_leaf (hobject : ∀ fields, read? (obj fields) = none)
    (base : Json) : Merges read? (fun a value => (read? value).getD a)
      (fun value => (read? value).isSome) base := by
  intro a value _ _ hvalue
  obtain ⟨x, hx⟩ := Option.isSome_iff_exists.mp hvalue
  dsimp only
  rw [overlay_of_not_isObject (.inr (isObject_of_read? hobject hx)), hx, Option.getD_some]

/-- A table is updated. -/
theorem merges_table (hobject : ∀ fields, item? (obj fields) = none)
    (base : Json) : Merges (asMap? item?)
      (fun table value => updatedTable table ((asMap? item? value).getD []))
      (fun value => (asMap? item? value).isSome) base := by
  intro table value hbase _ hvalue
  obtain ⟨entries, hentries⟩ := Option.isSome_iff_exists.mp hvalue
  dsimp only
  rw [asMap?_overlay hobject hbase hentries, hentries, Option.getD_some]

/-- A field that is there is merged on its own. -/
theorem fieldOr?_overlayFields {put : α → Json → α} {admits : Json → Prop}
    (hmerges : ∀ b, old.get? name = some b → Merges read? put admits b)
    (hthere : (old.get? name).isSome) (hread : fieldOr? read? default (old.get? name) = some a)
    (hordered : Ordered (obj fields))
    (hadmits : ∀ value, fields.get? name = some value → admits value) :
    fieldOr? read? default ((overlayFields old fields).get? name) =
      some ((fields.get? name).elim a (put a)) := by
  obtain ⟨b, hb⟩ := Option.isSome_iff_exists.mp hthere
  rw [get?_overlayFields (ordered_obj.mp hordered).1]
  cases hget : Fields.get? name fields with
  | none => exact hread
  | some value =>
    rw [hb] at hread ⊢
    exact hmerges b hb hread (hordered.get? hget) (hadmits value hget)

theorem States.isSome_get? {field : KnownField} (h : States known (obj old)) (hfield : field ∈ known)
    (hpath : field.path = [name]) : (old.get? name).isSome := by
  have hthere := h field hfield
  rw [hpath, at?_cons, field?] at hthere
  exact Option.isSome_of_isSome_bind hthere

theorem Admitted.of_get? {field : KnownField} (h : Admitted known (obj fields))
    (hfield : field ∈ known) (hpath : field.path = [name]) (hget : fields.get? name = some value) :
    field.admits value = true := by
  refine h.2 field hfield value ?_
  rw [hpath, at?_cons, field?, hget]
  rfl

theorem Admitted.isSome_of_get? (h : Admitted known (obj fields))
    (hknown : KnownField.leaf name read? ∈ known) (hget : fields.get? name = some value) :
    (read? value).isSome := by
  have hadmits := h.of_get? hknown rfl hget
  rw [KnownField.admits, Bool.and_eq_true] at hadmits
  exact hadmits.1

theorem States.below (h : States known (obj old)) (hknown : recordFields name read? inner ⊆ known)
    (hget : old.get? name = some base) : States inner base := by
  intro field hfield
  have hthere := h (field.below name)
    (hknown (List.mem_cons_of_mem _ (List.mem_map_of_mem hfield)))
  rw [KnownField.below, at?_cons, field?, hget] at hthere
  exact hthere

theorem Admitted.below (h : Admitted known (obj fields))
    (hknown : recordFields name read? inner ⊆ known) (hget : fields.get? name = some value) :
    Admitted inner value := by
  constructor
  · have hadmits := h.of_get? (hknown (List.mem_cons_self ..)) rfl hget
    rw [KnownField.admits, KnownField.record, Bool.and_eq_true] at hadmits
    exact hadmits.2
  · intro field hfield found hfound
    refine h.2 (field.below name) (hknown (List.mem_cons_of_mem _ (List.mem_map_of_mem hfield)))
      found ?_
    rw [KnownField.below, at?_cons, field?, hget]
    exact hfound

section Record

variable (hordered : Ordered (obj fields)) (hstates : States known (obj old))
  (hadmitted : Admitted known (obj fields))
include hordered hstates hadmitted

/-- A number or a list is replaced. -/
theorem leaf_merged (hobject : ∀ fields, read? (obj fields) = none)
    (hknown : KnownField.leaf name read? ∈ known)
    (hread : fieldOr? read? default (old.get? name) = some a) :
    fieldOr? read? default ((overlayFields old fields).get? name) =
      some ((obj fields).saidOr read? a name) := by
  rw [fieldOr?_overlayFields (fun b _ => merges_leaf hobject b) (hstates.isSome_get? hknown rfl)
    hread hordered (fun value => hadmitted.isSome_of_get? hknown), saidOr, field?]
  cases Fields.get? name fields <;> rfl

/-- A table is updated entry by entry. -/
theorem table_merged {table builtIn : List (String × β)}
    (hobject : ∀ fields, item? (obj fields) = none)
    (hknown : KnownField.leaf name (asMap? item?) ∈ known)
    (hread : fieldOr? (asMap? item?) builtIn (old.get? name) = some table) :
    fieldOr? (asMap? item?) builtIn ((overlayFields old fields).get? name) =
      some (updatedTable table ((obj fields).saidOr (asMap? item?) [] name)) := by
  rw [fieldOr?_overlayFields (fun b _ => merges_table hobject b) (hstates.isSome_get? hknown rfl)
    hread hordered (fun value => hadmitted.isSome_of_get? hknown), saidOr, field?]
  cases Fields.get? name fields <;> rfl

/-- A record is patched. -/
theorem record_merged {put : α → Json → α} (hnull : put a null = a)
    (hmerges : ∀ b, States inner b → Merges read? put (Admitted inner) b)
    (hknown : recordFields name read? inner ⊆ known)
    (hread : fieldOr? read? default (old.get? name) = some a) :
    fieldOr? read? default ((overlayFields old fields).get? name) =
      some (put a ((obj fields).fieldOrNull name)) := by
  rw [fieldOr?_overlayFields (fun b hb => hmerges b (hstates.below hknown hb))
    (hstates.isSome_get? (hknown (List.mem_cons_self ..)) rfl) hread hordered
    (fun value hget => hadmitted.below hknown hget), fieldOrNull, field?]
  cases Fields.get? name fields with
  | none => exact congrArg some hnull.symm
  | some value => rfl

end Record

/-- What states a known field is an object. -/
theorem States.exists_obj (h : States known base) {field : KnownField} (hfield : field ∈ known)
    (hpath : field.path = [name]) : ∃ old, base = obj old := by
  have hthere := h field hfield
  rw [hpath, at?_cons] at hthere
  cases base with
  | obj old => exact ⟨old, rfl⟩
  | null | bool | int | float | str | arr => cases hthere

/-- Only objects are laid over an object field by field, and only they are admitted. -/
theorem merges_obj {put : α → Json → α} (h : ∀ fields a, read? (obj old) = some a →
      Ordered (obj fields) → Admitted known (obj fields) →
        read? (obj (overlayFields old fields)) = some (put a (obj fields))) :
    Merges read? put (Admitted known) (obj old) := by
  intro a value hread hordered hadmitted
  cases value with
  | obj fields =>
    rw [overlay_obj]
    exact h fields a hread hordered hadmitted
  | null | bool | int | float | str | arr => cases hadmitted.1

end Json

/-! ## Records -/

section Merging

open Json

variable {base : Json}

theorem Thresholds.merges (hstates : States knownFields base) :
    Merges ofJson? patched (Admitted knownFields) base := by
  obtain ⟨old, rfl⟩ := hstates.exists_obj (List.mem_cons_self ..) rfl
  refine merges_obj fun fields t hread hordered hadmitted => ?_
  obtain ⟨hlow, hmedium, hhigh, hcritical⟩ := ofJson?_obj.mp hread
  exact ofJson?_obj.mpr
    ⟨leaf_merged hordered hstates hadmitted (fun _ => rfl) (by simp [knownFields]) hlow,
      leaf_merged hordered hstates hadmitted (fun _ => rfl) (by simp [knownFields]) hmedium,
      leaf_merged hordered hstates hadmitted (fun _ => rfl) (by simp [knownFields]) hhigh,
      leaf_merged hordered hstates hadmitted (fun _ => rfl) (by simp [knownFields]) hcritical⟩

theorem Standards.merges (hstates : States knownFields base) :
    Merges ofJson? patched (Admitted knownFields) base := by
  obtain ⟨old, rfl⟩ := hstates.exists_obj (List.mem_cons_self ..) rfl
  refine merges_obj fun fields s hread hordered hadmitted => ?_
  obtain ⟨hquality, hcoverage, hsections, hwords⟩ := ofJson?_obj.mp hread
  exact ofJson?_obj.mpr
    ⟨leaf_merged hordered hstates hadmitted (fun _ => rfl) (by simp [knownFields]) hquality,
      leaf_merged hordered hstates hadmitted (fun _ => rfl) (by simp [knownFields]) hcoverage,
      table_merged hordered hstates hadmitted (fun _ => rfl) (by simp [knownFields])
        hsections,
      table_merged hordered hstates hadmitted (fun _ => rfl) (by simp [knownFields]) hwords⟩

theorem SourceRules.merges (hstates : States knownFields base) :
    Merges ofJson? patched (Admitted knownFields) base := by
  obtain ⟨old, rfl⟩ := hstates.exists_obj (List.mem_cons_self ..) rfl
  refine merges_obj fun fields s hread hordered hadmitted => ?_
  obtain ⟨hfiles, hexcluded, hthresholds⟩ := ofJson?_obj.mp hread
  exact ofJson?_obj.mpr
    ⟨table_merged hordered hstates hadmitted (fun _ => rfl) (by simp [knownFields]) hfiles,
      leaf_merged hordered hstates hadmitted (fun _ => rfl) (by simp [knownFields])
        hexcluded,
      record_merged hordered hstates hadmitted rfl (fun b => Thresholds.merges)
        (by simp [knownFields]) hthresholds⟩

theorem DocumentPlaces.merges (hstates : States knownFields base) :
    Merges ofJson? patched (Admitted knownFields) base := by
  obtain ⟨old, rfl⟩ := hstates.exists_obj (List.mem_cons_self ..) rfl
  refine merges_obj fun fields d hread hordered hadmitted => ?_
  obtain ⟨hbeside, hcentral⟩ := ofJson?_obj.mp hread
  exact ofJson?_obj.mpr
    ⟨leaf_merged hordered hstates hadmitted (fun _ => rfl) (by simp [knownFields]) hbeside,
      leaf_merged hordered hstates hadmitted (fun _ => rfl) (by simp [knownFields])
        hcentral⟩

/-- **Laying a file over settings is patching them**, if the base states all
known fields and the file says only what can be read. -/
theorem Settings.merges (hstates : States knownFields base) :
    Merges ofJson? patched (Admitted knownFields) base := by
  obtain ⟨old, rfl⟩ := hstates.exists_obj (List.mem_cons_self ..) rfl
  refine merges_obj fun fields s hread hordered hadmitted => ?_
  obtain ⟨hstandards, hsources, hdocuments⟩ := ofJson?_obj.mp hread
  exact ofJson?_obj.mpr
    ⟨record_merged hordered hstates hadmitted rfl (fun b => Standards.merges)
        (by simp [knownFields]) hstandards,
      record_merged hordered hstates hadmitted rfl (fun b => SourceRules.merges)
        (by simp [knownFields]) hsources,
      record_merged hordered hstates hadmitted rfl (fun b => DocumentPlaces.merges)
        (by simp [knownFields]) hdocuments⟩

end Merging

/-! ## Fields that cannot be read -/

namespace Json

variable {α β : Type} {read? : Json → Option α} {item? : Json → Option β} {default : β}
  {known inner more : List KnownField} {name : String}

/-- Of what is read as a whole, every known field can be read. -/
def Checks (read? : Json → Option α) (known : List KnownField) : Prop :=
  ∀ value, (read? value).isSome → ∀ field ∈ known, ∀ found, value.at? field.path = some found →
    field.reads found = true

theorem checks_nil : Checks read? [] := fun _ _ _ hfield => absurd hfield List.not_mem_nil

/-- A field that is read on its own. -/
theorem isSome_of_field? {value found : Json} (h : ∀ fields, (read? (obj fields)).isSome →
      (fieldOr? item? default (Fields.get? name fields)).isSome)
    (hread : (read? value).isSome) (hget : value.field? name = some found) :
    (item? found).isSome := by
  cases value with
  | obj fields =>
    have hfield := h fields hread
    rw [show Fields.get? name fields = some found from hget] at hfield
    exact hfield
  | null | bool | int | float | str | arr => cases hget

theorem checks_leaf (h : ∀ fields, (read? (obj fields)).isSome →
      (fieldOr? item? default (Fields.get? name fields)).isSome) (hmore : Checks read? more) :
    Checks read? (.leaf name item? :: more) := by
  intro value hread
  refine List.forall_mem_cons.mpr ⟨fun found hfound => ?_, hmore value hread⟩
  change value.at? [name] = some found at hfound
  rw [at?_singleton] at hfound
  exact isSome_of_field? h hread hfound

theorem checks_record (h : ∀ fields, (read? (obj fields)).isSome →
      (fieldOr? item? default (Fields.get? name fields)).isSome) (hinner : Checks item? inner)
    (hmore : Checks read? more) : Checks read? (recordFields name item? inner ++ more) := by
  intro value hread
  rw [recordFields, List.cons_append]
  refine List.forall_mem_cons.mpr ⟨fun found hfound => ?_,
    List.forall_mem_append.mpr ⟨List.forall_mem_map.mpr fun field hfield found hfound => ?_,
      hmore value hread⟩⟩
  · change value.at? [name] = some found at hfound
    rw [at?_singleton] at hfound
    exact isSome_of_field? h hread hfound
  · rw [KnownField.below, at?_cons] at hfound
    obtain ⟨inside, hget, hfound⟩ := Option.bind_eq_some_iff.mp hfound
    exact hinner inside (isSome_of_field? h hread hget) field hfield found hfound

end Json

section Checking

open Json

theorem Thresholds.checks : Checks ofJson? knownFields := by
  have hread (fields) (h : (ofJson? (obj fields)).isSome) :=
    ofJson?_obj.mp (Option.some_get h).symm
  exact checks_leaf (fun fields h => Option.isSome_of_eq_some (hread fields h).1)
    (checks_leaf (fun fields h => Option.isSome_of_eq_some (hread fields h).2.1)
      (checks_leaf (fun fields h => Option.isSome_of_eq_some (hread fields h).2.2.1)
        (checks_leaf (fun fields h => Option.isSome_of_eq_some (hread fields h).2.2.2)
          checks_nil)))

theorem Standards.checks : Checks ofJson? knownFields := by
  have hread (fields) (h : (ofJson? (obj fields)).isSome) :=
    ofJson?_obj.mp (Option.some_get h).symm
  exact checks_leaf (fun fields h => Option.isSome_of_eq_some (hread fields h).1)
    (checks_leaf (fun fields h => Option.isSome_of_eq_some (hread fields h).2.1)
      (checks_leaf (fun fields h => Option.isSome_of_eq_some (hread fields h).2.2.1)
        (checks_leaf (fun fields h => Option.isSome_of_eq_some (hread fields h).2.2.2)
          checks_nil)))

theorem SourceRules.checks : Checks ofJson? knownFields := by
  have hread (fields) (h : (ofJson? (obj fields)).isSome) :=
    ofJson?_obj.mp (Option.some_get h).symm
  have hthresholds := checks_record
    (fun fields h => Option.isSome_of_eq_some (hread fields h).2.2) Thresholds.checks checks_nil
  rw [List.append_nil] at hthresholds
  exact checks_leaf (fun fields h => Option.isSome_of_eq_some (hread fields h).1)
    (checks_leaf (fun fields h => Option.isSome_of_eq_some (hread fields h).2.1) hthresholds)

theorem DocumentPlaces.checks : Checks ofJson? knownFields := by
  have hread (fields) (h : (ofJson? (obj fields)).isSome) :=
    ofJson?_obj.mp (Option.some_get h).symm
  exact checks_leaf (fun fields h => Option.isSome_of_eq_some (hread fields h).1)
    (checks_leaf (fun fields h => Option.isSome_of_eq_some (hread fields h).2) checks_nil)

/-- **Of settings that are read, every known field can be read.** -/
theorem Settings.checks : Checks ofJson? knownFields := by
  have hread (fields) (h : (ofJson? (obj fields)).isSome) :=
    ofJson?_obj.mp (Option.some_get h).symm
  have hdocuments := checks_record
    (fun fields h => Option.isSome_of_eq_some (hread fields h).2.2) DocumentPlaces.checks checks_nil
  have hsources := checks_record
    (fun fields h => Option.isSome_of_eq_some (hread fields h).2.1) SourceRules.checks hdocuments
  have hstandards := checks_record
    (fun fields h => Option.isSome_of_eq_some (hread fields h).1) Standards.checks hsources
  rwa [List.append_nil, ← List.append_assoc] at hstandards

end Checking

/-! ## Files -/

namespace SettingsStore

variable {fs : FileSystem} {path : Path} {content : Content} {file : Json} {store : SettingsStore}

/-- Settings that an unreadable known field leads to are the built-in ones. -/
theorem build_of_unreadable {field : KnownField} (hfield : field ∈ Settings.knownFields)
    {found : Json} (hfound : store.values.at? field.path = some found)
    (hreads : field.reads found = false) : store.build = Settings.builtIn := by
  refine build_of_not_readable fun hreadable => ?_
  rw [Settings.checks store.values hreadable field hfield found hfound] at hreads
  cases hreads

/-- **What a settings file does.** A file that says only what can be read
patches the built-in settings. One that is no text or no JSON, or that leads
to a known field that cannot be read, leaves them as they are. -/
theorem build_load (hcontent : fs.content? path = some content) :
    (∀ file, content.text?.bind Json.parse? = some file →
      Json.Admitted Settings.knownFields file →
        (load fs path).1.build = Settings.builtIn.patched file) ∧
    (content.text?.bind Json.parse? = none → (load fs path).1.build = Settings.builtIn) ∧
    ∀ field ∈ Settings.knownFields, ∀ found,
      (load fs path).1.values.at? field.path = some found → field.reads found = false →
        (load fs path).1.build = Settings.builtIn := by
  rw [load_of_content? hcontent, ofContent]
  refine ⟨fun file hfile hadmitted => ?_, fun hnone => ?_,
    fun field hfield found => build_of_unreadable hfield⟩
  · obtain ⟨text, -, hparse⟩ := Option.bind_eq_some_iff.mp hfile
    rw [hfile]
    exact build_of_ofJson? (Settings.merges Settings.states_builtIn
      (Settings.ofJson?_toJson Settings.wellFormed_builtIn) (Json.ordered_of_parse? hparse)
      hadmitted)
  · rw [hnone]
    exact build_builtIn

/-- A directory with nothing but a settings file. -/
def holding (content : Content) : FileSystem := FileSystem.empty.put [fileName] (.file content)

theorem content?_holding (content : Content) :
    (holding content).content? ⟨fileName⟩ = some content := by
  rfl

/-- The text of a settings file that says some of the settings. -/
def partialText : String :=
  "\x7b\"code_analysis\":\x7b\"exclude_patterns\":[]\x7d,\"documentation_standards\":" ++
    "\x7b\"minimum_word_count\":\x7b\"low\":7\x7d\x7d,\"x\":1\x7d"

/-- What it holds. -/
def partialFile : Json := .obj [
  ("code_analysis", .obj [("exclude_patterns", .arr [])]),
  ("documentation_standards", .obj [("minimum_word_count", .obj [("low", .int 7)])]),
  ("x", .int 1)]

theorem build_load_holding :
    (load (holding (.text partialText)) ⟨fileName⟩).1.build =
      Settings.builtIn.patched partialFile ∧
    (load (holding (.bytes [255])) ⟨fileName⟩).1.build = Settings.builtIn ∧
    (load (holding (.text "\x7b\"code_analysis\":7\x7d")) ⟨fileName⟩).1.build =
      Settings.builtIn := by
  refine ⟨?_, ?_, ?_⟩
  · exact (build_load (content?_holding (.text partialText))).1 partialFile (by rfl)
      (by decide +kernel)
  · exact (build_load (content?_holding (.bytes [255]))).2.1 (by rfl)
  · refine (build_load (content?_holding _)).2.2 (.record "code_analysis" SourceRules.ofJson?)
      (by simp [Settings.knownFields, recordFields]) (.int 7) ?_ rfl
    have hparse : Json.parse? "\x7b\"code_analysis\":7\x7d" =
      some (.obj [("code_analysis", .int 7)]) := by rfl
    rw [load_of_content? (content?_holding _), ofContent, Content.text?, Option.bind_some, hparse]
    rfl

end SettingsStore

end DocCoverage
