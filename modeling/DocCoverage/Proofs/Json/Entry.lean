import DocCoverage.Proofs.Json.Overlay
/-!
# JSON — one entry of a value

A value at a path of field names, and nothing else, is an entry. To set
anything but an object at a path is to lay its entry over the value
(`eq_overlay_of_setAt?`). Setting fails where something on the way is no object
(`setAt?_eq_none_iff`). It is done step by step, and makes objects before it
can know that it will fail; but below an object that was made everything is
made, so that what fails has made none, and leaves a value in order as it was
(`assign_of_obstructs`).
-/

namespace DocCoverage

/-- Setting a field to the value it has changes nothing. -/
theorem Fields.Increasing.insert_eq_self {fields : Fields} {name : String} {value : Json}
    (hinc : fields.Increasing) (hget : fields.get? name = some value) :
    fields.insert name value = fields := by
  refine (hinc.insert name value).ext hinc fun other => ?_
  by_cases heq : name = other
  · rw [← heq, get?_insert_self, hget]
  · rw [get?_insert_of_ne heq]

namespace Json

variable {value new result : Json} {name : String} {path more : List String} {fields : Fields}

/-! ## Entries -/

/-- The value at a path of field names, in objects with nothing else in
them. -/
def entry (path : List String) (value : Json) : Json :=
  path.foldr (fun name inner => obj [(name, inner)]) value

@[simp] theorem entry_nil (value : Json) : entry [] value = value := rfl

@[simp] theorem entry_cons (name : String) (more : List String) (value : Json) :
    entry (name :: more) value = obj [(name, entry more value)] := rfl

/-- Laying an entry over an object sets the field with which its path
begins. -/
theorem overlay_entry_cons (fields : Fields) (name : String) (more : List String) (value : Json) :
    (obj fields).overlay (entry (name :: more) value) =
      obj (fields.insert name (((fields.get? name).getD null).overlay (entry more value))) := by
  rw [entry_cons, overlay_obj, overlayFields_cons, overlayFields]

/-- An entry is laid over a missing field as over an empty object. -/
theorem overlay_entry_getD (found : Option Json) (hmore : more ≠ []) (value : Json) :
    (found.getD null).overlay (entry more value) =
      (found.getD (obj [])).overlay (entry more value) := by
  obtain ⟨next, rest, rfl⟩ := List.exists_cons_of_ne_nil hmore
  cases found with
  | some inner => rfl
  | none =>
    rw [Option.getD_none, Option.getD_none, overlay_null, overlay_entry_cons, Fields.get?,
      Option.getD_none, overlay_null]
    rfl

/-- **Setting is laying an entry over the value**, unless an object is set,
which would be merged with what was there. -/
theorem eq_overlay_of_setAt? (hnew : new.isObject = false)
    (hset : value.setAt? new path = some result) : result = value.overlay (entry path new) := by
  induction path generalizing value result with
  | nil => cases hset
  | cons name more ih =>
    cases more with
    | nil =>
      obtain ⟨fields, rfl, rfl⟩ := setAt?_singleton.mp hset
      rw [overlay_entry_cons, entry_nil, overlay_of_not_isObject (.inr hnew)]
    | cons next rest =>
      have hmore : next :: rest ≠ [] := List.cons_ne_nil next rest
      obtain ⟨fields, inner, rfl, hinner, rfl⟩ := (setAt?_cons hmore).mp hset
      rw [overlay_entry_cons, overlay_entry_getD _ hmore, ih hinner]

/-! ## What is in the way -/

/-- Whether something on the way along a path, in front of its last name, is
no object. -/
def Obstructs (value : Json) (path : List String) : Prop :=
  ∃ front name more found, path = front ++ name :: more ∧ value.at? front = some found ∧
    found.isObject = false

theorem not_obstructs_nil (value : Json) : ¬ value.Obstructs [] := by
  rintro ⟨front, name, more, found, hnil, -⟩
  exact List.append_ne_nil_of_right_ne_nil front (List.cons_ne_nil name more) hnil.symm

theorem obstructs_cons_of_not_isObject (h : value.isObject = false) :
    value.Obstructs (name :: more) :=
  ⟨[], name, more, value, rfl, rfl, h⟩

/-- What is in the way below an object is in the way below one of its
fields. -/
theorem obstructs_obj_cons : (obj fields).Obstructs (name :: more) ↔
    ∃ inner, fields.get? name = some inner ∧ inner.Obstructs more := by
  constructor
  · rintro ⟨front, last, rest, found, hpath, hat, hfound⟩
    cases front with
    | nil =>
      obtain rfl := Option.some.inj hat
      cases hfound
    | cons first front =>
      obtain ⟨rfl, rfl⟩ := List.cons.inj hpath
      rw [at?_cons] at hat
      obtain ⟨inner, hinner, hat⟩ := Option.bind_eq_some_iff.mp hat
      exact ⟨inner, hinner, front, last, rest, found, rfl, hat, hfound⟩
  · rintro ⟨inner, hinner, front, last, rest, found, rfl, hat, hfound⟩
    refine ⟨name :: front, last, rest, found, rfl, ?_, hfound⟩
    rw [at?_cons, field?, hinner, Option.bind_some, hat]

/-- Nothing is in the way where nothing is. -/
theorem not_obstructs_obj_nil (path : List String) : ¬ (obj []).Obstructs path := by
  cases path with
  | nil => exact not_obstructs_nil _
  | cons name more =>
    rw [obstructs_obj_cons]
    rintro ⟨inner, hinner, -⟩
    cases hinner

/-- Below an object setting goes on in a field, or in an empty object. -/
theorem setAt?_obj_cons (hmore : more ≠ []) (fields : Fields) (name : String) (new : Json) :
    (obj fields).setAt? new (name :: more) =
      (((fields.get? name).getD (obj [])).setAt? new more).map fun inner =>
        obj (fields.insert name inner) := by
  obtain ⟨next, rest, rfl⟩ := List.exists_cons_of_ne_nil hmore
  rfl

/-- **Setting fails where something is in the way.** -/
theorem setAt?_eq_none_iff (hpath : path ≠ []) :
    value.setAt? new path = none ↔ value.Obstructs path := by
  induction path generalizing value with
  | nil => exact absurd rfl hpath
  | cons name more ih =>
    cases value with
    | null | bool | int | float | str | arr =>
      refine iff_of_true ?_ (obstructs_cons_of_not_isObject rfl)
      cases more <;> rfl
    | obj fields =>
      rw [obstructs_obj_cons]
      cases more with
      | nil => exact iff_of_false nofun fun ⟨inner, _, hnil⟩ => not_obstructs_nil inner hnil
      | cons next rest =>
        have hmore : next :: rest ≠ [] := List.cons_ne_nil next rest
        rw [setAt?_obj_cons hmore, Option.map_eq_none_iff, ih hmore]
        cases hget : Fields.get? name fields with
        | some inner => simp
        | none => simpa using not_obstructs_obj_nil (next :: rest)

/-! ## Step by step -/

theorem assign_cons (hmore : more ≠ []) (fields : Fields) (name : String) (new : Json) :
    assign new (name :: more) (obj fields) =
      ((obj (fields.insert name (assign new more ((fields.get? name).getD (obj []))).1)),
        (assign new more ((fields.get? name).getD (obj []))).2) := by
  obtain ⟨next, rest, rfl⟩ := List.exists_cons_of_ne_nil hmore
  rfl

/-- Setting step by step comes to the same end: it reaches the end of the path
just if nothing is in the way, and then with the same result. -/
theorem assign_spec (new : Json) (path : List String) (value : Json) :
    (value.setAt? new path).elim ((assign new path value).2 = false)
      fun result => assign new path value = (result, true) := by
  induction path generalizing value with
  | nil => rfl
  | cons name more ih =>
    cases value with
    | null | bool | int | float | str | arr => cases more <;> rfl
    | obj fields =>
      cases more with
      | nil => rfl
      | cons next rest =>
        have hinner := ih ((Fields.get? name fields).getD (obj []))
        have hmore : next :: rest ≠ [] := List.cons_ne_nil next rest
        rw [setAt?_obj_cons hmore, assign_cons hmore]
        cases hset : setAt? ((Fields.get? name fields).getD (obj [])) new (next :: rest) with
        | none =>
          rw [hset] at hinner
          exact hinner
        | some inner =>
          rw [hset] at hinner
          rw [Option.map_some, Option.elim_some, hinner]

theorem setAt?_of_assign (h : assign new path value = (result, true)) :
    value.setAt? new path = some result := by
  have hspec := assign_spec new path value
  cases hset : value.setAt? new path with
  | none =>
    rw [hset, Option.elim_none, h] at hspec
    cases hspec
  | some found =>
    rw [hset, Option.elim_some, h] at hspec
    exact congrArg some (Prod.mk.inj hspec).1.symm

/-- **What fails leaves no trace.** Where something is in the way it was there
before, so that every object in front of it was there as well, and is put back
as it was. -/
theorem assign_of_obstructs (hordered : Ordered value) (h : value.Obstructs path) (new : Json) :
    assign new path value = (value, false) := by
  induction path generalizing value with
  | nil => rfl
  | cons name more ih =>
    cases value with
    | null | bool | int | float | str | arr => cases more <;> rfl
    | obj fields =>
      obtain ⟨inner, hget, hinner⟩ := obstructs_obj_cons.mp h
      have hmore : more ≠ [] := by
        rintro rfl
        exact not_obstructs_nil inner hinner
      rw [assign_cons hmore, hget, Option.getD_some, ih (hordered.get? hget) hinner,
        (ordered_obj.mp hordered).1.insert_eq_self hget]

end Json

end DocCoverage
