import DocCoverage.Json.Merge
/-!
# JSON — what is set at a dotted key

What is set at a path of field names is read back there (`at?_setAt?`), and
at a path of which neither leads through the other nothing has changed
(`at?_setAt?_of_not_prefix`). Every step of such a path leads through an
object, so that setting is opened one step at a time.
-/

namespace DocCoverage

namespace Json

variable {value new result : Json} {name other : String} {front more : List String}

/-! ## One step -/

theorem at?_cons (value : Json) (name : String) (more : List String) :
    value.at? (name :: more) = (value.field? name).bind fun inner => inner.at? more := by
  rw [at?]
  cases value.field? name <;> rfl

@[simp] theorem at?_singleton (value : Json) (name : String) :
    value.at? [name] = value.field? name := by
  rw [at?_cons]
  cases value.field? name <;> rfl

/-- A path is followed from where the one in front of it leads. -/
theorem at?_append (value : Json) (front more : List String) :
    value.at? (front ++ more) = (value.at? front).bind fun inner => inner.at? more := by
  induction front generalizing value with
  | nil => rfl
  | cons name front ih =>
    rw [List.cons_append, at?_cons, at?_cons]
    cases value.field? name with
    | none => rfl
    | some inner => exact ih inner

/-- A path leads through objects only. -/
theorem exists_obj_of_at? (h : (value.at? (front ++ name :: more)).isSome) :
    ∃ fields, value.at? front = some (obj fields) := by
  rw [at?_append] at h
  cases hfront : value.at? front with
  | none =>
    rw [hfront] at h
    cases h
  | some inner =>
    rw [hfront, Option.bind_some, at?_cons] at h
    cases inner with
    | obj fields => exact ⟨fields, rfl⟩
    | null | bool | int | float | str | arr => cases h

theorem setAt?_singleton : setAt? value new [name] = some result ↔
    ∃ fields, value = obj fields ∧ result = obj (Fields.insert name new fields) := by
  cases value with
  | obj fields => simp [setAt?, eq_comm]
  | _ => simp [setAt?]

theorem setAt?_cons (hmore : more ≠ []) : setAt? value new (name :: more) = some result ↔
    ∃ fields inner, value = obj fields ∧
      setAt? ((Fields.get? name fields).getD (obj [])) new more = some inner ∧
        result = obj (Fields.insert name inner fields) := by
  obtain ⟨next, rest, rfl⟩ := List.exists_cons_of_ne_nil hmore
  cases value with
  | obj fields =>
    simp only [setAt?, Option.map_eq_some_iff]
    constructor
    · rintro ⟨inner, hinner, rfl⟩
      exact ⟨fields, inner, rfl, hinner, rfl⟩
    · rintro ⟨_, inner, hvalue, hinner, rfl⟩
      obtain rfl := obj.inj hvalue
      exact ⟨inner, hinner, rfl⟩
  | _ => simp [setAt?]

/-! ## Whole paths -/

/-- **What is set is read back.** -/
theorem at?_setAt? {path : List String} (h : setAt? value new path = some result) :
    result.at? path = some new := by
  induction path generalizing value result with
  | nil => cases h
  | cons name more ih =>
    cases more with
    | nil =>
      obtain ⟨fields, -, rfl⟩ := setAt?_singleton.mp h
      rw [at?_cons, field?, Fields.get?_insert_self]
      rfl
    | cons next rest =>
      obtain ⟨fields, inner, -, hinner, rfl⟩ := (setAt?_cons (List.cons_ne_nil _ _)).mp h
      rw [at?_cons, field?, Fields.get?_insert_self]
      exact ih hinner

/-- An object that is made on the way has nothing in it. -/
theorem at?_getD_obj_nil (fields : Fields) (name next : String) (rest : List String) :
    ((Fields.get? name fields).getD (obj [])).at? (next :: rest) =
      (obj fields).at? (name :: next :: rest) := by
  rw [at?_cons (obj fields), field?]
  cases Fields.get? name fields <;> rfl

/-- **Setting is not seen at a path that parts from the one that is set.** -/
theorem at?_setAt?_of_ne {rest rest' : List String} (hne : name ≠ other)
    (h : setAt? value new (front ++ name :: rest) = some result) :
    result.at? (front ++ other :: rest') = value.at? (front ++ other :: rest') := by
  induction front generalizing value result with
  | nil =>
    -- here the paths part: one field is set, and another one is read
    obtain ⟨fields, inner, rfl, rfl⟩ : ∃ fields inner, value = obj fields ∧
        result = obj (Fields.insert name inner fields) := by
      cases rest with
      | nil =>
        obtain ⟨fields, hvalue, hresult⟩ := setAt?_singleton.mp h
        exact ⟨fields, new, hvalue, hresult⟩
      | cons next rest =>
        obtain ⟨fields, inner, hvalue, -, hresult⟩ := (setAt?_cons (List.cons_ne_nil _ _)).mp h
        exact ⟨fields, inner, hvalue, hresult⟩
    rw [List.nil_append, at?_cons, at?_cons, field?, field?, Fields.get?_insert_of_ne hne]
  | cons step front ih =>
    have hmore : front ++ name :: rest ≠ [] := by simp
    obtain ⟨fields, inner, rfl, hinner, rfl⟩ := (setAt?_cons hmore).mp h
    obtain ⟨next, behind, hpath⟩ :=
      List.exists_cons_of_ne_nil (show front ++ other :: rest' ≠ [] by simp)
    have hread := ih hinner
    rw [hpath] at hread
    rw [List.cons_append, hpath, ← at?_getD_obj_nil fields step next behind, ← hread, at?_cons,
      field?, Fields.get?_insert_self]
    rfl

/-- Of two paths neither of which leads through the other, there is a first
step at which they part. -/
theorem exists_parting {path path' : List String} (h : ¬ path <+: path') (h' : ¬ path' <+: path) :
    ∃ front name other rest rest', name ≠ other ∧ path = front ++ name :: rest ∧
      path' = front ++ other :: rest' := by
  induction path generalizing path' with
  | nil => exact absurd List.nil_prefix h
  | cons name rest ih =>
    cases path' with
    | nil => exact absurd List.nil_prefix h'
    | cons other rest' =>
      by_cases heq : name = other
      · subst heq
        rw [List.prefix_cons_inj] at h h'
        obtain ⟨front, step, step', behind, behind', hne, rfl, rfl⟩ := ih h h'
        exact ⟨name :: front, step, step', behind, behind', hne, rfl, rfl⟩
      · exact ⟨[], name, other, rest, rest', heq, rfl, rfl⟩

/-- **Setting is not seen where neither path leads through the other.** -/
theorem at?_setAt?_of_not_prefix {path path' : List String} (hbelow : ¬ path <+: path')
    (habove : ¬ path' <+: path) (h : setAt? value new path = some result) :
    result.at? path' = value.at? path' := by
  obtain ⟨front, name, other, rest, rest', hne, rfl, rfl⟩ := exists_parting hbelow habove
  exact at?_setAt?_of_ne hne h

end Json

end DocCoverage
