import DocCoverage.Proofs.Json.Dotted
import DocCoverage.Proofs.Json.Ordered
/-!
# JSON — what laying one value over another does

A field of the overlay is laid over the field of its name, and all other
fields of the base stay (`get?_overlayFields`). What is laid over a base can
lack nothing that the base has, so that a value comes out as it went in just
if it keeps the fields of the base wherever both hold an object
(`overlay_eq_self_iff`). A value that keeps them goes on to do so when
anything but an object is set in it (`keeps_setAt?`).
-/

namespace DocCoverage

namespace Json

variable {base value new result b v : Json} {old fields : Fields} {name : String}

/-- Whether a value is an object. -/
def isObject : Json → Bool
  | obj _ => true
  | _ => false

/-! ## Laying over -/

theorem overlay_obj (old fields : Fields) :
    (obj old).overlay (obj fields) = obj (overlayFields old fields) := by rw [overlay]

/-- Only objects are merged: anything else replaces what was there. -/
theorem overlay_of_not_isObject (h : base.isObject = false ∨ value.isObject = false) :
    base.overlay value = value := by
  cases value with
  | obj fields =>
    cases base with
    | obj old => rcases h with h | h <;> cases h
    | null | bool | int | float | str | arr => rw [overlay]; simp
  | null | bool | int | float | str | arr => rw [overlay]; simp

/-- The two cases of laying over. -/
theorem merge_cases (base value : Json) : (base.isObject = false ∨ value.isObject = false) ∨
    ∃ old fields, base = obj old ∧ value = obj fields := by
  cases base with
  | obj old =>
    cases value with
    | obj fields => exact .inr ⟨old, fields, rfl, rfl⟩
    | null | bool | int | float | str | arr => exact .inl (.inr rfl)
  | null | bool | int | float | str | arr => exact .inl (.inl rfl)

theorem overlay_null (value : Json) : null.overlay value = value :=
  overlay_of_not_isObject (.inl rfl)

/-- The first field goes on last, over what is there by then. -/
theorem overlayFields_cons (old : Fields) (name : String) (value : Json) (more : Fields) :
    overlayFields old ((name, value) :: more) =
      Fields.insert name (((overlayFields old more).get? name).getD null |>.overlay value)
        (overlayFields old more) := by
  rw [overlayFields]
  cases hget : (overlayFields old more).get? name with
  | none => rw [Option.getD_none, overlay_null]
  | some found =>
    rw [Option.getD_some]
    cases found with
    | obj inner => rfl
    | null | bool | int | float | str | arr => rw [overlay_of_not_isObject (.inl rfl)]

/-- **A field of the overlay is laid over the field of its name.** -/
theorem get?_overlayFields (hinc : fields.Increasing) (old : Fields) (name : String) :
    (overlayFields old fields).get? name =
      match fields.get? name with
      | none => old.get? name
      | some value => some (((old.get? name).getD null).overlay value) := by
  induction fields with
  | nil => rw [overlayFields, Fields.get?]
  | cons first more ih =>
    obtain ⟨key, value⟩ := first
    obtain ⟨hfirst, hmore⟩ := Fields.increasing_cons.mp hinc
    rw [overlayFields_cons, Fields.get?]
    by_cases heq : key = name
    · subst heq
      rw [Fields.get?_insert_self, if_pos rfl, ih hmore, Fields.get?_eq_none_of_lt hfirst]
    · rw [Fields.get?_insert_of_ne heq, if_neg heq, ih hmore]

/-- **What is laid over in order is in order.** -/
theorem ordered_overlay (hbase : Ordered base) (hvalue : Ordered value) :
    Ordered (base.overlay value) := by
  induction value using memberInduction generalizing base with | h value ih => ?_
  rcases merge_cases base value with hobj | ⟨old, fields, rfl, rfl⟩
  · rwa [overlay_of_not_isObject hobj]
  rw [overlay_obj]
  have hvalues := (ordered_obj.mp hvalue).2
  clear hvalue
  induction fields with
  | nil =>
    rw [overlayFields]
    exact hbase
  | cons first more ihmore =>
    obtain ⟨hfirst, hmore⟩ := List.forall_mem_cons.mp hvalues
    have hrest : Ordered (obj (overlayFields old more)) :=
      ihmore (fun member hmember => ih member (List.mem_cons_of_mem _ hmember)) hmore
    rw [overlayFields_cons]
    refine hrest.insert _ (ih first.2 (List.mem_cons_self ..) ?_ hfirst)
    cases hget : (overlayFields old more).get? first.1 with
    | none => exact ordered_of_members_nil rfl
    | some found => exact hrest.get? hget

/-! ## Keeping fields -/

/-- Wherever the base and the value both hold an object, the value has all
fields of the base. -/
def Keeps (base value : Json) : Prop :=
  ∀ (path : List String) (old new : Fields), base.at? path = some (obj old) →
    value.at? path = some (obj new) → ∀ name, (old.get? name).isSome → (new.get? name).isSome

theorem keeps_of_not_isObject (h : base.isObject = false ∨ value.isObject = false) :
    Keeps base value := by
  have hnone {v : Json} (hv : v.isObject = false) (path : List String) (fields : Fields) :
      v.at? path ≠ some (obj fields) := by
    cases v with
    | obj => cases hv
    | null | bool | int | float | str | arr =>
      cases path with
      | nil => simp [at?]
      | cons name more => simp [at?_cons, field?]
  intro path old new hold hnew
  rcases h with h | h
  · exact absurd hold (hnone h path old)
  · exact absurd hnew (hnone h path new)

/-- An object keeps the fields of another one if it has them all and each of
them keeps its own. -/
theorem keeps_obj {new : Fields} : Keeps (obj old) (obj new) ↔
    (∀ name, (old.get? name).isSome → (new.get? name).isSome) ∧
      ∀ name b v, old.get? name = some b → new.get? name = some v → Keeps b v := by
  constructor
  · intro h
    refine ⟨h [] old new rfl rfl, fun name b v hb hv path inner inner' hinner hinner' => ?_⟩
    refine h (name :: path) inner inner' ?_ ?_
    · rw [at?_cons, field?, hb, Option.bind_some, hinner]
    · rw [at?_cons, field?, hv, Option.bind_some, hinner']
  · rintro ⟨hnames, hmembers⟩ path inner inner' hinner hinner'
    cases path with
    | nil =>
      obtain rfl := obj.inj (Option.some.inj hinner)
      obtain rfl := obj.inj (Option.some.inj hinner')
      exact hnames
    | cons name path =>
      rw [at?_cons] at hinner hinner'
      obtain ⟨b, hb, hinner⟩ := Option.bind_eq_some_iff.mp hinner
      obtain ⟨v, hv, hinner'⟩ := Option.bind_eq_some_iff.mp hinner'
      exact hmembers name b v hb hv path inner inner' hinner hinner'

theorem keeps_refl (value : Json) : Keeps value value := by
  intro path old new hold hnew
  rw [hold] at hnew
  obtain rfl := obj.inj (Option.some.inj hnew)
  exact fun name h => h

/-- **What is laid over a base keeps the fields of the base.** -/
theorem keeps_overlay (base : Json) (hvalue : Ordered value) :
    Keeps base (base.overlay value) := by
  induction value using memberInduction generalizing base with | h value ih => ?_
  rcases merge_cases base value with hobj | ⟨old, fields, rfl, rfl⟩
  · rw [overlay_of_not_isObject hobj]
    exact keeps_of_not_isObject hobj
  rw [overlay_obj, keeps_obj]
  have hget := get?_overlayFields (ordered_obj.mp hvalue).1 old
  refine ⟨fun name hname => ?_, fun name b v hb hv => ?_⟩
  · rw [hget]
    cases Fields.get? name fields with
    | none => exact hname
    | some value => rfl
  · rw [hget, hb] at hv
    cases hfield : Fields.get? name fields with
    | none =>
      rw [hfield] at hv
      obtain rfl := Option.some.inj hv
      exact keeps_refl b
    | some value =>
      rw [hfield] at hv
      obtain rfl := Option.some.inj hv
      exact ih value (List.mem_map_of_mem (Fields.mem_of_get? hfield)) b (hvalue.get? hfield)

/-- **A value comes out as it went in** just if it keeps the fields of the
base. -/
theorem overlay_eq_self_iff (hbase : Ordered base) (hvalue : Ordered value) :
    base.overlay value = value ↔ Keeps base value := by
  induction value using memberInduction generalizing base with | h value ih => ?_
  rcases merge_cases base value with hobj | ⟨old, fields, rfl, rfl⟩
  · exact iff_of_true (overlay_of_not_isObject hobj) (keeps_of_not_isObject hobj)
  have hinc := (ordered_obj.mp hvalue).1
  have hget := get?_overlayFields hinc old
  rw [overlay_obj, obj.injEq, keeps_obj]
  constructor
  · intro hsame
    rw [hsame] at hget
    refine ⟨fun name hname => ?_, fun name b v hb hv => ?_⟩
    · cases hfield : Fields.get? name fields with
      | none =>
        have hold : none = Fields.get? name old := by
          have hsame := hget name
          rw [hfield] at hsame
          exact hsame
        rw [← hold] at hname
        exact hname
      | some value => rfl
    · have hfield := hget name
      rw [hv, hb] at hfield
      exact (ih v (List.mem_map_of_mem (Fields.mem_of_get? hv)) (hbase.get? hb)
        (hvalue.get? hv)).mp (Option.some.inj hfield).symm
  · rintro ⟨hnames, hmembers⟩
    have hmerged : Ordered (obj (overlayFields old fields)) := by
      rw [← overlay_obj]
      exact ordered_overlay hbase hvalue
    refine (ordered_obj.mp hmerged).1.ext hinc fun name => ?_
    rw [hget]
    cases hfield : Fields.get? name fields with
    | none =>
      have hnone := mt (hnames name)
      rw [hfield] at hnone
      simpa using hnone
    | some value =>
      refine congrArg some ?_
      cases hold : Fields.get? name old with
      | none => exact overlay_null value
      | some b =>
        exact (ih value (List.mem_map_of_mem (Fields.mem_of_get? hfield)) (hbase.get? hold)
          (hvalue.get? hfield)).mpr (hmembers name b value hold hfield)

/-! ## Setting -/

/-- A field that is set, of an object that keeps fields. -/
theorem keeps_insert {new : Fields} (hkeeps : Keeps (obj old) (obj new)) {value : Json}
    (hvalue : ∀ b, Fields.get? name old = some b → Keeps b value) :
    Keeps (obj old) (obj (Fields.insert name value new)) := by
  obtain ⟨hnames, hmembers⟩ := keeps_obj.mp hkeeps
  refine keeps_obj.mpr ⟨fun other hother => ?_, fun other b v hb hv => ?_⟩
  · by_cases heq : name = other
    · rw [← heq, Fields.get?_insert_self]
      rfl
    · rw [Fields.get?_insert_of_ne heq]
      exact hnames other hother
  · by_cases heq : name = other
    · subst heq
      rw [Fields.get?_insert_self] at hv
      obtain rfl := Option.some.inj hv
      exact hvalue b hb
    · rw [Fields.get?_insert_of_ne heq] at hv
      exact hmembers other b v hb hv

/-- **Setting anything but an object loses no field.** -/
theorem keeps_setAt? {path : List String} (hkeeps : Keeps base value)
    (hnew : new.isObject = false) (hset : value.setAt? new path = some result) :
    Keeps base result := by
  induction path generalizing base value result with
  | nil => cases hset
  | cons name more ih =>
    obtain ⟨fields, inner, rfl, hinner, rfl⟩ : ∃ fields inner, value = obj fields ∧
        (∀ b, Keeps b ((Fields.get? name fields).getD (obj [])) → Keeps b inner) ∧
          result = obj (Fields.insert name inner fields) := by
      cases more with
      | nil =>
        obtain ⟨fields, hvalue, hresult⟩ := setAt?_singleton.mp hset
        exact ⟨fields, new, hvalue, fun b _ => keeps_of_not_isObject (.inr hnew), hresult⟩
      | cons next rest =>
        obtain ⟨fields, inner, hvalue, hinner, hresult⟩ :=
          (setAt?_cons (List.cons_ne_nil _ _)).mp hset
        exact ⟨fields, inner, hvalue, fun b hb => ih hb hinner, hresult⟩
    cases base with
    | obj old =>
      refine keeps_insert hkeeps fun b hb => hinner b ?_
      -- a field of the base is there, so no empty object is made for it
      obtain ⟨hnames, hmembers⟩ := keeps_obj.mp hkeeps
      obtain ⟨v, hv⟩ := Option.isSome_iff_exists.mp (hnames name (by rw [hb]; rfl))
      rw [hv]
      exact hmembers name b v hb hv
    | null | bool | int | float | str | arr => exact keeps_of_not_isObject (.inl rfl)

/-- What goes from fields to objects and back is kept by setting. -/
theorem of_setAt? {p : Json → Prop} {path : List String} (hnil : p (obj []))
    (hinsert : ∀ fields name value, p (obj fields) → p value →
      p (obj (Fields.insert name value fields)))
    (hfield : ∀ fields name value, p (obj fields) → Fields.get? name fields = some value → p value)
    (hvalue : p value) (hnew : p new) (hset : value.setAt? new path = some result) : p result := by
  induction path generalizing value result with
  | nil => cases hset
  | cons name more ih =>
    cases more with
    | nil =>
      obtain ⟨fields, rfl, rfl⟩ := setAt?_singleton.mp hset
      exact hinsert fields name new hvalue hnew
    | cons next rest =>
      obtain ⟨fields, inner, rfl, hinner, rfl⟩ := (setAt?_cons (List.cons_ne_nil _ _)).mp hset
      refine hinsert fields name inner hvalue (ih ?_ hinner)
      cases hget : Fields.get? name fields with
      | none => exact hnil
      | some found => exact hfield fields name found hvalue hget

/-- Setting keeps a value in order. -/
theorem ordered_setAt? {path : List String} (hvalue : Ordered value) (hnew : Ordered new)
    (hset : value.setAt? new path = some result) : Ordered result :=
  of_setAt? (ordered_of_members_nil rfl) (fun _ name _ h => h.insert name)
    (fun _ _ _ h hget => h.get? hget) hvalue hnew hset

end Json

end DocCoverage
