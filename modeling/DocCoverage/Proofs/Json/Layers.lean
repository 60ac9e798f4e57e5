import DocCoverage.Proofs.Json.Overlay
/-!
# JSON — paths through a value laid over another

At a path that the overlay knows, what it has there is laid over what the
base has there (`at?_overlay`). A path along which the overlay leaves off at
an object leads on as it does in the base (`at?_overlay_of_lacking`). From
these two everything that stands in the result is known, path by path
(`overlay_laidOver`).
-/

namespace DocCoverage

namespace Json

variable {overlay value : Json} {path front : List String} {name : String} {fields : Fields}

theorem Ordered.at? (h : Ordered value) {found : Json} (hat : value.at? path = some found) :
    Ordered found := by
  induction path generalizing value with
  | nil =>
    obtain rfl := Option.some.inj hat
    exact h
  | cons name more ih =>
    rw [at?_cons] at hat
    obtain ⟨inner, hinner, hmore⟩ := Option.bind_eq_some_iff.mp hat
    cases value with
    | obj fields => exact ih (h.get? hinner) hmore
    | null | bool | int | float | str | arr => cases hinner

/-- A field that is not there is like one that is null: nothing is below
either. -/
theorem getD_at?_cons (value : Json) (name : String) (more : List String) :
    (((value.field? name).getD null).at? more).getD null =
      (value.at? (name :: more)).getD null := by
  rw [at?_cons]
  cases value.field? name with
  | some inner => rfl
  | none =>
    cases more with
    | nil => rfl
    | cons next rest => rfl

/-- Nothing but an object has anything below it. -/
theorem at?_cons_of_not_isObject (h : value.isObject = false) (name : String)
    (more : List String) : value.at? (name :: more) = none := by
  cases value with
  | obj => cases h
  | null | bool | int | float | str | arr => rfl

/-! ## One path -/

/-- **What the overlay has at a path is laid over what the base has there.** -/
theorem at?_overlay (base : Json) (hoverlay : Ordered overlay)
    (hat : overlay.at? path = some value) :
    (base.overlay overlay).at? path = some (((base.at? path).getD null).overlay value) := by
  induction path generalizing base overlay with
  | nil =>
    obtain rfl := Option.some.inj hat
    rfl
  | cons name more ih =>
    rw [at?_cons] at hat
    obtain ⟨inner, hinner, hmore⟩ := Option.bind_eq_some_iff.mp hat
    rcases merge_cases base overlay with (hbase | hleaf) | ⟨old, fields, rfl, rfl⟩
    · -- the base has no fields, so the overlay takes its place
      rw [overlay_of_not_isObject (.inl hbase), at?_cons_of_not_isObject hbase, Option.getD_none,
        overlay_null, at?_cons, hinner, Option.bind_some, hmore]
    · cases overlay with
      | obj => cases hleaf
      | null | bool | int | float | str | arr => cases hinner
    · have hfields : Fields.get? name fields = some inner := hinner
      have hmerged : Fields.get? name (overlayFields old fields) =
          some (((Fields.get? name old).getD null).overlay inner) := by
        rw [get?_overlayFields (ordered_obj.mp hoverlay).1, hfields]
      rw [overlay_obj, at?_cons, field?, hmerged, Option.bind_some,
        ih ((Fields.get? name old).getD null) (hoverlay.get? hfields) hmore]
      exact congrArg (fun below => some (below.overlay value)) (getD_at?_cons (obj old) name more)

/-- **Where the overlay leaves off the base goes on**: below a name that an
object of the overlay lacks stands what stands there in the base. -/
theorem at?_overlay_of_lacking (base : Json) (hoverlay : Ordered overlay)
    (hat : overlay.at? front = some (obj fields)) (hlacks : fields.get? name = none)
    (more : List String) :
    (base.overlay overlay).at? (front ++ name :: more) = base.at? (front ++ name :: more) := by
  have hinc := (ordered_obj.mp (hoverlay.at? hat)).1
  rw [at?_append, at?_overlay base hoverlay hat, Option.bind_some, at?_append]
  cases hbase : base.at? front with
  | none =>
    rw [Option.getD_none, overlay_null, at?_cons, field?, hlacks]
    rfl
  | some found =>
    rw [Option.getD_some, Option.bind_some]
    rcases merge_cases found (obj fields) with (hleaf | hobj) | ⟨old, _, rfl, hobj⟩
    · rw [overlay_of_not_isObject (.inl hleaf), at?_cons_of_not_isObject hleaf, at?_cons, field?,
        hlacks]
      rfl
    · cases hobj
    · obtain rfl := obj.inj hobj
      rw [overlay_obj, at?_cons, at?_cons, field?, field?, get?_overlayFields hinc, hlacks]

/-! ## All paths -/

/-- What it means for a value to be the base with an overlay laid over it,
path by path. -/
structure LaidOver (base overlay result : Json) : Prop where
  /-- What the overlay has stands as it is, unless it is an object. -/
  replaces (path : List String) (value : Json) : overlay.at? path = some value →
    value.isObject = false → result.at? path = some value
  /-- An object of the overlay has its own names, and those of the base if the
  base has an object there as well. -/
  joins (path : List String) (fields : Fields) : overlay.at? path = some (obj fields) →
    ∃ joined, result.at? path = some (obj joined) ∧
      ∀ name, (Fields.get? name joined).isSome ↔ (Fields.get? name fields).isSome ∨
        ∃ old, base.at? path = some (obj old) ∧ (Fields.get? name old).isSome
  /-- Below a name that an object of the overlay lacks all is as in the
  base. -/
  keeps (front : List String) (name : String) (more : List String) (fields : Fields) :
    overlay.at? front = some (obj fields) → fields.get? name = none →
      result.at? (front ++ name :: more) = base.at? (front ++ name :: more)

/-- The names of an object that is laid over something. -/
theorem exists_joined (found : Option Json) (hinc : fields.Increasing) :
    ∃ joined, (found.getD null).overlay (obj fields) = obj joined ∧
      ∀ name, (Fields.get? name joined).isSome ↔ (Fields.get? name fields).isSome ∨
        ∃ old, found = some (obj old) ∧ (Fields.get? name old).isSome := by
  rcases merge_cases (found.getD null) (obj fields) with (hleaf | hobj) | ⟨old, _, hold, hobj⟩
  · refine ⟨fields, overlay_of_not_isObject (.inl hleaf), fun name => (or_iff_left ?_).symm⟩
    rintro ⟨old, rfl, -⟩
    cases hleaf
  · cases hobj
  · obtain rfl := obj.inj hobj
    have hfound : found = some (obj old) := by
      cases found with
      | none => cases hold
      | some value => exact congrArg some hold
    refine ⟨overlayFields old fields, by rw [hold, overlay_obj], fun name => ?_⟩
    rw [get?_overlayFields hinc, hfound]
    cases hfield : fields.get? name with
    | none => simp
    | some value => simp

/-- **The overlay wins and nothing else changes.** Whatever the overlay has
that is no object stands in the result, its objects are joined with those of
the base, and where it leaves off the base is seen. An object has its names
in order, each of them once. -/
theorem overlay_laidOver (base : Json) (hoverlay : Ordered overlay) :
    LaidOver base overlay (base.overlay overlay) where
  replaces path value hat hleaf := by
    rw [at?_overlay base hoverlay hat, overlay_of_not_isObject (.inr hleaf)]
  joins path fields hat := by
    obtain ⟨joined, hjoined, hnames⟩ :=
      exists_joined (base.at? path) (ordered_obj.mp (hoverlay.at? hat)).1
    exact ⟨joined, by rw [at?_overlay base hoverlay hat, hjoined], hnames⟩
  keeps front name more fields hat hlacks :=
    at?_overlay_of_lacking base hoverlay hat hlacks more

/-- Settings with a floor, the least quality and the names of documents. -/
def ground : Json :=
  object [("floors", object [("coverage", int 85), ("quality", object [("least", int 1)])]),
    ("names", arr [str "index.md"])]

/-- What replaces the floor by an object, adds a name to another object and
empties the list. -/
def layer : Json :=
  object [("floors", object [("coverage", object []), ("quality", object [("most", null)])]),
    ("names", arr [])]

/-- The list is empty, the floor is an object, and the least quality is still
there. -/
theorem overlay_laidOver_layer : Ordered layer ∧
    (ground.overlay layer).at? ["names"] = some (arr []) ∧
    (∃ joined, (ground.overlay layer).at? ["floors", "coverage"] = some (obj joined)) ∧
    (ground.overlay layer).at? ["floors", "quality", "least"] = some (int 1) := by
  have hquality : Ordered (object [("most", null)]) :=
    ordered_object (List.forall_mem_singleton.mpr (ordered_of_members_nil rfl))
  have hfloors : Ordered (object [("coverage", object []), ("quality", object [("most", null)])]) :=
    ordered_object (List.forall_mem_cons.mpr
      ⟨ordered_of_members_nil rfl, List.forall_mem_singleton.mpr hquality⟩)
  have hordered : Ordered layer := ordered_object (List.forall_mem_cons.mpr
    ⟨hfloors, List.forall_mem_singleton.mpr (ordered_of_members_nil rfl)⟩)
  have hlaid := overlay_laidOver ground hordered
  obtain ⟨joined, hjoined, -⟩ := hlaid.joins ["floors", "coverage"] [] (by rfl)
  exact ⟨hordered, hlaid.replaces ["names"] _ (by rfl) rfl, ⟨joined, hjoined⟩,
    hlaid.keeps ["floors", "quality"] "least" [] _ (by rfl) (by rfl)⟩

end Json

end DocCoverage
