import DocCoverage.Proofs.Json.Overlay
/-!
# JSON — how deep values nest

What is read nests no deeper than the reader goes (`nestsWithin_of_parse?`),
and laying a value over another makes nothing deeper than either of them
(`nestsWithin_overlay`).
-/

namespace DocCoverage

namespace Json

variable {value base : Json} {items : List Json} {fields old : Fields} {depth : ℕ}

/-- Whether arrays and objects nest at most this deep. -/
def nestsWithin : ℕ → Json → Bool
  | 0, value => value.isScalar
  | depth + 1, value => value.members.all (nestsWithin depth)

theorem nestsWithin_of_isScalar (h : value.isScalar = true) (depth : ℕ) :
    value.nestsWithin depth = true := by
  cases depth with
  | zero => exact h
  | succ depth =>
    cases value with
    | arr | obj => cases h
    | null | bool | int | float | str => rfl

theorem nestsWithin_arr : (arr items).nestsWithin (depth + 1) = true ↔
    ∀ item ∈ items, item.nestsWithin depth = true := by
  rw [nestsWithin, List.all_eq_true]
  rfl

theorem nestsWithin_obj : (obj fields).nestsWithin (depth + 1) = true ↔
    ∀ field ∈ fields, field.2.nestsWithin depth = true := by
  rw [nestsWithin, List.all_eq_true, members, List.forall_mem_map]

theorem nestsWithin_object {pairs : List (String × Json)}
    (h : ∀ pair ∈ pairs, pair.2.nestsWithin depth = true) :
    (object pairs).nestsWithin (depth + 1) = true :=
  nestsWithin_obj.mpr fun field hfield => h field ((Fields.ofPairs_spec pairs).2 field hfield)

/-- **What is read nests no deeper than the reader goes.** -/
theorem nestsWithin_of_parse? {text : String} (h : parse? text = some value) :
    value.nestsWithin maximumDepth = true := by
  have hread := yields_value? (p := fun depth value => value.nestsWithin depth = true)
    (fun depth value hscalar => nestsWithin_of_isScalar hscalar depth)
    (fun _ _ => nestsWithin_arr.mpr) (fun _ _ => nestsWithin_object)
  exact of_parse? (hread maximumDepth) h

theorem nestsWithin_insert {name : String} (hfields : (obj fields).nestsWithin (depth + 1) = true)
    (hvalue : value.nestsWithin depth = true) :
    (obj (Fields.insert name value fields)).nestsWithin (depth + 1) = true := by
  refine nestsWithin_obj.mpr fun field hfield => ?_
  rcases Fields.mem_insert hfield with rfl | hfield
  · exact hvalue
  · exact nestsWithin_obj.mp hfields field hfield

/-- **Laying a value over another makes nothing deeper.** -/
theorem nestsWithin_overlay (hbase : base.nestsWithin depth = true)
    (hvalue : value.nestsWithin depth = true) :
    (base.overlay value).nestsWithin depth = true := by
  induction depth generalizing base value with
  | zero =>
    rcases merge_cases base value with hobj | ⟨old, fields, rfl, rfl⟩
    · rwa [overlay_of_not_isObject hobj]
    · cases hvalue
  | succ depth ih =>
    rcases merge_cases base value with hobj | ⟨old, fields, rfl, rfl⟩
    · rwa [overlay_of_not_isObject hobj]
    rw [overlay_obj]
    have hvalues := nestsWithin_obj.mp hvalue
    clear hvalue
    induction fields with
    | nil =>
      rw [overlayFields]
      exact hbase
    | cons first more ihmore =>
      obtain ⟨hfirst, hmore⟩ := List.forall_mem_cons.mp hvalues
      have hrest := ihmore hmore
      rw [overlayFields_cons]
      refine nestsWithin_insert hrest (ih ?_ hfirst)
      cases hget : (overlayFields old more).get? first.1 with
      | none => exact nestsWithin_of_isScalar rfl depth
      | some found => exact nestsWithin_obj.mp hrest _ (Fields.mem_of_get? hget)

/-- **Setting a value makes nothing deeper** than its path and itself. -/
theorem nestsWithin_setAt? {new result : Json} {path : List String}
    (hvalue : value.nestsWithin (path.length + depth) = true)
    (hnew : new.nestsWithin depth = true) (hset : value.setAt? new path = some result) :
    result.nestsWithin (path.length + depth) = true := by
  induction path generalizing value result with
  | nil => cases hset
  | cons name more ih =>
    rw [List.length_cons, Nat.add_right_comm] at hvalue ⊢
    cases more with
    | nil =>
      obtain ⟨fields, rfl, rfl⟩ := setAt?_singleton.mp hset
      exact nestsWithin_insert hvalue (by rwa [List.length_nil, Nat.zero_add])
    | cons next rest =>
      obtain ⟨fields, inner, rfl, hinner, rfl⟩ := (setAt?_cons (List.cons_ne_nil _ _)).mp hset
      refine nestsWithin_insert hvalue (ih ?_ hinner)
      cases hget : Fields.get? name fields with
      | none =>
        rw [List.length_cons, Nat.add_right_comm]
        rfl
      | some found => exact nestsWithin_obj.mp hvalue _ (Fields.mem_of_get? hget)

end Json

end DocCoverage
