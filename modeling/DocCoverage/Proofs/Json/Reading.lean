import DocCoverage.Json.Reader
import Mathlib.Data.Nat.Notation
import Mathlib.Tactic.SplitIfs
/-!
# JSON — what the reader of values answers

What holds of scalars, and of arrays and objects one level deeper if it holds
of their members, holds of all values that are read (`yields_value?`). The
induction is on the depth that is left to the reader; the loops that read the
members are opened once (`yields_items?`, `yields_fields?`).
-/

namespace DocCoverage

namespace Json

variable {value : Json} {p : Json → Prop} {read? : Reader}

/-- Whether a value is neither an array nor an object. -/
def isScalar : Json → Bool
  | arr _ | obj _ => false
  | _ => true

/-- Whether all values that a reader answers have a property. -/
def Reader.Yields (read? : Reader) (p : Json → Prop) : Prop :=
  ∀ text value behind, read? text = some (value, behind) → p value

/-! ## Scalars -/

theorem yields_number? : Reader.Yields number? fun value => value.isScalar = true := by
  intro text value behind h
  have hpair {α : Type} {read : Option α} {pair : α → Json × List Char}
      (hscalar : ∀ a, (pair a).1.isScalar = true) (h : read.map pair = some (value, behind)) :
      value.isScalar = true := by
    obtain ⟨a, -, heq⟩ := Option.map_eq_some_iff.mp h
    have hvalue := hscalar a
    rwa [heq] at hvalue
  unfold number? at h
  dsimp only at h
  split_ifs at h
  · split at h
    · obtain ⟨rfl, -⟩ := Prod.mk.inj (Option.some.inj h)
      rfl
    · exact hpair (fun _ => rfl) h
  · split at h
    · obtain ⟨rfl, -⟩ := Prod.mk.inj (Option.some.inj h)
      rfl
    · exact hpair (fun _ => rfl) h
  · exact hpair (fun _ => rfl) h
  · exact hpair (fun _ => rfl) h

theorem yields_scalar? : Reader.Yields scalar? fun value => value.isScalar = true := by
  intro text value behind h
  unfold scalar? at h
  split at h
  · obtain ⟨rfl, -⟩ := Prod.mk.inj (Option.some.inj h)
    rfl
  · obtain ⟨rfl, -⟩ := Prod.mk.inj (Option.some.inj h)
    rfl
  · obtain ⟨rfl, -⟩ := Prod.mk.inj (Option.some.inj h)
    rfl
  · obtain ⟨_, -, heq⟩ := Option.map_eq_some_iff.mp h
    obtain ⟨rfl, -⟩ := Prod.mk.inj heq
    rfl
  · exact yields_number? _ _ _ h

/-! ## Members -/

theorem yields_items? (hread : read?.Yields p) {fuel text behind : List Char} {items : List Json}
    (h : items? read? fuel text = some (items, behind)) : ∀ item ∈ items, p item := by
  induction fuel generalizing text items behind with
  | nil => cases h
  | cons _ fuel ih =>
    obtain ⟨⟨item, rest⟩, hitem, h⟩ := Option.bind_eq_some_iff.mp h
    have hfirst : p item := hread _ _ _ hitem
    dsimp only at h
    split at h
    · obtain ⟨⟨more, tail⟩, hmore, h⟩ := Option.bind_eq_some_iff.mp h
      obtain ⟨rfl, -⟩ := Prod.mk.inj (Option.some.inj h)
      exact List.forall_mem_cons.mpr ⟨hfirst, ih hmore⟩
    · obtain ⟨rfl, -⟩ := Prod.mk.inj (Option.some.inj h)
      exact List.forall_mem_singleton.mpr hfirst
    · cases h

theorem yields_fields? (hread : read?.Yields p) {fuel text behind : List Char}
    {pairs : List (String × Json)} (h : fields? read? fuel text = some (pairs, behind)) :
    ∀ pair ∈ pairs, p pair.2 := by
  induction fuel generalizing text pairs behind with
  | nil => cases h
  | cons _ fuel ih =>
    obtain ⟨⟨name, afterName⟩, -, h⟩ := Option.bind_eq_some_iff.mp h
    dsimp only at h
    split at h
    · obtain ⟨⟨value, rest⟩, hvalue, h⟩ := Option.bind_eq_some_iff.mp h
      have hfirst : p value := hread _ _ _ hvalue
      dsimp only at h
      split at h
      · obtain ⟨⟨more, tail⟩, hmore, h⟩ := Option.bind_eq_some_iff.mp h
        obtain ⟨rfl, -⟩ := Prod.mk.inj (Option.some.inj h)
        exact List.forall_mem_cons.mpr ⟨hfirst, ih hmore⟩
      · obtain ⟨rfl, -⟩ := Prod.mk.inj (Option.some.inj h)
        exact List.forall_mem_singleton.mpr hfirst
      · cases h
    · cases h

theorem yields_array? {q : Json → Prop} (hread : read?.Yields p)
    (harr : ∀ items, (∀ item ∈ items, p item) → q (arr items)) :
    Reader.Yields (array? read?) q := by
  intro text value behind h
  unfold array? at h
  split at h
  · obtain ⟨rfl, -⟩ := Prod.mk.inj (Option.some.inj h)
    exact harr [] fun item hitem => absurd hitem List.not_mem_nil
  · obtain ⟨⟨items, tail⟩, hitems, heq⟩ := Option.map_eq_some_iff.mp h
    obtain ⟨rfl, -⟩ := Prod.mk.inj heq
    exact harr items (yields_items? hread hitems)

theorem yields_objectBody? {q : Json → Prop} (hread : read?.Yields p)
    (hobj : ∀ pairs, (∀ pair ∈ pairs, p pair.2) → q (object pairs)) :
    Reader.Yields (objectBody? read?) q := by
  intro text value behind h
  unfold objectBody? at h
  split at h
  · obtain ⟨rfl, -⟩ := Prod.mk.inj (Option.some.inj h)
    exact hobj [] fun pair hpair => absurd hpair List.not_mem_nil
  · obtain ⟨⟨pairs, tail⟩, hpairs, heq⟩ := Option.map_eq_some_iff.mp h
    obtain ⟨rfl, -⟩ := Prod.mk.inj heq
    exact hobj pairs (yields_fields? hread hpairs)

/-! ## Values -/

/-- **What goes from members to arrays and objects holds of all values that
are read**, at the depth to which the reader goes. -/
theorem yields_value? {p : ℕ → Json → Prop}
    (hscalar : ∀ depth value, value.isScalar = true → p depth value)
    (harr : ∀ depth items, (∀ item ∈ items, p depth item) → p (depth + 1) (arr items))
    (hobj : ∀ depth pairs, (∀ pair ∈ pairs, p depth pair.2) → p (depth + 1) (object pairs))
    (depth : ℕ) : Reader.Yields (value? depth) (p depth) := by
  induction depth with
  | zero =>
    intro text value behind h
    unfold value? at h
    split at h
    · cases h
    · cases h
    · exact hscalar 0 value (yields_scalar? _ _ _ h)
  | succ depth ih =>
    intro text value behind h
    unfold value? at h
    split at h
    · exact yields_array? ih (harr depth) _ _ _ h
    · exact yields_objectBody? ih (hobj depth) _ _ _ h
    · exact hscalar _ value (yields_scalar? _ _ _ h)

theorem of_parse? {text : String} (hread : Reader.Yields (value? maximumDepth) p)
    (h : parse? text = some value) : p value := by
  unfold parse? at h
  split at h
  next found behind hfound =>
    obtain ⟨-, heq⟩ := Option.ite_none_right_eq_some.mp h
    obtain rfl := Option.some.inj heq
    exact hread _ _ _ hfound
  next => cases h

end Json

end DocCoverage
