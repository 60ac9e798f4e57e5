import DocCoverage.Proofs.Settings.Saved
import DocCoverage.Proofs.Text.Pieces
/-!
# Settings — what keys hold

A value that is set is what its key holds: it stands at the key, what is
inside it stands at the extensions of the key, and above it are objects
(`holds_of_set`). Keys of which neither leads through the other do not see
one another (`get?_of_set`). Keys are compared segment by segment, so that a
key may begin with the text of another one and still have nothing to do with
it.
-/

namespace DocCoverage

namespace SettingsStore

variable {store store' : SettingsStore} {name key other front rest : String} {value : Json}

/-! ## Keys -/

/-- The segments of two keys with a dot between them. -/
theorem segments_append (key rest : String) :
    segments (key ++ "." ++ rest) = segments key ++ segments rest := by
  have hcut := @Text.pieces_append (· == '.') key.toList rest.toList '.' rfl
  rw [segments, Text.cutAt, String.toList_append, String.toList_append, List.append_assoc]
  change (Text.pieces _ (key.toList ++ '.' :: rest.toList)).map String.ofList = _
  rw [hcut, List.map_append]
  rfl

theorem exists_segments (key : String) : ∃ name more, segments key = name :: more := by
  rw [segments, Text.cutAt]
  exact List.exists_cons_of_ne_nil (mt List.map_eq_nil_iff.mp (Text.pieces_ne_nil _))

/-- Neither of two keys leads through the other. -/
def Apart (key other : String) : Prop :=
  ¬ segments key <+: segments other ∧ ¬ segments other <+: segments key

instance (key other : String) : Decidable (Apart key other) :=
  inferInstanceAs (Decidable (_ ∧ _))

/-- All that keeps a value from being set is its key. -/
theorem eq_invalidKey_of_set {error : SettingsError} (h : store.set name value = .error error) :
    error = .invalidKey name := by
  rw [set] at h
  split at h
  · exact (Except.error.inj h).symm
  · split at h
    · cases h
    · exact (Except.error.inj h).symm

/-! ## What a key holds -/

/-- **A key holds a value.** The value stands at the key, what is inside it
stands at the extensions of the key, and what leads to it are objects. -/
structure Holds (store : SettingsStore) (key : String) (value : Json) : Prop where
  stands : store.get? key = some value
  inside : ∀ rest, store.get? (key ++ "." ++ rest) = get? ⟨value⟩ rest
  above : ∀ front rest, key = front ++ "." ++ rest →
    ∃ fields, store.get? front = some (.obj fields)
  root : ∃ fields, store.values = .obj fields

/-- Where a value stands, all of this follows. -/
theorem holds_of_get? (h : store.get? key = some value) : Holds store key value where
  stands := h
  inside rest := by
    rw [get?] at h
    rw [get?, segments_append, Json.at?_append, h]
    rfl
  above front rest heq := by
    obtain ⟨name, more, hrest⟩ := exists_segments rest
    rw [get?, heq, segments_append, hrest] at h
    exact Json.exists_obj_of_at? (by rw [h]; rfl)
  root := by
    obtain ⟨name, more, hkey⟩ := exists_segments key
    rw [get?, hkey, ← List.nil_append (name :: more)] at h
    obtain ⟨fields, hfields⟩ := Json.exists_obj_of_at? (by rw [h]; rfl)
    exact ⟨fields, Option.some_inj.mp hfields⟩

/-- **What is set is what the key holds.** -/
theorem holds_of_set (h : store.set name value = .ok store') :
    Holds store' (keyOf name) value :=
  holds_of_get? (Json.at?_setAt? (setAt?_of_set h))

/-- **Setting is not seen at keys that are apart.** -/
theorem get?_of_set (hapart : Apart (keyOf name) other) (h : store.set name value = .ok store') :
    store'.get? other = store.get? other :=
  Json.at?_setAt?_of_not_prefix hapart.1 hapart.2 (setAt?_of_set h)

end SettingsStore

end DocCoverage
