import DocCoverage.Proofs.Pattern.Growth
import DocCoverage.Source.Signals
import Mathlib.Algebra.Order.BigOperators.Group.List
import Mathlib.Data.List.Perm.Subperm
import Mathlib.Data.String.Basic
/-!
# Sources — signals of a growing text

A semicolon ends whatever a branch, a declared function or a declared class
is recognised by. One form of an exported function goes on over any number of
lines up to an equals sign, and its gate is that sign. So when a semicolon
and more text are added to a source file, it exports what it exported before
(`functions_subset`, `classes_subset`), and its complexity does not fall
(`complexity_le`).
-/

namespace DocCoverage

namespace Signals

/-! ## Sets of names -/

theorem pairwise_insertName (name : String) {names : List String}
    (h : names.Pairwise (· < ·)) : (insertName name names).Pairwise (· < ·) := by
  induction names with
  | nil => exact List.pairwise_singleton _ _
  | cons first rest ih =>
    obtain ⟨hfirst, hrest⟩ := List.pairwise_cons.mp h
    unfold insertName
    split_ifs with heq hlt
    · exact h
    · refine List.pairwise_cons.mpr ⟨fun other hother => ?_, h⟩
      rcases List.mem_cons.mp hother with rfl | hother
      · exact hlt
      · exact lt_trans hlt (hfirst other hother)
    · refine List.pairwise_cons.mpr ⟨fun other hother => ?_, ih hrest⟩
      rcases mem_insertName.mp hother with rfl | hother
      · exact lt_of_le_of_ne (not_lt.mp hlt) (Ne.symm heq)
      · exact hfirst other hother

/-- **The names of a set increase.** -/
theorem pairwise_nameSet (names : List String) : (nameSet names).Pairwise (· < ·) := by
  suffices h : ∀ set : List String, set.Pairwise (· < ·) →
      (names.foldl (fun set n => insertName n set) set).Pairwise (· < ·) from h [] List.Pairwise.nil
  induction names with
  | nil => exact fun _ h => h
  | cons name names ih => exact fun _ h => ih _ (pairwise_insertName name h)

/-- A set that holds another one is at least as large. -/
theorem length_nameSet_le {names more : List String} (h : nameSet names ⊆ nameSet more) :
    (nameSet names).length ≤ (nameSet more).length := by
  have hnodup : (nameSet names).Nodup := (pairwise_nameSet names).imp fun hlt => ne_of_lt hlt
  exact (List.subperm_of_subset hnodup h).length_le

/-! ## Walls -/

theorem isWordChar_semicolon : Text.isWordChar ';' = false := by decide

theorem isWalledBy_of_mem_functionForms {d : Declaration} (h : d ∈ functionForms) :
    d.IsWalledBy ';' := by
  have hwalls : ∀ d ∈ functionForms, d.lead.refuses ';' = true ∧
      (d.tail.refuses ';' = true ∨ d.lead.refuses '=' = true ∧
        d.tail.isGated '=' ';' = true ∧ d.tail.demands '=' = true) := by decide
  obtain ⟨hlead, htail⟩ := hwalls d h
  exact ⟨hlead, htail.imp id fun hgate => ⟨'=', by decide, hgate⟩⟩

theorem isWalledBy_of_mem_classForms {d : Declaration} (h : d ∈ classForms) :
    d.IsWalledBy ';' := by
  have hwalls : ∀ d ∈ classForms, d.lead.refuses ';' = true ∧
      d.tail.refuses ';' = true := by decide
  obtain ⟨hlead, htail⟩ := hwalls d h
  exact ⟨hlead, .inl htail⟩

theorem refuses_of_mem_branchForms {p : Pattern} (h : p ∈ branchForms) :
    p.refuses ';' = true := by
  have hrefuses : ∀ p ∈ branchForms, p.refuses ';' = true := by decide
  exact hrefuses p h

/-! ## Growth -/

variable {forms : List Declaration}

theorem declared_subset (hforms : ∀ d ∈ forms, d.IsWalledBy ';') (text more : List Char) :
    declared forms text ⊆ declared forms (text ++ ';' :: more) := by
  intro name hname
  obtain ⟨d, hd, hname⟩ := List.mem_flatMap.mp (mem_nameSet.mp hname)
  obtain ⟨chars, hchars, rfl⟩ := List.mem_map.mp hname
  have hfront := Declaration.names_prefix (hforms d hd) isWordChar_semicolon text more
  exact mem_nameSet.mpr (List.mem_flatMap.mpr
    ⟨d, hd, List.mem_map_of_mem (hfront.subset hchars)⟩)

/-- **Exported functions stay exported.** -/
theorem functions_subset (text more : List Char) :
    (extract text).functions ⊆ (extract (text ++ ';' :: more)).functions :=
  declared_subset (fun _ => isWalledBy_of_mem_functionForms) text more

/-- **Exported classes stay exported.** -/
theorem classes_subset (text more : List Char) :
    (extract text).classes ⊆ (extract (text ++ ';' :: more)).classes :=
  declared_subset (fun _ => isWalledBy_of_mem_classForms) text more

theorem branches_le (text more : List Char) :
    branches text ≤ branches (text ++ ';' :: more) := by
  have hsum : (branchForms.map fun form => form.count text).sum ≤
      (branchForms.map fun form => form.count (text ++ ';' :: more)).sum :=
    List.sum_le_sum fun form hform =>
      Pattern.count_le_append (refuses_of_mem_branchForms hform) text more
  exact hsum

/-- **The complexity does not fall.** -/
theorem complexity_le (text more : List Char) :
    (extract text).complexity ≤ (extract (text ++ ';' :: more)).complexity :=
  min_le_min_left _ (Nat.add_le_add_right (branches_le text more) 1)

end Signals

end DocCoverage
