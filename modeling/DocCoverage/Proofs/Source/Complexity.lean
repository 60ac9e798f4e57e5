import DocCoverage.Proofs.Pattern.Joined
import DocCoverage.Proofs.Source.Growth
import DocCoverage.Proofs.Source.Returns
import Mathlib.Algebra.GroupWithZero.Nat
/-!
# Sources — the complexity of joined texts

Nothing that adds to the complexity goes over a semicolon, and a semicolon is
no part of a word. So the branches of texts joined by semicolons are those of
the texts (`branches_joined`), and complexity adds up until it reaches its limit
(`complexity_joined`).
-/

namespace DocCoverage

namespace Signals

theorem ignoresLineStart_of_mem_branchForms {p : Pattern} (h : p ∈ branchForms) :
    p.ignoresLineStart = true := by
  have hforms : ∀ p ∈ branchForms, p.ignoresLineStart = true := by decide
  exact hforms p h

/-- **The branches on both sides of a semicolon add up**, however the text in
front of it ends and the text behind it begins. -/
theorem branches_append (text more : List Char) :
    branches (text ++ ';' :: more) = branches text + branches more := by
  have hforms (form : Pattern) (h : form ∈ branchForms) :
      form.count (text ++ ';' :: more) = form.count text + form.count more :=
    Pattern.count_append (refuses_of_mem_branchForms h) (stance_of_mem_branchForms h).1
      (ignoresLineStart_of_mem_branchForms h) isWordChar_semicolon text more
  have hsum : (branchForms.map fun form => form.count (text ++ ';' :: more)).sum =
      (branchForms.map fun form => form.count text).sum +
        (branchForms.map fun form => form.count more).sum := by
    rw [List.map_congr_left hforms, List.sum_map_add]
  exact hsum

/-- **The branches of joined pieces** are those of the pieces. -/
theorem branches_joined (pieces : List (List Char)) :
    branches ([';'].intercalate pieces) = (pieces.map branches).sum := by
  induction pieces with
  | nil => rfl
  | cons piece more ih =>
    cases more with
    | nil => simp
    | cons next more =>
      rw [List.intercalate_cons_cons, List.append_assoc, List.singleton_append, branches_append, ih,
        ← List.sum_cons, ← List.map_cons]

/-- **Complexity adds up over statements.** The complexity of texts joined by a
semicolon is the sum of theirs less one, unless both branch and the limit is
reached; and the complexity of any number of pieces is one more than all their
branches, up to the limit. -/
theorem complexity_joined :
    (∀ a b : List Char, complexityOf (a ++ ';' :: b) = complexityOf a + complexityOf b - 1 ↔
      branches a + branches b < complexityLimit ∨ branches a = 0 ∨ branches b = 0) ∧
    ∀ pieces : List (List Char), complexityOf ([';'].intercalate pieces) =
      min complexityLimit (1 + (pieces.map branches).sum) := by
  refine ⟨fun a b => ?_, fun pieces => ?_⟩
  · rw [complexityOf, complexityOf, complexityOf, branches_append]
    have hlimit : 1 < complexityLimit := by decide
    generalize branches a = v, branches b = w, complexityLimit = limit at *
    omega
  · rw [complexityOf, branches_joined, Nat.add_comm]

end Signals

end DocCoverage
