import DocCoverage.Proofs.Binary64.Encoding
import Mathlib.Data.Prod.Lex
/-!
# Binary64 — the order of all numbers

Every floating-point number but the one that is none has a standing in a
linear order, and two numbers compare as they stand
(`compare_eq_standing`). So `≤` is transitive (`float_le_trans`), and
between numbers it is total (`float_not_le`).
-/

namespace DocCoverage

namespace Binary64

open Float.Model Float.Model.UnpackedFloat

/-- Where a number stands: its side of zero, then its exponent and its
significand, turned round below zero. -/
def standing : UnpackedFloat → Option (ℤ ×ₗ ℤ ×ₗ ℤ)
  | .notANumber => none
  | .infinity .negative => some (toLex (-2, toLex (0, 0)))
  | .finite .negative m e _ => some (toLex (-1, toLex (-e, -m)))
  | .zero _ => some (toLex (0, toLex (0, 0)))
  | .finite .positive m e _ => some (toLex (1, toLex (e, m)))
  | .infinity .positive => some (toLex (2, toLex (0, 0)))

theorem compare_natCast (m n : ℕ) : compare (m : ℤ) (n : ℤ) = compare m n := by
  rcases lt_trichotomy m n with h | rfl | h
  · rw [compare_lt_iff_lt.mpr h, compare_lt_iff_lt.mpr (by omega)]
  · simp
  · rw [compare_gt_iff_gt.mpr h, compare_gt_iff_gt.mpr (by omega)]

theorem compare_neg (a b : ℤ) : compare (-a) (-b) = (compare a b).swap := by
  rcases lt_trichotomy a b with h | rfl | h
  · rw [compare_lt_iff_lt.mpr h, compare_gt_iff_gt.mpr (by omega), Ordering.swap_lt]
  · simp
  · rw [compare_gt_iff_gt.mpr h, compare_lt_iff_lt.mpr (by omega), Ordering.swap_gt]

theorem compare_toLex (s a b t c d : ℤ) :
    compare (toLex (s, toLex (a, b))) (toLex (t, toLex (c, d))) =
      (compare s t).then ((compare a c).then (compare b d)) := by
  simp only [Prod.Lex.compare_def, compareLex, compareOn, ofLex_toLex]

/-- **Numbers compare as they stand**, and nothing compares with what is
not a number. -/
theorem compare_eq_standing (u v : UnpackedFloat) :
    u.compare v = (standing u).bind fun a => (standing v).map (compare a) := by
  rcases u with (_ | _) | _ | _ | ⟨_ | _, m, e, hm⟩ <;>
    rcases v with (_ | _) | _ | _ | ⟨_ | _, n, f, hn⟩ <;>
    dsimp only [UnpackedFloat.compare, standing, Option.bind_some, Option.bind_none] <;>
    simp [compare_toLex, compare_natCast, compare_neg, Ordering.swap_then] <;> rfl

theorem float_le_iff {x y : Float} :
    x ≤ y ↔ ∃ a ∈ standing x.toModel.unpack, ∃ b ∈ standing y.toModel.unpack, a ≤ b := by
  change decide (x.toModel.unpack.le y.toModel.unpack = true) = true ↔ _
  rw [decide_eq_true_iff, UnpackedFloat.le, compare_eq_standing]
  rcases standing x.toModel.unpack with _ | a <;> rcases standing y.toModel.unpack with _ | b <;>
    simp [← Ordering.ne_gt_iff_isLE, compare_le_iff_le]

theorem float_lt_iff {x y : Float} :
    x < y ↔ ∃ a ∈ standing x.toModel.unpack, ∃ b ∈ standing y.toModel.unpack, a < b := by
  change decide (x.toModel.unpack.lt y.toModel.unpack = true) = true ↔ _
  rw [decide_eq_true_iff, UnpackedFloat.lt, compare_eq_standing]
  rcases standing x.toModel.unpack with _ | a <;> rcases standing y.toModel.unpack with _ | b <;>
    simp [compare_lt_iff_lt]

theorem float_le_trans {x y z : Float} (hxy : x ≤ y) (hyz : y ≤ z) : x ≤ z := by
  obtain ⟨a, ha, b, hb, hab⟩ := float_le_iff.mp hxy
  obtain ⟨b', hb', c, hc, hbc⟩ := float_le_iff.mp hyz
  obtain rfl := Option.mem_unique hb hb'
  exact float_le_iff.mpr ⟨a, ha, c, hc, hab.trans hbc⟩

/-- Between numbers, which are what compares with itself, the order is
total. -/
theorem float_not_le {x y : Float} (hx : x ≤ x) (hy : y ≤ y) : ¬ x ≤ y ↔ y < x := by
  obtain ⟨a, ha, -⟩ := float_le_iff.mp hx
  obtain ⟨b, hb, -⟩ := float_le_iff.mp hy
  rw [float_le_iff, float_lt_iff]
  constructor
  · intro h
    exact ⟨b, hb, a, ha, lt_of_not_ge fun hab => h ⟨a, ha, b, hb, hab⟩⟩
  · rintro ⟨b', hb', a', ha', hlt⟩ ⟨a'', ha'', b'', hb'', hle⟩
    obtain rfl := Option.mem_unique ha' ha''
    obtain rfl := Option.mem_unique hb' hb''
    exact hlt.not_ge hle

end Binary64

end DocCoverage
