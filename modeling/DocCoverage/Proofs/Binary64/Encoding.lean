import DocCoverage.Proofs.Binary64.Rounding
import Mathlib.Data.BitVec
/-!
# Binary64 — what is stored, and its order

A stored number is canonical: its significand has fifty-three digits, or
its exponent is the least one. Two canonical numbers compare as their
values do (`le_iff_value_le`), and packing one into its sixty-four bits
loses nothing as long as its exponent fits (`unpack_pack`).
-/

namespace DocCoverage

namespace Binary64

open Float.Model Float.Model.UnpackedFloat

/-! ## Canonical numbers -/

/-- What a nonnegative number is worth. -/
def value : UnpackedFloat → ℚ
  | .finite .positive m e _ => m * 2 ^ e
  | _ => 0

/-- Nonnegative, and with as many digits as the exponent admits. -/
def Canonical : UnpackedFloat → Prop
  | .zero .positive => True
  | .finite .positive m e _ => m < 2 ^ 53 ∧ -1074 ≤ e ∧ (2 ^ 52 ≤ m ∨ e = -1074)
  | _ => False

@[simp] theorem value_zero : value (.zero .positive) = 0 := rfl

@[simp] theorem value_finite (m : ℕ) (e : ℤ) (hm : 0 < m) :
    value (.finite .positive m e hm) = m * 2 ^ e := rfl

@[simp] theorem value_stored (m : ℕ) (e : ℤ) : value (stored m e) = m * 2 ^ e := by
  by_cases h : m = 0
  · rw [stored, dif_pos h, h, Nat.cast_zero, zero_mul]
    rfl
  · rw [stored, dif_neg h]
    rfl

theorem canonical_stored {m : ℕ} {e : ℤ} (hm : m < 2 ^ 53) (he : -1074 ≤ e)
    (h : m = 0 ∨ 2 ^ 52 ≤ m ∨ e = -1074) : Canonical (stored m e) := by
  by_cases h0 : m = 0
  · rw [stored, dif_pos h0]
    trivial
  · rw [stored, dif_neg h0]
    exact ⟨hm, he, h.resolve_left h0⟩

theorem exponent_of_stored_eq {s : Sign} {m n : ℕ} {e f : ℤ} {hn : 0 < n}
    (h : stored m e = .finite s n f hn) : f = e := by
  by_cases h0 : m = 0
  · rw [stored, dif_pos h0] at h
    cases h
  · rw [stored, dif_neg h0] at h
    cases h
    rfl

/-- The value of what is stored is the rounded one. -/
theorem value_encoded (x : ℚ) : value (encoded x) = rounded x := by
  unfold encoded rounded
  split_ifs with h
  · rw [value_stored, h, zpow_add_one₀ (by norm_num)]
    push_cast
    ring
  · exact value_stored _ _

/-- What is stored is canonical. -/
theorem canonical_encoded {x : ℚ} (hx : 0 ≤ x) : Canonical (encoded x) := by
  have hmin := neg_le_exponentOf x
  unfold encoded
  split_ifs with h
  · exact canonical_stored (by norm_num) (by omega) (.inr (.inl le_rfl))
  · have hle := significand_le x
    refine canonical_stored (by omega) hmin ?_
    rcases hx.eq_or_lt with rfl | hpos
    · exact .inl significand_zero
    · rcases le_total (Int.log 2 x - 52) (-1074) with hlog | hlog
      · exact .inr (.inr (max_eq_right hlog))
      · exact .inr (.inl (le_significand hpos (max_eq_left hlog)))

/-! ## The order -/

/-- Of two canonical numbers the one with the greater exponent is
greater. -/
theorem mul_zpow_lt {m n : ℕ} {e f : ℤ} (hm : m < 2 ^ 53) (hn : 2 ^ 52 ≤ n) (h : e < f) :
    (m : ℚ) * 2 ^ e < n * 2 ^ f := by
  calc (m : ℚ) * 2 ^ e < (2 ^ 53 : ℕ) * 2 ^ e := by gcongr
    _ = (2 ^ 52 : ℕ) * 2 ^ (e + 1) := by rw [zpow_add_one₀ (by norm_num)]; norm_num; ring
    _ ≤ n * 2 ^ f := by
        gcongr
        · norm_num
        · omega

/-- **Canonical numbers compare as their values do.** -/
theorem le_iff_value_le {u v : UnpackedFloat} (hu : Canonical u) (hv : Canonical v) :
    u.le v = true ↔ value u ≤ value v := by
  match u, v, hu, hv with
  | .zero .positive, .zero .positive, _, _ => exact iff_of_true rfl le_rfl
  | .zero .positive, .finite .positive m e hm, _, _ =>
    have hpos : (0 : ℚ) ≤ m * 2 ^ e := by positivity
    exact iff_of_true rfl hpos
  | .finite .positive m e hm, .zero .positive, _, _ =>
    have hpos : (0 : ℚ) < m * 2 ^ e := by positivity
    exact iff_of_false Bool.false_ne_true (not_le.mpr hpos)
  | .finite .positive m e hm, .finite .positive n f hn, hu, hv =>
    obtain ⟨hm₁, hm₂, hm₃⟩ := hu
    obtain ⟨hn₁, hn₂, hn₃⟩ := hv
    -- the exponents decide, and the significands if there is a tie
    change ((compare e f).then (compare m n)).isLE = true ↔ (m * 2 ^ e : ℚ) ≤ n * 2 ^ f
    rcases lt_trichotomy e f with h | rfl | h
    · have hlt := mul_zpow_lt hm₁ (n := n) (by omega) h
      simp [compare_lt_iff_lt.mpr h, hlt.le]
    · have hpow : (0 : ℚ) < 2 ^ e := by positivity
      rw [mul_le_mul_iff_left₀ hpow, Nat.cast_le]
      simp [Nat.isLE_compare]
    · have hlt := mul_zpow_lt hn₁ (n := m) (by omega) h
      simp [compare_gt_iff_gt.mpr h, hlt]

/-- A canonical number is told by its value. -/
theorem eq_of_value_eq {u v : UnpackedFloat} (hu : Canonical u) (hv : Canonical v)
    (h : value u = value v) : u = v := by
  match u, v, hu, hv with
  | .zero .positive, .zero .positive, _, _ => rfl
  | .zero .positive, .finite .positive m e hm, _, _ =>
    have hpos : (0 : ℚ) < m * 2 ^ e := by positivity
    exact absurd h hpos.ne
  | .finite .positive m e hm, .zero .positive, _, _ =>
    have hpos : (0 : ℚ) < m * 2 ^ e := by positivity
    exact absurd h hpos.ne'
  | .finite .positive m e hm, .finite .positive n f hn, hu, hv =>
    obtain ⟨hm₁, hm₂, hm₃⟩ := hu
    obtain ⟨hn₁, hn₂, hn₃⟩ := hv
    change (m * 2 ^ e : ℚ) = n * 2 ^ f at h
    rcases lt_trichotomy e f with hlt | rfl | hlt
    · exact absurd h (mul_zpow_lt hm₁ (n := n) (by omega) hlt).ne
    · have hpow : (2 : ℚ) ^ e ≠ 0 := by positivity
      obtain rfl : m = n := by exact_mod_cast mul_right_cancel₀ hpow h
      rfl
    · exact absurd h (mul_zpow_lt hn₁ (n := m) (by omega) hlt).ne'

/-! ## Bits -/

theorem unpackSign_packComponents (s : Sign) (e : BitVec 11) (m : BitVec 52) :
    unpackSign (packComponents Format.binary64 s e m) = s.toBitVec := by
  change (s.toBitVec ++ e ++ m).extractLsb' 63 1 = s.toBitVec
  rw [BitVec.extractLsb'_append_eq_of_le (by decide), BitVec.extractLsb'_append_eq_of_le (by decide)]
  cases s <;> rfl

/-- Numbers of the same parts are the same. -/
theorem finite_congr {s : Sign} {m n : ℕ} {e f : ℤ} {hm : 0 < m} {hn : 0 < n} (h : m = n)
    (he : e = f) : UnpackedFloat.finite s m e hm = .finite s n f hn := by
  subst h he
  rfl

/-- A positive number with an exponent field that is neither of the two
reserved ones. -/
theorem unpack_normal {b : BitVec 64} {e : BitVec 11} {m : BitVec 52}
    (hsign : @unpackSign Format.binary64 b = 0#1)
    (he : @unpackExponent Format.binary64 b = e)
    (hm : @unpackMantissa Format.binary64 b = m) (hmax : e ≠ -1#11) (hzero : e ≠ 0#11)
    (hpos : 0 < (1#1 ++ m).toNat) :
    UnpackedFloat.unpack Format.binary64 b =
      .finite .positive (1#1 ++ m).toNat ((e.toNat : ℤ) - 1075) hpos := by
  subst he hm
  unfold UnpackedFloat.unpack
  dsimp only
  rw [if_neg hmax, if_neg hzero, hsign]
  rfl

/-- A positive number with no exponent field. -/
theorem unpack_subnormal {b : BitVec 64} {m : BitVec 52}
    (hsign : @unpackSign Format.binary64 b = 0#1)
    (he : @unpackExponent Format.binary64 b = 0#11)
    (hm : @unpackMantissa Format.binary64 b = m) (hpos : 0 < m.toNat) :
    UnpackedFloat.unpack Format.binary64 b = .finite .positive m.toNat (-1074) hpos := by
  subst hm
  have hmax : 0#11 ≠ -1#11 := by decide
  unfold UnpackedFloat.unpack
  dsimp only
  rw [if_neg (he ▸ hmax), if_pos he, dif_neg (fun h => hpos.ne' (congrArg BitVec.toNat h)), hsign]
  exact finite_congr rfl (by rw [he]; rfl)

/-- A normal number keeps its leading digit in its exponent field. -/
theorem unpack_packComponents_normal {m b : ℕ} (hlo : 2 ^ 52 ≤ m) (hhi : m < 2 ^ 53)
    (hb : 0 < b) (hb' : b < 2047) :
    UnpackedFloat.unpack Format.binary64 (packComponents Format.binary64 .positive
      (BitVec.ofNat 11 b) (BitVec.ofNat 52 m)) = .finite .positive m ((b : ℤ) - 1075) (by omega) := by
  have hexp : (BitVec.ofNat 11 b).toNat = b := Nat.mod_eq_of_lt (by omega)
  have hmax : BitVec.ofNat 11 b ≠ -1#11 := by
    intro h
    have := congrArg BitVec.toNat h
    rw [hexp] at this
    exact absurd this (by simp; omega)
  have hzero : BitVec.ofNat 11 b ≠ 0#11 := by
    intro h
    have := congrArg BitVec.toNat h
    rw [hexp] at this
    exact absurd this (by simp; omega)
  have hmant : (1#1 ++ BitVec.ofNat 52 m).toNat = m := by
    rw [BitVec.toNat_append, ← Nat.shiftLeft_add_eq_or_of_lt (BitVec.isLt _), BitVec.toNat_ofNat,
      Nat.shiftLeft_eq]
    change 1 * 2 ^ 52 + m % 2 ^ 52 = m
    omega
  rw [unpack_normal (unpackSign_packComponents ..) unpackExponent_packComponents
    unpackMantissa_packComponents hmax hzero (by omega)]
  exact finite_congr hmant (by rw [hexp])

/-- A subnormal number keeps its whole significand. -/
theorem unpack_packComponents_subnormal {m : ℕ} (hpos : 0 < m) (hm : m < 2 ^ 52) :
    UnpackedFloat.unpack Format.binary64 (packComponents Format.binary64 .positive 0#11
      (BitVec.ofNat 52 m)) = .finite .positive m (-1074) hpos := by
  have hmant : (BitVec.ofNat 52 m).toNat = m := Nat.mod_eq_of_lt hm
  rw [unpack_subnormal (unpackSign_packComponents ..) unpackExponent_packComponents
    unpackMantissa_packComponents (by omega)]
  exact finite_congr hmant rfl

/-- The exponent field of a number whose exponent fits. -/
theorem pack_finite {m : ℕ} {e : ℤ} (hm : 0 < m) (he : -1074 ≤ e) (he' : e ≤ 971) :
    UnpackedFloat.pack Format.binary64 (.finite .positive m e hm) =
      packComponents Format.binary64 .positive
        (if m.log2 = 52 then BitVec.ofNat 11 (e + 1075).toNat else 0#11) (BitVec.ofNat 52 m) := by
  have hbias : (e + Format.binary64.exponentBias +
      Format.binary64.mantissaBitsWithoutImplicit).toNat = (e + 1075).toNat := by
    change (e + 1023 + 52).toNat = _
    omega
  have hfits : ¬ 2 ^ Format.binary64.exponentBits ≤ (e + 1075).toNat + 1 := by
    change ¬ 2048 ≤ (e + 1075).toNat + 1
    omega
  have hbits : m.log2 + 1 = Format.binary64.mantissaBits ↔ m.log2 = 52 := by
    change m.log2 + 1 = 53 ↔ _
    omega
  unfold UnpackedFloat.pack
  dsimp only
  simp only [hbias, hfits, hbits, if_false]
  split_ifs <;> rfl

/-- **Nothing is lost in the bits**, as long as the exponent fits. -/
theorem unpack_pack {u : UnpackedFloat} (hu : Canonical u)
    (hmax : ∀ s m e h, u = .finite s m e h → e ≤ 971) :
    UnpackedFloat.unpack Format.binary64 (UnpackedFloat.pack Format.binary64 u) = u := by
  match u, hu with
  | .zero .positive, _ => rfl
  | .finite .positive m e hm, hu =>
    obtain ⟨hm₁, he, hm₂⟩ := hu
    have he' := hmax _ _ _ _ rfl
    rw [pack_finite hm he he']
    -- with fewer than fifty-three digits the exponent is the least one
    by_cases hnormal : 2 ^ 52 ≤ m
    · have hlog : m.log2 = 52 := (Nat.log2_eq_iff hm.ne').mpr ⟨hnormal, hm₁⟩
      rw [if_pos hlog, unpack_packComponents_normal hnormal hm₁ (by omega) (by omega)]
      exact finite_congr rfl (by omega)
    · have hlog : m.log2 < 52 := (Nat.log2_lt hm.ne').mpr (by omega)
      obtain rfl : e = -1074 := by omega
      rw [if_neg hlog.ne, unpack_packComponents_subnormal hm (by omega)]

end Binary64

end DocCoverage
