import DocCoverage.Proofs.Binary64.Encoding
/-!
# Binary64 — exact arithmetic, then rounding

`ofRat` is the floating-point number nearest a nonnegative rational. The
operations on such numbers are the exact ones followed by a rounding
(`ofRat_mul_ofRat`, `ofRat_div_ofRat`, `ofNat_eq`), and they compare as
what they are rounded to (`ofRat_le_iff`).
-/

namespace DocCoverage

namespace Binary64

open Float.Model Float.Model.UnpackedFloat

/-! ## Operations on stored numbers -/

@[simp] theorem encoded_zero : encoded 0 = .zero .positive := by
  simp [encoded, stored]

/-- Rounding a significand that need not be shifted right. -/
theorem round_eq {m : ℕ} {e : ℤ} (hm : 0 < m) :
    UnpackedFloat.round Format.binary64 .positive m e = encoded (m * 2 ^ e) := by
  have ht : Format.binary64.targetExponent (totalExponent m e) = exponentOf (m * 2 ^ e) :=
    targetExponent_eq (by positivity) hm
      (by rw [mul_div_cancel_right₀ _ (by positivity), Nat.floor_natCast])
  unfold UnpackedFloat.round decreaseExponent
  simp only [ht, Nat.shiftLeft_eq]
  generalize hk : (e - exponentOf (m * 2 ^ e)).toNat = k
  refine roundWithAccuracy_eq (by positivity) ?_ (by omega)
  rw [ofMantissaAndAccuracy_exact]
  congr 1
  rw [mul_div_assoc, ← zpow_sub₀ (by norm_num)]
  push_cast
  congr 1
  rw [← zpow_natCast]
  congr 1
  omega

/-- **Multiplication is exact, then rounded.** -/
theorem mul_eq {u v : UnpackedFloat} (hu : Canonical u) (hv : Canonical v) :
    UnpackedFloat.mul Format.binary64 u v = encoded (value u * value v) := by
  match u, v, hu, hv with
  | .zero .positive, .zero .positive, _, _ => rw [value_zero, zero_mul, encoded_zero]; rfl
  | .zero .positive, .finite .positive m e hm, _, _ => rw [value_zero, zero_mul, encoded_zero]; rfl
  | .finite .positive m e hm, .zero .positive, _, _ => rw [value_zero, mul_zero, encoded_zero]; rfl
  | .finite .positive m e hm, .finite .positive n f hn, hu, hv =>
    obtain ⟨hm₁, hm₂, hm₃⟩ := hu
    obtain ⟨hn₁, hn₂, hn₃⟩ := hv
    have hvalue : (m : ℚ) * 2 ^ e * (n * 2 ^ f) = (m * n : ℕ) * 2 ^ (e + f) := by
      rw [zpow_add₀ (by norm_num)]
      push_cast
      ring
    have hlog : Int.log 2 ((m : ℚ) * 2 ^ e * (n * 2 ^ f)) = (m * n).log2 + (e + f) := by
      refine log_eq_of_floor (by positivity) (Nat.mul_pos hm hn) ?_
      rw [hvalue, mul_div_cancel_right₀ _ (by positivity), Nat.floor_natCast]
    change roundWithAccuracy Format.binary64 .positive (m * n) (e + f) .exact = _
    refine roundWithAccuracy_eq (by rw [value_finite, value_finite]; positivity) ?_ ?_
    · rw [ofMantissaAndAccuracy_exact]
      rw [value_finite, value_finite, hvalue, mul_div_cancel_right₀ _ (by positivity)]
    · rw [value_finite, value_finite, exponentOf, hlog]
      -- a significand of fifty-three digits makes the product as long, and two short ones
      -- have the least exponent
      have hlong (h : 2 ^ 52 ≤ m * n) : 52 ≤ (m * n).log2 :=
        (Nat.le_log2 (Nat.mul_pos hm hn).ne').mpr h
      rcases hm₃ with hm₃ | rfl
      · have := hlong (hm₃.trans (Nat.le_mul_of_pos_right m hn))
        omega
      · rcases hn₃ with hn₃ | rfl
        · have := hlong (hn₃.trans (Nat.le_mul_of_pos_left n hm))
          omega
        · omega

/-- The logarithm of a quotient is at least the difference of the
logarithms less one. -/
theorem log_div_ge {m n : ℕ} (hm : 0 < m) (hn : 0 < n) (e f : ℤ) :
    (m.log2 : ℤ) + e - (n.log2 + f) - 1 ≤ Int.log 2 ((m : ℚ) * 2 ^ e / (n * 2 ^ f)) := by
  have hmlog := (Nat.log2_eq_iff hm.ne').mp (rfl : m.log2 = m.log2)
  have hnlog := (Nat.log2_eq_iff hn.ne').mp (rfl : n.log2 = n.log2)
  rw [← Int.zpow_le_iff_le_log (by decide) (by positivity), le_div_iff₀ (by positivity)]
  calc ((2 : ℕ) : ℚ) ^ ((m.log2 : ℤ) + e - (n.log2 + f) - 1) * (n * 2 ^ f)
      ≤ 2 ^ ((m.log2 : ℤ) + e - (n.log2 + f) - 1) * ((2 ^ (n.log2 + 1) : ℕ) * 2 ^ f) := by
        push_cast
        gcongr
        exact_mod_cast hnlog.2.le
    _ = (2 ^ m.log2 : ℕ) * 2 ^ e := by
        push_cast
        rw [← zpow_natCast, ← zpow_natCast, ← zpow_add₀ (by norm_num), ← zpow_add₀ (by norm_num),
          ← zpow_add₀ (by norm_num)]
        congr 1
        push_cast
        ring
    _ ≤ m * 2 ^ e := by gcongr; exact hmlog.1

/-- A quotient in terms of its last digit is one of natural numbers. -/
theorem div_div_zpow (m n : ℕ) {e f t : ℤ} (ht : t ≤ e - f) :
    (m : ℚ) * 2 ^ e / (n * 2 ^ f) / 2 ^ t = (m * 2 ^ (e - f - t).toNat : ℕ) / n := by
  have hsplit : (2 : ℚ) ^ e = 2 ^ (e - f - t).toNat * 2 ^ t * 2 ^ f := by
    rw [← zpow_natCast, ← zpow_add₀ (by norm_num), ← zpow_add₀ (by norm_num)]
    congr 1
    omega
  rw [hsplit]
  push_cast
  field_simp

/-- **Division is exact, then rounded.** -/
theorem div_eq {u v : UnpackedFloat} (hu : Canonical u) (hv : Canonical v) (hpos : 0 < value v) :
    UnpackedFloat.div Format.binary64 u v = encoded (value u / value v) := by
  match u, v, hu, hv with
  | .zero .positive, .zero .positive, _, _ => exact absurd hpos (lt_irrefl _)
  | .zero .positive, .finite .positive n f hn, _, _ => rw [value_zero, zero_div, encoded_zero]; rfl
  | .finite .positive m e hm, .zero .positive, _, _ => exact absurd hpos (lt_irrefl _)
  | .finite .positive m e hm, .finite .positive n f hn, hu, hv =>
    have hlog := log_div_ge hm hn e f
    change roundWithAccuracy Format.binary64 .positive (divCore Format.binary64 m e n f).1
      (divCore Format.binary64 m e n f).2.1 (divCore Format.binary64 m e n f).2.2 = _
    rw [value_finite, value_finite]
    unfold divCore
    simp only [Nat.shiftLeft_eq]
    generalize ht : min (e - f) (Format.binary64.targetExponent
      (totalExponent m e - totalExponent n f)) = t
    have hle : t ≤ exponentOf (m * 2 ^ e / (n * 2 ^ f)) := by
      rw [targetExponent_binary64, totalExponent, totalExponent] at ht
      unfold exponentOf
      omega
    have hlocated := ofMantissaAndAccuracy_fraction (m * 2 ^ (e - f - t).toNat) n hn
    rw [← div_div_zpow m n (show t ≤ e - f by omega)] at hlocated
    exact roundWithAccuracy_eq (by positivity) hlocated hle

/-- **A natural number is stored rounded.** -/
theorem ofNat_eq (n : ℕ) : UnpackedFloat.ofNat Format.binary64 n = encoded n := by
  unfold UnpackedFloat.ofNat UnpackedFloat.ofInt UnpackedFloat.normalize
  rcases Nat.eq_zero_or_pos n with rfl | hn
  · simp
  · rw [Int.compare_eq_gt.mpr (by omega)]
    simpa using round_eq (e := 0) hn

/-! ## Floating-point numbers -/

/-- The floating-point number nearest a nonnegative rational. -/
def ofRat (x : ℚ) : Float := .ofModel (Float.Model.pack (encoded x))

/-- The numbers whose neighbours are finite. -/
def InRange (x : ℚ) : Prop := 0 ≤ x ∧ x < 2 ^ 1023

theorem InRange.of_le {x y : ℚ} (hx : 0 ≤ x) (h : x ≤ y) (hy : InRange y) : InRange x :=
  ⟨hx, lt_of_le_of_lt h hy.2⟩

theorem inRange_natCast {n : ℕ} (h : n < 2 ^ 64) : InRange n :=
  ⟨by positivity, calc (n : ℚ) < 2 ^ 64 := by exact_mod_cast h
    _ ≤ 2 ^ 1023 := pow_le_pow_right₀ (by norm_num) (by decide)⟩

theorem exponentOf_lt {x : ℚ} (hx : InRange x) : exponentOf x < 971 := by
  rcases hx.1.eq_or_lt with rfl | hpos
  · simp [exponentOf]
  · have : Int.log 2 x < 1023 := by
      rw [← Int.lt_zpow_iff_log_lt (by decide) hpos]
      exact_mod_cast hx.2
    unfold exponentOf
    omega

/-- Reading the bits of the nearest number gives what was stored. -/
theorem unpack_ofRat {x : ℚ} (hx : InRange x) : (ofRat x).toModel.unpack = encoded x := by
  refine unpack_pack (canonical_encoded hx.1) fun s m e h heq => ?_
  have := exponentOf_lt hx
  by_cases hcarry : significand x = 2 ^ 53
  · rw [encoded, if_pos hcarry] at heq
    have := exponent_of_stored_eq heq
    omega
  · rw [encoded, if_neg hcarry] at heq
    have := exponent_of_stored_eq heq
    omega

theorem ofRat_congr {x y : ℚ} (hx : 0 ≤ x) (hy : 0 ≤ y) (h : rounded x = rounded y) :
    ofRat x = ofRat y := by
  unfold ofRat
  rw [eq_of_value_eq (canonical_encoded hx) (canonical_encoded hy)
    (by rw [value_encoded, value_encoded, h])]

/-- **Nearest numbers compare as what they are rounded to.** -/
theorem ofRat_le_iff {x y : ℚ} (hx : InRange x) (hy : InRange y) :
    ofRat x ≤ ofRat y ↔ rounded x ≤ rounded y := by
  change decide ((ofRat x).toModel.unpack.le (ofRat y).toModel.unpack = true) = true ↔ _
  rw [unpack_ofRat hx, unpack_ofRat hy, decide_eq_true_iff,
    le_iff_value_le (canonical_encoded hx.1) (canonical_encoded hy.1), value_encoded, value_encoded]

theorem ofRat_inj {x y : ℚ} (hx : InRange x) (hy : InRange y) :
    ofRat x = ofRat y ↔ rounded x = rounded y := by
  refine ⟨fun h => ?_, ofRat_congr hx.1 hy.1⟩
  rw [← value_encoded, ← value_encoded, ← unpack_ofRat hx, ← unpack_ofRat hy, h]

theorem ofRat_mul_ofRat {x y : ℚ} (hx : InRange x) (hy : InRange y) :
    ofRat x * ofRat y = ofRat (rounded x * rounded y) := by
  change Float.ofModel (Float.Model.pack (UnpackedFloat.mul Format.binary64
    (ofRat x).toModel.unpack (ofRat y).toModel.unpack)) = _
  rw [unpack_ofRat hx, unpack_ofRat hy, mul_eq (canonical_encoded hx.1) (canonical_encoded hy.1),
    value_encoded, value_encoded, ofRat]

theorem ofRat_div_ofRat {x y : ℚ} (hx : InRange x) (hy : InRange y) (hpos : 0 < rounded y) :
    ofRat x / ofRat y = ofRat (rounded x / rounded y) := by
  change Float.ofModel (Float.Model.pack (UnpackedFloat.div Format.binary64
    (ofRat x).toModel.unpack (ofRat y).toModel.unpack)) = _
  rw [unpack_ofRat hx, unpack_ofRat hy, div_eq (canonical_encoded hx.1) (canonical_encoded hy.1)
    (by rwa [value_encoded]), value_encoded, value_encoded, ofRat]

/-! ## Literals -/

/-- A number that needs more than fifty-three digits is read from its
decimal writing, which rounds it once as well. -/
theorem ofScientific_eq {n : ℕ} (hn : 2 ^ 53 ≤ n) :
    UnpackedFloat.ofScientific Format.binary64 n 0 = encoded n := by
  have hpos : 0 < n := by omega
  have hbits : (0 : ℤ) < 2 ^ Format.binary64.exponentBits := by positivity
  unfold UnpackedFloat.ofScientific
  rw [dif_neg hpos.ne', if_neg (by omega), if_neg (by omega), if_pos le_rfl]
  change roundWithAccuracy Format.binary64 .positive ((n <<< 53) * 1) (-53 + 0) .exact = _
  rw [Nat.shiftLeft_eq, mul_one, add_zero]
  refine roundWithAccuracy_eq (by positivity) ?_ ?_
  · rw [ofMantissaAndAccuracy_exact]
    congr 1
    push_cast
    rw [zpow_neg, div_inv_eq_mul]
    norm_cast
  · have := neg_le_exponentOf (n : ℚ)
    have hlog : (0 : ℤ) ≤ Int.log 2 (n : ℚ) := by
      rw [← Int.zpow_le_iff_le_log (by decide) (by positivity), zpow_zero]
      exact_mod_cast hpos
    have := log_le_exponentOf (n : ℚ)
    omega

/-- **A natural number literal is the nearest number.** -/
theorem float_ofNat_eq (n : ℕ) : Float.ofNat n = ofRat n := by
  change Float.ofScientific n false 0 = _
  unfold Float.ofScientific
  split
  next h =>
    have hone : Float.ofBits 0x3FF0000000000000 = ofRat 1 := by
      rw [ofRat, ← Nat.cast_one, ← ofNat_eq]
      rfl
    have hcast : n.toUInt64.toFloat = ofRat n := by
      change Float.ofModel (Float.Model.pack (UnpackedFloat.ofNat Format.binary64
        n.toUInt64.toNat)) = _
      rw [Nat.toUInt64_eq, UInt64.toNat_ofNat', Nat.mod_eq_of_lt (by omega), ofNat_eq, ofRat]
    have hrounded : rounded (1 : ℚ) = 1 := by exact_mod_cast rounded_natCast (n := 1) (by decide)
    change n.toUInt64.toFloat * Float.ofBits 0x3FF0000000000000 = _
    rw [hcast, hone, ofRat_mul_ofRat (inRange_natCast (by omega))
      (by exact_mod_cast inRange_natCast (n := 1) (by decide)), rounded_natCast h.1, hrounded,
      mul_one]
  next h =>
    have hn : 2 ^ 53 ≤ n := by omega
    change Float.ofModel (Float.Model.pack (UnpackedFloat.ofScientific Format.binary64 n 0)) = _
    rw [ofScientific_eq hn, ofRat]

theorem zero_eq_ofRat : (0.0 : Float) = ofRat 0 := by
  rw [← Nat.cast_zero, ← float_ofNat_eq]
  rfl

theorem hundred_eq_ofRat : (100.0 : Float) = ofRat 100 := by
  have h : (100 : ℚ) = (100 : ℕ) := by norm_num
  rw [h, ← float_ofNat_eq]
  rfl

end Binary64

end DocCoverage
