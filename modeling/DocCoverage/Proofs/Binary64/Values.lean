import DocCoverage.Proofs.Binary64.Arithmetic
import DocCoverage.Proofs.Binary64.Order
/-!
# Binary64 — numbers of a known value

`HasValue x v` says that the floating-point number `x` is worth `v`, exactly,
for values up to 2^64. Numbers of known values compare as their values do,
and a sum, a product or a quotient of them is worth the exact one, rounded.
So a bound on values is a bound on numbers, as long as every operation is
followed by its rounding.
-/

namespace DocCoverage

namespace Binary64

open Float.Model Float.Model.UnpackedFloat

/-! ## Rounding what is rounded -/

/-- **Rounding twice is rounding once.** -/
theorem rounded_rounded (x : ℚ) : rounded (rounded x) = rounded x := by
  have hexp := neg_le_exponentOf x
  rcases (significand_le x).lt_or_eq with hlt | hcarry
  · exact rounded_mul_zpow hlt hexp
  · -- a significand of fifty-four digits is a power of two, which needs but one
    have hpow : rounded x = ((1 : ℕ) : ℚ) * 2 ^ (53 + exponentOf x) := by
      rw [rounded, hcarry, zpow_add₀ (by norm_num)]
      norm_num
    rw [hpow]
    exact rounded_mul_zpow (by norm_num) (by omega)

theorem rounded_two_pow_64 : rounded (2 ^ 64) = 2 ^ 64 := by
  simpa using rounded_mul_zpow (m := 1) (e := 64) (by norm_num) (by norm_num)

/-- What is at most a number that is kept stays at most this number. -/
theorem rounded_le {x y : ℚ} (hx : 0 ≤ x) (h : x ≤ y) (hy : rounded y = y) : rounded x ≤ y :=
  hy ▸ rounded_mono hx h

/-- What is at least a number that is kept stays at least this number. -/
theorem le_rounded {x y : ℚ} (hx : 0 ≤ x) (h : x ≤ y) (hkept : rounded x = x) : x ≤ rounded y :=
  hkept ▸ rounded_mono hx h

/-! ## Addition -/

theorem value_nonneg (u : UnpackedFloat) : 0 ≤ value u := by
  unfold value
  split
  · positivity
  · exact le_rfl

theorem rounded_value {u : UnpackedFloat} (hu : Canonical u) : rounded (value u) = value u := by
  match u, hu with
  | .zero .positive, _ => exact rounded_zero
  | .finite .positive m e hm, hu => exact rounded_mul_zpow hu.1 hu.2.1

theorem encoded_value {u : UnpackedFloat} (hu : Canonical u) : encoded (value u) = u :=
  eq_of_value_eq (canonical_encoded (value_nonneg u)) hu (by rw [value_encoded, rounded_value hu])

/-- **Addition is exact, then rounded.** -/
theorem add_eq {u v : UnpackedFloat} (hu : Canonical u) (hv : Canonical v) :
    UnpackedFloat.add Format.binary64 u v = encoded (value u + value v) := by
  match u, v, hu, hv with
  | .zero .positive, v, _, hv =>
    rw [value_zero, zero_add, encoded_value hv]
    match v, hv with
    | .zero .positive, _ => rfl
    | .finite .positive n f hn, _ => rfl
  | .finite .positive m e hm, .zero .positive, hu, _ =>
    rw [value_zero, add_zero, encoded_value hu]
    rfl
  | .finite .positive m e hm, .finite .positive n f hn, _, _ =>
    -- both are multiples of the lesser power of two, and the sum is one again
    obtain ⟨j, hj⟩ := Int.eq_ofNat_of_zero_le (sub_nonneg.mpr (min_le_left e f))
    obtain ⟨k, hk⟩ := Int.eq_ofNat_of_zero_le (sub_nonneg.mpr (min_le_right e f))
    have hpos : 0 < m * 2 ^ j + n * 2 ^ k := Nat.add_pos_left (Nat.mul_pos hm (by positivity)) _
    have hvalue : value (.finite .positive m e hm) + value (.finite .positive n f hn) =
        (m * 2 ^ j + n * 2 ^ k : ℕ) * 2 ^ min e f := by
      have he : (2 : ℚ) ^ e = 2 ^ j * 2 ^ min e f := by
        rw [← zpow_natCast, ← zpow_add₀ (by norm_num)]
        congr 1
        omega
      have hf : (2 : ℚ) ^ f = 2 ^ k * 2 ^ min e f := by
        rw [← zpow_natCast, ← zpow_add₀ (by norm_num)]
        congr 1
        omega
      rw [value_finite, value_finite, he, hf]
      push_cast
      ring
    change UnpackedFloat.normalize Format.binary64
      ((m <<< (e - min e f).toNat : ℕ) + (n <<< (f - min e f).toNat : ℕ) : ℤ) (min e f) .positive = _
    rw [hj, hk, Int.toNat_natCast, Int.toNat_natCast, Nat.shiftLeft_eq, Nat.shiftLeft_eq, hvalue,
      ← round_eq hpos, UnpackedFloat.normalize,
      Int.compare_eq_gt.mpr (by exact_mod_cast hpos)]
    congr 1

theorem ofRat_add_ofRat {x y : ℚ} (hx : InRange x) (hy : InRange y) :
    ofRat x + ofRat y = ofRat (rounded x + rounded y) := by
  change Float.ofModel (Float.Model.pack (UnpackedFloat.add Format.binary64
    (ofRat x).toModel.unpack (ofRat y).toModel.unpack)) = _
  rw [unpack_ofRat hx, unpack_ofRat hy, add_eq (canonical_encoded hx.1) (canonical_encoded hy.1),
    value_encoded, value_encoded, ofRat]

/-! ## Values -/

/-- A floating-point number that is worth this much. -/
structure HasValue (x : Float) (v : ℚ) : Prop where
  eq_ofRat : x = ofRat v
  kept : rounded v = v
  nonneg : 0 ≤ v
  le_bound : v ≤ 2 ^ 64

namespace HasValue

variable {x y : Float} {v w : ℚ}

theorem inRange (h : HasValue x v) : InRange v :=
  ⟨h.nonneg, lt_of_le_of_lt h.le_bound (pow_lt_pow_right₀ (by norm_num) (by decide))⟩

theorem of_rounded (hv : 0 ≤ v) (hbound : v ≤ 2 ^ 64) : HasValue (ofRat v) (rounded v) where
  eq_ofRat := ofRat_congr hv (rounded_nonneg v) (rounded_rounded v).symm
  kept := rounded_rounded v
  nonneg := rounded_nonneg v
  le_bound := rounded_le hv hbound rounded_two_pow_64

/-- **Numbers compare as their values do.** -/
theorem le_iff (hx : HasValue x v) (hy : HasValue y w) : x ≤ y ↔ v ≤ w := by
  rw [hx.eq_ofRat, hy.eq_ofRat, ofRat_le_iff hx.inRange hy.inRange, hx.kept, hy.kept]

theorem le_self (hx : HasValue x v) : x ≤ x := (hx.le_iff hx).mpr le_rfl

theorem lt_iff (hx : HasValue x v) (hy : HasValue y w) : x < y ↔ v < w := by
  rw [← float_not_le hy.le_self hx.le_self, hy.le_iff hx, not_le]

theorem add (hx : HasValue x v) (hy : HasValue y w) (hbound : v + w ≤ 2 ^ 64) :
    HasValue (x + y) (rounded (v + w)) := by
  rw [hx.eq_ofRat, hy.eq_ofRat, ofRat_add_ofRat hx.inRange hy.inRange, hx.kept, hy.kept]
  exact of_rounded (add_nonneg hx.nonneg hy.nonneg) hbound

theorem mul (hx : HasValue x v) (hy : HasValue y w) (hbound : v * w ≤ 2 ^ 64) :
    HasValue (x * y) (rounded (v * w)) := by
  rw [hx.eq_ofRat, hy.eq_ofRat, ofRat_mul_ofRat hx.inRange hy.inRange, hx.kept, hy.kept]
  exact of_rounded (mul_nonneg hx.nonneg hy.nonneg) hbound

/-- A quotient is worth the exact one, rounded. -/
theorem div (hx : HasValue x v) (hy : HasValue y w) (hpos : 0 < w) (hle : v ≤ w) :
    HasValue (x / y) (rounded (v / w)) := by
  have hone : v / w ≤ 1 := (div_le_one hpos).mpr hle
  rw [hx.eq_ofRat, hy.eq_ofRat,
    ofRat_div_ofRat hx.inRange hy.inRange (by rw [hy.kept]; exact hpos), hx.kept, hy.kept]
  exact of_rounded (div_nonneg hx.nonneg hy.nonneg) (hone.trans (by norm_num))

/-- A number is worth the significand and the exponent it is stored with. -/
theorem of_stored {m : ℕ} {e : ℤ} (hlo : 2 ^ 52 ≤ m) (hhi : m < 2 ^ 53) (he : -1074 ≤ e)
    (he' : e ≤ 0) (h : x = .ofModel (Float.Model.pack (stored m e))) : HasValue x (m * 2 ^ e) := by
  have hpos : (0 : ℚ) ≤ m * 2 ^ e := by positivity
  have hkept : rounded (m * 2 ^ e) = m * 2 ^ e := rounded_mul_zpow hhi he
  refine ⟨?_, hkept, hpos, ?_⟩
  · have hencoded : encoded (m * 2 ^ e) = stored m e :=
      eq_of_value_eq (canonical_encoded hpos) (canonical_stored hhi he (.inr (.inl hlo)))
        (by rw [value_encoded, value_stored, hkept])
    rw [h, ofRat, hencoded]
  · have hpow : (2 : ℚ) ^ e ≤ 1 := zpow_le_one_of_nonpos₀ (by norm_num) he'
    have hm : (m : ℚ) ≤ 2 ^ 53 := by exact_mod_cast hhi.le
    calc (m : ℚ) * 2 ^ e ≤ 2 ^ 53 * 1 := mul_le_mul hm hpow (by positivity) (by norm_num)
      _ ≤ 2 ^ 64 := by norm_num

theorem ofNat {n : ℕ} (h : n < 2 ^ 53) : HasValue (Float.ofNat n) n where
  eq_ofRat := float_ofNat_eq n
  kept := rounded_natCast h
  nonneg := Nat.cast_nonneg n
  le_bound := by exact_mod_cast h.le.trans (by norm_num)

end HasValue

/-! ## Numbers that are too large -/

/-- A number whose exponent does not fit is stored as infinity. -/
theorem unpack_pack_of_lt {m : ℕ} {e : ℤ} {hm : 0 < m} (he : 971 < e) :
    UnpackedFloat.unpack Format.binary64
      (UnpackedFloat.pack Format.binary64 (.finite .positive m e hm)) = .infinity .positive := by
  have hlarge : 2 ^ Format.binary64.exponentBits ≤ (e + Format.binary64.exponentBias +
      Format.binary64.mantissaBitsWithoutImplicit).toNat + 1 := by
    change 2048 ≤ (e + 1023 + 52).toNat + 1
    omega
  unfold UnpackedFloat.pack
  dsimp only
  rw [if_pos hlarge]
  rfl

/-- A canonical number is read from its bits, or read as infinity if it is
too large. -/
theorem unpack_pack_cases {u : UnpackedFloat} (hu : Canonical u) :
    (UnpackedFloat.unpack Format.binary64 (UnpackedFloat.pack Format.binary64 u) = u ∧
        value u < 2 ^ (1024 : ℤ)) ∨
      (UnpackedFloat.unpack Format.binary64 (UnpackedFloat.pack Format.binary64 u) =
          .infinity .positive ∧ 2 ^ (1024 : ℤ) ≤ value u) := by
  match u, hu with
  | .zero .positive, _ => exact .inl ⟨rfl, zpow_pos (by norm_num) _⟩
  | .finite .positive m e hm, hu =>
    rcases le_or_gt e 971 with he | he
    · refine .inl ⟨unpack_pack hu fun s n f h heq => by cases heq; exact he, ?_⟩
      calc (m : ℚ) * 2 ^ e < 2 ^ (53 : ℤ) * 2 ^ e := by gcongr; exact_mod_cast hu.1
        _ = 2 ^ (53 + e) := (zpow_add₀ (by norm_num) _ _).symm
        _ ≤ 2 ^ (1024 : ℤ) := zpow_le_zpow_right₀ (by norm_num) (by omega)
    · refine .inr ⟨unpack_pack_of_lt he, ?_⟩
      have hm' : 2 ^ 52 ≤ m := hu.2.2.resolve_right (by omega)
      calc (2 : ℚ) ^ (1024 : ℤ) ≤ 2 ^ (52 + e) := zpow_le_zpow_right₀ (by norm_num) (by omega)
        _ = 2 ^ (52 : ℤ) * 2 ^ e := zpow_add₀ (by norm_num) _ _
        _ ≤ m * 2 ^ e := by gcongr; exact_mod_cast hm'

/-- **Taking the nearest number keeps the order**, also where it is
infinity. -/
theorem ofRat_mono {x y : ℚ} (hx : 0 ≤ x) (h : x ≤ y) : ofRat x ≤ ofRat y := by
  have hu := canonical_encoded hx
  have hv := canonical_encoded (hx.trans h)
  have hle : value (encoded x) ≤ value (encoded y) := by
    rw [value_encoded, value_encoded]
    exact rounded_mono hx h
  change decide ((UnpackedFloat.unpack Format.binary64 (UnpackedFloat.pack Format.binary64
    (encoded x))).le (UnpackedFloat.unpack Format.binary64 (UnpackedFloat.pack Format.binary64
      (encoded y))) = true) = true
  rw [decide_eq_true_iff]
  rcases unpack_pack_cases hv with ⟨hy, hsmall⟩ | ⟨hy, -⟩
  · rcases unpack_pack_cases hu with ⟨hx, -⟩ | ⟨-, hlarge⟩
    · rw [hx, hy, le_iff_value_le hu hv]
      exact hle
    · exact absurd (hlarge.trans hle) hsmall.not_ge
  · rw [hy]
    rcases unpack_pack_cases hu with ⟨hx, -⟩ | ⟨hx, -⟩
    · rw [hx]
      match encoded x, hu with
      | .zero .positive, _ => rfl
      | .finite .positive m e hm, _ => rfl
    · rw [hx]
      rfl

/-- **Counts keep their order as numbers**, however large they are. -/
theorem float_ofNat_mono {m n : ℕ} (h : m ≤ n) : Float.ofNat m ≤ Float.ofNat n := by
  rw [float_ofNat_eq, float_ofNat_eq]
  exact ofRat_mono (Nat.cast_nonneg m) (by exact_mod_cast h)

/-! ## Literals -/

theorem hasValue_zero : HasValue 0.0 0 := by
  exact_mod_cast HasValue.ofNat (n := 0) (by norm_num)

theorem hasValue_one : HasValue 1.0 1 := by
  exact_mod_cast HasValue.ofNat (n := 1) (by norm_num)

theorem hasValue_two : HasValue 2.0 2 := by
  exact_mod_cast HasValue.ofNat (n := 2) (by norm_num)

end Binary64

end DocCoverage
