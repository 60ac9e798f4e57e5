import DocCoverage.Document.Features
import DocCoverage.Proofs.Binary64.Values
/-!
# Documents — the score grows with what a document has

The score is computed with floating-point numbers, every step of which is
rounded. Rounding keeps the order, so each of the three steps does so too:
the weight that is met (`weigh_mono`), its share of all (`share_mono`), and
the adjustment to the number of words (`adjustedWorth_mono`). A document that
has all that another one has is scored at least as high (`score_mono`).
-/

namespace DocCoverage

namespace Features

open Binary64

/-- Whether a document has nothing that the other one lacks, and no more
words and lines. -/
structure AtMost (f g : Features) : Prop where
  overview : f.hasOverview = true → g.hasOverview = true
  usage : f.hasUsage = true → g.hasUsage = true
  reference : f.hasReference = true → g.hasReference = true
  installation : f.hasInstallation = true → g.hasInstallation = true
  configuration : f.hasConfiguration = true → g.hasConfiguration = true
  troubleshooting : f.hasTroubleshooting = true → g.hasTroubleshooting = true
  code : f.hasCode = true → g.hasCode = true
  headings : f.hasHeadings = true → g.hasHeadings = true
  words : f.words ≤ g.words
  lines : f.lines ≤ g.lines

/-! ## Criteria -/

section Criteria

variable {c d : Criterion Float} {cs ds : List (Criterion Float)} {f g : Features}
  {required : List String}

/-- The same criterion of two documents, where the second one meets it if the
first one does. -/
def Criterion.AtMost (c d : Criterion Float) : Prop :=
  d.weight = c.weight ∧ (c.isMet = true → d.isMet = true)

/-- Whether the weight of a criterion is worth something between a sixteenth
and one. -/
def Criterion.Weighs (c : Criterion Float) : Prop :=
  ∃ w : ℚ, HasValue c.weight w ∧ 1 / 16 ≤ w ∧ w ≤ 1

theorem hasValue_fifth : HasValue 0.20 ((7205759403792794 : ℕ) * 2 ^ (-55 : ℤ)) :=
  .of_stored (by norm_num) (by norm_num) (by norm_num) (by norm_num) rfl

theorem hasValue_quarter : HasValue 0.25 ((2 ^ 52 : ℕ) * 2 ^ (-54 : ℤ)) :=
  .of_stored (by norm_num) (by norm_num) (by norm_num) (by norm_num) rfl

theorem hasValue_threeTwentieths : HasValue 0.15 ((5404319552844595 : ℕ) * 2 ^ (-55 : ℤ)) :=
  .of_stored (by norm_num) (by norm_num) (by norm_num) (by norm_num) rfl

theorem hasValue_tenth : HasValue 0.10 ((7205759403792794 : ℕ) * 2 ^ (-56 : ℤ)) :=
  .of_stored (by norm_num) (by norm_num) (by norm_num) (by norm_num) rfl

theorem weighs_criteria (h : c ∈ criteria (α := Float) f required) : c.Weighs := by
  unfold criteria at h
  dsimp only at h
  simp only [List.mem_append, List.mem_ite_nil_right, List.mem_singleton] at h
  obtain (((⟨-, rfl⟩ | ⟨-, rfl⟩) | ⟨-, rfl⟩) | ⟨-, rfl⟩) | rfl := h
  · exact ⟨_, hasValue_fifth, by norm_num, by norm_num⟩
  · exact ⟨_, hasValue_quarter, by norm_num, by norm_num⟩
  · exact ⟨_, hasValue_fifth, by norm_num, by norm_num⟩
  · exact ⟨_, hasValue_threeTwentieths, by norm_num, by norm_num⟩
  · exact ⟨_, hasValue_tenth, by norm_num, by norm_num⟩

theorem length_criteria_le (f : Features) (required : List String) :
    (criteria (α := Float) f required).length ≤ 5 := by
  unfold criteria
  dsimp only
  simp only [List.length_append, List.length_singleton]
  split_ifs <;> simp

/-- What a document has shows in its criteria. -/
theorem forall₂_criteria (h : f.AtMost g) (required : List String) :
    List.Forall₂ Criterion.AtMost (criteria f required) (criteria g required) := by
  have hpart {name : String} {weight : Float} {met met' : Bool} (hmet : met = true → met' = true) :
      List.Forall₂ Criterion.AtMost
        (if required.contains name then [Criterion.mk weight met] else [])
        (if required.contains name then [Criterion.mk weight met'] else []) := by
    split
    · exact .cons ⟨rfl, hmet⟩ .nil
    · exact .nil
  have hlast : List.Forall₂ Criterion.AtMost [Criterion.mk (0.10 : Float) f.hasHeadings]
      [Criterion.mk 0.10 g.hasHeadings] := .cons ⟨rfl, h.headings⟩ .nil
  exact List.rel_append (List.rel_append (List.rel_append (List.rel_append (hpart h.overview)
    (hpart h.usage)) (hpart h.reference)) (hpart h.code)) hlast

end Criteria

/-! ## Weighing -/

section Weighing

variable {c d : Criterion Float} {cs ds : List (Criterion Float)}
  {x y : Float × Float} {met met' all : ℚ} {n : ℕ}

/-- What has been weighed is worth this much: what is met, out of at most `n`
in all. -/
structure Weighed (n : ℕ) (x : Float × Float) (met all : ℚ) : Prop where
  metValue : HasValue x.1 met
  allValue : HasValue x.2 all
  met_le : met ≤ all
  all_le : all ≤ n

theorem weighed_nothing : Weighed 0 (0.0, 0.0) 0 0 where
  metValue := hasValue_zero
  allValue := hasValue_zero
  met_le := le_rfl
  all_le := by simp

/-- What is met with one more criterion of this worth. -/
def metWith (met : ℚ) (isMet : Bool) (w : ℚ) : ℚ := if isMet then rounded (met + w) else met

theorem Weighed.add (h : Weighed n x met all) {weight : Float} {w : ℚ} (hw : HasValue weight w)
    (hlow : 1 / 16 ≤ w) (hhigh : w ≤ 1) (isMet : Bool) (hn : n < 1000) :
    Weighed (n + 1) (x.1 + (if isMet then weight else 0.0), x.2 + weight) (metWith met isMet w)
      (rounded (all + w)) := by
  have hmet := h.metValue.nonneg
  have hle := h.met_le
  have hall := h.all_le
  have hsmall : (n : ℚ) ≤ 1000 := by exact_mod_cast hn.le
  have hbound : all + w ≤ 2 ^ 64 := by norm_num; linarith
  have hgrow : all ≤ rounded (all + w) := le_rounded h.allValue.nonneg (by linarith) h.allValue.kept
  have hkept : rounded ((n + 1 : ℕ) : ℚ) = (n + 1 : ℕ) := rounded_natCast (by omega)
  have htotal : rounded (all + w) ≤ (n + 1 : ℕ) :=
    rounded_le (by linarith) (by push_cast; linarith) hkept
  unfold metWith
  cases isMet with
  | true =>
    refine ⟨h.metValue.add hw (by linarith), h.allValue.add hw hbound, ?_, htotal⟩
    exact rounded_mono (by linarith) (by linarith)
  | false =>
    have hsame : HasValue (x.1 + 0.0) met := by
      have hsum := h.metValue.add hasValue_zero (by linarith)
      rwa [add_zero, h.metValue.kept] at hsum
    exact ⟨hsame, h.allValue.add hw hbound, hle.trans hgrow, htotal⟩

theorem metWith_mono (hmet : 0 ≤ met) (hle : met ≤ met') (hkept : rounded met' = met') {w : ℚ}
    (hw : 0 ≤ w) {isMet isMet' : Bool} (hmore : isMet = true → isMet' = true) :
    metWith met isMet w ≤ metWith met' isMet' w := by
  have hgrow : met' ≤ rounded (met' + w) := le_rounded (hmet.trans hle) (by linarith) hkept
  unfold metWith
  cases isMet with
  | true =>
    rw [hmore rfl]
    exact rounded_mono (by linarith) (by linarith)
  | false =>
    cases isMet' with
    | true => exact hle.trans hgrow
    | false => exact hle

/-- One more criterion after another. -/
theorem weighed_foldl (h : List.Forall₂ Criterion.AtMost cs ds) (hcs : ∀ c ∈ cs, c.Weighs)
    (hx : Weighed n x met all) (hy : Weighed n y met' all) (hle : met ≤ met')
    (hn : n + cs.length < 1000) :
    ∃ m m' a, m ≤ m' ∧
      Weighed (n + cs.length) (cs.foldl (fun (met, all) c =>
        (met + (if c.isMet then c.weight else 0.0), all + c.weight)) x) m a ∧
      Weighed (n + cs.length) (ds.foldl (fun (met, all) c =>
        (met + (if c.isMet then c.weight else 0.0), all + c.weight)) y) m' a := by
  induction h generalizing n x y met met' all with
  | nil => exact ⟨met, met', all, hle, hx, hy⟩
  | @cons c d cs ds hcd hrest ih =>
    obtain ⟨⟨w, hw, hlow, hhigh⟩, hcs⟩ := List.forall_mem_cons.mp hcs
    rw [List.length_cons, ← Nat.add_assoc, Nat.add_right_comm] at hn ⊢
    have hw' : HasValue d.weight w := by
      rw [hcd.1]
      exact hw
    exact ih hcs (hx.add hw hlow hhigh c.isMet (by omega)) (hy.add hw' hlow hhigh d.isMet (by omega))
      (metWith_mono hx.metValue.nonneg hle hy.metValue.kept (by linarith) hcd.2) hn

/-- **The more criteria are met, the more is their weight**, of the same
weight in all. -/
theorem weigh_mono (h : List.Forall₂ Criterion.AtMost cs ds) (hcs : ∀ c ∈ cs, c.Weighs)
    (hlength : cs.length < 1000) :
    ∃ m m' a, m ≤ m' ∧ Weighed cs.length (weigh cs) m a ∧ Weighed cs.length (weigh ds) m' a := by
  have hfold := weighed_foldl h hcs weighed_nothing weighed_nothing le_rfl (by omega)
  rwa [Nat.zero_add] at hfold

/-! ## The share -/

/-- What a share is worth. -/
def shareWorth (met all : ℚ) : ℚ := if 0 < all then rounded (met / all) else 0

theorem hasValue_share (h : Weighed n (weigh cs) met all) :
    HasValue (share cs) (shareWorth met all) := by
  have hless : Measure.less 0.0 (weigh cs).2 = decide (0 < all) :=
    decide_eq_decide.mpr (hasValue_zero.lt_iff h.allValue)
  change HasValue (if Measure.less 0.0 (weigh cs).2 then (weigh cs).1 / (weigh cs).2 else 0.0) _
  rw [hless, shareWorth]
  by_cases hall : 0 < all
  · rw [if_pos (decide_eq_true hall), if_pos hall]
    exact h.metValue.div h.allValue hall h.met_le
  · rw [if_neg (by simpa using hall), if_neg hall]
    exact hasValue_zero

theorem shareWorth_mono (hmet : 0 ≤ met) (h : met ≤ met') :
    shareWorth met all ≤ shareWorth met' all := by
  unfold shareWorth
  split
  · exact rounded_mono (by positivity) (by gcongr)
  · exact le_rfl

theorem shareWorth_le_one (hmet : 0 ≤ met) (h : met ≤ all) : shareWorth met all ≤ 1 := by
  unfold shareWorth
  split
  next hall => exact rounded_le (by positivity) ((div_le_one hall).mpr h) hasValue_one.kept
  next => exact zero_le_one

/-- **The more criteria are met, the greater is the share**, which is at most
one. -/
theorem share_mono (h : List.Forall₂ Criterion.AtMost cs ds) (hcs : ∀ c ∈ cs, c.Weighs)
    (hlength : cs.length < 1000) :
    ∃ s s', s ≤ s' ∧ s' ≤ 1 ∧ HasValue (share cs) s ∧ HasValue (share ds) s' := by
  obtain ⟨m, m', a, hle, hx, hy⟩ := weigh_mono h hcs hlength
  exact ⟨shareWorth m a, shareWorth m' a, shareWorth_mono hx.metValue.nonneg hle,
    shareWorth_le_one hy.metValue.nonneg hy.met_le, hasValue_share hx,
    hasValue_share hy⟩

end Weighing

/-! ## The adjustment to the number of words -/

section Adjustment

variable {x y : Float} {s s' : ℚ} {words words' minimum : ℕ}

/-- Counts compare as numbers, also those that are too large to be kept. -/
theorem ofCount_lt_iff {m n : ℕ} (h : m < 2 ^ 53 - 1) :
    (Float.ofNat m < Float.ofNat n ↔ m < n) ∧ (Float.ofNat n < Float.ofNat m ↔ n < m) := by
  have hself (k : ℕ) : Float.ofNat k ≤ Float.ofNat k := float_ofNat_mono le_rfl
  have hkept : HasValue (Float.ofNat m) m := .ofNat (by omega)
  constructor
  · rw [← float_not_le (hself n) (hself m), ← not_le]
    refine not_congr ⟨fun hle => ?_, float_ofNat_mono⟩
    by_contra hlt
    -- a greater count is at least the next one, which is kept
    have hnext : Float.ofNat (m + 1) ≤ Float.ofNat m :=
      float_le_trans (float_ofNat_mono (by omega)) hle
    have hvalue := ((HasValue.ofNat (n := m + 1) (by omega)).le_iff hkept).mp hnext
    exact absurd (Nat.cast_le.mp hvalue) (by omega)
  · rw [← float_not_le (hself m) (hself n), ← not_le]
    refine not_congr ⟨fun hle => ?_, float_ofNat_mono⟩
    by_contra hlt
    have hvalue := (hkept.le_iff (HasValue.ofNat (n := n) (by omega))).mp hle
    exact absurd (Nat.cast_le.mp hvalue) hlt

/-- What the words of a short document are worth. -/
def shortness (words minimum : ℕ) : ℚ := rounded (words / minimum)

theorem shortness_nonneg : 0 ≤ shortness words minimum := rounded_nonneg _

theorem shortness_le_one (h : words ≤ minimum) : shortness words minimum ≤ 1 :=
  rounded_le (by positivity) (div_le_one_of_le₀ (by exact_mod_cast h) (by positivity))
    hasValue_one.kept

theorem shortness_mono (h : words ≤ words') : shortness words minimum ≤ shortness words' minimum :=
  rounded_mono (by positivity) (by gcongr)

theorem hasValue_shortness (h : words < minimum) (hmin : minimum < 2 ^ 32) :
    HasValue (Float.ofNat words / Float.ofNat minimum) (shortness words minimum) := by
  have hpos : (0 : ℚ) < minimum := by exact_mod_cast Nat.zero_lt_of_lt h
  exact HasValue.div (.ofNat (by omega)) (.ofNat (by omega)) hpos (by exact_mod_cast h.le)

/-- What the bonus multiplies by. -/
def bonusWorth : ℚ := (4953959590107546 : ℕ) * 2 ^ (-52 : ℤ)

theorem hasValue_lengthBonus : HasValue lengthBonus bonusWorth :=
  .of_stored (by norm_num) (by norm_num) (by norm_num) (by norm_num) rfl

theorem one_le_bonusWorth : 1 ≤ bonusWorth := by norm_num [bonusWorth]

theorem bonusWorth_le_two : bonusWorth ≤ 2 := by norm_num [bonusWorth]

/-- What an adjusted score is worth. -/
def adjustedWorth (s : ℚ) (words minimum : ℕ) : ℚ :=
  if words < minimum then rounded (s * shortness words minimum)
  else if 2 * minimum < words then min (rounded (s * bonusWorth)) 1
  else s

/-- The double of what is asked for is computed as it is. -/
theorem ofNat_mul_two (hmin : minimum < 2 ^ 32) :
    Float.ofNat minimum * 2.0 = Float.ofNat (2 * minimum) := by
  have hproduct := (HasValue.ofNat (n := minimum) (by omega)).mul hasValue_two (by
    norm_num
    have : (minimum : ℚ) < 2 ^ 32 := by exact_mod_cast hmin
    linarith)
  have hdouble : (minimum : ℚ) * 2 = (2 * minimum : ℕ) := by
    push_cast
    ring
  rw [hdouble, rounded_natCast (by omega)] at hproduct
  exact hproduct.eq_ofRat.trans (float_ofNat_eq _).symm

/-- A raised score is at most one. -/
theorem hasValue_raised (hx : HasValue x s) (hone : s ≤ 1) :
    HasValue (Measure.least (x * lengthBonus) 1.0) (min (rounded (s * bonusWorth)) 1) := by
  have hbound : s * bonusWorth ≤ 2 ^ 64 := by
    have hle : s * bonusWorth ≤ 1 * 2 := mul_le_mul hone bonusWorth_le_two
      (zero_le_one.trans one_le_bonusWorth) zero_le_one
    exact hle.trans (by norm_num)
  have hraised := hx.mul hasValue_lengthBonus hbound
  have hless : Measure.less 1.0 (x * lengthBonus) = decide (1 < rounded (s * bonusWorth)) :=
    decide_eq_decide.mpr (hasValue_one.lt_iff hraised)
  unfold Measure.least
  rw [hless]
  by_cases hbeyond : 1 < rounded (s * bonusWorth)
  · rw [if_pos (decide_eq_true hbeyond), min_eq_right hbeyond.le]
    exact hasValue_one
  · rw [if_neg (by simpa using hbeyond), min_eq_left (not_lt.mp hbeyond)]
    exact hraised

theorem hasValue_adjusted (hx : HasValue x s) (hone : s ≤ 1) (words : ℕ)
    (hmin : minimum < 2 ^ 32) :
    HasValue (adjusted x words minimum) (adjustedWorth s words minimum) := by
  have hshort : (Float.ofNat words < Float.ofNat minimum) = (words < minimum) :=
    propext (ofCount_lt_iff (by omega)).2
  have hlong : (Float.ofNat (2 * minimum) < Float.ofNat words) = (2 * minimum < words) :=
    propext (ofCount_lt_iff (by omega)).1
  change HasValue (if decide (Float.ofNat words < Float.ofNat minimum) then
      x * (Float.ofNat words / Float.ofNat minimum)
    else if decide (Float.ofNat minimum * 2.0 < Float.ofNat words) then
      Measure.least (x * lengthBonus) 1.0
    else x) _
  rw [ofNat_mul_two hmin]
  simp only [hshort, hlong, decide_eq_true_eq]
  unfold adjustedWorth
  split
  next h =>
    have hle : s * shortness words minimum ≤ 1 := mul_le_one₀ hone shortness_nonneg
      (shortness_le_one h.le)
    exact hx.mul (hasValue_shortness h hmin) (hle.trans (by norm_num))
  next =>
    split
    next => exact hasValue_raised hx hone
    next => exact hx

theorem adjustedWorth_le_one (hs : 0 ≤ s) (hone : s ≤ 1) : adjustedWorth s words minimum ≤ 1 := by
  unfold adjustedWorth
  split
  next h =>
    exact rounded_le (mul_nonneg hs shortness_nonneg)
      (mul_le_one₀ hone shortness_nonneg (shortness_le_one h.le)) hasValue_one.kept
  next =>
    split
    · exact min_le_right _ _
    · exact hone

/-- A short document does not gain. -/
theorem adjustedWorth_le_of_lt (hs : 0 ≤ s) (hkept : rounded s = s) (h : words < minimum) :
    adjustedWorth s words minimum ≤ s := by
  rw [adjustedWorth, if_pos h]
  exact rounded_le (mul_nonneg hs shortness_nonneg)
    (mul_le_of_le_one_right hs (shortness_le_one h.le)) hkept

theorem le_raised (hs : 0 ≤ s) (hone : s ≤ 1) (hkept : rounded s = s) :
    s ≤ min (rounded (s * bonusWorth)) 1 :=
  le_min (le_rounded hs (le_mul_of_one_le_right hs one_le_bonusWorth) hkept) hone

/-- A document that is not short does not lose. -/
theorem le_adjustedWorth_of_le (hs : 0 ≤ s) (hone : s ≤ 1) (hkept : rounded s = s)
    (h : minimum ≤ words) : s ≤ adjustedWorth s words minimum := by
  rw [adjustedWorth, if_neg (by omega)]
  split
  · exact le_raised hs hone hkept
  · exact le_rfl

/-- **The greater the score and the more words, the greater is the adjusted
score.** -/
theorem adjustedWorth_mono (hs : 0 ≤ s) (hle : s ≤ s') (hone : s' ≤ 1) (hkept : rounded s = s)
    (hkept' : rounded s' = s') (hwords : words ≤ words') :
    adjustedWorth s words minimum ≤ adjustedWorth s' words' minimum := by
  have hs' : 0 ≤ s' := hs.trans hle
  by_cases hshort : words < minimum
  · by_cases hshort' : words' < minimum
    · rw [adjustedWorth, if_pos hshort, adjustedWorth, if_pos hshort']
      exact rounded_mono (mul_nonneg hs shortness_nonneg)
        (mul_le_mul hle (shortness_mono hwords) shortness_nonneg hs')
    · -- the additional words take the document over the minimum
      calc adjustedWorth s words minimum ≤ s := adjustedWorth_le_of_lt hs hkept hshort
        _ ≤ s' := hle
        _ ≤ adjustedWorth s' words' minimum :=
          le_adjustedWorth_of_le hs' hone hkept' (by omega)
  · by_cases hlong : 2 * minimum < words
    · rw [adjustedWorth, if_neg hshort, if_pos hlong, adjustedWorth, if_neg (by omega),
        if_pos (by omega)]
      refine min_le_min_right 1 (rounded_mono ?_ ?_)
      · exact mul_nonneg hs (zero_le_one.trans one_le_bonusWorth)
      · exact mul_le_mul_of_nonneg_right hle (zero_le_one.trans one_le_bonusWorth)
    · rw [adjustedWorth, if_neg hshort, if_neg hlong]
      exact hle.trans (le_adjustedWorth_of_le hs' hone hkept' (by omega))

/-- **The more words are asked for, the less is the adjusted score.** -/
theorem adjustedWorth_anti {minimum' : ℕ} (hs : 0 ≤ s) (hone : s ≤ 1) (hkept : rounded s = s)
    (h : minimum ≤ minimum') : adjustedWorth s words minimum' ≤ adjustedWorth s words minimum := by
  by_cases hshort : words < minimum
  · have hpos : (0 : ℚ) < minimum := by exact_mod_cast Nat.zero_lt_of_lt hshort
    have hless : shortness words minimum' ≤ shortness words minimum :=
      rounded_mono (by positivity) (by gcongr)
    rw [adjustedWorth, if_pos (by omega), adjustedWorth, if_pos hshort]
    exact rounded_mono (mul_nonneg hs shortness_nonneg) (mul_le_mul_of_nonneg_left hless hs)
  by_cases hshort' : words < minimum'
  · -- the document becomes too short
    exact (adjustedWorth_le_of_lt hs hkept hshort').trans
      (le_adjustedWorth_of_le hs hone hkept (by omega))
  by_cases hlong : 2 * minimum' < words
  · rw [adjustedWorth, if_neg hshort', if_pos hlong, adjustedWorth, if_neg hshort,
      if_pos (by omega)]
  · rw [adjustedWorth, if_neg hshort', if_neg hlong]
    exact le_adjustedWorth_of_le hs hone hkept (by omega)

end Adjustment

/-! ## The score -/

/-- A number between zero and one is not moved. -/
theorem clamp_eq {x : Float} {s : ℚ} (hx : HasValue x s) (hone : s ≤ 1) :
    Measure.clamp x 0.0 1.0 = x := by
  have hlow : Measure.less x 0.0 = false :=
    decide_eq_false (mt (hx.lt_iff hasValue_zero).mp (not_lt.mpr hx.nonneg))
  have hhigh : Measure.less 1.0 x = false :=
    decide_eq_false (mt (hasValue_one.lt_iff hx).mp (not_lt.mpr hone))
  rw [Measure.clamp, hlow, hhigh]
  rfl

/-- A score is worth its adjusted share. -/
theorem hasValue_score {f : Features} {required : List String} {s : ℚ} {minimum : ℕ}
    (hs : HasValue (share (criteria f required)) s) (hone : s ≤ 1) (hmin : minimum < 2 ^ 32) :
    HasValue (f.score required minimum) (adjustedWorth s f.words minimum) := by
  have hadjusted := hasValue_adjusted hs hone f.words hmin
  rw [score, clamp_eq hadjusted (adjustedWorth_le_one hs.nonneg hone)]
  exact hadjusted

/-- **A document that has all that another one has is scored at least as
high.** -/
theorem score_mono {f g : Features} (h : f.AtMost g) (required : List String) {minimum : ℕ}
    (hmin : minimum < 2 ^ 32) :
    (f.score required minimum : Float) ≤ g.score required minimum := by
  have hlength := length_criteria_le f required
  obtain ⟨s, s', hle, hone, hf, hg⟩ :=
    share_mono (forall₂_criteria h required) (fun c hc => weighs_criteria hc)
      (by omega)
  rw [(hasValue_score hf (hle.trans hone) hmin).le_iff (hasValue_score hg hone hmin)]
  exact adjustedWorth_mono hf.nonneg hle hone hf.kept hg.kept h.words

end Features

end DocCoverage
