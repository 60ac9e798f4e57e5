import DocCoverage.Proofs.Binary64.Error
import DocCoverage.Proofs.Document.Score
/-!
# Documents — exact weights, and weights as they are computed

The share of a document is a quotient of two sums of weights. Exact sums depend
on no order, and one more criterion adds its weight to them (`weigh_middle`).
Sums of floating-point numbers are tracked by the exact ones (`Tracks`): each is
near its exact sum, and equal to it where nothing is met or everything is. So
shares compare as the exact ones do where these are apart
(`shareWorth_le_of_apart`).
-/

namespace DocCoverage

/-- Exact numbers. -/
instance : Measure ℚ where
  ofCount n := n
  less a b := decide (a < b)

namespace Features

open Binary64

/-! ## Exact weights -/

section Exact

/-- The weight of a criterion, if it is met. -/
def Criterion.metWeight (c : Criterion ℚ) : ℚ := if c.isMet then c.weight else 0

/-- **Exact weights are sums.** -/
theorem weigh_eq (cs : List (Criterion ℚ)) :
    weigh cs = ((cs.map Criterion.metWeight).sum, (cs.map Criterion.weight).sum) := by
  suffices h : ∀ met all : ℚ,
      cs.foldl (fun (met, all) c => (met + (if c.isMet then c.weight else 0.0), all + c.weight))
        (met, all) = (met + (cs.map Criterion.metWeight).sum, all + (cs.map Criterion.weight).sum) by
    refine (h 0.0 0.0).trans ?_
    norm_num
  induction cs with
  | nil => simp
  | cons c cs ih =>
    intro met all
    have hzero : (0.0 : ℚ) = 0 := by norm_num
    rw [List.foldl_cons]
    dsimp only
    rw [ih]
    simp only [List.map_cons, List.sum_cons, Criterion.metWeight, hzero, add_assoc]

/-- **One more criterion adds its weight**, wherever it stands. -/
theorem weigh_middle (front back : List (Criterion ℚ)) (c : Criterion ℚ) :
    weigh (front ++ c :: back) =
      ((weigh (front ++ back)).1 + c.metWeight, (weigh (front ++ back)).2 + c.weight) := by
  rw [weigh_eq, weigh_eq]
  simp only [List.map_append, List.map_cons, List.sum_append, List.sum_cons, Prod.mk.injEq]
  constructor <;> ring

end Exact

/-! ## Weights as they are computed -/

section Tracking

variable {c : Criterion Float} {d : Criterion ℚ} {cs : List (Criterion Float)}
  {ds : List (Criterion ℚ)} {x : Float × Float} {y : ℚ × ℚ} {met all : ℚ} {n : ℕ}

/-- A criterion as it is computed with, and as it is meant. -/
structure Criterion.Stands (c : Criterion Float) (d : Criterion ℚ) : Prop where
  isMet : c.isMet = d.isMet
  value : ∃ w, HasValue c.weight w ∧ |w - d.weight| ≤ 1 / 2 ^ 54
  low : 1 / 10 ≤ d.weight
  high : d.weight ≤ 1 / 4

/-- **Every criterion is computed with as it is meant**, up to the rounding of
its weight. -/
theorem forall₂_stands (f : Features) (required : List String) :
    List.Forall₂ Criterion.Stands (criteria f required) (criteria f required) := by
  have hpart {name : String} {weight : Float} {w v : ℚ} {met : Bool} (hvalue : HasValue weight v)
      (hnear : |v - w| ≤ 1 / 2 ^ 54) (hlow : 1 / 10 ≤ w) (hhigh : w ≤ 1 / 4) :
      List.Forall₂ Criterion.Stands
        (if required.contains name then [Criterion.mk weight met] else [])
        (if required.contains name then [Criterion.mk w met] else []) := by
    split
    · exact .cons ⟨rfl, ⟨v, hvalue, hnear⟩, hlow, hhigh⟩ .nil
    · exact .nil
  have hlast : List.Forall₂ Criterion.Stands [Criterion.mk (0.10 : Float) f.hasHeadings]
      [Criterion.mk (0.10 : ℚ) f.hasHeadings] :=
    .cons ⟨rfl, ⟨_, hasValue_tenth, by norm_num [abs_le]⟩, by norm_num, by norm_num⟩ .nil
  exact List.rel_append (List.rel_append (List.rel_append (List.rel_append
    (hpart hasValue_fifth (by norm_num [abs_le]) (by norm_num) (by norm_num))
    (hpart hasValue_quarter (by norm_num [abs_le]) (by norm_num) (by norm_num)))
    (hpart hasValue_fifth (by norm_num [abs_le]) (by norm_num) (by norm_num)))
    (hpart hasValue_threeTwentieths (by norm_num [abs_le]) (by norm_num) (by norm_num))) hlast

/-- What has been weighed of `n` criteria is tracked by exact sums: it is near
them, and nothing or everything that is met is met in both ways. -/
structure Tracks (n : ℕ) (x : Float × Float) (y : ℚ × ℚ) (met all : ℚ) : Prop where
  weighed : Weighed n x met all
  met_near : |met - y.1| ≤ n / 2 ^ 47
  all_near : |all - y.2| ≤ n / 2 ^ 47
  nothing : y.1 = 0 ∧ met = 0 ∨ 1 / 10 ≤ y.1
  everything : y.1 = y.2 ∧ met = all ∨ y.1 + 1 / 10 ≤ y.2
  low : (n : ℚ) / 10 ≤ y.2
  high : y.2 ≤ n

theorem Tracks.exact_nonneg (h : Tracks n x y met all) : 0 ≤ y.1 := by
  rcases h.nothing with ⟨hzero, -⟩ | hlarge <;> linarith

theorem Tracks.exact_le (h : Tracks n x y met all) : y.1 ≤ y.2 := by
  rcases h.everything with ⟨hsame, -⟩ | hapart <;> linarith

theorem tracks_nothing : Tracks 0 (0.0, 0.0) (0, 0) 0 0 where
  weighed := weighed_nothing
  met_near := by simp
  all_near := by simp
  nothing := .inl ⟨rfl, rfl⟩
  everything := .inl ⟨rfl, rfl⟩
  low := by simp
  high := by simp

/-- Another weight on a sum that is near an exact one. -/
theorem near_add {v e w q : ℚ} (hv : 0 ≤ v) (hbound : v ≤ 15) (hnear : |v - e| ≤ n / 2 ^ 47)
    (hlow : 1 / 16 ≤ w) (hhigh : w ≤ 1) (hweight : |w - q| ≤ 1 / 2 ^ 54) :
    |rounded (v + w) - (e + q)| ≤ (n + 1 : ℕ) / 2 ^ 47 := by
  have hrounded : |rounded (v + w) - (v + w)| ≤ 16 / 2 ^ 53 := by
    refine (abs_rounded_sub_le (.inr ?_)).trans (by gcongr; linarith)
    calc (2 : ℚ) ^ (-1022 : ℤ) ≤ 2 ^ (-4 : ℤ) := zpow_le_zpow_right₀ (by norm_num) (by norm_num)
      _ = 1 / 16 := by norm_num
      _ ≤ v + w := by linarith
  have hsplit : rounded (v + w) - (e + q) =
      (rounded (v + w) - (v + w)) + ((v - e) + (w - q)) := by ring
  rw [hsplit]
  calc |(rounded (v + w) - (v + w)) + ((v - e) + (w - q))|
      ≤ |rounded (v + w) - (v + w)| + (|v - e| + |w - q|) :=
        (abs_add_le _ _).trans (add_le_add le_rfl (abs_add_le _ _))
    _ ≤ 16 / 2 ^ 53 + (n / 2 ^ 47 + 1 / 2 ^ 54) :=
        add_le_add hrounded (add_le_add hnear hweight)
    _ ≤ (n + 1 : ℕ) / 2 ^ 47 := by
        push_cast
        linarith

/-- **One more criterion keeps the sums on track.** -/
theorem Tracks.add (h : Tracks n x y met all) (hcd : c.Stands d) (hn : n ≤ 15) :
    ∃ met' all', Tracks (n + 1) (x.1 + (if c.isMet then c.weight else 0.0), x.2 + c.weight)
      (y.1 + d.metWeight, y.2 + d.weight) met' all' := by
  obtain ⟨w, hw, hnear⟩ := hcd.value
  have hlow := hcd.low
  have hhigh := hcd.high
  obtain ⟨hdown, hup⟩ := abs_le.mp hnear
  have hw₁ : 1 / 16 ≤ w := by linarith
  have hw₂ : w ≤ 1 := by linarith
  have hbound : all ≤ 15 := h.weighed.all_le.trans (by exact_mod_cast hn)
  have hexact := h.exact_nonneg
  have hpart := h.exact_le
  have hall := near_add h.weighed.allValue.nonneg hbound h.all_near hw₁ hw₂ hnear
  have hsum := h.weighed.add hw hw₁ hw₂ c.isMet (by omega)
  have hcount₁ : ((n + 1 : ℕ) : ℚ) / 10 ≤ y.2 + d.weight := by
    have := h.low
    push_cast
    linarith
  have hcount₂ : y.2 + d.weight ≤ (n + 1 : ℕ) := by
    have := h.high
    push_cast
    linarith
  cases hmet : c.isMet with
  | true =>
    have hweight : d.metWeight = d.weight := by
      rw [Criterion.metWeight, ← hcd.isMet, hmet, if_pos rfl]
    rw [hmet] at hsum
    rw [hweight]
    refine ⟨_, _, hsum, ?_, hall, .inr (by dsimp only; linarith), ?_, hcount₁, hcount₂⟩
    · exact near_add h.weighed.metValue.nonneg (h.weighed.met_le.trans hbound) h.met_near hw₁ hw₂
        hnear
    · rcases h.everything with ⟨hy, hvalue⟩ | hapart
      · exact .inl ⟨by rw [hy], by rw [metWith, if_pos rfl, hvalue]⟩
      · exact .inr (by dsimp only; linarith)
  | false =>
    have hweight : d.metWeight = 0 := by
      rw [Criterion.metWeight, ← hcd.isMet, hmet, if_neg Bool.false_ne_true]
    rw [hmet] at hsum
    rw [hweight, add_zero]
    refine ⟨_, _, hsum, h.met_near.trans ?_, hall, h.nothing, .inr (by dsimp only; linarith),
      hcount₁, hcount₂⟩
    push_cast
    gcongr
    linarith

/-- **Sums that are computed are tracked by exact ones.** -/
theorem tracks_foldl (h : List.Forall₂ Criterion.Stands cs ds) (hx : Tracks n x y met all)
    (hn : n + cs.length ≤ 15) : ∃ met' all', Tracks (n + cs.length)
      (cs.foldl (fun (met, all) c =>
        (met + (if c.isMet then c.weight else 0.0), all + c.weight)) x)
      (y.1 + (ds.map Criterion.metWeight).sum, y.2 + (ds.map Criterion.weight).sum) met' all' := by
  induction h generalizing n x y met all with
  | nil => exact ⟨met, all, by simpa using hx⟩
  | @cons c d cs ds hcd hrest ih =>
    rw [List.length_cons, ← Nat.add_assoc, Nat.add_right_comm] at hn ⊢
    obtain ⟨met', all', hstep⟩ := hx.add hcd (by omega)
    rw [List.map_cons, List.map_cons, List.sum_cons, List.sum_cons, ← add_assoc, ← add_assoc]
    exact ih hstep hn

/-- The sums of a document's criteria. -/
theorem exists_tracks (f : Features) (required : List String) :
    ∃ met all, Tracks (criteria (α := Float) f required).length (weigh (criteria f required))
      (weigh (criteria f required)) met all := by
  have hlength := length_criteria_le f required
  have hfold := tracks_foldl (forall₂_stands f required) tracks_nothing (by omega)
  rw [Nat.zero_add, zero_add, zero_add, ← weigh_eq] at hfold
  exact hfold

end Tracking

/-! ## Shares -/

section Shares

variable {x x' : Float × Float} {y y' : ℚ × ℚ} {met met' all all' w : ℚ} {n n' : ℕ}

/-- The whole weight is not zero. -/
theorem Tracks.all_pos (h : Tracks n x y met all) (hn : 0 < n) : 0 < all := by
  have hlow := h.low
  have hnear := (abs_le.mp h.all_near).1
  have hcount : (1 : ℚ) ≤ n := by exact_mod_cast hn
  have hsmall : (n : ℚ) / 2 ^ 47 ≤ n / 20 := by
    rw [div_le_div_iff₀ (by norm_num) (by norm_num)]
    linarith
  linarith

/-- Near numbers have near products. -/
theorem near_mul {a b v e δ : ℚ} (ha : |a - v| ≤ δ) (hb : |b - e| ≤ δ) (hbound : |b| ≤ 5)
    (hv : |v| ≤ 5) : |a * b - v * e| ≤ 10 * δ := by
  have hsplit : a * b - v * e = (a - v) * b + v * (b - e) := by ring
  have hδ : 0 ≤ δ := (abs_nonneg _).trans ha
  rw [hsplit]
  calc |(a - v) * b + v * (b - e)| ≤ |(a - v) * b| + |v * (b - e)| := abs_add_le _ _
    _ = |a - v| * |b| + |v| * |b - e| := by rw [abs_mul, abs_mul]
    _ ≤ δ * 5 + 5 * δ := by gcongr
    _ = 10 * δ := by ring

/-- What is met of up to five criteria, times the weight of up to five others. -/
theorem Tracks.mul_near (h : Tracks n x y met all) (h' : Tracks n' x' y' met' all') (hn : n ≤ 5)
    (hn' : n' ≤ 5) : |met * all' - y.1 * y'.2| ≤ 10 * (5 / 2 ^ 47) := by
  have hcount : (n : ℚ) ≤ 5 := by exact_mod_cast hn
  have hcount' : (n' : ℚ) ≤ 5 := by exact_mod_cast hn'
  have hhigh := h.high
  have hall' := h'.weighed.all_le
  have hpos' := h'.weighed.allValue.nonneg
  refine near_mul (h.met_near.trans (by gcongr)) (h'.all_near.trans (by gcongr)) ?_ ?_
  · rw [abs_of_nonneg hpos']
    linarith
  · rw [abs_of_nonneg h.exact_nonneg]
    linarith [h.exact_le]

theorem shareWorth_nonneg : 0 ≤ shareWorth met all := by
  unfold shareWorth
  split
  · exact rounded_nonneg _
  · exact le_rfl

theorem shareWorth_zero : shareWorth 0 all = 0 := by
  unfold shareWorth
  split
  · rw [zero_div, rounded_zero]
  · rfl

theorem shareWorth_self (hall : 0 < all) : shareWorth all all = 1 := by
  rw [shareWorth, if_pos hall, div_self hall.ne', hasValue_one.kept]

section Compare

variable (h : Tracks n x y met all) (h' : Tracks n' x' y' met' all') (hpos : 0 < n)
  (hpos' : 0 < n') (hn : n ≤ 5) (hn' : n' ≤ 5)
include h h' hpos hpos' hn hn'

/-- **Shares compare as the exact ones**, where these are apart. -/
theorem shareWorth_le_of_apart (hapart : y.1 * y'.2 + 1 / 100 ≤ y'.1 * y.2) :
    shareWorth met all ≤ shareWorth met' all' := by
  have hall := h.all_pos hpos
  have hall' := h'.all_pos hpos'
  have hleft := (abs_le.mp (h.mul_near h' hn hn')).2
  have hright := (abs_le.mp (h'.mul_near h hn' hn)).1
  have hcross : met * all' ≤ met' * all := by linarith
  have hmet := h.weighed.metValue.nonneg
  rw [shareWorth, shareWorth, if_pos hall, if_pos hall']
  exact rounded_mono (by positivity) ((div_le_div_iff₀ hall hall').mpr hcross)

/-- **Another criterion that is met never lowers the share.** Either everything
is met, with the criterion and without it, or the exact shares are apart. -/
theorem shareWorth_le_of_met (hw : 1 / 10 ≤ w) (hmore : y' = (y.1 + w, y.2 + w)) :
    shareWorth met all ≤ shareWorth met' all' := by
  subst hmore
  rcases h.everything with ⟨hy, hvalue⟩ | hapart
  · have hvalue' : met' = all' := by
      rcases h'.everything with ⟨-, hvalue'⟩ | hapart'
      · exact hvalue'
      · dsimp only at hapart'
        linarith
    rw [hvalue, hvalue', shareWorth_self (h.all_pos hpos), shareWorth_self (h'.all_pos hpos')]
  · refine shareWorth_le_of_apart h h' hpos hpos' hn hn' ?_
    have hgap : 1 / 10 * (1 / 10) ≤ w * (y.2 - y.1) :=
      mul_le_mul hw (by linarith) (by norm_num) (by linarith)
    dsimp only
    linarith

/-- **Another criterion that is not met never raises the share.** Either nothing
is met, or the exact shares are apart. -/
theorem shareWorth_le_of_not_met (hw : 1 / 10 ≤ w) (hmore : y' = (y.1, y.2 + w)) :
    shareWorth met' all' ≤ shareWorth met all := by
  subst hmore
  rcases h'.nothing with ⟨-, hvalue⟩ | hapart
  · rw [hvalue, shareWorth_zero]
    exact shareWorth_nonneg
  · refine shareWorth_le_of_apart h' h hpos' hpos hn' hn ?_
    have hgap : 1 / 10 * (1 / 10) ≤ y.1 * w :=
      mul_le_mul hapart hw (by norm_num) (by linarith)
    dsimp only
    linarith

end Compare

end Shares

end Features

end DocCoverage
