import DocCoverage.Source.Rules
import Mathlib.Algebra.Group.Nat.Defs
import Mathlib.Order.Basic
/-!
# Sources — the rules are monotone

Most rules ask that a fact be large, and one that facts be small and then
exempts. So when facts grow and the cut-offs of complexity do not, a file that
needed documentation still needs it (`needsDocumentation_mono`), and it does
not become less urgent (`priority_mono`).
-/

namespace DocCoverage

/-- Whether no cut-off that a rule asks for is greater. -/
structure Thresholds.AtMost (t u : Thresholds) : Prop where
  medium : t.medium ≤ u.medium
  high : t.high ≤ u.high

theorem Thresholds.atMost_refl (t : Thresholds) : t.AtMost t := ⟨Nat.le_refl _, Nat.le_refl _⟩

namespace Facts

/-- Facts of the same type of file, of which none is greater. The exports of
the second file fit into a word of 64 bits. -/
structure AtMost (f g : Facts) : Prop where
  fileType : g.fileType = f.fileType
  complexity : f.complexity ≤ g.complexity
  functions : f.functions ≤ g.functions
  classes : f.classes ≤ g.classes
  isPublic : f.isPublic = true → g.isPublic = true
  lines : f.lines ≤ g.lines
  fits : g.functions + g.classes < 2 ^ 64

variable {f g : Facts} {t u : Thresholds}

theorem AtMost.isOneOf (h : f.AtMost g) (types : List FileType) :
    g.isOneOf types = f.isOneOf types := by
  rw [Facts.isOneOf, Facts.isOneOf, h.fileType]

theorem AtMost.exports (h : f.AtMost g) : f.exports ≤ g.exports := by
  have hfits := h.fits
  have hfunctions := h.functions
  have hclasses := h.classes
  change (f.functions + f.classes) % 2 ^ 64 ≤ (g.functions + g.classes) % 2 ^ 64
  omega

/-! ## Rising rules -/

/-- A condition that goes on to hold when facts grow and cut-offs do not. -/
def Rising (applies : Facts → Thresholds → Bool) : Prop :=
  ∀ ⦃f g t u⦄, Facts.AtMost f g → Thresholds.AtMost u t → applies f t = true →
    applies g u = true

section Rising

variable {p q : Facts → Thresholds → Bool}

theorem Rising.and (hp : Rising p) (hq : Rising q) : Rising fun f t => p f t && q f t := by
  intro f g t u hfacts hcuts h
  obtain ⟨h₁, h₂⟩ := (Bool.and_eq_true _ _).mp h
  exact (Bool.and_eq_true _ _).mpr ⟨hp hfacts hcuts h₁, hq hfacts hcuts h₂⟩

theorem Rising.or (hp : Rising p) (hq : Rising q) : Rising fun f t => p f t || q f t := by
  intro f g t u hfacts hcuts h
  rw [Bool.or_eq_true] at h ⊢
  exact h.imp (hp hfacts hcuts) (hq hfacts hcuts)

theorem rising_isOneOf (types : List FileType) : Rising fun f _ => f.isOneOf types := by
  intro f g t u hfacts _ h
  exact (hfacts.isOneOf types).trans h

theorem rising_isPublic : Rising fun f _ => f.isPublic := fun _ _ _ _ hfacts _ => hfacts.isPublic

/-- A fact beyond a cut-off. -/
theorem rising_less {fact : Facts → ℕ} {cut : Thresholds → ℕ}
    (hfact : ∀ ⦃f g⦄, Facts.AtMost f g → fact f ≤ fact g)
    (hcut : ∀ ⦃u t⦄, Thresholds.AtMost u t → cut u ≤ cut t) :
    Rising fun f t => decide (cut t < fact f) := by
  intro f g t u hfacts hcuts h
  have hle := hfact hfacts
  have hlow := hcut hcuts
  have hbefore : cut t < fact f := of_decide_eq_true h
  exact decide_eq_true (by omega)

theorem rising_complexity (cut : ℕ) : Rising fun f _ => decide (cut < f.complexity) :=
  rising_less (fun _ _ h => h.complexity) fun _ _ _ => Nat.le_refl _

theorem rising_medium : Rising fun f t => decide (t.medium < f.complexity) :=
  rising_less (fun _ _ h => h.complexity) fun _ _ h => h.medium

theorem rising_high : Rising fun f t => decide (t.high < f.complexity) :=
  rising_less (fun _ _ h => h.complexity) fun _ _ h => h.high

theorem rising_lines (cut : ℕ) : Rising fun f _ => decide (cut < f.lines) :=
  rising_less (fun _ _ h => h.lines) fun _ _ _ => Nat.le_refl _

theorem rising_functions (cut : ℕ) : Rising fun f _ => decide (cut < f.functions) :=
  rising_less (fun _ _ h => h.functions) fun _ _ _ => Nat.le_refl _

theorem rising_exports (cut : ℕ) : Rising fun f _ => decide (cut < f.exports) :=
  rising_less (fun _ _ h => h.exports) fun _ _ _ => Nat.le_refl _

end Rising

/-! ## Tables -/

section Tables

variable {Verdict : Type} {rules : List (Rule Verdict)} {rule : Rule Verdict}
  {otherwise : Verdict}

theorem decide_cons : Rule.decide (rule :: rules) f t otherwise =
    if rule.applies f t then rule.verdict else Rule.decide rules f t otherwise := by
  rw [Rule.decide, Rule.firstMatch, List.find?_cons]
  cases rule.applies f t with
  | true => rfl
  | false => rfl

/-- What a table decides is the verdict of one of its rules, or the verdict
otherwise. -/
theorem le_decide {rank : Verdict → ℕ} {n : ℕ} (hrules : ∀ r ∈ rules, n ≤ rank r.verdict)
    (hotherwise : n ≤ rank otherwise) (f : Facts) (t : Thresholds) :
    n ≤ rank (Rule.decide rules f t otherwise) := by
  induction rules with
  | nil => exact hotherwise
  | cons rule rules ih =>
    obtain ⟨hrule, hrules⟩ := List.forall_mem_cons.mp hrules
    rw [decide_cons]
    split
    · exact hrule
    · exact ih hrules

/-- **A table of rising rules is monotone** if the rank of its verdicts does
not fall from one rule to the next. -/
theorem rank_decide_le (rank : Verdict → ℕ) (otherwise : Verdict)
    (hrising : ∀ r ∈ rules, Rising r.applies)
    (hranks : rules.Pairwise fun r s => rank r.verdict ≤ rank s.verdict)
    (hotherwise : ∀ r ∈ rules, rank r.verdict ≤ rank otherwise) (hfacts : f.AtMost g)
    (hcuts : u.AtMost t) :
    rank (Rule.decide rules g u otherwise) ≤ rank (Rule.decide rules f t otherwise) := by
  induction rules with
  | nil => exact Nat.le_refl _
  | cons rule rules ih =>
    obtain ⟨hrule, hrising⟩ := List.forall_mem_cons.mp hrising
    obtain ⟨hlater, hranks⟩ := List.pairwise_cons.mp hranks
    obtain ⟨hlast, hotherwise⟩ := List.forall_mem_cons.mp hotherwise
    rw [decide_cons, decide_cons]
    by_cases hbefore : rule.applies f t = true
    · exact Nat.le_of_eq (by rw [if_pos hbefore, if_pos (hrule hfacts hcuts hbefore)])
    · rw [if_neg hbefore]
      split
      · exact le_decide hlater hlast f t
      · exact ih hrising hranks hotherwise

end Tables

/-! ## Who needs documentation -/

/-- Every rule but the one that exempts. -/
theorem rising_requirementRules : ∀ r ∈ requirementRules.tail, Rising r.applies := by
  refine List.forall_mem_cons.mpr ⟨rising_isPublic.and (rising_isOneOf _), ?_⟩
  refine List.forall_mem_cons.mpr ⟨rising_medium, ?_⟩
  refine List.forall_mem_cons.mpr ⟨rising_exports 3, ?_⟩
  refine List.forall_mem_cons.mpr ⟨rising_isOneOf _, ?_⟩
  refine List.forall_mem_cons.mpr ⟨?_, fun r hr => absurd hr List.not_mem_nil⟩
  exact (rising_isOneOf _).and ((rising_complexity 20).or (rising_functions 2))

/-- Whether a file is exempt, as a simple route is. -/
def isExempt (f : Facts) (t : Thresholds) : Bool :=
  f.isOneOf [.apiRoute] && f.complexity < t.medium && f.functions ≤ 2 && f.classes == 0

theorem isExempt_iff : f.isExempt t = true ↔
    f.isOneOf [.apiRoute] = true ∧ f.complexity < t.medium ∧ f.functions ≤ 2 ∧ f.classes = 0 := by
  rw [isExempt]
  simp only [Bool.and_eq_true, decide_eq_true_eq, beq_iff_eq, and_assoc]

/-- The first rule exempts, and all others ask for documentation. -/
theorem needsDocumentation_eq : f.needsDocumentation t =
    if f.isExempt t then false else Rule.decide requirementRules.tail f t false :=
  decide_cons

/-- What is exempt was exempt before. -/
theorem isExempt_of_atMost (hfacts : f.AtMost g) (hcuts : u.AtMost t) (h : g.isExempt u = true) :
    f.isExempt t = true := by
  obtain ⟨htype, hcomplexity, hfunctions, hclasses⟩ := isExempt_iff.mp h
  have hlow := hfacts.complexity
  have hcut := hcuts.medium
  have hfewer := hfacts.functions
  have hnone := hfacts.classes
  rw [hfacts.isOneOf] at htype
  exact isExempt_iff.mpr ⟨htype, by omega, by omega, by omega⟩

/-- A verdict as a number, so that a file that needs documentation comes
first. -/
def requirementRank : Bool → ℕ
  | true => 0
  | false => 1

/-- **Who needs documentation still needs it** when facts grow and cut-offs do
not. -/
theorem needsDocumentation_mono (hfacts : f.AtMost g) (hcuts : u.AtMost t)
    (h : f.needsDocumentation t = true) : g.needsDocumentation u = true := by
  rw [needsDocumentation_eq] at h ⊢
  have hexempt : ¬ f.isExempt t = true := fun hexempt => by
    rw [if_pos hexempt] at h
    cases h
  rw [if_neg hexempt] at h
  rw [if_neg (mt (isExempt_of_atMost hfacts hcuts) hexempt)]
  have hrank := rank_decide_le requirementRank false rising_requirementRules
    (by decide) (by decide) hfacts hcuts
  rw [h] at hrank
  cases hverdict : Rule.decide requirementRules.tail g u false with
  | true => rfl
  | false =>
    rw [hverdict] at hrank
    exact absurd hrank (by decide)

/-! ## How urgently -/

theorem rising_priorityRules : ∀ r ∈ priorityRules, Rising r.applies := by
  refine List.forall_mem_cons.mpr ⟨?_, ?_⟩
  · exact (rising_isPublic.and (rising_isOneOf _)).and (rising_complexity 30)
  refine List.forall_mem_cons.mpr ⟨(rising_isOneOf _).and (rising_lines 300), ?_⟩
  refine List.forall_mem_cons.mpr ⟨rising_high, ?_⟩
  refine List.forall_mem_cons.mpr ⟨(rising_isOneOf _).and (rising_lines 150), ?_⟩
  refine List.forall_mem_cons.mpr ⟨rising_medium, ?_⟩
  refine List.forall_mem_cons.mpr ⟨?_, ?_⟩
  · exact (rising_isPublic.and (rising_isOneOf _)).and (rising_complexity 15)
  refine List.forall_mem_cons.mpr ⟨rising_isPublic.and (rising_isOneOf _), ?_⟩
  refine List.forall_mem_cons.mpr ⟨?_, fun r hr => absurd hr List.not_mem_nil⟩
  exact (rising_isOneOf _).and (rising_lines 50)

/-- **A file does not become less urgent** when facts grow and cut-offs do
not. -/
theorem priority_mono (hfacts : f.AtMost g) (hcuts : u.AtMost t) :
    (g.priority u).rank ≤ (f.priority t).rank := by
  refine rank_decide_le Priority.rank .low rising_priorityRules ?_ ?_ hfacts hcuts
  · decide
  · decide

/-! ## Both tables -/

/-- **Both tables are monotone.** When the facts of a file grow and the cut-offs
do not, the file still needs documentation if it did, at least as urgently,
whatever the cut-offs are to each other. -/
theorem verdicts_mono (hfacts : f.AtMost g) (hcuts : u.AtMost t) :
    (f.needsDocumentation t = true → g.needsDocumentation u = true) ∧
      (g.priority u).rank ≤ (f.priority t).rank :=
  ⟨needsDocumentation_mono hfacts hcuts, priority_mono hfacts hcuts⟩

/-- A route grows by a function and becomes public, and the cut-offs are lowered
past each other. -/
theorem verdicts_mono_route :
    (Facts.mk .apiRoute 26 2 0 false 80).AtMost ⟨.apiRoute, 30, 3, 0, true, 90⟩ ∧
      Thresholds.AtMost ⟨10, 20, 15, 100⟩ .builtIn ∧
      (Facts.mk .apiRoute 26 2 0 false 80).needsDocumentation .builtIn = true ∧
      (Facts.mk .apiRoute 30 3 0 true 90).needsDocumentation ⟨10, 20, 15, 100⟩ = true ∧
      ((Facts.mk .apiRoute 30 3 0 true 90).priority ⟨10, 20, 15, 100⟩).rank ≤
        ((Facts.mk .apiRoute 26 2 0 false 80).priority .builtIn).rank := by
  have hfacts : (Facts.mk .apiRoute 26 2 0 false 80).AtMost ⟨.apiRoute, 30, 3, 0, true, 90⟩ := by
    constructor <;> decide
  have hcuts : Thresholds.AtMost ⟨10, 20, 15, 100⟩ .builtIn := by constructor <;> decide
  have hneeded : (Facts.mk .apiRoute 26 2 0 false 80).needsDocumentation .builtIn = true := by
    decide
  obtain ⟨hneeds, hurgent⟩ := verdicts_mono hfacts hcuts
  exact ⟨hfacts, hcuts, hneeded, hneeds hneeded, hurgent⟩

end Facts

end DocCoverage
