import DocCoverage.Proofs.Source.Rules
/-!
# Sources — urgent files are not exempt

The two tables are written independently of each other. A file that the first
one spares is of no type that is always documented, is not beyond the medium
cut-off, and exports little (`spared_of_not_needsDocumentation`). Most rules of
the second one that call a file critical or of high priority ask for the
opposite of one of these; the others ask for the high cut-off, and for a public
route. So what is spared is urgent only where the cut-offs are inverted, or
where it is a public route of middling complexity
(`urgent_of_not_needsDocumentation`).
-/

namespace DocCoverage

namespace Facts

variable {f : Facts} {t : Thresholds}

/-! ## The rule that decides -/

section Tables

variable {Verdict : Type} {rules : List (Rule Verdict)} {otherwise verdict : Verdict}

/-- A verdict that is not the one otherwise is that of a rule that applies. -/
theorem exists_rule_of_decide (h : Rule.decide rules f t otherwise = verdict)
    (hne : otherwise ≠ verdict) : ∃ r ∈ rules, r.applies f t = true ∧ r.verdict = verdict := by
  rw [Rule.decide, Rule.firstMatch] at h
  cases hmatch : rules.find? fun rule => rule.applies f t with
  | none =>
    rw [hmatch] at h
    exact absurd h hne
  | some rule =>
    rw [hmatch] at h
    have happlies := List.find?_some hmatch
    exact ⟨rule, List.mem_of_find?_eq_some hmatch, happlies, h⟩

/-- If no rule has the verdict of the table, none applies. -/
theorem not_applies_of_decide (h : Rule.decide rules f t otherwise = verdict)
    (hne : ∀ r ∈ rules, r.verdict ≠ verdict) : ∀ r ∈ rules, ¬ r.applies f t = true := by
  rw [Rule.decide, Rule.firstMatch] at h
  cases hmatch : rules.find? fun rule => rule.applies f t with
  | none => exact List.find?_eq_none.mp hmatch
  | some rule =>
    rw [hmatch] at h
    exact absurd h (hne rule (List.mem_of_find?_eq_some hmatch))

end Tables

/-! ## What is spared -/

theorem isOneOf_of_subset {types more : List FileType} (hsub : types ⊆ more)
    (h : f.isOneOf types = true) : f.isOneOf more = true :=
  List.elem_eq_true_of_mem (hsub (List.mem_of_elem_eq_true h))

theorem fileType_of_isOneOf {fileType : FileType} (h : f.isOneOf [fileType] = true) :
    f.fileType = fileType :=
  List.mem_singleton.mp (List.mem_of_elem_eq_true h)

/-- The types that are always documented. -/
def documentedTypes : List FileType := [.service, .component, .hook, .page, .layout]

/-- What a file that needs no documentation is like. -/
structure Spared (f : Facts) (t : Thresholds) : Prop where
  complexity : f.complexity ≤ t.medium
  exports : f.exports ≤ 3
  fileType : ¬ f.isOneOf documentedTypes = true

/-- An exempt file is like that. -/
theorem spared_of_isExempt (h : f.isExempt t = true) : f.Spared t := by
  obtain ⟨htype, hcomplexity, hfunctions, hclasses⟩ := isExempt_iff.mp h
  refine ⟨by omega, ?_, fun hdocumented => ?_⟩
  · have hmod : f.exports ≤ f.functions + f.classes := Nat.mod_le _ _
    omega
  · have hmem : f.fileType ∈ documentedTypes := List.mem_of_elem_eq_true hdocumented
    rw [fileType_of_isOneOf htype] at hmem
    exact absurd hmem (by decide)

/-- **What is spared** is exempt, or no rule that asks for documentation applies
to it. -/
theorem spared_of_not_needsDocumentation (h : f.needsDocumentation t = false) : f.Spared t := by
  rw [needsDocumentation_eq] at h
  split at h
  next hexempt => exact spared_of_isExempt hexempt
  next =>
    have hnone := not_applies_of_decide h (by decide)
    simp only [requirementRules, List.tail_cons, List.forall_mem_cons, decide_eq_true_eq] at hnone
    obtain ⟨-, hcomplex, hexports, htype, -⟩ := hnone
    exact ⟨by omega, by omega, htype⟩

/-! ## What is urgent -/

/-- What makes a file critical. -/
theorem critical_cases (h : f.priority t = .critical) :
    f.isOneOf [.service] = true ∨ f.isOneOf [.component, .page, .layout] = true ∨
      t.high < f.complexity := by
  obtain ⟨r, hr, happlies, hverdict⟩ := exists_rule_of_decide h (by decide)
  unfold priorityRules at hr
  simp only [List.mem_cons, List.not_mem_nil, or_false] at hr
  rcases hr with rfl | rfl | rfl | rfl | rfl | rfl | rfl | rfl
  · simp only [Bool.and_eq_true] at happlies
    exact .inl happlies.1.2
  · simp only [Bool.and_eq_true] at happlies
    exact .inr (.inl happlies.1)
  · exact .inr (.inr (of_decide_eq_true happlies))
  all_goals cases hverdict

/-- What makes a file one of high priority. -/
theorem high_cases (h : f.priority t = .high) :
    f.isOneOf [.component, .service, .page, .layout] = true ∨ t.medium < f.complexity ∨
      f.isPublic = true ∧ f.isOneOf [.apiRoute, .service] = true ∧ 15 < f.complexity := by
  obtain ⟨r, hr, happlies, hverdict⟩ := exists_rule_of_decide h (by decide)
  unfold priorityRules at hr
  simp only [List.mem_cons, List.not_mem_nil, or_false] at hr
  rcases hr with rfl | rfl | rfl | rfl | rfl | rfl | rfl | rfl
  iterate 3 cases hverdict
  · simp only [Bool.and_eq_true] at happlies
    exact .inl happlies.1
  · exact .inr (.inl (of_decide_eq_true happlies))
  · simp only [Bool.and_eq_true, decide_eq_true_eq] at happlies
    exact .inr (.inr ⟨happlies.1.1, happlies.1.2, happlies.2⟩)
  iterate 2 cases hverdict

/-- **Urgent files are not silently exempt.** A file that needs no documentation
is critical only if the cut-offs are inverted and it lies between them. It is of
high priority only if it is a public route of a complexity beyond fifteen but
not beyond the medium cut-off that exports at most three functions and classes.
The exports fit into a word of 64 bits. -/
theorem urgent_of_not_needsDocumentation (hfits : f.functions + f.classes < 2 ^ 64)
    (h : f.needsDocumentation t = false) :
    (f.priority t = .critical → t.high < f.complexity ∧ f.complexity ≤ t.medium) ∧
    (f.priority t = .high → f.isPublic = true ∧ f.fileType = .apiRoute ∧ 15 < f.complexity ∧
      f.complexity ≤ t.medium ∧ f.functions + f.classes ≤ 3) := by
  obtain ⟨hcomplexity, hexports, htype⟩ := spared_of_not_needsDocumentation h
  have hnot {types : List FileType} (hsub : types ⊆ documentedTypes) :
      ¬ f.isOneOf types = true := mt (isOneOf_of_subset hsub) htype
  constructor
  · intro hcritical
    rcases critical_cases hcritical with hservice | hview | hbeyond
    · exact absurd hservice (hnot (by decide))
    · exact absurd hview (hnot (by decide))
    · exact ⟨hbeyond, hcomplexity⟩
  · intro hhigh
    rcases high_cases hhigh with hlarge | hbeyond | ⟨hpublic, hendpoint, hlow⟩
    · exact absurd hlarge (hnot (by decide))
    · exact absurd hcomplexity (by omega)
    · have hroute : f.fileType = .apiRoute := by
        rcases List.mem_cons.mp (List.mem_of_elem_eq_true hendpoint) with hroute | hmem
        · exact hroute
        · have hservice : f.isOneOf [.service] = true := List.elem_eq_true_of_mem hmem
          exact absurd hservice (hnot (by decide))
      have hcount : f.exports = f.functions + f.classes := Nat.mod_eq_of_lt hfits
      exact ⟨hpublic, hroute, hlow, hcomplexity, by omega⟩

/-- Cut-offs of which the high one is below the medium one. -/
def invertedCutoffs : Thresholds := { Thresholds.builtIn with high := 15 }

/-- A public route that is neither simple nor beyond the medium cut-off. -/
def middlingRoute : Facts where
  fileType := .apiRoute
  complexity := 20
  functions := 2
  classes := 1
  isPublic := true
  lines := 10

/-- Such a route needs no documentation, and is critical under inverted cut-offs
and of high priority under the built-in ones. -/
theorem urgent_of_not_needsDocumentation_middling :
    middlingRoute.needsDocumentation invertedCutoffs = false ∧
      middlingRoute.priority invertedCutoffs = .critical ∧
      invertedCutoffs.high < middlingRoute.complexity ∧
      middlingRoute.complexity ≤ invertedCutoffs.medium ∧
      middlingRoute.needsDocumentation .builtIn = false ∧
      middlingRoute.priority .builtIn = .high ∧
      15 < middlingRoute.complexity ∧
      middlingRoute.functions + middlingRoute.classes ≤ 3 := by
  have hfits : middlingRoute.functions + middlingRoute.classes < 2 ^ 64 := by decide
  have hinverted : middlingRoute.needsDocumentation invertedCutoffs = false := by decide
  have hspared : middlingRoute.needsDocumentation .builtIn = false := by decide
  obtain ⟨hbeyond, hmedium⟩ :=
    (urgent_of_not_needsDocumentation hfits hinverted).1 (by decide)
  obtain ⟨-, -, hlow, -, hexports⟩ :=
    (urgent_of_not_needsDocumentation hfits hspared).2 (by decide)
  exact ⟨hinverted, by decide, hbeyond, hmedium, hspared, by decide, hlow, hexports⟩

end Facts

end DocCoverage
