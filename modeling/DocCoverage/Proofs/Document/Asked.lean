import DocCoverage.Proofs.Document.Weights
/-!
# Documents — the score and what is asked for

The score is between zero and one before it is clamped, and divides by nothing
that can be zero. It grows with what the document has, and falls with the words
that are asked for. Of the sections that are asked for it reads no more than
which of the scored ones are among them (`criteria_congr`); asking for one that
the document has never lowers it, and for one that it lacks never raises it
(`score_lawful`).
-/

namespace DocCoverage

namespace Features

open Binary64

/-! ## Scored sections -/

section Sections

/-- The sections that are scored, and whether the document has them. -/
def scored (f : Features) : List (String × Bool) :=
  [("overview", f.hasOverview), ("usage", f.hasUsage), ("api_reference", f.hasReference),
    ("examples", f.hasCode)]

/-- The criteria of the sections that are asked for. -/
def askedOf {α : Type} (required : List String) (sections : List (String × Criterion α)) :
    List (Criterion α) :=
  sections.flatMap fun p => if p.1 ∈ required then [p.2] else []

/-- Only the sections in question matter. -/
theorem askedOf_congr {α : Type} {required more : List String}
    {sections : List (String × Criterion α)} (h : ∀ p ∈ sections, p.1 ∈ more ↔ p.1 ∈ required) :
    askedOf more sections = askedOf required sections := by
  refine List.flatMap_congr fun p hp => ?_
  rw [if_congr (h p hp) rfl rfl]

/-- **Asking for one more of sections with different names** asks for one more
criterion, wherever it stands. -/
theorem exists_askedOf_more {α : Type} {required more : List String}
    {sections : List (String × Criterion α)} {p : String × Criterion α}
    (hnames : (sections.map Prod.fst).Nodup) (hp : p ∈ sections) (hnew : p.1 ∉ required)
    (hmore : ∀ name, name ∈ more ↔ name = p.1 ∨ name ∈ required) :
    ∃ front back, askedOf required sections = front ++ back ∧
      askedOf more sections = front ++ p.2 :: back := by
  obtain ⟨before, behind, rfl⟩ := List.append_of_mem hp
  -- the other sections have other names, so they are asked for as before
  rw [List.map_append, List.map_cons, List.nodup_middle, ← List.map_append,
    List.nodup_cons] at hnames
  have hother (q : String × Criterion α) (hq : q ∈ before ++ behind) :
      q.1 ∈ more ↔ q.1 ∈ required :=
    (hmore q.1).trans (or_iff_right fun heq => hnames.1 (heq ▸ List.mem_map_of_mem hq))
  have hbefore : askedOf more before = askedOf required before :=
    askedOf_congr fun q hq => hother q (List.mem_append_left _ hq)
  have hbehind : askedOf more behind = askedOf required behind :=
    askedOf_congr fun q hq => hother q (List.mem_append_right _ hq)
  have hsplit (names : List String) : askedOf names (before ++ p :: behind) =
      askedOf names before ++ ((if p.1 ∈ names then [p.2] else []) ++ askedOf names behind) := by
    rw [askedOf, List.flatMap_append, List.flatMap_cons]
    rfl
  refine ⟨askedOf required before, askedOf required behind, ?_, ?_⟩
  · rw [hsplit, if_neg hnew, List.nil_append]
  · rw [hsplit, if_pos ((hmore p.1).mpr (.inl rfl)), hbefore, hbehind]
    rfl

variable {α : Type} [Measure α] {f : Features} {required more : List String} {s : String × Bool}

/-- The criteria of the scored sections, by their names. -/
def scoredCriteria (f : Features) : List (String × Criterion α) :=
  [("overview", ⟨0.20, f.hasOverview⟩), ("usage", ⟨0.25, f.hasUsage⟩),
    ("api_reference", ⟨0.20, f.hasReference⟩), ("examples", ⟨0.15, f.hasCode⟩)]

theorem scored_eq (f : Features) :
    f.scored = (f.scoredCriteria (α := α)).map fun p => (p.1, p.2.isMet) := rfl

/-- The criteria are those of the scored sections that are asked for, and the
headings. -/
theorem criteria_eq (f : Features) (required : List String) : criteria (α := α) f required =
    askedOf required f.scoredCriteria ++ [⟨0.10, f.hasHeadings⟩] := by
  simp [criteria, askedOf, scoredCriteria]

/-- **Only scored sections matter**, and only whether they are asked for. -/
theorem criteria_congr (h : ∀ s ∈ f.scored, s.1 ∈ more ↔ s.1 ∈ required) :
    criteria (α := α) f more = criteria f required := by
  rw [scored_eq (α := α)] at h
  rw [criteria_eq, criteria_eq, askedOf_congr fun p hp => ?_]
  exact h (p.1, p.2.isMet) (List.mem_map_of_mem hp)

theorem weight_of_mem_scoredCriteria {p : String × Criterion ℚ} (hp : p ∈ f.scoredCriteria) :
    1 / 10 ≤ p.2.weight := by
  unfold scoredCriteria at hp
  simp only [List.mem_cons, List.not_mem_nil, or_false] at hp
  rcases hp with rfl | rfl | rfl | rfl <;> norm_num

/-- **A scored section that is asked for in addition is one more criterion.** -/
theorem exists_criteria_more (hs : s ∈ f.scored) (hnew : s.1 ∉ required)
    (hmore : ∀ name, name ∈ more ↔ name = s.1 ∨ name ∈ required) :
    ∃ (front back : List (Criterion ℚ)) (w : ℚ), 1 / 10 ≤ w ∧
      criteria f required = front ++ back ∧ criteria f more = front ++ ⟨w, s.2⟩ :: back := by
  rw [scored_eq (α := ℚ)] at hs
  obtain ⟨p, hp, rfl⟩ := List.mem_map.mp hs
  have hnames : ((f.scoredCriteria (α := ℚ)).map Prod.fst).Nodup :=
    (by decide : ["overview", "usage", "api_reference", "examples"].Nodup)
  obtain ⟨front, back, hwithout, hwith⟩ := exists_askedOf_more hnames hp hnew hmore
  refine ⟨front, back ++ [⟨0.10, f.hasHeadings⟩], p.2.weight, weight_of_mem_scoredCriteria hp, ?_, ?_⟩
  · rw [criteria_eq, hwithout, List.append_assoc]
  · rw [criteria_eq, hwith, List.append_assoc]
    rfl

end Sections

/-! ## The score -/

section Score

variable {f : Features} {required more : List String} {s : String × Bool} {minimum : ℕ}

theorem length_criteria_pos (f : Features) (required : List String) :
    0 < (criteria (α := Float) f required).length := by
  rw [criteria_eq, List.length_append]
  exact Nat.lt_add_left _ Nat.zero_lt_one

/-- Every share is worth something between zero and one. -/
theorem exists_share (f : Features) (required : List String) :
    ∃ share' ≤ 1, HasValue (share (criteria f required)) share' := by
  have hlength := length_criteria_le f required
  obtain ⟨met, all, htracks⟩ := exists_tracks f required
  exact ⟨shareWorth met all,
    shareWorth_le_one htracks.weighed.metValue.nonneg htracks.weighed.met_le,
    hasValue_share htracks.weighed⟩

/-- The shares with and without a section that is asked for in addition. -/
theorem exists_shares_new (hs : s ∈ f.scored) (hnew : s.1 ∉ required)
    (hmore : ∀ name, name ∈ more ↔ name = s.1 ∨ name ∈ required) :
    ∃ a ≤ 1, ∃ b ≤ 1, HasValue (share (criteria f required)) a ∧
      HasValue (share (criteria f more)) b ∧ (s.2 = true → a ≤ b) ∧ (s.2 = false → b ≤ a) := by
  obtain ⟨front, back, w, hw, hwithout, hwith⟩ := exists_criteria_more hs hnew hmore
  have hlength := length_criteria_le f required
  have hlength' := length_criteria_le f more
  have hpos := length_criteria_pos f required
  have hpos' := length_criteria_pos f more
  obtain ⟨met, all, htracks⟩ := exists_tracks f required
  obtain ⟨met', all', htracks'⟩ := exists_tracks f more
  have hsums : weigh (criteria (α := ℚ) f more) =
      ((weigh (criteria f required)).1 + Criterion.metWeight ⟨w, s.2⟩,
        (weigh (criteria f required)).2 + w) := by
    rw [hwith, weigh_middle, hwithout]
  refine ⟨shareWorth met all, ?_, shareWorth met' all', ?_, hasValue_share htracks.weighed,
    hasValue_share htracks'.weighed, fun hmet => ?_, fun hlacks => ?_⟩
  · exact shareWorth_le_one htracks.weighed.metValue.nonneg htracks.weighed.met_le
  · exact shareWorth_le_one htracks'.weighed.metValue.nonneg htracks'.weighed.met_le
  · rw [Criterion.metWeight, hmet, if_pos rfl] at hsums
    exact shareWorth_le_of_met htracks htracks' hpos hpos' hlength hlength' hw hsums
  · rw [Criterion.metWeight, hlacks, if_neg Bool.false_ne_true, add_zero] at hsums
    exact shareWorth_le_of_not_met htracks htracks' hpos hpos' hlength hlength' hw hsums

/-- **The shares with and without one more section**, which may have been asked
for before. -/
theorem exists_shares_more (hs : s ∈ f.scored)
    (hmore : ∀ name, name ∈ more ↔ name = s.1 ∨ name ∈ required) :
    ∃ a ≤ 1, ∃ b ≤ 1, HasValue (share (criteria f required)) a ∧
      HasValue (share (criteria f more)) b ∧ (s.2 = true → a ≤ b) ∧ (s.2 = false → b ≤ a) := by
  by_cases hasked : s.1 ∈ required
  · have hsame : criteria (α := Float) f more = criteria f required := by
      refine criteria_congr fun s' _ => (hmore s'.1).trans (or_iff_right_of_imp fun heq => ?_)
      rw [heq]
      exact hasked
    obtain ⟨a, hone, ha⟩ := exists_share f required
    rw [hsame]
    exact ⟨a, hone, a, hone, ha, ha, fun _ => le_rfl, fun _ => le_rfl⟩
  · exact exists_shares_new hs hasked hmore

/-- The greater the share, the greater is the score. -/
theorem score_le_of_share {a b : ℚ} (ha : HasValue (share (criteria f required)) a)
    (hb : HasValue (share (criteria f more)) b) (hle : a ≤ b) (hone : b ≤ 1)
    (hmin : minimum < 2 ^ 32) : (f.score required minimum : Float) ≤ f.score more minimum := by
  rw [(hasValue_score ha (hle.trans hone) hmin).le_iff (hasValue_score hb hone hmin)]
  exact adjustedWorth_mono ha.nonneg hle hone ha.kept hb.kept le_rfl

/-- The more words are asked for, the less is the score. -/
theorem score_anti {raised : ℕ} (f : Features) (required : List String) (h : minimum ≤ raised)
    (hraised : raised < 2 ^ 32) :
    (f.score required raised : Float) ≤ f.score required minimum := by
  obtain ⟨a, hone, ha⟩ := exists_share f required
  rw [(hasValue_score ha hone hraised).le_iff (hasValue_score ha hone (by omega))]
  exact adjustedWorth_anti ha.nonneg hone ha.kept h

/-- Neither divisor is zero: there is some weight in all, and a document has too
few words only if words are asked for. -/
theorem divisors_pos (f : Features) (required : List String) (hmin : minimum < 2 ^ 32) :
    (0.0 : Float) < (weigh (criteria f required)).2 ∧
      (Float.ofNat f.words < Float.ofNat minimum → 0.0 < Float.ofNat minimum) := by
  obtain ⟨met, all, htracks⟩ := exists_tracks f required
  constructor
  · rw [hasValue_zero.lt_iff htracks.weighed.allValue]
    exact htracks.all_pos (length_criteria_pos f required)
  · intro hshort
    have hless : f.words < minimum := (ofCount_lt_iff (by omega)).2.mp hshort
    rw [hasValue_zero.lt_iff (.ofNat (by omega))]
    exact_mod_cast Nat.zero_lt_of_lt hless

/-- **The laws of the score.** The words asked for are a number of 32 bits.

* The score is between zero and one before it is clamped, which leaves it as it
  is.
* Neither of the two divisors is zero.
* A document that has more, or more words, is not scored lower.
* Asking for more words never raises the score.
* Asking for another scored section, at any place and any number of times, never
  lowers the score if the document has it, and never raises it if not.
* All else about the sections that are asked for is irrelevant. -/
theorem score_lawful (f : Features) (required : List String) {minimum : ℕ}
    (hmin : minimum < 2 ^ 32) :
    let raw : Float := adjusted (share (criteria f required)) f.words minimum
    (0.0 ≤ raw ∧ raw ≤ 1.0 ∧ f.score required minimum = raw) ∧
    ((0.0 : Float) < (weigh (criteria f required)).2 ∧
      (Float.ofNat f.words < Float.ofNat minimum → 0.0 < Float.ofNat minimum)) ∧
    (∀ g, f.AtMost g → (f.score required minimum : Float) ≤ g.score required minimum) ∧
    (∀ raised, minimum ≤ raised → raised < 2 ^ 32 →
      (f.score required raised : Float) ≤ f.score required minimum) ∧
    (∀ s ∈ f.scored, ∀ more : List String, (∀ name, name ∈ more ↔ name = s.1 ∨ name ∈ required) →
      (s.2 = true → (f.score required minimum : Float) ≤ f.score more minimum) ∧
      (s.2 = false → (f.score more minimum : Float) ≤ f.score required minimum)) ∧
    ∀ other : List String, (∀ s ∈ f.scored, s.1 ∈ other ↔ s.1 ∈ required) →
      (f.score other minimum : Float) = f.score required minimum := by
  intro raw
  obtain ⟨a, hone, ha⟩ := exists_share f required
  have hraw : HasValue raw (adjustedWorth a f.words minimum) := hasValue_adjusted ha hone f.words hmin
  have hrawone : adjustedWorth a f.words minimum ≤ 1 := adjustedWorth_le_one ha.nonneg hone
  refine ⟨⟨?_, ?_, clamp_eq hraw hrawone⟩, divisors_pos f required hmin,
    fun g hmore => score_mono hmore required hmin,
    fun raised h hraised => score_anti f required h hraised, fun s hs more hmore => ?_,
    fun other hsame => ?_⟩
  · exact (hasValue_zero.le_iff hraw).mpr hraw.nonneg
  · exact (hraw.le_iff hasValue_one).mpr hrawone
  · obtain ⟨a, ha₁, b, hb₁, ha, hb, hmet, hlacks⟩ := exists_shares_more hs hmore
    exact ⟨fun h => score_le_of_share ha hb (hmet h) hb₁ hmin,
      fun h => score_le_of_share hb ha (hlacks h) ha₁ hmin⟩
  · rw [score, score, criteria_congr hsame]

/-- A guide of sixty words, with an overview and headings, of which an overview
and instructions are asked for: it is not scored higher if examples are asked for
too, nor lower with instructions, and the overview may be asked for twice. -/
theorem score_lawful_guide :
    let guide : Features := { nothing with hasOverview := true, hasHeadings := true, words := 60 }
    (100 : ℕ) < 2 ^ 32 ∧
      (guide.score ["examples", "overview", "usage"] 100 : Float) ≤
        guide.score ["overview", "usage"] 100 ∧
      (guide.score ["overview", "usage"] 100 : Float) ≤
        { guide with hasUsage := true }.score ["overview", "usage"] 100 ∧
      (guide.score ["usage", "overview", "licence", "overview"] 100 : Float) =
        guide.score ["overview", "usage"] 100 := by
  intro guide
  have hmin : (100 : ℕ) < 2 ^ 32 := by decide
  obtain ⟨-, -, hgrows, -, hasks, hsame⟩ := score_lawful guide ["overview", "usage"] hmin
  have hexamples := hasks ("examples", false) (by decide) ["examples", "overview", "usage"]
    fun name => List.mem_cons
  refine ⟨hmin, hexamples.2 rfl, hgrows _ ?_, hsame _ (by decide)⟩
  constructor <;> decide

end Score

end Features

end DocCoverage
