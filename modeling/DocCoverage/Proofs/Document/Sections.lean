import DocCoverage.Proofs.Document.Heading
/-!
# Documents — the sections that a text has

What a document is credited with, and what it is said to lack, can be read
off the titles that are announced in it (`assess_announced`). The score and
the list of what is lacking agree on the overview and on the interface
reference, for they know the same titles; on the usage they part where a
title is announced that only one of them knows (`credit_iff_not_missing`).
-/

namespace DocCoverage

open Heading

variable {text : List Char} {required : List String} {name : String} {s : Section}

namespace Section

theorem titles_ne_nil (h : named? name = some s) : s.titles ≠ [] := by
  have hall : ∀ s ∈ all, s.titles ≠ [] := by decide
  exact hall s (List.mem_of_find?_eq_some h)

theorem isIn_iff (hnamed : named? name = some s) :
    s.isIn text = true ↔ ∃ title ∈ s.titles, Announced title text :=
  occursIn_titled_iff (titles_ne_nil hnamed)

/-- **A section is lacking** if it is required, has a name, and none of its
titles is announced. -/
theorem mem_missing_iff : name ∈ missing text required ↔
    name ∈ required ∧ ∃ s, named? name = some s ∧ ¬ ∃ title ∈ s.titles, Announced title text := by
  rw [missing, List.mem_filter]
  refine and_congr_right fun _ => ?_
  constructor
  · intro hlacks
    cases hnamed : named? name with
    | none =>
      rw [hnamed] at hlacks
      cases hlacks
    | some s =>
      rw [hnamed, Bool.not_eq_true', ← Bool.not_eq_true, isIn_iff hnamed] at hlacks
      exact ⟨s, rfl, hlacks⟩
  · rintro ⟨s, hnamed, hlacks⟩
    rw [hnamed, Bool.not_eq_true', ← Bool.not_eq_true, isIn_iff hnamed]
    exact hlacks

/-- A single section is not lacking if one of its titles is announced. -/
theorem missing_singleton_iff {titles : List String} (hnamed : named? name = some ⟨name, titles⟩) :
    missing text [name] = [] ↔ ∃ title ∈ titles, Announced title text := by
  rw [List.eq_nil_iff_forall_not_mem]
  constructor
  · intro hnone
    by_contra hlacks
    exact hnone name (mem_missing_iff.mpr ⟨List.mem_singleton_self name, _, hnamed, hlacks⟩)
  · intro hannounced other hother
    obtain ⟨hmem, s, hnamed', hlacks⟩ := mem_missing_iff.mp hother
    obtain rfl := List.mem_singleton.mp hmem
    obtain rfl := Option.some_inj.mp (hnamed.symm.trans hnamed')
    exact hlacks hannounced

end Section

namespace Features

/-- **What a document is credited with**, by the titles announced in its
text. -/
structure Announces (text : List Char) (features : Features) : Prop where
  overview : features.hasOverview = true ↔ ∃ title ∈ overviewTitles, Announced title text
  usage : features.hasUsage = true ↔ ∃ title ∈ usageTitles, Announced title text
  reference : features.hasReference = true ↔ ∃ title ∈ referenceTitles, Announced title text
  installation :
    features.hasInstallation = true ↔ ∃ title ∈ installationTitles, Announced title text
  configuration :
    features.hasConfiguration = true ↔ ∃ title ∈ configurationTitles, Announced title text
  troubleshooting :
    features.hasTroubleshooting = true ↔ ∃ title ∈ troubleshootingTitles, Announced title text
  headings : features.hasHeadings = true ↔ WordAnnounced text

theorem announces_ofText (text : List Char) : Announces text (ofText text) where
  overview := occursIn_titled_iff (List.cons_ne_nil _ _)
  usage := occursIn_titled_iff (List.cons_ne_nil _ _)
  reference := occursIn_titled_iff (List.cons_ne_nil _ _)
  installation := occursIn_titled_iff (List.cons_ne_nil _ _)
  configuration := occursIn_titled_iff (List.cons_ne_nil _ _)
  troubleshooting := occursIn_titled_iff (List.cons_ne_nil _ _)
  headings := occursIn_any_iff

end Features

namespace Quality

/-- **Sections are recognised behind number signs only**, wherever in a line
they stand. A document is credited with a section if one of its titles is
announced, and lacks a required section that has a name if none is. -/
theorem assess_announced (settings : Settings) (fileType : FileType) (priority : Priority)
    (text : String) (required : List String) :
    (assess settings fileType priority text).features.Announces text.toList ∧
      ∀ name, name ∈ Section.missing text.toList required ↔ name ∈ required ∧
        ∃ s, Section.named? name = some s ∧ ¬ ∃ title ∈ s.titles, Announced title text.toList :=
  ⟨Features.announces_ofText text.toList, fun _ => Section.mem_missing_iff⟩

/-- No line begins with a number sign, blanks aside. -/
def Headless (text : List Char) : Prop :=
  ∀ line ∈ Text.pieces (· == '\n') text, (line.dropWhile Text.isBlank).head? ≠ some '#'

/-- A link into another document counts as a heading of this one. -/
theorem link_counts_as_heading : ¬ ∀ (text : String) (required : List String),
    Headless text.toList →
      (assess .builtIn .service .low text).features.hasOverview = false ∧
      (assess .builtIn .service .low text).features.hasUsage = false ∧
      (assess .builtIn .service .low text).features.hasReference = false ∧
      (assess .builtIn .service .low text).features.hasInstallation = false ∧
      (assess .builtIn .service .low text).features.hasConfiguration = false ∧
      (assess .builtIn .service .low text).features.hasTroubleshooting = false ∧
      (assess .builtIn .service .low text).features.hasHeadings = false ∧
      ∀ name ∈ required, (Section.named? name).isSome →
        name ∈ Section.missing text.toList required := by
  intro hall
  have hheadless : Headless "See guide.md#usage first.".toList := by
    unfold Headless
    decide +kernel
  have husage := (hall "See guide.md#usage first." [] hheadless).2.1
  have hseen : (Features.ofText "See guide.md#usage first.".toList).hasUsage = true := by
    decide +kernel
  exact Bool.false_ne_true (husage.symm.trans hseen)

/-! ## Credit -/

/-- If none of the other titles is announced, it is the one that only this
list has. -/
theorem announced_iff_of_not {title : String} {titles others : List String} (hmem : title ∈ titles)
    (hshared : ∀ t ∈ titles, t = title ∨ t ∈ others) (hnone : ¬ ∃ t ∈ others, Announced t text) :
    (∃ t ∈ titles, Announced t text) ↔ Announced title text := by
  constructor
  · rintro ⟨t, ht, hannounced⟩
    rcases hshared t ht with rfl | hother
    · exact hannounced
    · exact absurd ⟨t, hother, hannounced⟩ hnone
  · exact fun hannounced => ⟨title, hmem, hannounced⟩

/-- **The score and the list of what is lacking agree** on the overview and on
the interface reference. On the usage they part in two cases only: where only
an example is announced it is credited and lacking, and where only a way to
use something is announced it is neither. -/
theorem credit_iff_not_missing (settings : Settings) (fileType : FileType) (priority : Priority)
    (text : String) :
    let features := (assess settings fileType priority text).features
    let lacking := fun name => Section.missing text.toList [name]
    (features.hasOverview = true ↔ lacking "overview" = []) ∧
      (features.hasReference = true ↔ lacking "api_reference" = []) ∧
      ((features.hasUsage = true ∧ lacking "usage" ≠ []) ↔
        Announced "Example" text.toList ∧
          ¬ ∃ title ∈ ["Usage", "Getting Started", "How to Use"], Announced title text.toList) ∧
      ((features.hasUsage = false ∧ lacking "usage" = []) ↔
        Announced "How to Use" text.toList ∧
          ¬ ∃ title ∈ ["Usage", "Example", "Getting Started"], Announced title text.toList) := by
  intro features lacking
  have hfeatures : features.Announces text.toList := Features.announces_ofText text.toList
  have hoverview :
      lacking "overview" = [] ↔ ∃ title ∈ overviewTitles, Announced title text.toList :=
    Section.missing_singleton_iff rfl
  have hreference :
      lacking "api_reference" = [] ↔ ∃ title ∈ referenceTitles, Announced title text.toList :=
    Section.missing_singleton_iff rfl
  have husage : lacking "usage" = [] ↔
      ∃ title ∈ ["Usage", "Getting Started", "How to Use"], Announced title text.toList :=
    Section.missing_singleton_iff rfl
  refine ⟨hfeatures.overview.trans hoverview.symm, hfeatures.reference.trans hreference.symm, ?_, ?_⟩
  · rw [hfeatures.usage, ne_eq, husage]
    exact and_congr_left (announced_iff_of_not (by decide) (by decide))
  · rw [← Bool.not_eq_true, hfeatures.usage, husage, and_comm]
    exact and_congr_left (announced_iff_of_not (by decide) (by decide))

/-- A document on how to use something is not credited for the usage that it
is not said to lack. -/
theorem usage_uncredited_not_missing : ¬ ∀ text : String,
    ((assess .builtIn .service .low text).features.hasUsage = true ↔
      Section.missing text.toList ["usage"] = []) := by
  intro hall
  have hlacks : Section.missing "## How to Use".toList ["usage"] = [] := by decide +kernel
  have hseen : (Features.ofText "## How to Use".toList).hasUsage = false := by decide +kernel
  exact Bool.false_ne_true (hseen.symm.trans ((hall "## How to Use").mpr hlacks))

end Quality

end DocCoverage
