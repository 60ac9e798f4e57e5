import DocCoverage.Source.Kind
/-!
# Sources — who needs documentation, and how urgently

Two decision tables judge a source file by a few facts about it. A table is
a list of named rules, and the first rule that applies decides. The first
table says whether the file needs documentation, the second how urgent that
is.
-/

namespace DocCoverage

/-- The cut-offs of complexity. -/
structure Thresholds where
  low : Nat
  medium : Nat
  high : Nat
  critical : Nat
deriving DecidableEq, Repr, Inhabited

/-- The built-in cut-offs. -/
def Thresholds.builtIn : Thresholds where
  low := 10
  medium := 25
  high := 50
  critical := 100

/-- The facts that the rules look at. -/
structure Facts where
  fileType : FileType
  complexity : Nat
  functions : Nat
  classes : Nat
  isPublic : Bool
  lines : Nat
deriving DecidableEq, Repr, Inhabited

/-- One rule of a decision table. -/
structure Rule (Verdict : Type) where
  name : String
  applies : Facts → Thresholds → Bool
  verdict : Verdict

namespace Rule

variable {Verdict : Type}

/-- The first rule that applies. -/
def firstMatch (rules : List (Rule Verdict)) (facts : Facts) (thresholds : Thresholds) :
    Option (Rule Verdict) :=
  rules.find? fun rule => rule.applies facts thresholds

/-- The verdict of the first rule that applies, and `otherwise` if none
does. -/
def decide (rules : List (Rule Verdict)) (facts : Facts) (thresholds : Thresholds)
    (otherwise : Verdict) : Verdict :=
  match firstMatch rules facts thresholds with
  | some rule => rule.verdict
  | none => otherwise

/-- The name of the first rule that applies. -/
def nameOfMatch (rules : List (Rule Verdict)) (facts : Facts) (thresholds : Thresholds) :
    Option String :=
  (firstMatch rules facts thresholds).map (·.name)

end Rule

namespace Facts

/-- The number of exported functions and classes, a word of 64 bits. -/
def exports (facts : Facts) : Nat := (facts.functions + facts.classes) % Nat.pow 2 64

/-- Whether the file is of one of these types. -/
def isOneOf (facts : Facts) (types : List FileType) : Bool := types.contains facts.fileType

/-- Who needs documentation. -/
def requirementRules : List (Rule Bool) :=
  [ { name := "simple-api-route-exempt"
      applies := fun f t => f.isOneOf [.apiRoute] && f.complexity < t.medium &&
        f.functions ≤ 2 && f.classes == 0
      verdict := false },
    { name := "public-service-or-component"
      applies := fun f _ => f.isPublic && f.isOneOf [.service, .component]
      verdict := true },
    { name := "complex"
      applies := fun f t => t.medium < f.complexity
      verdict := true },
    { name := "many-exports"
      applies := fun f _ => 3 < f.exports
      verdict := true },
    { name := "documented-file-type"
      applies := fun f _ => f.isOneOf [.service, .component, .hook, .page, .layout]
      verdict := true },
    { name := "substantial-utility"
      applies := fun f _ => f.isOneOf [.utility] && (20 < f.complexity || 2 < f.functions)
      verdict := true } ]

/-- Whether the file needs documentation; one that no rule speaks of does
not. -/
def needsDocumentation (facts : Facts) (thresholds : Thresholds) : Bool :=
  Rule.decide requirementRules facts thresholds false

/-- How urgent documentation is. -/
def priorityRules : List (Rule Priority) :=
  [ { name := "complex-public-service"
      applies := fun f _ => f.isPublic && f.isOneOf [.service] && 30 < f.complexity
      verdict := .critical },
    { name := "large-view"
      applies := fun f _ => f.isOneOf [.component, .page, .layout] && 300 < f.lines
      verdict := .critical },
    { name := "very-complex"
      applies := fun f t => t.high < f.complexity
      verdict := .critical },
    { name := "substantial-code"
      applies := fun f _ => f.isOneOf [.component, .service, .page, .layout] && 150 < f.lines
      verdict := .high },
    { name := "complex"
      applies := fun f t => t.medium < f.complexity
      verdict := .high },
    { name := "public-endpoint"
      applies := fun f _ => f.isPublic && f.isOneOf [.apiRoute, .service] && 15 < f.complexity
      verdict := .high },
    { name := "public-helper"
      applies := fun f _ => f.isPublic && f.isOneOf [.hook, .utility, .template]
      verdict := .medium },
    { name := "mid-size-view"
      applies := fun f _ => f.isOneOf [.component, .page] && 50 < f.lines
      verdict := .medium } ]

/-- How urgent documentation is; a file that no rule speaks of comes last. -/
def priority (facts : Facts) (thresholds : Thresholds) : Priority :=
  Rule.decide priorityRules facts thresholds .low

end Facts

end DocCoverage
