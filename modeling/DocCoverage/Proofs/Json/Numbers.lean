import DocCoverage.Json.Printer
import DocCoverage.Json.Reader
import Mathlib.Algebra.Group.Int.Defs
import Mathlib.Data.List.TakeWhile
import Mathlib.Data.Nat.Init
import Mathlib.Tactic.SplitIfs
/-!
# JSON — numbers that are read back

A number ends before anything that can follow a value, so that it is read
alike at the end of a text and inside one (`number?_append`). Integers of 64
bits are read back (`isReadBack_int`).
-/

namespace DocCoverage

namespace Json

variable {text rest digits : List Char} {c : Char}

/-- What can follow a value: nothing, a comma, the end of an array or object,
or the end of the line. -/
def Delimits (rest : List Char) : Prop := ∀ c ∈ rest.head?, c ∈ [',', ']', '\x7d', '\n']

/-! ## The end of a number -/

namespace Delimits

variable (hrest : Delimits rest)
include hrest

/-- Nothing that can follow a value is part of a number. -/
theorem head?_ne (hc : c ∉ [',', ']', '\x7d', '\n']) : rest.head? ≠ some c :=
  fun hhead => hc (hrest c hhead)

theorem not_isDigit (hc : c ∈ rest.head?) : Decimal.isDigit c = false := by
  have hmem := hrest c hc
  simp only [List.mem_cons, List.not_mem_nil, or_false] at hmem
  rcases hmem with rfl | rfl | rfl | rfl <;> rfl

theorem takeWhile_append (text : List Char) :
    (text ++ rest).takeWhile Decimal.isDigit = text.takeWhile Decimal.isDigit := by
  induction text with
  | nil =>
    cases rest with
    | nil => rfl
    | cons c tail => exact List.takeWhile_cons_of_neg (by simp [hrest.not_isDigit rfl])
  | cons c text ih => rw [List.cons_append, List.takeWhile_cons, List.takeWhile_cons, ih]

theorem dropWhile_append (text : List Char) :
    (text ++ rest).dropWhile Decimal.isDigit = text.dropWhile Decimal.isDigit ++ rest := by
  induction text with
  | nil =>
    cases rest with
    | nil => rfl
    | cons c tail => exact List.dropWhile_cons_of_neg (by simp [hrest.not_isDigit rfl])
  | cons c text ih =>
    rw [List.cons_append, List.dropWhile_cons, List.dropWhile_cons, ih]
    split <;> rfl

theorem goesOn_append (text : List Char) : goesOn (text ++ rest) = goesOn text := by
  cases text with
  | cons c text => rfl
  | nil =>
    cases rest with
    | nil => rfl
    | cons c tail =>
      have hmem := hrest c rfl
      simp only [List.mem_cons, List.not_mem_nil, or_false] at hmem
      rcases hmem with rfl | rfl | rfl | rfl <;> rfl

end Delimits

/-- What is read, with more behind it. -/
def followedBy {α : Type} (rest : List Char) (read : Option (α × List Char)) :
    Option (α × List Char) :=
  read.map fun (x, tail) => (x, tail ++ rest)

theorem followedBy_map {α β : Type} (rest : List Char) (f : α → β × List Char) (read : Option α) :
    followedBy rest (read.map f) = read.map fun x => ((f x).1, (f x).2 ++ rest) := by
  rw [followedBy, Option.map_map]
  rfl

/-- The magnitude of a number with an exponent, behind the sign of it. -/
def exponent? (significand : ℕ) (implied : ℤ) (negative : Bool) (text : List Char) :
    Option (Float × List Char) :=
  let digits := text.takeWhile Decimal.isDigit
  let behind := text.dropWhile Decimal.isDigit
  let written := Decimal.number digits
  if digits.isEmpty then none
  else if exponentBound ≤ written then
    if significand ≠ 0 ∧ !negative then none else some (0.0, behind)
  else
    let exponent := clampExponent (if negative then implied - written else implied + written)
    (scaled? significand exponent).map (·, behind)

theorem exponent?_append (hrest : Delimits rest) (significand : ℕ) (implied : ℤ) (negative : Bool)
    (text : List Char) : exponent? significand implied negative (text ++ rest) =
      followedBy rest (exponent? significand implied negative text) := by
  unfold exponent?
  dsimp only
  rw [hrest.takeWhile_append, hrest.dropWhile_append]
  split_ifs
  · rfl
  · rfl
  · rfl
  · rw [followedBy_map]
  · rw [followedBy_map]

theorem withExponent?_of_unmarked (h : ∀ mark ∈ text.head?, ¬ (mark = 'e' ∨ mark = 'E'))
    (significand : ℕ) (implied : ℤ) :
    withExponent? significand implied text = (scaled? significand implied).map (·, text) := by
  cases text with
  | nil => rfl
  | cons mark rest =>
    unfold withExponent?
    dsimp only
    rw [if_neg (h mark rfl)]

theorem withExponent?_cons {mark : Char} (hmark : mark = 'e' ∨ mark = 'E') (significand : ℕ)
    (implied : ℤ) (text : List Char) : withExponent? significand implied (mark :: text) =
      if text.head? = some '-' then exponent? significand implied true text.tail
      else if text.head? = some '+' then exponent? significand implied false text.tail
      else exponent? significand implied false text := by
  by_cases hminus : ∃ digits, text = '-' :: digits
  · obtain ⟨digits, rfl⟩ := hminus
    exact if_pos hmark
  by_cases hplus : ∃ digits, text = '+' :: digits
  · obtain ⟨digits, rfl⟩ := hplus
    exact if_pos hmark
  have hno (c : Char) (h : ¬ ∃ digits, text = c :: digits) : text.head? ≠ some c :=
    fun hhead => h (List.head?_eq_some_iff.mp hhead)
  rw [if_neg (hno '-' hminus), if_neg (hno '+' hplus), withExponent?, if_pos hmark]
  · rfl
  · exact fun digits heq => hminus ⟨digits, heq⟩
  · exact fun digits heq => hplus ⟨digits, heq⟩

theorem withExponent?_append (hrest : Delimits rest) (significand : ℕ) (implied : ℤ)
    (text : List Char) : withExponent? significand implied (text ++ rest) =
      followedBy rest (withExponent? significand implied text) := by
  by_cases hmark : ∃ mark more, text = mark :: more ∧ (mark = 'e' ∨ mark = 'E')
  · obtain ⟨mark, more, rfl, hmark⟩ := hmark
    rw [List.cons_append, withExponent?_cons hmark, withExponent?_cons hmark]
    cases more with
    | nil =>
      have hminus : rest.head? ≠ some '-' := hrest.head?_ne (by decide)
      have hplus : rest.head? ≠ some '+' := hrest.head?_ne (by decide)
      rw [List.nil_append, if_neg hminus, if_neg hplus]
      exact exponent?_append hrest significand implied false []
    | cons c more =>
      rw [List.cons_append, List.head?_cons, List.head?_cons, List.tail_cons, List.tail_cons]
      split_ifs
      · exact exponent?_append hrest _ _ _ _
      · exact exponent?_append hrest _ _ _ _
      · exact exponent?_append hrest _ _ _ (c :: more)
  · have hunmarked : ∀ c ∈ text.head?, ¬ (c = 'e' ∨ c = 'E') := by
      intro c hc hce
      cases text with
      | nil => cases hc
      | cons d more => exact hmark ⟨d, more, rfl, by rwa [Option.some.inj hc]⟩
    rw [withExponent?_of_unmarked hunmarked, followedBy_map, withExponent?_of_unmarked]
    intro c hc
    cases text with
    | nil =>
      rintro (rfl | rfl)
      · exact hrest.head?_ne (by decide) hc
      · exact hrest.head?_ne (by decide) hc
    | cons d more => exact hunmarked c hc

theorem magnitude?_append (hrest : Delimits rest) (significand leftOver : ℕ) (text : List Char) :
    magnitude? significand leftOver (text ++ rest) =
      followedBy rest (magnitude? significand leftOver text) := by
  by_cases hpoint : ∃ fraction, text = '.' :: fraction
  · obtain ⟨fraction, rfl⟩ := hpoint
    rw [List.cons_append, magnitude?, magnitude?, hrest.takeWhile_append, hrest.dropWhile_append]
    split_ifs
    · rfl
    · exact withExponent?_append hrest _ _ _
  · have hno (fraction : List Char) : text ++ rest ≠ '.' :: fraction := by
      intro heq
      cases text with
      | nil => exact hrest.head?_ne (c := '.') (by decide) (congrArg List.head? heq)
      | cons c text => exact hpoint ⟨text, by rw [(List.cons.inj heq).1]⟩
    have hno' (fraction : List Char) : text ≠ '.' :: fraction := fun heq => hpoint ⟨fraction, heq⟩
    rw [magnitude?, magnitude?, withExponent?_append hrest]
    · exact hno'
    · exact hno

/-! ## Whole numbers -/

/-- What is read as a number without its sign. -/
def unsigned? (negative : Bool) (text : List Char) : Option (Json × List Char) :=
  let digits := text.takeWhile Decimal.isDigit
  let behind := text.dropWhile Decimal.isDigit
  if digits.isEmpty || (digits.head? == some '0' && digits.length != 1) then none
  else
    let (significand, leftOver) := gather 0 digits
    let asFloat := (magnitude? significand leftOver.length behind).map fun (x, tail) =>
      (Json.float (if negative then -x else x), tail)
    if leftOver.isEmpty && !goesOn behind then
      match integer? negative significand with
      | some n => some (Json.int n, behind)
      | none => asFloat
    else asFloat

theorem number?_minus (text : List Char) : number? ('-' :: text) = unsigned? true text := rfl

theorem number?_of_head? (h : text.head? ≠ some '-') : number? text = unsigned? false text := by
  rw [number?]
  · rfl
  · rintro digits rfl
    exact h rfl

theorem unsigned?_append (hrest : Delimits rest) (negative : Bool) (text : List Char) :
    unsigned? negative (text ++ rest) = followedBy rest (unsigned? negative text) := by
  unfold unsigned?
  dsimp only
  rw [hrest.takeWhile_append, hrest.dropWhile_append, hrest.goesOn_append,
    magnitude?_append hrest, followedBy, Option.map_map]
  split
  · rfl
  · split
    · split
      · rfl
      · rw [followedBy_map]
        rfl
    · rw [followedBy_map]
      rfl

/-- **A number is read alike at the end of a text and inside one.** -/
theorem number?_append (hrest : Delimits rest) (text : List Char) :
    number? (text ++ rest) = followedBy rest (number? text) := by
  by_cases hminus : text.head? = some '-'
  · obtain ⟨digits, rfl⟩ := List.head?_eq_some_iff.mp hminus
    exact unsigned?_append hrest true digits
  · have happend : (text ++ rest).head? ≠ some '-' := by
      cases text with
      | nil => exact hrest.head?_ne (by decide)
      | cons c text => exact hminus
    rw [number?_of_head? hminus, number?_of_head? happend, unsigned?_append hrest]

/-- Whether a number is read back from what is written for it. -/
def IsReadBack (number : Json) : Prop :=
  number? (number.render none []) = some (number, [])

/-- A floating-point number is read back if its text is. -/
theorem isReadBack_float {x : Float} (text : List Char) (htext : floatText x = text)
    (hread : number? text = some (float x, [])) : IsReadBack (float x) := by
  rw [IsReadBack, render, List.append_nil, htext, hread]

/-! ## Integers -/

theorem isDigit_of_mem_digitChars {n : ℕ} (h : c ∈ Decimal.digitChars n) :
    Decimal.isDigit c = true := Nat.isDigit_of_mem_toDigits (by decide) (by decide) h

theorem digitValue_digitChar {d : ℕ} (h : d < 10) : Decimal.digitValue d.digitChar = d := by
  have hall : ∀ d : Fin 10, Decimal.digitValue (Nat.digitChar d) = d := by decide
  exact hall ⟨d, h⟩

theorem digitChars_of_ten_le {n : ℕ} (h : 10 ≤ n) :
    Decimal.digitChars n = Decimal.digitChars (n / 10) ++ [(n % 10).digitChar] :=
  Nat.toDigits_of_base_le (by decide) h

theorem digitChars_of_lt_ten {n : ℕ} (h : n < 10) : Decimal.digitChars n = [n.digitChar] :=
  Nat.toDigits_of_lt_base h

theorem gather_append {s m : ℕ} {digits : List Char} (h : gather s digits = (m, []))
    (more : List Char) : gather s (digits ++ more) = gather m more := by
  induction digits generalizing s with
  | nil =>
    obtain rfl : s = m := (Prod.mk.inj h).1
    rfl
  | cons c digits ih =>
    rw [gather] at h
    rw [List.cons_append, gather]
    split at h
    next hfits =>
      rw [if_pos hfits]
      exact ih h
    next => cases (Prod.mk.inj h).2

theorem gather_singleton {s : ℕ} (hfits : 10 * s + Decimal.digitValue c < significandBound) :
    gather s [c] = (10 * s + Decimal.digitValue c, []) := if_pos hfits

/-- The digits of a number that fits are gathered to this number. -/
theorem gather_digitChars {n : ℕ} (h : n < significandBound) :
    gather 0 (Decimal.digitChars n) = (n, []) := by
  induction n using Nat.strong_induction_on with
  | h n ih =>
    have hlast : Decimal.digitValue (n % 10).digitChar = n % 10 :=
      digitValue_digitChar (Nat.mod_lt n (by decide))
    by_cases hten : 10 ≤ n
    · have hfront := ih (n / 10) (by omega) (by omega)
      rw [digitChars_of_ten_le hten, gather_append hfront, gather_singleton (by omega), hlast,
        Nat.div_add_mod]
    · rw [Nat.mod_eq_of_lt (by omega)] at hlast
      rw [digitChars_of_lt_ten (by omega), gather_singleton (by omega), hlast]
      simp

/-- Only zero begins with a zero. -/
theorem head?_digitChars_ne {n : ℕ} (h : 1 ≤ n) : (Decimal.digitChars n).head? ≠ some '0' := by
  induction n using Nat.strong_induction_on with
  | h n ih =>
    by_cases hten : 10 ≤ n
    · have hfront := ih (n / 10) (by omega) (by omega)
      rw [digitChars_of_ten_le hten, List.head?_append]
      intro hzero
      cases hhead : (Decimal.digitChars (n / 10)).head? with
      | none => exact Nat.toDigits_ne_nil (List.head?_eq_none_iff.mp hhead)
      | some c =>
        rw [hhead] at hzero hfront
        exact hfront hzero
    · have hdigit : ∀ d : Fin 10, 1 ≤ d.val → Nat.digitChar d ≠ '0' := by decide
      rw [digitChars_of_lt_ten (by omega)]
      exact fun hzero => hdigit ⟨n, by omega⟩ h (Option.some.inj hzero)

theorem unsigned?_digitChars {n : ℕ} {negative : Bool} {m : ℤ} (hfits : n < significandBound)
    (hvalue : integer? negative n = some m) :
    unsigned? negative (Decimal.digitChars n) = some (int m, []) := by
  have htake : (Decimal.digitChars n).takeWhile Decimal.isDigit = Decimal.digitChars n :=
    List.takeWhile_eq_self_iff.mpr fun c hc => isDigit_of_mem_digitChars hc
  have hdrop : (Decimal.digitChars n).dropWhile Decimal.isDigit = [] :=
    List.dropWhile_eq_nil_iff.mpr fun c hc => isDigit_of_mem_digitChars hc
  have hdigits : ¬ ((Decimal.digitChars n).isEmpty ||
      ((Decimal.digitChars n).head? == some '0' && (Decimal.digitChars n).length != 1)) = true := by
    rw [Bool.or_eq_true, Bool.and_eq_true, not_or, not_and, List.isEmpty_iff]
    refine ⟨Nat.toDigits_ne_nil, fun hzero => ?_⟩
    have hn : n = 0 := by
      by_contra hn
      exact head?_digitChars_ne (Nat.one_le_iff_ne_zero.mpr hn) (eq_of_beq hzero)
    rw [hn]
    decide
  unfold unsigned?
  dsimp only
  rw [htake, hdrop, if_neg hdigits, gather_digitChars hfits, hvalue]
  rfl

/-- **An integer of 64 bits is read back.** -/
theorem isReadBack_int {n : ℤ} (hlow : -2 ^ 63 ≤ n) (hhigh : n < 2 ^ 64) : IsReadBack (int n) := by
  have hbound : significandBound = 2 ^ 64 := rfl
  rw [IsReadBack, render, List.append_nil, integerText, Decimal.signed]
  by_cases hneg : n < 0
  · have hfits : 0 < n.natAbs ∧ n.natAbs ≤ Nat.pow 2 63 := by
      have hpow : Nat.pow 2 63 = 2 ^ 63 := rfl
      omega
    rw [decide_eq_true hneg, if_pos rfl, number?_minus, unsigned?_digitChars (m := n) (by omega)]
    rw [integer?, if_pos rfl, if_pos hfits]
    exact congrArg some (by omega)
  · have hhead : (Decimal.digitChars n.natAbs).head? ≠ some '-' := by
      intro hminus
      exact absurd (isDigit_of_mem_digitChars (List.mem_of_head? hminus)) (by decide)
    rw [decide_eq_false hneg, if_neg Bool.false_ne_true, number?_of_head? hhead,
      unsigned?_digitChars (m := n) (by omega)]
    rw [integer?, if_neg Bool.false_ne_true]
    exact congrArg some (by omega)

end Json

end DocCoverage
