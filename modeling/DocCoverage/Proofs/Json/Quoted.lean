import DocCoverage.Json.Printer
import DocCoverage.Json.Reader
import Mathlib.Tactic.SplitIfs
/-!
# JSON — strings in quotes

What is written for a character inside a string is read as this character
(`stringBody?_escape`), whichever of the three escapes it takes, and so a
string in quotes is read back with what follows it (`string?_quoted`).
-/

namespace DocCoverage

namespace Json

/-- The digits of a control character spell its code. -/
theorem unit?_hexDigits : ∀ n < 0x20,
    unit? '0' '0' (hexDigit (n / 16)) (hexDigit (n % 16)) = some n := by decide

/-- A control character that has no letter is read from its code. -/
theorem stringBody?_control {c : Char} (h : c.toNat < 0x20) (rest : List Char) :
    stringBody? ('\\' :: 'u' :: '0' :: '0' :: hexDigit (c.toNat / 16) ::
        hexDigit (c.toNat % 16) :: rest) =
      (stringBody? rest).map fun (cs, tail) => (c :: cs, tail) := by
  have hlow : isLowHalf c.toNat = false := by
    simp only [isLowHalf, Bool.and_eq_false_iff, decide_eq_false_iff_not]
    omega
  have hhigh : isHighHalf c.toNat = false := by
    simp only [isHighHalf, Bool.and_eq_false_iff, decide_eq_false_iff_not]
    omega
  rw [stringBody?, unit?_hexDigits _ h]
  simp only [hlow, hhigh, Bool.false_eq_true, if_false, Char.ofNat_toNat]

/-- A character without an escape is read as it is. -/
theorem stringBody?_plain {c : Char} (hquote : c ≠ '"') (hback : c ≠ '\\')
    (hcontrol : ¬ c.toNat < 0x20) (rest : List Char) :
    stringBody? (c :: rest) = (stringBody? rest).map fun (cs, tail) => (c :: cs, tail) := by
  rw [stringBody?.eq_def]
  split
  next heq => cases heq
  next heq => exact absurd (List.cons.inj heq).1 hquote
  next heq => exact absurd (List.cons.inj heq).1 hback
  next heq => exact absurd (List.cons.inj heq).1 hback
  next heq =>
    obtain ⟨rfl, rfl⟩ := List.cons.inj heq
    rw [if_neg (by simp [hcontrol, hback])]

/-- **A character is read as it was written.** -/
theorem stringBody?_escape (c : Char) (rest : List Char) :
    stringBody? (escape c ++ rest) =
      (stringBody? rest).map fun (cs, tail) => (c :: cs, tail) := by
  unfold escape
  split_ifs with hquote hback hfeed hreturn htab hbackspace hform hcontrol
  · rw [hquote]; rfl
  · rw [hback]; rfl
  · rw [hfeed]; rfl
  · rw [hreturn]; rfl
  · rw [htab]; rfl
  · rw [hbackspace]; rfl
  · rw [hform]; rfl
  · exact stringBody?_control hcontrol rest
  · exact stringBody?_plain hquote hback hcontrol rest

theorem stringBody?_flatMap_escape (text rest : List Char) :
    stringBody? (text.flatMap escape ++ '"' :: rest) = some (text, rest) := by
  induction text with
  | nil => rfl
  | cons c text ih =>
    rw [List.flatMap_cons, List.append_assoc, stringBody?_escape, ih]
    rfl

/-- **A string in quotes is read back.** -/
theorem string?_quoted (s : String) (rest : List Char) :
    string? (quoted s rest) = some (s, rest) := by
  rw [quoted, string?, stringBody?_flatMap_escape, Option.map_some]
  exact congrArg (fun s => some (s, rest)) String.ofList_toList

end Json

end DocCoverage
