/-
# Number parsing of the C library

`strtol` in base ten: blanks, an optional sign and digits; the value saturates at
the bounds of `long`. `atoi` keeps its low 32 bits. A numeral is read as its number.
-/
import FlowRetrieval.Util.StringExt
import Mathlib.Algebra.Group.Int.Defs
import Mathlib.Data.List.TakeWhile

namespace FlowRetrieval

namespace Cstdlib

/-- `isspace` in the C locale. -/
def isspace (c : UInt8) : Bool := c = 32 || (9 ≤ c && c ≤ 13)

/-- The value of the longest prefix of decimal digits. -/
def digits (text : Str) : ℕ :=
  (text.takeWhile fun c => 48 ≤ c && c ≤ 57).foldl (fun value c => value * 10 + (c.toNat - 48)) 0

/-- `strtol(text, NULL, 10)`. -/
def strtol (text : Str) : Int64 :=
  let text := text.dropWhile isspace
  let value : ℤ :=
    match text with
    | [] => 0
    | c :: rest => if c = 45 then -digits rest else if c = 43 then digits rest else digits text
  -- `LONG_MIN` and `LONG_MAX` when the value is out of range
  Int64.ofInt (max (-2 ^ 63) (min value (2 ^ 63 - 1)))

/-- `atoi`. -/
def atoi (text : Str) : Int32 := (strtol text).toInt32

example : atoi (.ofLiteral " -12x") = -12 := by decide

section Numerals

/-- A decimal digit. -/
def IsDigit (c : UInt8) : Prop := 48 ≤ c ∧ c ≤ 57

instance (c : UInt8) : Decidable (IsDigit c) := inferInstanceAs (Decidable (48 ≤ c ∧ c ≤ 57))

/-- The number that a string of digits stands for. -/
def ofDigits (text : Str) : ℕ := text.foldl (fun value c => value * 10 + (c.toNat - 48)) 0

/-- The numerals of a number: digits, with a sign or without. -/
inductive IsNumeral : Str → ℤ → Prop
  | plain (text : Str) (some : text ≠ []) (digits : ∀ c ∈ text, IsDigit c) :
      IsNumeral text (ofDigits text)
  | plus (text : Str) (some : text ≠ []) (digits : ∀ c ∈ text, IsDigit c) :
      IsNumeral (43 :: text) (ofDigits text)
  | minus (text : Str) (some : text ≠ []) (digits : ∀ c ∈ text, IsDigit c) :
      IsNumeral (45 :: text) (-ofDigits text)

theorem digits_eq_ofDigits {text : Str} (digits : ∀ c ∈ text, IsDigit c) :
    Cstdlib.digits text = ofDigits text := by
  rw [Cstdlib.digits, List.takeWhile_eq_self_iff.mpr, ofDigits]
  intro c member
  simpa [IsDigit] using digits c member

theorem not_isspace {c : UInt8} (digit : IsDigit c) : ¬isspace c = true := by
  obtain ⟨least, most⟩ := digit
  rw [UInt8.le_iff_toNat_le] at least most
  rw [isspace, Bool.or_eq_true, Bool.and_eq_true, decide_eq_true_iff, decide_eq_true_iff,
    decide_eq_true_iff, UInt8.le_iff_toNat_le, UInt8.le_iff_toNat_le]
  rintro (rfl | space)
  · exact absurd least (by decide)
  · have := space.2.trans_lt (show (13 : UInt8).toNat < (48 : UInt8).toNat by decide)
    omega

/-- A numeral of a number that fits a `long` is read as the number. -/
theorem strtol_of_isNumeral {text : Str} {number : ℤ} (numeral : IsNumeral text number)
    (least : -2 ^ 63 ≤ number) (most : number < 2 ^ 63) : strtol text = Int64.ofInt number := by
  have clamp : max (-2 ^ 63) (min number (2 ^ 63 - 1)) = number := by omega
  cases numeral with
  | plain text some digits =>
    obtain ⟨c, rest, rfl⟩ := List.exists_cons_of_ne_nil some
    have first := digits c List.mem_cons_self
    rw [strtol, List.dropWhile_cons_of_neg (not_isspace first)]
    dsimp only
    rw [if_neg, if_neg, digits_eq_ofDigits digits, clamp]
    · rintro rfl
      exact absurd first (by decide)
    · rintro rfl
      exact absurd first (by decide)
  | plus text some digits =>
    rw [strtol, List.dropWhile_cons_of_neg (by decide)]
    dsimp only
    rw [if_neg (by decide), if_pos rfl, digits_eq_ofDigits digits, clamp]
  | minus text some digits =>
    rw [strtol, List.dropWhile_cons_of_neg (by decide)]
    dsimp only
    rw [if_pos rfl, digits_eq_ofDigits digits, clamp]

/-- A numeral of an `int` is read as the `int`. -/
theorem toInt32_strtol {text : Str} {number : Int32} (numeral : IsNumeral text number.toInt) :
    (strtol text).toInt32 = number := by
  have least := number.le_toInt
  have most := number.toInt_lt
  rw [strtol_of_isNumeral numeral (by omega) (by omega), Int64.toInt32_ofInt, Int32.ofInt_toInt]

end Numerals

end Cstdlib

end FlowRetrieval
