/-
# Arithmetic on `double`

The code computes with `double` values. The model is generic in the type of these
values: it uses the operations below and no law about them, so that what is proved
for every such type also holds for floating-point numbers. The rationals are an
instance, the exact arithmetic.
-/
import FlowRetrieval.Util.Cstdlib
import Mathlib.Data.Rat.Floor

namespace FlowRetrieval

/-- The bit pattern of a `float`. -/
abbrev FloatBits := UInt32

/-- The operators of `double`, its decimal literals and its conversions from and to
integers. -/
class Double (R : Type) extends
    Add R, Sub R, Mul R, Div R, NatCast R, IntCast R, OfScientific R, LT R where
  decLt : DecidableRel fun x y : R => x < y
  /-- `ceil` of the mathematical library. -/
  ceil : R → R
  /-- `static_cast<int>`, which drops the fraction. -/
  toInt32 : R → Int32

instance Double.decidableLt {R : Type} [Double R] (x y : R) : Decidable (x < y) := Double.decLt x y

/-- Exact arithmetic. -/
instance : Double ℚ where
  decLt := inferInstance
  ceil := fun x => (⌈x⌉ : ℤ)
  toInt32 := fun x =>
    let whole := x.num.tdiv x.den
    -- the language leaves the other values open, the processor gives the least `int`
    if -2 ^ 31 ≤ whole ∧ whole < 2 ^ 31 then Int32.ofInt whole else Int32.minValue

/-- `ESCAPE_ZERO`, which every file of the source defines with this value. -/
def escapeZero {R : Type} [Double R] : R := 1e-9

theorem escapeZero_pos : (0 : ℚ) < escapeZero := by norm_num [escapeZero]

/-- Library functions on `double` values: `pow`, `strtod`, the `float` product of an
integer and a `float` converted to `double`, and the text `Json::FastWriter` gives
for an object with these members. -/
structure DoubleLib (R : Type) where
  pow : R → R → R
  strtod : Str → R
  floatProduct : UInt32 → FloatBits → R
  fastWriter : List (String × R) → Str

/-- Library functions in exact arithmetic, on the arguments where they are simple:
integral exponents, integral numerals and integral `float` values (shown as zero
otherwise), with an object printed as the names of its members. -/
def DoubleLib.integral : DoubleLib ℚ where
  pow x y := x ^ y.num
  strtod text := (Cstdlib.strtol text).toInt
  floatProduct count bits :=
    let exponent := (bits >>> 23).toNat % 256
    if exponent < 150 then 0
    else (count.toNat * ((bits.toNat % 2 ^ 23 + 2 ^ 23) * 2 ^ (exponent - 150)) : ℕ)
  fastWriter members := members.flatMap fun member => Str.ofLiteral member.1

end FlowRetrieval
