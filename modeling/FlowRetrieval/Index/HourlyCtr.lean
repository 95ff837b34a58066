/-
# Hourly click rates

`GetHourlyCtr` divides the clicks of the selected hours, each the product of its page views
and its rate, by their page views. The clicks are summed as `double` values and the page views
in 32 bits. Here the arithmetic on `double` values is exact.

## Main results

* `PvBidBitmap.getHourlyCtr_exact` — the rate as a quotient of two sums
* `PvBidBitmap.isMean_iff` — the rate is a weighted mean of the selected rates exactly when the
  page views that the sum loses are made up for by hours below the largest rate
-/
import Mathlib.Algebra.Order.BigOperators.Group.List
import Mathlib.Algebra.BigOperators.Ring.List
import Mathlib.Tactic.Linarith
import Mathlib.Tactic.Positivity
import Mathlib.Tactic.FieldSimp
import FlowRetrieval.Index.PvBidBitmap

namespace FlowRetrieval

/-- The value of a finite `float`. -/
def FloatBits.toRat (bits : FloatBits) : ℚ :=
  let exponent := (bits >>> 23).toNat % 256
  let fraction : ℕ := bits.toNat % 2 ^ 23
  let sign : ℚ := if bits.toNat < 2 ^ 31 then 1 else -1
  -- the smallest exponent is that of the numbers without a leading one
  if exponent = 0 then sign * fraction * 2 ^ (-149 : ℤ)
  else sign * ((2 ^ 23 + fraction : ℕ) : ℚ) * 2 ^ ((exponent : ℤ) - 150)

/-- Library functions whose `float` products are exact. -/
def DoubleLib.exact (lib : DoubleLib ℚ) : DoubleLib ℚ :=
  { lib with floatProduct := fun count bits => count.toNat * bits.toRat }

namespace PvBidBitmap

/-- The page views and the rate of each of the hours. -/
def selected (b : PvBidBitmap) (hours : List UInt32) : List (ℕ × ℚ) :=
  hours.map fun hour =>
    ((b.hourlyPv.getD hour.toNat 0).toNat, FloatBits.toRat (b.hourlyCtr.getD hour.toNat 0))

/-- The page views of the hours together. -/
def views (b : PvBidBitmap) (hours : List UInt32) : ℕ :=
  ((b.selected hours).map Prod.fst).sum

/-- The largest rate of the hours. -/
def largest (b : PvBidBitmap) (hours : List UInt32) : ℚ :=
  ((b.selected hours).map Prod.snd).max?.getD 0

/-- The smallest rate of the hours. -/
def smallest (b : PvBidBitmap) (hours : List UInt32) : ℚ :=
  ((b.selected hours).map Prod.snd).min?.getD 0

/-- The rate is a weighted mean of the rates of the hours, up to the constant that keeps the
divisor from zero. -/
structure IsMean (b : PvBidBitmap) (lib : DoubleLib ℚ) (hours : List UInt32) : Prop where
  le_largest : b.getHourlyCtr lib.exact hours ≤ b.largest hours
  smallest_le : (b.views hours : ℚ) / (b.views hours + escapeZero) * b.smallest hours ≤
    b.getHourlyCtr lib.exact hours

/-- The clicks that the hours miss when each of them could have the largest rate. -/
def missing (b : PvBidBitmap) (hours : List UInt32) : ℚ :=
  ((b.selected hours).map fun hour => (hour.1 : ℚ) * (b.largest hours - hour.2)).sum

section Weighted

variable {terms : List (ℕ × ℚ)} {bound : ℚ}

/-- Weighted sums, compared with a bound for the terms. -/
theorem sum_weighted_sub (terms : List (ℕ × ℚ)) (bound : ℚ) :
    (terms.map fun term => (term.1 : ℚ) * (bound - term.2)).sum =
      bound * (terms.map Prod.fst).sum - (terms.map fun term => (term.1 : ℚ) * term.2).sum := by
  induction terms with
  | nil => simp
  | cons term terms ih =>
    simp only [List.map_cons, List.sum_cons, ih, Nat.cast_add]
    ring

theorem le_sum_weighted (below : ∀ term ∈ terms, bound ≤ term.2) :
    bound * (terms.map Prod.fst).sum ≤ (terms.map fun term => (term.1 : ℚ) * term.2).sum := by
  induction terms with
  | nil => simp
  | cons term terms ih =>
    rw [List.forall_mem_cons] at below
    have head : bound * term.1 ≤ term.1 * term.2 := by
      rw [mul_comm]
      exact mul_le_mul_of_nonneg_left below.1 (Nat.cast_nonneg _)
    simp only [List.map_cons, List.sum_cons, Nat.cast_add, mul_add]
    exact add_le_add head (ih below.2)

end Weighted

variable {b : PvBidBitmap} {hours : List UInt32}

/-- The rate as a quotient of two sums, of which the lower one is taken modulo `2 ^ 32`. -/
theorem getHourlyCtr_exact (day : ∀ hour ∈ hours, hour.toNat < hoursPerDay)
    (lib : DoubleLib ℚ) : b.getHourlyCtr lib.exact hours =
      ((b.selected hours).map fun hour => (hour.1 : ℚ) * hour.2).sum /
        ((b.views hours % 2 ^ 32 : ℕ) + escapeZero) := by
  have zero : (0.0 : ℚ) = 0 := by norm_num
  have loop (sums : UInt32 × ℚ) : hours.foldl
      (fun (sums : UInt32 × ℚ) hour =>
        if hour.toNat < hoursPerDay then
          (sums.1 + b.hourlyPv.getD hour.toNat 0, sums.2 +
            lib.exact.floatProduct (b.hourlyPv.getD hour.toNat 0) (b.hourlyCtr.getD hour.toNat 0))
        else sums) sums =
      (sums.1 + UInt32.ofNat (b.views hours),
        sums.2 + ((b.selected hours).map fun hour => (hour.1 : ℚ) * hour.2).sum) := by
    induction hours generalizing sums with
    | nil => simp [views, selected]
    | cons hour hours ih =>
      rw [List.forall_mem_cons] at day
      rw [List.foldl_cons, if_pos day.1, ih day.2]
      simp only [views, selected, List.map_cons, List.sum_cons, UInt32.ofNat_add,
        UInt32.ofNat_toNat, DoubleLib.exact]
      rw [UInt32.add_assoc, add_assoc]
  rw [getHourlyCtr, loop, zero, UInt32.zero_add]
  dsimp only
  rw [zero_add, UInt32.toNat_ofNat']

theorem le_largest_of_mem {hour : ℕ × ℚ} (member : hour ∈ b.selected hours) :
    hour.2 ≤ b.largest hours := by
  have rate : hour.2 ∈ (b.selected hours).map Prod.snd := List.mem_map_of_mem member
  cases top : ((b.selected hours).map Prod.snd).max? with
  | none =>
    rw [List.max?_eq_none_iff] at top
    rw [top] at rate
    cases rate
  | some value =>
    rw [largest, top]
    exact (List.max?_eq_some_iff.mp top).2 _ rate

theorem smallest_le_of_mem {hour : ℕ × ℚ} (member : hour ∈ b.selected hours) :
    b.smallest hours ≤ hour.2 := by
  have rate : hour.2 ∈ (b.selected hours).map Prod.snd := List.mem_map_of_mem member
  cases bottom : ((b.selected hours).map Prod.snd).min? with
  | none =>
    rw [List.min?_eq_none_iff] at bottom
    rw [bottom] at rate
    cases rate
  | some value =>
    rw [smallest, bottom]
    exact (List.min?_eq_some_iff.mp bottom).2 _ rate

section Rates

variable (rates : ∀ bits ∈ b.hourlyCtr, 0 ≤ FloatBits.toRat bits)

include rates

theorem rate_nonneg {hour : ℕ × ℚ} (member : hour ∈ b.selected hours) : 0 ≤ hour.2 := by
  obtain ⟨index, -, rfl⟩ := List.mem_map.mp member
  dsimp only
  rw [List.getD_eq_getElem?_getD]
  cases entry : b.hourlyCtr[index.toNat]? with
  | none => exact le_of_eq (by simp [FloatBits.toRat])
  | some bits => exact rates bits (List.mem_of_getElem? entry)

theorem largest_nonneg : 0 ≤ b.largest hours := by
  cases top : ((b.selected hours).map Prod.snd).max? with
  | none => rw [largest, top]; rfl
  | some value =>
    rw [largest, top]
    obtain ⟨hour, member, rfl⟩ := List.mem_map.mp (List.max?_eq_some_iff.mp top).1
    exact rate_nonneg rates member

theorem smallest_nonneg : 0 ≤ b.smallest hours := by
  cases bottom : ((b.selected hours).map Prod.snd).min? with
  | none => rw [smallest, bottom]; rfl
  | some value =>
    rw [smallest, bottom]
    obtain ⟨hour, member, rfl⟩ := List.mem_map.mp (List.min?_eq_some_iff.mp bottom).1
    exact rate_nonneg rates member

omit rates in
theorem missing_nonneg : 0 ≤ b.missing hours := by
  apply List.sum_nonneg
  intro term member
  obtain ⟨hour, inside, rfl⟩ := List.mem_map.mp member
  exact mul_nonneg (Nat.cast_nonneg _) (sub_nonneg.mpr (le_largest_of_mem inside))

variable (day : ∀ hour ∈ hours, hour.toNat < hoursPerDay) (lib : DoubleLib ℚ)

include day

/-- The lower bound holds, since the divisor is never larger than the page views ask for. -/
theorem smallest_le_getHourlyCtr :
    (b.views hours : ℚ) / (b.views hours + escapeZero) * b.smallest hours ≤
      b.getHourlyCtr lib.exact hours := by
  have small := escapeZero_pos
  have clicks : b.smallest hours * b.views hours ≤
      ((b.selected hours).map fun hour => (hour.1 : ℚ) * hour.2).sum :=
    le_sum_weighted fun hour member => smallest_le_of_mem member
  have counted : ((b.views hours % 2 ^ 32 : ℕ) : ℚ) ≤ b.views hours :=
    Nat.cast_le.mpr (Nat.mod_le _ _)
  have nonneg : 0 ≤ b.smallest hours * b.views hours :=
    mul_nonneg (smallest_nonneg rates) (Nat.cast_nonneg _)
  rw [getHourlyCtr_exact day]
  calc
    (b.views hours : ℚ) / (b.views hours + escapeZero) * b.smallest hours =
        b.smallest hours * b.views hours / (b.views hours + escapeZero) := by ring
    _ ≤ b.smallest hours * b.views hours / ((b.views hours % 2 ^ 32 : ℕ) + escapeZero) := by
      apply div_le_div_of_nonneg_left nonneg (by positivity)
      linarith
    _ ≤ _ := by
      apply div_le_div_of_nonneg_right clicks
      positivity

omit rates in
/-- The upper bound, with the page views that the 32-bit sum loses on one side. -/
theorem le_largest_iff : b.getHourlyCtr lib.exact hours ≤ b.largest hours ↔
    b.largest hours * (2 ^ 32 * (b.views hours / 2 ^ 32 : ℕ) - escapeZero) ≤
      b.missing hours := by
  have small := escapeZero_pos
  have split : (b.views hours : ℚ) =
      2 ^ 32 * (b.views hours / 2 ^ 32 : ℕ) + (b.views hours % 2 ^ 32 : ℕ) := by
    exact_mod_cast (Nat.div_add_mod _ _).symm
  have missed : b.missing hours = b.largest hours * b.views hours -
      ((b.selected hours).map fun hour => (hour.1 : ℚ) * hour.2).sum := sum_weighted_sub _ _
  rw [getHourlyCtr_exact day, div_le_iff₀ (by positivity), missed, split]
  generalize b.views hours / 2 ^ 32 = lost
  generalize b.views hours % 2 ^ 32 = kept
  constructor <;> intro bound <;> linarith

/-- The rate of the hours is a weighted mean when their page views stay below `2 ^ 32`, and
otherwise when the clicks that they miss are at least those that the lost page views have at
the largest rate. -/
theorem isMean_iff : b.IsMean lib hours ↔ b.views hours < 2 ^ 32 ∨
    b.largest hours * (2 ^ 32 * (b.views hours / 2 ^ 32 : ℕ) - escapeZero) ≤
      b.missing hours := by
  constructor
  · exact fun mean => .inr ((le_largest_iff day lib).mp mean.le_largest)
  · intro condition
    refine ⟨(le_largest_iff day lib).mpr ?_, smallest_le_getHourlyCtr rates day lib⟩
    rcases condition with few | enough
    · -- below `2 ^ 32` nothing is lost
      have small := escapeZero_pos
      have rate : 0 ≤ b.largest hours := largest_nonneg rates
      have none : (b.views hours / 2 ^ 32 : ℕ) = 0 := Nat.div_eq_of_lt few
      have lost : b.largest hours * (2 ^ 32 * (b.views hours / 2 ^ 32 : ℕ) - escapeZero) ≤ 0 := by
        rw [none, Nat.cast_zero, mul_zero, zero_sub, mul_neg, neg_nonpos]
        exact mul_nonneg rate small.le
      exact lost.trans missing_nonneg
    · exact enough

end Rates

section EvenDay

/-- The pattern of `1.0f`. -/
theorem toRat_one : FloatBits.toRat 1065353216 = 1 := by
  have exponent : ((1065353216 : UInt32) >>> 23).toNat % 256 = 127 := rfl
  have fraction : (1065353216 : UInt32).toNat % 2 ^ 23 = 0 := rfl
  have positive : (1065353216 : UInt32).toNat < 2 ^ 31 := by simp
  simp only [FloatBits.toRat, exponent, fraction, if_pos positive]
  norm_num

/-- A bitmap with the same page views in every hour, all of them with the rate one. -/
theorem exists_evenDay (pv : UInt32) : ∃ b,
    empty.generate [97] 0 0 (List.replicate 24 0) (List.replicate 24 pv)
        (List.replicate 24 1065353216) [[0]] [5] 1 = some b ∧
      b.selected [0, 1] = [(pv.toNat, 1), (pv.toNat, 1)] ∧
      ∀ bits ∈ b.hourlyCtr, 0 ≤ FloatBits.toRat bits := by
  have accepted : (empty.generate [97] 0 0 (List.replicate 24 0) (List.replicate 24 pv)
      (List.replicate 24 1065353216) [[0]] [5] 1).isSome := by
    rw [isSome_generate_iff, Bitmap.isSome_generate_iff]
    simp [hoursPerDay]
  obtain ⟨b, done⟩ := Option.isSome_iff_exists.mp accepted
  obtain ⟨-, -, -, pvs, ctrs⟩ := counters_of_generate done
  refine ⟨b, done, ?_, fun bits member => ?_⟩
  · rw [selected, pvs, ctrs]
    simp [toRat_one]
  · rw [ctrs] at member
    rw [List.eq_of_mem_replicate member, toRat_one]
    exact zero_le_one

/-- Seven page views in each hour. -/
theorem isMean_evenDay : ∃ b,
    empty.generate [97] 0 0 (List.replicate 24 0) (List.replicate 24 7)
        (List.replicate 24 1065353216) [[0]] [5] 1 = some b ∧
      b.IsMean DoubleLib.integral [0, 1] := by
  obtain ⟨b, done, hours, rates⟩ := exists_evenDay 7
  refine ⟨b, done, (isMean_iff rates (by simp [hoursPerDay]) _).mpr (.inl ?_)⟩
  rw [views, hours]
  simp

/-- With `2 ^ 31` page views in each hour, two hours have a rate above one. -/
theorem not_isMean_evenDay : ∃ b,
    empty.generate [97] 0 0 (List.replicate 24 0) (List.replicate 24 2147483648)
        (List.replicate 24 1065353216) [[0]] [5] 1 = some b ∧
      ∀ lib, ¬ b.IsMean lib [0, 1] := by
  obtain ⟨b, done, hours, rates⟩ := exists_evenDay 2147483648
  refine ⟨b, done, fun lib mean => ?_⟩
  have bound := (le_largest_iff (by simp [hoursPerDay]) lib).mp mean.le_largest
  have largest : b.largest [0, 1] = 1 := by
    rw [PvBidBitmap.largest, hours]
    simp
  have views : b.views [0, 1] = 2 ^ 32 := by
    rw [PvBidBitmap.views, hours]
    simp
  have missing : b.missing [0, 1] = 0 := by
    rw [PvBidBitmap.missing, hours, largest]
    simp
  rw [largest, views, missing] at bound
  norm_num [escapeZero] at bound

end EvenDay

end PvBidBitmap

end FlowRetrieval
