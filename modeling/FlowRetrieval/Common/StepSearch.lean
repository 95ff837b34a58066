/-
# The search for a step

`SetSplits` takes the split points in any order, with repetitions, and sorts them; the
search of `GetValue` finds the number of those below `x`, as a linear scan would. The
order of the numbers is any strict total order. The search computes its midpoints with
32 bits, so it may run forever on more than `2 ^ 31` split points.

## Main results

* `StepFunction.countsSplits_of_few` — on up to `2 ^ 31` split points the search ends and
  counts
* `StepFunction.search_eq_none` — on more of them, it does not end at a point above all
-/
import FlowRetrieval.Common.StepFunction
import FlowRetrieval.CS.StepTable

namespace FlowRetrieval

namespace StepFunction

variable {R : Type} [Double R]

/-- The search of `GetValue` ends. -/
def Ends (self : StepFunction R) (x : R) : Prop :=
  ∃ fuel, (search self.splits x fuel 0 (UInt32.ofNat self.splits.length)).isSome

/-- The search ends at every point and gives the value with the number of the splits that
are strictly below; so with values in ascending order the function is monotone. -/
structure CountsSplits (function : StepFunction R) (values splits : List R) : Prop where
  ends : ∀ x, function.Ends x
  counts : ∀ x, values[splits.countP (· < x)]? = some (function.getValue x)
  monotone : (values.Pairwise fun value later => ¬later < value) →
    ∀ {x y}, ¬y < x → ¬function.getValue y < function.getValue x

section Sorted

theorem perm_splits (self : StepFunction R) (splits : List R) :
    (self.setSplits splits).splits.Perm splits := List.mergeSort_perm _ _

variable [IsStrictTotalOrder R (· < ·)]

theorem lt_of_not_lt_of_lt {a b x : R} (ordered : ¬b < a) (less : b < x) : a < x := by
  obtain before | rfl | behind := trichotomous_of (· < ·) a b
  · exact trans_of (· < ·) before less
  · exact less
  · exact absurd behind ordered

/-- `SetSplits` leaves the split points in ascending order. -/
theorem pairwise_splits (self : StepFunction R) (splits : List R) :
    (self.setSplits splits).splits.Pairwise fun split later => ¬later < split := by
  have trans : ∀ a b c : R, !decide (b < a) → !decide (c < b) → !decide (c < a) := by
    intro a b c first second
    simp only [Bool.not_eq_true', decide_eq_false_iff_not] at first second ⊢
    exact fun less => first (lt_of_not_lt_of_lt second less)
  have total : ∀ a b : R, !decide (b < a) || !decide (a < b) := by
    intro a b
    by_cases less : b < a
    · simp [less, asymm_of (· < ·) less]
    · simp [less]
  exact (List.pairwise_mergeSort trans total splits).imp fun ordered => by simpa using ordered

/-- The split points below `x` are the first ones. -/
theorem getD_splits_lt_iff (self : StepFunction R) (splits : List R) (x : R) {i : ℕ}
    (inside : i < (self.setSplits splits).splits.length) :
    (self.setSplits splits).splits.getD i 0.0 < x ↔ i < splits.countP (· < x) := by
  have initial : (self.setSplits splits).splits.Pairwise fun split later =>
      decide (later < x) → decide (split < x) :=
    (self.pairwise_splits splits).imp fun ordered => by simpa using lt_of_not_lt_of_lt ordered
  rw [List.getD_eq_getElem _ _ inside, ← (self.perm_splits splits).countP_eq,
    ← CS.getElem_iff_lt_countP initial inside, decide_eq_true_iff]

/-- The search agrees with a linear scan of the split points. -/
theorem getValue_setSplits (self : StepFunction R) {values splits : List R}
    (valid : values.length = splits.length + 1) (few : splits.length ≤ 2 ^ 31) (x : R) :
    ((self.setValues values).setSplits splits).getValue x =
      values.getD (splits.countP (· < x)) 0.0 := by
  have length := ((self.setValues values).perm_splits splits).length_eq
  apply getValue_eq
  · rw [isValid, length]
    exact decide_eq_true valid
  · rwa [length]
  · exact fun i inside => (self.setValues values).getD_splits_lt_iff splits x inside
  · exact length ▸ List.countP_le_length

/-- With one more value than split points, and at most `2 ^ 31` of these, the function
counts split points, whatever it was before. -/
theorem countsSplits_of_few (self : StepFunction R) {values splits : List R}
    (valid : values.length = splits.length + 1) (few : splits.length ≤ 2 ^ 31) :
    CountsSplits ((self.setValues values).setSplits splits) values splits := by
  have length := ((self.setValues values).perm_splits splits).length_eq
  have inside (x : R) : splits.countP (· < x) < values.length := by
    have most := (List.countP_le_length : splits.countP (· < x) ≤ splits.length)
    omega
  constructor
  · intro x
    refine ⟨splits.length + 1, ?_⟩
    rw [length]
    have right : (UInt32.ofNat splits.length).toNat = splits.length :=
      UInt32.toNat_ofNat_of_lt' (few.trans_lt (by decide))
    apply search_isSome
    · rwa [right]
    · rw [right]
      omega
  · intro x
    rw [self.getValue_setSplits valid few, List.getD_eq_getElem _ _ (inside x),
      List.getElem?_eq_getElem (inside x)]
  · intro ascending x y ordered
    have fewer : splits.countP (· < x) ≤ splits.countP (· < y) := by
      refine List.countP_mono_left fun split _ below => ?_
      rw [decide_eq_true_iff] at below ⊢
      by_contra above
      -- then `y ≤ split < x`
      exact ordered (lt_of_not_lt_of_lt above below)
    rw [self.getValue_setSplits valid few, self.getValue_setSplits valid few,
      List.getD_eq_getElem _ _ (inside x), List.getD_eq_getElem _ _ (inside y)]
    obtain same | before := fewer.eq_or_lt
    · simp only [same]
      exact irrefl_of (· < ·) _
    · exact List.pairwise_iff_getElem.mp ascending _ _ (inside x) (inside y) before

end Sorted

section Wrapped

/-- When all of more than `2 ^ 31` split points are below `x`, the range never gets empty:
its midpoint wraps around before its lower end can reach the upper one. -/
theorem search_eq_none {splits : List R} {x : R} {right : UInt32}
    (inside : right.toNat ≤ splits.length) (many : 2 ^ 31 < right.toNat)
    (below : ∀ i < splits.length, splits.getD i 0.0 < x) {fuel : ℕ} {left : UInt32}
    (more : left < right) : search splits x fuel left right = none := by
  induction fuel generalizing left with
  | zero => rfl
  | succ fuel ih =>
    have bound := right.toNat_lt
    have range := UInt32.lt_iff_toNat_lt.mp more
    have mid : ((left + right) >>> 1).toNat =
        (left.toNat + right.toNat) % 2 ^ 32 / 2 := by
      rw [UInt32.toNat_shiftRight, UInt32.toNat_add, Nat.shiftRight_eq_div_pow]
      rfl
    have next : ((left + right) >>> 1 + 1).toNat =
        (left.toNat + right.toNat) % 2 ^ 32 / 2 + 1 := by
      rw [UInt32.toNat_add, mid, UInt32.toNat_one, Nat.mod_eq_of_lt (by omega)]
    rw [search, if_pos more]
    dsimp only
    rw [if_pos (below _ (by omega))]
    apply ih
    rw [UInt32.lt_iff_toNat_lt, next]
    omega

theorem not_ends (self : StepFunction R) {splits : List R} (many : 2 ^ 31 < splits.length)
    (few : splits.length < 2 ^ 32) {x : R} (below : ∀ split ∈ splits, split < x) :
    ¬(self.setSplits splits).Ends x := by
  have perm := self.perm_splits splits
  have right : (UInt32.ofNat (self.setSplits splits).splits.length).toNat = splits.length := by
    rw [perm.length_eq]
    exact UInt32.toNat_ofNat_of_lt' few
  rintro ⟨fuel, ends⟩
  rw [search_eq_none (by rw [right, perm.length_eq]) (by omega)] at ends
  · cases ends
  · intro i inside
    rw [List.getD_eq_getElem _ _ inside]
    exact below _ (perm.mem_iff.mp (List.getElem_mem inside))
  · rw [UInt32.lt_iff_toNat_lt, right, UInt32.toNat_zero]
    omega

end Wrapped

section Rational

instance : IsStrictTotalOrder ℚ fun x y : ℚ => x < y :=
  inferInstanceAs (IsStrictTotalOrder ℚ (@LT.lt ℚ Rat.instLT))

theorem countsSplits_repeated :
    CountsSplits ((empty.setValues [1, 2, 3, 4]).setSplits [7, 5, (5 : ℚ)])
      [1, 2, 3, 4] [7, 5, 5] :=
  countsSplits_of_few empty rfl (by simp)

/-- One more split point than that, all of them zero, and the search at `1` does not end. -/
theorem not_countsSplits_many :
    ¬CountsSplits
      ((empty.setValues (List.replicate (2 ^ 31 + 2) (0 : ℚ))).setSplits
        (List.replicate (2 ^ 31 + 1) 0))
      (List.replicate (2 ^ 31 + 2) 0) (List.replicate (2 ^ 31 + 1) 0) := by
  intro counts
  refine not_ends _ ?_ ?_ ?_ (counts.ends 1)
  · rw [List.length_replicate]
    omega
  · rw [List.length_replicate]
    omega
  · intro split member
    rw [List.eq_of_mem_replicate member]
    exact zero_lt_one

end Rational

end StepFunction

end FlowRetrieval
