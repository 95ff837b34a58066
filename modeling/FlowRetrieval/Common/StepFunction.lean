/-
# Step functions

`GetValue` searches the sorted split points with 32-bit indices. With at most
`2 ^ 31` split points the midpoint does not wrap around and the search ends.
-/
import FlowRetrieval.Common.Double

namespace FlowRetrieval

/-- `StepFunction`. -/
structure StepFunction (R : Type) where
  values : List R
  splits : List R
  deriving DecidableEq, Repr

namespace StepFunction

variable {R : Type} [Double R]

/-- A new function, which is also what `Clear` leaves. -/
def empty : StepFunction R := ⟨[], []⟩

/-- `Clear`. -/
def clear (_self : StepFunction R) : StepFunction R := empty

/-- `SetValues`. -/
def setValues (self : StepFunction R) (values : List R) : StepFunction R :=
  { self with values := values }

/-- `SetSplits`, which sorts the split points. -/
def setSplits (self : StepFunction R) (splits : List R) : StepFunction R :=
  { self with splits := splits.mergeSort fun x y => !decide (y < x) }

/-- `IsValid`. -/
def isValid (self : StepFunction R) : Bool := self.values.length = self.splits.length + 1

/-- The loop of `GetValue`; `none` when the fuel runs out. -/
def search (splits : List R) (x : R) : ℕ → UInt32 → UInt32 → Option UInt32
  | 0, _, _ => none
  | fuel + 1, left, right =>
    if left < right then
      -- the sum wraps around at `2 ^ 32`
      let mid := (left + right) >>> 1
      if splits.getD mid.toNat 0.0 < x then search splits x fuel (mid + 1) right
      else search splits x fuel left mid
    else some left

/-- `GetValue`; a search that does not end gives no value, which is shown as zero. -/
def getValue (self : StepFunction R) (x : R) : R :=
  if !self.isValid then 0.0
  else
    match search self.splits x (self.splits.length + 1) 0 (UInt32.ofNat self.splits.length) with
    | none => 0.0
    | some left => if left.toNat < self.values.length then self.values.getD left.toNat 0.0 else 0.0

@[simp] theorem getValue_empty (x : R) : (empty : StepFunction R).getValue x = 0.0 := rfl

/-- A value of the function is one of its step values, or zero. -/
theorem getValue_induction (self : StepFunction R) (x : R) {property : R → Prop}
    (zero : property 0.0) (values : ∀ value ∈ self.values, property value) :
    property (self.getValue x) := by
  rw [getValue]
  split
  · exact zero
  · split
    · exact zero
    · split
      · rename_i inside
        rw [List.getD_eq_getElem?_getD, List.getElem?_eq_getElem inside, Option.getD_some]
        exact values _ (List.getElem_mem inside)
      · exact zero

/-- The midpoint of a non-empty range up to `2 ^ 31` lies in the range. -/
theorem mid_toNat {left right : UInt32} (below : left < right) (small : right.toNat ≤ 2 ^ 31) :
    ((left + right) >>> 1).toNat = (left.toNat + right.toNat) / 2 := by
  rw [UInt32.lt_iff_toNat_lt] at below
  rw [UInt32.toNat_shiftRight, UInt32.toNat_add, Nat.mod_eq_of_lt (by omega),
    Nat.shiftRight_eq_div_pow]
  rfl

/-- A search in at most `2 ^ 31` split points ends. -/
theorem search_isSome (splits : List R) (x : R) {fuel : ℕ} {left right : UInt32}
    (small : right.toNat ≤ 2 ^ 31) (enough : right.toNat - left.toNat < fuel) :
    (search splits x fuel left right).isSome := by
  induction fuel generalizing left right with
  | zero => omega
  | succ fuel ih =>
    rw [search]
    split
    · rename_i below
      have mid := mid_toNat below small
      -- either half is shorter than the range, so one unit of fuel less is enough for it
      rw [UInt32.lt_iff_toNat_lt] at below
      dsimp only
      split
      · apply ih small
        rw [UInt32.toNat_add, mid, UInt32.toNat_one]
        omega
      · refine ih ?_ ?_ <;> rw [mid] <;> omega
    · rfl

/-- Where the split points below `x` are the first `bound` ones, the search finds `bound`. -/
theorem search_eq {splits : List R} {x : R} {bound : ℕ}
    (boundary : ∀ i < splits.length, splits.getD i 0.0 < x ↔ i < bound)
    {fuel : ℕ} {left right : UInt32} (small : right.toNat ≤ 2 ^ 31)
    (inside : right.toNat ≤ splits.length) (above : left.toNat ≤ bound)
    (below : bound ≤ right.toNat) (enough : right.toNat - left.toNat < fuel) :
    (search splits x fuel left right).map UInt32.toNat = some bound := by
  induction fuel generalizing left right with
  | zero => omega
  | succ fuel ih =>
    rw [search]
    by_cases more : left < right
    · have mid := mid_toNat more small
      rw [if_pos more]
      rw [UInt32.lt_iff_toNat_lt] at more
      have next : ((left + right) >>> 1 + 1).toNat = (left.toNat + right.toNat) / 2 + 1 := by
        rw [UInt32.toNat_add, mid, UInt32.toNat_one, Nat.mod_eq_of_lt (by omega)]
      -- the bound stays between the two ends whichever half is searched
      by_cases lower : splits.getD ((left + right) >>> 1).toNat 0.0 < x
      · have past := (boundary _ (by omega)).mp lower
        rw [if_pos lower]
        exact ih small inside (by omega) below (by omega)
      · have before := mt (boundary _ (by omega)).mpr lower
        rw [if_neg lower]
        exact ih (by omega) (by omega) above (by omega) (by omega)
    · rw [if_neg more, Option.map_some]
      rw [UInt32.lt_iff_toNat_lt] at more
      congr 1
      omega

/-- `GetValue` gives the value after the last split point below `x`. -/
theorem getValue_eq {self : StepFunction R} {x : R} {bound : ℕ} (valid : self.isValid)
    (few : self.splits.length ≤ 2 ^ 31)
    (boundary : ∀ i < self.splits.length, self.splits.getD i 0.0 < x ↔ i < bound)
    (inside : bound ≤ self.splits.length) :
    self.getValue x = self.values.getD bound 0.0 := by
  have length : self.values.length = self.splits.length + 1 := by simpa [isValid] using valid
  have right : (UInt32.ofNat self.splits.length).toNat = self.splits.length :=
    UInt32.toNat_ofNat_of_lt' (few.trans_lt (by decide))
  have found : (search self.splits x (self.splits.length + 1) 0
      (UInt32.ofNat self.splits.length)).map UInt32.toNat = some bound :=
    search_eq boundary (by omega) (by omega) (Nat.zero_le _) (by omega) (by omega)
  obtain ⟨left, searched, rfl⟩ := Option.map_eq_some_iff.mp found
  rw [getValue, valid, Bool.not_true, if_neg (by simp), searched]
  exact if_pos (by omega)

end StepFunction

end FlowRetrieval
