/-
# Step tables

A step table gives a first value and then, from each of its keys on, another value.
Its value at `x` is the one of the greatest key strictly below `x`, wherever in the
table that key stands. In a table with ascending keys it is found by counting the
keys below `x`. Counting in a table whose keys are out of order agrees with the
table exactly when sorting the steps leaves the values where they were.
-/
import Mathlib.Algebra.Ring.Parity
import Mathlib.Data.List.GetD
import Mathlib.Data.List.Sort
import Mathlib.Order.Bounds.Basic
import Mathlib.Order.Max
import Mathlib.Data.Set.Finite.Lattice

namespace CS

/-- In a list where the entries with a property come first, their number is where they
end. -/
theorem getElem_iff_lt_countP {K : Type} {keys : List K} {property : K → Bool}
    (initial : keys.Pairwise fun key later => property later → property key) {i : ℕ}
    (inside : i < keys.length) : property keys[i] ↔ i < keys.countP property := by
  induction keys generalizing i with
  | nil => exact absurd inside (Nat.not_lt_zero i)
  | cons key rest ih =>
    obtain ⟨first, initial⟩ := List.pairwise_cons.mp initial
    by_cases holds : property key
    · rw [List.countP_cons_of_pos holds]
      cases i with
      | zero => simp [holds]
      | succ i => rw [List.getElem_cons_succ, ih initial, Nat.add_lt_add_iff_right]
    · -- without the first entry, no later one has the property
      have missing : ∀ other ∈ key :: rest, ¬property other := by
        intro other member has
        rcases List.mem_cons.mp member with rfl | later
        · exact holds has
        · exact holds (first other later has)
      rw [List.countP_eq_zero.mpr missing]
      exact iff_of_false (missing _ (List.getElem_mem inside)) (Nat.not_lt_zero i)

/-- In an ascending list the entries below `x` come first. -/
theorem getElem_lt_iff_lt_countP {K : Type} [LinearOrder K] {keys : List K}
    (sorted : keys.Pairwise (· ≤ ·)) (x : K) {i : ℕ} (inside : i < keys.length) :
    keys[i] < x ↔ i < keys.countP (· < x) := by
  have initial : keys.Pairwise fun key later => decide (later < x) → decide (key < x) :=
    sorted.imp fun ordered => by simpa using ordered.trans_lt
  rw [← getElem_iff_lt_countP initial inside, decide_eq_true_iff]

/-- A first value, and values that hold from a key on. -/
structure StepTable (K V : Type) where
  first : V
  steps : List (K × V)
  deriving DecidableEq, Repr

namespace StepTable

variable {K V : Type}

/-- The keys in the order of the table. -/
def keys (table : StepTable K V) : List K := table.steps.map Prod.fst

/-- The values in the order of the table. -/
def values (table : StepTable K V) : List V := table.first :: table.steps.map Prod.snd

/-- Values and keys in turn, as a table is written out. -/
def entries (table : StepTable K K) : List K :=
  table.first :: table.steps.flatMap fun step => [step.1, step.2]

@[simp] theorem length_keys (table : StepTable K V) : table.keys.length = table.steps.length :=
  List.length_map _

@[simp] theorem length_values (table : StepTable K V) :
    table.values.length = table.steps.length + 1 := by simp [values]

theorem length_entries (table : StepTable K K) :
    table.entries.length = 2 * table.steps.length + 1 := by
  simp [entries, List.length_flatMap, mul_comm]

theorem odd_length_entries (table : StepTable K K) : Odd table.entries.length :=
  ⟨_, table.length_entries⟩

theorem flatMap_pair_injective :
    Function.Injective fun steps : List (K × K) => steps.flatMap fun step => [step.1, step.2] := by
  intro steps others same
  induction steps generalizing others with
  | nil =>
    cases others with
    | nil => rfl
    | cons other others => cases same
  | cons step steps ih =>
    cases others with
    | nil => cases same
    | cons other others =>
      simp only [List.flatMap_cons, List.cons_append, List.nil_append, List.cons.injEq] at same
      rw [ih same.2.2, Prod.ext same.1 same.2.1]

/-- A table can be read back from its entries. -/
theorem entries_injective : Function.Injective (entries : StepTable K K → List K) := by
  rintro ⟨first, steps⟩ ⟨other, others⟩ same
  obtain ⟨firsts, rest⟩ := List.cons.inj same
  exact congrArg₂ StepTable.mk firsts (flatMap_pair_injective rest)

variable [LinearOrder K]

/-- `y` is the value of the greatest key strictly below `x`, or the first value if
no key is below `x`. -/
def IsValueAt (table : StepTable K V) (x : K) (y : V) : Prop :=
  (∃ step ∈ table.steps, step.1 < x ∧
      (∀ other ∈ table.steps, other.1 < x → other.1 ≤ step.1) ∧ y = step.2) ∨
    (∀ step ∈ table.steps, ¬step.1 < x) ∧ y = table.first

/-- The same steps with their keys in ascending order. -/
def sort (table : StepTable K V) : StepTable K V :=
  ⟨table.first, table.steps.mergeSort fun step other => step.1 ≤ other.1⟩

theorem steps_sort_perm (table : StepTable K V) : table.sort.steps.Perm table.steps :=
  List.mergeSort_perm _ _

@[simp] theorem length_steps_sort (table : StepTable K V) :
    table.sort.steps.length = table.steps.length := table.steps_sort_perm.length_eq

theorem keys_sort_perm (table : StepTable K V) : table.sort.keys.Perm table.keys :=
  table.steps_sort_perm.map Prod.fst

theorem pairwise_keys_sort (table : StepTable K V) : table.sort.keys.Pairwise (· ≤ ·) := by
  have sorted : table.sort.steps.Pairwise fun step other => decide (step.1 ≤ other.1) :=
    List.pairwise_mergeSort
      (fun _ _ _ first second =>
        decide_eq_true ((of_decide_eq_true first).trans (of_decide_eq_true second)))
      (fun a b => by simpa using le_total a.1 b.1) table.steps
  exact List.pairwise_map.mpr (sorted.imp fun ordered => by simpa using ordered)

theorem pairwise_keys_sort_of_nodup {table : StepTable K V} (distinct : table.keys.Nodup) :
    table.sort.keys.Pairwise (· < ·) := by
  have different := table.keys_sort_perm.nodup_iff.mpr distinct
  exact (table.pairwise_keys_sort.and different).imp fun both => lt_of_le_of_ne both.1 both.2

/-- The order of the steps plays no role for the value. -/
theorem isValueAt_sort (table : StepTable K V) (x : K) (y : V) :
    table.sort.IsValueAt x y ↔ table.IsValueAt x y := by
  simp only [IsValueAt, table.steps_sort_perm.mem_iff]
  rfl

section Ascending

variable {table : StepTable K V} (ascending : table.keys.Pairwise (· < ·)) (x : K)
include ascending

theorem step_lt_iff {i : ℕ} (inside : i < table.steps.length) :
    table.steps[i].1 < x ↔ i < table.keys.countP (· < x) := by
  have listed : i < table.keys.length := by rwa [length_keys]
  have key : table.steps[i].1 = table.keys[i] := by simp [keys]
  rw [key, getElem_lt_iff_lt_countP (ascending.imp le_of_lt)]

/-- With ascending keys, the value at `x` is found by counting the keys below `x`. -/
theorem isValueAt_iff_getElem (y : V) :
    table.IsValueAt x y ↔ table.values[table.keys.countP (· < x)]? = some y := by
  have below {i : ℕ} (inside : i < table.steps.length) := step_lt_iff ascending x inside
  have most : table.keys.countP (· < x) ≤ table.steps.length := by
    simpa using (List.countP_le_length : table.keys.countP (· < x) ≤ table.keys.length)
  cases count : table.keys.countP (· < x) with
  | zero =>
    have none : ∀ step ∈ table.steps, ¬step.1 < x := by
      intro step member
      obtain ⟨i, inside, rfl⟩ := List.getElem_of_mem member
      rw [below inside, count]
      exact Nat.not_lt_zero i
    constructor
    · rintro (⟨step, member, less, -⟩ | ⟨-, rfl⟩)
      · exact absurd less (none step member)
      · rfl
    · intro same
      exact .inr ⟨none, (Option.some.inj same).symm⟩
  | succ j =>
    have inside : j < table.steps.length := by omega
    have less : table.steps[j].1 < x := (below inside).mpr (by omega)
    have found : table.values[j + 1]? = some table.steps[j].2 := by simp [values, inside]
    -- a key below `x` stands at `j` or before
    have before : ∀ {i} (listed : i < table.steps.length), table.steps[i].1 < x → i ≤ j := by
      intro i listed lower
      have := (below listed).mp lower
      omega
    have steps := List.pairwise_iff_getElem.mp (List.pairwise_map.mp ascending)
    rw [found]
    constructor
    · rintro (⟨step, member, lower, greatest, rfl⟩ | ⟨none, -⟩)
      · obtain ⟨i, listed, rfl⟩ := List.getElem_of_mem member
        have last : i = j := by
          by_contra other
          have earlier : i < j := lt_of_le_of_ne (before listed lower) other
          exact absurd (greatest _ (List.getElem_mem inside) less)
            (not_le_of_gt (steps i j listed inside earlier))
        subst last
        rfl
      · exact absurd less (none _ (List.getElem_mem inside))
    · intro same
      refine .inl ⟨_, List.getElem_mem inside, less, ?_, (Option.some.inj same).symm⟩
      intro other member lower
      obtain ⟨i, listed, rfl⟩ := List.getElem_of_mem member
      obtain rfl | earlier := Nat.eq_or_lt_of_le (before listed lower)
      · exact le_rfl
      · exact (steps i j listed inside earlier).le

/-- Every number of steps up to the length of the table is the number of keys below
some point. -/
theorem exists_countP_eq [NoMaxOrder K] [Nonempty K] {i : ℕ} (inside : i ≤ table.steps.length) :
    ∃ x, table.keys.countP (· < x) = i := by
  obtain rfl | inside := inside.eq_or_lt
  · obtain ⟨top, bound⟩ := (List.finite_toSet table.keys).bddAbove
    obtain ⟨x, above⟩ := exists_gt top
    refine ⟨x, ?_⟩
    rw [← length_keys, List.countP_eq_length]
    intro key member
    simpa using (bound member).trans_lt above
  · refine ⟨table.steps[i].1, ?_⟩
    have most := mt (step_lt_iff ascending table.steps[i].1 inside).mpr (lt_irrefl _)
    refine le_antisymm (not_lt.mp most) ?_
    by_contra fewer
    have earlier := not_le.mp fewer
    -- the step at the count would be below, and so counted
    have steps := List.pairwise_iff_getElem.mp (List.pairwise_map.mp ascending)
    have less := steps _ i (earlier.trans inside) inside earlier
    exact lt_irrefl _ ((step_lt_iff ascending _ (earlier.trans inside)).mp less)

end Ascending

/-- Counting the keys below `x` finds the value at every `x` exactly when sorting the
steps does not change the sequence of the values. -/
theorem forall_isValueAt_iff [NoMaxOrder K] [Nonempty K] {table : StepTable K V}
    (distinct : table.keys.Nodup) (other : V) :
    (∀ x, table.IsValueAt x (table.values.getD (table.keys.countP (· < x)) other)) ↔
      table.sort.values = table.values := by
  have ascending := pairwise_keys_sort_of_nodup distinct
  have same (x : K) :
      table.IsValueAt x (table.values.getD (table.keys.countP (· < x)) other) ↔
        table.sort.values[table.keys.countP (· < x)]? =
          table.values[table.keys.countP (· < x)]? := by
    have most : table.keys.countP (· < x) < table.values.length := by
      have := (List.countP_le_length : table.keys.countP (· < x) ≤ table.keys.length)
      simpa [Nat.lt_succ_iff] using this
    rw [← isValueAt_sort, isValueAt_iff_getElem ascending, table.keys_sort_perm.countP_eq,
      List.getElem?_eq_getElem most, List.getD_eq_getElem _ _ most]
  simp only [same]
  constructor
  · intro agree
    refine List.ext_getElem? fun i => ?_
    by_cases inside : i ≤ table.steps.length
    · obtain ⟨x, count⟩ := exists_countP_eq ascending (by simpa using inside)
      rw [table.keys_sort_perm.countP_eq] at count
      exact count ▸ agree x
    · rw [List.getElem?_eq_none (by simp; omega), List.getElem?_eq_none (by simp; omega)]
  · intro agree x
    rw [agree]

end StepTable

end CS
