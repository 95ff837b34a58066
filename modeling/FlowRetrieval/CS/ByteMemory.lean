/-
# Bounded byte memories and loops that write them

A block of bytes is read and written at natural addresses. A store outside the
block is lost and a load outside it returns zero, so that no value of the model
depends on memory the block does not own.

The loops are sweeps: one store at each address of an interval, each value
computed from the memory as the loop has left it so far. A sweep whose value at
step `k` does not depend on the addresses already written computes every value
from the initial memory. Two sweeps that read only addresses on which their
memories agree leave memories that agree on the swept interval as well.
-/
import Mathlib.Data.Set.Function
import Mathlib.Order.Interval.Set.Basic
import Mathlib.Tactic.Push

namespace CS

/-- A block of `capacity` bytes. -/
def ByteMemory (capacity : ℕ) := Fin capacity → UInt8

namespace ByteMemory

variable {capacity : ℕ}

def load (memory : ByteMemory capacity) (address : ℕ) : UInt8 :=
  if inside : address < capacity then memory ⟨address, inside⟩ else 0

def store (memory : ByteMemory capacity) (address : ℕ) (value : UInt8) :
    ByteMemory capacity :=
  fun i => if i.val = address then value else memory i

theorem load_of_ge (memory : ByteMemory capacity) {address : ℕ} (outside : capacity ≤ address) :
    memory.load address = 0 := dif_neg (not_lt.mpr outside)

@[simp]
theorem load_store_self (memory : ByteMemory capacity) {address : ℕ} (value : UInt8)
    (inside : address < capacity) : (memory.store address value).load address = value := by
  simp [load, store, inside]

theorem load_store_of_ne (memory : ByteMemory capacity) {address other : ℕ} (value : UInt8)
    (different : other ≠ address) :
    (memory.store address value).load other = memory.load other := by
  simp [load, store, different]

/-- Store `write memory k` at `start + k` for each `k < count`, in order, where
`memory` is the block as the earlier stores left it. -/
def sweep (write : ByteMemory capacity → ℕ → UInt8) (start : ℕ) :
    ℕ → ByteMemory capacity → ByteMemory capacity
  | 0, memory => memory
  | count + 1, memory =>
    let swept := sweep write start count memory
    swept.store (start + count) (write swept count)

/-- Store one value at `count` addresses from `start` on. -/
def fill (value : UInt8) (start count : ℕ) (memory : ByteMemory capacity) :
    ByteMemory capacity :=
  sweep (fun _ _ => value) start count memory

section Sweep

variable (write : ByteMemory capacity → ℕ → UInt8) (start : ℕ)

/-- A sweep changes no address outside its interval. -/
theorem load_sweep_of_notMem (count : ℕ) (memory : ByteMemory capacity) {address : ℕ}
    (outside : address ∉ Set.Ico start (start + count)) :
    (sweep write start count memory).load address = memory.load address := by
  induction count with
  | zero => rfl
  | succ count ih =>
    rw [Set.mem_Ico] at outside ih
    rw [sweep, load_store_of_ne _ _ (by omega)]
    exact ih (by omega)

/-- When step `k` reads none of the addresses written before it, the sweep
stores the values computed from the initial memory. -/
theorem load_sweep (count : ℕ) (memory : ByteMemory capacity)
    (reads : ∀ k < count, ∀ other : ByteMemory capacity,
      (∀ address, address ∉ Set.Ico start (start + k) → other.load address = memory.load address) →
        write other k = write memory k)
    {k : ℕ} (inside : k < count) (fits : start + k < capacity) :
    (sweep write start count memory).load (start + k) = write memory k := by
  induction count with
  | zero => exact absurd inside (Nat.not_lt_zero k)
  | succ count ih =>
    rw [sweep]
    -- the last step stores at `start + count`, so an earlier step keeps its value
    rcases Nat.lt_succ_iff_lt_or_eq.mp inside with earlier | rfl
    · rw [load_store_of_ne _ _ (by omega)]
      exact ih (fun j hj => reads j (by omega)) earlier
    · rw [load_store_self _ _ fits]
      exact reads k (Nat.lt_succ_self k) _ fun _ => load_sweep_of_notMem write start k memory

/-- Sweeps that compute equal values from memories agreeing on `region` agree
on the swept interval afterwards, and keep agreeing on `region`. -/
theorem eqOn_sweep {other : ByteMemory capacity → ℕ → UInt8} {region : Set ℕ}
    {first second : ByteMemory capacity} (count : ℕ)
    (same : ∀ k < count, ∀ m₁ m₂ : ByteMemory capacity,
      Set.EqOn m₁.load m₂.load region → write m₁ k = other m₂ k)
    (agree : Set.EqOn first.load second.load region) :
    Set.EqOn (sweep write start count first).load (sweep other start count second).load
      (region ∪ Set.Ico start (start + count)) := by
  induction count with
  | zero => simpa [sweep] using agree
  | succ count ih =>
    have earlier := ih fun k hk => same k (by omega)
    have value := same count (Nat.lt_succ_self count) _ _ (earlier.mono Set.subset_union_left)
    intro address member
    rw [sweep, sweep, value]
    -- only the address of the last step changes, and both sweeps store the same value there
    by_cases last : address = start + count
    · subst last
      by_cases inside : start + count < capacity
      · rw [load_store_self _ _ inside, load_store_self _ _ inside]
      -- behind the block both loads return zero
      · rw [load_of_ge _ (not_lt.mp inside), load_of_ge _ (not_lt.mp inside)]
    · rw [load_store_of_ne _ _ last, load_store_of_ne _ _ last]
      apply earlier
      rcases member with old | new
      · exact Or.inl old
      · rw [Set.mem_Ico] at new
        exact Or.inr (Set.mem_Ico.mpr (by omega))

end Sweep

theorem load_fill (value : UInt8) {start count : ℕ} (memory : ByteMemory capacity) {k : ℕ}
    (inside : k < count) (fits : start + k < capacity) :
    (fill value start count memory).load (start + k) = value :=
  load_sweep _ start count memory (fun _ _ _ _ => rfl) inside fits

theorem eqOn_fill (value : UInt8) (start count : ℕ) (first second : ByteMemory capacity) :
    Set.EqOn (fill value start count first).load (fill value start count second).load
      (Set.Ico start (start + count)) := by
  have agree : Set.EqOn (fill value start count first).load (fill value start count second).load
      (∅ ∪ Set.Ico start (start + count)) :=
    eqOn_sweep _ start count (fun _ _ _ _ _ => rfl) (Set.eqOn_empty _ _)
  rwa [Set.empty_union] at agree

end ByteMemory

end CS
