/-
# Byte memories with a record of their stores

A traced memory is a block of bytes with the list of the stores made to it, each with
the pointer it was made through. Forgetting the record of a traced loop gives the loop on
the block itself, and the record of a sweep is the swept interval.
-/
import FlowRetrieval.CS.ByteMemory

namespace CS

/-- A store at `address`, through a pointer to `base`. -/
structure Store where
  base : ℕ
  address : ℕ
  deriving DecidableEq, Repr

/-- A block of `capacity` bytes and the stores made to it. -/
structure TracedMemory (capacity : ℕ) where
  memory : ByteMemory capacity
  stores : List Store

namespace TracedMemory

variable {capacity : ℕ}

/-- A block no store was made to. -/
def start (memory : ByteMemory capacity) : TracedMemory capacity := ⟨memory, []⟩

/-- `ByteMemory.store`, at `offset` from a pointer. -/
def store (traced : TracedMemory capacity) (base offset : ℕ) (value : UInt8) :
    TracedMemory capacity :=
  ⟨traced.memory.store (base + offset) value, traced.stores ++ [⟨base, base + offset⟩]⟩

/-- `ByteMemory.sweep`, through a pointer to its first address. -/
def sweep (write : ByteMemory capacity → ℕ → UInt8) (base : ℕ) :
    ℕ → TracedMemory capacity → TracedMemory capacity
  | 0, traced => traced
  | count + 1, traced =>
    let swept := sweep write base count traced
    swept.store base count (write swept.memory count)

/-- `ByteMemory.fill`. -/
def fill (value : UInt8) (base count : ℕ) (traced : TracedMemory capacity) :
    TracedMemory capacity :=
  sweep (fun _ _ => value) base count traced

variable (write : ByteMemory capacity → ℕ → UInt8) (base : ℕ)

@[simp]
theorem memory_sweep (count : ℕ) (traced : TracedMemory capacity) :
    (sweep write base count traced).memory = traced.memory.sweep write base count := by
  induction count with
  | zero => rfl
  | succ count ih =>
    rw [sweep, ByteMemory.sweep, ← ih]
    rfl

/-- A sweep stores once at each address of its interval. -/
theorem stores_sweep (count : ℕ) (traced : TracedMemory capacity) :
    (sweep write base count traced).stores =
      traced.stores ++ (List.range count).map fun k => ⟨base, base + k⟩ := by
  induction count with
  | zero => simp [sweep]
  | succ count ih =>
    rw [sweep, store, ih, List.range_succ, List.map_append, List.append_assoc]
    rfl

theorem mem_stores_sweep {count : ℕ} {traced : TracedMemory capacity} {made : Store} :
    made ∈ (sweep write base count traced).stores ↔
      made ∈ traced.stores ∨ made.base = base ∧ made.address ∈ Set.Ico base (base + count) := by
  rw [stores_sweep, List.mem_append, List.mem_map]
  apply or_congr_right
  constructor
  · rintro ⟨k, inside, rfl⟩
    rw [List.mem_range] at inside
    exact ⟨rfl, Set.mem_Ico.mpr (by dsimp only; omega)⟩
  · rintro ⟨through, inside⟩
    rw [Set.mem_Ico] at inside
    refine ⟨made.address - base, List.mem_range.mpr (by omega), ?_⟩
    cases made
    simp only [Store.mk.injEq]
    exact ⟨through.symm, by dsimp only at inside; omega⟩

end TracedMemory

end CS
