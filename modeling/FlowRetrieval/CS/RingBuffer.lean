/-
# Ring buffers

A ring of `n` slots has two running counters, one for the elements put in and one for those
taken out; a counter finds its slot modulo `n`, and both may be lowered by `n` at any time. As
long as no more than `n` elements are put in ahead of those taken out, the ring is a queue.

## Main results

* `RingBuffer.contents_push`, `contents_pop` — the operations of a queue
* `RingBuffer.contents_rewind` — lowering the counters changes nothing
-/
import Mathlib.Data.List.Basic
import Mathlib.Data.Nat.ModEq
import Mathlib.Logic.Function.Basic

namespace CS

/-- The slots and the counters of what was put in and taken out. -/
structure RingBuffer (n : ℕ) (α : Type*) where
  slots : Fin n → α
  head : ℕ
  tail : ℕ

namespace RingBuffer

variable {n : ℕ} {α : Type*}

/-- Take the oldest element out. -/
def pop (ring : RingBuffer n α) : RingBuffer n α := { ring with tail := ring.tail + 1 }

/-- Lower both counters. -/
def rewind (ring : RingBuffer n α) : RingBuffer n α :=
  { ring with head := ring.head - n, tail := ring.tail - n }

/-- No more is taken out than was put in, and there is a slot for each element in between. -/
structure WellFormed (ring : RingBuffer n α) : Prop where
  ordered : ring.tail ≤ ring.head
  bounded : ring.head ≤ ring.tail + n

variable {ring : RingBuffer n α}

theorem WellFormed.pop (wellFormed : ring.WellFormed) (nonempty : ring.tail < ring.head) :
    ring.pop.WellFormed :=
  ⟨nonempty, Nat.le_trans wellFormed.bounded (Nat.add_le_add_right (Nat.le_succ _) n)⟩

theorem WellFormed.rewind (wellFormed : ring.WellFormed) (high : n ≤ ring.tail) :
    ring.rewind.WellFormed := by
  have bounded := wellFormed.bounded
  refine ⟨Nat.sub_le_sub_right wellFormed.ordered n, ?_⟩
  change ring.head - n ≤ ring.tail - n + n
  omega

variable [NeZero n]

/-- The element that a counter points at. -/
def get (ring : RingBuffer n α) (counter : ℕ) : α := ring.slots (Fin.ofNat n counter)

/-- Put an element in. -/
def push (ring : RingBuffer n α) (a : α) : RingBuffer n α :=
  { ring with slots := Function.update ring.slots (Fin.ofNat n ring.head) a, head := ring.head + 1 }

/-- The elements in the ring, the oldest one first. -/
def contents (ring : RingBuffer n α) : List α :=
  (List.range (ring.head - ring.tail)).map fun k => ring.get (ring.tail + k)

@[simp]
theorem length_contents (ring : RingBuffer n α) :
    ring.contents.length = ring.head - ring.tail := by
  rw [contents, List.length_map, List.length_range]

theorem contents_eq_nil_iff (ring : RingBuffer n α) :
    ring.contents = [] ↔ ring.head ≤ ring.tail := by
  rw [← List.length_eq_zero_iff, length_contents, Nat.sub_eq_zero_iff_le]

theorem get_push_self (ring : RingBuffer n α) (a : α) : (ring.push a).get ring.head = a :=
  Function.update_self ..

/-- Counters less than `n` apart have slots of their own. -/
theorem get_push_of_lt (a : α) {counter : ℕ} (before : counter < ring.head)
    (near : ring.head < counter + n) : (ring.push a).get counter = ring.get counter := by
  refine Function.update_of_ne (fun same => ?_) _ _
  have residues : counter % n = ring.head % n := congrArg Fin.val same
  have multiple : n ∣ ring.head - counter := (Nat.modEq_iff_dvd' before.le).mp residues
  exact absurd (Nat.le_of_dvd (Nat.sub_pos_of_lt before) multiple) (by omega)

theorem contents_push (wellFormed : ring.WellFormed) (room : ring.head < ring.tail + n) (a : α) :
    (ring.push a).contents = ring.contents ++ [a] := by
  have ordered := wellFormed.ordered
  have more : (ring.push a).head - (ring.push a).tail = (ring.head - ring.tail) + 1 := by
    change ring.head + 1 - ring.tail = _
    omega
  rw [contents, more, List.range_succ, List.map_append, List.map_singleton]
  congr 1
  · refine List.map_congr_left fun k inside => ?_
    rw [List.mem_range] at inside
    exact get_push_of_lt a (by change ring.tail + k < _; omega)
      (by change _ < ring.tail + k + n; omega)
  · have last : (ring.push a).tail + (ring.head - ring.tail) = ring.head := by
      change ring.tail + _ = _
      omega
    rw [last, get_push_self]

theorem contents_pop (nonempty : ring.tail < ring.head) :
    ring.contents = ring.get ring.tail :: ring.pop.contents := by
  obtain ⟨rest, count⟩ := Nat.exists_eq_add_of_lt nonempty
  have all : ring.head - ring.tail = rest + 1 := by omega
  have behind : ring.pop.head - ring.pop.tail = rest := by
    change ring.head - (ring.tail + 1) = _
    omega
  rw [contents, all, List.range_succ_eq_map, List.map_cons, List.map_map, contents, behind]
  refine congrArg₂ List.cons rfl (List.map_congr_left fun k _ => ?_)
  change ring.get (ring.tail + (k + 1)) = ring.get (ring.tail + 1 + k)
  rw [Nat.add_comm k 1, Nat.add_assoc]

theorem contents_rewind (high : n ≤ ring.tail) (ordered : ring.tail ≤ ring.head) :
    ring.rewind.contents = ring.contents := by
  have count : ring.rewind.head - ring.rewind.tail = ring.head - ring.tail := by
    change (ring.head - n) - (ring.tail - n) = _
    omega
  rw [contents, contents, count]
  refine List.map_congr_left fun k _ => congrArg ring.slots (Fin.ext ?_)
  obtain ⟨low, tail⟩ := Nat.exists_eq_add_of_le high
  change (ring.tail - n + k) % n = (ring.tail + k) % n
  rw [tail, Nat.add_sub_cancel_left, Nat.add_assoc, Nat.add_mod_left]

theorem WellFormed.push (wellFormed : ring.WellFormed) (room : ring.head < ring.tail + n) (a : α) :
    (ring.push a).WellFormed :=
  ⟨Nat.le_succ_of_le wellFormed.ordered, room⟩

end RingBuffer

end CS
