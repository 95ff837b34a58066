/-
# Sinks of bytes

A sender offers bytes; the peer takes as many of the first ones as it has room for, or the call
fails. What arrives should be what was sent, and not depend on how much of it each call takes.

## Main results

* `ByteSink.inOrder_rooms`, `ByteSink.reliable_rooms` — a peer that takes some bytes at a time
-/
import Mathlib.Data.List.Basic

namespace CS

/-- A sink of bytes: a call takes some of the first bytes that it is offered, or fails. -/
structure ByteSink (σ : Type) where
  send : σ → (bytes : List UInt8) → Option {n : ℕ // n ≤ bytes.length} × σ

namespace ByteSink

variable {σ : Type} (sink : ByteSink σ) (arrived : σ → List UInt8)

/-- How many bytes a call takes. -/
def taken (s : σ) (bytes : List UInt8) : ℕ := ((sink.send s bytes).1.map Subtype.val).getD 0

/-- `arrived` are the bytes that the peer has: a call adds what it takes, and one that fails adds
nothing. -/
def InOrder : Prop :=
  ∀ s bytes, arrived (sink.send s bytes).2 = arrived s ++ bytes.take (sink.taken s bytes)

/-- No call fails, and one that is offered something takes something. -/
structure Reliable : Prop where
  inOrder : sink.InOrder arrived
  takes : ∀ s bytes, bytes ≠ [] → 0 < sink.taken s bytes

variable {sink arrived}

theorem taken_eq {s s' : σ} {bytes : List UInt8} {n : {n : ℕ // n ≤ bytes.length}}
    (call : sink.send s bytes = (some n, s')) : sink.taken s bytes = n := by
  rw [taken, call]
  rfl

theorem InOrder.of_eq_some (inOrder : sink.InOrder arrived) {s s' : σ} {bytes : List UInt8}
    {n : {n : ℕ // n ≤ bytes.length}} (call : sink.send s bytes = (some n, s')) :
    arrived s' = arrived s ++ bytes.take n := by
  have order := inOrder s bytes
  rwa [taken_eq call, call] at order

theorem InOrder.of_eq_none (inOrder : sink.InOrder arrived) {s s' : σ} {bytes : List UInt8}
    (call : sink.send s bytes = (none, s')) : arrived s' = arrived s := by
  have order := inOrder s bytes
  rw [taken, call] at order
  simpa using order

/-- A peer that has room for some bytes in each call, at least one. -/
def rooms : ByteSink (List UInt8 × List ℕ) where
  send s bytes :=
    match s with
    | (arrived, []) => (some ⟨bytes.length, Nat.le_refl _⟩, (arrived ++ bytes, []))
    | (arrived, room :: later) =>
      (some ⟨min (room + 1) bytes.length, Nat.min_le_right ..⟩,
        (arrived ++ bytes.take (room + 1), later))

theorem inOrder_rooms : rooms.InOrder Prod.fst := by
  rintro ⟨arrived, _ | ⟨room, later⟩⟩ bytes
  · simp [rooms, taken]
  · simp [rooms, taken, List.take_eq_take_iff]

/-- However little room there is, something is taken. -/
theorem reliable_rooms : rooms.Reliable Prod.fst where
  inOrder := inOrder_rooms
  takes s bytes more := by
    have length := List.length_pos_iff.mpr more
    obtain ⟨arrived, _ | ⟨room, later⟩⟩ := s
    · exact length
    · exact Nat.lt_min.mpr ⟨Nat.succ_pos room, length⟩

end ByteSink

end CS
