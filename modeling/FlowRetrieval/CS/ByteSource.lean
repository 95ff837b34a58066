/-
# Sources of bytes

A peer sends a stream; a receiver asks for some number of bytes and gets as many of the next
ones as happen to be there. What a receiver does should depend on the stream, and not on the
pieces in which it arrives.

## Main results

* `ByteSource.inOrder_pieces`, `ByteSource.reliable_pieces` — a stream cut into any pieces
-/
import Mathlib.Data.List.Basic

namespace CS

/-- A source of bytes: a call hands over at most as many bytes as it is asked for, or fails. -/
structure ByteSource (σ : Type) where
  recv : σ → (len : ℕ) → Option {bytes : List UInt8 // bytes.length ≤ len} × σ

namespace ByteSource

variable {σ : Type} (source : ByteSource σ) (rest : σ → List UInt8)

/-- The bytes that a call hands over. -/
def received (s : σ) (len : ℕ) : List UInt8 := ((source.recv s len).1.map Subtype.val).getD []

/-- `rest` are the bytes that are still to come: calls hand them over in their order, and one
that fails loses nothing. -/
def InOrder : Prop := ∀ s len, rest s = source.received s len ++ rest (source.recv s len).2

/-- No call fails, and a call returns nothing only when nothing is to come. -/
structure Reliable : Prop where
  inOrder : source.InOrder rest
  works : ∀ s len, (source.recv s len).1.isSome
  eager : ∀ s len, 0 < len → source.received s len = [] → rest s = []

variable {source rest}

theorem received_eq {s s' : σ} {len : ℕ} {bytes : {bytes : List UInt8 // bytes.length ≤ len}}
    (call : source.recv s len = (some bytes, s')) : source.received s len = bytes := by
  rw [received, call]
  rfl

theorem InOrder.of_eq_some (inOrder : source.InOrder rest) {s s' : σ} {len : ℕ}
    {bytes : {bytes : List UInt8 // bytes.length ≤ len}}
    (call : source.recv s len = (some bytes, s')) : rest s = bytes ++ rest s' := by
  rw [inOrder s len, received_eq call, call]

theorem InOrder.of_eq_none (inOrder : source.InOrder rest) {s s' : σ} {len : ℕ}
    (call : source.recv s len = (none, s')) : rest s = rest s' := by
  rw [inOrder s len, received, call]
  rfl

theorem Reliable.not_eq_none (reliable : source.Reliable rest) {s s' : σ} {len : ℕ}
    (call : source.recv s len = (none, s')) : False := by
  have works := reliable.works s len
  rw [call] at works
  cases works

theorem Reliable.rest_eq_nil (reliable : source.Reliable rest) {s s' : σ} {len : ℕ}
    {bytes : {bytes : List UInt8 // bytes.length ≤ len}}
    (call : source.recv s len = (some bytes, s')) (asked : 0 < len) (nothing : bytes.1 = []) :
    rest s = [] ∧ rest s' = [] := by
  have before := reliable.eager s len asked (by rw [received_eq call, nothing])
  have order := reliable.inOrder.of_eq_some call
  rw [nothing, before, List.nil_append] at order
  exact ⟨before, order.symm⟩

/-- A call for bytes of a stream in pieces takes what it can of the first one that is not
empty. -/
def nextPiece (len : ℕ) :
    List (List UInt8) → Option {bytes : List UInt8 // bytes.length ≤ len} × List (List UInt8)
  | [] => (some ⟨[], Nat.zero_le _⟩, [])
  | [] :: later => nextPiece len later
  | (c :: piece) :: later =>
    (some ⟨(c :: piece).take len, List.length_take_le ..⟩, (c :: piece).drop len :: later)

/-- A stream that arrives in pieces. -/
def pieces : ByteSource (List (List UInt8)) := ⟨fun stream len => nextPiece len stream⟩

theorem inOrder_pieces : pieces.InOrder List.flatten := by
  intro stream len
  rw [received]
  change stream.flatten = ((nextPiece len stream).1.map Subtype.val).getD [] ++
    (nextPiece len stream).2.flatten
  fun_induction nextPiece len stream with
  | case1 => rfl
  | case2 later ih => exact ih
  | case3 c piece later =>
    rw [Option.map_some, Option.getD_some, List.flatten_cons, List.flatten_cons,
      ← List.append_assoc, List.take_append_drop]

/-- Whatever the pieces are, all of the stream is handed over. -/
theorem reliable_pieces : pieces.Reliable List.flatten where
  inOrder := inOrder_pieces
  works stream len := by
    change (nextPiece len stream).1.isSome
    fun_induction nextPiece len stream with
    | case1 => rfl
    | case2 later ih => exact ih
    | case3 => rfl
  eager stream len asked nothing := by
    rw [received] at nothing
    change ((nextPiece len stream).1.map Subtype.val).getD [] = [] at nothing
    fun_induction nextPiece len stream with
    | case1 => rfl
    | case2 later ih => exact ih nothing
    | case3 c piece later =>
      rw [Option.map_some, Option.getD_some, List.take_eq_nil_iff] at nothing
      rcases nothing with zero | none
      · omega
      · cases none

end ByteSource

end CS
