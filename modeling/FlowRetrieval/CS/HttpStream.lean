/-
# Streams of HTTP messages

A message is a start line, header fields, an empty line and a body whose length the field
`Content-Length` gives. A reader takes one message after the other from a stream of bytes;
it skips nothing between two messages.

## Main results

* `readMessage_append` — a head is followed by as many bytes of body as it announces
* `readMessage_eq_none` — no message begins with a byte other than `H`
-/
import Mathlib.Data.Nat.Digits.Lemmas
import Mathlib.Data.List.TakeDrop

namespace CS.HttpStream

section Decimal

/-- A number in decimal digits, as `%lu` prints it. -/
def decimal (n : ℕ) : List UInt8 :=
  if n = 0 then [48] else (Nat.digits 10 n).reverse.map fun d => UInt8.ofNat (48 + d)

/-- The number that decimal digits denote. -/
def value (text : List UInt8) : ℕ := text.foldl (fun n c => n * 10 + (c.toNat - 48)) 0

private theorem toNat_digit {d : ℕ} (small : d < 10) : (UInt8.ofNat (48 + d)).toNat = 48 + d :=
  UInt8.toNat_ofNat_of_lt' (show 48 + d < 2 ^ 8 by omega)

theorem value_decimal (n : ℕ) : value (decimal n) = n := by
  rw [decimal]
  split
  · rename_i zero
    rw [zero]
    rfl
  · have small : ∀ d ∈ Nat.digits 10 n, d < 10 := fun d => Nat.digits_lt_base (by norm_num)
    rw [value, List.foldl_map, List.foldl_reverse]
    conv_rhs => rw [← Nat.ofDigits_digits 10 n]
    generalize Nat.digits 10 n = digits at small
    -- the induction is over the digits, from the lowest one
    induction digits with
    | nil => rfl
    | cons d digits ih =>
      rw [List.forall_mem_cons] at small
      rw [List.foldr_cons, ih small.2, toNat_digit small.1, Nat.ofDigits_cons]
      omega

theorem notMem_decimal {c : UInt8} (other : c.toNat < 48) (n : ℕ) : c ∉ decimal n := by
  rw [decimal]
  split
  · rw [List.mem_singleton]
    rintro rfl
    exact absurd other (by decide)
  · rw [List.mem_map]
    rintro ⟨d, member, rfl⟩
    rw [List.mem_reverse] at member
    rw [toNat_digit (Nat.digits_lt_base (by norm_num) member)] at other
    omega

theorem length_decimal_le {n k : ℕ} (small : n < 10 ^ k) (positive : 0 < k) :
    (decimal n).length ≤ k := by
  rw [decimal]
  split
  · exact positive
  · rw [List.length_map, List.length_reverse]
    exact (Nat.digits_length_le_iff (by norm_num) n).mpr small

end Decimal

section Lines

/-- Carriage return and line feed. -/
def crlf : List UInt8 := [13, 10]

/-- The bytes before the first line end, and those behind it. -/
def readLine : List UInt8 → Option (List UInt8 × List UInt8)
  | [] => none
  | c :: rest =>
    if c = 13 ∧ rest.head? = some 10 then some ([], rest.tail)
    else (readLine rest).map fun (line, tail) => (c :: line, tail)

/-- Lines up to an empty one, of which there are at most `fuel`. -/
def readFields : ℕ → List UInt8 → Option (List (List UInt8) × List UInt8)
  | 0, _ => none
  | fuel + 1, stream =>
    (readLine stream).bind fun (line, rest) =>
      if line = [] then some ([], rest)
      else (readFields fuel rest).map fun (lines, tail) => (line :: lines, tail)

/-- Header fields as they stand on the wire, up to the empty line. -/
def fieldBytes (fields : List (List UInt8)) : List UInt8 :=
  (fields.flatMap fun field => field ++ crlf) ++ crlf

theorem readLine_append {line : List UInt8} (plain : 13 ∉ line) (rest : List UInt8) :
    readLine (line ++ (crlf ++ rest)) = some (line, rest) := by
  induction line with
  | nil => rfl
  | cons c line ih =>
    rw [List.mem_cons, not_or] at plain
    rw [List.cons_append, readLine, if_neg fun ends => plain.1 ends.1.symm,
      ih plain.2]
    rfl

theorem readFields_append {fields : List (List UInt8)}
    (plain : ∀ field ∈ fields, field ≠ [] ∧ 13 ∉ field) (tail : List UInt8) {fuel : ℕ}
    (enough : fields.length < fuel) :
    readFields fuel (fieldBytes fields ++ tail) = some (fields, tail) := by
  induction fields generalizing fuel with
  | nil =>
    obtain ⟨fuel, rfl⟩ := Nat.exists_eq_succ_of_ne_zero (Nat.ne_zero_of_lt enough)
    rfl
  | cons field fields ih =>
    obtain ⟨fuel, rfl⟩ := Nat.exists_eq_succ_of_ne_zero (Nat.ne_zero_of_lt enough)
    rw [List.forall_mem_cons] at plain
    have split : fieldBytes (field :: fields) ++ tail =
        field ++ (crlf ++ (fieldBytes fields ++ tail)) := by
      simp [fieldBytes]
    rw [split, readFields, readLine_append plain.1.2, Option.bind_some]
    dsimp only
    rw [if_neg plain.1.1, ih plain.2 (Nat.lt_of_succ_lt_succ enough), Option.map_some]

theorem length_fieldBytes (fields : List (List UInt8)) :
    fields.length < (fieldBytes fields).length := by
  induction fields with
  | nil => decide
  | cons field fields ih =>
    simp only [fieldBytes, List.flatMap_cons, List.length_append, crlf] at ih ⊢
    simp only [List.length_cons, List.length_nil] at ih ⊢
    omega

end Lines

section Message

/-- The first bytes of a start line, `HTTP/`. -/
def version : List UInt8 := [72, 84, 84, 80, 47]

/-- `Content-Length: ` -/
def lengthName : List UInt8 :=
  [67, 111, 110, 116, 101, 110, 116, 45, 76, 101, 110, 103, 116, 104, 58, 32]

/-- The length that a header field gives, if it is the one for it. -/
def contentLength (field : List UInt8) : Option ℕ :=
  if lengthName.isPrefixOf field then some (value (field.drop lengthName.length)) else none

theorem contentLength_append (n : ℕ) : contentLength (lengthName ++ decimal n) = some n := by
  have begins : lengthName.isPrefixOf (lengthName ++ decimal n) = true :=
    List.isPrefixOf_iff_prefix.mpr (List.prefix_append _ _)
  rw [contentLength, if_pos begins, List.drop_left, value_decimal]

/-- The body of the first message of a stream, and what is behind it. -/
def readMessage (stream : List UInt8) : Option (List UInt8 × List UInt8) := do
  let (start, rest) ← readLine stream
  if !version.isPrefixOf start then none
  else
    let (fields, rest) ← readFields rest.length rest
    let length ← fields.findSome? contentLength
    -- the body may be empty, but it may not be cut short
    if rest.length < length then none else some (rest.take length, rest.drop length)

/-- The bodies of that many messages, and what is behind them. -/
def readMessages : ℕ → List UInt8 → Option (List (List UInt8) × List UInt8)
  | 0, stream => some ([], stream)
  | count + 1, stream => do
    let (body, rest) ← readMessage stream
    let (bodies, rest) ← readMessages count rest
    return (body :: bodies, rest)

variable {start : List UInt8} {fields : List (List UInt8)} {length : ℕ}

theorem readMessage_append (begins : version.isPrefixOf start = true) (plain : 13 ∉ start)
    (plains : ∀ field ∈ fields, field ≠ [] ∧ 13 ∉ field)
    (given : fields.findSome? contentLength = some length) (tail : List UInt8) :
    readMessage (start ++ (crlf ++ (fieldBytes fields ++ tail))) =
      if tail.length < length then none else some (tail.take length, tail.drop length) := by
  have enough : fields.length < (fieldBytes fields ++ tail).length := by
    have := length_fieldBytes fields
    rw [List.length_append]
    omega
  have read := readFields_append plains tail enough
  simp only [readMessage, readLine_append plain, Option.bind_eq_bind, Option.bind_some, begins,
    Bool.not_true, Bool.false_eq_true, if_false, read, given]

/-- A message begins with `H`. -/
theorem readMessage_eq_none {c : UInt8} (other : c ≠ 72) (rest : List UInt8) :
    readMessage (c :: rest) = none := by
  rw [readMessage, Option.bind_eq_bind, Option.bind_eq_none_iff]
  rintro ⟨start, behind⟩ read
  have begins : version.isPrefixOf start = false := by
    rw [readLine] at read
    split at read
    · obtain ⟨rfl, -⟩ := Prod.mk.inj (Option.some.inj read)
      rfl
    · obtain ⟨⟨line, tail⟩, -, pair⟩ := Option.map_eq_some_iff.mp read
      obtain ⟨rfl, -⟩ := Prod.mk.inj pair
      simp [version, List.isPrefixOf, other.symm]
  simp [begins]

end Message

end CS.HttpStream
