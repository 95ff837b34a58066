/-
# Byte streams and self-delimiting encodings

A reader consumes a prefix of a byte stream and fails with a fault otherwise. An
encoding is self-delimiting for a reader when the reader, given the encoding
followed by any further bytes, returns the encoded value and leaves exactly those
bytes. Self-delimiting encodings concatenate, along binds and along counted loops.

Integers of a fixed width are encoded least significant byte first.
-/
import Mathlib.Data.List.Basic
import Mathlib.Tactic.Ring

namespace CS.ByteCodec

/-- A reader of a byte stream that may fail with a fault. -/
abbrev Reader (ε α : Type) := StateT (List UInt8) (Except ε) α

variable {ε α β : Type}

/-- Read exactly `count` bytes. -/
def block (fault : ε) (count : ℕ) : Reader ε (List UInt8) := fun bytes =>
  if count ≤ bytes.length then .ok (bytes.take count, bytes.drop count) else .error fault

/-- Read `count` bytes, or all that are left when there are fewer, but at least one. -/
def someBlock (fault : ε) (count : ℕ) : Reader ε (List UInt8) := fun bytes =>
  if (bytes.take count).length = 0 then .error fault
  else .ok (bytes.take count, bytes.drop count)

/-- Read `count` values one after the other. -/
def times (reader : Reader ε α) : ℕ → Reader ε (List α)
  | 0 => pure []
  | count + 1 => do
    let first ← reader
    let others ← times reader count
    return first :: others

/-- Read one value with each of the readers, one after the other. -/
def all : List (Reader ε α) → Reader ε (List α)
  | [] => pure []
  | reader :: readers => do
    let first ← reader
    let others ← all readers
    return first :: others

section Decodes

/-- `bytes` is a self-delimiting encoding of `value` for `reader`. -/
def Decodes (reader : Reader ε α) (bytes : List UInt8) (value : α) : Prop :=
  ∀ rest, reader.run (bytes ++ rest) = .ok (value, rest)

theorem Decodes.run {reader : Reader ε α} {bytes : List UInt8} {value : α}
    (decodes : Decodes reader bytes value) (rest : List UInt8) :
    reader.run (bytes ++ rest) = .ok (value, rest) := decodes rest

theorem decodes_pure (value : α) : Decodes (pure value : Reader ε α) [] value := fun _ => rfl

/-- Encodings of successive reads concatenate. -/
theorem Decodes.bind {reader : Reader ε α} {next : α → Reader ε β} {bytes more : List UInt8}
    {value : α} {result : β} (first : Decodes reader bytes value)
    (second : Decodes (next value) more result) :
    Decodes (reader >>= next) (bytes ++ more) result := by
  intro rest
  rw [StateT.run_bind, List.append_assoc, first.run]
  exact second.run rest

/-- A run of two readers is a run of each of them. -/
theorem run_bind_eq_ok {reader : Reader ε α} {next : α → Reader ε β} {bytes rest : List UInt8}
    {result : β} : (reader >>= next).run bytes = .ok (result, rest) ↔
      ∃ value middle, reader.run bytes = .ok (value, middle) ∧
        (next value).run middle = .ok (result, rest) := by
  rw [StateT.run_bind]
  cases reader.run bytes with
  | error fault => exact iff_of_false (by rintro ⟨⟩) (by rintro ⟨_, _, ⟨⟩, _⟩)
  | ok pair =>
    constructor
    · exact fun run => ⟨pair.1, pair.2, rfl, run⟩
    · rintro ⟨value, middle, same, run⟩
      obtain rfl := Except.ok.inj same
      exact run

/-- A fault of the first reader ends the whole. -/
theorem run_bind_error {reader : Reader ε α} (next : α → Reader ε β) {bytes : List UInt8}
    {fault : ε} (failed : reader.run bytes = .error fault) :
    (reader >>= next).run bytes = .error fault := by
  rw [StateT.run_bind, failed]
  rfl

/-- So does a fault of the next one on the bytes that are left. -/
theorem Decodes.run_bind_error {reader : Reader ε α} {next : α → Reader ε β}
    {bytes rest : List UInt8} {value : α} {fault : ε} (first : Decodes reader bytes value)
    (failed : (next value).run rest = .error fault) :
    (reader >>= next).run (bytes ++ rest) = .error fault := by
  rw [StateT.run_bind, first.run]
  exact failed

/-- A last step that reads nothing changes the value only. -/
theorem Decodes.bind_pure {reader : Reader ε α} {bytes : List UInt8} {value : α}
    (first : Decodes reader bytes value) (f : α → β) :
    Decodes (reader >>= fun x => pure (f x)) bytes (f value) := by
  have whole : Decodes (reader >>= fun x => pure (f x)) (bytes ++ []) (f value) :=
    first.bind (decodes_pure (f value))
  rwa [List.append_nil] at whole

theorem decodes_block (fault : ε) (bytes : List UInt8) :
    Decodes (block fault bytes.length) bytes bytes := by
  intro rest
  simp [StateT.run, block]

theorem decodes_someBlock (fault : ε) {bytes : List UInt8} (nonempty : bytes ≠ []) :
    Decodes (someBlock fault bytes.length) bytes bytes := by
  intro rest
  simp [StateT.run, someBlock, nonempty]

/-- Encodings of a list concatenate along a counted loop. -/
theorem decodes_times_map {γ : Type} {reader : Reader ε α} {encode : γ → List UInt8}
    {decoded : γ → α} {values : List γ}
    (each : ∀ value ∈ values, Decodes reader (encode value) (decoded value)) :
    Decodes (times reader values.length) (values.flatMap encode) (values.map decoded) := by
  induction values with
  | nil => exact decodes_pure []
  | cons value values ih =>
    rw [List.flatMap_cons]
    -- one value, then the loop over the others
    apply (each value List.mem_cons_self).bind
    exact (ih fun other member => each other (List.mem_cons_of_mem _ member)).bind_pure _

theorem decodes_times {reader : Reader ε α} {encode : α → List UInt8} {values : List α}
    (each : ∀ value ∈ values, Decodes reader (encode value) value) :
    Decodes (times reader values.length) (values.flatMap encode) values := by
  have loop := decodes_times_map each
  rwa [List.map_id'] at loop

/-- Encodings for different readers concatenate when the readers are called in their order. -/
theorem decodes_all {readers : List (Reader ε α)} {encode : α → List UInt8} {values : List α}
    (each : List.Forall₂ (fun reader value => Decodes reader (encode value) value)
      readers values) : Decodes (all readers) (values.flatMap encode) values := by
  induction each with
  | nil => exact decodes_pure []
  | cons first _ ih =>
    rw [List.flatMap_cons]
    exact first.bind (ih.bind_pure _)

end Decodes

/-- An encoding with values of one width takes this width for each value. -/
theorem length_flatMap_of_width {encode : α → List UInt8} {width : ℕ}
    (fixed : ∀ value, (encode value).length = width) (values : List α) :
    (values.flatMap encode).length = width * values.length := by
  simp [List.length_flatMap, fixed, Nat.mul_comm]

section Yields

/-- Every value `reader` returns satisfies `property`. -/
def Yields (reader : Reader ε α) (property : α → Prop) : Prop :=
  ∀ bytes value rest, reader.run bytes = .ok (value, rest) → property value

theorem yields_pure {property : α → Prop} {value : α} (holds : property value) :
    Yields (pure value : Reader ε α) property := by
  intro bytes result rest run
  obtain ⟨rfl, rfl⟩ := Prod.mk.inj (Except.ok.inj run)
  exact holds

theorem Yields.bind {reader : Reader ε α} {next : α → Reader ε β} {property : α → Prop}
    {goal : β → Prop} (first : Yields reader property)
    (second : ∀ value, property value → Yields (next value) goal) :
    Yields (reader >>= next) goal := by
  intro bytes result rest run
  rw [StateT.run_bind] at run
  -- a run of the whole is a run of the first reader and then one of the second
  cases step : reader.run bytes with
  | error fault => rw [step] at run; cases run
  | ok pair =>
    rw [step] at run
    exact second pair.1 (first bytes pair.1 pair.2 step) pair.2 result rest run

theorem yields_true (reader : Reader ε α) : Yields reader fun _ => True :=
  fun _ _ _ _ => trivial

theorem yields_times {reader : Reader ε α} {property : α → Prop}
    (each : Yields reader property) (count : ℕ) :
    Yields (times reader count) fun values =>
      values.length = count ∧ ∀ value ∈ values, property value := by
  induction count with
  | zero => exact yields_pure (by simp)
  | succ count ih =>
    refine each.bind fun value holds => ih.bind fun values rest => yields_pure ?_
    simp [rest.1, holds]
    exact rest.2

end Yields

section Truncated

/-- No run of `reader` on `bytes` returns a value. -/
def Fails (reader : Reader ε α) (bytes : List UInt8) : Prop :=
  ∀ value rest, reader.run bytes ≠ .ok (value, rest)

/-- On a proper prefix of `bytes`, `reader` fails, or uses it up and returns a value with
`property`. -/
def Cut (reader : Reader ε α) (bytes : List UInt8) (property : α → Prop) : Prop :=
  ∀ k < bytes.length, ∀ value rest, reader.run (bytes.take k) = .ok (value, rest) →
    rest = [] ∧ property value

/-- `reader` fails on every proper prefix of `bytes`. -/
abbrev Rejects (reader : Reader ε α) (bytes : List UInt8) : Prop :=
  Cut reader bytes fun _ => False

variable {reader : Reader ε α} {next : α → Reader ε β} {bytes more : List UInt8}
  {property : α → Prop} {goal : β → Prop} {value : α}

theorem Rejects.fails (rejects : Rejects reader bytes) {k : ℕ} (cut : k < bytes.length) :
    Fails reader (bytes.take k) := fun value rest run => (rejects k cut value rest run).2

/-- What is read of a truncated stream is what is read of the whole. -/
theorem Rejects.eq_of_run_take (rejects : Rejects reader bytes)
    (decodes : Decodes reader bytes value) {k : ℕ} {got : α} {rest : List UInt8}
    (run : reader.run ((bytes ++ more).take k) = .ok (got, rest)) : got = value := by
  rcases Nat.lt_or_ge k bytes.length with before | behind
  · rw [List.take_append_of_le_length before.le] at run
    exact (rejects.fails before got rest run).elim
  · rw [List.take_append, List.take_of_length_le behind, decodes.run] at run
    exact (Prod.mk.inj (Except.ok.inj run)).1.symm

theorem Fails.bind (fails : Fails reader bytes) : Fails (reader >>= next) bytes := by
  intro value rest run
  rw [StateT.run_bind] at run
  cases step : reader.run bytes with
  | error fault => rw [step] at run; cases run
  | ok pair => exact fails pair.1 pair.2 step

/-- A cut in the bytes of the first reader leaves none for the next one. -/
theorem Cut.bind (cut : Cut reader bytes property) (first : Decodes reader bytes value)
    (starved : ∀ value, property value → ∀ result rest,
      (next value).run [] = .ok (result, rest) → rest = [] ∧ goal result)
    (second : Cut (next value) more goal) : Cut (reader >>= next) (bytes ++ more) goal := by
  intro k inside result rest run
  rw [List.length_append] at inside
  rcases Nat.lt_or_ge k bytes.length with before | behind
  · rw [List.take_append_of_le_length before.le, StateT.run_bind] at run
    cases step : reader.run (bytes.take k) with
    | error fault => rw [step] at run; cases run
    | ok pair =>
      obtain ⟨nothing, holds⟩ := cut k before pair.1 pair.2 step
      rw [step] at run
      exact starved pair.1 holds result rest (nothing ▸ run)
  -- the first reader gets all its bytes, and the cut is in those of the next one
  · rw [List.take_append, List.take_of_length_le behind, StateT.run_bind, first.run] at run
    exact second (k - bytes.length) (by omega) result rest run

/-- A reader that rejects its prefixes passes the cut on to the next one. -/
theorem Rejects.bind (rejects : Rejects reader bytes) (first : Decodes reader bytes value)
    (second : Cut (next value) more goal) : Cut (reader >>= next) (bytes ++ more) goal :=
  Cut.bind rejects first (fun _ impossible => impossible.elim) second

/-- A last step that reads nothing keeps the cuts. -/
theorem Cut.bind_pure (cut : Cut reader bytes property) {f : α → β}
    (holds : ∀ value, property value → goal (f value)) :
    Cut (reader >>= fun x => pure (f x)) bytes goal := by
  intro k inside result rest run
  rw [StateT.run_bind] at run
  cases step : reader.run (bytes.take k) with
  | error fault => rw [step] at run; cases run
  | ok pair =>
    rw [step] at run
    obtain ⟨rfl, rfl⟩ := Prod.mk.inj (Except.ok.inj run)
    obtain ⟨nothing, has⟩ := cut k inside pair.1 pair.2 step
    exact ⟨nothing, holds pair.1 has⟩

theorem rejects_block (fault : ε) {count : ℕ} (le : bytes.length ≤ count) :
    Rejects (block fault count) bytes := by
  intro k inside value rest run
  have short : ¬ count ≤ (bytes.take k).length := by
    rw [List.length_take]
    omega
  rw [StateT.run, block, if_neg short] at run
  cases run

/-- A short block is accepted, and used up, unless it is empty. -/
theorem cut_someBlock (fault : ε) (bytes : List UInt8) :
    Cut (someBlock fault bytes.length) bytes fun _ => bytes ≠ [] := by
  intro k inside value rest run
  have some : bytes ≠ [] := List.ne_nil_of_length_pos (by omega)
  rw [StateT.run, someBlock] at run
  split at run
  · cases run
  · obtain ⟨-, rfl⟩ := Prod.mk.inj (Except.ok.inj run)
    refine ⟨List.drop_eq_nil_of_le ?_, some⟩
    exact List.length_take_le' _ _

/-- A counted loop over at least as many values rejects every prefix of their encodings. -/
theorem rejects_times {γ : Type} {encode : γ → List UInt8} {decoded : γ → α} {values : List γ}
    (each : ∀ value ∈ values, Decodes reader (encode value) (decoded value))
    (rejects : ∀ value ∈ values, Rejects reader (encode value)) {count : ℕ}
    (enough : values.length ≤ count) :
    Rejects (times reader count) (values.flatMap encode) := by
  induction values generalizing count with
  | nil => exact fun k inside => absurd inside (Nat.not_lt_zero k)
  | cons value values ih =>
    obtain ⟨count, rfl⟩ := Nat.exists_eq_add_of_le' (Nat.le_of_add_left_le enough)
    rw [List.flatMap_cons]
    -- the cut is in the first encoding or in the others
    apply (rejects value List.mem_cons_self).bind (each value List.mem_cons_self)
    exact (ih (fun other member => each other (List.mem_cons_of_mem _ member))
      (fun other member => rejects other (List.mem_cons_of_mem _ member))
      (Nat.le_of_add_le_add_right enough)).bind_pure fun _ impossible => impossible

/-- A counted loop fails where its body does. -/
theorem Fails.times (fails : Fails reader bytes) {count : ℕ} (some : 0 < count) :
    Fails (times reader count) bytes := by
  obtain ⟨count, rfl⟩ := Nat.exists_eq_add_of_lt some
  exact fails.bind

end Truncated

section LittleEndian

/-- The `width` low bytes of a natural, least significant first. -/
def littleEndian : ℕ → ℕ → List UInt8
  | 0, _ => []
  | width + 1, n => UInt8.ofNat n :: littleEndian width (n / 256)

/-- The natural with the given bytes, least significant first. -/
def ofLittleEndian : List UInt8 → ℕ
  | [] => 0
  | byte :: bytes => byte.toNat + 256 * ofLittleEndian bytes

@[simp] theorem length_littleEndian (width n : ℕ) : (littleEndian width n).length = width := by
  induction width generalizing n with
  | zero => rfl
  | succ width ih => rw [littleEndian, List.length_cons, ih]

theorem ofLittleEndian_littleEndian {width n : ℕ} (small : n < 256 ^ width) :
    ofLittleEndian (littleEndian width n) = n := by
  induction width generalizing n with
  | zero =>
    rw [pow_zero, Nat.lt_one_iff] at small
    rw [small]
    rfl
  | succ width ih =>
    rw [pow_succ] at small
    rw [littleEndian, ofLittleEndian, ih (by omega), UInt8.toNat_ofNat']
    omega

variable (fault : ε)

/-- The four bytes of a 32-bit word. -/
def u32Bytes (word : UInt32) : List UInt8 := littleEndian 4 word.toNat

/-- The two bytes of a 16-bit word. -/
def u16Bytes (word : UInt16) : List UInt8 := littleEndian 2 word.toNat

/-- The eight bytes of a 64-bit word. -/
def u64Bytes (word : UInt64) : List UInt8 := littleEndian 8 word.toNat

/-- The four bytes of a 32-bit integer in two's complement. -/
def i32Bytes (word : Int32) : List UInt8 := u32Bytes word.toUInt32

def readU8 : Reader ε UInt8 := do return (← block fault 1).headD 0

def readU16 : Reader ε UInt16 := do return UInt16.ofNat (ofLittleEndian (← block fault 2))

def readU32 : Reader ε UInt32 := do return UInt32.ofNat (ofLittleEndian (← block fault 4))

def readU64 : Reader ε UInt64 := do return UInt64.ofNat (ofLittleEndian (← block fault 8))

def readI32 : Reader ε Int32 := do return (← readU32 fault).toInt32

theorem rest_of_readU32 {bytes rest : List UInt8} {word : UInt32}
    (run : (readU32 fault).run bytes = .ok (word, rest)) : rest = bytes.drop 4 := by
  obtain ⟨got, middle, read, last⟩ := run_bind_eq_ok.mp run
  obtain ⟨-, rfl⟩ := Prod.mk.inj (Except.ok.inj last)
  rw [StateT.run, block] at read
  split at read
  · exact (Prod.mk.inj (Except.ok.inj read)).2.symm
  · cases read

@[simp] theorem length_u16Bytes (word : UInt16) : (u16Bytes word).length = 2 :=
  length_littleEndian _ _

@[simp] theorem length_u32Bytes (word : UInt32) : (u32Bytes word).length = 4 :=
  length_littleEndian _ _

@[simp] theorem length_u64Bytes (word : UInt64) : (u64Bytes word).length = 8 :=
  length_littleEndian _ _

@[simp] theorem length_i32Bytes (word : Int32) : (i32Bytes word).length = 4 :=
  length_littleEndian _ _

theorem decodes_readU8 (byte : UInt8) : Decodes (readU8 fault) [byte] byte :=
  (decodes_block fault [byte]).bind_pure _

/-- Reading the low bytes of a number below `256 ^ width` returns the number. -/
private theorem decodes_littleEndian (width : ℕ) {n : ℕ} (small : n < 256 ^ width) (f : ℕ → α) :
    Decodes (block fault width >>= fun bytes => pure (f (ofLittleEndian bytes)))
      (littleEndian width n) (f n) := by
  have read := (decodes_block fault (littleEndian width n)).bind_pure (f ∘ ofLittleEndian)
  simpa [ofLittleEndian_littleEndian small] using read

theorem decodes_readU16 (word : UInt16) : Decodes (readU16 fault) (u16Bytes word) word := by
  simpa [readU16, u16Bytes] using
    decodes_littleEndian fault 2 word.toNat_lt UInt16.ofNat

theorem decodes_readU32 (word : UInt32) : Decodes (readU32 fault) (u32Bytes word) word := by
  simpa [readU32, u32Bytes] using
    decodes_littleEndian fault 4 word.toNat_lt UInt32.ofNat

theorem decodes_readU64 (word : UInt64) : Decodes (readU64 fault) (u64Bytes word) word := by
  simpa [readU64, u64Bytes] using
    decodes_littleEndian fault 8 word.toNat_lt UInt64.ofNat

theorem decodes_readI32 (word : Int32) : Decodes (readI32 fault) (i32Bytes word) word := by
  simpa [readI32, i32Bytes] using (decodes_readU32 fault word.toUInt32).bind_pure UInt32.toInt32

theorem rejects_readU8 (byte : UInt8) : Rejects (readU8 fault) [byte] :=
  (rejects_block fault (Nat.le_refl 1)).bind_pure fun _ impossible => impossible

theorem rejects_readU32 (word : UInt32) : Rejects (readU32 fault) (u32Bytes word) :=
  (rejects_block fault (length_u32Bytes word).le).bind_pure fun _ impossible => impossible

theorem rejects_readU64 (word : UInt64) : Rejects (readU64 fault) (u64Bytes word) :=
  (rejects_block fault (length_u64Bytes word).le).bind_pure fun _ impossible => impossible

theorem rejects_readI32 (word : Int32) : Rejects (readI32 fault) (i32Bytes word) :=
  (rejects_readU32 fault word.toUInt32).bind_pure fun _ impossible => impossible

end LittleEndian

section Strings

variable (fault : ε)

/-- A byte string behind its length; only the 32 low bits of the length are
written, and as many bytes as they say. -/
def stringBytes (text : List UInt8) : List UInt8 :=
  u32Bytes (UInt32.ofNat text.length) ++ text.take (UInt32.ofNat text.length).toNat

/-- Read a length and then as many bytes, one at a time. -/
def readString : Reader ε (List UInt8) := do
  let size ← readU32 fault
  times (readU8 fault) size.toNat

private theorem toNat_length {text : List UInt8} (short : text.length < 2 ^ 32) :
    (UInt32.ofNat text.length).toNat = text.length := by
  rw [UInt32.toNat_ofNat', Nat.mod_eq_of_lt short]

/-- As many bytes are written as the length says. -/
theorem length_stringBytes_eq (text : List UInt8) :
    (stringBytes text).length = 4 + (UInt32.ofNat text.length).toNat := by
  have written : (UInt32.ofNat text.length).toNat ≤ text.length := by
    rw [UInt32.toNat_ofNat']
    exact Nat.mod_le _ _
  rw [stringBytes, List.length_append, length_u32Bytes, List.length_take, Nat.min_eq_left written]

theorem length_stringBytes {text : List UInt8} (short : text.length < 2 ^ 32) :
    (stringBytes text).length = 4 + text.length := by
  rw [length_stringBytes_eq, toNat_length short]

private theorem decodes_chars (text : List UInt8) :
    Decodes (times (readU8 fault) text.length) text text := by
  simpa using decodes_times fun byte (_ : byte ∈ text) => decodes_readU8 fault byte

private theorem length_written (text : List UInt8) :
    (text.take (UInt32.ofNat text.length).toNat).length = (UInt32.ofNat text.length).toNat := by
  rw [List.length_take, UInt32.toNat_ofNat', Nat.min_eq_left (Nat.mod_le _ _)]

/-- What is read is what has been written, a part of a string of `2 ^ 32` bytes or more. -/
theorem decodes_readString_take (text : List UInt8) :
    Decodes (readString fault) (stringBytes text)
      (text.take (UInt32.ofNat text.length).toNat) := by
  have chars := decodes_chars fault (text.take (UInt32.ofNat text.length).toNat)
  rw [length_written] at chars
  exact (decodes_readU32 fault _).bind chars

theorem decodes_readString {text : List UInt8} (short : text.length < 2 ^ 32) :
    Decodes (readString fault) (stringBytes text) text := by
  have read := decodes_readString_take fault text
  rwa [toNat_length short, List.take_length] at read

theorem rejects_readString (text : List UInt8) :
    Rejects (readString fault) (stringBytes text) := by
  have chars : Rejects (times (readU8 fault) (text.take (UInt32.ofNat text.length).toNat).length)
      ((text.take (UInt32.ofNat text.length).toNat).flatMap fun byte => [byte]) :=
    rejects_times (fun byte _ => decodes_readU8 fault byte)
      (fun byte _ => rejects_readU8 fault byte) le_rfl
  rw [length_written, List.flatMap_singleton'] at chars
  exact (rejects_readU32 fault _).bind (decodes_readU32 fault _) chars

/-- No string that is read has `2 ^ 32` bytes or more. -/
theorem yields_readString :
    Yields (readString fault) fun text => text.length < 2 ^ 32 := by
  refine (yields_true _).bind fun size _ => ?_
  intro bytes text rest run
  have count := (yields_times (yields_true (readU8 fault)) size.toNat bytes text rest run).1
  -- a string has as many bytes as its 32-bit length says
  rw [count]
  exact size.toNat_lt

end Strings

end CS.ByteCodec
