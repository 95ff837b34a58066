/-
# Texts in a byte memory

A loop that rewrites a text writes byte after byte. What it has written so far stands in one
interval, and the rest of the memory is as it was; so it may rewrite a text in place as long as it
does not write ahead of where it reads.

## Main results

* `ByteMemory.Written.cons` — one more byte in front of what is written
* `ByteMemory.string_eq_cons`, `ByteMemory.string_ofList` — a zero-terminated text
-/
import FlowRetrieval.CS.ByteMemory
import Mathlib.Data.List.TakeWhile

namespace CS.ByteMemory

variable {capacity : ℕ} {memory other : ByteMemory capacity} {start : ℕ} {c : UInt8}

/-- The bytes at `count` addresses from `start` on. -/
def read (memory : ByteMemory capacity) (start : ℕ) : ℕ → List UInt8
  | 0 => []
  | count + 1 => memory.load start :: memory.read (start + 1) count

/-- The zero-terminated text at `start`; the memory ends with a zero. -/
def string (memory : ByteMemory capacity) (start : ℕ) : List UInt8 :=
  (memory.read start (capacity - start)).takeWhile fun c => c ≠ 0

@[simp]
theorem length_read (memory : ByteMemory capacity) (start count : ℕ) :
    (memory.read start count).length = count := by
  induction count generalizing start with
  | zero => rfl
  | succ count ih => rw [read, List.length_cons, ih]

theorem read_add (memory : ByteMemory capacity) (start first second : ℕ) :
    memory.read start (first + second) =
      memory.read start first ++ memory.read (start + first) second := by
  induction first generalizing start with
  | zero => rw [Nat.zero_add, read, List.nil_append, Nat.add_zero]
  | succ first ih =>
    rw [Nat.add_right_comm, read, ih, read, List.cons_append, Nat.add_assoc start,
      Nat.add_comm 1 first]

theorem drop_read (memory : ByteMemory capacity) (start count k : ℕ) :
    (memory.read start count).drop k = memory.read (start + k) (count - k) := by
  induction k generalizing start count with
  | zero => rfl
  | succ k ih =>
    cases count with
    | zero => simp [read]
    | succ count =>
      rw [read, List.drop_succ_cons, ih, Nat.succ_sub_succ, Nat.add_assoc, Nat.add_comm 1 k]

theorem getD_read (memory : ByteMemory capacity) (start : ℕ) {count k : ℕ} (inside : k < count) :
    (memory.read start count).getD k 0 = memory.load (start + k) := by
  induction k generalizing start count with
  | zero =>
    obtain ⟨count, rfl⟩ := Nat.exists_eq_succ_of_ne_zero inside.ne'
    rfl
  | succ k ih =>
    obtain ⟨count, rfl⟩ := Nat.exists_eq_succ_of_ne_zero (Nat.ne_zero_of_lt inside)
    rw [read, List.getD_cons_succ, ih _ (Nat.lt_of_succ_lt_succ inside), Nat.add_assoc,
      Nat.add_comm 1 k]

theorem read_congr {count : ℕ}
    (same : ∀ address, start ≤ address → address < start + count →
      other.load address = memory.load address) :
    other.read start count = memory.read start count := by
  induction count generalizing start with
  | zero => rfl
  | succ count ih =>
    rw [read, read, same start le_rfl (by omega),
      ih fun address lower upper => same address (by omega) (by omega)]

section String

/-- A text ends at the first zero. -/
theorem string_eq_nil (zero : memory.load start = 0) : memory.string start = [] := by
  rw [string]
  cases capacity - start with
  | zero => rfl
  | succ count => rw [read, List.takeWhile_cons_of_neg (by simpa using zero)]

theorem lt_of_load_ne_zero (some : memory.load start ≠ 0) : start < capacity := by
  by_contra outside
  exact some (load_of_ge memory (Nat.not_lt.mp outside))

theorem string_eq_cons (some : memory.load start ≠ 0) :
    memory.string start = memory.load start :: memory.string (start + 1) := by
  have inside := lt_of_load_ne_zero some
  have count : capacity - start = capacity - (start + 1) + 1 := by omega
  rw [string, string, count, read, List.takeWhile_cons_of_pos (by simpa using some)]

theorem head?_string_eq_some_iff (nonzero : c ≠ 0) :
    (memory.string start).head? = some c ↔ memory.load start = c := by
  by_cases zero : memory.load start = 0
  · rw [string_eq_nil zero, zero]
    exact iff_of_false (Option.some_ne_none c).symm nonzero.symm
  · rw [string_eq_cons zero, List.head?_cons, Option.some_inj]

theorem zero_notMem_string (memory : ByteMemory capacity) (start : ℕ) :
    0 ∉ memory.string start := fun member => by
  simpa using List.mem_takeWhile_imp member

/-- Only addresses from `start` on matter. -/
theorem string_congr (same : ∀ address, start ≤ address →
    other.load address = memory.load address) : other.string start = memory.string start := by
  rw [string, string, read_congr fun address lower _ => same address lower]

/-- Bytes without a zero are the text in front of the zero behind them. -/
theorem string_of_read {count : ℕ} (plain : 0 ∉ memory.read start count)
    (zero : memory.load (start + count) = 0) :
    memory.string start = memory.read start count := by
  induction count generalizing start with
  | zero => exact string_eq_nil zero
  | succ count ih =>
    rw [read, List.mem_cons, not_or] at plain
    rw [string_eq_cons (Ne.symm plain.1), read,
      ih plain.2 (by rwa [Nat.add_assoc, Nat.add_comm 1 count])]

/-- The first bytes of a text are there, and the text behind them. -/
theorem read_of_string_eq {before behind : List UInt8}
    (text : memory.string start = before ++ behind) :
    memory.read start before.length = before ∧
      memory.string (start + before.length) = behind := by
  induction before generalizing start with
  | nil => exact ⟨rfl, text⟩
  | cons c before ih =>
    have some : memory.load start ≠ 0 := fun zero => by
      rw [string_eq_nil zero] at text
      cases text
    rw [string_eq_cons some] at text
    obtain ⟨first, later⟩ := List.cons.inj text
    rw [List.length_cons, read, first, Nat.add_comm before.length 1, ← Nat.add_assoc]
    exact ⟨congrArg (List.cons c) (ih later).1, (ih later).2⟩

theorem read_length_string (memory : ByteMemory capacity) (start : ℕ) :
    memory.read start (memory.string start).length = memory.string start :=
  (read_of_string_eq (List.append_nil _).symm).1

/-- A memory that begins with a list of bytes; the others are zero. -/
def ofList (bytes : List UInt8) : ByteMemory capacity := fun i => bytes.getD i 0

theorem load_ofList (bytes : List UInt8) {address : ℕ} (inside : address < capacity) :
    (ofList bytes : ByteMemory capacity).load address = bytes.getD address 0 :=
  dif_pos inside

/-- A text in front of a zero is the text there. -/
theorem string_ofList {before text after : List UInt8} (plain : 0 ∉ text)
    (fits : before.length + text.length < capacity) :
    (ofList (before ++ text ++ 0 :: after) : ByteMemory capacity).string before.length = text := by
  induction text generalizing before with
  | nil =>
    rw [List.append_nil]
    apply string_eq_nil
    rw [load_ofList _ (by simpa using fits)]
    simp
  | cons c text ih =>
    rw [List.mem_cons, not_or] at plain
    rw [List.length_cons] at fits
    have here : (ofList (before ++ c :: text ++ 0 :: after) : ByteMemory capacity).load
        before.length = c := by
      rw [load_ofList _ (by omega)]
      simp
    have longer : (before ++ [c]).length = before.length + 1 := List.length_append ..
    have later : (ofList (before ++ [c] ++ text ++ 0 :: after) : ByteMemory capacity).string
        (before ++ [c]).length = text := ih plain.2 (by omega)
    rw [longer, List.append_assoc before, List.singleton_append] at later
    rw [string_eq_cons (by rw [here]; exact Ne.symm plain.1), here, later]

end String

section Written

/-- One memory is another one with `bytes` written from `start` on. -/
structure Written (memory : ByteMemory capacity) (start : ℕ) (bytes : List UInt8)
    (other : ByteMemory capacity) : Prop where
  inside : other.read start bytes.length = bytes
  outside : ∀ address, address < start ∨ start + bytes.length ≤ address →
    other.load address = memory.load address

theorem Written.nil (memory : ByteMemory capacity) (start : ℕ) : Written memory start [] memory :=
  ⟨rfl, fun _ _ => rfl⟩

/-- A byte is written, and then the ones behind it. -/
theorem Written.cons {bytes : List UInt8} (fits : start < capacity)
    (written : Written (memory.store start c) (start + 1) bytes other) :
    Written memory start (c :: bytes) other where
  inside := by
    rw [List.length_cons, read, written.inside, written.outside start (Or.inl (Nat.lt_succ_self _)),
      load_store_self _ _ fits]
  outside address apart := by
    rw [List.length_cons] at apart
    rw [written.outside address (by omega), load_store_of_ne _ _ (by omega)]

/-- What is written, and a byte behind it. -/
theorem Written.concat {bytes : List UInt8} (written : Written memory start bytes other)
    (fits : start + bytes.length < capacity) :
    Written memory start (bytes ++ [c]) (other.store (start + bytes.length) c) where
  inside := by
    have before : (other.store (start + bytes.length) c).read start bytes.length =
        other.read start bytes.length :=
      read_congr fun address lower upper => load_store_of_ne _ _ upper.ne
    rw [List.length_append, List.length_singleton, read_add, before, written.inside, read, read,
      load_store_self _ _ fits]
  outside address apart := by
    rw [List.length_append, List.length_singleton] at apart
    rw [load_store_of_ne _ _ (by omega), written.outside address (by omega)]

/-- What is written as a text is read as one. -/
theorem Written.string {bytes : List UInt8} (written : Written memory start (bytes ++ [0]) other)
    (fits : start + bytes.length < capacity) :
    other.string start = bytes.takeWhile fun c => c ≠ 0 := by
  have inside := written.inside
  have split : capacity - start =
      (bytes ++ [0]).length + (capacity - start - (bytes ++ [0]).length) := by
    rw [List.length_append, List.length_singleton]
    omega
  rw [ByteMemory.string, split, read_add, inside, List.append_assoc, List.takeWhile_append]
  split_ifs with whole
  · rw [List.singleton_append, List.takeWhile_cons_of_neg (by simp), List.append_nil]
    exact ((List.takeWhile_prefix _).eq_of_length whole).symm
  · rfl

end Written

end CS.ByteMemory
