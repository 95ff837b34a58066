/-
# Files written at absolute positions

Writing at a position replaces the bytes there, extends the file where it ends
earlier, and fills a gap before the position with zeros. A block of bytes held at
a position survives every write to a disjoint interval, so a list of writes to
pairwise disjoint intervals leaves a file that holds each of them. Writes made one
after the other, each where the previous one ended, are pairwise disjoint.
-/
import Mathlib.Data.List.Basic

namespace CS.ByteFile

/-- Write `bytes` at position `start`. -/
def overwrite (file : List UInt8) (start : ℕ) (bytes : List UInt8) : List UInt8 :=
  file.take start ++ List.replicate (start - file.length) 0 ++ bytes ++
    file.drop (start + bytes.length)

/-- The file has `bytes` at position `start`. -/
def Holds (file : List UInt8) (start : ℕ) (bytes : List UInt8) : Prop :=
  ∀ i < bytes.length, file[start + i]? = bytes[i]?

theorem length_overwrite (file : List UInt8) (start : ℕ) (bytes : List UInt8) :
    (overwrite file start bytes).length = max file.length (start + bytes.length) := by
  simp only [overwrite, List.length_append, List.length_take, List.length_replicate,
    List.length_drop]
  omega

private theorem length_before (file : List UInt8) (start : ℕ) :
    (file.take start ++ List.replicate (start - file.length) 0).length = start := by
  simp only [List.length_append, List.length_take, List.length_replicate]
  omega

theorem holds_overwrite_self (file : List UInt8) (start : ℕ) (bytes : List UInt8) :
    Holds (overwrite file start bytes) start bytes := by
  intro i inside
  have before := length_before file start
  rw [overwrite, List.append_assoc, List.getElem?_append_right (by omega), before,
    Nat.add_sub_cancel_left, List.getElem?_append_left inside]

/-- Positions outside the written interval keep their byte. -/
theorem getElem?_overwrite_of_disjoint {file : List UInt8} {start i : ℕ} {bytes : List UInt8}
    (inside : i < file.length) (disjoint : i < start ∨ start + bytes.length ≤ i) :
    (overwrite file start bytes)[i]? = file[i]? := by
  have before := length_before file start
  -- the written file is the part before `start`, the bytes, and the part behind them
  rcases disjoint with left | right
  · rw [overwrite, List.append_assoc, List.getElem?_append_left (by omega),
      List.getElem?_append_left (by rw [List.length_take]; omega), List.getElem?_take_of_lt left]
  · rw [overwrite, List.getElem?_append_right (by rw [List.length_append, before]; omega),
      List.getElem?_drop]
    congr 1
    rw [List.length_append, before]
    omega

theorem Holds.overwrite {file : List UInt8} {start other : ℕ} {bytes more : List UInt8}
    (holds : Holds file start bytes)
    (disjoint : start + bytes.length ≤ other ∨ other + more.length ≤ start) :
    Holds (overwrite file other more) start bytes := by
  intro i inside
  -- a held byte is there, so the write does not fill a gap at its position
  have present : start + i < file.length := by
    by_contra outside
    have := holds i inside
    rw [List.getElem?_eq_none (Nat.not_lt.mp outside), List.getElem?_eq_getElem inside] at this
    cases this
  rw [getElem?_overwrite_of_disjoint present (by omega), holds i inside]

/-- Reading from the position on finds the held bytes first. -/
theorem Holds.drop_eq {file : List UInt8} {start : ℕ} {bytes : List UInt8}
    (holds : Holds file start bytes) :
    file.drop start = bytes ++ file.drop (start + bytes.length) := by
  apply List.ext_getElem?
  intro i
  rw [List.getElem?_drop]
  by_cases inside : i < bytes.length
  · rw [List.getElem?_append_left inside, holds i inside]
  · rw [List.getElem?_append_right (Nat.not_lt.mp inside), List.getElem?_drop]
    congr 1
    omega

theorem holds_append {before bytes behind : List UInt8} {start : ℕ}
    (length : before.length = start) : Holds (before ++ bytes ++ behind) start bytes := by
  intro i inside
  rw [← length, List.append_assoc, List.getElem?_append_right (Nat.le_add_right _ _),
    Nat.add_sub_cancel_left, List.getElem?_append_left inside]

theorem overwrite_start (file bytes : List UInt8) :
    overwrite file 0 bytes = bytes ++ file.drop bytes.length := by
  simp [overwrite]

/-- Writing over a part of a file replaces that part. -/
theorem overwrite_append {before bytes behind more : List UInt8} {start : ℕ}
    (length : before.length = start) (same : more.length = bytes.length) :
    overwrite (before ++ bytes ++ behind) start more = before ++ more ++ behind := by
  have room : start - (before ++ bytes ++ behind).length = 0 := by
    simp only [List.length_append]
    omega
  have tail : (before ++ bytes ++ behind).drop (start + more.length) = behind := by
    rw [same, ← length, ← List.length_append, List.drop_left]
  rw [overwrite, room, tail, ← length, List.append_assoc before bytes, List.take_left,
    List.replicate_zero, List.append_nil]

/-- A write of `bytes` at `start`. -/
structure Write where
  start : ℕ
  bytes : List UInt8

/-- The interval of a write. -/
def Write.Disjoint (first second : Write) : Prop :=
  first.start + first.bytes.length ≤ second.start ∨
    second.start + second.bytes.length ≤ first.start

/-- Perform a list of writes. -/
def replay (file : List UInt8) (writes : List Write) : List UInt8 :=
  writes.foldl (fun current write => overwrite current write.start write.bytes) file

theorem replay_append (file : List UInt8) (first second : List Write) :
    replay file (first ++ second) = replay (replay file first) second := List.foldl_append

theorem replay_three (file : List UInt8) (first second third : Write) :
    replay file [first, second, third] =
      overwrite (overwrite (overwrite file first.start first.bytes) second.start second.bytes)
        third.start third.bytes := rfl

theorem Holds.replay {file : List UInt8} {start : ℕ} {bytes : List UInt8} {writes : List Write}
    (holds : Holds file start bytes)
    (disjoint : ∀ write ∈ writes, Write.Disjoint ⟨start, bytes⟩ write) :
    Holds (replay file writes) start bytes := by
  induction writes generalizing file with
  | nil => exact holds
  | cons write writes ih =>
    exact ih (holds.overwrite (disjoint write List.mem_cons_self)) fun other member =>
      disjoint other (List.mem_cons_of_mem _ member)

/-- Pairwise disjoint writes all survive. -/
theorem holds_replay {file : List UInt8} {writes : List Write}
    (disjoint : writes.Pairwise Write.Disjoint) :
    ∀ write ∈ writes, Holds (replay file writes) write.start write.bytes := by
  induction writes generalizing file with
  | nil => simp
  | cons write writes ih =>
    rw [List.pairwise_cons] at disjoint
    intro other member
    rcases List.mem_cons.mp member with rfl | later
    -- the first write holds when it is made, and the later ones are disjoint from it
    · exact (holds_overwrite_self file other.start other.bytes).replay disjoint.1
    · exact ih disjoint.2 other later

section Consecutive

/-- Writes one after the other, from `start` up to `stop`. -/
def Consecutive (start : ℕ) : List Write → ℕ → Prop
  | [], stop => start = stop
  | write :: writes, stop =>
    write.start = start ∧ Consecutive (start + write.bytes.length) writes stop

variable {start middle stop : ℕ} {writes more : List Write}

theorem Consecutive.append (first : Consecutive start writes middle)
    (second : Consecutive middle more stop) : Consecutive start (writes ++ more) stop := by
  induction writes generalizing start with
  | nil =>
    obtain rfl : start = middle := first
    exact second
  | cons write writes ih => exact ⟨first.1, ih first.2⟩

theorem Consecutive.le (consecutive : Consecutive start writes stop) : start ≤ stop := by
  induction writes generalizing start with
  | nil => exact Nat.le_of_eq consecutive
  | cons write writes ih => exact Nat.le_trans (Nat.le_add_right _ _) (ih consecutive.2)

/-- Each of the writes lies between the two ends. -/
theorem Consecutive.within (consecutive : Consecutive start writes stop) :
    ∀ write ∈ writes, start ≤ write.start ∧ write.start + write.bytes.length ≤ stop := by
  induction writes generalizing start with
  | nil => simp
  | cons write writes ih =>
    intro other member
    rcases List.mem_cons.mp member with rfl | later
    · exact ⟨Nat.le_of_eq consecutive.1.symm, consecutive.1 ▸ consecutive.2.le⟩
    · obtain ⟨left, right⟩ := ih consecutive.2 other later
      exact ⟨Nat.le_trans (Nat.le_add_right _ _) left, right⟩

theorem Consecutive.pairwise_disjoint (consecutive : Consecutive start writes stop) :
    writes.Pairwise Write.Disjoint := by
  induction writes generalizing start with
  | nil => exact List.Pairwise.nil
  | cons write writes ih =>
    -- every later write starts where the first one ends, or behind
    refine List.pairwise_cons.mpr ⟨fun other member => .inl ?_, ih consecutive.2⟩
    rw [consecutive.1]
    exact (consecutive.2.within other member).1

/-- Writing at the end of a file extends it up to where the last write ends. -/
theorem Consecutive.length_replay {file : List UInt8}
    (consecutive : Consecutive file.length writes stop) :
    (replay file writes).length = stop := by
  induction writes generalizing file with
  | nil => exact consecutive
  | cons write writes ih =>
    -- the first write starts at the end of the file, which grows by its bytes
    apply ih
    rw [length_overwrite, consecutive.1, Nat.max_eq_right (Nat.le_add_right _ _)]
    exact consecutive.2

end Consecutive

/-- A write inside the file keeps its length. -/
theorem length_replay_of_inside {file : List UInt8} {writes : List Write}
    (inside : ∀ write ∈ writes, write.start + write.bytes.length ≤ file.length) :
    (replay file writes).length = file.length := by
  induction writes generalizing file with
  | nil => rfl
  | cons write writes ih =>
    have same : (overwrite file write.start write.bytes).length = file.length := by
      rw [length_overwrite, Nat.max_eq_left (inside write List.mem_cons_self)]
    rw [replay, List.foldl_cons, ← replay, ih, same]
    intro other member
    rw [same]
    exact inside other (List.mem_cons_of_mem _ member)

/-- A stream open for writing: the writes made so far, and the position of the
next one. -/
structure OutStream where
  writes : List Write
  position : ℕ

namespace OutStream

/-- A stream on an empty file. -/
def fresh : OutStream := ⟨[], 0⟩

/-- Write at the current position and advance. -/
def fwrite (out : OutStream) (bytes : List UInt8) : OutStream :=
  ⟨out.writes ++ [⟨out.position, bytes⟩], out.position + bytes.length⟩

/-- Move to an absolute position. -/
def fseek (out : OutStream) (position : ℕ) : OutStream := { out with position := position }

/-- The file the writes leave. -/
def contents (out : OutStream) : List UInt8 := replay [] out.writes

end OutStream

end CS.ByteFile
