/-
# Open index files

`Index::Load` opens a stream and closes it on no path. `Index::Dump` closes its stream at the
end, and not when the size of an offset table is a negative number. `UpdateIndex` calls `Load`
for every newer file, for as long as the service runs.

## Main results

* `Index.openStreams_load_iff` and `Index.openStreams_dump_iff` — when a call closes its stream
* `Process.openStreams_run` — the streams that a run of `UpdateIndex` leaves open
* `Process.closes_iff` — when the number of open streams stays the same
-/
import FlowRetrieval.Service.SharedMemory

namespace FlowRetrieval

namespace Index

/-- `Load` leaves a stream open whenever there is a file to open. -/
theorem openStreams_load (self : Index) (file : Option (List UInt8)) :
    (self.load file).openStreams = if file.isSome then 1 else 0 := by
  cases file with
  | none => rfl
  | some file =>
    rw [Option.isSome_some, if_pos rfl, load]
    dsimp only
    -- one goal for each return statement behind `fopen`
    repeat' split
    all_goals rfl

theorem openStreams_load_iff (self : Index) (file : Option (List UInt8)) :
    (self.load file).openStreams = 0 ↔ file = none := by
  rw [openStreams_load]
  cases file <;> simp

/-- The size that `DumpOffsetMap` counts for a table with these psids is no negative number. -/
def Countable (psids : List Str) : Prop := (4 + (psids.map entrySize).sum) % 2 ^ 64 < 2 ^ 63

theorem code_dumpOffsetMap_nonneg_iff {offsets : OffsetMap} {psids : List Str}
    (perm : offsets.keys.Perm psids) :
    ¬ (dumpOffsetMap offsets).code < 0 ↔ Countable psids := by
  have counted : (dumpOffsetMap offsets).code = Int64.ofNat (4 + (psids.map entrySize).sum) := by
    have entries := (offsets.ordered.perm.map Sigma.fst).trans perm
    have sizes : (offsets.ordered.entries.map fun entry =>
        4 + (UInt32.ofNat entry.1.length).toNat + 8) =
          (offsets.ordered.entries.map Sigma.fst).map entrySize := by
      rw [List.map_map]
      refine List.map_congr_left fun entry _ => ?_
      rw [Function.comp_apply, entrySize]
      omega
    rw [dumpOffsetMap, sizes, (entries.map entrySize).sum_nat]
  rw [counted, Int64.lt_iff_toInt_lt, Int64.toInt_ofNat', Int64.toInt_zero, Countable, Int64.size,
    Int.bmod_def]
  split <;> omega

theorem openStreams_dump_iff (index : Index) (order : index.DumpOrder) (canClear canWrite : Bool) :
    (index.dump order canClear canWrite).openStreams = 0 ↔
      index.uvMergeMap = none ∨ canClear = false ∨ canWrite = false ∨
        Countable (stored index.pvMap.entries) ∧ Countable (stored index.uvMap.entries) := by
  rw [← code_dumpOffsetMap_nonneg_iff (index.perm_keys_dumpPv order),
    ← code_dumpOffsetMap_nonneg_iff (index.perm_keys_dumpUv order)]
  cases present : index.uvMergeMap with
  | none => simp [dump, present]
  | some merge =>
    cases canClear with
    | false => simp [dump, present]
    | true =>
      cases canWrite with
      | false => simp [dump, present]
      | true =>
        by_cases pvNegative : (dumpOffsetMap (index.dumpPv order).offsets).code < 0
        · simp [dump, present, pvNegative]
        · by_cases uvNegative : (dumpOffsetMap (index.dumpUv order).offsets).code < 0
          · simp [dump, present, pvNegative, uvNegative]
          · simp [dump, present, pvNegative, uvNegative]

end Index

/-- The index buffers of the service and its open streams. -/
structure Process where
  slot : Slot Index
  openStreams : ℕ

namespace Process

/-- `UpdateIndex`, with the streams its `Load` leaves open. -/
def updateIndex (process : Process) (file : FileState) : Process where
  slot := (process.slot.update Index.reloadable file).2
  openStreams := process.openStreams +
    if file.getMtime ≤ process.slot.ts then 0
    else (process.slot.inactive.load file.content).openStreams

/-- The calls of a run, each with the state in which it is made. -/
def calls (process : Process) : List FileState → List (Process × FileState)
  | [] => []
  | file :: files => (process, file) :: (process.updateIndex file).calls files

/-- The states of a run, each after a call. -/
def states (process : Process) (files : List FileState) : List Process :=
  (process.calls files).map fun call => call.1.updateIndex call.2

/-- The call opens no file: it is not newer than the index in use, or cannot be opened. -/
def OpensNothing (call : Process × FileState) : Prop :=
  call.2.getMtime ≤ call.1.slot.ts ∨ call.2.content = none

theorem openStreams_updateIndex_iff (process : Process) (file : FileState) :
    (process.updateIndex file).openStreams = process.openStreams ↔
      OpensNothing (process, file) := by
  rw [updateIndex, OpensNothing, ← Index.openStreams_load_iff process.slot.inactive]
  dsimp only
  by_cases old : file.getMtime ≤ process.slot.ts
  · simp [old]
  · rw [if_neg old, or_iff_right old, Nat.add_eq_left]

/-- The streams that a run leaves open are those of its calls that open a file. -/
theorem openStreams_run (process : Process) (files : List FileState) :
    (∀ state ∈ process.states files, state.openStreams = process.openStreams) ↔
      ∀ call ∈ process.calls files, OpensNothing call := by
  induction files generalizing process with
  | nil => exact iff_of_true (List.forall_mem_nil _) (List.forall_mem_nil _)
  | cons file files ih =>
    rw [states, calls, List.map_cons, List.forall_mem_cons, List.forall_mem_cons, ← states,
      openStreams_updateIndex_iff, ← ih]
    -- the rest of the run starts with as many streams, when the first call opened none
    apply and_congr_right
    intro nothing
    rw [(process.openStreams_updateIndex_iff file).mpr nothing]

/-- `Load` and `Dump` close what they open, and the number of open streams stays the same along
a run of `UpdateIndex`, exactly when there is no file to open, when the tables of the dumped
index have countable sizes, and when no call of the run opens a file. -/
theorem closes_iff (index : Index) (content : Option (List UInt8)) (order : index.DumpOrder)
    (canClear canWrite : Bool) (process : Process) (files : List FileState) :
    ((index.load content).openStreams = 0 ↔ content = none) ∧
    ((index.dump order canClear canWrite).openStreams = 0 ↔
      index.uvMergeMap = none ∨ canClear = false ∨ canWrite = false ∨
        Index.Countable (Index.stored index.pvMap.entries) ∧
          Index.Countable (Index.stored index.uvMap.entries)) ∧
    ((∀ state ∈ process.states files, state.openStreams = process.openStreams) ↔
      ∀ call ∈ process.calls files, OpensNothing call) :=
  ⟨index.openStreams_load_iff content, index.openStreams_dump_iff order canClear canWrite,
    process.openStreams_run files⟩

/-- The service with its first index, before any stream was opened. -/
def start : Process := ⟨Slot.fresh Index.reloadable, 0⟩

/-- A `Load` of an empty file returns an error, and its stream stays open. -/
theorem not_closes_emptyFile :
    (Index.empty.load (some [])).code = -2 ∧ (Index.empty.load (some [])).openStreams = 1 ∧
      ¬ ∀ state ∈ start.states [⟨some 1, some []⟩], state.openStreams = start.openStreams := by
  refine ⟨rfl, Index.openStreams_load .empty (some []), ?_⟩
  rw [openStreams_run, calls, calls, List.forall_mem_singleton, OpensNothing]
  rintro (old | none)
  · exact absurd old (by decide)
  · cases none

end Process

end FlowRetrieval
