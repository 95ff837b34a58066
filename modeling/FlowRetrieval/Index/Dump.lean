/-
# Writing an index file

`Index::Dump` reserves room for two offset tables and the merge offset, writes the
bitmap records behind it, and seeks back to fill in the tables. The bytes one
`Dump` call puts at consecutive positions are one write here.

## Main results

* `Index.dumpEntries_consecutive` — records follow each other without gaps
* `Index.lookup_dumpEntries` — every offset is the position of its record
* `Index.writes_finished` — the writes of a whole `Dump`
-/
import FlowRetrieval.Index.Index
import FlowRetrieval.CS.ByteFile

namespace FlowRetrieval

open CS CS.ByteCodec CS.ByteFile

namespace Index

def pvOffsetMapSize : UInt32 := 64 * 1024

def uvOffsetMapSize : UInt32 := 64 * 1024

/-- The position of the first record. -/
def recordsStart : UInt64 := (pvOffsetMapSize + uvOffsetMapSize).toUInt64 + 8

/-- `std::map<std::string, uint64_t>`. -/
abbrev OffsetMap := Dict Str UInt64

/-- The order of `std::map`, ascending by key. -/
def OffsetMap.ordered (map : OffsetMap) : map.Order :=
  .sorted (fun first second => first.1.ble second.1) map

/-- One entry of an offset table. -/
def offsetBytes (entry : Σ _ : Str, UInt64) : List UInt8 :=
  stringBytes entry.1 ++ u64Bytes entry.2

/-- `DumpOffsetMap`. -/
def dumpOffsetMap (map : OffsetMap) : Dumped where
  bytes := u32Bytes (UInt32.ofNat map.entries.length) ++
    map.ordered.entries.flatMap offsetBytes
  code := Int64.ofNat (4 + (map.ordered.entries.map fun entry =>
    4 + (UInt32.ofNat entry.1.length).toNat + 8).sum)

/-- The variables a record loop of `Dump` updates. -/
structure DumpState where
  out : OutStream
  offset : UInt64
  offsets : OffsetMap

/-- The body of a record loop. A failed `Dump` returns a negative number, which
`size`, being unsigned, never is. -/
def dumpEntry {β : Type} (dump : β → Dumped) (state : DumpState)
    (entry : Σ _ : Str, Option β) : DumpState :=
  match entry.2 with
  | none => state
  | some bitmap =>
    let dumped := dump bitmap
    let out := state.out.fwrite dumped.bytes
    let size := dumped.code.toUInt64
    if size < 0 then { state with out := out.fseek state.offset.toNat }
    else
      { out := out
        offset := state.offset + size
        offsets := state.offsets.insert entry.1 state.offset }

/-- A record loop. -/
def dumpEntries {β : Type} (dump : β → Dumped) (entries : List (Σ _ : Str, Option β))
    (state : DumpState) : DumpState :=
  entries.foldl (dumpEntry dump) state

/-- The orders in which the loops of one `Dump` visit the hash maps. -/
structure DumpOrder (index : Index) where
  pv : index.pvMap.Order
  uv : index.uvMap.Order
  merge : ∀ m : UvMergeBitmap, m.psidDict.Order

/-- The orders in which the entries are stored. -/
def DumpOrder.stored (index : Index) : index.DumpOrder :=
  ⟨.stored _, .stored _, fun _ => .stored _⟩

/-- What a call of `Dump` does: the code it returns, the writes it performs on the
truncated file, if it gets to open it, the two offset maps it built, and the
number of streams it leaves open. -/
structure DumpRun where
  code : Int64
  out : Option OutStream
  pvOffsets : OffsetMap
  uvOffsets : OffsetMap
  openStreams : ℕ

/-- The state before the first record loop, with room reserved for the tables. -/
def reserved : DumpState :=
  ⟨OutStream.fresh.fwrite (List.replicate recordsStart.toNat 0), recordsStart, ∅⟩

/-- The state after the first record loop. -/
def dumpPv (index : Index) (order : index.DumpOrder) : DumpState :=
  dumpEntries PvBidBitmap.dump order.pv.entries reserved

/-- The state after the second record loop. -/
def dumpUv (index : Index) (order : index.DumpOrder) : DumpState :=
  let pv := index.dumpPv order
  dumpEntries UvBidBitmap.dump order.uv.entries ⟨pv.out, pv.offset, ∅⟩

/-- `Dump`; `canClear` and `canWrite` say whether the two `fopen` calls succeed. -/
def dump (index : Index) (order : index.DumpOrder) (canClear canWrite : Bool) : DumpRun :=
  match index.uvMergeMap with
  | none => ⟨-3, none, ∅, ∅, 0⟩
  | some merge =>
    if !canClear then ⟨-1, none, ∅, ∅, 0⟩
    else if !canWrite then ⟨-2, some .fresh, ∅, ∅, 0⟩
    else
      let pv := index.dumpPv order
      let uv := index.dumpUv order
      let dumped := merge.dump (order.merge merge)
      let out := uv.out.fwrite dumped.bytes
      -- `size` is unsigned here too; the returns with -4, -5 and -6 do not close the stream
      let size := dumped.code.toUInt64
      if size < 0 then ⟨-4, some out, pv.offsets, uv.offsets, 1⟩
      else
        let pvTable := dumpOffsetMap pv.offsets
        let out := (out.fseek 0).fwrite pvTable.bytes
        if pvTable.code < 0 then ⟨-5, some out, pv.offsets, uv.offsets, 1⟩
        else
          let uvTable := dumpOffsetMap uv.offsets
          let out := (out.fseek pvOffsetMapSize.toNat).fwrite uvTable.bytes
          if uvTable.code < 0 then ⟨-6, some out, pv.offsets, uv.offsets, 1⟩
          else
            let out := (out.fseek (pvOffsetMapSize + uvOffsetMapSize).toNat).fwrite
              (u64Bytes uv.offset)
            ⟨(uv.offset + size).toInt64, some out, pv.offsets, uv.offsets, 0⟩

section Entries

variable {β : Type} (dump : β → Dumped)

@[simp] theorem dumpEntry_none (state : DumpState) (psid : Str) :
    dumpEntry dump state ⟨psid, none⟩ = state := rfl

/-- The unsigned `size` is never negative, so every bitmap is recorded. -/
@[simp] theorem dumpEntry_some (state : DumpState) (psid : Str) (bitmap : β) :
    dumpEntry dump state ⟨psid, some bitmap⟩ =
      { out := state.out.fwrite (dump bitmap).bytes
        offset := state.offset + (dump bitmap).code.toUInt64
        offsets := state.offsets.insert psid state.offset } := by
  rw [dumpEntry]
  exact if_neg UInt64.not_lt_zero

/-- The keys with a bitmap, in the order of the entries. -/
def stored (entries : List (Σ _ : Str, Option β)) : List Str :=
  entries.filterMap fun entry => entry.2.map fun _ => entry.1

theorem mem_stored {entries : List (Σ _ : Str, Option β)} {psid : Str} :
    psid ∈ stored entries ↔ ∃ bitmap, ⟨psid, some bitmap⟩ ∈ entries := by
  simp only [stored, List.mem_filterMap, Option.map_eq_some_iff]
  constructor
  · rintro ⟨⟨key, value⟩, member, bitmap, rfl, rfl⟩
    exact ⟨bitmap, member⟩
  · rintro ⟨bitmap, member⟩
    exact ⟨_, member, bitmap, rfl, rfl⟩

theorem stored_sublist (entries : List (Σ _ : Str, Option β)) :
    (stored entries).Sublist entries.keys := by
  induction entries with
  | nil => exact List.Sublist.slnil
  | cons entry entries ih =>
    rcases entry with ⟨psid, _ | bitmap⟩
    · exact ih.cons psid
    · exact ih.cons_cons psid

/-- The records of a loop follow each other from the current position on. -/
theorem dumpEntries_consecutive (entries : List (Σ _ : Str, Option β)) (state : DumpState) :
    ∃ records, (dumpEntries dump entries state).out.writes = state.out.writes ++ records ∧
      Consecutive state.out.position records (dumpEntries dump entries state).out.position := by
  induction entries generalizing state with
  | nil => exact ⟨[], (List.append_nil _).symm, rfl⟩
  | cons entry entries ih =>
    -- a null entry writes nothing
    rcases entry with ⟨psid, _ | bitmap⟩
    -- a null entry is skipped
    · exact ih state
    · obtain ⟨records, writes, consecutive⟩ := ih (dumpEntry dump state ⟨psid, some bitmap⟩)
      rw [dumpEntry_some] at writes consecutive
      refine ⟨⟨state.out.position, (dump bitmap).bytes⟩ :: records, ?_, rfl, ?_⟩
      · rw [dumpEntries, List.foldl_cons, ← dumpEntries, dumpEntry_some, writes]
        simp [OutStream.fwrite]
      · rw [dumpEntries, List.foldl_cons, ← dumpEntries, dumpEntry_some]
        exact consecutive

/-- A loop records an offset for exactly the keys with a bitmap. -/
theorem mem_offsets_dumpEntries (entries : List (Σ _ : Str, Option β)) (state : DumpState)
    (psid : Str) :
    psid ∈ (dumpEntries dump entries state).offsets ↔
      psid ∈ state.offsets ∨ psid ∈ stored entries := by
  induction entries generalizing state with
  | nil => simp [dumpEntries, stored]
  | cons entry entries ih =>
    rw [dumpEntries, List.foldl_cons, ← dumpEntries, ih]
    rcases entry with ⟨key, _ | bitmap⟩
    · simp [stored]
    · simp [stored, or_assoc, or_left_comm]

/-- The keys of the recorded offsets are the keys with a bitmap. -/
theorem perm_keys_dumpEntries {entries : List (Σ _ : Str, Option β)} {state : DumpState}
    (fresh : state.offsets = ∅) (distinct : entries.NodupKeys) :
    (dumpEntries dump entries state).offsets.keys.Perm (stored entries) := by
  have nodup : (stored entries).Nodup :=
    (stored_sublist entries).nodup distinct
  refine (List.perm_ext_iff_of_nodup (AList.keys_nodup _) nodup).mpr fun psid => ?_
  rw [← AList.mem_keys, mem_offsets_dumpEntries, fresh]
  simp

theorem lookup_dumpEntries_of_notMem {entries : List (Σ _ : Str, Option β)} {psid : Str}
    (state : DumpState) (absent : psid ∉ stored entries) :
    (dumpEntries dump entries state).offsets.lookup psid = state.offsets.lookup psid := by
  induction entries generalizing state with
  | nil => rfl
  | cons entry entries ih =>
    rw [dumpEntries, List.foldl_cons, ← dumpEntries]
    rcases entry with ⟨key, _ | bitmap⟩
    · exact ih state absent
    · have different : psid ≠ key := fun same => absent (same ▸ List.mem_cons_self)
      rw [ih _ fun member => absent (List.mem_cons_of_mem _ member), dumpEntry_some,
        AList.lookup_insert_ne different]

/-- With exact byte counts, the offset recorded for a bitmap is the position, modulo
`2 ^ 64`, at which its record starts. -/
theorem lookup_dumpEntries {entries : List (Σ _ : Str, Option β)} {state : DumpState}
    (distinct : entries.NodupKeys)
    (counted : ∀ psid bitmap, ⟨psid, some bitmap⟩ ∈ entries →
      (dump bitmap).code = Int64.ofNat (dump bitmap).bytes.length)
    (aligned : state.offset = UInt64.ofNat state.out.position) :
    (dumpEntries dump entries state).offset =
        UInt64.ofNat (dumpEntries dump entries state).out.position ∧
      ∀ psid bitmap, ⟨psid, some bitmap⟩ ∈ entries →
        ∃ write ∈ (dumpEntries dump entries state).out.writes,
          (dumpEntries dump entries state).offsets.lookup psid = some (UInt64.ofNat write.start) ∧
            write.bytes = (dump bitmap).bytes ∧ state.out.position ≤ write.start := by
  induction entries generalizing state with
  | nil => exact ⟨aligned, by simp⟩
  | cons entry entries ih =>
    rw [List.nodupKeys_cons] at distinct
    have later psid bitmap (member : ⟨psid, some bitmap⟩ ∈ entries) :=
      counted psid bitmap (List.mem_cons_of_mem _ member)
    rw [dumpEntries, List.foldl_cons, ← dumpEntries]
    rcases entry with ⟨key, _ | bitmap⟩
    · obtain ⟨offset, found⟩ := ih distinct.2 later aligned
      refine ⟨offset, fun psid other member => found psid other ?_⟩
      exact (List.mem_cons.mp member).resolve_left (by simp)
    · have next : (dumpEntry dump state ⟨key, some bitmap⟩).offset =
          UInt64.ofNat (dumpEntry dump state ⟨key, some bitmap⟩).out.position := by
        rw [dumpEntry_some]
        simp only [OutStream.fwrite, aligned, counted key bitmap List.mem_cons_self,
          Int64.toUInt64_ofNat', UInt64.ofNat_add]
      obtain ⟨offset, found⟩ := ih distinct.2 later next
      refine ⟨offset, ?_⟩
      intro psid other member
      rcases List.mem_cons.mp member with here | there
      · obtain ⟨rfl, same⟩ := Sigma.mk.inj here
        obtain rfl := Option.some.inj (eq_of_heq same)
        -- the record just written stays, and no later entry has the same key
        have absent : psid ∉ stored entries := fun inside =>
          distinct.1 ((stored_sublist entries).subset inside)
        obtain ⟨records, writes, -⟩ :=
          dumpEntries_consecutive dump entries (dumpEntry dump state ⟨psid, some other⟩)
        refine ⟨⟨state.out.position, (dump other).bytes⟩, ?_, ?_, rfl, le_rfl⟩
        · rw [writes, dumpEntry_some]
          simp [OutStream.fwrite]
        · rw [lookup_dumpEntries_of_notMem dump _ absent, dumpEntry_some,
            AList.lookup_insert, aligned]
      · obtain ⟨write, inside, lookup, bytes, after⟩ := found psid other there
        refine ⟨write, inside, lookup, bytes, le_trans ?_ after⟩
        rw [dumpEntry_some]
        exact Nat.le_add_right _ _

/-- Records of at most `bound` bytes take at most `bound` bytes each. -/
theorem position_dumpEntries_le {entries : List (Σ _ : Str, Option β)} {bound : ℕ}
    (state : DumpState)
    (bounded : ∀ psid bitmap, ⟨psid, some bitmap⟩ ∈ entries → (dump bitmap).bytes.length ≤ bound) :
    (dumpEntries dump entries state).out.position ≤
      state.out.position + (stored entries).length * bound := by
  induction entries generalizing state with
  | nil => exact Nat.le_add_right _ _
  | cons entry entries ih =>
    have later psid bitmap (member : ⟨psid, some bitmap⟩ ∈ entries) :=
      bounded psid bitmap (List.mem_cons_of_mem _ member)
    rw [dumpEntries, List.foldl_cons, ← dumpEntries]
    rcases entry with ⟨key, _ | bitmap⟩
    · exact ih state later
    · apply (ih _ later).trans
      have here := bounded key bitmap List.mem_cons_self
      simp only [dumpEntry_some, OutStream.fwrite, stored, List.filterMap_cons, Option.map_some,
        List.length_cons, Nat.add_mul]
      omega

end Entries

section Tables

/-- The size of an offset table: a count, and for each psid its length, its bytes
and its offset. -/
def tableSize (psids : List Str) : ℕ := 4 + (psids.map fun psid => 12 + psid.length).sum

theorem tableSize_perm {first second : List Str} (perm : first.Perm second) :
    tableSize first = tableSize second := by
  rw [tableSize, (perm.map _).sum_nat, tableSize]

private theorem tableSize_cons (psid : Str) (psids : List Str) :
    tableSize (psid :: psids) = tableSize psids + (12 + psid.length) := by
  simp only [tableSize, List.map_cons, List.sum_cons]
  omega

theorem length_le_tableSize {psids : List Str} {psid : Str} (member : psid ∈ psids) :
    psid.length ≤ tableSize psids := by
  induction psids with
  | nil => cases member
  | cons first psids ih =>
    rw [tableSize_cons]
    rcases List.mem_cons.mp member with rfl | later
    · omega
    · exact (ih later).trans (Nat.le_add_right _ _)

theorem count_le_tableSize (psids : List Str) : 12 * psids.length ≤ tableSize psids := by
  induction psids with
  | nil => exact Nat.zero_le _
  | cons psid psids ih =>
    rw [tableSize_cons, List.length_cons]
    omega

/-- The bytes that the entry of a psid takes in an offset table. -/
def entrySize (psid : Str) : ℕ := 12 + (UInt32.ofNat psid.length).toNat

theorem length_offsetBytes (entry : Σ _ : Str, UInt64) :
    (offsetBytes entry).length = entrySize entry.1 := by
  rw [offsetBytes, List.length_append, length_stringBytes_eq, length_u64Bytes, entrySize]
  omega

theorem length_dumpOffsetMap_eq (offsets : OffsetMap) :
    (dumpOffsetMap offsets).bytes.length = 4 + (offsets.keys.map entrySize).sum := by
  have sizes : (offsets.ordered.entries.map fun entry => (offsetBytes entry).length) =
      (offsets.ordered.entries.map Sigma.fst).map entrySize := by
    rw [List.map_map]
    exact List.map_congr_left fun entry _ => length_offsetBytes entry
  -- `std::map` visits the entries sorted, which does not change the size of the table
  have keys := (offsets.ordered.perm.map Sigma.fst).map entrySize
  rw [dumpOffsetMap, List.length_append, length_u32Bytes, List.length_flatMap, sizes,
    keys.sum_nat]
  rfl

/-- With psids shorter than `2 ^ 32` bytes, a table has the size of its psids. -/
theorem length_dumpOffsetMap {offsets : OffsetMap}
    (short : ∀ psid ∈ offsets, psid.length < 2 ^ 32) :
    (dumpOffsetMap offsets).bytes.length = tableSize offsets.keys := by
  rw [length_dumpOffsetMap_eq, tableSize]
  congr 2
  apply List.map_congr_left
  intro psid member
  rw [entrySize, UInt32.toNat_ofNat', Nat.mod_eq_of_lt (short psid (AList.mem_keys.mpr member))]

/-- The size of a table with few entries is no negative number. -/
theorem dumpOffsetMap_not_neg {offsets : OffsetMap} (few : offsets.entries.length ≤ 5461) :
    ¬ (dumpOffsetMap offsets).code < 0 := by
  have bound (entries : List (Σ _ : Str, UInt64)) :
      (entries.map fun entry => 4 + (UInt32.ofNat entry.1.length).toNat + 8).sum ≤
        entries.length * (2 ^ 32 + 12) := by
    induction entries with
    | nil => exact Nat.zero_le _
    | cons entry entries ih =>
      have small := (UInt32.ofNat entry.1.length).toNat_lt
      simp only [List.map_cons, List.sum_cons, List.length_cons] at ih ⊢
      omega
  have whole := bound offsets.ordered.entries
  rw [offsets.ordered.perm.length_eq] at whole
  apply Dumped.not_neg_of_small
  omega

end Tables

section Regions

variable {index : Index} {order : index.DumpOrder} {merge : UvMergeBitmap}

theorem reserved_position : reserved.out.position = 131080 := by
  rw [reserved, OutStream.fwrite, List.length_replicate]
  rfl

theorem reserved_offset : reserved.offset = UInt64.ofNat 131080 := by
  rw [reserved]
  decide

theorem reserved_writes : reserved.out.writes = [⟨0, List.replicate 131080 0⟩] := rfl

/-- The write of the merge record. -/
def mergeWrite (index : Index) (order : index.DumpOrder) (merge : UvMergeBitmap) : Write :=
  ⟨(index.dumpUv order).out.position, (merge.dump (order.merge merge)).bytes⟩

/-- The last three writes of a `Dump`: the offset tables, each at the start of its
slot, and the merge offset behind them. -/
def tableWrites (pvTable uvTable : List UInt8) (mergeOffset : UInt64) : List Write :=
  [⟨0, pvTable⟩, ⟨65536, uvTable⟩, ⟨131072, u64Bytes mergeOffset⟩]

/-- The writes of a `Dump` that reaches its end: the reserved block, the records
behind it, the tables. -/
def finishedWrites (index : Index) (order : index.DumpOrder) (merge : UvMergeBitmap) :
    List Write :=
  (index.dumpUv order).out.writes ++ [index.mergeWrite order merge] ++
    tableWrites (dumpOffsetMap (index.dumpPv order).offsets).bytes
      (dumpOffsetMap (index.dumpUv order).offsets).bytes (index.dumpUv order).offset

/-- What a `Dump` returns at its end. -/
def Finished (run : DumpRun) (index : Index) (order : index.DumpOrder) (merge : UvMergeBitmap) :
    Prop :=
  run.code = ((index.dumpUv order).offset +
      (merge.dump (order.merge merge)).code.toUInt64).toInt64 ∧
    (∃ out, run.out = some out ∧ out.writes = index.finishedWrites order merge) ∧
    run.pvOffsets = (index.dumpPv order).offsets ∧
    run.uvOffsets = (index.dumpUv order).offsets ∧ run.openStreams = 0

/-- A `Dump` with a merge bitmap and open streams reaches its end when the sizes of
the tables are no negative numbers. -/
theorem finished_dump (present : index.uvMergeMap = some merge)
    (pvCounted : ¬ (dumpOffsetMap (index.dumpPv order).offsets).code < 0)
    (uvCounted : ¬ (dumpOffsetMap (index.dumpUv order).offsets).code < 0) :
    Finished (index.dump order true true) index order merge := by
  rw [dump]
  rw [present]
  simp only [Bool.not_true, Bool.false_eq_true, if_false, UInt64.not_lt_zero, pvCounted, uvCounted]
  refine ⟨rfl, ⟨_, rfl, ?_⟩, rfl, rfl, rfl⟩
  simp [finishedWrites, mergeWrite, tableWrites, OutStream.fwrite, OutStream.fseek]
  decide

/-- Every `Dump` that returns a non-negative code reached its end. -/
theorem finished_of_nonneg {canClear canWrite : Bool}
    (done : 0 ≤ (index.dump order canClear canWrite).code) :
    ∃ merge, index.uvMergeMap = some merge ∧
      Finished (index.dump order canClear canWrite) index order merge := by
  -- every early return has a negative code
  rw [dump] at done
  cases present : index.uvMergeMap with
  | none =>
    rw [present] at done
    exact absurd (show (0 : Int64) ≤ -3 from done) (by decide)
  | some merge =>
    rw [present] at done
    cases canClear with
    | false => exact absurd (show (0 : Int64) ≤ -1 from done) (by decide)
    | true =>
      cases canWrite with
      | false => exact absurd (show (0 : Int64) ≤ -2 from done) (by decide)
      | true =>
        simp only [Bool.not_true, Bool.false_eq_true, if_false, UInt64.not_lt_zero] at done
        by_cases pvCounted : (dumpOffsetMap (index.dumpPv order).offsets).code < 0
        · rw [if_pos pvCounted] at done
          exact absurd (show (0 : Int64) ≤ -5 from done) (by decide)
        · rw [if_neg pvCounted] at done
          by_cases uvCounted : (dumpOffsetMap (index.dumpUv order).offsets).code < 0
          · rw [if_pos uvCounted] at done
            exact absurd (show (0 : Int64) ≤ -6 from done) (by decide)
          · exact ⟨merge, rfl, finished_dump present pvCounted uvCounted⟩

/-- The records of a `Dump` follow each other behind the reserved block. -/
theorem writes_finished (index : Index) (order : index.DumpOrder) (merge : UvMergeBitmap) :
    ∃ records,
      Consecutive 131080 records
        ((index.dumpUv order).out.position + (merge.dump (order.merge merge)).bytes.length) ∧
      (index.dumpUv order).out.writes ++ [index.mergeWrite order merge] =
        ⟨0, List.replicate 131080 0⟩ :: records ∧
      index.finishedWrites order merge = ⟨0, List.replicate 131080 0⟩ :: records ++
        tableWrites (dumpOffsetMap (index.dumpPv order).offsets).bytes
          (dumpOffsetMap (index.dumpUv order).offsets).bytes (index.dumpUv order).offset := by
  obtain ⟨pvRecords, pvWrites, pvConsecutive⟩ := dumpEntries_consecutive PvBidBitmap.dump
    order.pv.entries reserved
  obtain ⟨uvRecords, uvWrites, uvConsecutive⟩ := dumpEntries_consecutive UvBidBitmap.dump
    order.uv.entries ⟨(index.dumpPv order).out, (index.dumpPv order).offset, ∅⟩
  rw [← dumpPv] at pvWrites pvConsecutive
  rw [reserved_position] at pvConsecutive
  have recorded : (index.dumpUv order).out.writes ++ [index.mergeWrite order merge] =
      ⟨0, List.replicate 131080 0⟩ ::
        (pvRecords ++ uvRecords ++ [index.mergeWrite order merge]) := by
    rw [dumpUv, uvWrites, pvWrites, reserved_writes]
    simp only [List.append_assoc, List.cons_append, List.nil_append]
  have merged : Consecutive (index.dumpUv order).out.position [index.mergeWrite order merge]
      ((index.dumpUv order).out.position + (merge.dump (order.merge merge)).bytes.length) :=
    ⟨rfl, rfl⟩
  refine ⟨_, (pvConsecutive.append uvConsecutive).append merged, recorded, ?_⟩
  rw [finishedWrites, recorded]

/-- The second loop keeps the records of the first one. -/
theorem writes_dumpPv_subset (index : Index) (order : index.DumpOrder) :
    (index.dumpPv order).out.writes ⊆ (index.dumpUv order).out.writes := by
  obtain ⟨records, writes, -⟩ := dumpEntries_consecutive UvBidBitmap.dump
    order.uv.entries ⟨(index.dumpPv order).out, (index.dumpPv order).offset, ∅⟩
  rw [dumpUv, writes]
  exact List.subset_append_left _ _

/-- No loop goes back behind the reserved block. -/
theorem le_position_dumpPv (index : Index) (order : index.DumpOrder) :
    131080 ≤ (index.dumpPv order).out.position := by
  obtain ⟨records, -, consecutive⟩ :=
    dumpEntries_consecutive PvBidBitmap.dump order.pv.entries reserved
  exact reserved_position.ge.trans consecutive.le

theorem le_position_dumpUv (index : Index) (order : index.DumpOrder) :
    131080 ≤ (index.dumpUv order).out.position := by
  obtain ⟨records, -, consecutive⟩ := dumpEntries_consecutive UvBidBitmap.dump
    order.uv.entries ⟨(index.dumpPv order).out, (index.dumpPv order).offset, ∅⟩
  exact (index.le_position_dumpPv order).trans consecutive.le

theorem perm_keys_dumpPv (index : Index) (order : index.DumpOrder) :
    (index.dumpPv order).offsets.keys.Perm (stored index.pvMap.entries) :=
  (perm_keys_dumpEntries _ rfl order.pv.nodupKeys).trans (order.pv.perm.filterMap _)

theorem perm_keys_dumpUv (index : Index) (order : index.DumpOrder) :
    (index.dumpUv order).offsets.keys.Perm (stored index.uvMap.entries) :=
  (perm_keys_dumpEntries _ rfl order.uv.nodupKeys).trans (order.uv.perm.filterMap _)

end Regions

end Index

end FlowRetrieval
