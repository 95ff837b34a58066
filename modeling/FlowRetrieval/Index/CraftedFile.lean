/-
# A crafted index file

`Load` stores a record under the ad position of its table entry, whatever ad position the record
has. A file whose only table entry has an ad position of 200000 bytes is accepted: the second
table, the merge offset and the records are read from inside of these bytes. The index that is
loaded from it is dumped with a table that covers the start of the merge record, and in that
file another merge record is found there. It is accepted without its end.

## Main results

* `Index.load_craftedTable` — any file that begins with the table is accepted
* `Index.accepts_truncated` — a truncated file that is accepted
-/
import FlowRetrieval.Index.Truncation

namespace FlowRetrieval

open CS CS.ByteCodec CS.ByteFile

namespace Index

/-- The bytes of the file that may be anything. -/
structure Filling where
  front : List UInt8
  middle : List UInt8
  back : List UInt8
  long : Str
  front_length : front.length = 65528
  middle_length : middle.length = 65532
  back_length : back.length = 68566
  long_length : long.length = 70000

section Crafted

variable (filling : Filling) (mergeOffset : UInt64)

/-- A psid with an empty table, a merge offset, a page-view record and a merge record in it, at
the positions where these are read when an offset table begins with the psid. -/
def craftedPsid : Str :=
  filling.front ++ (dumpOffsetMap ∅).bytes ++ filling.middle ++ u64Bytes mergeOffset ++
    (singlePv []).dump.bytes ++ ((singleMerge []).dump (.stored _)).bytes ++ filling.back

/-- The offsets of this psid only. -/
def craftedOffsets : OffsetMap := AList.singleton (craftedPsid filling mergeOffset) 131080

/-- Their table. -/
def craftedTable : List UInt8 := (dumpOffsetMap (craftedOffsets filling mergeOffset)).bytes

/-- An index that holds a bitmap without a psid under this psid. -/
def craftedIndex : Index :=
  ⟨AList.singleton (craftedPsid filling mergeOffset) (some (singlePv [])), ∅,
    some (singleMerge filling.long)⟩

/-- The table and, behind it, a merge record. -/
def craftedFile : List UInt8 :=
  craftedTable filling 200016 ++ ((singleMerge filling.long).dump (.stored _)).bytes

section Parts

theorem ordered_craftedOffsets : (craftedOffsets filling mergeOffset).ordered.entries =
    [⟨craftedPsid filling mergeOffset, 131080⟩] := by
  simp [OffsetMap.ordered, Dict.Order.sorted, craftedOffsets]

theorem ordered_empty : (OffsetMap.ordered ∅).entries = [] := by
  simp [OffsetMap.ordered, Dict.Order.sorted]

theorem length_emptyTable : (dumpOffsetMap ∅).bytes.length = 4 := length_dumpOffsetMap_eq ∅

theorem length_pvRecord : (singlePv []).dump.bytes.length = 330 :=
  PvBidBitmap.length_dump (by decide) rfl rfl (by decide)

theorem noWrap_singleBitmap : singleBitmap.width.toNat * singleBitmap.height.toNat < 2 ^ 32 := by
  decide

theorem length_mergeRecord (psid : Str) : ((singleMerge psid).dump (.stored _)).bytes.length =
    32 + (UInt32.ofNat psid.length).toNat := by
  have small := noWrap_singleBitmap
  have data : (8 : UInt32).toNat * (1 : UInt32).toNat = 8 := by decide
  rw [UvMergeBitmap.dump_eq _ _ (small.trans (by norm_num))]
  simp only [singleMerge, Dict.Order.stored, AList.singleton_entries, List.length_append,
    List.flatMap_cons, List.flatMap_nil, UvMergeBitmap.entryBytes, length_stringBytes_eq,
    length_i32Bytes, List.length_nil]
  rw [Bitmap.length_dump singleBitmap small]
  simp only [singleBitmap]
  omega

theorem length_longRecord :
    ((singleMerge filling.long).dump (.stored _)).bytes.length = 70032 := by
  rw [length_mergeRecord, filling.long_length]
  decide

theorem decodes_mergeRecord {psid : Str} (short : psid.length < 2 ^ 32) :
    Decodes UvMergeBitmap.empty.load ((singleMerge psid).dump (.stored _)).bytes
      (singleMerge psid) := by
  have nonempty : singleBitmap.data ≠ [] := by decide
  apply UvMergeBitmap.decodes_load .empty (singleMerge psid) (.stored _)
    (noWrap_singleBitmap.trans (by norm_num)) nonempty rfl rfl
  intro key member
  rw [List.mem_singleton.mp (AList.mem_keys.mp member)]
  exact short

end Parts

section Table

theorem length_craftedPsid : (craftedPsid filling mergeOffset).length = 200000 := by
  have merge : ((singleMerge []).dump (.stored _)).bytes.length = 32 := by decide
  have front := filling.front_length
  have middle := filling.middle_length
  have back := filling.back_length
  simp only [craftedPsid, List.length_append, length_u64Bytes, length_emptyTable,
    length_pvRecord, merge]
  omega

theorem craftedTable_eq : craftedTable filling mergeOffset =
    u32Bytes 1 ++ u32Bytes 200000 ++ craftedPsid filling mergeOffset ++ u64Bytes 131080 := by
  have length := length_craftedPsid filling mergeOffset
  have whole : (UInt32.ofNat 200000).toNat = 200000 := by decide
  rw [craftedTable, dumpOffsetMap, ordered_craftedOffsets, List.flatMap_singleton, offsetBytes,
    stringBytes, length, whole, List.take_of_length_le length.le]
  simp only [List.append_assoc]
  rfl

theorem length_craftedTable : (craftedTable filling mergeOffset).length = 200016 := by
  rw [craftedTable_eq]
  simp only [List.length_append, length_u32Bytes, length_u64Bytes, length_craftedPsid]

theorem length_before_emptyTable :
    (u32Bytes 1 ++ u32Bytes 200000 ++ filling.front).length = 65536 := by
  have front := filling.front_length
  simp only [List.length_append, length_u32Bytes]
  omega

theorem length_before_mergeOffset : (u32Bytes 1 ++ u32Bytes 200000 ++ filling.front ++
    (dumpOffsetMap ∅).bytes ++ filling.middle).length = 131072 := by
  rw [List.length_append, List.length_append, length_before_emptyTable, length_emptyTable,
    filling.middle_length]

/-- Whatever follows the table, the empty table, the merge offset, the page-view record and the
merge record are found inside of the psid. -/
theorem holds_craftedTable (more : List UInt8) :
    Holds (craftedTable filling mergeOffset ++ more) 65536 (dumpOffsetMap ∅).bytes ∧
      Holds (craftedTable filling mergeOffset ++ more) 131072 (u64Bytes mergeOffset) ∧
      Holds (craftedTable filling mergeOffset ++ more) 131080 (singlePv []).dump.bytes ∧
      Holds (craftedTable filling mergeOffset ++ more) 131410
        ((singleMerge []).dump (.stored _)).bytes := by
  -- the positions are the lengths of what is in front of the four parts
  have one := length_before_emptyTable filling
  have two := length_before_mergeOffset filling
  rw [craftedTable_eq, craftedPsid]
  generalize u32Bytes 1 ++ u32Bytes 200000 = start at one two ⊢
  have three : (start ++ filling.front ++ (dumpOffsetMap ∅).bytes ++ filling.middle ++
      u64Bytes mergeOffset).length = 131080 := by
    rw [List.length_append, two, length_u64Bytes]
  have four : (start ++ filling.front ++ (dumpOffsetMap ∅).bytes ++ filling.middle ++
      u64Bytes mergeOffset ++ (singlePv []).dump.bytes).length = 131410 := by
    rw [List.length_append, three, length_pvRecord]
  refine ⟨?_, ?_, ?_, ?_⟩
  · simpa only [List.append_assoc] using holds_append one
  · simpa only [List.append_assoc] using holds_append two
  · simpa only [List.append_assoc] using holds_append three
  · simpa only [List.append_assoc] using holds_append four

/-- Writing the other tables into their slots changes the merge offset in the psid only. -/
theorem overwrite_craftedTable (other : UInt64) (more : List UInt8) :
    overwrite (overwrite (craftedTable filling mergeOffset ++ more) 65536
      (dumpOffsetMap ∅).bytes) 131072 (u64Bytes other) = craftedTable filling other ++ more := by
  have same : (u64Bytes other).length = (u64Bytes mergeOffset).length := by
    rw [length_u64Bytes, length_u64Bytes]
  -- the first write puts the bytes there that are there already
  have first : overwrite (craftedTable filling mergeOffset ++ more) 65536
      (dumpOffsetMap ∅).bytes = craftedTable filling mergeOffset ++ more := by
    rw [craftedTable_eq, craftedPsid]
    simpa only [List.append_assoc] using overwrite_append (length_before_emptyTable filling) rfl
  rw [first, craftedTable_eq, craftedTable_eq, craftedPsid, craftedPsid]
  simpa only [List.append_assoc] using overwrite_append (length_before_mergeOffset filling) same

end Table

variable {mergeOffset}

/-- A file that begins with the table is accepted when there is a merge record at the merge
offset. -/
theorem load_craftedTable (small : mergeOffset.toNat < 2 ^ 63) {more rest : List UInt8}
    {m : UvMergeBitmap} (run : UvMergeBitmap.empty.load.run
      ((craftedTable filling mergeOffset ++ more).drop mergeOffset.toNat) = .ok (m, rest)) :
    empty.load (some (craftedTable filling mergeOffset ++ more)) =
      ⟨0, ⟨AList.singleton (craftedPsid filling mergeOffset) (some (singlePv [])), ∅, some m⟩,
        1⟩ := by
  have length := length_craftedPsid filling mergeOffset
  have short : ∀ psid ∈ craftedOffsets filling mergeOffset, psid.length < 2 ^ 32 := by
    intro psid member
    rw [List.mem_singleton.mp (AList.mem_keys.mp member)]
    exact length.trans_lt (by norm_num)
  -- the first table, and what is read from inside of it
  have pvRun := (decodes_loadOffsetMap short (Nat.le_of_ble_eq_true rfl)).run more
  rw [ordered_craftedOffsets, ← craftedTable] at pvRun
  obtain ⟨uvHeld, slotHeld, pvHeld, -⟩ := holds_craftedTable filling mergeOffset more
  obtain ⟨uvAhead, uvRest, uvSeek, uvRun⟩ := run_of_holds (by decide) uvHeld
    (decodes_loadOffsetMap (by simp) (by decide))
  obtain ⟨slotAhead, slotRest, slotSeek, slotRun⟩ := run_of_holds (by decide) slotHeld
    (decodes_readU64 (1 : ℤ) mergeOffset)
  obtain ⟨pvAhead, pvRest, pvSeek, pvRead⟩ := run_of_holds (by decide) pvHeld
    (PvBidBitmap.decodes_load .empty (singlePv []) (by decide) (by decide) rfl rfl (by decide))
  have uvStart : pvOffsetMapSize.toUInt64 = UInt64.ofNat 65536 := by decide
  have slotStart : (pvOffsetMapSize + uvOffsetMapSize).toUInt64 = UInt64.ofNat 131072 := by decide
  have pvStart : (131080 : UInt64) = UInt64.ofNat 131080 := by decide
  have offsets : (∅ : OffsetMap).insertAll [⟨craftedPsid filling mergeOffset, 131080⟩] =
      craftedOffsets filling mergeOffset := rfl
  simp only [load, clear, empty, pvRun, uvStart, uvSeek, uvRun, slotStart, slotSeek, slotRun,
    fseek_eq small, run]
  rw [offsets, ordered_empty, show (∅ : OffsetMap).insertAll [] = ∅ from rfl, loadEntries,
    loadEntries, ordered_craftedOffsets, ordered_empty]
  simp only [List.foldl_cons, List.foldl_nil, loadEntry, pvStart, pvSeek, pvRead]
  rfl

section Dump

theorem dumpPv_crafted : (craftedIndex filling mergeOffset).dumpPv (.stored _) =
    { out := reserved.out.fwrite (singlePv []).dump.bytes
      offset := UInt64.ofNat 131410
      offsets := craftedOffsets filling mergeOffset } := by
  have code : (singlePv []).dump.code = Int64.ofNat 330 := by
    rw [PvBidBitmap.code_dump (by decide) rfl rfl, length_pvRecord]
  have step : (craftedIndex filling mergeOffset).dumpPv (.stored _) =
      dumpEntry PvBidBitmap.dump reserved
        ⟨craftedPsid filling mergeOffset, some (singlePv [])⟩ := rfl
  rw [step, dumpEntry_some, reserved_offset, code, Int64.toUInt64_ofNat', ← UInt64.ofNat_add]
  rfl

theorem dumpUv_crafted : (craftedIndex filling mergeOffset).dumpUv (.stored _) =
    { out := reserved.out.fwrite (singlePv []).dump.bytes
      offset := UInt64.ofNat 131410
      offsets := ∅ } := by
  have step : (craftedIndex filling mergeOffset).dumpUv (.stored _) =
      { (craftedIndex filling mergeOffset).dumpPv (.stored _) with offsets := ∅ } := rfl
  rw [step, dumpPv_crafted]

/-- The records, one behind the other. -/
def craftedRecords : List Write :=
  [⟨0, List.replicate 131080 0⟩, ⟨131080, (singlePv []).dump.bytes⟩,
    ⟨131410, ((singleMerge filling.long).dump (.stored _)).bytes⟩]

theorem length_craftedRecords : (replay [] (craftedRecords filling)).length = 201442 := by
  have consecutive : Consecutive ([] : List UInt8).length (craftedRecords filling) 201442 := by
    simp only [craftedRecords, Consecutive, List.length_replicate, length_pvRecord,
      length_longRecord]
    decide
  exact consecutive.length_replay

theorem finishedWrites_crafted :
    (craftedIndex filling mergeOffset).finishedWrites (.stored _) (singleMerge filling.long) =
      craftedRecords filling ++ [⟨0, craftedTable filling mergeOffset⟩,
        ⟨65536, (dumpOffsetMap ∅).bytes⟩, ⟨131072, u64Bytes 131410⟩] := by
  have offset : UInt64.ofNat 131410 = 131410 := by decide
  have stored : (Index.DumpOrder.stored (craftedIndex filling mergeOffset)).merge
    (singleMerge filling.long) = .stored _ := rfl
  rw [finishedWrites, mergeWrite, dumpUv_crafted, dumpPv_crafted, stored, craftedRecords]
  simp only [OutStream.fwrite, reserved_writes, reserved_position, length_pvRecord, offset,
    tableWrites, List.cons_append, List.nil_append, craftedTable, Nat.reduceAdd]

variable (mergeOffset)

/-- The dumped file begins with the table, which covers the start of the merge record. -/
theorem dump_crafted :
    0 ≤ ((craftedIndex filling mergeOffset).dump (.stored _) true true).code ∧
      ∃ out more,
        ((craftedIndex filling mergeOffset).dump (.stored _) true true).out = some out ∧
        out.contents = craftedTable filling 131410 ++ more ∧ more.length = 1426 := by
  obtain ⟨code, ⟨out, produced, writes⟩, -⟩ :
      Finished ((craftedIndex filling mergeOffset).dump (.stored _) true true)
        (craftedIndex filling mergeOffset) (.stored _) (singleMerge filling.long) := by
    refine finished_dump rfl ?_ ?_
    · rw [dumpPv_crafted]
      exact dumpOffsetMap_not_neg (by simp [craftedOffsets])
    · rw [dumpUv_crafted]
      exact dumpOffsetMap_not_neg (by decide)
  rw [finishedWrites_crafted] at writes
  refine ⟨?_, out, (replay [] (craftedRecords filling)).drop 200016, produced, ?_, ?_⟩
  · have counted :=
      UvMergeBitmap.code_dump (singleMerge filling.long) (.stored _) noWrap_singleBitmap
    have stored : (Index.DumpOrder.stored (craftedIndex filling mergeOffset)).merge
      (singleMerge filling.long) = .stored _ := rfl
    rw [length_longRecord] at counted
    rw [code, dumpUv_crafted, stored, counted, Int64.toUInt64_ofNat', ← UInt64.ofNat_add,
      UInt64.toInt64_ofNat', ← Int64.not_lt]
    exact Dumped.not_neg_of_small (by norm_num)
  · rw [OutStream.contents, writes, replay_append, replay_three, overwrite_start,
      length_craftedTable]
    exact overwrite_craftedTable filling mergeOffset 131410 _
  · rw [List.length_drop, length_craftedRecords]

end Dump

/-- The index that is loaded from the file. -/
theorem load_craftedFile :
    empty.load (some (craftedFile filling)) = ⟨0, craftedIndex filling 200016, 1⟩ := by
  have short : filling.long.length < 2 ^ 32 := filling.long_length.trans_lt (by norm_num)
  have position : (200016 : UInt64).toNat = 200016 := by decide
  have run := (decodes_mergeRecord short).run []
  rw [List.append_nil] at run
  refine load_craftedTable filling (by decide) (?_ : _ = Except.ok (_, []))
  rwa [position, List.drop_left' (length_craftedTable filling 200016)]

theorem noWrap_craftedIndex : (craftedIndex filling mergeOffset).NoWrap := by
  refine ⟨?_, ?_, ?_⟩
  · intro psid b found
    have member := (mem_entries_iff (Dict.Order.stored _)).mpr found
    obtain ⟨-, same⟩ := Sigma.mk.inj (List.mem_singleton.mp member)
    obtain rfl := Option.some.inj (eq_of_heq same)
    exact noWrap_singleBitmap
  · intro psid b found
    cases (mem_entries_iff (Dict.Order.stored _)).mpr found
  · intro m found
    obtain rfl := Option.some.inj found
    exact noWrap_singleBitmap

/-- The index that is loaded from the file is dumped to a file that is accepted without its
last 1426 bytes. -/
theorem accepts_craftedFile :
    (empty.load (some (craftedFile filling))).index.NoWrap ∧
      ∃ out,
        0 ≤ ((empty.load (some (craftedFile filling))).index.dump (.stored _) true true).code ∧
        ((empty.load (some (craftedFile filling))).index.dump (.stored _) true true).out =
          some out ∧
        out.contents.length = 201442 ∧
        (empty.load (some (out.contents.take 200016))).code = 0 := by
  rw [load_craftedFile]
  obtain ⟨done, out, more, produced, contents, length⟩ := dump_crafted filling 200016
  refine ⟨noWrap_craftedIndex filling, out, done, produced, ?_, ?_⟩
  · rw [contents, List.length_append, length_craftedTable, length]
  · have position : (131410 : UInt64).toNat = 131410 := by decide
    obtain ⟨-, -, -, held⟩ := holds_craftedTable filling 131410 []
    have run := (decodes_mergeRecord (by decide : ([] : Str).length < 2 ^ 32)).run
      ((craftedTable filling 131410 ++ []).drop
        (131410 + ((singleMerge []).dump (.stored _)).bytes.length))
    rw [← held.drop_eq, ← position] at run
    rw [contents, List.take_left' (length_craftedTable filling 131410),
      ← List.append_nil (craftedTable filling 131410), load_craftedTable filling (by decide) run]

end Crafted

/-- Zeros wherever the bytes do not matter. -/
def zeros : Filling where
  front := List.replicate 65528 0
  middle := List.replicate 65532 0
  back := List.replicate 68566 0
  long := List.replicate 70000 0
  front_length := List.length_replicate
  middle_length := List.length_replicate
  back_length := List.length_replicate
  long_length := List.length_replicate

/-- Without the condition on the ad positions a truncated file may be accepted. -/
theorem accepts_truncated :
    Reachable (empty.load (some (craftedFile zeros))).index ∧
      (empty.load (some (craftedFile zeros))).index.NoWrap ∧
      ∃ out,
        0 ≤ ((empty.load (some (craftedFile zeros))).index.dump (.stored _) true true).code ∧
        ((empty.load (some (craftedFile zeros))).index.dump (.stored _) true true).out =
          some out ∧
        out.contents.length = 201442 ∧
        (empty.load (some (out.contents.take 200016))).code = 0 :=
  ⟨.load _ .new, accepts_craftedFile zeros⟩

end Index

end FlowRetrieval
