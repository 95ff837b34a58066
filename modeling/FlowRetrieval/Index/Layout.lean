/-
# The regions of an index file

The offset tables have one variable-size entry for each stored bitmap and fixed
slots of 64 KiB. The regions of a written file are separate, and the tables are
read back, exactly when both tables fit their slots.

## Main results

* `Index.separate_iff_fitsSlot` — the regions are separate iff both tables fit
-/
import FlowRetrieval.Index.Load
import FlowRetrieval.Index.Records

namespace FlowRetrieval

open CS CS.ByteCodec CS.ByteFile

namespace Index

/-- What the format of an index file promises about the writes of a `Dump`: both
tables and the merge offset stay in their slots, no write overlaps another one
(the block reserved first apart), and `LoadOffsetMap` gives both maps back. -/
def Separate (run : DumpRun) : Prop :=
  ∃ out reserved records pvTable uvTable mergeOffset,
    run.out = some out ∧
    out.writes = reserved :: records ++ [pvTable, uvTable, mergeOffset] ∧
    (pvTable.start = 0 ∧ pvTable.bytes.length ≤ 65536) ∧
    (uvTable.start = 65536 ∧ 65536 + uvTable.bytes.length ≤ 131072) ∧
    (mergeOffset.start = 131072 ∧ 131072 + mergeOffset.bytes.length = 131080) ∧
    (records ++ [pvTable, uvTable, mergeOffset]).Pairwise Write.Disjoint ∧
    ReadsBack out.contents 0 run.pvOffsets ∧
    ReadsBack out.contents pvOffsetMapSize.toUInt64 run.uvOffsets

section Regions

variable {records : List Write} {stop : ℕ} {pvTable uvTable : List UInt8} {mergeOffset : UInt64}
  {out : OutStream}

/-- Tables inside their slots stay in front of the records. -/
theorem stop_le_of_mem_tableWrites (pvFits : pvTable.length ≤ 65536)
    (uvFits : uvTable.length ≤ 65536) {write : Write}
    (member : write ∈ tableWrites pvTable uvTable mergeOffset) :
    write.start + write.bytes.length ≤ 131080 := by
  simp only [tableWrites, List.mem_cons, List.not_mem_nil, or_false] at member
  rcases member with rfl | rfl | rfl
  · dsimp only
    omega
  · dsimp only
    omega
  · rw [length_u64Bytes]

/-- Records behind the reserved block and tables inside their slots do not overlap. -/
theorem pairwise_disjoint_regions (consecutive : Consecutive 131080 records stop)
    (pvFits : pvTable.length ≤ 65536) (uvFits : uvTable.length ≤ 65536) :
    (records ++ tableWrites pvTable uvTable mergeOffset).Pairwise Write.Disjoint := by
  refine List.pairwise_append.mpr ⟨consecutive.pairwise_disjoint, ?_, ?_⟩
  -- the three slots, one behind the other
  · simp only [tableWrites, List.pairwise_cons, List.mem_cons, List.not_mem_nil, or_false,
      forall_eq_or_imp, forall_eq, List.Pairwise.nil, Write.Disjoint]
    refine ⟨⟨.inl ?_, .inl ?_⟩, .inl ?_, by simp⟩ <;> omega
  -- every record is behind the slots
  · intro record inside table member
    have behind := (consecutive.within record inside).1
    exact .inr ((stop_le_of_mem_tableWrites pvFits uvFits member).trans behind)

/-- A finished file holds every record and every table. -/
theorem holds_regions (consecutive : Consecutive 131080 records stop)
    (pvFits : pvTable.length ≤ 65536) (uvFits : uvTable.length ≤ 65536)
    (writes : out.writes = ⟨0, List.replicate 131080 0⟩ :: records ++
      tableWrites pvTable uvTable mergeOffset) :
    ∀ write ∈ records ++ tableWrites pvTable uvTable mergeOffset,
      Holds out.contents write.start write.bytes := by
  rw [OutStream.contents, writes, List.cons_append]
  exact holds_replay (pairwise_disjoint_regions consecutive pvFits uvFits)

/-- Tables that end in front of the end of the last record do not extend the file. -/
theorem length_contents_of_inside (consecutive : Consecutive 131080 records stop)
    (inside : ∀ write ∈ tableWrites pvTable uvTable mergeOffset,
      write.start + write.bytes.length ≤ stop)
    (writes : out.writes = ⟨0, List.replicate 131080 0⟩ :: records ++
      tableWrites pvTable uvTable mergeOffset) :
    out.contents.length = stop := by
  have reserved : (overwrite [] 0 (List.replicate 131080 0)).length = 131080 := by
    rw [length_overwrite, List.length_replicate]
    rfl
  have recorded : (replay (overwrite [] 0 (List.replicate 131080 0)) records).length = stop :=
    Consecutive.length_replay (reserved.symm ▸ consecutive)
  rw [OutStream.contents, writes, List.cons_append, replay, List.foldl_cons, ← replay,
    replay_append, length_replay_of_inside, recorded]
  rwa [recorded]

/-- A record behind all tables is held, even if they are longer than their slots. -/
theorem holds_of_behind (consecutive : Consecutive 131080 records stop)
    (writes : out.writes = ⟨0, List.replicate 131080 0⟩ :: records ++
      tableWrites pvTable uvTable mergeOffset) {record : Write} (member : record ∈ records)
    (behind : ∀ write ∈ tableWrites pvTable uvTable mergeOffset,
      write.start + write.bytes.length ≤ record.start) :
    Holds out.contents record.start record.bytes := by
  rw [OutStream.contents, writes, List.cons_append, replay, List.foldl_cons, ← replay,
    replay_append]
  exact (holds_replay consecutive.pairwise_disjoint record member).replay fun write inside =>
    .inr (behind write inside)

/-- A finished file ends with its last record. -/
theorem length_contents (consecutive : Consecutive 131080 records stop)
    (pvFits : pvTable.length ≤ 65536) (uvFits : uvTable.length ≤ 65536)
    (writes : out.writes = ⟨0, List.replicate 131080 0⟩ :: records ++
      tableWrites pvTable uvTable mergeOffset) :
    out.contents.length = stop :=
  length_contents_of_inside consecutive
    (fun _ member => (stop_le_of_mem_tableWrites pvFits uvFits member).trans consecutive.le) writes

end Regions

section Separate

variable {index : Index} {order : index.DumpOrder}

theorem fitsSlot_keys_iff {offsets : OffsetMap} {psids : List Str}
    (perm : offsets.keys.Perm psids) : FitsSlot offsets.keys ↔ FitsSlot psids := by
  rw [FitsSlot, tableSize_perm perm, FitsSlot]

/-- A table that fits its slot takes no more than its slot. -/
theorem length_dumpOffsetMap_le {offsets : OffsetMap} (fits : FitsSlot offsets.keys) :
    (dumpOffsetMap offsets).bytes.length ≤ 65536 := by
  rw [length_dumpOffsetMap fun psid member => fits.short psid (AList.mem_keys.mp member)]
  exact fits

/-- The regions of a finished file are separate when both tables fit. -/
theorem separate_of_finished {run : DumpRun} {merge : UvMergeBitmap}
    (finished : Finished run index order merge)
    (pvFits : FitsSlot run.pvOffsets.keys) (uvFits : FitsSlot run.uvOffsets.keys) :
    Separate run := by
  obtain ⟨-, ⟨out, produced, writes⟩, pvOffsets, uvOffsets, -⟩ := finished
  obtain ⟨records, consecutive, -, shape⟩ := writes_finished index order merge
  rw [shape, ← pvOffsets, ← uvOffsets] at writes
  have pvLength := length_dumpOffsetMap_le pvFits
  have uvLength := length_dumpOffsetMap_le uvFits
  have holds := holds_regions consecutive pvLength uvLength writes
  refine ⟨out, _, records, _, _, _, produced, writes, ⟨rfl, pvLength⟩, ⟨rfl, by dsimp only; omega⟩,
    ⟨rfl, by rw [length_u64Bytes]⟩, pairwise_disjoint_regions consecutive pvLength uvLength, ?_, ?_⟩
  · exact readsBack_of_holds (by decide) pvFits
      (holds ⟨0, _⟩ (List.mem_append_right _ List.mem_cons_self))
  · exact readsBack_of_holds (by decide) uvFits
      (holds ⟨65536, _⟩ (List.mem_append_right _ (List.mem_cons_of_mem _ List.mem_cons_self)))

/-- Separate regions leave no room for a table that does not fit. -/
theorem fitsSlot_of_separate {run : DumpRun} {merge : UvMergeBitmap}
    (finished : Finished run index order merge) (separate : Separate run) :
    FitsSlot run.pvOffsets.keys ∧ FitsSlot run.uvOffsets.keys := by
  obtain ⟨-, ⟨out, produced, writes⟩, pvOffsets, uvOffsets, -⟩ := finished
  obtain ⟨records, -, -, shape⟩ := writes_finished index order merge
  obtain ⟨other, reserved, others, pvTable, uvTable, mergeOffset, same, split, pvInside, uvInside,
    -, -, pvBack, uvBack⟩ := separate
  obtain rfl := Option.some.inj (same.symm.trans produced)
  -- the last three writes of both descriptions are the same
  have ends := List.append_inj_right' (split.symm.trans (writes.trans shape)) rfl
  rw [tableWrites, ← pvOffsets, ← uvOffsets] at ends
  obtain ⟨rfl, rest⟩ := List.cons.inj ends
  obtain ⟨rfl, -⟩ := List.cons.inj rest
  have uvLength : (dumpOffsetMap run.uvOffsets).bytes.length ≤ 65536 := by
    have inside := uvInside.2
    dsimp only at inside
    omega
  -- a table that is read back has short psids, so its length is the size of its psids
  exact ⟨(length_dumpOffsetMap pvBack.short).symm.trans_le pvInside.2,
    (length_dumpOffsetMap uvBack.short).symm.trans_le uvLength⟩

/-- A finished file has separate regions iff both tables fit their slots. -/
theorem separate_iff_of_finished {run : DumpRun} {merge : UvMergeBitmap}
    (finished : Finished run index order merge) :
    Separate run ↔
      FitsSlot (stored index.pvMap.entries) ∧ FitsSlot (stored index.uvMap.entries) := by
  obtain ⟨-, -, pvOffsets, uvOffsets, -⟩ := id finished
  rw [← fitsSlot_keys_iff (perm_keys_dumpPv index order), ← pvOffsets,
    ← fitsSlot_keys_iff (perm_keys_dumpUv index order), ← uvOffsets]
  exact ⟨fitsSlot_of_separate finished, fun fits => separate_of_finished finished fits.1 fits.2⟩

/-- For every index, every order of its maps and every outcome of opening the file,
a `Dump` that reports success has separate regions iff both tables fit their slots. -/
theorem separate_iff_fitsSlot (index : Index) (order : index.DumpOrder)
    (canClear canWrite : Bool) (done : 0 ≤ (index.dump order canClear canWrite).code) :
    Separate (index.dump order canClear canWrite) ↔
      FitsSlot (stored index.pvMap.entries) ∧ FitsSlot (stored index.uvMap.entries) := by
  obtain ⟨merge, -, finished⟩ := finished_of_nonneg done
  exact separate_iff_of_finished finished

theorem separate_single :
    Separate ((build (singleCalls [97])).dump (.stored _) true true) := by
  obtain ⟨pv, uv⟩ := stored_single [97]
  apply (separate_iff_fitsSlot _ _ true true (code_single_nonneg (by decide))).mpr
  rw [pv, uv]
  exact ⟨by simp [FitsSlot, tableSize], by simp [FitsSlot, tableSize]⟩

/-- A psid of 64 KiB does not fit its table, but `Dump` reports success. -/
theorem not_separate_of_long {psid : Str} (short : psid.length < 2 ^ 32)
    (long : 65536 ≤ psid.length) :
    0 ≤ ((build (singleCalls psid)).dump (.stored _) true true).code ∧
      ¬ Separate ((build (singleCalls psid)).dump (.stored _) true true) := by
  have done := code_single_nonneg short
  refine ⟨done, ?_⟩
  intro separate
  obtain ⟨merge, -, finished⟩ := finished_of_nonneg done
  have fits := ((separate_iff_of_finished finished).mp separate).1
  rw [(stored_single _).1] at fits
  simp only [FitsSlot, tableSize, List.map_cons, List.map_nil, List.sum_cons, List.sum_nil] at fits
  omega

theorem not_separate_longPsid :
    0 ≤ ((build (singleCalls (List.replicate 65536 97))).dump (.stored _) true true).code ∧
      ¬ Separate ((build (singleCalls (List.replicate 65536 97))).dump (.stored _) true true) :=
  have length : (List.replicate 65536 (97 : UInt8)).length = 65536 := List.length_replicate
  not_separate_of_long (by omega) (by omega)

end Separate

end Index

end FlowRetrieval
