/-
# Truncated index files

`Index::Load` skips records that it cannot read and accepts a bitmap with a part of its data,
but it needs the merge record, and that is the last one of the file. As long as the offset
tables end in front of it, a file that has lost bytes at its end has lost bytes of the merge
record, whose reader rejects every proper prefix. The tables may leave their slots and damage
other records; they do not reach the merge record, because the record of a bitmap takes more
bytes than its table entry, if the two have the same ad position.

## Main results

* `Index.mergeLast_of_finished` — a finished file ends with the merge record
* `Index.rejects_truncated` — no truncated file is accepted
-/
import FlowRetrieval.Index.Layout
import FlowRetrieval.Index.Reachable

namespace FlowRetrieval

open CS CS.ByteCodec CS.ByteFile

namespace Index

/-- Every bitmap carries the ad position it is stored under, as `Add` calls see to. -/
abbrev Keyed : Index → Prop :=
  Stores (fun psid b => b.psid = psid) (fun psid b => b.psid = psid) fun _ => True

/-- The data of every bitmap has fewer than `2 ^ 32` bytes. -/
abbrev NoWrap : Index → Prop :=
  Stores (fun _ b => b.width.toNat * b.height.toNat < 2 ^ 32)
    (fun _ b => b.width.toNat * b.height.toNat < 2 ^ 32)
    fun m => m.width.toNat * m.height.toNat < 2 ^ 32

section Sizes

variable {β : Type} {dump : β → Dumped}

/-- A record loop advances by at least the size of the table entries it records. -/
theorem le_position_dumpEntries {entries : List (Σ _ : Str, Option β)} (state : DumpState)
    (large : ∀ psid bitmap, ⟨psid, some bitmap⟩ ∈ entries →
      entrySize psid ≤ (dump bitmap).bytes.length) :
    state.out.position + ((stored entries).map entrySize).sum ≤
      (dumpEntries dump entries state).out.position := by
  induction entries generalizing state with
  | nil => exact le_rfl
  | cons entry entries ih =>
    have later psid bitmap (member : ⟨psid, some bitmap⟩ ∈ entries) :=
      large psid bitmap (List.mem_cons_of_mem _ member)
    rw [dumpEntries, List.foldl_cons, ← dumpEntries]
    rcases entry with ⟨psid, _ | bitmap⟩
    · exact ih state later
    · refine le_trans ?_ (ih _ later)
      have here := large psid bitmap List.mem_cons_self
      simp only [dumpEntry_some, OutStream.fwrite, stored, List.filterMap_cons, Option.map_some,
        List.map_cons, List.sum_cons]
      omega

/-- What a record loop needs to keep its offset and to leave room for the table. -/
structure Counted (dump : β → Dumped) (map : Dict Str (Option β)) : Prop where
  code : ∀ psid bitmap, getEntry map psid = some bitmap →
    (dump bitmap).code = Int64.ofNat (dump bitmap).bytes.length
  large : ∀ psid bitmap, getEntry map psid = some bitmap →
    entrySize psid ≤ (dump bitmap).bytes.length

/-- After such a loop the offset is the position, and the table is shorter than what has been
written. -/
theorem Counted.dumpEntries {map : Dict Str (Option β)} (counted : Counted dump map)
    (order : map.Order) (state : DumpState) (fresh : state.offsets = ∅)
    (aligned : state.offset = UInt64.ofNat state.out.position) :
    (dumpEntries dump order.entries state).offset =
        UInt64.ofNat (dumpEntries dump order.entries state).out.position ∧
      state.out.position +
          (dumpOffsetMap (dumpEntries dump order.entries state).offsets).bytes.length ≤
        (dumpEntries dump order.entries state).out.position + 4 := by
  have keys := (perm_keys_dumpEntries dump fresh order.nodupKeys).map entrySize
  have advance := le_position_dumpEntries state fun psid bitmap member =>
    counted.large psid bitmap ((mem_entries_iff order).mp member)
  refine ⟨(lookup_dumpEntries dump order.nodupKeys (fun psid bitmap member =>
    counted.code psid bitmap ((mem_entries_iff order).mp member)) aligned).1, ?_⟩
  rw [length_dumpOffsetMap_eq, keys.sum_nat]
  omega

variable {index : Index} (intact : index.Intact) (keyed : index.Keyed) (noWrap : index.NoWrap)
include intact keyed noWrap

theorem counted_pv : Counted PvBidBitmap.dump index.pvMap where
  code psid b found := by
    obtain ⟨paired, valid⟩ := intact.pv psid b found
    exact PvBidBitmap.code_dump (noWrap.pv psid b found) paired valid
  large psid b found := by
    obtain ⟨paired, valid⟩ := intact.pv psid b found
    have small := noWrap.pv psid b found
    -- the record begins with a header of twelve bytes and has the psid behind the bids
    rw [PvBidBitmap.dump_eq (by omega) paired valid, b.toBidBitmap.dump_eq (by omega), entrySize]
    simp only [List.length_append, length_stringBytes_eq, b.toBitmap.length_dump small,
      keyed.pv psid b found]
    omega

theorem counted_uv : Counted UvBidBitmap.dump index.uvMap where
  code psid b found :=
    UvBidBitmap.code_dump (noWrap.uv psid b found) (intact.uv psid b found)
  large psid b found := by
    have small := noWrap.uv psid b found
    rw [UvBidBitmap.dump_eq (by omega) (intact.uv psid b found),
      b.toBidBitmap.dump_eq (by omega), entrySize]
    simp only [List.length_append, length_stringBytes_eq, b.toBitmap.length_dump small,
      keyed.uv psid b found]
    omega

/-- The merge offset is the position of the merge record, and both tables end in front of it. -/
theorem tables_le_position (order : index.DumpOrder) :
    (index.dumpUv order).offset = UInt64.ofNat (index.dumpUv order).out.position ∧
      (dumpOffsetMap (index.dumpPv order).offsets).bytes.length ≤
        (index.dumpUv order).out.position ∧
      65536 + (dumpOffsetMap (index.dumpUv order).offsets).bytes.length ≤
        (index.dumpUv order).out.position := by
  obtain ⟨pvOffset, pvTable⟩ := (counted_pv intact keyed noWrap).dumpEntries order.pv reserved rfl
    (reserved_offset.trans (congrArg _ reserved_position.symm))
  rw [← dumpPv, reserved_position] at pvTable
  obtain ⟨uvOffset, uvTable⟩ := (counted_uv intact keyed noWrap).dumpEntries order.uv
    ⟨(index.dumpPv order).out, (index.dumpPv order).offset, ∅⟩ rfl pvOffset
  rw [← dumpUv] at uvOffset uvTable
  have behind := index.le_position_dumpPv order
  dsimp only at uvTable
  exact ⟨uvOffset, by omega, by omega⟩

end Sizes

section Contents

/-- The file ends with the merge record, and the slot of the merge offset has its position. -/
structure MergeLast (file : List UInt8) (position : UInt64) (record : List UInt8) : Prop where
  nonempty : 0 < record.length
  stop : position.toNat + record.length = file.length
  slot : Holds file 131072 (u64Bytes position)
  tail : file.drop position.toNat = record

section Finished

variable {index : Index} (intact : index.Intact) (keyed : index.Keyed) (noWrap : index.NoWrap)
  {order : index.DumpOrder} {merge : UvMergeBitmap} {out : OutStream}
  (writes : out.writes = index.finishedWrites order merge)
include intact keyed noWrap

theorem end_le_position {write : Write}
    (member : write ∈ tableWrites (dumpOffsetMap (index.dumpPv order).offsets).bytes
      (dumpOffsetMap (index.dumpUv order).offsets).bytes (index.dumpUv order).offset) :
    write.start + write.bytes.length ≤ (index.dumpUv order).out.position := by
  obtain ⟨-, pvBelow, uvBelow⟩ := tables_le_position intact keyed noWrap order
  simp only [tableWrites, List.mem_cons, List.not_mem_nil, or_false] at member
  rcases member with rfl | rfl | rfl
  · dsimp only
    omega
  · exact uvBelow
  · rw [length_u64Bytes]
    exact index.le_position_dumpUv order

include writes

/-- A finished file ends where the merge record does. -/
theorem length_of_finished : out.contents.length =
    (index.dumpUv order).out.position + (merge.dump (order.merge merge)).bytes.length := by
  obtain ⟨records, consecutive, -, shape⟩ := writes_finished index order merge
  rw [shape] at writes
  exact length_contents_of_inside consecutive
    (fun _ member => (end_le_position intact keyed noWrap member).trans (Nat.le_add_right _ _))
    writes

/-- A finished file of fewer than `2 ^ 63` bytes, whose tables may be longer than their slots,
ends with the merge record. -/
theorem mergeLast_of_finished (present : index.getUvMergeBitmap = some merge)
    (small : out.contents.length < 2 ^ 63) :
    MergeLast out.contents (index.dumpUv order).offset
      (merge.dump (order.merge merge)).bytes := by
  have offset := (tables_le_position intact keyed noWrap order).1
  have reserved := index.le_position_dumpUv order
  have length := length_of_finished intact keyed noWrap writes
  obtain ⟨records, consecutive, recorded, shape⟩ := writes_finished index order merge
  have last : index.mergeWrite order merge ∈ records := by
    have member : index.mergeWrite order merge ∈
        (⟨0, List.replicate 131080 0⟩ : Write) :: records :=
      recorded ▸ List.mem_append_right _ List.mem_cons_self
    refine (List.mem_cons.mp member).resolve_left fun same => ?_
    have start : (index.dumpUv order).out.position = 0 := congrArg Write.start same
    omega
  rw [shape] at writes
  have held := (holds_of_behind consecutive writes last fun _ member =>
    end_le_position intact keyed noWrap member).drop_eq
  have position : (index.dumpUv order).offset.toNat = (index.dumpUv order).out.position := by
    rw [offset, UInt64.toNat_ofNat', Nat.mod_eq_of_lt (by omega)]
  constructor
  · have header := merge.toBitmap.length_dump_eq
    rw [merge.dump_eq _ ((noWrap.merge merge present).trans (by norm_num)), List.length_append]
    omega
  · rw [position, length]
  -- the slot of the merge offset is written last
  · have split (pvTable uvTable : List UInt8) (mergeOffset : UInt64) :
        tableWrites pvTable uvTable mergeOffset =
          [⟨0, pvTable⟩, ⟨65536, uvTable⟩] ++ [⟨131072, u64Bytes mergeOffset⟩] := rfl
    rw [OutStream.contents, writes, split, ← List.append_assoc, replay_append]
    exact holds_overwrite_self _ _ _
  · rw [position]
    refine held.trans ?_
    rw [List.drop_eq_nil_of_le (by rw [length]; rfl), List.append_nil]
    rfl

end Finished

/-- A file that ends with the merge record is not accepted without its end. -/
theorem MergeLast.rejects {file record : List UInt8} {position : UInt64}
    (last : MergeLast file position record) (rejects : Rejects UvMergeBitmap.empty.load record)
    (self : Index) {k : ℕ} (cut : k < file.length) :
    (self.load (some (file.take k))).code ≠ 0 := by
  intro loaded
  obtain ⟨ahead, mergeOffset, rest, mergeAhead, merge, mergeRest, seek, run, mergeSeek,
    mergeRun⟩ := merge_of_load loaded
  have slots : (pvOffsetMapSize + uvOffsetMapSize).toUInt64.toNat = 131072 := by decide
  rw [drop_of_fseek seek, slots, List.drop_take, last.slot.drop_eq] at run
  -- the offset that is read is the one that was written
  obtain rfl := (rejects_readU64 (1 : ℤ) position).eq_of_run_take (decodes_readU64 1 position) run
  rw [drop_of_fseek mergeSeek, List.drop_take, last.tail] at mergeRun
  have stop := last.stop
  have nonempty := last.nonempty
  exact rejects.fails (by omega) merge mergeRest mergeRun

/-- A truncated index file is never accepted. For every index of `Add`, `Load` and `Clear`
calls whose bitmaps carry the ad positions they are stored under, every order of its maps and
every proper prefix of the file of a successful `Dump`, `Load` into whatever index returns a
code that is not zero. A file has fewer than `2 ^ 63` bytes. -/
theorem rejects_truncated {index : Index} (reachable : Reachable index) (keyed : index.Keyed)
    (noWrap : index.NoWrap) (order : index.DumpOrder) {canClear canWrite : Bool}
    (done : 0 ≤ (index.dump order canClear canWrite).code) {out : OutStream}
    (produced : (index.dump order canClear canWrite).out = some out)
    (small : out.contents.length < 2 ^ 63) (self : Index) {k : ℕ}
    (cut : k < out.contents.length) :
    (self.load (some (out.contents.take k))).code ≠ 0 := by
  obtain ⟨merge, present, -, ⟨written, same, writes⟩, -⟩ := finished_of_nonneg done
  obtain rfl := Option.some.inj (same.symm.trans produced)
  obtain ⟨counters, keys⟩ := reachable.intact.merge merge present
  have last := mergeLast_of_finished reachable.intact keyed noWrap writes present small
  have counted := noWrap.merge merge present
  exact last.rejects (merge.rejects_load _ _ (by omega) counters keys) self cut

/-- Any part of the file with one sample is rejected. -/
theorem rejects_single :
    ∃ out, ((build (singleCalls [97])).dump (.stored _) true true).out = some out ∧
      131080 ≤ out.contents.length ∧ ∀ k < out.contents.length,
        (empty.load (some (out.contents.take k))).code ≠ 0 := by
  have dumpable := dumpable_single [97] (by decide)
  have present : (build (singleCalls [97])).getUvMergeBitmap = some (singleMerge [97]) := by
    rw [build_singleCalls]
    rfl
  have built := wellFormed_build (singleCalls [97])
  have keyed : (build (singleCalls [97])).Keyed :=
    ⟨fun psid b found => (built.pv psid b found).2.2.2,
      fun psid b found => (built.uv psid b found).2.2, fun _ _ => trivial⟩
  have noWrap : (build (singleCalls [97])).NoWrap :=
    ⟨fun psid b found => (dumpable.pvOccupied psid b found).1.noWrap,
      fun psid b found => (dumpable.uvOccupied psid b found).1.noWrap,
      fun m found => (dumpable.mergeOccupied m found).1.noWrap⟩
  have reachable := reachable_build (singleCalls [97])
  obtain ⟨-, ⟨out, produced, writes⟩, -⟩ := dumpable.finished (.stored _) present
  have length := length_of_finished reachable.intact keyed noWrap writes
  have reserved := (build (singleCalls [97])).le_position_dumpUv (.stored _)
  have small := dumpable.stop_lt (.stored _) present
  refine ⟨out, produced, by omega, fun k cut => ?_⟩
  exact rejects_truncated reachable keyed noWrap (.stored _) (code_single_nonneg (by decide))
    produced (by omega) empty cut

end Contents

end Index

end FlowRetrieval
