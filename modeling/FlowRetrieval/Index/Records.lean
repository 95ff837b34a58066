/-
# The records of an index file

When `Generate` built the bitmaps, lengths fit in 32 bits and the record count fits
the tables, `Dump` counts every byte it writes: the offset it keeps is the position
of the next record, and the code it returns is where the last record ends.

## Main results

* `Index.recorded_dumpEntries` — a record loop gives every bitmap its record
* `Index.Dumpable.code_dump` — `Dump` returns the end of the last record
-/
import FlowRetrieval.Index.Dump

namespace FlowRetrieval

open CS CS.ByteCodec CS.ByteFile

namespace Index

/-- The conditions under which `Dump` counts every byte it writes: `Generate` built
the bitmaps, they have rows and columns, and lengths fit in 32 bits. -/
structure Dumpable (index : Index) : Prop extends index.WellFormed where
  pvOccupied : ∀ psid b, index.getPvBidBitmap psid = some b →
    b.Occupied ∧ psid.length < 2 ^ 32
  uvOccupied : ∀ psid b, index.getUvBidBitmap psid = some b →
    b.Occupied ∧ psid.length < 2 ^ 32
  mergeOccupied : ∀ m, index.getUvMergeBitmap = some m →
    m.Occupied ∧ ∀ psid ∈ m.psidDict, psid.length < 2 ^ 32
  pvFew : (stored index.pvMap.entries).length ≤ 5461
  uvFew : (stored index.uvMap.entries).length ≤ 5461

theorem mem_entries_iff {β : Type} {map : Dict Str (Option β)} (order : map.Order) {psid : Str}
    {bitmap : β} : ⟨psid, some bitmap⟩ ∈ order.entries ↔ getEntry map psid = some bitmap := by
  rw [order.mem_entries, getEntry, Option.join_eq_some_iff]

/-- The record of `psid` has the given bytes and lies behind the tables, at the
offset `state` has for it. -/
def Recorded (state : DumpState) (psid : Str) (bytes : List UInt8) : Prop :=
  ∃ write ∈ state.out.writes,
    state.offsets.lookup psid = some (UInt64.ofNat write.start) ∧ write.bytes = bytes ∧
      131080 ≤ write.start

/-- A loop over bitmaps whose bytes are counted gives each of them its record. -/
theorem recorded_dumpEntries {β : Type} {dump : β → Dumped} {map : Dict Str (Option β)}
    (order : map.Order) {state : DumpState}
    (counted : ∀ psid bitmap, getEntry map psid = some bitmap →
      (dump bitmap).code = Int64.ofNat (dump bitmap).bytes.length ∧
        (dump bitmap).bytes.length ≤ 2 ^ 35)
    (few : (stored map.entries).length ≤ 5461)
    (aligned : state.offset = UInt64.ofNat state.out.position)
    (behind : 131080 ≤ state.out.position) :
    (dumpEntries dump order.entries state).offset =
        UInt64.ofNat (dumpEntries dump order.entries state).out.position ∧
      (dumpEntries dump order.entries state).out.position ≤ state.out.position + 5461 * 2 ^ 35 ∧
      ∀ psid bitmap, getEntry map psid = some bitmap →
        Recorded (dumpEntries dump order.entries state) psid (dump bitmap).bytes := by
  have counts psid bitmap (member : ⟨psid, some bitmap⟩ ∈ order.entries) :=
    counted psid bitmap ((mem_entries_iff order).mp member)
  obtain ⟨offset, records⟩ := lookup_dumpEntries dump order.nodupKeys
    (fun psid bitmap member => (counts psid bitmap member).1) aligned
  refine ⟨offset, ?_, ?_⟩
  · have number : (stored order.entries).length ≤ 5461 :=
      (order.perm.filterMap _).length_eq.trans_le few
    exact (position_dumpEntries_le dump state fun psid bitmap member =>
      (counts psid bitmap member).2).trans (Nat.add_le_add_left (Nat.mul_le_mul_right _ number) _)
  · intro psid bitmap found
    obtain ⟨write, inside, lookup, bytes, after⟩ :=
      records psid bitmap ((mem_entries_iff order).mpr found)
    exact ⟨write, inside, lookup, bytes, behind.trans after⟩

section Records

variable {index : Index} {order : index.DumpOrder} (dumpable : index.Dumpable)
include dumpable

theorem Dumpable.code_pv {psid : Str} {b : PvBidBitmap}
    (found : index.getPvBidBitmap psid = some b) :
    b.dump.code = Int64.ofNat b.dump.bytes.length ∧ b.dump.bytes.length ≤ 2 ^ 35 := by
  obtain ⟨-, paired, valid, key⟩ := dumpable.pv psid b found
  obtain ⟨occupied, short⟩ := dumpable.pvOccupied psid b found
  rw [← key] at short
  have noWrap := occupied.noWrap
  have size := b.size.toNat_lt
  refine ⟨PvBidBitmap.code_dump noWrap paired valid, ?_⟩
  rw [PvBidBitmap.length_dump noWrap paired valid short]
  omega

theorem Dumpable.code_uv {psid : Str} {b : UvBidBitmap}
    (found : index.getUvBidBitmap psid = some b) :
    b.dump.code = Int64.ofNat b.dump.bytes.length ∧ b.dump.bytes.length ≤ 2 ^ 35 := by
  obtain ⟨-, paired, key⟩ := dumpable.uv psid b found
  obtain ⟨occupied, short⟩ := dumpable.uvOccupied psid b found
  rw [← key] at short
  have noWrap := occupied.noWrap
  have size := b.size.toNat_lt
  refine ⟨UvBidBitmap.code_dump noWrap paired, ?_⟩
  rw [UvBidBitmap.length_dump noWrap paired short]
  omega

theorem Dumpable.decodes_pv {psid : Str} {b : PvBidBitmap}
    (found : index.getPvBidBitmap psid = some b) :
    Decodes PvBidBitmap.empty.load b.dump.bytes b := by
  obtain ⟨padded, paired, valid, key⟩ := dumpable.pv psid b found
  obtain ⟨occupied, short⟩ := dumpable.pvOccupied psid b found
  have noWrap := occupied.noWrap
  exact PvBidBitmap.decodes_load .empty b (by omega) (padded.data_ne_nil occupied) paired valid
    (key ▸ short)

theorem Dumpable.decodes_uv {psid : Str} {b : UvBidBitmap}
    (found : index.getUvBidBitmap psid = some b) :
    Decodes UvBidBitmap.empty.load b.dump.bytes b := by
  obtain ⟨padded, paired, key⟩ := dumpable.uv psid b found
  obtain ⟨occupied, short⟩ := dumpable.uvOccupied psid b found
  have noWrap := occupied.noWrap
  exact UvBidBitmap.decodes_load .empty b (by omega) (padded.data_ne_nil occupied) paired
    (key ▸ short)

/-- After the first loop every stored bitmap has its record, and the offset is the
position of the next one. -/
theorem Dumpable.dumpPv (order : index.DumpOrder) :
    (index.dumpPv order).offset = UInt64.ofNat (index.dumpPv order).out.position ∧
      (index.dumpPv order).out.position ≤ 131080 + 5461 * 2 ^ 35 ∧
      ∀ psid b, index.getPvBidBitmap psid = some b →
        Recorded (index.dumpPv order) psid b.dump.bytes := by
  have start := reserved_position
  have loop := recorded_dumpEntries order.pv (fun _ _ => dumpable.code_pv) dumpable.pvFew
    (reserved_offset.trans (congrArg _ start.symm)) start.ge
  rwa [start] at loop

/-- The same after the second loop. -/
theorem Dumpable.dumpUv (order : index.DumpOrder) :
    (index.dumpUv order).offset = UInt64.ofNat (index.dumpUv order).out.position ∧
      (index.dumpUv order).out.position ≤ 131080 + 2 * 5461 * 2 ^ 35 ∧
      ∀ psid b, index.getUvBidBitmap psid = some b →
        Recorded (index.dumpUv order) psid b.dump.bytes := by
  obtain ⟨aligned, bound, -⟩ := dumpable.dumpPv order
  have begun : (⟨(index.dumpPv order).out, (index.dumpPv order).offset, ∅⟩ : DumpState).offset =
      UInt64.ofNat (index.dumpPv order).out.position := aligned
  obtain ⟨offset, position, recorded⟩ := recorded_dumpEntries order.uv
    (fun _ _ => dumpable.code_uv) dumpable.uvFew begun
    (index.le_position_dumpPv order)
  exact ⟨offset, position.trans (by dsimp only; omega), recorded⟩

/-- A `Dump` that can open its file reaches its end. -/
theorem Dumpable.finished (order : index.DumpOrder) {merge : UvMergeBitmap}
    (present : index.getUvMergeBitmap = some merge) :
    Finished (index.dump order true true) index order merge := by
  have few {offsets : OffsetMap} {psids : List Str} (perm : offsets.keys.Perm psids)
      (bound : psids.length ≤ 5461) : offsets.entries.length ≤ 5461 := by
    rwa [← perm.length_eq, AList.keys, List.keys, List.length_map] at bound
  exact finished_dump present
    (dumpOffsetMap_not_neg (few (perm_keys_dumpPv index order) dumpable.pvFew))
    (dumpOffsetMap_not_neg (few (perm_keys_dumpUv index order) dumpable.uvFew))

/-- The end of the last record, which `Dump` returns, is a small number. -/
theorem Dumpable.stop_lt (order : index.DumpOrder) {merge : UvMergeBitmap}
    (present : index.getUvMergeBitmap = some merge) :
    (index.dumpUv order).out.position + (merge.dump (order.merge merge)).bytes.length < 2 ^ 63 := by
  obtain ⟨padded, counters, keys⟩ := dumpable.merge merge present
  obtain ⟨occupied, short⟩ := dumpable.mergeOccupied merge present
  have position := (dumpable.dumpUv order).2.1
  have record := merge.length_dump_lt (order.merge merge) padded occupied counters keys short
  omega

theorem Dumpable.code_dump (order : index.DumpOrder) {merge : UvMergeBitmap}
    (present : index.getUvMergeBitmap = some merge) :
    (index.dump order true true).code = Int64.ofNat
      ((index.dumpUv order).out.position + (merge.dump (order.merge merge)).bytes.length) := by
  obtain ⟨occupied, short⟩ := dumpable.mergeOccupied merge present
  -- the offset and the size of the last record are added as 64-bit numbers
  rw [(dumpable.finished order present).1, (dumpable.dumpUv order).1,
    merge.code_dump _ occupied.noWrap, Int64.toUInt64_ofNat', ← UInt64.ofNat_add,
    UInt64.toInt64_ofNat']

end Records

section Single

/-- A bitmap with one row and one column, which is set. -/
def singleBitmap : Bitmap where
  width := 8
  size := 1
  height := 1
  data := [128, 0, 0, 0, 0, 0, 0, 0]
  allocated := rfl

/-- The page-view bitmap of one sample with bid 5. -/
def singlePv (psid : Str) : PvBidBitmap :=
  { singleBitmap with
    bids := [5]
    psid := psid
    request := 1
    pv := 1
    hourlyRequest := List.replicate 24 0
    hourlyPv := List.replicate 24 0
    hourlyCtr := List.replicate 24 0 }

/-- The merge bitmap of one sample with one ad position. -/
def singleMerge (psid : Str) : UvMergeBitmap :=
  { singleBitmap with
    sampleUv := [1]
    psidDict := AList.singleton psid 0 }

/-- The calls that build an index with these two bitmaps. -/
def singleCalls (psid : Str) : List Call :=
  [.uvMerge [[psid]],
    .pv psid 1 1 (List.replicate 24 0) (List.replicate 24 0) (List.replicate 24 0) [[0]] [5] 1]

theorem generate_singleMerge (psid : Str) :
    UvMergeBitmap.empty.generate [[psid]] = some (singleMerge psid) := by
  have encoded : UvMergeBitmap.encodeSamples ∅ [[psid]] = (AList.singleton psid 0, [[0]]) := rfl
  have base : Bitmap.generate [[0]] 1 = some singleBitmap := rfl
  have keys : UInt32.ofNat (AList.singleton psid 0 : Dict Str Int32).entries.length = 1 := rfl
  simp only [UvMergeBitmap.generate, UvMergeBitmap.clear, UvMergeBitmap.empty, encoded, keys, base]
  rfl

theorem build_singleCalls (psid : Str) :
    build (singleCalls psid) =
      ⟨AList.singleton psid (some (singlePv psid)), ∅, some (singleMerge psid)⟩ := by
  have generated : PvBidBitmap.empty.generate psid 1 1 (List.replicate 24 0)
      (List.replicate 24 0) (List.replicate 24 0) [[0]] [5] 1 = some (singlePv psid) := rfl
  have created : (∅ : Dict Str (Option PvBidBitmap)).insertNew psid none =
      AList.singleton psid none := rfl
  simp only [build, singleCalls, List.foldl_cons, List.foldl_nil, call, addUvMergeBitmap,
    addPvBidBitmap, addEntry, empty, generate_singleMerge, generated, created,
    Dict.lookup_singleton, if_true, AList.insert_singleton_eq, Option.join_some]

theorem dumpable_single (psid : Str) (short : psid.length < 2 ^ 32) :
    (build (singleCalls psid)).Dumpable := by
  have occupied : singleBitmap.Occupied := ⟨by decide, by decide, by decide⟩
  have built := wellFormed_build (singleCalls psid)
  rw [build_singleCalls] at built ⊢
  refine ⟨built, ?_, ?_, ?_, ?_, ?_⟩
  · intro key b found
    have member := (mem_entries_iff (Dict.Order.stored _)).mpr found
    obtain ⟨rfl, same⟩ := Sigma.mk.inj (List.mem_singleton.mp member)
    obtain rfl := Option.some.inj (eq_of_heq same)
    exact ⟨occupied, short⟩
  · intro key b found
    have member := (mem_entries_iff (Dict.Order.stored _)).mpr found
    cases member
  · intro m found
    obtain rfl := Option.some.inj found
    refine ⟨occupied, ?_⟩
    intro key member
    obtain rfl : key = psid := List.mem_singleton.mp (AList.mem_keys.mp member)
    exact short
  · exact Nat.le_of_ble_eq_true rfl
  · exact Nat.le_of_ble_eq_true rfl

theorem stored_single (psid : Str) :
    stored (build (singleCalls psid)).pvMap.entries = [psid] ∧
      stored (build (singleCalls psid)).uvMap.entries = [] := by
  rw [build_singleCalls]
  exact ⟨rfl, rfl⟩

theorem code_single_nonneg {psid : Str} (short : psid.length < 2 ^ 32) :
    0 ≤ ((build (singleCalls psid)).dump (.stored _) true true).code := by
  have dumpable := dumpable_single psid short
  have present : (build (singleCalls psid)).getUvMergeBitmap = some (singleMerge psid) := by
    rw [build_singleCalls]
    rfl
  rw [dumpable.code_dump _ present, ← Int64.not_lt]
  exact Dumped.not_neg_of_small (dumpable.stop_lt _ present)

end Single

end Index

end FlowRetrieval
