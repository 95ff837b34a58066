/-
# Loading undoes dumping

A `Dump` whose bitmaps are occupied and whose psids are short writes every record at
the offset the tables give for it, so a `Load` of the file finds the same bitmaps.

## Main results

* `Index.Dumpable.load_contents` — `Load` of the file succeeds and finds every bitmap
* `Index.roundTrips_of_build` — the round trip for every index built by calls
-/
import FlowRetrieval.Index.Layout

namespace FlowRetrieval

open CS CS.ByteCodec CS.ByteFile

namespace Index

/-- Two indexes give the same bitmaps for every psid, and merge bitmaps that differ
at most in the order in which their dictionaries are stored. -/
structure SameBitmaps (loaded original : Index) : Prop where
  pv : ∀ psid, loaded.getPvBidBitmap psid = original.getPvBidBitmap psid
  uv : ∀ psid, loaded.getUvBidBitmap psid = original.getUvBidBitmap psid
  merge : ∀ m, original.getUvMergeBitmap = some m →
    ∃ again, loaded.getUvMergeBitmap = some again ∧ again.toBitmap = m.toBitmap ∧
      again.sampleUv = m.sampleUv ∧ ∀ psid, again.psidDict.lookup psid = m.psidDict.lookup psid

/-- `Dump` returns the length of the file it writes, and `Load` of that file, into
whatever index, returns `0` and gives the same bitmaps. -/
def RoundTrips (index : Index) (order : index.DumpOrder) : Prop :=
  ∃ out, (index.dump order true true).out = some out ∧
    (index.dump order true true).code.toInt = out.contents.length ∧
    ∀ self : Index, (self.load (some out.contents)).code = 0 ∧
      SameBitmaps (self.load (some out.contents)).index index

section Contents

variable {index : Index} {order : index.DumpOrder} {merge : UvMergeBitmap}

/-- The file of a `Dump` whose tables fit: it ends with the last record, holds every
record where it was written, and gives both offset maps and the merge offset back. -/
theorem Dumpable.contents (dumpable : index.Dumpable) (order : index.DumpOrder)
    (present : index.getUvMergeBitmap = some merge)
    (pvFits : FitsSlot (stored index.pvMap.entries))
    (uvFits : FitsSlot (stored index.uvMap.entries)) :
    ∃ out, (index.dump order true true).out = some out ∧
      out.contents.length =
        (index.dumpUv order).out.position + (merge.dump (order.merge merge)).bytes.length ∧
      (∀ write ∈ (index.dumpUv order).out.writes ++ [index.mergeWrite order merge],
        131080 ≤ write.start →
          write.start < 2 ^ 63 ∧ Holds out.contents write.start write.bytes) ∧
      ReadsBack out.contents 0 (index.dumpPv order).offsets ∧
      ReadsBack out.contents pvOffsetMapSize.toUInt64 (index.dumpUv order).offsets ∧
      Holds out.contents 131072 (u64Bytes (index.dumpUv order).offset) := by
  obtain ⟨-, ⟨out, produced, writes⟩, pvOffsets, uvOffsets, -⟩ := dumpable.finished order present
  obtain ⟨records, consecutive, recorded, shape⟩ := writes_finished index order merge
  rw [← fitsSlot_keys_iff (perm_keys_dumpPv index order)] at pvFits
  rw [← fitsSlot_keys_iff (perm_keys_dumpUv index order)] at uvFits
  rw [shape] at writes
  have pvLength := length_dumpOffsetMap_le pvFits
  have uvLength := length_dumpOffsetMap_le uvFits
  have holds := holds_regions consecutive pvLength uvLength writes
  have stop := dumpable.stop_lt order present
  refine ⟨out, produced, length_contents consecutive pvLength uvLength writes, ?_, ?_, ?_, ?_⟩
  -- only the reserved block starts in front of the records
  · intro write member behind
    rw [recorded] at member
    rcases List.mem_cons.mp member with rfl | inside
    · exact absurd behind (by decide)
    · have within := consecutive.within write inside
      exact ⟨by omega, holds write (List.mem_append_left _ inside)⟩
  · exact readsBack_of_holds (by decide) pvFits
      (holds ⟨0, _⟩ (List.mem_append_right _ List.mem_cons_self))
  · exact readsBack_of_holds (by decide) uvFits
      (holds ⟨65536, _⟩ (List.mem_append_right _ (List.mem_cons_of_mem _ List.mem_cons_self)))
  · exact holds ⟨131072, _⟩ (List.mem_append_right _
      (List.mem_cons_of_mem _ (List.mem_cons_of_mem _ List.mem_cons_self)))

/-- Every recorded record is read at the offset of its psid. -/
theorem Recorded.readable {β : Type} {reader : Reader ℤ β} {file : List UInt8} {value : β}
    {state : DumpState} {psid : Str} {bytes : List UInt8} {loaded : OffsetMap} {offset : UInt64}
    (recorded : Recorded state psid bytes)
    (holds : ∀ write ∈ state.out.writes, 131080 ≤ write.start →
      write.start < 2 ^ 63 ∧ Holds file write.start write.bytes)
    (same : loaded.lookup psid = state.offsets.lookup psid)
    (found : loaded.lookup psid = some offset) (decodes : Decodes reader bytes value) :
    ∃ ahead rest, fseek file offset = some ahead ∧ reader.run ahead = .ok (value, rest) := by
  obtain ⟨write, inside, lookup, rfl, behind⟩ := recorded
  obtain ⟨small, held⟩ := holds write inside behind
  rw [same, lookup] at found
  obtain rfl := Option.some.inj found
  exact run_of_holds small held decodes

theorem known_iff {β : Type} {map : Dict Str (Option β)} {offsets loaded : OffsetMap}
    (perm : offsets.keys.Perm (stored map.entries))
    (same : ∀ psid, loaded.lookup psid = offsets.lookup psid) (psid : Str) :
    psid ∈ loaded ↔ (getEntry map psid).isSome := by
  -- the tables list the psids with a bitmap, and null entries have none
  have member : psid ∈ loaded ↔ psid ∈ stored map.entries := by
    rw [← AList.lookup_isSome, same psid, AList.lookup_isSome, AList.mem_keys]
    exact perm.mem_iff
  rw [member, mem_stored, Option.isSome_iff_exists]
  exact exists_congr fun bitmap => mem_entries_iff (Dict.Order.stored map)

/-- `Load` of the written file succeeds, whatever the index held before, and finds
every bitmap again. -/
theorem Dumpable.load_contents (dumpable : index.Dumpable) (order : index.DumpOrder)
    (present : index.getUvMergeBitmap = some merge)
    (pvFits : FitsSlot (stored index.pvMap.entries))
    (uvFits : FitsSlot (stored index.uvMap.entries)) (self : Index) {out : OutStream}
    (produced : (index.dump order true true).out = some out) :
    (self.load (some out.contents)).code = 0 ∧
      SameBitmaps (self.load (some out.contents)).index index := by
  obtain ⟨out', produced', -, holds, pvBack, uvBack, offsetHeld⟩ :=
    dumpable.contents order present pvFits uvFits
  obtain rfl := Option.some.inj (produced'.symm.trans produced)
  obtain ⟨pvAhead, pvLoaded, pvRest, pvSeek, pvRun, pvSame⟩ := pvBack
  obtain ⟨uvAhead, uvLoaded, uvRest, uvSeek, uvRun, uvSame⟩ := uvBack
  -- the tables are read before the records
  have atStart : fseek out'.contents 0 = some out'.contents := fseek_eq (by decide)
  obtain rfl := Option.some.inj (atStart.symm.trans pvSeek)
  obtain ⟨offsetAhead, offsetRest, offsetSeek, offsetRun⟩ :=
    run_of_holds (by decide) offsetHeld (decodes_readU64 (1 : ℤ) _)
  have slots : (pvOffsetMapSize + uvOffsetMapSize).toUInt64 = UInt64.ofNat 131072 := by decide
  -- the merge record
  obtain ⟨padded, counters, keys⟩ := dumpable.merge merge present
  obtain ⟨occupied, short⟩ := dumpable.mergeOccupied merge present
  have noWrap := occupied.noWrap
  obtain ⟨aligned, -, uvRecorded⟩ := dumpable.dumpUv order
  obtain ⟨mergeSmall, mergeHeld⟩ := holds (index.mergeWrite order merge)
    (List.mem_append_right _ List.mem_cons_self) (index.le_position_dumpUv order)
  obtain ⟨mergeAhead, mergeRest, mergeSeek, mergeRun⟩ := run_of_holds mergeSmall mergeHeld
    (UvMergeBitmap.decodes_load .empty merge (order.merge merge) (by omega)
      (padded.data_ne_nil occupied) counters keys short)
  have mergeStart : UInt64.ofNat (index.mergeWrite order merge).start =
      (index.dumpUv order).offset := aligned.symm
  rw [mergeStart] at mergeSeek
  -- the bitmap records
  have uvHeld write (inside : write ∈ (index.dumpUv order).out.writes) :=
    holds write (List.mem_append_left _ inside)
  have pvFound := getEntry_loadEntries (known_iff (perm_keys_dumpPv index order) pvSame)
    fun psid offset b found value =>
      ((dumpable.dumpPv order).2.2 psid b value).readable
        (fun write inside => uvHeld write (index.writes_dumpPv_subset order inside))
        (pvSame psid) found (dumpable.decodes_pv value)
  have uvFound := getEntry_loadEntries (known_iff (perm_keys_dumpUv index order) uvSame)
    fun psid offset b found value =>
      (uvRecorded psid b value).readable uvHeld (uvSame psid) found (dumpable.decodes_uv value)
  simp only [load, clear, empty, pvRun, uvSeek, uvRun, slots, offsetSeek, offsetRun, mergeSeek,
    mergeRun]
  refine ⟨trivial, pvFound, uvFound, ?_⟩
  intro m same
  obtain rfl := Option.some.inj (present.symm.trans same)
  exact ⟨_, rfl, rfl, rfl, Dict.lookup_insertAll_order (order.merge merge)⟩

end Contents

section Build

/-- For every index built by calls, with occupied bitmaps, tables that fit their
slots and merge psids shorter than `2 ^ 32` bytes, and every order of its maps. -/
theorem roundTrips_of_build (calls : List Call) (order : (build calls).DumpOrder)
    (merge : UvMergeBitmap) (present : (build calls).getUvMergeBitmap = some merge)
    (pvOccupied : ∀ psid b, (build calls).getPvBidBitmap psid = some b → b.Occupied)
    (uvOccupied : ∀ psid b, (build calls).getUvBidBitmap psid = some b → b.Occupied)
    (mergeOccupied : merge.Occupied)
    (pvFits : FitsSlot (stored (build calls).pvMap.entries))
    (uvFits : FitsSlot (stored (build calls).uvMap.entries))
    (mergeShort : ∀ psid ∈ merge.psidDict, psid.length < 2 ^ 32) :
    RoundTrips (build calls) order := by
  have listed {β : Type} {map : Dict Str (Option β)} {psid : Str} {bitmap : β}
      (found : getEntry map psid = some bitmap) : psid ∈ stored map.entries :=
    mem_stored.mpr ⟨bitmap, (mem_entries_iff (.stored map)).mpr found⟩
  have dumpable : (build calls).Dumpable :=
    { wellFormed_build calls with
      pvOccupied := fun psid b found => ⟨pvOccupied psid b found, pvFits.short psid (listed found)⟩
      uvOccupied := fun psid b found => ⟨uvOccupied psid b found, uvFits.short psid (listed found)⟩
      mergeOccupied := fun m found => by
        obtain rfl := Option.some.inj (present.symm.trans found)
        exact ⟨mergeOccupied, mergeShort⟩
      pvFew := pvFits.few
      uvFew := uvFits.few }
  obtain ⟨out, produced, length, -⟩ := dumpable.contents order present pvFits uvFits
  refine ⟨out, produced, ?_, fun self =>
    dumpable.load_contents order present pvFits uvFits self produced⟩
  rw [dumpable.code_dump order present, ← length, Int64.toInt_ofNat_of_lt]
  rw [length]
  exact dumpable.stop_lt order present

/-- The condition holds for the index with one sample. -/
theorem roundTrips_single : RoundTrips (build (singleCalls [97])) (.stored _) := by
  have dumpable := dumpable_single [97] (by decide)
  have present : (build (singleCalls [97])).getUvMergeBitmap = some (singleMerge [97]) := by
    rw [build_singleCalls]
    rfl
  obtain ⟨occupied, short⟩ := dumpable.mergeOccupied _ present
  obtain ⟨pv, uv⟩ := stored_single [97]
  refine roundTrips_of_build _ _ _ present (fun psid b found => (dumpable.pvOccupied psid b found).1)
    (fun psid b found => (dumpable.uvOccupied psid b found).1) occupied ?_ ?_ short
  · rw [pv]
    simp [FitsSlot, tableSize]
  · rw [uv]
    simp [FitsSlot, tableSize]

/-- Without a bound on the psids of the merge bitmap the round trip fails: of the
length `2 ^ 32` only the low 32 bits are written. -/
theorem not_roundTrips_longPsid :
    ¬ ∀ (calls : List Call) (order : (build calls).DumpOrder) (merge : UvMergeBitmap),
      (build calls).getUvMergeBitmap = some merge →
      (∀ psid b, (build calls).getPvBidBitmap psid = some b → b.Occupied) →
      (∀ psid b, (build calls).getUvBidBitmap psid = some b → b.Occupied) →
      merge.Occupied →
      FitsSlot (stored (build calls).pvMap.entries) →
      FitsSlot (stored (build calls).uvMap.entries) →
      RoundTrips (build calls) order := by
  intro claim
  -- an index with a single merge psid of `2 ^ 32` bytes meets every condition
  obtain ⟨psid, length⟩ : ∃ psid : Str, psid.length = 2 ^ 32 :=
    ⟨List.replicate (2 ^ 32) 97, List.length_replicate⟩
  have built : build [.uvMerge [[psid]]] = ⟨∅, ∅, some (singleMerge psid)⟩ := by
    simp only [build, List.foldl_cons, List.foldl_nil, call, addUvMergeBitmap, empty,
      generate_singleMerge]
  have occupied : singleBitmap.Occupied := ⟨by decide, by decide, by decide⟩
  have trips := claim [.uvMerge [[psid]]] (.stored _) (singleMerge psid) (by rw [built]; rfl)
    (by rw [built]; simp [getPvBidBitmap, getEntry])
    (by rw [built]; simp [getUvBidBitmap, getEntry]) occupied
    (by rw [built]; simp [stored, FitsSlot, tableSize])
    (by rw [built]; simp [stored, FitsSlot, tableSize])
  obtain ⟨out, -, -, load⟩ := trips
  obtain ⟨again, found, -, -, same⟩ :=
    (load empty).2.merge (singleMerge psid) (by rw [built]; rfl)
  have present : psid ∈ again.psidDict := by
    rw [← AList.lookup_isSome, same psid, AList.lookup_isSome]
    exact AList.mem_keys.mpr List.mem_cons_self
  -- no key that is read back has this length
  rcases load_cases empty (some out.contents) with ⟨-, missing⟩ | ⟨-, m, ahead, rest, stored, run⟩
  · rw [missing] at found
    cases found
  · obtain rfl := Option.some.inj (stored.symm.trans found)
    have short := UvMergeBitmap.yields_load .empty ahead m rest run psid present
    omega

end Build

end Index

end FlowRetrieval
