/-
# Reading an index file

`Index::Load` reads the two offset tables and the merge offset and then the record
at every offset. A bitmap record that cannot be read is skipped; a table or a merge
bitmap that cannot be read ends the call, with what has been stored so far left in
the index. The code never closes the stream it opens.
-/
import FlowRetrieval.Index.Dump

namespace FlowRetrieval

open CS CS.ByteCodec CS.ByteFile

namespace Index

/-- The bytes a stream on `file` has ahead after `fseek`. A `uint64_t` position is
passed as a `long`, and a negative one is refused. -/
def fseek (file : List UInt8) (position : UInt64) : Option (List UInt8) :=
  if position.toInt64 < 0 then none else some (file.drop position.toNat)

/-- One entry of an offset table as `LoadOffsetMap` reads it. -/
def readOffset : Reader ℤ (Σ _ : Str, UInt64) := do
  let psid ← readString 1
  let offset ← readU64 1
  return ⟨psid, offset⟩

/-- `LoadOffsetMap`. -/
def loadOffsetMap : Reader ℤ OffsetMap := do
  let size ← readU32 1
  let entries ← times readOffset size.toNat
  return (∅ : OffsetMap).insertAll entries

/-- The body of a record loop of `Load`. -/
def loadEntry {β : Type} (reader : Reader ℤ β) (file : List UInt8) (map : Dict Str (Option β))
    (entry : Σ _ : Str, UInt64) : Dict Str (Option β) :=
  -- a record that cannot be reached or read is skipped
  match fseek file entry.2 with
  | none => map
  | some ahead =>
    match reader.run ahead with
    | .error _ => map
    | .ok (bitmap, _) => map.insertNew entry.1 (some bitmap)

/-- A record loop of `Load`. -/
def loadEntries {β : Type} (reader : Reader ℤ β) (file : List UInt8) (offsets : OffsetMap)
    (map : Dict Str (Option β)) : Dict Str (Option β) :=
  offsets.ordered.entries.foldl (loadEntry reader file) map

/-- What a call of `Load` does: the code it returns, the index it leaves, and the
number of streams it leaves open. -/
structure LoadRun where
  code : ℤ
  index : Index
  openStreams : ℕ

/-- `Load`; `file` is `none` when `fopen` fails. -/
def load (self : Index) (file : Option (List UInt8)) : LoadRun :=
  let self := self.clear
  match file with
  | none => ⟨-1, self, 0⟩
  | some file =>
    match loadOffsetMap.run file with
    | .error _ => ⟨-2, self, 1⟩
    | .ok (pvOffsets, _) =>
      match fseek file pvOffsetMapSize.toUInt64 with
      | none => ⟨-3, self, 1⟩
      | some ahead =>
        match loadOffsetMap.run ahead with
        | .error _ => ⟨-2, self, 1⟩
        | .ok (uvOffsets, _) =>
          match fseek file (pvOffsetMapSize + uvOffsetMapSize).toUInt64 with
          | none => ⟨-3, self, 1⟩
          | some ahead =>
            match (readU64 (1 : ℤ)).run ahead with
            | .error _ => ⟨-4, self, 1⟩
            | .ok (mergeOffset, _) =>
              let self := { self with
                pvMap := loadEntries PvBidBitmap.empty.load file pvOffsets self.pvMap }
              let self := { self with
                uvMap := loadEntries UvBidBitmap.empty.load file uvOffsets self.uvMap }
              match fseek file mergeOffset with
              | none => ⟨-3, self, 1⟩
              | some ahead =>
                match UvMergeBitmap.empty.load.run ahead with
                | .error _ => ⟨-6, self, 1⟩
                | .ok (merge, _) => ⟨0, { self with uvMergeMap := some merge }, 1⟩

/-- `Load` clears the index first, so its outcome depends on the file alone. -/
theorem load_eq_load_empty (self : Index) (file : Option (List UInt8)) :
    self.load file = empty.load file := rfl

/-- A `Load` that returns `0` has stored a merge bitmap it read; any other `Load`
leaves the index without one. -/
theorem load_cases (self : Index) (file : Option (List UInt8)) :
    ((self.load file).code ≠ 0 ∧ (self.load file).index.getUvMergeBitmap = none) ∨
      ((self.load file).code = 0 ∧ ∃ m ahead rest,
        (self.load file).index.getUvMergeBitmap = some m ∧
          UvMergeBitmap.empty.load.run ahead = .ok (m, rest)) := by
  unfold load
  -- one goal for each return statement, the last one being the success
  repeat' split
  all_goals first
    | exact .inl ⟨by simp, rfl⟩
    | exact .inr ⟨rfl, _, _, _, rfl, by assumption⟩

/-- A `Load` that returns `0` has read a merge record at the offset in the slot of the merge
offset. -/
theorem merge_of_load {self : Index} {file : List UInt8}
    (loaded : (self.load (some file)).code = 0) :
    ∃ ahead mergeOffset rest mergeAhead merge mergeRest,
      fseek file (pvOffsetMapSize + uvOffsetMapSize).toUInt64 = some ahead ∧
        (readU64 (1 : ℤ)).run ahead = .ok (mergeOffset, rest) ∧
        fseek file mergeOffset = some mergeAhead ∧
        UvMergeBitmap.empty.load.run mergeAhead = .ok (merge, mergeRest) := by
  unfold load at loaded
  -- every return statement but the last has a code that is not zero
  repeat' split at loaded
  all_goals try (simp at loaded; done)
  obtain rfl := Option.some.inj ‹some file = some _›
  exact ⟨_, _, _, _, _, _, by assumption, by assumption, by assumption, by assumption⟩

theorem drop_of_fseek {file ahead : List UInt8} {position : UInt64}
    (seek : fseek file position = some ahead) : ahead = file.drop position.toNat := by
  rw [fseek] at seek
  split at seek
  · cases seek
  · exact (Option.some.inj seek).symm

section OffsetMaps

/-- The entries of a table are read back in the order they were written. -/
theorem decodes_loadOffsetMap {offsets : OffsetMap}
    (short : ∀ psid ∈ offsets, psid.length < 2 ^ 32)
    (few : offsets.entries.length < 2 ^ 32) :
    Decodes loadOffsetMap (dumpOffsetMap offsets).bytes
      ((∅ : OffsetMap).insertAll offsets.ordered.entries) := by
  have entry (e : Σ _ : Str, UInt64) (member : e ∈ offsets.ordered.entries) :
      Decodes readOffset (offsetBytes e) e := by
    have small := short e.1 (offsets.ordered.key_mem member)
    exact (decodes_readString 1 small).bind ((decodes_readU64 1 e.2).bind_pure _)
  have entries : Decodes (times readOffset (UInt32.ofNat offsets.entries.length).toNat)
      (offsets.ordered.entries.flatMap offsetBytes) offsets.ordered.entries := by
    rw [UInt32.toNat_ofNat', Nat.mod_eq_of_lt few, ← offsets.ordered.perm.length_eq]
    exact decodes_times entry
  exact (decodes_readU32 1 _).bind (entries.bind_pure _)

/-- No key of a table that is read has `2 ^ 32` bytes or more. -/
theorem yields_loadOffsetMap :
    Yields loadOffsetMap fun offsets => ∀ psid ∈ offsets, psid.length < 2 ^ 32 := by
  have entry : Yields readOffset fun e => e.1.length < 2 ^ 32 :=
    (yields_readString 1).bind fun psid short =>
      (yields_true _).bind fun offset _ => yields_pure short
  refine (yields_true _).bind fun size _ =>
    (yields_times entry _).bind fun entries each => yields_pure fun psid member => ?_
  obtain ⟨offset, inside⟩ := Dict.exists_mem_of_mem_insertAll member
  exact each.2 _ inside

/-- `LoadOffsetMap` at `position` gives a map with the values of `offsets`. -/
def ReadsBack (file : List UInt8) (position : UInt64) (offsets : OffsetMap) : Prop :=
  ∃ ahead loaded rest, fseek file position = some ahead ∧
    loadOffsetMap.run ahead = .ok (loaded, rest) ∧
    ∀ psid, loaded.lookup psid = offsets.lookup psid

/-- The condition under which an offset table stays inside its slot. -/
def FitsSlot (psids : List Str) : Prop := tableSize psids ≤ 65536

theorem FitsSlot.short {psids : List Str} (fits : FitsSlot psids) :
    ∀ psid ∈ psids, psid.length < 2 ^ 32 := by
  intro psid member
  have := length_le_tableSize member
  rw [FitsSlot] at fits
  omega

theorem FitsSlot.few {psids : List Str} (fits : FitsSlot psids) : psids.length ≤ 5461 := by
  have := count_le_tableSize psids
  rw [FitsSlot] at fits
  omega

theorem fseek_eq {file : List UInt8} {position : UInt64} (small : position.toNat < 2 ^ 63) :
    fseek file position = some (file.drop position.toNat) := by
  apply if_neg
  have same : position.toInt64 = Int64.ofNat position.toNat := by
    rw [← UInt64.toInt64_ofNat', UInt64.ofNat_toNat]
  rw [same]
  exact Dumped.not_neg_of_small small

/-- A table that is held at its position and fits its slot is read back. -/
theorem readsBack_of_holds {file : List UInt8} {position : UInt64} {offsets : OffsetMap}
    (small : position.toNat < 2 ^ 63) (fits : FitsSlot offsets.keys)
    (holds : Holds file position.toNat (dumpOffsetMap offsets).bytes) :
    ReadsBack file position offsets := by
  have few : offsets.entries.length < 2 ^ 32 := by
    have := fits.few
    rw [AList.keys, List.keys, List.length_map] at this
    omega
  have decodes := decodes_loadOffsetMap
    (fun psid member => fits.short psid (AList.mem_keys.mp member)) few
  exact ⟨_, _, _, fseek_eq small, holds.drop_eq ▸ decodes.run _,
    Dict.lookup_insertAll_order offsets.ordered⟩

/-- Only maps with short keys are read back. -/
theorem ReadsBack.short {file : List UInt8} {position : UInt64} {offsets : OffsetMap}
    (back : ReadsBack file position offsets) : ∀ psid ∈ offsets, psid.length < 2 ^ 32 := by
  obtain ⟨ahead, loaded, rest, -, run, same⟩ := back
  intro psid member
  rw [← AList.lookup_isSome, ← same psid, AList.lookup_isSome] at member
  exact yields_loadOffsetMap ahead loaded rest run psid member

end OffsetMaps

section Records

variable {β : Type} {reader : Reader ℤ β} {file : List UInt8}

/-- An encoding held at a position is read there. -/
theorem run_of_holds {position : ℕ} {bytes : List UInt8} {value : β} (small : position < 2 ^ 63)
    (holds : Holds file position bytes) (decodes : Decodes reader bytes value) :
    ∃ ahead rest, fseek file (UInt64.ofNat position) = some ahead ∧
      reader.run ahead = .ok (value, rest) := by
  have same : (UInt64.ofNat position).toNat = position := by
    rw [UInt64.toNat_ofNat', Nat.mod_eq_of_lt (by omega)]
  have ahead : file.drop (UInt64.ofNat position).toNat =
      bytes ++ file.drop (position + bytes.length) := same.symm ▸ holds.drop_eq
  exact ⟨_, _, fseek_eq (by omega), ahead ▸ decodes.run _⟩

/-- When the reader accepts a record at the offset of every key, the loop stores
exactly these records. -/
theorem getEntry_loadEntries {offsets : OffsetMap} {stored : Str → Option β}
    (known : ∀ psid, psid ∈ offsets ↔ (stored psid).isSome)
    (readable : ∀ psid offset bitmap, offsets.lookup psid = some offset →
      stored psid = some bitmap → ∃ ahead rest, fseek file offset = some ahead ∧
        reader.run ahead = .ok (bitmap, rest)) (psid : Str) :
    getEntry (loadEntries reader file offsets ∅) psid = stored psid := by
  -- every turn of the loop stores the record of its key
  have step (map : Dict Str (Option β)) (entry : Σ _ : Str, UInt64)
      (member : entry ∈ offsets.ordered.entries) :
      loadEntry reader file map entry = map.insertNew entry.1 (stored entry.1) := by
    have found := offsets.ordered.mem_entries.mp member
    obtain ⟨bitmap, value⟩ := Option.isSome_iff_exists.mp
      ((known entry.1).mp (AList.lookup_isSome.mp (Option.isSome_of_eq_some found)))
    obtain ⟨ahead, rest, seek, run⟩ := readable entry.1 entry.2 bitmap found value
    simp only [loadEntry, seek, run, value]
  have whole : loadEntries reader file offsets ∅ =
      (∅ : Dict Str (Option β)).insertAll
        (offsets.ordered.entries.map fun entry => ⟨entry.1, stored entry.1⟩) := by
    rw [Dict.insertAll, List.foldl_map, loadEntries]
    exact List.foldl_ext _ _ _ fun map entry member => step map entry member
  have keys : (offsets.ordered.entries.map fun entry =>
      (⟨entry.1, stored entry.1⟩ : Σ _ : Str, Option β)).keys = offsets.ordered.entries.keys := by
    simp [List.keys, Function.comp_def]
  rw [whole, getEntry]
  -- a key of the table is inserted once, and any other key never
  by_cases present : psid ∈ offsets
  · obtain ⟨offset, found⟩ := Option.isSome_iff_exists.mp (AList.lookup_isSome.mpr present)
    have distinct := offsets.ordered.nodupKeys
    rw [List.NodupKeys, ← keys] at distinct
    rw [Dict.lookup_insertAll _ distinct (AList.lookup_empty psid)
      (List.mem_map_of_mem (offsets.ordered.mem_entries.mpr found))]
    rfl
  · have absent : psid ∉ offsets.ordered.entries.keys := fun member =>
      present ((offsets.ordered.perm.map Sigma.fst).mem_iff.mp member)
    rw [Dict.lookup_insertAll_of_notMem _ (by rwa [keys]), AList.lookup_empty]
    rw [known, Bool.not_eq_true, Option.isSome_eq_false_iff, Option.isNone_iff_eq_none] at present
    exact present.symm

end Records

end Index

end FlowRetrieval
