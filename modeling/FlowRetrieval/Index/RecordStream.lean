/-
# Streams of bid bitmaps

Bid bitmaps of both kinds dumped one after the other. Each part of a record carries the
length its reader needs: the header of the bitmap that of the data and of the bids, a 32-bit
number that of the psid, and a constant that of the hourly arrays.

## Main results

* `Record.decodes_load` — a record is read back whatever follows it, into whatever object
* `Record.selfDelimiting_of_generated` — so are records back to back
-/
import FlowRetrieval.Index.PvBidBitmap
import FlowRetrieval.Index.UvBidBitmap

namespace FlowRetrieval

open CS.ByteCodec

/-- A bid bitmap of one of the two classes. -/
inductive Record
  | pv (b : PvBidBitmap)
  | uv (b : UvBidBitmap)

namespace Record

/-- `Dump` of the class. -/
def dump : Record → Dumped
  | pv b => b.dump
  | uv b => b.dump

/-- `Load` of the class, into this object. -/
def load : Record → Reader ℤ Record
  | pv self => do return pv (← self.load)
  | uv self => do return uv (← self.load)

/-- A new object of the class. -/
def fresh : Record → Record
  | pv _ => pv .empty
  | uv _ => uv .empty

def bitmap : Record → Bitmap
  | pv b => b.toBitmap
  | uv b => b.toBitmap

def psid : Record → Str
  | pv b => b.psid
  | uv b => b.psid

/-- Some call of `Generate` that returns true has left this bitmap. -/
def Generated : Record → Prop
  | pv b => ∃ (self : PvBidBitmap) (psid : Str) (request views : UInt64)
      (hourlyRequest hourlyPv : List UInt32) (hourlyCtr : List FloatBits)
      (cols : List (List UInt32)) (bids : List UInt16) (height : UInt32),
      self.generate psid request views hourlyRequest hourlyPv hourlyCtr cols bids height = some b
  | uv b => ∃ (self : UvBidBitmap) (psid : Str) (request visitors : UInt64)
      (cols : List (List UInt32)) (bids : List UInt16) (height : UInt32),
      self.generate psid request visitors cols bids height = some b

/-- Two objects of one class. -/
def SameClass : Record → Record → Prop
  | pv _, pv _ => True
  | uv _, uv _ => True
  | _, _ => False

/-- The records can be told apart in a stream: a `Dump` returns the number of bytes it writes,
and the `Load` calls of their classes read them back, whatever follows them and whatever the
objects hold. -/
structure SelfDelimiting (records : List Record) : Prop where
  counted : ∀ record ∈ records, record.dump.code.toInt = record.dump.bytes.length
  readBack : ∀ objects, List.Forall₂ SameClass objects records → ∀ rest,
    (all (objects.map load)).run ((records.flatMap fun record => record.dump.bytes) ++ rest) =
      .ok (records, rest)
  reusable : ∀ objects, List.Forall₂ SameClass objects records →
    all (objects.map load) = all (records.map fun record => record.fresh.load)

/-- `Load` leaves the same in every object of a class. -/
theorem load_eq_load_fresh {object record : Record} (same : object.SameClass record) :
    object.load = record.fresh.load := by
  cases object <;> cases record
  · rfl
  · exact same.elim
  · exact same.elim
  · rfl

section Single

variable {object record : Record} (generated : record.Generated)
  (occupied : record.bitmap.Occupied) (short : record.psid.length < 2 ^ 32)

include generated occupied short

/-- A record followed by any bytes is read back, and the bytes are left. -/
theorem decodes_load (same : object.SameClass record) :
    Decodes object.load record.dump.bytes record := by
  have noWrap := occupied.noWrap
  rw [load_eq_load_fresh same]
  cases record with
  | pv b =>
    obtain ⟨_, _, _, _, _, _, _, _, _, _, done⟩ := generated
    obtain ⟨base, -, paired, valid, -⟩ := PvBidBitmap.generate_eq_some done
    have padded : b.Padded := Bitmap.width_of_generate base
    exact (PvBidBitmap.decodes_load .empty b (noWrap.trans (by norm_num))
      (padded.data_ne_nil occupied) paired valid short).bind_pure pv
  | uv b =>
    obtain ⟨_, _, _, _, _, _, _, done⟩ := generated
    obtain ⟨base, -, paired, -⟩ := UvBidBitmap.generate_eq_some done
    have padded : b.Padded := Bitmap.width_of_generate base
    exact (UvBidBitmap.decodes_load .empty b (noWrap.trans (by norm_num))
      (padded.data_ne_nil occupied) paired short).bind_pure uv

theorem toInt_code_dump : record.dump.code.toInt = record.dump.bytes.length := by
  have noWrap := occupied.noWrap
  cases record with
  | pv b =>
    obtain ⟨_, _, _, _, _, _, _, _, _, _, done⟩ := generated
    obtain ⟨-, -, paired, valid, -⟩ := PvBidBitmap.generate_eq_some done
    have length := PvBidBitmap.length_dump noWrap paired valid short
    have columns := b.size.toNat_lt
    rw [dump, PvBidBitmap.code_dump noWrap paired valid, Int64.toInt_ofNat_of_lt]
    simp only [psid, bitmap] at short noWrap
    omega
  | uv b =>
    obtain ⟨_, _, _, _, _, _, _, done⟩ := generated
    obtain ⟨-, -, paired, -⟩ := UvBidBitmap.generate_eq_some done
    have length := UvBidBitmap.length_dump noWrap paired short
    have columns := b.size.toNat_lt
    rw [dump, UvBidBitmap.code_dump noWrap paired, Int64.toInt_ofNat_of_lt]
    simp only [psid, bitmap] at short noWrap
    omega

end Single

/-- Generated bitmaps with samples and rows, whose psids have lengths of 32 bits. -/
theorem selfDelimiting_of_generated (records : List Record)
    (generated : ∀ record ∈ records, record.Generated)
    (occupied : ∀ record ∈ records, record.bitmap.Occupied)
    (short : ∀ record ∈ records, record.psid.length < 2 ^ 32) : SelfDelimiting records := by
  have each {record : Record} (member : record ∈ records) {object : Record}
      (same : object.SameClass record) :=
    decodes_load (generated record member) (occupied record member) (short record member) same
  constructor
  · exact fun record member =>
      toInt_code_dump (generated record member) (occupied record member) (short record member)
  · intro objects same rest
    refine (decodes_all ?_).run rest
    rw [List.forall₂_map_left_iff, List.forall₂_iff_zip]
    obtain ⟨length, pairs⟩ := List.forall₂_iff_zip.mp same
    exact ⟨length, fun member => each (List.of_mem_zip member).2 (pairs member)⟩
  · intro objects same
    clear each generated occupied short
    congr 1
    induction same with
    | nil => rfl
    | cons first _ ih => rw [List.map_cons, List.map_cons, load_eq_load_fresh first, ih]

/-- The bitmaps of one sample with one target, of both classes, generate and are occupied. -/
theorem exists_generated (psid : Str) : ∃ b c, Generated (pv b) ∧ Generated (uv c) ∧
    b.Occupied ∧ c.Occupied ∧ b.psid = psid ∧ c.psid = psid := by
  have pvAccepted : (PvBidBitmap.empty.generate psid 0 0 (List.replicate 24 0)
      (List.replicate 24 0) (List.replicate 24 0) [[0]] [5] 1).isSome := by
    rw [PvBidBitmap.isSome_generate_iff, Bitmap.isSome_generate_iff]
    simp [hoursPerDay]
  have uvAccepted : (UvBidBitmap.empty.generate psid 0 0 [[0]] [5] 1).isSome := by
    rw [UvBidBitmap.isSome_generate_iff, Bitmap.isSome_generate_iff]
    simp
  obtain ⟨b, pvDone⟩ := Option.isSome_iff_exists.mp pvAccepted
  obtain ⟨c, uvDone⟩ := Option.isSome_iff_exists.mp uvAccepted
  have occupied {bitmap : Bitmap} (done : Bitmap.generate [[0]] 1 = some bitmap) :
      bitmap.Occupied := by
    have width := Bitmap.width_of_generate done
    have size := Bitmap.size_of_generate done
    have height := Bitmap.height_of_generate done
    rw [size] at width
    exact ⟨by rw [height]; decide, by rw [size]; decide, by rw [width, height]; decide⟩
  obtain ⟨pvBase, -, -, -, pvKey⟩ := PvBidBitmap.generate_eq_some pvDone
  obtain ⟨uvBase, -, -, uvKey⟩ := UvBidBitmap.generate_eq_some uvDone
  exact ⟨b, c, ⟨_, _, _, _, _, _, _, _, _, _, pvDone⟩, ⟨_, _, _, _, _, _, _, uvDone⟩,
    occupied pvBase, occupied uvBase, pvKey, uvKey⟩

/-- A stream with one record of each class. -/
theorem selfDelimiting_pair : ∃ b c, Generated (pv b) ∧ Generated (uv c) ∧
    SelfDelimiting [pv b, uv c] := by
  obtain ⟨b, c, pvDone, uvDone, pvOccupied, uvOccupied, pvKey, uvKey⟩ := exists_generated [97]
  refine ⟨b, c, pvDone, uvDone, selfDelimiting_of_generated _ ?_ ?_ ?_⟩
  · rw [List.forall_mem_cons, List.forall_mem_singleton]
    exact ⟨pvDone, uvDone⟩
  · rw [List.forall_mem_cons, List.forall_mem_singleton]
    exact ⟨pvOccupied, uvOccupied⟩
  · rw [List.forall_mem_cons, List.forall_mem_singleton]
    exact ⟨by rw [psid, pvKey]; decide, by rw [psid, uvKey]; decide⟩

/-- No psid that is read has `2 ^ 32` bytes. -/
theorem yields_load_uv (self : UvBidBitmap) :
    Yields (uv self).load fun record => record.psid.length < 2 ^ 32 := by
  have bitmap : Yields self.load fun b => b.psid.length < 2 ^ 32 :=
    (yields_true _).bind fun _ _ => (yields_readString 1).bind fun _ short =>
      (yields_true _).bind fun _ _ => (yields_true _).bind fun _ _ => yields_pure short
  exact bitmap.bind fun b short => yields_pure short

/-- Without a bound on the psids a record may be read back as another one. -/
theorem not_selfDelimiting_longPsid : ¬ ∀ records : List Record,
    (∀ record ∈ records, record.Generated) → (∀ record ∈ records, record.bitmap.Occupied) →
      SelfDelimiting records := by
  intro claim
  -- the length of this psid is written as zero
  obtain ⟨long, length⟩ : ∃ psid : Str, psid.length = 2 ^ 32 :=
    ⟨List.replicate (2 ^ 32) 97, List.length_replicate⟩
  obtain ⟨-, c, -, done, -, occupied, -, key⟩ := exists_generated long
  have delimited := claim [uv c] (by rw [List.forall_mem_singleton]; exact done)
    (by rw [List.forall_mem_singleton]; exact occupied)
  have read : Yields (all [(uv .empty).load]) fun records =>
      ∀ record ∈ records, record.psid.length < 2 ^ 32 :=
    (yields_load_uv .empty).bind fun record short =>
      (yields_pure (List.forall_mem_nil _)).bind fun others shorts =>
        yields_pure (List.forall_mem_cons.mpr ⟨short, shorts⟩)
  have short := read _ _ _ (delimited.readBack [uv .empty] (.cons trivial .nil) [])
  have last := List.forall_mem_singleton.mp short
  rw [psid, key, length] at last
  exact Nat.lt_irrefl _ last

end Record

end FlowRetrieval
