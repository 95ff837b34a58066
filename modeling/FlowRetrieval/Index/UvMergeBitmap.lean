/-
# The merge bitmap

One row for each ad position that occurs in a sample and one column for each
sample, with a dictionary from ad positions to rows and the number of samples of
each row. `Union` collects the samples that contain one of several positions.
-/
import FlowRetrieval.Common.BitmapStream
import FlowRetrieval.CS.Dict
import FlowRetrieval.Util.StringExt

namespace FlowRetrieval

open CS CS.ByteCodec

/-- `UvMergeBitmap`. -/
@[ext]
structure UvMergeBitmap extends Bitmap where
  sampleUv : List Int32
  psidDict : Dict Str Int32

namespace UvMergeBitmap

/-- A new object, which is also what `Clear` leaves. -/
def empty : UvMergeBitmap := { Bitmap.clear with sampleUv := [], psidDict := ∅ }

/-- `Clear`. -/
def clear (_self : UvMergeBitmap) : UvMergeBitmap := empty

/-- The inner loop of `Generate`: the row ids of one sample, new ad positions
taking the next free id. -/
def encodeSample (dict : Dict Str Int32) : List Str → Dict Str Int32 × List UInt32
  | [] => (dict, [])
  | psid :: psids =>
    match dict.lookup psid with
    | some pos =>
      let (next, column) := encodeSample dict psids
      (next, pos.toUInt32 :: column)
    -- the dictionary grows by one entry, whose id is its size before
    | none =>
      let pos := Int32.ofNat dict.entries.length
      let (next, column) := encodeSample (dict.insertNew psid pos) psids
      (next, pos.toUInt32 :: column)

/-- The outer loop of `Generate`. -/
def encodeSamples (dict : Dict Str Int32) : List (List Str) → Dict Str Int32 × List (List UInt32)
  | [] => (dict, [])
  | sample :: samples =>
    let (next, column) := encodeSample dict sample
    let (last, columns) := encodeSamples next samples
    (last, column :: columns)

/-- `Generate`: the bitmap of a run that returns true. -/
def generate (self : UvMergeBitmap) (psids : List (List Str)) : Option UvMergeBitmap :=
  let self := self.clear
  let (dict, columns) := encodeSamples self.psidDict psids
  match Bitmap.generate columns (UInt32.ofNat dict.entries.length) with
  | none => none
  | some base =>
    some { base with
      sampleUv := self.sampleUv ++
        (List.range base.height.toNat).map fun i => base.countRow (UInt32.ofNat i)
      psidDict := dict }

/-- One entry of the dictionary as `Dump` writes it. -/
def entryBytes (entry : Σ _ : Str, Int32) : List UInt8 :=
  stringBytes entry.1 ++ i32Bytes entry.2

/-- `Dump`, with the order in which the loop visits the dictionary. -/
def dump (m : UvMergeBitmap) (order : m.psidDict.Order) : Dumped :=
  let base := m.toBitmap.dump
  if base.code < 0 then base
  else
    ⟨base.bytes ++ (m.sampleUv.flatMap i32Bytes ++ order.entries.flatMap entryBytes),
      base.code + Int64.ofNat (4 * m.sampleUv.length) + Int64.ofNat
        (order.entries.map fun entry => 4 + 4 + (UInt32.ofNat entry.1.length).toNat).sum⟩

/-- One entry of the dictionary as `Load` reads it. -/
def readEntry : Reader ℤ (Σ _ : Str, Int32) := do
  let psid ← readString 1
  let pos ← readI32 1
  return ⟨psid, pos⟩

/-- `Load`. -/
def load (self : UvMergeBitmap) : Reader ℤ UvMergeBitmap := do
  let self := self.clear
  let base ← Bitmap.load
  let sampleUv ← times (readI32 1) base.height.toNat
  let entries ← times readEntry base.height.toNat
  return { base with
    sampleUv := self.sampleUv ++ sampleUv
    psidDict := self.psidDict.insertAll entries }

/-- `GetRowId`. -/
def getRowId (m : UvMergeBitmap) (psid : Str) : Int32 := (m.psidDict.lookup psid).getD (-1)

/-- `GetRowUv`. -/
def getRowUv (m : UvMergeBitmap) (rowId : UInt32) : Int32 :=
  if rowId.toNat < m.sampleUv.length then m.sampleUv.getD rowId.toNat 0 else -1

/-- `Union`, writing at address `result` of the buffer. -/
def union {capacity : ℕ} (m : UvMergeBitmap) (rowIds : List Int32) (result : ℕ)
    (buffer : ByteMemory capacity) : ByteMemory capacity :=
  match rowIds with
  | [] => buffer.fill 0 result m.width.toNat
  | rowIds => m.orGroup result rowIds buffer

/-- `Union` reads nothing of the buffer that it has not written. -/
theorem eqOn_union {capacity : ℕ} (m : UvMergeBitmap) (rowIds : List Int32) (result : ℕ)
    (first second : ByteMemory capacity) :
    Set.EqOn (m.union rowIds result first).load (m.union rowIds result second).load
      (Set.Ico result (result + m.width.toNat)) := by
  match rowIds with
  | [] => exact ByteMemory.eqOn_fill _ _ _ first second
  | row :: rows =>
    exact (m.eqOn_orGroup result (List.cons_ne_nil row rows) (Set.eqOn_empty _ _)).mono
      ((Set.Ico_subset_Ico_right (Nat.add_le_add_left m.width_le_bound _)).trans
        Set.subset_union_right)

section Stream

theorem dump_eq (m : UvMergeBitmap) (order : m.psidDict.Order)
    (counted : m.width.toNat * m.height.toNat < 2 ^ 62) :
    m.dump order =
      ⟨m.toBitmap.dump.bytes ++ (m.sampleUv.flatMap i32Bytes ++ order.entries.flatMap entryBytes),
        m.toBitmap.dump.code + Int64.ofNat (4 * m.sampleUv.length) + Int64.ofNat
          (order.entries.map fun entry => 4 + 4 + (UInt32.ofNat entry.1.length).toNat).sum⟩ := by
  rw [dump]
  rw [if_neg (m.toBitmap.code_dump_nonneg counted)]

private theorem decodes_readEntry_take (entry : Σ _ : Str, Int32) :
    Decodes readEntry (entryBytes entry)
      ⟨entry.1.take (UInt32.ofNat entry.1.length).toNat, entry.2⟩ :=
  (decodes_readString_take 1 entry.1).bind ((decodes_readI32 1 entry.2).bind_pure _)

private theorem rejects_readEntry (entry : Σ _ : Str, Int32) :
    Rejects readEntry (entryBytes entry) :=
  (rejects_readString 1 entry.1).bind (decodes_readString_take 1 entry.1)
    ((rejects_readI32 1 entry.2).bind_pure fun _ impossible => impossible)

private theorem decodes_readEntry {entry : Σ _ : Str, Int32} (short : entry.1.length < 2 ^ 32) :
    Decodes readEntry (entryBytes entry) entry :=
  (decodes_readString 1 short).bind ((decodes_readI32 1 entry.2).bind_pure _)

/-- A merge bitmap with one counter and one dictionary entry for each row is read
back from its dump, the dictionary being rebuilt in the order it was written. -/
theorem decodes_load (self m : UvMergeBitmap) (order : m.psidDict.Order)
    (counted : m.width.toNat * m.height.toNat < 2 ^ 62) (nonempty : m.data ≠ [])
    (counters : m.sampleUv.length = m.height.toNat)
    (keys : m.psidDict.entries.length = m.height.toNat)
    (short : ∀ psid ∈ m.psidDict, psid.length < 2 ^ 32) :
    Decodes self.load (m.dump order).bytes
      { m with psidDict := (∅ : Dict Str Int32).insertAll order.entries } := by
  -- the height says how many counters and how many dictionary entries follow
  have entries : Decodes (times readEntry m.height.toNat) (order.entries.flatMap entryBytes)
      order.entries := by
    rw [← keys, ← order.perm.length_eq]
    exact decodes_times fun entry member => decodes_readEntry (short entry.1 (order.key_mem member))
  have counts : Decodes (times (readI32 (1 : ℤ)) m.height.toNat) (m.sampleUv.flatMap i32Bytes)
      m.sampleUv := by
    rw [← counters]
    exact decodes_times fun count _ => decodes_readI32 1 count
  rw [m.dump_eq order counted]
  exact (m.toBitmap.decodes_load nonempty).bind (counts.bind (entries.bind_pure _))

/-- No truncated dump of a bitmap with one counter for each row and at most as many dictionary
entries is read. -/
theorem rejects_load (self m : UvMergeBitmap) (order : m.psidDict.Order)
    (counted : m.width.toNat * m.height.toNat < 2 ^ 62)
    (counters : m.sampleUv.length = m.height.toNat)
    (keys : m.psidDict.entries.length ≤ m.height.toNat) :
    Rejects self.load (m.dump order).bytes := by
  rw [m.dump_eq order counted]
  by_cases empty : m.data = []
  · intro k _ value rest run
    exact ((Bitmap.fails_load_of_empty empty _ k).bind value rest run).elim
  · have rows := Bitmap.rows_of_data_ne_nil empty
    have counts : Decodes (times (readI32 (1 : ℤ)) m.height.toNat)
        (m.sampleUv.flatMap i32Bytes) m.sampleUv := by
      rw [← counters]
      exact decodes_times fun count _ => decodes_readI32 1 count
    have countsCut : Rejects (times (readI32 (1 : ℤ)) m.height.toNat)
        (m.sampleUv.flatMap i32Bytes) :=
      rejects_times (fun count _ => decodes_readI32 1 count)
        (fun count _ => rejects_readI32 1 count) counters.le
    have entriesCut : Rejects (times readEntry m.height.toNat)
        (order.entries.flatMap entryBytes) := by
      apply rejects_times (fun entry _ => decodes_readEntry_take entry)
        (fun entry _ => rejects_readEntry entry)
      rwa [order.perm.length_eq]
    -- after a cut in the data nothing is left for the first counter
    have starved (value : Bitmap) (holds : value.height = m.height ∧ m.data ≠ []) :
        Fails (times (readI32 (1 : ℤ)) value.height.toNat) [] := by
      rw [holds.1]
      refine Fails.times (fun word rest run => ?_) rows
      exact (rejects_readI32 1 0 0 (by simp) word rest run).2
    refine m.toBitmap.cut_load.bind (m.toBitmap.decodes_load empty) ?_ (countsCut.bind counts
      (entriesCut.bind_pure fun _ impossible => impossible))
    intro value holds result rest run
    exact ((starved value holds).bind result rest run).elim

/-- `Dump` returns the number of bytes it writes, but that it counts the block of the
bitmap without the wrap of its size. -/
theorem code_dump_eq (m : UvMergeBitmap) (order : m.psidDict.Order)
    (counted : m.width.toNat * m.height.toNat < 2 ^ 62) :
    (m.dump order).code = Int64.ofNat ((m.dump order).bytes.length +
      2 ^ 32 * (m.width.toNat * m.height.toNat / 2 ^ 32)) := by
  have counts := length_flatMap_of_width length_i32Bytes m.sampleUv
  have entry (e : Σ _ : Str, Int32) :
      4 + 4 + (UInt32.ofNat e.1.length).toNat = (entryBytes e).length := by
    rw [entryBytes, List.length_append, length_stringBytes_eq, length_i32Bytes]
    omega
  have keys : (order.entries.map fun e => 4 + 4 + (UInt32.ofNat e.1.length).toNat).sum =
      (order.entries.flatMap entryBytes).length := by
    rw [List.length_flatMap]
    exact congrArg List.sum (List.map_congr_left fun e _ => entry e)
  have block := Nat.mod_add_div (m.width.toNat * m.height.toNat) (2 ^ 32)
  have base : m.toBitmap.dump.code = Int64.ofNat (m.toBitmap.dump.bytes.length +
      2 ^ 32 * (m.width.toNat * m.height.toNat / 2 ^ 32)) := by
    rw [m.toBitmap.length_dump_eq, Nat.add_assoc, block]
    rfl
  rw [m.dump_eq order counted, base]
  simp only [List.length_append, counts, keys, ← Int64.ofNat_add]
  congr 1
  omega

/-- Without a wrap `Dump` returns the number of bytes it writes. -/
theorem code_dump (m : UvMergeBitmap) (order : m.psidDict.Order)
    (noWrap : m.width.toNat * m.height.toNat < 2 ^ 32) :
    (m.dump order).code = Int64.ofNat (m.dump order).bytes.length := by
  rw [m.code_dump_eq order (by omega), Nat.div_eq_of_lt noWrap, Nat.mul_zero, Nat.add_zero]

private theorem length_entries_le {entries : List (Σ _ : Str, Int32)}
    (short : ∀ entry ∈ entries, entry.1.length < 2 ^ 32) :
    (entries.flatMap entryBytes).length ≤ entries.length * (2 ^ 32 + 8) := by
  induction entries with
  | nil => exact Nat.zero_le _
  | cons entry entries ih =>
    have small := short entry List.mem_cons_self
    have rest := ih fun other member => short other (List.mem_cons_of_mem _ member)
    simp only [List.flatMap_cons, List.length_append, List.length_cons, entryBytes,
      length_stringBytes small, length_i32Bytes] at rest ⊢
    omega

/-- A dump has less than `2 ^ 62` bytes. -/
theorem length_dump_lt (m : UvMergeBitmap) (order : m.psidDict.Order) (padded : m.Padded)
    (occupied : m.Occupied) (counters : m.sampleUv.length = m.height.toNat)
    (keys : m.psidDict.entries.length = m.height.toNat)
    (short : ∀ psid ∈ m.psidDict, psid.length < 2 ^ 32) :
    (m.dump order).bytes.length < 2 ^ 62 := by
  have noWrap := occupied.noWrap
  -- rows have at least eight bytes, which bounds their number
  have rows : m.height.toNat < 2 ^ 29 := by
    have := Nat.mul_le_mul_right m.height.toNat (padded.le_width occupied)
    omega
  have counts := length_flatMap_of_width length_i32Bytes m.sampleUv
  have entries := length_entries_le fun e member =>
    short e.1 (order.key_mem member)
  rw [order.perm.length_eq, keys] at entries
  rw [m.dump_eq order (by omega)]
  simp only [List.length_append, m.toBitmap.length_dump noWrap, counts, counters]
  omega

/-- No ad position that `Load` reads into the dictionary has `2 ^ 32` bytes or more. -/
theorem yields_load (self : UvMergeBitmap) :
    Yields self.load fun m => ∀ psid ∈ m.psidDict, psid.length < 2 ^ 32 := by
  have entry : Yields readEntry fun e => e.1.length < 2 ^ 32 :=
    (yields_readString 1).bind fun psid short =>
      (yields_true _).bind fun pos _ => yields_pure short
  refine (yields_true _).bind fun base _ => (yields_true _).bind fun counts _ =>
    (yields_times entry _).bind fun entries each => yields_pure fun psid member => ?_
  obtain ⟨pos, inside⟩ := Dict.exists_mem_of_mem_insertAll member
  exact each.2 _ inside

/-- `Load` reads one counter and at most one new dictionary entry for each row. -/
theorem yields_load_rows (self : UvMergeBitmap) :
    Yields self.load fun m => m.sampleUv.length = m.height.toNat ∧
      m.psidDict.entries.length ≤ m.height.toNat := by
  refine (yields_true _).bind fun base _ =>
    (yields_times (yields_true _) _).bind fun counts counted =>
    (yields_times (yields_true _) _).bind fun entries each => yields_pure ⟨counted.1, ?_⟩
  exact (Dict.length_insertAll_le _ _).trans (by simp [clear, empty, each.1])

end Stream

section Generate

/-- Every id handed out while encoding a sample occurs in its column. -/
theorem mem_encodeSample {dict : Dict Str Int32} {sample : List Str} {k : ℕ}
    (old : dict.entries.length ≤ k)
    (new : k < (encodeSample dict sample).1.entries.length) :
    UInt32.ofNat k ∈ (encodeSample dict sample).2 := by
  induction sample generalizing dict with
  | nil => exact absurd new (not_lt.mpr old)
  | cons psid psids ih =>
    cases found : dict.lookup psid with
    | some pos =>
      simp only [encodeSample, found] at new ⊢
      exact List.mem_cons_of_mem _ (ih old new)
    | none =>
      simp only [encodeSample, found] at new ⊢
      -- either `k` is the id that this ad position gets, or a later one gets it
      rcases eq_or_lt_of_le old with here | later
      · rw [← here]
        exact List.mem_cons_self
      · refine List.mem_cons_of_mem _ (ih ?_ new)
        rw [Dict.length_insertNew_of_lookup_eq_none _ _ found]
        exact later

theorem mem_encodeSamples {dict : Dict Str Int32} {samples : List (List Str)} {k : ℕ}
    (old : dict.entries.length ≤ k)
    (new : k < (encodeSamples dict samples).1.entries.length) :
    ∃ column ∈ (encodeSamples dict samples).2, UInt32.ofNat k ∈ column := by
  induction samples generalizing dict with
  | nil => exact absurd new (not_lt.mpr old)
  | cons sample samples ih =>
    simp only [encodeSamples] at new ⊢
    rcases lt_or_ge k (encodeSample dict sample).1.entries.length with here | later
    · exact ⟨_, List.mem_cons_self, mem_encodeSample old here⟩
    · obtain ⟨column, inside, member⟩ := ih later new
      exact ⟨column, List.mem_cons_of_mem _ inside, member⟩

/-- What a successful `Generate` built: the bitmap of the encoded samples, one
counter and one dictionary entry for each row. -/
theorem generate_eq_some {self m : UvMergeBitmap} {psids : List (List Str)}
    (done : self.generate psids = some m) :
    m.psidDict = (encodeSamples ∅ psids).1 ∧
      Bitmap.generate (encodeSamples ∅ psids).2 (UInt32.ofNat m.psidDict.entries.length) =
        some m.toBitmap ∧
      m.psidDict.entries.length = m.height.toNat ∧ m.sampleUv.length = m.height.toNat := by
  rw [generate] at done
  simp only [clear, empty] at done
  split at done
  · cases done
  · rename_i base generated
    obtain rfl := Option.some.inj done
    refine ⟨rfl, generated, ?_, by simp⟩
    have height := Bitmap.height_of_generate generated
    dsimp only
    rw [height, UInt32.toNat_ofNat']
    -- an id below `2 ^ 32` that is not below the height would have stopped `Generate`
    by_contra wrapped
    have large : 2 ^ 32 - 1 < (encodeSamples ∅ psids).1.entries.length := by
      by_contra small
      exact wrapped (Nat.mod_eq_of_lt (by omega)).symm
    obtain ⟨column, inside, member⟩ := mem_encodeSamples (Nat.zero_le _) large
    have below := Bitmap.lt_height_of_generate generated column inside _ member
    rw [UInt32.lt_iff_toNat_lt, UInt32.toNat_ofNat'] at below
    have := (UInt32.ofNat (encodeSamples ∅ psids).1.entries.length).toNat_lt
    omega

end Generate

end UvMergeBitmap

end FlowRetrieval
