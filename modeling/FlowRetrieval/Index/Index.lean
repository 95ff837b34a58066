/-
# The index

`Index` maps ad positions to their bitmaps. `operator[]` on a hash map creates a
null entry for an absent key, so an `Add` that fails leaves a null entry behind.
Memory allocation is taken to succeed.
-/
import FlowRetrieval.Index.PvBidBitmap
import FlowRetrieval.Index.UvBidBitmap
import FlowRetrieval.Index.UvMergeBitmap

namespace FlowRetrieval

open CS

/-- `Index`; a null pointer is `none`. -/
structure Index where
  pvMap : Dict Str (Option PvBidBitmap)
  uvMap : Dict Str (Option UvBidBitmap)
  uvMergeMap : Option UvMergeBitmap

namespace Index

/-- A new index, which is also what `Clear` leaves. -/
def empty : Index := ⟨∅, ∅, none⟩

/-- `Clear`. -/
def clear (_self : Index) : Index := empty

section Maps

variable {β : Type}

/-- The body `AddPvBidBitmap` and `AddUvBidBitmap` have in common, on one map and
with the outcome of `Generate`: `1` for a present bitmap, `-2` for a failure. -/
def addEntry (map : Dict Str (Option β)) (psid : Str) (generated : Option β) :
    ℤ × Dict Str (Option β) :=
  -- `operator[]` creates a null entry, which stays when `Generate` fails
  let map := map.insertNew psid none
  match (map.lookup psid).join with
  | some _ => (1, map)
  | none =>
    match generated with
    | none => (-2, map)
    | some bitmap => (0, map.insert psid (some bitmap))

/-- The body `GetPvBidBitmap` and `GetUvBidBitmap` have in common. -/
def getEntry (map : Dict Str (Option β)) (psid : Str) : Option β := (map.lookup psid).join

theorem getEntry_addEntry_of_ne (map : Dict Str (Option β)) {psid other : Str}
    (generated : Option β) (different : other ≠ psid) :
    getEntry (addEntry map psid generated).2 other = getEntry map other := by
  unfold addEntry getEntry
  dsimp only
  split
  · rw [Dict.lookup_insertNew_of_ne _ _ different]
  · split
    · rw [Dict.lookup_insertNew_of_ne _ _ different]
    · rw [AList.lookup_insert_ne different, Dict.lookup_insertNew_of_ne _ _ different]

/-- No lookup finds the null entry that an `Add` creates first. -/
theorem join_lookup_insertNew (map : Dict Str (Option β)) (psid : Str) :
    ((map.insertNew psid none).lookup psid).join = getEntry map psid := by
  rw [Dict.lookup_insertNew_self, getEntry]
  cases map.lookup psid <;> rfl

/-- A lookup after an `Add` finds the old bitmap, or else the generated one. -/
theorem getEntry_addEntry_self (map : Dict Str (Option β)) (psid : Str)
    (generated : Option β) :
    getEntry (addEntry map psid generated).2 psid = (getEntry map psid).or generated := by
  have created := join_lookup_insertNew map psid
  unfold addEntry
  dsimp only
  rw [created]
  cases found : getEntry map psid with
  | some bitmap => exact created.trans found
  | none =>
    cases generated with
    | none => exact created.trans found
    | some bitmap => simp [getEntry]

theorem getEntry_addEntry (map : Dict Str (Option β)) (psid : Str) (generated : Option β)
    (other : Str) : getEntry (addEntry map psid generated).2 other =
      if other = psid then (getEntry map other).or generated else getEntry map other := by
  split
  · rename_i same
    rw [same, getEntry_addEntry_self]
  · rename_i different
    exact getEntry_addEntry_of_ne map generated different

/-- A property of all stored bitmaps is kept by an `Add` whose bitmap has it. -/
theorem addEntry_induction {map : Dict Str (Option β)} {psid : Str} {generated : Option β}
    {property : Str → β → Prop}
    (stored : ∀ key bitmap, getEntry map key = some bitmap → property key bitmap)
    (new : ∀ bitmap, generated = some bitmap → property psid bitmap) (key : Str) (bitmap : β)
    (found : getEntry (addEntry map psid generated).2 key = some bitmap) :
    property key bitmap := by
  -- the key of the call has its old bitmap or the new one, all others have their old ones
  rcases eq_or_ne key psid with rfl | different
  · rw [getEntry_addEntry_self, Option.or_eq_some_iff] at found
    rcases found with old | ⟨_, fresh⟩
    · exact stored key bitmap old
    · exact new bitmap fresh
  · rw [getEntry_addEntry_of_ne map generated different] at found
    exact stored key bitmap found

end Maps

/-- `AddPvBidBitmap`. -/
def addPvBidBitmap (index : Index) (psid : Str) (request pv : UInt64)
    (hourlyRequest hourlyPv : List UInt32) (hourlyCtr : List FloatBits)
    (datas : List (List UInt32)) (bids : List UInt16) (size : UInt32) : ℤ × Index :=
  let added := addEntry index.pvMap psid
    (PvBidBitmap.empty.generate psid request pv hourlyRequest hourlyPv hourlyCtr datas bids size)
  (added.1, { index with pvMap := added.2 })

/-- `AddUvBidBitmap`. -/
def addUvBidBitmap (index : Index) (psid : Str) (request uv : UInt64)
    (datas : List (List UInt32)) (bids : List UInt16) (size : UInt32) : ℤ × Index :=
  let added := addEntry index.uvMap psid
    (UvBidBitmap.empty.generate psid request uv datas bids size)
  (added.1, { index with uvMap := added.2 })

/-- `AddUvMergeBitmap`. -/
def addUvMergeBitmap (index : Index) (psids : List (List Str)) : ℤ × Index :=
  match index.uvMergeMap with
  | some _ => (1, index)
  | none =>
    match UvMergeBitmap.empty.generate psids with
    | none => (-2, index)
    | some bitmap => (0, { index with uvMergeMap := some bitmap })

theorem code_addUvMergeBitmap (index : Index) (psids : List (List Str)) :
    (index.addUvMergeBitmap psids).1 =
      if index.uvMergeMap.isSome then 1
      else if (UvMergeBitmap.empty.generate psids).isSome then 0 else -2 := by
  rw [addUvMergeBitmap]
  cases index.uvMergeMap with
  | some bitmap => rfl
  | none => cases UvMergeBitmap.empty.generate psids <;> rfl

/-- The merge bitmap is the old one, or else the generated one. -/
theorem index_addUvMergeBitmap (index : Index) (psids : List (List Str)) :
    (index.addUvMergeBitmap psids).2 =
      { index with uvMergeMap := index.uvMergeMap.or (UvMergeBitmap.empty.generate psids) } := by
  obtain ⟨pvMap, uvMap, uvMergeMap⟩ := index
  rw [addUvMergeBitmap]
  cases uvMergeMap with
  | some bitmap => rfl
  | none => cases UvMergeBitmap.empty.generate psids <;> rfl

/-- `GetPvBidBitmap`. -/
def getPvBidBitmap (index : Index) (psid : Str) : Option PvBidBitmap :=
  getEntry index.pvMap psid

/-- `GetUvBidBitmap`. -/
def getUvBidBitmap (index : Index) (psid : Str) : Option UvBidBitmap :=
  getEntry index.uvMap psid

/-- `GetUvMergeBitmap`. -/
def getUvMergeBitmap (index : Index) : Option UvMergeBitmap := index.uvMergeMap

section Calls

/-- A call of one of the three `Add` functions with its arguments. -/
inductive Call where
  | pv (psid : Str) (request pv : UInt64) (hourlyRequest hourlyPv : List UInt32)
      (hourlyCtr : List FloatBits) (datas : List (List UInt32)) (bids : List UInt16)
      (size : UInt32)
  | uv (psid : Str) (request uv : UInt64) (datas : List (List UInt32)) (bids : List UInt16)
      (size : UInt32)
  | uvMerge (psids : List (List Str))

/-- Perform one call. -/
def call (index : Index) : Call → ℤ × Index
  | .pv psid request pv hourlyRequest hourlyPv hourlyCtr datas bids size =>
    index.addPvBidBitmap psid request pv hourlyRequest hourlyPv hourlyCtr datas bids size
  | .uv psid request uv datas bids size => index.addUvBidBitmap psid request uv datas bids size
  | .uvMerge psids => index.addUvMergeBitmap psids

/-- The index after a sequence of calls on a new one. -/
def build (calls : List Call) : Index :=
  calls.foldl (fun index c => (index.call c).2) empty

/-- Every stored bitmap has a property, which may depend on its key. -/
structure Stores (pvOk : Str → PvBidBitmap → Prop) (uvOk : Str → UvBidBitmap → Prop)
    (mergeOk : UvMergeBitmap → Prop) (index : Index) : Prop where
  pv : ∀ psid b, index.getPvBidBitmap psid = some b → pvOk psid b
  uv : ∀ psid b, index.getUvBidBitmap psid = some b → uvOk psid b
  merge : ∀ m, index.getUvMergeBitmap = some m → mergeOk m

section Stores

variable {pvOk : Str → PvBidBitmap → Prop} {uvOk : Str → UvBidBitmap → Prop}
  {mergeOk : UvMergeBitmap → Prop}

theorem stores_empty : empty.Stores pvOk uvOk mergeOk where
  pv := by simp [getPvBidBitmap, getEntry, empty]
  uv := by simp [getUvBidBitmap, getEntry, empty]
  merge := by simp [getUvMergeBitmap, empty]

/-- A call stores nothing but what `Generate` has built. -/
theorem Stores.call {index : Index} (stores : index.Stores pvOk uvOk mergeOk) (c : Call)
    (pv : ∀ {psid request pv hourlyRequest hourlyPv hourlyCtr datas bids size b},
      PvBidBitmap.empty.generate psid request pv hourlyRequest hourlyPv hourlyCtr datas bids
        size = some b → pvOk psid b)
    (uv : ∀ {psid request uv datas bids size b},
      UvBidBitmap.empty.generate psid request uv datas bids size = some b → uvOk psid b)
    (merge : ∀ {psids m}, UvMergeBitmap.empty.generate psids = some m → mergeOk m) :
    (index.call c).2.Stores pvOk uvOk mergeOk := by
  cases c with
  | pv => exact { stores with pv := addEntry_induction stores.pv fun b generated => pv generated }
  | uv => exact { stores with uv := addEntry_induction stores.uv fun b generated => uv generated }
  | uvMerge psids =>
    rw [Index.call, index_addUvMergeBitmap]
    refine { stores with merge := fun m found => ?_ }
    rcases Option.or_eq_some_iff.mp found with old | ⟨-, generated⟩
    · exact stores.merge m old
    · exact merge generated

end Stores

/-- What `Generate` guarantees about every stored bitmap, with its key. -/
structure WellFormed (index : Index) : Prop where
  pv : ∀ psid b, index.getPvBidBitmap psid = some b →
    b.Padded ∧ b.bids.length = b.size.toNat ∧ b.isValid = true ∧ b.psid = psid
  uv : ∀ psid b, index.getUvBidBitmap psid = some b →
    b.Padded ∧ b.bids.length = b.size.toNat ∧ b.psid = psid
  merge : ∀ m, index.getUvMergeBitmap = some m →
    m.Padded ∧ m.sampleUv.length = m.height.toNat ∧
      m.psidDict.entries.length = m.height.toNat

theorem wellFormed_iff {index : Index} : index.WellFormed ↔
    index.Stores
      (fun psid b => b.Padded ∧ b.bids.length = b.size.toNat ∧ b.isValid = true ∧ b.psid = psid)
      (fun psid b => b.Padded ∧ b.bids.length = b.size.toNat ∧ b.psid = psid)
      (fun m => m.Padded ∧ m.sampleUv.length = m.height.toNat ∧
        m.psidDict.entries.length = m.height.toNat) :=
  ⟨fun wellFormed => ⟨wellFormed.pv, wellFormed.uv, wellFormed.merge⟩,
    fun stores => ⟨stores.pv, stores.uv, stores.merge⟩⟩

theorem wellFormed_empty : empty.WellFormed := wellFormed_iff.mpr stores_empty

/-- Every call keeps the index well formed, whatever its arguments. -/
theorem WellFormed.call {index : Index} (wellFormed : index.WellFormed) (c : Call) :
    (index.call c).2.WellFormed := by
  rw [wellFormed_iff] at wellFormed ⊢
  apply wellFormed.call c
  · intro psid request pv hourlyRequest hourlyPv hourlyCtr datas bids size b generated
    obtain ⟨base, -, paired, valid, key⟩ := PvBidBitmap.generate_eq_some generated
    exact ⟨Bitmap.width_of_generate base, paired, valid, key⟩
  · intro psid request uv datas bids size b generated
    obtain ⟨base, -, paired, key⟩ := UvBidBitmap.generate_eq_some generated
    exact ⟨Bitmap.width_of_generate base, paired, key⟩
  · intro psids m generated
    obtain ⟨-, base, keys, counters⟩ := UvMergeBitmap.generate_eq_some generated
    exact ⟨Bitmap.width_of_generate base, counters, keys⟩

/-- Every index built by calls is well formed. -/
theorem wellFormed_build (calls : List Call) : (build calls).WellFormed := by
  induction calls using List.reverseRecOn with
  | nil => exact wellFormed_empty
  | append_singleton calls c ih =>
    rw [build, List.foldl_append]
    exact ih.call c

end Calls

end Index

end FlowRetrieval
