/-
# Indexes that calls and files give

An index is filled by `Add` calls or by `Load`, which reads whatever file it is given. Every
bitmap that either of them stores has one bid for each column, complete hourly arrays, and as
many counters as rows. What `Load` does not establish is that a record carries the ad position
under which the offset table lists it.

## Main results

* `Index.Reachable.intact` — the properties of every stored bitmap
-/
import FlowRetrieval.Index.Load

namespace FlowRetrieval

open CS CS.ByteCodec

namespace Index

/-- The indexes that any sequence of `Add`, `Load` and `Clear` calls gives. -/
inductive Reachable : Index → Prop
  | new : Reachable .empty
  | call {index : Index} (c : Call) : Reachable index → Reachable (index.call c).2
  | load {index : Index} (file : Option (List UInt8)) :
      Reachable index → Reachable (index.load file).index
  | clear {index : Index} : Reachable index → Reachable index.clear

/-- What `Generate` and `Load` both guarantee about every stored bitmap. -/
abbrev Intact : Index → Prop :=
  Stores (fun _ b => b.bids.length = b.size.toNat ∧ b.isValid = true)
    (fun _ b => b.bids.length = b.size.toNat)
    (fun m => m.sampleUv.length = m.height.toNat ∧ m.psidDict.entries.length ≤ m.height.toNat)

section Load

variable {β : Type} {reader : Reader ℤ β} {property : β → Prop}

/-- A record loop stores nothing but what its reader returns. -/
theorem loadEntries_induction (yields : Yields reader property) (file : List UInt8)
    (offsets : OffsetMap) (psid : Str) (bitmap : β)
    (found : getEntry (loadEntries reader file offsets ∅) psid = some bitmap) :
    property bitmap := by
  suffices kept : ∀ (entries : List (Σ _ : Str, UInt64)) (map : Dict Str (Option β)),
      (∀ psid bitmap, getEntry map psid = some bitmap → property bitmap) →
      ∀ psid bitmap, getEntry (entries.foldl (loadEntry reader file) map) psid = some bitmap →
        property bitmap from
    kept _ ∅ (by simp [getEntry]) psid bitmap found
  clear found psid bitmap
  intro entries
  induction entries with
  | nil => exact fun map stored => stored
  | cons entry entries ih =>
    intro map stored
    apply ih
    intro psid bitmap found
    rw [loadEntry] at found
    split at found
    · exact stored psid bitmap found
    · split at found
      · exact stored psid bitmap found
      · rename_i value rest run
        -- the record that was read has a new key, or the key keeps its bitmap
        rcases eq_or_ne psid entry.1 with rfl | different
        · rw [getEntry, Dict.lookup_insertNew_self] at found
          cases old : map.lookup entry.1 with
          | none =>
            rw [old] at found
            obtain rfl := Option.some.inj found
            exact yields _ value rest run
          | some kept =>
            rw [old] at found
            exact stored entry.1 bitmap (by rw [getEntry, old]; exact found)
        · rw [getEntry, Dict.lookup_insertNew_of_ne _ _ different] at found
          exact stored psid bitmap found

/-- What any `Load` leaves has been read. -/
theorem stores_load {pvOk : PvBidBitmap → Prop} {uvOk : UvBidBitmap → Prop}
    {mergeOk : UvMergeBitmap → Prop} (pv : Yields PvBidBitmap.empty.load pvOk)
    (uv : Yields UvBidBitmap.empty.load uvOk) (merge : Yields UvMergeBitmap.empty.load mergeOk)
    (self : Index) (file : Option (List UInt8)) :
    (self.load file).index.Stores (fun _ => pvOk) (fun _ => uvOk) mergeOk := by
  unfold load
  -- the early returns leave an empty index, the later ones the records read so far
  repeat' split
  all_goals first
    | exact stores_empty
    | refine ⟨loadEntries_induction pv _ _, loadEntries_induction uv _ _, ?_⟩
  · simp [getUvMergeBitmap, clear, empty]
  · simp [getUvMergeBitmap, clear, empty]
  · rename_i m rest run
    intro other stored
    obtain rfl := Option.some.inj stored
    exact merge _ m rest run

end Load

/-- Every bitmap of a reachable index is intact. -/
theorem Reachable.intact {index : Index} (reachable : Reachable index) : index.Intact := by
  induction reachable with
  | new => exact stores_empty
  | clear => exact stores_empty
  | load file =>
    exact stores_load (PvBidBitmap.yields_load _) (UvBidBitmap.yields_load _)
      (UvMergeBitmap.yields_load_rows _) _ file
  | call c _ ih =>
    apply ih.call c
    · intro psid request pv hourlyRequest hourlyPv hourlyCtr datas bids size b generated
      obtain ⟨-, -, paired, valid, -⟩ := PvBidBitmap.generate_eq_some generated
      exact ⟨paired, valid⟩
    · intro psid request uv datas bids size b generated
      exact (UvBidBitmap.generate_eq_some generated).2.2.1
    · intro psids m generated
      obtain ⟨-, -, keys, counters⟩ := UvMergeBitmap.generate_eq_some generated
      exact ⟨counters, keys.le⟩

/-- Every index that calls build is reachable. -/
theorem reachable_build (calls : List Call) : Reachable (build calls) := by
  induction calls using List.reverseRecOn with
  | nil => exact .new
  | append_singleton calls c ih =>
    rw [build, List.foldl_append]
    exact ih.call c

end Index

end FlowRetrieval
