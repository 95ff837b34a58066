/-
# The first successful `Add` wins

A failed `Add` leaves a null entry in a hash map. Two indexes that differ only in
such entries answer every lookup and every further `Add` alike, and they write the
same files. So a call that returns a non-zero code may be dropped from any sequence
of calls, and a lookup finds what the first successful call has generated.

## Main results

* `Index.SameEntries.indistinguishable` — null entries are invisible
* `Index.sameEntries_of_call` — a call with a non-zero code adds null entries at most
* `Index.firstAddWins_build` — every sequence of calls on a new index
-/
import FlowRetrieval.Index.Dump

namespace FlowRetrieval

open CS

namespace Index

section Generated

/-- The bitmap `Generate` makes in an `AddPvBidBitmap` call for `psid`. -/
def Call.generatedPv (psid : Str) : Call → Option PvBidBitmap
  | .pv key request views hourlyRequest hourlyPv hourlyCtr datas bids size =>
    if key = psid then
      PvBidBitmap.empty.generate key request views hourlyRequest hourlyPv hourlyCtr datas bids size
    else none
  | _ => none

/-- The bitmap `Generate` makes in an `AddUvBidBitmap` call for `psid`. -/
def Call.generatedUv (psid : Str) : Call → Option UvBidBitmap
  | .uv key request visitors datas bids size =>
    if key = psid then UvBidBitmap.empty.generate key request visitors datas bids size else none
  | _ => none

/-- The bitmap `Generate` makes in an `AddUvMergeBitmap` call. -/
def Call.generatedMerge : Call → Option UvMergeBitmap
  | .uvMerge psids => UvMergeBitmap.empty.generate psids
  | _ => none

/-- `Generate` succeeds in the call. -/
def Call.succeeds (c : Call) : Bool :=
  match c with
  | .pv psid .. => (c.generatedPv psid).isSome
  | .uv psid .. => (c.generatedUv psid).isSome
  | .uvMerge _ => c.generatedMerge.isSome

/-- The two calls are of the same function and, if it takes a psid, for the same one. -/
def Call.sameTarget : Call → Call → Bool
  | .pv psid .., .pv other .. => psid = other
  | .uv psid .., .uv other .. => psid = other
  | .uvMerge _, .uvMerge _ => true
  | _, _ => false

end Generated

section SameEntries

/-- The two indexes hold the same bitmaps; their null entries may differ. -/
structure SameEntries (first second : Index) : Prop where
  pv : ∀ psid, first.getPvBidBitmap psid = second.getPvBidBitmap psid
  uv : ∀ psid, first.getUvBidBitmap psid = second.getUvBidBitmap psid
  merge : first.getUvMergeBitmap = second.getUvMergeBitmap

variable {β : Type} {first second : Dict Str (Option β)}

/-- The code of an `Add` depends on the bitmap that is stored, not on null entries. -/
theorem code_addEntry (map : Dict Str (Option β)) (psid : Str) (generated : Option β) :
    (addEntry map psid generated).1 =
      if (getEntry map psid).isSome then 1 else if generated.isSome then 0 else -2 := by
  unfold addEntry
  dsimp only
  rw [join_lookup_insertNew]
  cases getEntry map psid with
  | some bitmap => rfl
  | none => cases generated <;> rfl

/-- An `Add` has a bitmap to give to its own position only. -/
theorem getEntry_addEntry_or (map : Dict Str (Option β)) (psid : Str) (generated : Option β)
    (other : Str) : getEntry (addEntry map psid generated).2 other =
      (getEntry map other).or (if psid = other then generated else none) := by
  rcases eq_or_ne psid other with rfl | different
  · rw [if_pos rfl, getEntry_addEntry_self]
  · rw [if_neg different, Option.or_none, getEntry_addEntry_of_ne _ _ different.symm]

/-- After an `Add` that failed every lookup is as before. -/
theorem getEntry_addEntry_of_code_ne {map : Dict Str (Option β)} {psid : Str}
    {generated : Option β} (failed : (addEntry map psid generated).1 ≠ 0) (other : Str) :
    getEntry (addEntry map psid generated).2 other = getEntry map other := by
  rcases eq_or_ne other psid with rfl | different
  · rw [code_addEntry] at failed
    rw [getEntry_addEntry_self]
    -- either a bitmap is present, or none was generated
    cases present : getEntry map other with
    | some bitmap => rfl
    | none =>
      cases generated with
      | none => rfl
      | some bitmap => exact absurd (by rw [present]; rfl) failed
  · exact getEntry_addEntry_of_ne map generated different

theorem getEntry_addEntry_congr (same : ∀ psid, getEntry first psid = getEntry second psid)
    (psid : Str) (generated : Option β) (other : Str) :
    getEntry (addEntry first psid generated).2 other =
      getEntry (addEntry second psid generated).2 other := by
  rw [getEntry_addEntry_or, getEntry_addEntry_or, same]

/-- The entries with a bitmap. -/
private def filled (entries : List (Σ _ : Str, Option β)) : List (Σ _ : Str, Option β) :=
  entries.filter fun entry => entry.2.isSome

/-- The null entries. -/
private def ghosts (entries : List (Σ _ : Str, Option β)) : List (Σ _ : Str, Option β) :=
  entries.filter fun entry => !entry.2.isSome

/-- A record loop skips the null entries. -/
private theorem dumpEntries_filled (dump : β → Dumped) (entries : List (Σ _ : Str, Option β))
    (state : DumpState) :
    dumpEntries dump (filled entries) state = dumpEntries dump entries state := by
  induction entries generalizing state with
  | nil => rfl
  | cons entry entries ih =>
    rcases entry with ⟨psid, _ | bitmap⟩
    · exact ih state
    · exact ih (dumpEntry dump state ⟨psid, some bitmap⟩)

private theorem dumpEntries_ghosts (dump : β → Dumped) (entries : List (Σ _ : Str, Option β))
    (state : DumpState) : dumpEntries dump (ghosts entries) state = state := by
  rw [← dumpEntries_filled, filled, ghosts, List.filter_filter]
  simp only [Bool.and_not_self, List.filter_false]
  rfl

private theorem mem_filled_iff (map : Dict Str (Option β)) (entry : Σ _ : Str, Option β) :
    entry ∈ filled map.entries ↔ entry.2.isSome ∧ getEntry map entry.1 = entry.2 := by
  obtain ⟨psid, value⟩ := entry
  rw [filled, List.mem_filter, ← AList.mem_lookup_iff, getEntry, Option.mem_def, and_comm]
  cases value with
  | none => simp
  | some bitmap => simp [Option.join_eq_some_iff]

/-- Maps with the same bitmaps have the same filled entries, in some order. -/
private theorem perm_filled (same : ∀ psid, getEntry first psid = getEntry second psid) :
    (filled first.entries).Perm (filled second.entries) := by
  have distinct (map : Dict Str (Option β)) : (filled map.entries).Nodup :=
    (List.NodupKeys.nodup map.nodupKeys).filter _
  refine (List.perm_ext_iff_of_nodup (distinct first) (distinct second)).mpr fun entry => ?_
  rw [mem_filled_iff, mem_filled_iff, same]

/-- For every order of one map there is an order of the other one in which a record
loop does the same. -/
private theorem exists_order (same : ∀ psid, getEntry first psid = getEntry second psid)
    (order : first.Order) :
    ∃ other : second.Order, ∀ (dump : β → Dumped) state,
      dumpEntries dump other.entries state = dumpEntries dump order.entries state := by
  -- the bitmaps in the given order, and the null entries of the other map behind them
  have perm : (filled order.entries ++ ghosts second.entries).Perm second.entries := by
    have bitmaps : (filled order.entries).Perm (filled second.entries) :=
      (order.perm.filter _).trans (perm_filled same)
    exact (bitmaps.append_right _).trans (List.filter_append_perm _ _)
  refine ⟨⟨_, perm⟩, fun dump state => ?_⟩
  rw [dumpEntries, List.foldl_append, ← dumpEntries, ← dumpEntries, dumpEntries_ghosts,
    dumpEntries_filled]

end SameEntries

namespace SameEntries

variable {first second third : Index}

theorem refl (index : Index) : SameEntries index index := ⟨fun _ => rfl, fun _ => rfl, rfl⟩

theorem symm (same : SameEntries first second) : SameEntries second first :=
  ⟨fun psid => (same.pv psid).symm, fun psid => (same.uv psid).symm, same.merge.symm⟩

/-- Every further call has the same code. -/
theorem code (same : SameEntries first second) (c : Call) :
    (first.call c).1 = (second.call c).1 := by
  cases c with
  | pv psid =>
    have stored : getEntry first.pvMap psid = getEntry second.pvMap psid := same.pv psid
    simp only [Index.call, addPvBidBitmap, code_addEntry, stored]
  | uv psid =>
    have stored : getEntry first.uvMap psid = getEntry second.uvMap psid := same.uv psid
    simp only [Index.call, addUvBidBitmap, code_addEntry, stored]
  | uvMerge psids =>
    have merge : first.uvMergeMap = second.uvMergeMap := same.merge
    rw [Index.call, Index.call, code_addUvMergeBitmap, code_addUvMergeBitmap, merge]

/-- Every further call keeps the bitmaps the same. -/
theorem call (same : SameEntries first second) (c : Call) :
    SameEntries (first.call c).2 (second.call c).2 := by
  cases c with
  | pv psid => exact { same with pv := getEntry_addEntry_congr same.pv psid _ }
  | uv psid => exact { same with uv := getEntry_addEntry_congr same.uv psid _ }
  | uvMerge psids =>
    have merge : first.uvMergeMap = second.uvMergeMap := same.merge
    rw [Index.call, Index.call, index_addUvMergeBitmap, index_addUvMergeBitmap, merge]
    exact { same with merge := rfl }

theorem foldl (same : SameEntries first second) (calls : List Call) :
    SameEntries (calls.foldl (fun index c => (index.call c).2) first)
      (calls.foldl (fun index c => (index.call c).2) second) := by
  induction calls generalizing first second with
  | nil => exact same
  | cons c calls ih => exact ih (same.call c)

/-- For every order in which one index may be written there is an order in which the
other one writes the same. -/
theorem dump (same : SameEntries first second) (order : first.DumpOrder) :
    ∃ other : second.DumpOrder, ∀ canClear canWrite,
      second.dump other canClear canWrite = first.dump order canClear canWrite := by
  obtain ⟨pvOrder, pvSame⟩ := exists_order same.pv order.pv
  obtain ⟨uvOrder, uvSame⟩ := exists_order same.uv order.uv
  have merge : second.uvMergeMap = first.uvMergeMap := same.merge.symm
  let other : second.DumpOrder := ⟨pvOrder, uvOrder, order.merge⟩
  have pvState : second.dumpPv other = first.dumpPv order := pvSame _ _
  have uvState : second.dumpUv other = first.dumpUv order := by
    rw [dumpUv, dumpUv, pvState]
    exact uvSame _ _
  refine ⟨other, fun canClear canWrite => ?_⟩
  simp only [Index.dump, merge, pvState, uvState]
  rfl

end SameEntries

/-- No observation tells the two indexes apart: no lookup, no code of a further call,
and nothing a `Dump` does, in whatever order it visits the hash maps. -/
structure Indistinguishable (first second : Index) : Prop where
  pv : ∀ psid, first.getPvBidBitmap psid = second.getPvBidBitmap psid
  uv : ∀ psid, first.getUvBidBitmap psid = second.getUvBidBitmap psid
  merge : first.getUvMergeBitmap = second.getUvMergeBitmap
  code : ∀ c, (first.call c).1 = (second.call c).1
  dump : ∀ order : first.DumpOrder, ∃ other : second.DumpOrder, ∀ canClear canWrite,
    second.dump other canClear canWrite = first.dump order canClear canWrite
  dump' : ∀ other : second.DumpOrder, ∃ order : first.DumpOrder, ∀ canClear canWrite,
    first.dump order canClear canWrite = second.dump other canClear canWrite

theorem SameEntries.indistinguishable {first second : Index} (same : SameEntries first second) :
    Indistinguishable first second :=
  ⟨same.pv, same.uv, same.merge, same.code, same.dump, same.symm.dump⟩

/-- A call that returns a non-zero code leaves all bitmaps as they are. -/
theorem sameEntries_of_call {index : Index} {c : Call} (failed : (index.call c).1 ≠ 0) :
    SameEntries (index.call c).2 index := by
  cases c with
  | pv psid => exact { SameEntries.refl index with pv := getEntry_addEntry_of_code_ne failed }
  | uv psid => exact { SameEntries.refl index with uv := getEntry_addEntry_of_code_ne failed }
  | uvMerge psids =>
    rw [Index.call, code_addUvMergeBitmap] at failed
    rw [Index.call, index_addUvMergeBitmap]
    refine { SameEntries.refl index with merge := ?_ }
    -- either a bitmap is present, or none was generated
    cases present : index.uvMergeMap with
    | some bitmap => simp [getUvMergeBitmap, present]
    | none =>
      rw [present] at failed
      cases generated : UvMergeBitmap.empty.generate psids with
      | none => simp [getUvMergeBitmap, present]
      | some bitmap => simp [generated] at failed

section Build

variable (calls : List Call) (c : Call)

theorem build_concat : build (calls ++ [c]) = ((build calls).call c).2 := by
  rw [build, List.foldl_append]
  rfl

/-- The bitmap of a call is the new one only where there is none. -/
theorem getPvBidBitmap_call (index : Index) (psid : Str) :
    (index.call c).2.getPvBidBitmap psid =
      (index.getPvBidBitmap psid).or (c.generatedPv psid) := by
  cases c with
  | pv key =>
    exact getEntry_addEntry_or ..
  | uv => exact (Option.or_none ..).symm
  | uvMerge psids =>
    rw [Index.call, index_addUvMergeBitmap]
    exact (Option.or_none ..).symm

theorem getUvBidBitmap_call (index : Index) (psid : Str) :
    (index.call c).2.getUvBidBitmap psid =
      (index.getUvBidBitmap psid).or (c.generatedUv psid) := by
  cases c with
  | pv => exact (Option.or_none ..).symm
  | uv key =>
    exact getEntry_addEntry_or ..
  | uvMerge psids =>
    rw [Index.call, index_addUvMergeBitmap]
    exact (Option.or_none ..).symm

theorem getUvMergeBitmap_call (index : Index) :
    (index.call c).2.getUvMergeBitmap = index.getUvMergeBitmap.or c.generatedMerge := by
  cases c with
  | pv => exact (Option.or_none ..).symm
  | uv => exact (Option.or_none ..).symm
  | uvMerge psids =>
    rw [Index.call, index_addUvMergeBitmap]
    rfl

theorem getPvBidBitmap_build (psid : Str) :
    (build calls).getPvBidBitmap psid = calls.findSome? (Call.generatedPv psid) := by
  induction calls using List.reverseRecOn with
  | nil => rfl
  | append_singleton calls c ih =>
    rw [build_concat, getPvBidBitmap_call, ih, List.findSome?_append, List.findSome?_singleton]

theorem getUvBidBitmap_build (psid : Str) :
    (build calls).getUvBidBitmap psid = calls.findSome? (Call.generatedUv psid) := by
  induction calls using List.reverseRecOn with
  | nil => rfl
  | append_singleton calls c ih =>
    rw [build_concat, getUvBidBitmap_call, ih, List.findSome?_append, List.findSome?_singleton]

theorem getUvMergeBitmap_build :
    (build calls).getUvMergeBitmap = calls.findSome? Call.generatedMerge := by
  induction calls using List.reverseRecOn with
  | nil => rfl
  | append_singleton calls c ih =>
    rw [build_concat, getUvMergeBitmap_call, ih, List.findSome?_append, List.findSome?_singleton]

/-- The bitmap a call is to add is there already. -/
def occupied (index : Index) : Call → Bool
  | .pv psid .. => (index.getPvBidBitmap psid).isSome
  | .uv psid .. => (index.getUvBidBitmap psid).isSome
  | .uvMerge _ => index.getUvMergeBitmap.isSome

theorem code_call (index : Index) :
    (index.call c).1 = if index.occupied c then 1 else if c.succeeds then 0 else -2 := by
  cases c with
  | pv psid =>
    simp only [Index.call, addPvBidBitmap, code_addEntry, Call.succeeds, Call.generatedPv, if_true]
    rfl
  | uv psid =>
    simp only [Index.call, addUvBidBitmap, code_addEntry, Call.succeeds, Call.generatedUv, if_true]
    rfl
  | uvMerge psids => exact code_addUvMergeBitmap index psids

/-- A bitmap is there when an earlier call of the same function has generated it. -/
theorem occupied_build :
    (build calls).occupied c =
      calls.any fun earlier => earlier.sameTarget c && earlier.succeeds := by
  cases c with
  | pv psid =>
    rw [occupied, getPvBidBitmap_build, List.isSome_findSome?]
    congr 1
    funext earlier
    cases earlier with
    | pv key =>
      by_cases same : key = psid <;>
        simp [Call.sameTarget, Call.succeeds, Call.generatedPv, same]
    | uv => rfl
    | uvMerge => rfl
  | uv psid =>
    rw [occupied, getUvBidBitmap_build, List.isSome_findSome?]
    congr 1
    funext earlier
    cases earlier with
    | pv => rfl
    | uv key =>
      by_cases same : key = psid <;>
        simp [Call.sameTarget, Call.succeeds, Call.generatedUv, same]
    | uvMerge => rfl
  | uvMerge psids =>
    rw [occupied, getUvMergeBitmap_build, List.isSome_findSome?]
    congr 1
    funext earlier
    cases earlier <;> rfl

/-- What a sequence of calls on a new index comes to. -/
structure FirstAddWins (calls : List Call) : Prop where
  pv : ∀ psid, (build calls).getPvBidBitmap psid = calls.findSome? (Call.generatedPv psid)
  uv : ∀ psid, (build calls).getUvBidBitmap psid = calls.findSome? (Call.generatedUv psid)
  merge : (build calls).getUvMergeBitmap = calls.findSome? Call.generatedMerge
  /-- A call after a successful one for the same bitmap returns `1`; the code of any other
  call is decided by its own `Generate`. -/
  code : ∀ c, ((build calls).call c).1 =
    if calls.any fun earlier => earlier.sameTarget c && earlier.succeeds then 1
    else if c.succeeds then 0 else -2
  /-- A call that returned a non-zero code might as well not have been made. -/
  dropped : ∀ before c after, calls = before ++ c :: after → ((build before).call c).1 ≠ 0 →
    Indistinguishable (build calls) (build (before ++ after))

/-- The first successful `Add` wins, and failed ones are invisible. -/
theorem firstAddWins_build (calls : List Call) : FirstAddWins calls where
  pv := getPvBidBitmap_build calls
  uv := getUvBidBitmap_build calls
  merge := getUvMergeBitmap_build calls
  code c := by rw [code_call, occupied_build]
  dropped := by
    rintro before c after rfl failed
    -- right after the call the bitmaps are those before it, and the calls behind keep that
    have same := (sameEntries_of_call failed).foldl after
    rw [← build_concat] at same
    have joined (calls : List Call) :
        build (calls ++ after) = after.foldl (fun index c => (index.call c).2) (build calls) :=
      List.foldl_append
    rw [List.append_cons, joined, joined]
    exact same.indistinguishable

end Build

end Index

end FlowRetrieval
