/-
# The merge rate

The unique visitors of several ad positions are fewer than the sum of those of each, since
one visitor may see several of them. `GetUvMergeRate` estimates the ratio from the samples:
those that contain one of the positions, by the sum of those that contain each.

## Main results

* `RequestHandler.deduplicated_of_generate` — dictionary, rows, counters, unions and the
  rate are exact
-/
import FlowRetrieval.Index.Deduplication
import FlowRetrieval.Service.Report

namespace FlowRetrieval

open CS Targeting UvMergeBitmap

section UnionBound

variable {α β : Type} (l : List α) (holds : β → α → Bool) (events : List β)

/-- At most as many elements have one of several properties as there are elements with each. -/
theorem countP_any_le_sum :
    l.countP (fun x => events.any fun event => holds event x) ≤
      (events.map fun event => l.countP (holds event)).sum := by
  induction events with
  | nil => simp
  | cons event events ih =>
    rw [List.map_cons, List.sum_cons]
    simp only [List.any_cons]
    refine le_trans ?_ (Nat.add_le_add_left ih _)
    -- an element with one of the properties has the first or one of the others
    clear ih
    induction l with
    | nil => simp
    | cons x l ih =>
      simp only [List.countP_cons]
      cases holds event x <;> cases events.any fun other => holds other x <;> simp <;> omega

/-- Each property is one of them. -/
theorem sum_countP_le_length_mul :
    (events.map fun event => l.countP (holds event)).sum ≤
      events.length * l.countP fun x => events.any fun event => holds event x := by
  have each := List.sum_le_card_nsmul (events.map fun event => l.countP (holds event))
    (l.countP fun x => events.any fun event => holds event x) fun n member => by
      obtain ⟨event, inside, rfl⟩ := List.mem_map.mp member
      exact List.countP_mono_left fun x _ has => List.any_eq_true.mpr ⟨event, inside, has⟩
  rwa [List.length_map, nsmul_eq_mul, Nat.cast_id] at each

end UnionBound

namespace RequestHandler

/-- The entries of a query that the merge bitmap has a row for. -/
def knownPsids (m : UvMergeBitmap) (psids : List Str) : List Str :=
  psids.filter fun psid => psid ∈ m.psidDict

/-- What the merge bitmap of some samples says about every query is exact. -/
structure Deduplicated (m : UvMergeBitmap) (samples : List (List Str)) : Prop where
  /-- The dictionary is a bijection between the positions that occur and the rows. -/
  dictionary : Set.BijOn (fun psid => (m.getRowId psid).toInt) {psid | Occurs samples psid}
    (Set.Ico 0 (m.height.toNat : ℤ))
  known : ∀ psid, psid ∈ m.psidDict ↔ Occurs samples psid
  bit : ∀ psid, Occurs samples psid → ∀ i (inside : i < samples.length),
    m.getBit (m.getRowId psid).toUInt32 (UInt32.ofNat i) = if psid ∈ samples[i] then 1 else 0
  rowUv : ∀ psid, Occurs samples psid →
    (m.getRowUv (m.getRowId psid).toUInt32).toInt = samples.countP fun sample => psid ∈ sample
  union : ∀ psids (buffer : ComputeBuffer),
    (m.countMask (m.union (mergeRows m psids) ptr1 buffer).load).toInt =
      samples.countP fun sample => psids.any fun psid => psid ∈ m.psidDict ∧ psid ∈ sample
  /-- The rate in exact arithmetic. -/
  rate : ∀ (handler : RequestHandler ℚ) (qd : QueryData),
    0 < (handler.getUvMergeRate qd m).uvMergeRate ∧
      (handler.getUvMergeRate qd m).uvMergeRate ≤ 1 ∧
      (1 ≤ (knownPsids m qd.psids).length →
        1 / ((knownPsids m qd.psids).length : ℚ) ≤ (handler.getUvMergeRate qd m).uvMergeRate)

section Rate

variable {self m : UvMergeBitmap} {samples : List (List Str)}
  (generated : self.generate samples = some m)
  (noWrap : m.width.toNat * m.height.toNat < 2 ^ 32)
  (fits : m.width.toNat ≤ computeBufferSize * 2)

include generated noWrap

/-- The rows that `GetUvMergeRate` collects are those of the known entries. -/
theorem mergeRows_eq (psids : List Str) :
    mergeRows m psids = (knownPsids m psids).map m.getRowId := by
  rw [mergeRows, knownPsids, List.filter_map]
  congr 1
  apply List.filter_congr
  intro psid _
  by_cases known : psid ∈ m.psidDict
  · have row := (bijOn_getRowId generated noWrap).mapsTo
      ((mem_psidDict_iff generated psid).mp known)
    have positive : (0 : Int32) ≤ m.getRowId psid := Int32.le_iff_toInt_le.mpr row.1
    simp [known, positive]
  · have row := getRowId_of_not_occurs generated
      ((mem_psidDict_iff generated psid).not.mp known)
    have negative : ¬ (0 : Int32) ≤ -1 := by decide
    simp [known, row, negative]

omit noWrap in
theorem occurs_of_mem_knownPsids {psids : List Str} :
    ∀ psid ∈ knownPsids m psids, Occurs samples psid := by
  intro psid member
  rw [knownPsids, List.mem_filter, decide_eq_true_eq] at member
  exact (mem_psidDict_iff generated psid).mp member.2

include fits

/-- `Union` of the rows of a query counts the samples with one of its known entries. -/
theorem toInt_countMask_mergeRows (psids : List Str) (buffer : ComputeBuffer) :
    (m.countMask (m.union (mergeRows m psids) ptr1 buffer).load).toInt =
      samples.countP fun sample => (knownPsids m psids).any fun psid => psid ∈ sample := by
  rw [computeBufferSize] at fits
  rw [mergeRows_eq generated noWrap]
  exact toInt_countMask_union generated noWrap (by omega) buffer fits
    (occurs_of_mem_knownPsids generated)

/-- The sum of the counters is the sum of the samples of each known entry. -/
theorem sumRowUv_eq (psids : List Str) :
    (sumRowUv m (mergeRows m psids) : ℚ) =
      ((knownPsids m psids).map fun psid => samples.countP fun sample => psid ∈ sample).sum := by
  have occur : ∀ psid ∈ knownPsids m psids, Occurs samples psid :=
    occurs_of_mem_knownPsids generated
  rw [computeBufferSize] at fits
  rw [mergeRows_eq generated noWrap, sumRowUv, List.foldl_map]
  generalize knownPsids m psids = known at occur
  -- induction over the entries, from the last one
  induction known using List.reverseRecOn with
  | nil => norm_num
  | append_singleton known psid ih =>
    have counter := toInt_getRowUv generated noWrap (by omega)
      (occur psid (List.mem_append_right _ List.mem_cons_self))
    have positive : ¬ m.getRowUv (m.getRowId psid).toUInt32 < 0 := by
      rw [Int32.lt_iff_toInt_lt, counter]
      exact not_lt.mpr (Int.natCast_nonneg _)
    rw [List.foldl_append, List.foldl_cons, List.foldl_nil,
      ih fun other member => occur other (List.mem_append_left _ member), if_neg positive, counter,
      List.map_append, List.sum_append]
    simp

/-- The rate is a ratio of two numbers of samples, each with a small constant. -/
theorem uvMergeRate_eq (handler : RequestHandler ℚ) (qd : QueryData) :
    (handler.getUvMergeRate qd m).uvMergeRate =
      (((samples.countP fun sample =>
          (knownPsids m qd.psids).any fun psid => psid ∈ sample : ℕ) : ℚ) + escapeZero) /
        ((((knownPsids m qd.psids).map fun psid =>
          samples.countP fun sample => psid ∈ sample).sum : ℕ) + escapeZero) := by
  have counted := toInt_countMask_mergeRows generated noWrap fits qd.psids handler.computeBuf
  simp only [getUvMergeRate, counted, sumRowUv_eq generated noWrap fits]
  rfl

/-- The bitmap of some samples de-duplicates exactly. -/
theorem deduplicated_of_generate_eq_some : Deduplicated m samples where
  dictionary := bijOn_getRowId generated noWrap
  known := mem_psidDict_iff generated
  bit psid occurs i inside := getBit_getRowId generated noWrap occurs inside
  rowUv psid occurs := toInt_getRowUv generated noWrap (by unfold computeBufferSize at fits; omega)
    occurs
  union psids buffer := by
    rw [toInt_countMask_mergeRows generated noWrap fits]
    congr 1
    apply List.countP_congr
    intro sample _
    simp [knownPsids]
  rate handler qd := by
    have below := countP_any_le_sum samples (fun psid sample => decide (psid ∈ sample))
      (knownPsids m qd.psids)
    have above := sum_countP_le_length_mul samples (fun psid sample => decide (psid ∈ sample))
      (knownPsids m qd.psids)
    rw [uvMergeRate_eq generated noWrap fits]
    set n := (knownPsids m qd.psids).length
    set union := samples.countP fun sample =>
      (knownPsids m qd.psids).any fun psid => decide (psid ∈ sample)
    set sum := ((knownPsids m qd.psids).map fun psid =>
      samples.countP fun sample => decide (psid ∈ sample)).sum
    have small : (0 : ℚ) < escapeZero := by norm_num [escapeZero]
    have unionLe : (union : ℚ) ≤ sum := Nat.cast_le.mpr below
    have sumLe : (sum : ℚ) ≤ n * union := by exact_mod_cast above
    refine ⟨by positivity, ?_, fun some => ?_⟩
    · rw [div_le_one (by positivity)]
      linarith
    · have one : (1 : ℚ) ≤ n := Nat.one_le_cast.mpr some
      rw [div_le_div_iff₀ (by positivity) (by positivity)]
      nlinarith

end Rate

/-- Samples whose bitmap has fewer than `2 ^ 32` bytes and rows within the compute buffer are
de-duplicated exactly. `Generate` returns true for all of them, but that it does not return
for a sample of `2 ^ 32` entries, which its 32-bit loop counter never reaches. -/
theorem deduplicated_of_generate (self : UvMergeBitmap) (samples : List (List Str))
    (noWrap : 8 * ((samples.length + 63) / 64) * (occurring samples).card < 2 ^ 32)
    (fits : 8 * ((samples.length + 63) / 64) ≤ computeBufferSize * 2) :
    ((self.generate samples).isSome ↔ ∀ sample ∈ samples, sample.length < 2 ^ 32) ∧
      ∀ m, self.generate samples = some m → Deduplicated m samples := by
  have few : samples.length < 2 ^ 32 := by
    rw [computeBufferSize] at fits
    omega
  constructor
  · rw [isSome_generate_iff]
    refine ⟨fun all => all.2.1, fun short => ⟨few, short, ?_⟩⟩
    -- without a sample there are no rows, and otherwise a row has eight bytes
    rcases Nat.eq_zero_or_pos samples.length with none | some
    · rw [List.length_eq_zero_iff.mp none]
      decide
    · have := Nat.mul_le_mul_right (occurring samples).card
        (show 8 ≤ 8 * ((samples.length + 63) / 64) by omega)
      omega
  · intro m generated
    obtain ⟨_, -, -, -, base⟩ := exists_numbered generated
    have padded := Bitmap.width_of_generate base
    have size := (le_width_of_generate generated).1
    rw [← size] at padded
    apply deduplicated_of_generate_eq_some generated
    · rwa [padded, height_of_generate generated]
    · rwa [padded]

/-- Two samples with two positions, one of which is repeated. -/
theorem deduplicated_pair :
    ∃ m, UvMergeBitmap.empty.generate [[[97], [98], [97]], [[98]]] = some m ∧
      Deduplicated m [[[97], [98], [97]], [[98]]] := by
  obtain ⟨success, exact⟩ := deduplicated_of_generate .empty [[[97], [98], [97]], [[98]]]
    (by decide) (by decide)
  obtain ⟨m, generated⟩ := Option.isSome_iff_exists.mp (success.mpr (by decide))
  exact ⟨m, generated, exact m generated⟩

end RequestHandler

end FlowRetrieval
