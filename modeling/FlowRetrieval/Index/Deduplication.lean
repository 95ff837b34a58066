/-
# De-duplication

`UvMergeBitmap::Generate` numbers the ad positions in the order in which they first occur
in the samples, so that the dictionary is a bijection between the positions that occur and
the rows. A row has the bits of the samples with its position, however often the position
is repeated in a sample, and uniting rows counts every sample once.

## Main results

* `UvMergeBitmap.exists_numbered` — the numbering that `Generate` builds
* `UvMergeBitmap.bijOn_getRowId` — the dictionary is a bijection onto the rows
* `UvMergeBitmap.getBit_getRowId`, `UvMergeBitmap.toInt_getRowUv` — bits and counters are exact
* `UvMergeBitmap.toInt_countMask_union` — `Union` counts the samples with one of the positions
-/
import FlowRetrieval.Index.UvMergeBitmap
import Mathlib.Algebra.BigOperators.Group.Finset.Piecewise
import Mathlib.Data.Int.ConditionallyCompleteOrder
import Mathlib.Data.List.GetD

namespace FlowRetrieval

open CS CS.BitPacking

namespace UvMergeBitmap

/-- Some sample has the ad position. -/
def Occurs (samples : List (List Str)) (psid : Str) : Prop := ∃ sample ∈ samples, psid ∈ sample

/-- The ad positions of the samples, each of them once. -/
def occurring (samples : List (List Str)) : Finset Str := samples.flatten.toFinset

theorem mem_occurring {samples : List (List Str)} {psid : Str} :
    psid ∈ occurring samples ↔ Occurs samples psid := by
  rw [occurring, List.mem_toFinset, List.mem_flatten, Occurs]

private theorem card_filter_getD {α : Type} (l : List α) (blank : α) (p : α → Bool)
    (unset : p blank = false) {n : ℕ} (long : l.length ≤ n) :
    ((Finset.range n).filter fun c => p (l.getD c blank) = true).card = l.countP p := by
  induction l generalizing n with
  | nil => simp [unset]
  | cons x l ih =>
    obtain ⟨n, rfl⟩ : ∃ k, n = k + 1 := ⟨n - 1, by rw [List.length_cons] at long; omega⟩
    rw [Finset.card_filter, Finset.sum_range_succ', ← Finset.card_filter]
    simp only [List.getD_cons_succ, List.getD_cons_zero, List.countP_cons]
    rw [ih (Nat.le_of_succ_le_succ long)]

theorem occurs_of_mem_getD {samples : List (List Str)} {c : ℕ} {psid : Str}
    (member : psid ∈ samples.getD c []) : Occurs samples psid := by
  rcases Nat.lt_or_ge c samples.length with inside | outside
  · rw [List.getD_eq_getElem _ _ inside] at member
    exact ⟨_, List.getElem_mem inside, member⟩
  · rw [List.getD_eq_default _ _ outside] at member
    cases member

section Numbering

/-- The columns of the samples when the ad positions are numbered by their places. -/
def columns (keys : List Str) (samples : List (List Str)) : List (List UInt32) :=
  samples.map fun sample => sample.map fun psid => UInt32.ofNat (Dict.place keys psid)

variable {dict : Dict Str Int32} {keys : List Str}

/-- New positions of a sample are numbered behind the old ones. -/
theorem encodeSample_eq (numbered : dict.Numbered Int32.ofNat keys) (sample : List Str) :
    ∃ more, (encodeSample dict sample).1.Numbered Int32.ofNat (keys ++ more) ∧
      (∀ psid, psid ∈ keys ++ more ↔ psid ∈ keys ∨ psid ∈ sample) ∧
      (encodeSample dict sample).2 =
        sample.map fun psid => UInt32.ofNat (Dict.place (keys ++ more) psid) := by
  induction sample generalizing dict keys with
  | nil => exact ⟨[], by simpa [encodeSample] using numbered, by simp, rfl⟩
  | cons psid psids ih =>
    have found := numbered.lookup psid
    by_cases old : psid ∈ keys
    · rw [if_pos old] at found
      obtain ⟨more, next, members, column⟩ := ih numbered
      refine ⟨more, ?_, fun other => ?_, ?_⟩
      · simpa only [encodeSample, found] using next
      · rw [members, List.mem_cons]
        constructor
        · rintro (inside | later)
          · exact Or.inl inside
          · exact Or.inr (Or.inr later)
        · rintro (inside | rfl | later)
          · exact Or.inl inside
          · exact Or.inl old
          · exact Or.inr later
      · simp only [encodeSample, found, List.map_cons, column, Dict.place_append_of_mem old,
          Int32.toUInt32_ofNat']
    · rw [if_neg old] at found
      obtain ⟨more, next, members, column⟩ := ih (numbered.insertNew found)
      have here : psid ∈ keys ++ [psid] := List.mem_append_right _ List.mem_cons_self
      refine ⟨psid :: more, ?_, fun other => ?_, ?_⟩
      · simpa only [encodeSample, found, List.append_assoc, List.singleton_append] using next
      · rw [List.append_cons, members, List.mem_append, List.mem_singleton, List.mem_cons, or_assoc]
      · rw [List.append_cons keys psid more]
        simp only [encodeSample, found, List.map_cons, column, Dict.place_append_of_mem here,
          Dict.place_append_cons old]
        rw [numbered.size, Int32.toUInt32_ofNat']

theorem encodeSamples_eq (numbered : dict.Numbered Int32.ofNat keys)
    (samples : List (List Str)) :
    ∃ more, (encodeSamples dict samples).1.Numbered Int32.ofNat (keys ++ more) ∧
      (∀ psid, psid ∈ keys ++ more ↔ psid ∈ keys ∨ Occurs samples psid) ∧
      (encodeSamples dict samples).2 = columns (keys ++ more) samples := by
  induction samples generalizing dict keys with
  | nil => exact ⟨[], by simpa [encodeSamples] using numbered, by simp [Occurs], rfl⟩
  | cons sample samples ih =>
    obtain ⟨more, next, members, column⟩ := encodeSample_eq numbered sample
    obtain ⟨rest, last, allMembers, others⟩ := ih next
    refine ⟨more ++ rest, ?_, fun psid => ?_, ?_⟩
    · simpa only [encodeSamples, List.append_assoc] using last
    · rw [← List.append_assoc, allMembers, members, or_assoc]
      simp [Occurs]
    · rw [← List.append_assoc]
      simp only [encodeSamples, others, columns, List.map_cons, column]
      congr 1
      -- numbers handed out earlier stay what they are
      apply List.map_congr_left
      intro psid inside
      rw [Dict.place_append_of_mem ((members psid).mpr (Or.inr inside))]

end Numbering

section Exact

variable {self m : UvMergeBitmap} {samples : List (List Str)}

/-- The row of a position is its number. -/
theorem getRowId_of_mem {keys : List Str} (numbered : m.psidDict.Numbered Int32.ofNat keys)
    {psid : Str} (known : psid ∈ keys) : m.getRowId psid = Int32.ofNat (Dict.place keys psid) := by
  rw [getRowId, numbered.lookup, if_pos known, Option.getD_some]

/-- `Generate` numbers the positions that occur and builds the bitmap of their numbers. -/
theorem exists_numbered (generated : self.generate samples = some m) :
    ∃ keys, m.psidDict.Numbered Int32.ofNat keys ∧ (∀ psid, psid ∈ keys ↔ Occurs samples psid) ∧
      keys.length = m.height.toNat ∧
      Bitmap.generate (columns keys samples) m.height = some m.toBitmap := by
  obtain ⟨dict, base, keys, -⟩ := generate_eq_some generated
  obtain ⟨order, numbered, members, encoded⟩ :=
    encodeSamples_eq (Dict.numbered_empty Int32.ofNat) samples
  rw [List.nil_append] at numbered members encoded
  rw [← dict] at numbered
  rw [encoded] at base
  refine ⟨order, numbered, by simpa using members, numbered.size.symm.trans keys, ?_⟩
  rwa [Bitmap.height_of_generate base]

/-- A list of the positions that occur, without repetitions, has as many elements. -/
theorem length_eq_card_occurring {keys : List Str} (nodup : keys.Nodup)
    (members : ∀ psid, psid ∈ keys ↔ Occurs samples psid) :
    keys.length = (occurring samples).card := by
  rw [← List.toFinset_card_of_nodup nodup]
  congr 1
  ext psid
  rw [List.mem_toFinset, members, mem_occurring]

/-- The rows are as many as the positions that occur. -/
theorem height_of_generate (generated : self.generate samples = some m) :
    m.height.toNat = (occurring samples).card := by
  obtain ⟨keys, numbered, members, tall, -⟩ := exists_numbered generated
  rw [← tall, length_eq_card_occurring numbered.nodup members]

/-- `Generate` succeeds unless one of its 32-bit counters is too short. -/
theorem isSome_generate_iff (self : UvMergeBitmap) (samples : List (List Str)) :
    (self.generate samples).isSome ↔ samples.length < 2 ^ 32 ∧
      (∀ sample ∈ samples, sample.length < 2 ^ 32) ∧ (occurring samples).card < 2 ^ 32 := by
  constructor
  · intro done
    obtain ⟨m, generated⟩ := Option.isSome_iff_exists.mp done
    obtain ⟨keys, -, -, -, base⟩ := exists_numbered generated
    obtain ⟨few, short, -⟩ := Bitmap.isSome_generate_iff.mp (Option.isSome_of_eq_some base)
    rw [columns, List.length_map] at few
    simp only [columns, List.forall_mem_map, List.length_map] at short
    exact ⟨few, short, height_of_generate generated ▸ m.height.toNat_lt⟩
  · rintro ⟨few, short, rows⟩
    obtain ⟨keys, numbered, members, encoded⟩ :=
      encodeSamples_eq (Dict.numbered_empty Int32.ofNat) samples
    simp only [List.nil_append, List.not_mem_nil, false_or] at numbered members encoded
    have count := length_eq_card_occurring numbered.nodup members
    have generates : (Bitmap.generate (columns keys samples)
        (UInt32.ofNat (encodeSamples ∅ samples).1.entries.length)).isSome := by
      rw [Bitmap.isSome_generate_iff, numbered.size, columns, List.length_map]
      simp only [List.forall_mem_map, List.length_map]
      refine ⟨few, short, fun sample member psid inside => ?_⟩
      -- every position has a number below that of all of them
      have below := Dict.place_lt_length ((members psid).mpr ⟨sample, member, inside⟩)
      have number {k : ℕ} (small : k ≤ keys.length) : (UInt32.ofNat k).toNat = k :=
        UInt32.toNat_ofNat_of_lt' (show k < 2 ^ 32 by omega)
      rw [UInt32.lt_iff_toNat_lt, number below.le, number le_rfl]
      exact below
    obtain ⟨base, built⟩ := Option.isSome_iff_exists.mp generates
    rw [generate]
    simp only [clear, empty, encoded, built]
    rfl

/-- Only positions of samples have rows, and a row of samples has at least eight bytes. -/
theorem height_lt_of_generate (generated : self.generate samples = some m)
    (noWrap : m.width.toNat * m.height.toNat < 2 ^ 32) : m.height.toNat < 2 ^ 29 := by
  obtain ⟨keys, -, members, tall, base⟩ := exists_numbered generated
  have padded := Bitmap.width_of_generate base
  have size := Bitmap.size_of_generate base
  rw [columns, List.length_map] at size
  rcases Nat.eq_zero_or_pos keys.length with none | some
  · omega
  · obtain ⟨psid, inside⟩ := List.exists_mem_of_length_pos some
    obtain ⟨sample, member, -⟩ := (members psid).mp inside
    have := List.length_pos_of_mem member
    have := Nat.mul_le_mul_right m.height.toNat (show 8 ≤ m.width.toNat by omega)
    omega

/-- A row has a place for each sample. -/
theorem le_width_of_generate (generated : self.generate samples = some m) :
    samples.length = m.size.toNat ∧ samples.length ≤ 8 * m.width.toNat := by
  obtain ⟨keys, -, -, -, base⟩ := exists_numbered generated
  have padded := Bitmap.width_of_generate base
  have size := Bitmap.size_of_generate base
  rw [columns, List.length_map] at size
  omega

/-- The counters are the counts of the rows. -/
theorem sampleUv_of_generate (generated : self.generate samples = some m) :
    m.sampleUv = (List.range m.height.toNat).map fun i => m.countRow (UInt32.ofNat i) := by
  rw [generate] at generated
  simp only [clear, empty] at generated
  split at generated
  · cases generated
  · obtain rfl := Option.some.inj generated
    exact List.nil_append _

variable (generated : self.generate samples = some m)
  (noWrap : m.width.toNat * m.height.toNat < 2 ^ 32)

include generated

theorem mem_psidDict_iff (psid : Str) : psid ∈ m.psidDict ↔ Occurs samples psid := by
  obtain ⟨keys, numbered, members, -, -⟩ := exists_numbered generated
  rw [numbered.mem_iff, members]

theorem getRowId_of_not_occurs {psid : Str} (unknown : ¬ Occurs samples psid) :
    m.getRowId psid = -1 := by
  rw [← mem_psidDict_iff generated, ← AList.lookup_eq_none] at unknown
  rw [getRowId, unknown, Option.getD_none]

include noWrap

/-- The dictionary is a bijection between the positions that occur and the rows. -/
theorem bijOn_getRowId :
    Set.BijOn (fun psid => (m.getRowId psid).toInt) {psid | Occurs samples psid}
      (Set.Ico 0 (m.height.toNat : ℤ)) := by
  have rows := height_lt_of_generate generated noWrap
  obtain ⟨keys, numbered, members, tall, -⟩ := exists_numbered generated
  have row {psid : Str} (inside : psid ∈ keys) :
      (m.getRowId psid).toInt = Dict.place keys psid := by
    have := Dict.place_lt_length inside
    rw [getRowId_of_mem numbered inside, Int32.toInt_ofNat_of_lt (by omega)]
  simp only [← members]
  refine ⟨fun psid inside => ?_, fun psid inside other otherInside same => ?_, fun n below => ?_⟩
  · have := Dict.place_lt_length inside
    simp only [row inside, Set.mem_Ico]
    omega
  · simp only [row inside, row otherInside, Nat.cast_inj] at same
    exact (Dict.place_inj inside).mp same
  · -- the row of number `n` is that of the key at this place
    rw [Set.mem_Ico] at below
    obtain ⟨k, rfl⟩ := Int.eq_ofNat_of_zero_le below.1
    have inside : k < keys.length := by omega
    refine ⟨keys[k], List.getElem_mem inside, ?_⟩
    simp only [row (List.getElem_mem inside), Dict.place_getElem numbered.nodup inside]

/-- The row of a position that occurs is a row of the bitmap. -/
theorem getRowId_lt_height {psid : Str} (occurs : Occurs samples psid) :
    (m.getRowId psid).toUInt32 < m.height := by
  have rows := height_lt_of_generate generated noWrap
  obtain ⟨keys, numbered, members, tall, -⟩ := exists_numbered generated
  have known := (members psid).mpr occurs
  have below := Dict.place_lt_length known
  have small : Dict.place keys psid < 2 ^ 32 := by omega
  rw [getRowId_of_mem numbered known, Int32.toUInt32_ofNat', UInt32.lt_iff_toNat_lt,
    UInt32.toNat_ofNat_of_lt' small]
  omega

/-- The row of a position has the bits of the samples that contain it, and no other. -/
theorem cell_getRowId {psid : Str} (occurs : Occurs samples psid) {c : ℕ}
    (inside : c < 8 * m.width.toNat) :
    m.cell (m.getRowId psid).toUInt32 c = decide (psid ∈ samples.getD c []) := by
  have rows := height_lt_of_generate generated noWrap
  have rowInside := getRowId_lt_height generated noWrap occurs
  obtain ⟨keys, numbered, members, tall, base⟩ := exists_numbered generated
  have known := (members psid).mpr occurs
  have row : (m.getRowId psid).toUInt32 = UInt32.ofNat (Dict.place keys psid) := by
    rw [getRowId_of_mem numbered known, Int32.toUInt32_ofNat']
  have number {k : ℕ} (small : k < keys.length) : (UInt32.ofNat k).toNat = k :=
    UInt32.toNat_ofNat_of_lt' (show k < 2 ^ 32 by omega)
  have column : (columns keys samples).getD c [] =
      (samples.getD c []).map fun psid => UInt32.ofNat (Dict.place keys psid) :=
    List.getD_map samples [] _
  rw [Bitmap.cell_of_generate base rowInside inside noWrap, row, column, decide_eq_decide,
    List.mem_map]
  constructor
  · rintro ⟨other, member, same⟩
    have otherKnown : other ∈ keys := (members other).mpr (occurs_of_mem_getD member)
    -- the numbers of two positions differ
    have places := congrArg UInt32.toNat same
    rw [number (Dict.place_lt_length otherKnown), number (Dict.place_lt_length known),
      Dict.place_inj otherKnown] at places
    rwa [← places]
  · intro member
    exact ⟨psid, member, rfl⟩

/-- `GetBit` of the row of a position tells whether a sample contains it. -/
theorem getBit_getRowId {psid : Str} (occurs : Occurs samples psid) {i : ℕ}
    (inside : i < samples.length) :
    m.getBit (m.getRowId psid).toUInt32 (UInt32.ofNat i) = if psid ∈ samples[i] then 1 else 0 := by
  have wide := le_width_of_generate generated
  have short := m.size.toNat_lt
  have number : (UInt32.ofNat i).toNat = i :=
    UInt32.toNat_ofNat_of_lt' (show i < 2 ^ 32 by omega)
  rw [m.getBit_eq (getRowId_lt_height generated noWrap occurs) (by omega) noWrap, number,
    cell_getRowId generated noWrap occurs (by omega), List.getD_eq_getElem _ _ inside]
  simp

section Counters

variable (narrow : m.width.toNat < 2 ^ 28)

include narrow

omit noWrap in
/-- Bytes whose set bits are the samples with a property are counted as these samples. -/
theorem toInt_countBytes_eq_countP {bytes : ℕ → UInt8} {p : List Str → Bool} (unset : p [] = false)
    (bits : ∀ c < 8 * m.width.toNat, bitAt bytes c = p (samples.getD c [])) :
    (m.countBytes bytes).toInt = samples.countP p := by
  have wide := (le_width_of_generate generated).2
  have same : ((Finset.range (8 * m.width.toNat)).filter fun c => bitAt bytes c = true) =
      (Finset.range (8 * m.width.toNat)).filter fun c => p (samples.getD c []) = true := by
    apply Finset.filter_congr
    intro c inside
    rw [bits c (Finset.mem_range.mp inside)]
  have few := List.countP_le_length (p := p) (l := samples)
  have counted := card_filter_getD samples [] p unset wide
  rw [m.toInt_countBytes (by omega) (by rw [same, counted]; omega), same, counted]

/-- The counter of a position is the number of samples that contain it. -/
theorem toInt_getRowUv {psid : Str} (occurs : Occurs samples psid) :
    (m.getRowUv (m.getRowId psid).toUInt32).toInt = samples.countP fun sample => psid ∈ sample := by
  have below := getRowId_lt_height generated noWrap occurs
  have inside := UInt32.lt_iff_toNat_lt.mp below
  have counter : m.getRowUv (m.getRowId psid).toUInt32 =
      m.countRow (m.getRowId psid).toUInt32 := by
    rw [getRowUv, sampleUv_of_generate generated, List.length_map, List.length_range,
      if_pos inside, List.getD_eq_getElem _ _ (by simpa using inside)]
    simp
  rw [counter, Bitmap.countRow, if_pos below]
  exact toInt_countBytes_eq_countP generated narrow (by simp)
    fun c inside => cell_getRowId generated noWrap occurs inside

/-- Uniting the rows of positions that occur counts the samples with one of them. -/
theorem toInt_countMask_union {capacity : ℕ} (buffer : ByteMemory capacity)
    (fits : m.width.toNat ≤ capacity) {psids : List Str}
    (occur : ∀ psid ∈ psids, Occurs samples psid) :
    (m.countMask (m.union (psids.map m.getRowId) 0 buffer).load).toInt =
      samples.countP fun sample => psids.any fun psid => psid ∈ sample := by
  refine toInt_countBytes_eq_countP generated narrow (by simp) fun c inside => ?_
  match psids with
  | [] =>
    -- without rows the bytes are set to zero
    have blank : (buffer.fill 0 0 m.width.toNat).load (0 + c / 8) = 0 :=
      ByteMemory.load_fill 0 buffer (by omega) (by omega)
    rw [Nat.zero_add] at blank
    rw [List.map_nil, union, bitAt, blank, bitOf_zero, List.any_nil]
  | psid :: psids =>
    have united := m.bitAt_orGroup 0 buffer
      (List.cons_ne_nil (m.getRowId psid) (psids.map m.getRowId)) inside (by omega)
    simp only [Nat.zero_add] at united
    rw [← List.map_cons, List.any_map] at united
    apply united.trans
    rw [Bool.eq_iff_iff, List.any_eq_true, List.any_eq_true]
    refine exists_congr fun other => and_congr_right fun member => ?_
    simp only [Function.comp, cell_getRowId generated noWrap (occur other member) inside]

end Counters

end Exact

end UvMergeBitmap

end FlowRetrieval
