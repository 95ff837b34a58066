/-
# Files of the merge bitmap

`UvMergeBitmap::Load` reads back what `UvMergeBitmap::Dump` has written for the samples it
was generated from, as long as there is something to read: `fread` returns zero both for a
block of no bytes and for an error, and `Load` takes it for an error. The other limits are
the widths of the format: a length of 32 bits before each ad position, and a block size that
`Dump` writes in 32 bits and counts in 64.

## Main results

* `UvMergeBitmap.restored_iff` — when the file of some samples is read back
-/
import FlowRetrieval.Index.Deduplication

namespace FlowRetrieval

open CS CS.ByteCodec

namespace UvMergeBitmap

/-- In whatever order `Dump` writes the dictionary and whatever bytes follow, `Load` returns
`0`, consumes as many bytes as `Dump` returned, and gives the same bits, counters and
dictionary. -/
def Restored (m : UvMergeBitmap) : Prop :=
  ∀ (order : m.psidDict.Order) (target : UvMergeBitmap) (rest : List UInt8), ∃ loaded,
    target.load.run ((m.dump order).bytes ++ rest) = .ok (loaded, rest) ∧
      (m.dump order).code.toInt = (m.dump order).bytes.length ∧
      loaded.toBitmap = m.toBitmap ∧ loaded.sampleUv = m.sampleUv ∧
      ∀ psid, loaded.psidDict.lookup psid = m.psidDict.lookup psid

variable {self m : UvMergeBitmap} {samples : List (List Str)}

/-- A bitmap without a row is not read back. -/
theorem rows_of_restored (restored : Restored m) : 0 < m.height.toNat := by
  by_contra none
  have empty : (m.width * m.height).toNat = 0 := by
    rw [UInt32.toNat_mul, Nat.eq_zero_of_not_pos none, Nat.mul_zero, Nat.zero_mod]
  obtain ⟨loaded, run, -⟩ := restored (.stored _) m []
  have counted : m.width.toNat * m.height.toNat < 2 ^ 62 := by
    rw [Nat.eq_zero_of_not_pos none, Nat.mul_zero]
    exact Nat.two_pow_pos 62
  -- the bitmap is read first, and reading it fails
  have failed : m.load.run ((m.dump (.stored _)).bytes ++ []) = .error 1 := by
    rw [m.dump_eq _ counted, List.append_assoc]
    exact run_bind_error _ (m.toBitmap.load_error_of_empty empty _)
  rw [failed] at run
  cases run

/-- Ad positions of `2 ^ 32` bytes are not read back. -/
theorem short_of_restored (restored : Restored m) :
    ∀ psid ∈ m.psidDict, psid.length < 2 ^ 32 := by
  intro psid member
  obtain ⟨loaded, run, -, -, -, dict⟩ := restored (.stored _) m []
  have kept : psid ∈ loaded.psidDict := by
    rwa [← AList.lookup_isSome, dict, AList.lookup_isSome]
  exact m.yields_load _ loaded [] run psid kept

/-- The code of a dump whose block size wraps around is not the number of its bytes. -/
theorem noWrap_of_restored (restored : Restored m)
    (counted : m.width.toNat * m.height.toNat < 2 ^ 62) :
    m.width.toNat * m.height.toNat < 2 ^ 32 := by
  obtain ⟨loaded, -, code, -⟩ := restored (.stored _) m []
  -- the two differ by a multiple of `2 ^ 32` below `2 ^ 62`
  rw [m.code_dump_eq _ counted, Int64.toInt_ofNat', Int.bmod_def, Int64.size] at code
  by_contra wrapped
  split at code <;> omega

/-- The file of some samples is read back iff there is an ad position, none is longer than
the format has room for, and the block size fits in 32 bits. -/
theorem restored_iff (generated : self.generate samples = some m) :
    Restored m ↔ 0 < (occurring samples).card ∧
      (∀ psid ∈ occurring samples, psid.length < 2 ^ 32) ∧
      8 * ((samples.length + 63) / 64) * (occurring samples).card < 2 ^ 32 := by
  obtain ⟨_, -, -, -, base⟩ := exists_numbered generated
  obtain ⟨-, -, keys, counters⟩ := generate_eq_some generated
  have padded := Bitmap.width_of_generate base
  have rows := height_of_generate generated
  have size := (le_width_of_generate generated).1
  have counted : m.width.toNat * m.height.toNat < 2 ^ 62 := by
    have wide : m.width.toNat ≤ 2 ^ 29 := by
      have := m.size.toNat_lt
      omega
    calc
      m.width.toNat * m.height.toNat ≤ 2 ^ 29 * 2 ^ 32 :=
        Nat.mul_le_mul wide m.height.toNat_lt.le
      _ < 2 ^ 62 := by norm_num
  rw [← rows, size, ← padded]
  simp only [mem_occurring, ← mem_psidDict_iff generated]
  constructor
  · intro restored
    exact ⟨rows_of_restored restored, short_of_restored restored,
      noWrap_of_restored restored counted⟩
  · rintro ⟨some, short, noWrap⟩ order target rest
    have columns : 0 < m.size.toNat := by
      rw [← size]
      obtain ⟨psid, occurs⟩ := Finset.card_pos.mp (rows ▸ some)
      obtain ⟨sample, member, -⟩ := mem_occurring.mp occurs
      exact List.length_pos_of_mem member
    have occupied : m.Occupied := ⟨some, columns, noWrap⟩
    have nonempty := Bitmap.Padded.data_ne_nil padded occupied
    have length := m.length_dump_lt order padded occupied counters keys short
    refine ⟨_, (decodes_load target m order counted nonempty counters keys short).run rest, ?_, rfl,
      rfl, Dict.lookup_insertAll_order order⟩
    rw [m.code_dump order noWrap, Int64.toInt_ofNat_of_lt (by omega)]

/-- The file of one sample is read back. -/
theorem restored_single : ∃ m, UvMergeBitmap.empty.generate [[[97]]] = some m ∧ Restored m := by
  have success : (UvMergeBitmap.empty.generate [[[97]]]).isSome := by
    rw [isSome_generate_iff]
    decide
  obtain ⟨m, generated⟩ := Option.isSome_iff_exists.mp success
  exact ⟨m, generated, (restored_iff generated).mpr (by decide)⟩

/-- The file of no samples, which a merge file without valid lines gives, is not. -/
theorem not_restored_nil :
    ∃ m, UvMergeBitmap.empty.generate [] = some m ∧ ¬ Restored m :=
  ⟨_, rfl, fun restored => absurd (rows_of_restored restored) (by decide)⟩

end UvMergeBitmap

end FlowRetrieval
