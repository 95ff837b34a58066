/-
# Bids in sixteen bits

The builder reads a bid as a signed 64-bit number, caps it at `0xFFFF` and casts it to 16
bits, and the service compares the stored bid with a price as unsigned numbers. The cap keeps
large bids above every smaller price. There is no cap below: a negative bid is cast to its
low sixteen bits, so that `-1` becomes the highest bid. And the index of a bid is an `int`,
which is negative from position `2 ^ 31` on.

## Main results

* `Builder.decidesByBid_iff` — when a sample is counted as won exactly by its bid
-/
import FlowRetrieval.Builder

namespace FlowRetrieval

open CS.BitPacking

namespace Builder

/-- The number in the bid field of a sample line. -/
def bidOf (line : Str) : ℤ := (Cstdlib.strtol ((StringExt.split line 9).getD 7 [])).toInt

/-- The bid that `ParseLine` stores is the number of the field, capped and cast. -/
theorem bid_parseSample {map : TargetMap} {line : Str} {sample : Sample}
    (parsed : parseSample map line = some (some sample)) :
    (sample.bid.toNat : ℤ) = if 0xFFFF < bidOf line then 0xFFFF else bidOf line % 65536 := by
  obtain ⟨fields, called, parsed⟩ := Option.bind_eq_some_iff.mp parsed
  rw [StringExt.splitCall_eq] at called
  split at called
  · obtain rfl := Option.some.inj called
    split at parsed
    · rename_i bid _ rest fields
      obtain ⟨names, -, parsed⟩ := Option.bind_eq_some_iff.mp parsed
      obtain ⟨regions, -, parsed⟩ := Option.bind_eq_some_iff.mp parsed
      obtain rfl := Option.some.inj (Option.some.inj parsed)
      have number : bidOf line = (Cstdlib.strtol bid).toInt := by rw [bidOf, fields]; rfl
      have capped : 0xFFFF < Cstdlib.strtol bid ↔ 0xFFFF < (Cstdlib.strtol bid).toInt :=
        Int64.lt_iff_toInt_lt
      rw [number]
      simp only [capped]
      split
      · rfl
      · -- the cast keeps the low bits of the two's complement
        have bits : (Cstdlib.strtol bid).toInt =
            ((Cstdlib.strtol bid).toUInt64.toNat : ℤ).bmod (2 ^ 64) :=
          BitVec.toInt_eq_toNat_bmod _
        rw [UInt64.toNat_toUInt16, bits, Int.bmod_def]
        omega
    · cases parsed
  · cases called

/-- `Count` counts the sample in `win_num`: without its bit in the mask there is one less. -/
def CountedAsWon (b : BidBitmap) (stray : BidBitmap.Stray) (mask : ℕ → UInt8) (price : UInt32)
    (i : ℕ) : Prop :=
  (b.count stray mask price).winNum = (b.count stray (clearBit mask i) price).winNum + 1

/-- The sample of a line is counted as won iff its bid is at most the price. -/
def DecidesByBid (line : Str) (b : BidBitmap) (stray : BidBitmap.Stray) (mask : ℕ → UInt8)
    (price : Int32) (i : ℕ) : Prop :=
  CountedAsWon b stray mask price.toUInt32 i ↔ bidOf line ≤ price.toInt

section Decision

variable {self b : BidBitmap} {cols : List (List UInt32)} {bids : List UInt16} {height : UInt32}
  {mask : ℕ → UInt8} {i : ℕ}

/-- A selected sample is counted as won iff the word that `Count` reads is at most the price. -/
theorem countedAsWon_iff (stray : BidBitmap.Stray) (visited : i ∈ b.visited mask)
    (price : UInt32) :
    CountedAsWon b stray mask price i ↔ (b.bidOfPosition stray i).toNat ≤ price.toNat := by
  rw [CountedAsWon, b.winNum_eq_clearBit_add stray price visited, UInt32.add_right_inj,
    ← UInt16.toNat_toUInt32, ← UInt32.le_iff_toNat_le]
  split
  · rename_i wins
    exact iff_of_true rfl wins
  · rename_i loses
    exact iff_of_false (by decide) loses

/-- For a price below `0xFFFF`, the sample of an accepted line is counted as won by its bid
iff the bid is not negative or has low sixteen bits that do not exceed the price, and the
position of the sample is one of an `int`: the word at a negative index can be any. -/
theorem decidesByBid_iff {map : TargetMap} {line : Str} {sample : Sample} {price : Int32}
    (parsed : parseSample map line = some (some sample))
    (generated : self.generate cols bids height = some b)
    (stored : bids[i]? = some sample.bid) (selected : bitAt mask i = true)
    (nonneg : 0 ≤ price.toInt) (below : price.toInt < 65535) :
    (∀ stray, DecidesByBid line b stray mask price i) ↔
      i < 2 ^ 31 ∧ (0 ≤ bidOf line ∨ bidOf line % 65536 ≤ price.toInt) := by
  obtain ⟨base, same, paired⟩ := BidBitmap.generate_eq_some generated
  have padded := Bitmap.width_of_generate base
  have bounded := b.size.toNat_lt
  obtain ⟨inside, -⟩ := List.getElem?_eq_some_iff.mp stored
  rw [← same] at inside stored
  have visited : i ∈ b.visited mask :=
    (BidBitmap.mem_visited (by omega)).mpr ⟨by omega, selected⟩
  have bid := bid_parseSample parsed
  have unsigned : (price.toUInt32.toNat : ℤ) = price.toInt := by
    rw [Int32.toNat_toUInt32_of_le (Int32.le_iff_toInt_le.mpr nonneg), Int32.toNatClampNeg]
    omega
  simp only [DecidesByBid, countedAsWon_iff _ visited, ← Int.ofNat_le, unsigned]
  by_cases small : i < 2 ^ 31
  · -- the word read is the stored bid
    have value : b.bids.getD i 0 = sample.bid := by
      rw [List.getD_eq_getElem?_getD, stored, Option.getD_some]
    simp only [BidBitmap.bidOfPosition_of_lt small inside, value, bid, forall_const, small,
      true_and]
    split
    · omega
    · omega
  · -- the word read is behind the bids, and one of two words decides against the bid
    have negative : BidBitmap.bidIndex i < 0 :=
      BidBitmap.bidIndex_neg (Nat.not_lt.mp small) (by omega)
    have word (stray : BidBitmap.Stray) :
        b.bidOfPosition stray i = stray (BidBitmap.bidIndex i) :=
      if_neg fun within => absurd within.1 (not_le.mpr negative)
    refine iff_of_false (fun decides => ?_) fun both => small both.1
    by_cases paid : bidOf line ≤ price.toInt
    · have won := (decides fun _ => 65535).mpr paid
      have top : (65535 : UInt16).toNat = 65535 := rfl
      rw [word, top] at won
      omega
    · refine paid ((decides fun _ => 0).mp ?_)
      rw [word]
      exact nonneg

end Decision

section Single

/-- A line with the bid 5. -/
def paidLine : Str := .ofLiteral "1\tm\tp\ta\tb\tc\tr\t5\tx"

/-- A line with the bid -1. -/
def negativeLine : Str := .ofLiteral "1\tm\tp\ta\tb\tc\tr\t-1\tx"

theorem parse_paidLine : parseSample .empty paidLine = some (some ⟨[112], [], 5⟩) := rfl

theorem parse_negativeLine : parseSample .empty negativeLine = some (some ⟨[112], [], 65535⟩) := rfl

/-- The bid bitmap of one sample without targets. -/
def untargetedBid (bid : UInt16) : BidBitmap :=
  { Bitmap.zeroed 1 1 with bids := [bid] }

/-- The mask of this sample. -/
def firstSelected (k : ℕ) : UInt8 := if k = 0 then 0x80 else 0

theorem generate_untargetedBid (self : BidBitmap) (bid : UInt16) :
    self.generate [[]] [bid] 1 = some (untargetedBid bid) := rfl

theorem decidesByBid_single : bidOf paidLine = 5 ∧
    ∀ stray, DecidesByBid paidLine (untargetedBid 5) stray firstSelected 5 0 :=
  ⟨by decide, (decidesByBid_iff parse_paidLine (generate_untargetedBid (untargetedBid 5) 5) rfl
    (by decide) (by decide) (by decide)).mpr ⟨by decide, .inl (by decide)⟩⟩

/-- A bid below zero is at most every price, but the sample is not counted as won. -/
theorem not_decidesByBid_negative :
    parseSample .empty negativeLine = some (some ⟨[112], [], 65535⟩) ∧ bidOf negativeLine = -1 ∧
      (untargetedBid 5).generate [[]] [65535] 1 = some (untargetedBid 65535) ∧
      bitAt firstSelected 0 = true ∧
      ∀ stray, ¬ DecidesByBid negativeLine (untargetedBid 65535) stray firstSelected 5 0 := by
  have bid : bidOf negativeLine = -1 := by decide
  refine ⟨parse_negativeLine, bid, generate_untargetedBid _ 65535, by decide, fun stray => ?_⟩
  have visited : 0 ∈ (untargetedBid 65535).visited firstSelected := by decide
  rw [DecidesByBid, countedAsWon_iff stray visited, bid,
    BidBitmap.bidOfPosition_of_lt (by decide) (by decide)]
  decide

end Single

end Builder

end FlowRetrieval
