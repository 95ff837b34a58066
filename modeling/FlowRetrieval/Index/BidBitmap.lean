/-
# Bid bitmaps

A bitmap whose column `c` is a sample with the bid `bids[c]`. `Count` visits the
set positions of a mask and tallies the bids it finds there. It computes the index
of a bid as an `int` and does not compare it with the size of `bids_`: in front of
the vector and behind it it reads whatever the heap holds there. Those words are a
parameter of the counters, about which nothing is known.

## Main results

* `BidBitmap.count_eq_tally` — `Count` tallies the words at the visited positions
* `BidBitmap.count_of_inside` — inside the bids the heap does not matter
* `BidBitmap.tally_eq` — the five counters of a tally, each modulo its width
* `BidBitmap.counts_count` — the counters as cardinalities and a sum over the samples
-/
import FlowRetrieval.Common.BitmapStream
import Mathlib.Algebra.BigOperators.Group.Finset.Basic
import Mathlib.Algebra.Order.BigOperators.Group.List

namespace FlowRetrieval

open CS CS.BitPacking CS.ByteCodec

/-- `Result`: what `Count` reports about the targeted samples. -/
structure Result where
  bidSum : UInt64
  targetNum : UInt32
  winNum : UInt32
  zeroNum : UInt32
  bidNum : UInt32
  deriving DecidableEq, Repr

/-- `BidBitmap`. -/
@[ext]
structure BidBitmap extends Bitmap where
  bids : List UInt16
  deriving DecidableEq, Repr

namespace BidBitmap

/-- `Clear`. -/
def clear (_self : BidBitmap) : BidBitmap := { Bitmap.clear with bids := [] }

/-- `Generate`: the bitmap of a run that returns true. -/
def generate (self : BidBitmap) (cols : List (List UInt32)) (bids : List UInt16)
    (height : UInt32) : Option BidBitmap :=
  -- `Clear` comes first, so that the bids are inserted into an empty vector
  match Bitmap.generate cols height with
  | none => none
  | some base =>
    if bids.length = base.size.toNat then
      some { base with bids := bids ++ self.clear.bids }
    else none

/-- `Load`. -/
def load (self : BidBitmap) : Reader ℤ BidBitmap := do
  let base ← Bitmap.load
  let bids ← times (readU16 1) base.size.toNat
  return { base with bids := self.clear.bids ++ bids }

/-- `Dump`. -/
def dump (b : BidBitmap) : Dumped :=
  let base := b.toBitmap.dump
  if base.code < 0 then base
  else ⟨base.bytes ++ b.bids.flatMap u16Bytes, base.code + Int64.ofNat (2 * b.bids.length)⟩

section Stream

variable (b : BidBitmap)

theorem dump_eq (counted : b.width.toNat * b.height.toNat < 2 ^ 62) :
    b.dump = ⟨b.toBitmap.dump.bytes ++ b.bids.flatMap u16Bytes,
      b.toBitmap.dump.code + Int64.ofNat (2 * b.bids.length)⟩ := by
  rw [dump]
  exact if_neg (b.toBitmap.code_dump_nonneg counted)

theorem code_dump_nonneg (counted : b.width.toNat * b.height.toNat < 2 ^ 62)
    (paired : b.bids.length = b.size.toNat) : ¬ b.dump.code < 0 := by
  rw [b.dump_eq counted, Bitmap.dump, ← Int64.ofNat_add]
  have := b.size.toNat_lt
  exact Dumped.not_neg_of_small (by omega)

/-- A bitmap with data and one bid for each column is read back from its dump. -/
theorem decodes_load (self : BidBitmap) (counted : b.width.toNat * b.height.toNat < 2 ^ 62)
    (nonempty : b.data ≠ []) (paired : b.bids.length = b.size.toNat) :
    Decodes self.load b.dump.bytes b := by
  rw [b.dump_eq counted]
  apply (b.toBitmap.decodes_load nonempty).bind
  rw [← paired]
  exact (decodes_times fun bid _ => decodes_readU16 1 bid).bind_pure fun bids =>
    ({ b.toBitmap with bids := self.clear.bids ++ bids } : BidBitmap)

/-- `Load` reads one bid for each column. -/
theorem yields_load (self : BidBitmap) :
    Yields self.load fun b => b.bids.length = b.size.toNat := by
  refine (yields_true _).bind fun base _ =>
    (yields_times (yields_true _) _).bind fun bids each => yields_pure ?_
  exact each.1

theorem length_dump (noWrap : b.width.toNat * b.height.toNat < 2 ^ 32) :
    b.dump.bytes.length = 12 + b.width.toNat * b.height.toNat + 2 * b.bids.length := by
  rw [b.dump_eq (by omega), List.length_append, b.toBitmap.length_dump noWrap,
    length_flatMap_of_width length_u16Bytes]

theorem code_dump (noWrap : b.width.toNat * b.height.toNat < 2 ^ 32) :
    b.dump.code = Int64.ofNat b.dump.bytes.length := by
  rw [b.length_dump noWrap, ← b.toBitmap.length_dump noWrap, Int64.ofNat_add,
    ← b.toBitmap.code_dump noWrap, b.dump_eq (by omega)]

end Stream

section Generate

variable {self b : BidBitmap} {cols : List (List UInt32)} {bids : List UInt16} {height : UInt32}

/-- What a successful `Generate` built: the bitmap of the columns, and the bids. -/
theorem generate_eq_some (done : self.generate cols bids height = some b) :
    Bitmap.generate cols height = some b.toBitmap ∧ b.bids = bids ∧
      b.bids.length = b.size.toNat := by
  rw [generate] at done
  cases base : Bitmap.generate cols height with
  | none => rw [base] at done; cases done
  | some bitmap =>
    simp only [base] at done
    split at done
    · rename_i paired
      obtain rfl := Option.some.inj done
      refine ⟨rfl, List.append_nil bids, ?_⟩
      exact (congrArg List.length (List.append_nil bids)).trans paired
    · cases done

theorem isSome_generate_iff : (self.generate cols bids height).isSome ↔
    (Bitmap.generate cols height).isSome ∧ bids.length = cols.length := by
  rw [generate]
  cases base : Bitmap.generate cols height with
  | none => simp
  | some bitmap =>
    rw [← Bitmap.size_of_generate base]
    by_cases paired : bids.length = bitmap.size.toNat
    · simp [paired]
    · simp [paired]

/-- A bitmap of columns with one bid for each of them is what `Generate` makes of both. -/
theorem generate_of_toBitmap (base : Bitmap.generate cols height = some b.toBitmap)
    (paired : b.bids.length = b.size.toNat) : b.generate cols b.bids height = some b := by
  rw [generate, base]
  simp only [if_pos paired, clear, List.append_nil]

end Generate

section Count

/-- One turn of the loop body of `Count`, for a sample with bid `sampleBid`. -/
def countStep (bid : UInt32) (result : Result) (sampleBid : UInt16) : Result :=
  let result := { result with targetNum := result.targetNum + 1 }
  let result :=
    if 0 < sampleBid then
      { result with bidSum := result.bidSum + sampleBid.toUInt64, bidNum := result.bidNum + 1 }
    else { result with zeroNum := result.zeroNum + 1 }
  if sampleBid.toUInt32 ≤ bid then { result with winNum := result.winNum + 1 } else result

/-- The words in front of `bids_` and behind it, by their distance from its first word. -/
abbrev Stray := ℤ → UInt16

/-- The `int` that `Count` computes as the index of position `p`, `(i << 3) + 7 - j`. -/
def bidIndex (p : ℕ) : ℤ := (Int32.ofNat p).toInt

/-- `bids_[index]`. -/
def bidAt (b : BidBitmap) (stray : Stray) (index : ℤ) : UInt16 :=
  if 0 ≤ index ∧ index < b.bids.length then b.bids.getD index.toNat 0 else stray index

/-- What `Count` reads for position `p`. -/
def bidOfPosition (b : BidBitmap) (stray : Stray) (p : ℕ) : UInt16 := b.bidAt stray (bidIndex p)

/-- `Count`. -/
def count (b : BidBitmap) (stray : Stray) (mask : ℕ → UInt8) (bid : UInt32) : Result :=
  (List.range b.intWidth).foldl
    (fun result i => (Bitmap.popAll 8 (mask i)).foldl
      (fun result j => countStep bid result (b.bidOfPosition stray (i * 8 + 7 - j))) result)
    ⟨0, 0, 0, 0, 0⟩

/-- The positions that `Count` visits, in the order it visits them. -/
def visited (b : BidBitmap) (mask : ℕ → UInt8) : List ℕ :=
  (List.range b.intWidth).flatMap fun i =>
    (Bitmap.popAll 8 (mask i)).map fun j => i * 8 + 7 - j

/-- The indices at which `Count` reads `bids_`. -/
def reads (b : BidBitmap) (mask : ℕ → UInt8) : List ℤ := (b.visited mask).map bidIndex

/-- Every index at which `Count` reads `bids_` is one of its bids. -/
def Inside (b : BidBitmap) (mask : ℕ → UInt8) : Prop :=
  ∀ index ∈ b.reads mask, 0 ≤ index ∧ index < b.bids.length

/-- The counters after a list of sample bids. -/
def tally (bid : UInt32) (sampleBids : List UInt16) : Result :=
  sampleBids.foldl (countStep bid) ⟨0, 0, 0, 0, 0⟩

/-- Up to `2 ^ 31` the index of a position is the position. -/
theorem bidIndex_of_lt {p : ℕ} (small : p < 2 ^ 31) : bidIndex p = p :=
  Int32.toInt_ofNat_of_lt small

/-- From there up to `2 ^ 32` it is negative. -/
theorem bidIndex_neg {p : ℕ} (large : 2 ^ 31 ≤ p) (below : p < 2 ^ 32) : bidIndex p < 0 := by
  have size : Int32.size = 4294967296 := rfl
  rw [bidIndex, Int32.toInt_ofNat', Int.bmod_def, size]
  omega

theorem bidAt_of_inside {b : BidBitmap} {index : ℤ}
    (inside : 0 ≤ index ∧ index < b.bids.length) (stray : Stray) :
    b.bidAt stray index = b.bids.getD index.toNat 0 := if_pos inside

theorem bidOfPosition_of_lt {b : BidBitmap} {p : ℕ} (small : p < 2 ^ 31)
    (inside : p < b.bids.length) (stray : Stray) : b.bidOfPosition stray p = b.bids.getD p 0 := by
  have within : 0 ≤ (p : ℤ) ∧ (p : ℤ) < b.bids.length :=
    ⟨Int.natCast_nonneg p, Int.ofNat_lt.mpr inside⟩
  rw [bidOfPosition, bidIndex_of_lt small, bidAt_of_inside within, Int.toNat_natCast]

/-- `Count` tallies the words at the visited positions. -/
theorem count_eq_tally (b : BidBitmap) (stray : Stray) (mask : ℕ → UInt8) (bid : UInt32) :
    b.count stray mask bid = tally bid ((b.visited mask).map (b.bidOfPosition stray)) := by
  rw [count, tally, visited]
  rw [List.foldl_map, List.foldl_flatMap]
  simp only [List.foldl_map]

/-- `Count` visits the set positions of the mask. -/
theorem visited_eq_positions (b : BidBitmap) (mask : ℕ → UInt8) :
    b.visited mask = positions b.intWidth mask := by
  rw [visited, positions]
  simp only [Bitmap.popAll_eq_bitsOf]

/-- No index is visited twice. -/
theorem visited_nodup (b : BidBitmap) (mask : ℕ → UInt8) : (b.visited mask).Nodup := by
  rw [visited_eq_positions]
  exact positions_nodup _ _

/-- `Count` visits the positions of a row whose bits the mask has set. -/
theorem mem_visited {b : BidBitmap} (small : b.width.toNat < 2 ^ 31) {mask : ℕ → UInt8}
    {c : ℕ} : c ∈ b.visited mask ↔ c < 8 * b.width.toNat ∧ bitAt mask c = true := by
  rw [visited_eq_positions, mem_positions, Bitmap.intWidth, if_pos small, Nat.mul_comm]

/-- Where all indices are inside, the counters do not depend on the words outside. -/
theorem count_of_inside {b : BidBitmap} {mask : ℕ → UInt8} (inside : b.Inside mask)
    (stray stray' : Stray) (bid : UInt32) : b.count stray mask bid = b.count stray' mask bid := by
  rw [count_eq_tally, count_eq_tally]
  congr 1
  apply List.map_congr_left
  intro p visited
  have within := inside _ (List.mem_map_of_mem visited)
  exact (bidAt_of_inside within stray).trans (bidAt_of_inside within stray').symm

theorem count_congr (b : BidBitmap) (stray : Stray) {first second : ℕ → UInt8} (bid : UInt32)
    (same : ∀ i < b.width.toNat, first i = second i) :
    b.count stray first bid = b.count stray second bid := by
  rw [count_eq_tally, count_eq_tally, visited_eq_positions, visited_eq_positions,
    positions_congr fun i hi => same i (hi.trans_le b.intWidth_le)]

/-- Every counter of a tally is the corresponding count or sum, modulo its width. -/
theorem tally_eq (bid : UInt32) (sampleBids : List UInt16) :
    tally bid sampleBids =
      { bidSum := UInt64.ofNat (sampleBids.map UInt16.toNat).sum
        targetNum := UInt32.ofNat sampleBids.length
        winNum := UInt32.ofNat (sampleBids.countP fun x => x.toUInt32 ≤ bid)
        zeroNum := UInt32.ofNat (sampleBids.countP fun x => x = 0)
        bidNum := UInt32.ofNat (sampleBids.countP fun x => 0 < x) } := by
  induction sampleBids using List.reverseRecOn with
  | nil => rfl
  | append_singleton sampleBids x ih =>
    have positive : 0 < x ↔ x ≠ 0 := UInt16.pos_iff_ne_zero
    -- one more bid changes the counters as one turn of the loop does
    rw [tally, List.foldl_append, ← tally, ih]
    simp only [List.foldl_cons, List.foldl_nil, countStep, List.map_append, List.sum_append,
      List.countP_append, List.length_append, List.map_cons, List.map_nil, List.countP_cons,
      List.countP_nil]
    by_cases wins : x.toUInt32 ≤ bid <;> by_cases zero : x = 0 <;>
      simp [wins, zero, positive, UInt32.ofNat_add, UInt64.ofNat_add]

/-- A visited sample counts as won when its bid is at most the price. -/
theorem winNum_eq_clearBit_add (b : BidBitmap) (stray : Stray) {mask : ℕ → UInt8}
    (bid : UInt32) {c : ℕ} (visited : c ∈ b.visited mask) :
    (b.count stray mask bid).winNum = (b.count stray (clearBit mask c) bid).winNum +
      if (b.bidOfPosition stray c).toUInt32 ≤ bid then 1 else 0 := by
  rw [visited_eq_positions] at visited
  have perm := (positions_perm_cons_clearBit visited).map (b.bidOfPosition stray)
  rw [count_eq_tally, count_eq_tally, tally_eq, tally_eq, visited_eq_positions,
    visited_eq_positions]
  simp only [perm.countP_eq, List.map_cons, List.countP_cons, UInt32.ofNat_add]
  congr 1
  generalize b.bidOfPosition stray c = word
  simp only [decide_eq_true_eq]
  split <;> rfl

/-- The counters are the cardinalities and the sum over a set of samples with these bids. -/
structure Counts (result : Result) (bids : ℕ → UInt16) (bid : UInt32) (samples : Finset ℕ) :
    Prop where
  targetNum : result.targetNum.toNat = samples.card
  winNum : result.winNum.toNat = (samples.filter fun c => (bids c).toNat ≤ bid.toNat).card
  zeroNum : result.zeroNum.toNat = (samples.filter fun c => bids c = 0).card
  bidNum : result.bidNum.toNat = (samples.filter fun c => 0 < bids c).card
  bidSum : result.bidSum.toNat = ∑ c ∈ samples, (bids c).toNat

/-- Fewer than `2 ^ 32` samples, each visited once, are counted without a wrap. -/
theorem counts_tally (bids : ℕ → UInt16) (bid : UInt32) {indices : List ℕ}
    (distinct : indices.Nodup) (short : indices.length < 2 ^ 32) :
    Counts (tally bid (indices.map bids)) bids bid indices.toFinset := by
  -- a counter of at most `indices.length` samples does not reach its 32-bit bound
  have number (p : UInt16 → Bool) :
      (UInt32.ofNat ((indices.map bids).countP p)).toNat =
        (indices.toFinset.filter fun c => p (bids c) = true).card := by
    have below := List.countP_le_length (p := p) (l := indices.map bids)
    rw [List.length_map] at below
    rw [UInt32.toNat_ofNat_of_lt' (below.trans_lt short), List.countP_map,
      List.countP_eq_length_filter, ← List.toFinset_filter,
      List.toFinset_card_of_nodup (distinct.filter _)]
    rfl
  -- and fewer than `2 ^ 32` bids of 16 bits have a 64-bit sum
  have total : ((indices.map bids).map UInt16.toNat).sum < 2 ^ 64 := by
    have each := List.sum_le_card_nsmul ((indices.map bids).map UInt16.toNat)
      65535 fun n member => by
        obtain ⟨x, -, rfl⟩ := List.mem_map.mp member
        exact Nat.le_of_lt_succ x.toNat_lt
    rw [List.length_map, List.length_map, nsmul_eq_mul, Nat.cast_id] at each
    omega
  rw [tally_eq]
  constructor
  · rw [List.toFinset_card_of_nodup distinct, List.length_map]
    exact UInt32.toNat_ofNat_of_lt' short
  · apply (number _).trans
    simp [UInt32.le_iff_toNat_le]
  · apply (number _).trans
    simp
  · apply (number _).trans
    simp
  · rw [List.sum_toFinset _ distinct, UInt64.toNat_ofNat_of_lt' total, List.map_map]
    rfl

/-- `Count` counts the visited positions, of which there are fewer than `2 ^ 32`. -/
theorem counts_count (b : BidBitmap) (stray : Stray) (mask : ℕ → UInt8) (bid : UInt32)
    {samples : Finset ℕ} (visits : ∀ c, c ∈ b.visited mask ↔ c ∈ samples)
    (short : samples.card < 2 ^ 32) :
    Counts (b.count stray mask bid) (b.bidOfPosition stray) bid samples := by
  have distinct := b.visited_nodup mask
  have same : (b.visited mask).toFinset = samples := by
    ext c
    rw [List.mem_toFinset, visits]
  rw [← same, List.toFinset_card_of_nodup distinct] at short
  rw [count_eq_tally, ← same]
  exact counts_tally _ bid distinct short

/-- Only the bids of the samples matter. -/
theorem Counts.congr {result : Result} {bids bids' : ℕ → UInt16} {bid : UInt32}
    {samples : Finset ℕ} (counts : Counts result bids bid samples)
    (same : ∀ c ∈ samples, bids c = bids' c) : Counts result bids' bid samples := by
  have selected {p : UInt16 → Prop} [DecidablePred p] :
      samples.filter (fun c => p (bids c)) = samples.filter fun c => p (bids' c) :=
    Finset.filter_congr fun c member => by rw [same c member]
  refine ⟨counts.targetNum, ?_, ?_, ?_, ?_⟩
  · rw [counts.winNum, selected (p := fun x => x.toNat ≤ bid.toNat)]
  · rw [counts.zeroNum, selected (p := fun x => x = 0)]
  · rw [counts.bidNum, selected (p := fun x => 0 < x)]
  · rw [counts.bidSum]
    exact Finset.sum_congr rfl fun c member => by rw [same c member]

/-- Samples that all have a bid are counted with their own bids, whatever the heap holds. -/
theorem counts_of_inside (b : BidBitmap) (stray : Stray) (mask : ℕ → UInt8) (bid : UInt32)
    {samples : Finset ℕ} (visits : ∀ c, c ∈ b.visited mask ↔ c ∈ samples)
    (inside : ∀ c ∈ samples, c < 2 ^ 31 ∧ c < b.bids.length) :
    Counts (b.count stray mask bid) (fun c => b.bids.getD c 0) bid samples := by
  have few : samples.card ≤ 2 ^ 31 := by
    rw [← Finset.card_range (2 ^ 31)]
    exact Finset.card_le_card fun c member => Finset.mem_range.mpr (inside c member).1
  apply (b.counts_count stray mask bid visits (by omega)).congr
  intro c member
  exact bidOfPosition_of_lt (inside c member).1 (inside c member).2 stray

section Order

variable {result : Result} {bids : ℕ → UInt16} {bid : UInt32} {samples : Finset ℕ}

theorem Counts.winNum_le (counts : Counts result bids bid samples) :
    result.winNum.toNat ≤ result.targetNum.toNat := by
  rw [counts.winNum, counts.targetNum]
  exact Finset.card_filter_le _ _

/-- A bid of zero always wins. -/
theorem Counts.zeroNum_le (counts : Counts result bids bid samples) :
    result.zeroNum.toNat ≤ result.winNum.toNat := by
  rw [counts.zeroNum, counts.winNum]
  apply Finset.card_le_card
  intro c member
  rw [Finset.mem_filter] at member ⊢
  rw [member.2]
  exact ⟨member.1, Nat.zero_le _⟩

/-- A higher price wins at least the samples of a lower one, among the same targets. -/
theorem Counts.mono {higher : UInt32} {other : Result} (counts : Counts result bids bid samples)
    (counts' : Counts other bids higher samples) (raised : bid.toNat ≤ higher.toNat) :
    result.winNum.toNat ≤ other.winNum.toNat ∧ result.targetNum = other.targetNum ∧
      result.zeroNum = other.zeroNum := by
  refine ⟨?_, ?_, ?_⟩
  · rw [counts.winNum, counts'.winNum]
    exact Finset.card_le_card (Finset.monotone_filter_right _ fun c _ below => below.trans raised)
  · rw [← UInt32.toNat_inj, counts.targetNum, counts'.targetNum]
  · rw [← UInt32.toNat_inj, counts.zeroNum, counts'.zeroNum]

end Order

/-- In a block of fewer than `2 ^ 29` bytes `Count` counts the set bits without a wrap. -/
theorem counts_load {capacity : ℕ} (b : BidBitmap) (stray : Stray) (buffer : ByteMemory capacity)
    (bid : UInt32) (small : 8 * capacity < 2 ^ 32) :
    Counts (b.count stray buffer.load bid) (b.bidOfPosition stray) bid
      (b.visited buffer.load).toFinset := by
  have few := Bitmap.length_positions_load_le buffer b.intWidth
  rw [← visited_eq_positions] at few
  rw [count_eq_tally]
  exact counts_tally _ bid (b.visited_nodup _) (by omega)

end Count

end BidBitmap

/-- The words around the bids of each bitmap while a request is processed. -/
abbrev HeapWords := BidBitmap → BidBitmap.Stray

end FlowRetrieval
