/-
# Page-view bid bitmaps

A bid bitmap with the identifier, the totals and the hourly arrays of one ad
position. `Dump` fails after the bid bitmap is written when an hourly array does
not have one entry for each hour. A `float` is its 32-bit pattern.
-/
import FlowRetrieval.Common.Double
import FlowRetrieval.Index.BidBitmap

namespace FlowRetrieval

open CS.ByteCodec

def hoursPerDay : ℕ := 24

/-- `PvBidBitmap`. -/
@[ext]
structure PvBidBitmap extends BidBitmap where
  psid : Str
  request : UInt64
  pv : UInt64
  hourlyRequest : List UInt32
  hourlyPv : List UInt32
  hourlyCtr : List FloatBits
  deriving DecidableEq, Repr

namespace PvBidBitmap

/-- A new object, which is also what `Clear` leaves. -/
def empty : PvBidBitmap :=
  { Bitmap.clear with
    bids := []
    psid := []
    request := 0
    pv := 0
    hourlyRequest := []
    hourlyPv := []
    hourlyCtr := [] }

/-- `Clear`. -/
def clear (_self : PvBidBitmap) : PvBidBitmap := empty

/-- `IsValidHourlyArray`. -/
def isValidHourlyArray {α : Type} (array : List α) : Bool := array.length = hoursPerDay

/-- `IsValid`. -/
def isValid (b : PvBidBitmap) : Bool :=
  isValidHourlyArray b.hourlyRequest && isValidHourlyArray b.hourlyPv &&
    isValidHourlyArray b.hourlyCtr

/-- `Generate`: the bitmap of a run that returns true. -/
def generate (self : PvBidBitmap) (psid : Str) (request pv : UInt64)
    (hourlyRequest hourlyPv : List UInt32) (hourlyCtr : List FloatBits)
    (cols : List (List UInt32)) (bids : List UInt16) (height : UInt32) : Option PvBidBitmap :=
  let self := self.clear
  if isValidHourlyArray hourlyRequest && isValidHourlyArray hourlyPv &&
      isValidHourlyArray hourlyCtr then
    match self.toBidBitmap.generate cols bids height with
    | none => none
    | some base =>
      some { base with
        psid := psid
        request := request
        pv := pv
        hourlyRequest := hourlyRequest ++ self.hourlyRequest
        hourlyPv := hourlyPv ++ self.hourlyPv
        hourlyCtr := hourlyCtr ++ self.hourlyCtr }
  else none

/-- `Dump`. -/
def dump (b : PvBidBitmap) : Dumped :=
  let base := b.toBidBitmap.dump
  if base.code < 0 then base
  else if b.isValid then
    ⟨base.bytes ++ (stringBytes b.psid ++ u64Bytes b.request ++ u64Bytes b.pv ++
        b.hourlyRequest.flatMap u32Bytes ++ b.hourlyPv.flatMap u32Bytes ++
        b.hourlyCtr.flatMap u32Bytes),
      base.code + Int64.ofNat ((UInt32.ofNat b.psid.length).toNat + 4) + 8 * 2 +
        Int64.ofNat (4 * b.hourlyRequest.length) + Int64.ofNat (4 * b.hourlyPv.length) +
        Int64.ofNat (4 * b.hourlyCtr.length)⟩
  else ⟨base.bytes, -1⟩

/-- `Load`. -/
def load (self : PvBidBitmap) : Reader ℤ PvBidBitmap := do
  let self := self.clear
  let base ← self.toBidBitmap.load
  let psid ← readString 1
  let request ← readU64 1
  let pv ← readU64 1
  let hourlyRequest ← times (readU32 1) hoursPerDay
  let hourlyPv ← times (readU32 1) hoursPerDay
  let hourlyCtr ← times (readU32 1) hoursPerDay
  return { base with
    psid := psid
    request := request
    pv := pv
    hourlyRequest := self.hourlyRequest ++ hourlyRequest
    hourlyPv := self.hourlyPv ++ hourlyPv
    hourlyCtr := self.hourlyCtr ++ hourlyCtr }

/-- `GetRate`. -/
def getRate {R : Type} [Double R] (b : PvBidBitmap) : R :=
  (b.pv.toNat : R) / ((b.request.toNat : R) + escapeZero)

/-- `GetHourlyCtr`; the hourly counters are summed in 32 bits. -/
def getHourlyCtr {R : Type} [Double R] (lib : DoubleLib R) (b : PvBidBitmap)
    (hours : List UInt32) : R :=
  let sums := hours.foldl
    (fun (sums : UInt32 × R) hour =>
      if hour.toNat < hoursPerDay then
        (sums.1 + b.hourlyPv.getD hour.toNat 0,
          sums.2 + lib.floatProduct (b.hourlyPv.getD hour.toNat 0) (b.hourlyCtr.getD hour.toNat 0))
      else sums)
    (0, 0.0)
  sums.2 / ((sums.1.toNat : R) + escapeZero)

/-- `Load` starts from a cleared object whatever it is called on. -/
theorem load_eq_load_empty (self : PvBidBitmap) : self.load = empty.load := rfl

section Stream

theorem dump_eq {b : PvBidBitmap} (counted : b.width.toNat * b.height.toNat < 2 ^ 62)
    (paired : b.bids.length = b.size.toNat) (valid : b.isValid = true) :
    b.dump = ⟨b.toBidBitmap.dump.bytes ++ (stringBytes b.psid ++ u64Bytes b.request ++
        u64Bytes b.pv ++ b.hourlyRequest.flatMap u32Bytes ++ b.hourlyPv.flatMap u32Bytes ++
        b.hourlyCtr.flatMap u32Bytes),
      b.toBidBitmap.dump.code + Int64.ofNat ((UInt32.ofNat b.psid.length).toNat + 4) + 8 * 2 +
        Int64.ofNat (4 * b.hourlyRequest.length) + Int64.ofNat (4 * b.hourlyPv.length) +
        Int64.ofNat (4 * b.hourlyCtr.length)⟩ := by
  rw [dump]
  rw [if_neg (b.toBidBitmap.code_dump_nonneg counted paired), if_pos valid]

private theorem isValid_lengths {b : PvBidBitmap} (valid : b.isValid = true) :
    b.hourlyRequest.length = hoursPerDay ∧ b.hourlyPv.length = hoursPerDay ∧
      b.hourlyCtr.length = hoursPerDay := by
  simpa [isValid, isValidHourlyArray, and_assoc] using valid

/-- A page-view bitmap that `Generate` could have built is read back from its dump. -/
theorem decodes_load (self b : PvBidBitmap)
    (counted : b.width.toNat * b.height.toNat < 2 ^ 62) (nonempty : b.data ≠ [])
    (paired : b.bids.length = b.size.toNat) (valid : b.isValid = true)
    (short : b.psid.length < 2 ^ 32) : Decodes self.load b.dump.bytes b := by
  obtain ⟨requests, pvs, ctrs⟩ := isValid_lengths valid
  have hours (words : List UInt32) (count : words.length = hoursPerDay) :
      Decodes (times (readU32 (1 : ℤ)) hoursPerDay) (words.flatMap u32Bytes) words := by
    rw [← count]
    exact decodes_times fun word _ => decodes_readU32 1 word
  rw [dump_eq counted paired valid]
  simp only [List.append_assoc]
  apply (b.toBidBitmap.decodes_load self.clear.toBidBitmap counted nonempty paired).bind
  apply (decodes_readString 1 short).bind
  refine (decodes_readU64 1 _).bind ((decodes_readU64 1 _).bind ?_)
  refine (hours _ requests).bind ((hours _ pvs).bind ?_)
  exact (hours _ ctrs).bind_pure _

/-- `Load` reads one bid for each column and hourly arrays with an entry for each hour. -/
theorem yields_load (self : PvBidBitmap) :
    Yields self.load fun b => b.bids.length = b.size.toNat ∧ b.isValid = true := by
  refine (self.clear.toBidBitmap.yields_load).bind fun base paired =>
    (yields_true _).bind fun psid _ => (yields_true _).bind fun request _ =>
    (yields_true _).bind fun pv _ => (yields_times (yields_true _) _).bind fun requests one =>
    (yields_times (yields_true _) _).bind fun pvs two =>
    (yields_times (yields_true _) _).bind fun ctrs three => yields_pure ⟨paired, ?_⟩
  simp [isValid, isValidHourlyArray, clear, empty, one.1, two.1, three.1]

theorem length_dump {b : PvBidBitmap} (noWrap : b.width.toNat * b.height.toNat < 2 ^ 32)
    (paired : b.bids.length = b.size.toNat) (valid : b.isValid = true)
    (short : b.psid.length < 2 ^ 32) :
    b.dump.bytes.length =
      12 + b.width.toNat * b.height.toNat + 2 * b.bids.length + (b.psid.length + 4) + 16 + 288 := by
  obtain ⟨requests, pvs, ctrs⟩ := isValid_lengths valid
  rw [dump_eq (by omega) paired valid]
  simp only [List.length_append, length_flatMap_of_width length_u32Bytes,
    length_stringBytes short, length_u64Bytes, b.toBidBitmap.length_dump noWrap, requests, pvs,
    ctrs, hoursPerDay]
  omega

/-- `Dump` returns the number of bytes it writes. -/
theorem code_dump {b : PvBidBitmap} (noWrap : b.width.toNat * b.height.toNat < 2 ^ 32)
    (paired : b.bids.length = b.size.toNat) (valid : b.isValid = true) :
    b.dump.code = Int64.ofNat b.dump.bytes.length := by
  obtain ⟨requests, pvs, ctrs⟩ := isValid_lengths valid
  have totals : (8 * 2 : Int64) = Int64.ofNat (8 + 8) := rfl
  rw [dump_eq (by omega) paired valid, b.toBidBitmap.code_dump noWrap, totals]
  simp only [← Int64.ofNat_add, List.length_append, length_flatMap_of_width length_u32Bytes,
    length_stringBytes_eq, length_u64Bytes]
  congr 1
  omega

end Stream

section Generate

variable {self b : PvBidBitmap} {psid : Str} {request pv : UInt64}
  {hourlyRequest hourlyPv : List UInt32} {hourlyCtr : List FloatBits}
  {cols : List (List UInt32)} {bids : List UInt16} {height : UInt32}

/-- What a successful `Generate` built. -/
theorem generate_eq_some
    (done : self.generate psid request pv hourlyRequest hourlyPv hourlyCtr cols bids height =
      some b) :
    Bitmap.generate cols height = some b.toBitmap ∧ b.bids = bids ∧
      b.bids.length = b.size.toNat ∧ b.isValid = true ∧ b.psid = psid := by
  unfold generate at done
  dsimp only at done
  split at done
  · rename_i valid
    split at done
    · cases done
    · rename_i base generated
      obtain rfl := Option.some.inj done
      obtain ⟨bitmap, same, paired⟩ := BidBitmap.generate_eq_some generated
      refine ⟨bitmap, same, paired, ?_, rfl⟩
      simpa [isValid, clear, empty] using valid
  · cases done

/-- The counters of a generated bitmap are the arguments. -/
theorem counters_of_generate
    (done : self.generate psid request pv hourlyRequest hourlyPv hourlyCtr cols bids height =
      some b) :
    b.request = request ∧ b.pv = pv ∧ b.hourlyRequest = hourlyRequest ∧ b.hourlyPv = hourlyPv ∧
      b.hourlyCtr = hourlyCtr := by
  unfold generate at done
  dsimp only at done
  split at done
  · split at done
    · cases done
    · obtain rfl := Option.some.inj done
      simp [clear, empty]
  · cases done

theorem isSome_generate_iff :
    (self.generate psid request pv hourlyRequest hourlyPv hourlyCtr cols bids height).isSome ↔
      (Bitmap.generate cols height).isSome ∧ bids.length = cols.length ∧
        hourlyRequest.length = hoursPerDay ∧ hourlyPv.length = hoursPerDay ∧
        hourlyCtr.length = hoursPerDay := by
  have base : (self.clear.toBidBitmap.generate cols bids height).isSome ↔ _ :=
    BidBitmap.isSome_generate_iff
  rw [generate]
  simp only [isValidHourlyArray, Bool.and_eq_true, decide_eq_true_eq, and_assoc]
  split
  · rename_i valid
    rw [← and_assoc, ← base, and_iff_left valid]
    cases self.clear.toBidBitmap.generate cols bids height <;> rfl
  · rename_i invalid
    simp [invalid]

end Generate

end PvBidBitmap

end FlowRetrieval
