/-
# Unique-visitor bid bitmaps

A bid bitmap with the identifier and the totals of one ad position, stored
without hourly arrays.
-/
import FlowRetrieval.Common.Double
import FlowRetrieval.Index.BidBitmap

namespace FlowRetrieval

open CS.ByteCodec

/-- `UvBidBitmap`. -/
@[ext]
structure UvBidBitmap extends BidBitmap where
  psid : Str
  request : UInt64
  uv : UInt64
  deriving DecidableEq, Repr

namespace UvBidBitmap

/-- A new object, which is also what `Clear` leaves. -/
def empty : UvBidBitmap :=
  { Bitmap.clear with
    bids := []
    psid := []
    request := 0
    uv := 0 }

/-- `Clear`. -/
def clear (_self : UvBidBitmap) : UvBidBitmap := empty

/-- `Generate`: the bitmap of a run that returns true. -/
def generate (self : UvBidBitmap) (psid : Str) (request uv : UInt64)
    (cols : List (List UInt32)) (bids : List UInt16) (height : UInt32) : Option UvBidBitmap :=
  match self.clear.toBidBitmap.generate cols bids height with
  | none => none
  | some base => some { base with psid := psid, request := request, uv := uv }

/-- `Dump`. -/
def dump (b : UvBidBitmap) : Dumped :=
  let base := b.toBidBitmap.dump
  if base.code < 0 then base
  else
    ⟨base.bytes ++ (stringBytes b.psid ++ u64Bytes b.request ++ u64Bytes b.uv),
      base.code + 4 + Int64.ofNat (UInt32.ofNat b.psid.length).toNat + 8 * 2⟩

/-- `Load`. -/
def load (self : UvBidBitmap) : Reader ℤ UvBidBitmap := do
  let base ← self.clear.toBidBitmap.load
  let psid ← readString 1
  let request ← readU64 1
  let uv ← readU64 1
  return { base with psid := psid, request := request, uv := uv }

/-- `GetRate`. -/
def getRate {R : Type} [Double R] (b : UvBidBitmap) : R :=
  (b.uv.toNat : R) / ((b.request.toNat : R) + escapeZero)

/-- `Load` starts from a cleared object whatever it is called on. -/
theorem load_eq_load_empty (self : UvBidBitmap) : self.load = empty.load := rfl

section Stream

theorem dump_eq {b : UvBidBitmap} (counted : b.width.toNat * b.height.toNat < 2 ^ 62)
    (paired : b.bids.length = b.size.toNat) :
    b.dump = ⟨b.toBidBitmap.dump.bytes ++ (stringBytes b.psid ++ u64Bytes b.request ++
        u64Bytes b.uv),
      b.toBidBitmap.dump.code + 4 + Int64.ofNat (UInt32.ofNat b.psid.length).toNat + 8 * 2⟩ := by
  rw [dump]
  rw [if_neg (b.toBidBitmap.code_dump_nonneg counted paired)]

/-- A unique-visitor bitmap that `Generate` could have built is read back from
its dump. -/
theorem decodes_load (self b : UvBidBitmap)
    (counted : b.width.toNat * b.height.toNat < 2 ^ 62) (nonempty : b.data ≠ [])
    (paired : b.bids.length = b.size.toNat) (short : b.psid.length < 2 ^ 32) :
    Decodes self.load b.dump.bytes b := by
  rw [dump_eq counted paired]
  simp only [List.append_assoc]
  apply (b.toBidBitmap.decodes_load self.clear.toBidBitmap counted nonempty paired).bind
  apply (decodes_readString 1 short).bind
  exact (decodes_readU64 1 _).bind ((decodes_readU64 1 _).bind_pure _)

/-- `Load` reads one bid for each column. -/
theorem yields_load (self : UvBidBitmap) :
    Yields self.load fun b => b.bids.length = b.size.toNat :=
  (self.clear.toBidBitmap.yields_load).bind fun _ paired => (yields_true _).bind fun _ _ =>
    (yields_true _).bind fun _ _ => (yields_true _).bind fun _ _ => yields_pure paired

theorem length_dump {b : UvBidBitmap} (noWrap : b.width.toNat * b.height.toNat < 2 ^ 32)
    (paired : b.bids.length = b.size.toNat) (short : b.psid.length < 2 ^ 32) :
    b.dump.bytes.length =
      12 + b.width.toNat * b.height.toNat + 2 * b.bids.length + 4 + b.psid.length + 16 := by
  rw [dump_eq (by omega) paired]
  simp only [List.length_append, length_stringBytes short, length_u64Bytes,
    b.toBidBitmap.length_dump noWrap]
  omega

/-- `Dump` returns the number of bytes it writes. -/
theorem code_dump {b : UvBidBitmap} (noWrap : b.width.toNat * b.height.toNat < 2 ^ 32)
    (paired : b.bids.length = b.size.toNat) :
    b.dump.code = Int64.ofNat b.dump.bytes.length := by
  have totals : (8 * 2 : Int64) = Int64.ofNat (8 + 8) := rfl
  have word : (4 : Int64) = Int64.ofNat 4 := rfl
  rw [dump_eq (by omega) paired, b.toBidBitmap.code_dump noWrap, totals, word]
  simp only [← Int64.ofNat_add, List.length_append, length_stringBytes_eq, length_u64Bytes]
  congr 1
  omega

end Stream

section Generate

variable {self b : UvBidBitmap} {psid : Str} {request uv : UInt64} {cols : List (List UInt32)}
  {bids : List UInt16} {height : UInt32}

/-- What a successful `Generate` built. -/
theorem generate_eq_some (done : self.generate psid request uv cols bids height = some b) :
    Bitmap.generate cols height = some b.toBitmap ∧ b.bids = bids ∧
      b.bids.length = b.size.toNat ∧ b.psid = psid := by
  rw [generate] at done
  split at done
  · cases done
  · rename_i base generated
    obtain rfl := Option.some.inj done
    obtain ⟨bitmap, same, paired⟩ := BidBitmap.generate_eq_some generated
    exact ⟨bitmap, same, paired, rfl⟩

/-- The counters of a generated bitmap are the arguments. -/
theorem counters_of_generate (done : self.generate psid request uv cols bids height = some b) :
    b.request = request ∧ b.uv = uv := by
  rw [generate] at done
  split at done
  · cases done
  · obtain rfl := Option.some.inj done
    exact ⟨rfl, rfl⟩

theorem isSome_generate_iff : (self.generate psid request uv cols bids height).isSome ↔
    (Bitmap.generate cols height).isSome ∧ bids.length = cols.length := by
  have base : (self.clear.toBidBitmap.generate cols bids height).isSome ↔ _ :=
    BidBitmap.isSome_generate_iff
  rw [← base, generate]
  cases self.clear.toBidBitmap.generate cols bids height <;> rfl

end Generate

end UvBidBitmap

end FlowRetrieval
