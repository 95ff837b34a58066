/-
# The loop that reads a request

`begin_request` zeroes the request buffer and calls `mg_read` with what is left of it until a
call returns nothing. `QueryParser::Parse` takes the buffer as a string, which ends at the
first zero byte.

## Main results

* `MgThreadHandler.filled_readLoop` — the loop leaves the first bytes of the body and zeros
* `MgThreadHandler.load_readPost` — with a connection that hands over all it has, this is
  `readRequest`
* `MgThreadHandler.readsString_iff` — the bodies that always leave a string in the buffer
-/
import FlowRetrieval.CS.TracedMemory
import FlowRetrieval.Service.MgThreadHandler

namespace FlowRetrieval

open CS RequestHandler

namespace MgThreadHandler

/-- `mg_read(conn, buf, len)`: the value returned, the bytes written from `buf` on, and the
connection afterwards. -/
abbrev MgRead (σ : Type) := σ → ℕ → Int32 × List UInt8 × σ

/-- A connection hands over the bytes that are left of a body in their order, at most `len` of
them, and a positive result is their number. -/
structure MgRead.Delivers {σ : Type} (mgRead : MgRead σ) (rest : σ → Str) : Prop where
  within : ∀ conn len, (mgRead conn len).2.1.length ≤ len
  counted : ∀ conn len, 0 < (mgRead conn len).1 →
    (mgRead conn len).1.toInt = (mgRead conn len).2.1.length
  inOrder : ∀ conn len, rest conn = (mgRead conn len).2.1 ++ rest (mgRead conn len).2.2

/-- It goes on while there is room and something is left. -/
def MgRead.HandsOverAll {σ : Type} (mgRead : MgRead σ) (rest : σ → Str) : Prop :=
  ∀ conn len, ¬ 0 < (mgRead conn len).1 → len = 0 ∨ rest conn = []

section Loop

variable {σ : Type}

/-- An `int` as an argument of type `size_t`. -/
def sizeT (n : Int32) : ℕ := (n.toInt % 2 ^ 64).toNat

/-- The `do` loop, for at most `fuel` calls of `mg_read`. -/
def readLoop (mgRead : MgRead σ) : ℕ → σ → ℕ → Int32 → TracedMemory requestBufferSize →
    Option (TracedMemory requestBufferSize)
  | 0, _, _, _, _ => none
  | fuel + 1, conn, bufBeg, bufSize, buffer =>
    let (readSize, bytes, conn) := mgRead conn (sizeT bufSize)
    let buffer := buffer.sweep (fun _ k => bytes.getD k 0) bufBeg bytes.length
    if 0 < readSize then
      readLoop mgRead fuel conn (bufBeg + readSize.toInt.toNat) (bufSize - readSize) buffer
    else some buffer

/-- The request buffer of a `POST` request, from `memset` to the end of the loop. -/
def readPost (mgRead : MgRead σ) (fuel : ℕ) (conn : σ) (buffer : ByteMemory requestBufferSize) :
    Option (TracedMemory requestBufferSize) :=
  readLoop mgRead fuel conn 0 (Int32.ofNat requestBufferSize)
    ((TracedMemory.start buffer).fill 0 0 requestBufferSize)

end Loop

/-- Nothing was stored outside the buffer, which holds the first `total` bytes of `body` and
zeros behind them. -/
structure Filled (body : Str) (total : ℕ) (buffer : TracedMemory requestBufferSize) : Prop where
  fits : total ≤ requestBufferSize
  present : total ≤ body.length
  bytes : ∀ i < requestBufferSize, buffer.memory.load i = (body.take total).getD i 0
  inside : ∀ made ∈ buffer.stores, made.address < requestBufferSize

/-- `Filled`, with a zero byte in the buffer. -/
structure Terminated (body : Str) (buffer : TracedMemory requestBufferSize) : Prop where
  filled : ∃ total, Filled body total buffer
  terminator : ∃ i < requestBufferSize, buffer.memory.load i = 0

/-- However a connection hands over `body`, the loop ends with a string in the buffer. -/
def ReadsString (body : Str) : Prop :=
  ∀ (σ : Type) (mgRead : MgRead σ) (rest : σ → Str) (conn : σ)
    (buffer : ByteMemory requestBufferSize), mgRead.Delivers rest → rest conn = body →
      ∃ fuel left, readPost mgRead fuel conn buffer = some left ∧ Terminated body left

theorem getD_take (body : Str) (total i : ℕ) :
    (body.take total).getD i 0 = if i < total then body.getD i 0 else 0 := by
  rw [List.getD_eq_getElem?_getD, List.getElem?_take]
  by_cases before : i < total
  · rw [if_pos before, if_pos before, List.getD_eq_getElem?_getD]
  · rw [if_neg before, if_neg before, Option.getD_none]

section Step

variable {body : Str} {total : ℕ} {buffer : TracedMemory requestBufferSize}

theorem filled_fill (body : Str) (buffer : ByteMemory requestBufferSize) :
    Filled body 0 ((TracedMemory.start buffer).fill 0 0 requestBufferSize) := by
  refine ⟨Nat.zero_le _, Nat.zero_le _, fun i inside => ?_, fun made member => ?_⟩
  · rw [TracedMemory.fill, TracedMemory.memory_sweep, List.take_zero, List.getD_nil]
    have zeroed : (buffer.fill 0 0 requestBufferSize).load (0 + i) = 0 :=
      ByteMemory.load_fill 0 buffer inside (by omega)
    rwa [Nat.zero_add] at zeroed
  · rcases (TracedMemory.mem_stores_sweep _ _).mp member with none | ⟨-, within⟩
    · cases none
    · rw [Set.mem_Ico] at within
      omega

/-- Bytes that come next in the body are added behind those already there. -/
theorem Filled.sweep (filled : Filled body total buffer) {bytes tail : Str}
    (next : body.drop total = bytes ++ tail) (room : total + bytes.length ≤ requestBufferSize) :
    Filled body (total + bytes.length)
      (buffer.sweep (fun _ k => bytes.getD k 0) total bytes.length) := by
  have length := congrArg List.length next
  rw [List.length_drop, List.length_append] at length
  have present := filled.present
  refine ⟨room, by omega, fun i inside => ?_, fun made member => ?_⟩
  · rw [TracedMemory.memory_sweep, getD_take]
    by_cases fresh : i ∈ Set.Ico total (total + bytes.length)
    · rw [Set.mem_Ico] at fresh
      obtain ⟨k, rfl⟩ := Nat.exists_eq_add_of_le fresh.1
      rw [ByteMemory.load_sweep _ total bytes.length _ (fun _ _ _ _ => rfl) (by omega) inside,
        if_pos fresh.2, List.getD_eq_getElem?_getD, List.getD_eq_getElem?_getD,
        ← List.getElem?_drop, next, List.getElem?_append_left (by omega)]
    · rw [ByteMemory.load_sweep_of_notMem _ total _ _ fresh, filled.bytes i inside, getD_take]
      rw [Set.mem_Ico] at fresh
      -- an address before the new bytes keeps its byte, and one behind them its zero
      by_cases before : i < total
      · rw [if_pos before, if_pos (by omega)]
      · rw [if_neg before, if_neg (by omega)]
  · rcases (TracedMemory.mem_stores_sweep _ _).mp member with earlier | ⟨-, within⟩
    · exact filled.inside made earlier
    · rw [Set.mem_Ico] at within
      omega

end Step

section Run

variable {σ : Type} {mgRead : MgRead σ} {rest : σ → Str} {body : Str} {total : ℕ} {conn : σ}
  {bufSize : Int32} {buffer left : TracedMemory requestBufferSize} {fuel : ℕ}

theorem sizeT_eq {room : ℕ} (size : bufSize.toInt = room) : sizeT bufSize = room := by
  have := bufSize.toInt_lt
  rw [sizeT, size]
  omega

/-- What a positive result of `n` bytes leaves of the room. -/
theorem toInt_bufSize_sub {room n : ℕ} {readSize : Int32} (size : bufSize.toInt = room)
    (result : readSize.toInt = n) (within : n ≤ room) :
    (bufSize - readSize).toInt = (room - n : ℕ) := by
  have := bufSize.toInt_lt
  rw [Int32.toInt_sub, size, result, Int.bmod_eq_of_le] <;> omega

/-- One turn of the loop, with room for `room` bytes. -/
theorem readLoop_succ {room : ℕ} (size : bufSize.toInt = room) :
    readLoop mgRead (fuel + 1) conn total bufSize buffer =
      if 0 < (mgRead conn room).1 then
        readLoop mgRead fuel (mgRead conn room).2.2 (total + (mgRead conn room).1.toInt.toNat)
          (bufSize - (mgRead conn room).1)
          (buffer.sweep (fun _ k => (mgRead conn room).2.1.getD k 0) total
            (mgRead conn room).2.1.length)
      else
        some (buffer.sweep (fun _ k => (mgRead conn room).2.1.getD k 0) total
          (mgRead conn room).2.1.length) := by
  rw [readLoop, sizeT_eq size]

variable (delivers : mgRead.Delivers rest) (filled : Filled body total buffer)
  (next : rest conn = body.drop total)

include delivers filled next

/-- One call of `mg_read` adds to the buffer what it takes from the connection. -/
theorem filled_mgRead {room : ℕ} (free : room = requestBufferSize - total) :
    Filled body (total + (mgRead conn room).2.1.length)
        (buffer.sweep (fun _ k => (mgRead conn room).2.1.getD k 0) total
          (mgRead conn room).2.1.length) ∧
      rest (mgRead conn room).2.2 = body.drop (total + (mgRead conn room).2.1.length) := by
  have within := delivers.within conn room
  have order := delivers.inOrder conn room
  have fits := filled.fits
  refine ⟨filled.sweep (next.symm.trans order) (by omega), ?_⟩
  rw [← List.drop_drop, ← next, order, List.drop_left]

/-- The loop leaves the first bytes of the body, and as many of them as there is room for when
the connection hands over all it has. -/
theorem filled_readLoop (size : bufSize.toInt = (requestBufferSize - total : ℕ))
    (done : readLoop mgRead fuel conn total bufSize buffer = some left) :
    ∃ last, Filled body last left ∧
      (mgRead.HandsOverAll rest → last = min body.length requestBufferSize) := by
  induction fuel generalizing conn total bufSize buffer with
  | zero => cases done
  | succ fuel ih =>
    obtain ⟨step, behind⟩ := filled_mgRead delivers filled next rfl
    have within := delivers.within conn (requestBufferSize - total)
    rw [readLoop_succ size] at done
    by_cases more : 0 < (mgRead conn (requestBufferSize - total)).1
    · have result := delivers.counted conn _ more
      have smaller := toInt_bufSize_sub size result within
      rw [if_pos more, result, Int.toNat_natCast] at done
      exact ih step behind (by rwa [Nat.sub_sub] at smaller) done
    · obtain rfl := Option.some.inj ((if_neg more).symm.trans done)
      refine ⟨_, step, fun all => ?_⟩
      have fits := filled.fits
      have present := filled.present
      -- the call took nothing, since there was no room or nothing left
      rcases all conn _ more with none | nothing
      · omega
      · have order := delivers.inOrder conn (requestBufferSize - total)
        rw [nothing] at order
        rw [(List.append_eq_nil_iff.mp order.symm).1, List.length_nil]
        rw [next, List.drop_eq_nil_iff] at nothing
        omega

/-- A positive result leaves less room, so that the loop ends. -/
theorem isSome_readLoop (size : bufSize.toInt = (requestBufferSize - total : ℕ))
    (enough : requestBufferSize - total < fuel) :
    (readLoop mgRead fuel conn total bufSize buffer).isSome := by
  induction fuel generalizing conn total bufSize buffer with
  | zero => exact absurd enough (Nat.not_lt_zero _)
  | succ fuel ih =>
    obtain ⟨step, behind⟩ := filled_mgRead delivers filled next rfl
    have within := delivers.within conn (requestBufferSize - total)
    rw [readLoop_succ size]
    by_cases more : 0 < (mgRead conn (requestBufferSize - total)).1
    · have result := delivers.counted conn _ more
      have smaller := toInt_bufSize_sub size result within
      have positive := Int32.lt_iff_toInt_lt.mp more
      rw [result, Int32.toInt_zero] at positive
      rw [if_pos more, result, Int.toNat_natCast]
      exact ih step behind (by rwa [Nat.sub_sub] at smaller) (by omega)
    · rw [if_neg more]
      rfl

end Run

section Post

variable {σ : Type} {mgRead : MgRead σ} {rest : σ → Str} (delivers : mgRead.Delivers rest)
  (conn : σ) (buffer : ByteMemory requestBufferSize)

include delivers

theorem isSome_readPost : (readPost mgRead (requestBufferSize + 1) conn buffer).isSome :=
  isSome_readLoop delivers (filled_fill (rest conn) buffer) List.drop_zero.symm rfl
    (Nat.lt_succ_self _)

variable {conn buffer} {fuel : ℕ} {left : TracedMemory requestBufferSize}
  (done : readPost mgRead fuel conn buffer = some left)

include done

theorem filled_readPost : ∃ last, Filled (rest conn) last left ∧
    (mgRead.HandsOverAll rest → last = min (rest conn).length requestBufferSize) :=
  filled_readLoop delivers (filled_fill (rest conn) buffer) List.drop_zero.symm rfl done

/-- The loop on a connection that hands over all it has is `readRequest`. -/
theorem load_readPost {R : Type} [Double R] (all : mgRead.HandsOverAll rest)
    (self : RequestHandler R) {i : ℕ} (inside : i < requestBufferSize) :
    left.memory.load i = (readRequest self (rest conn)).requestBuf.load i := by
  obtain ⟨last, filled, whole⟩ := filled_readPost delivers done
  rw [filled.bytes i inside, whole all, readRequest, getD_take]
  by_cases taken : i < min (rest conn).length requestBufferSize
  · have copied := ByteMemory.load_sweep (fun _ k => (rest conn).getD k 0) 0 _
      (self.requestBuf.fill 0 0 requestBufferSize) (fun _ _ _ _ => rfl) taken (by omega)
    rw [Nat.zero_add] at copied
    rw [if_pos taken, copied]
  · have zeroed : (self.requestBuf.fill 0 0 requestBufferSize).load (0 + i) = 0 :=
      ByteMemory.load_fill 0 self.requestBuf inside (by omega)
    rw [Nat.zero_add] at zeroed
    rw [if_neg taken, ByteMemory.load_sweep_of_notMem _ _ _ _ (by rw [Set.mem_Ico]; omega), zeroed]

end Post

section String

variable {body : Str}

/-- A shorter body leaves a zero behind it, and another body may have one of its own. -/
theorem readsString_of_short
    (short : body.length < requestBufferSize ∨ 0 ∈ body.take requestBufferSize) :
    ReadsString body := by
  rintro σ mgRead rest conn buffer delivers rfl
  obtain ⟨left, done⟩ := Option.isSome_iff_exists.mp (isSome_readPost delivers conn buffer)
  obtain ⟨last, filled, -⟩ := filled_readPost delivers done
  refine ⟨_, left, done, ⟨last, filled⟩, ?_⟩
  have fits := filled.fits
  have present := filled.present
  by_cases room : last < requestBufferSize
  · refine ⟨last, room, ?_⟩
    rw [filled.bytes last room, getD_take, if_neg (Nat.lt_irrefl last)]
  · have full : last = requestBufferSize := by omega
    have zero := short.resolve_left (by omega)
    obtain ⟨i, inside, here⟩ := List.mem_iff_getElem.mp zero
    rw [List.length_take] at inside
    refine ⟨i, by omega, ?_⟩
    rw [filled.bytes i (by omega), full, List.getD_eq_getElem _ _ (by rw [List.length_take]; omega),
      here]

/-- A connection that has the whole body at hand. -/
def atHand : MgRead Str := fun rest len =>
  (Int32.ofNat (min len requestBufferSize ⊓ rest.length), rest.take (min len requestBufferSize),
    rest.drop (min len requestBufferSize))

theorem toInt_atHand (rest : Str) (len : ℕ) :
    (atHand rest len).1.toInt = (atHand rest len).2.1.length := by
  rw [atHand, List.length_take, Int32.toInt_ofNat_of_lt]
  have : requestBufferSize < 2 ^ 31 := by norm_num [requestBufferSize]
  omega

theorem delivers_atHand : MgRead.Delivers atHand id where
  within rest len := by
    rw [atHand, List.length_take]
    omega
  counted rest len _ := toInt_atHand rest len
  inOrder rest len := (List.take_append_drop _ _).symm

theorem handsOverAll_atHand : MgRead.HandsOverAll atHand id := by
  intro rest len stops
  rw [Int32.lt_iff_toInt_lt, toInt_atHand, Int32.toInt_zero, atHand, List.length_take] at stops
  have : 0 < requestBufferSize := by norm_num [requestBufferSize]
  rw [id, ← List.length_eq_zero_iff]
  omega

/-- A body without a zero that fills the buffer leaves no room for one. -/
theorem not_readsString_of_full (long : requestBufferSize ≤ body.length)
    (plain : 0 ∉ body.take requestBufferSize) : ¬ ReadsString body := by
  intro reads
  obtain ⟨fuel, left, done, terminated⟩ :=
    reads Str atHand id body (fun _ => 0) delivers_atHand rfl
  obtain ⟨last, filled, whole⟩ := filled_readPost delivers_atHand done
  obtain ⟨i, inside, zero⟩ := terminated.terminator
  rw [filled.bytes i inside, whole handsOverAll_atHand, id, Nat.min_eq_right long,
    List.getD_eq_getElem _ _ (by rw [List.length_take]; omega)] at zero
  exact plain (zero ▸ List.getElem_mem _)

/-- Exactly the bodies that are shorter than the buffer, or have a zero byte where they fill it,
always leave a string in it. -/
theorem readsString_iff (body : Str) :
    ReadsString body ↔ body.length < requestBufferSize ∨ 0 ∈ body.take requestBufferSize := by
  constructor
  · intro reads
    by_contra other
    rw [not_or] at other
    exact not_readsString_of_full (Nat.not_lt.mp other.1) other.2 reads
  · exact readsString_of_short

/-- A body of blanks that is as long as the buffer. -/
theorem not_readsString_blanks : ¬ ReadsString (List.replicate 32768 32) := by
  apply not_readsString_of_full
  · rw [List.length_replicate]
    norm_num [requestBufferSize]
  · intro zero
    have blank := List.eq_of_mem_replicate (List.mem_of_mem_take zero)
    exact absurd blank (by decide)

end String

end MgThreadHandler

end FlowRetrieval
