/-
# Reading from a connection

A connection keeps what it has received in a buffer: the head of a request, and what came with
it of the body and of later requests. `read_request` fills the buffer until the head is
complete; `mg_read` hands over the body, first from the buffer and then from the socket. What
they find depends on the stream of bytes and not on how the network cuts it into pieces.

## Main results

* `Mongoose.readRequest_eq` — the length of the head as a function of the stream
* `Mongoose.delivers_mgRead`, `Mongoose.handsOverAll_mgRead` — `mg_read` hands over the body
-/
import FlowRetrieval.CS.ByteSource
import FlowRetrieval.Mongoose.RequestHead
import FlowRetrieval.Service.ReadLoop

namespace FlowRetrieval

open CS

namespace Mongoose

/-- What is called for a client: `recv` on its socket, `mg_printf` of a text, and a look at
`stop_flag`, which another thread may set. -/
structure Network (σ : Type) extends ByteSource σ where
  stopFlag : σ → Bool
  mgPrintf : Str → σ → σ

/-- `MAX_REQUEST_SIZE`. -/
def maxRequestSize : ℕ := 32768

section Code

variable {σ : Type} (network : Network σ)

/-- `pull`: nothing is returned for an error, and when the server stops. -/
def pull (s : σ) (len : ℕ) : Option {bytes : Str // bytes.length ≤ len} × σ :=
  let (received, s) := network.recv s len
  (if network.stopFlag s then none else received, s)

/-- `pull_all`: whether there was an error, and the bytes written from `buf` on. -/
def pullAll (s : σ) (len : ℕ) : Bool × Str × σ :=
  if 0 < len ∧ network.stopFlag s = false then
    match pull network s len with
    | (none, s) => (true, [], s)
    | (some bytes, s) =>
      if bytes.1 = [] then (false, [], s)
      else
        let (failed, more, s) := pullAll s (len - bytes.1.length)
        (failed, bytes.1 ++ more, s)
  else (false, [], s)
termination_by len
decreasing_by
  have := List.length_pos_iff.mpr ‹bytes.1 ≠ []›
  omega

/-- The value that `read_request` returns. -/
def readResult (requestLen n : ℤ) : ℤ := if requestLen ≤ 0 ∧ n ≤ 0 then -1 else requestLen

/-- The loop of `read_request`; `n` is what the last call of `pull` returned. -/
def readRequestFrom (buf : Str) (s : σ) (n : ℤ) : ℤ × Str × σ :=
  let requestLen := getRequestLen buf
  if network.stopFlag s = false ∧ buf.length < maxRequestSize ∧ requestLen = 0 then
    match pull network s (maxRequestSize - buf.length) with
    | (none, s) => (readResult requestLen (-1), buf, s)
    | (some bytes, s) =>
      if bytes.1 = [] then (readResult requestLen 0, buf, s)
      else readRequestFrom (buf ++ bytes.1) s bytes.1.length
  else (readResult requestLen n, buf, s)
termination_by maxRequestSize - buf.length
decreasing_by
  have := List.length_pos_iff.mpr ‹bytes.1 ≠ []›
  rw [List.length_append]
  omega

/-- `read_request`: the length of the head or an error, and the buffer. -/
def readRequest (buf : Str) (s : σ) : ℤ × Str × σ := readRequestFrom network buf s 0

/-- `mg_connection`: the socket, the `data_len` bytes of the buffer, and what is known of the
request. -/
structure Connection (σ : Type) where
  client : σ
  buf : Str
  requestInfo : RequestInfo
  requestLen : ℤ
  contentLen : ℤ
  consumedContent : ℕ
  mustClose : Bool
  statusCode : ℤ

/-- Without a length of the body `mg_read` reads until the socket is closed. -/
def Connection.endless (conn : Connection σ) : Connection σ :=
  if conn.consumedContent = 0 ∧ conn.contentLen = 0 then
    { conn with contentLen := 2 ^ 63 - 1, mustClose := true }
  else conn

/-- What the buffer has of the next `len` bytes behind those that are read already. -/
def buffered (conn : Connection σ) (len : ℕ) : Str :=
  (conn.buf.drop (conn.requestLen.toNat + conn.consumedContent)).take len

/-- What is read from the socket then. -/
def pulled (conn : Connection σ) (len : ℕ) : Bool × Str × σ :=
  pullAll network conn.client (Int32.ofNat (len - (buffered conn len).length)).toNatClampNeg

/-- `mg_read(conn, buf, len)`: the value returned, the bytes written from `buf` on, and the
connection afterwards. -/
def mgRead (conn : Connection σ) (len : ℕ) : Int32 × Str × Connection σ :=
  let conn := conn.endless
  if conn.consumedContent < conn.contentLen then
    let toRead := conn.contentLen - conn.consumedContent
    let len := if toRead < len then toRead.toNat else len
    let body := buffered conn len
    let (failed, bytes, client) := pulled network conn len
    (if failed then -1 else Int32.ofNat (body ++ bytes).length, body ++ bytes,
      { conn with client, consumedContent := conn.consumedContent + (body ++ bytes).length })
  else (0, [], conn)

end Code

section Stream

variable {σ : Type} {network : Network σ} {rest : σ → Str}

/-- The client's bytes arrive in their order, and the server is not stopped. -/
structure Network.Up (network : Network σ) (rest : σ → Str) : Prop where
  reliable : network.Reliable rest
  running : ∀ s, network.stopFlag s = false

theorem pull_eq (running : ∀ s, network.stopFlag s = false) (s : σ) (len : ℕ) :
    pull network s len = network.recv s len := by
  rw [pull]
  dsimp only
  rw [running, if_neg Bool.false_ne_true]

/-- Bytes that are pulled are the next ones of the stream. -/
theorem pullAll_inOrder (inOrder : network.InOrder rest)
    (running : ∀ s, network.stopFlag s = false) (s : σ) (len : ℕ) :
    rest s = (pullAll network s len).2.1 ++ rest (pullAll network s len).2.2 ∧
      (pullAll network s len).2.1.length ≤ len := by
  fun_induction pullAll network s len with
  | case1 s len goes s' call =>
    rw [pull_eq running] at call
    exact ⟨inOrder.of_eq_none call, Nat.zero_le _⟩
  | case2 s len goes bytes s' call nothing =>
    rw [pull_eq running] at call
    have order := inOrder.of_eq_some call
    rw [nothing] at order
    exact ⟨order, Nat.zero_le _⟩
  | case3 s len goes bytes s' call some failed more s'' later ih =>
    rw [pull_eq running] at call
    rw [later] at ih
    have within := bytes.2
    have order := inOrder.of_eq_some call
    rw [ih.1, ← List.append_assoc] at order
    refine ⟨order, ?_⟩
    have others : more.length ≤ len - bytes.1.length := ih.2
    rw [List.length_append]
    omega
  | case4 s len stops => exact ⟨rfl, Nat.zero_le _⟩

/-- All that was asked for is pulled, or all that is to come. -/
theorem pullAll_eager (up : network.Up rest) (s : σ) (len : ℕ) :
    (pullAll network s len).1 = false ∧
      ((pullAll network s len).2.1.length = len ∨ rest (pullAll network s len).2.2 = []) := by
  fun_induction pullAll network s len with
  | case1 s len goes s' call =>
    rw [pull_eq up.running] at call
    exact (up.reliable.not_eq_none call).elim
  | case2 s len goes bytes s' call nothing =>
    rw [pull_eq up.running] at call
    exact ⟨rfl, Or.inr (up.reliable.rest_eq_nil call goes.1 nothing).2⟩
  | case3 s len goes bytes s' call some failed more s'' later ih =>
    rw [later] at ih
    have within := bytes.2
    refine ⟨ih.1, ih.2.imp (fun all => ?_) id⟩
    rw [List.length_append, all]
    omega
  | case4 s len stops =>
    rw [up.running, and_iff_left rfl, Nat.not_lt, Nat.le_zero] at stops
    exact ⟨rfl, Or.inl stops.symm⟩

/-- The length of the head that a stream begins with, as far as the buffer holds it: zero when
the buffer is too small, and -1 for a stream that ends before its head, or has a head with
characters that may not be there. -/
def headLen (stream : Str) : ℤ :=
  let requestLen := getRequestLen (stream.take maxRequestSize)
  if requestLen ≠ 0 then requestLen else if maxRequestSize ≤ stream.length then 0 else -1

/-- What holds after `read_request` on a stream. -/
structure HeadRead (rest : σ → Str) (stream : Str) (result : ℤ × Str × σ) : Prop where
  value : result.1 = headLen stream
  found : 0 < result.1 → getRequestLen result.2.1 = result.1
  fits : result.2.1.length ≤ maxRequestSize
  whole : result.2.1 ++ rest result.2.2 = stream

theorem readRequestFrom_eq (up : network.Up rest) (buf : Str) (s : σ) (n : ℤ)
    (fits : buf.length ≤ maxRequestSize) (room : 0 < n ∨ buf.length < maxRequestSize) :
    HeadRead rest (buf ++ rest s) (readRequestFrom network buf s n) := by
  fun_induction readRequestFrom network buf s n with
  | case1 buf s n requestLen goes s' call =>
    rw [pull_eq up.running] at call
    exact (up.reliable.not_eq_none call).elim
  | case2 buf s n requestLen goes bytes s' call nothing =>
    rw [pull_eq up.running] at call
    obtain ⟨ended, ended'⟩ := up.reliable.rest_eq_nil call (by omega) nothing
    have none : getRequestLen buf = 0 := goes.2.2
    have value : readResult requestLen 0 = -1 := by
      rw [readResult, if_pos ⟨goes.2.2.le, le_rfl⟩]
    refine ⟨?_, fun positive => ?_, fits, ?_⟩
    · rw [value, headLen, ended, List.append_nil, List.take_of_length_le fits, none]
      dsimp only
      rw [if_neg (not_not_intro rfl), if_neg (by omega)]
    · rw [value] at positive
      omega
    · rw [ended, ended']
  | case3 buf s n requestLen goes bytes s' call some ih =>
    rw [pull_eq up.running] at call
    have within := bytes.2
    have positive := List.length_pos_iff.mpr some
    have later := ih (by rw [List.length_append]; omega) (Or.inl (by omega))
    rw [List.append_assoc, ← up.reliable.inOrder.of_eq_some call] at later
    exact later
  | case4 buf s n requestLen stops =>
    rw [up.running, not_and, not_and] at stops
    have seen : (buf ++ rest s).take maxRequestSize =
        buf ++ (rest s).take (maxRequestSize - buf.length) := by
      rw [List.take_append, List.take_of_length_le fits]
    by_cases none : requestLen = 0
    · -- the buffer is full, and the last call of `pull` filled it
      have full : buf.length = maxRequestSize := by
        by_contra other
        exact stops rfl (Nat.lt_of_le_of_ne fits other) none
      have positive : 0 < n := by omega
      have value : readResult requestLen n = 0 := by
        rw [readResult, if_neg (by omega), none]
      refine ⟨?_, fun above => ?_, fits, rfl⟩
      · have empty : getRequestLen buf = 0 := none
        rw [value, headLen, seen, full, Nat.sub_self, List.take_zero, List.append_nil, empty]
        dsimp only
        rw [if_neg (not_not_intro rfl), if_pos (by rw [List.length_append]; omega)]
      · rw [value] at above
        omega
    · have decided : getRequestLen ((buf ++ rest s).take maxRequestSize) = requestLen := by
        rw [seen]
        exact getRequestLen_append buf _ none
      have value : readResult requestLen n = requestLen := by
        rw [readResult]
        split_ifs with negative
        · have least := getRequestLen_cases buf
          change requestLen = -1 ∨ 0 ≤ requestLen at least
          omega
        · rfl
      refine ⟨?_, fun _ => value.symm, fits, rfl⟩
      rw [value, headLen, decided]
      dsimp only
      rw [if_pos none]

/-- What `read_request` finds is a matter of the stream: the pieces in which it arrives and how
much of it is in the buffer already make no difference. -/
theorem readRequest_eq (up : network.Up rest) (buf : Str) (s : σ)
    (room : buf.length < maxRequestSize) :
    HeadRead rest (buf ++ rest s) (readRequest network buf s) :=
  readRequestFrom_eq up buf s 0 room.le (Or.inr room)

/-- A client whose bytes arrive in pieces, and who keeps nothing of what it gets. -/
def arriving : Network (List Str) :=
  { ByteSource.pieces with stopFlag := fun _ => false, mgPrintf := fun _ s => s }

theorem up_arriving : arriving.Up List.flatten := ⟨ByteSource.reliable_pieces, fun _ => rfl⟩

/-- A head in two pieces. -/
def headInPieces : List Str := [.ofLiteral "GET / HTT", .ofLiteral "P/1.0\r\n\r\n"]

theorem readRequest_headInPieces :
    HeadRead List.flatten ([] ++ headInPieces.flatten) (readRequest arriving [] headInPieces) :=
  readRequest_eq up_arriving [] headInPieces (by decide)

end Stream

section Body

variable {σ : Type} {network : Network σ} {rest : σ → Str} {conn : Connection σ} {len : ℕ}

/-- The bytes behind those of the request that are read already. -/
def ahead (rest : σ → Str) (conn : Connection σ) : Str :=
  conn.buf.drop (conn.requestLen.toNat + conn.consumedContent) ++ rest conn.client

/-- One connection is another one after `bytes` more of the body have been read. -/
structure ReadOn (rest : σ → Str) (conn : Connection σ) (bytes : Str) (conn' : Connection σ) :
    Prop where
  buf : conn'.buf = conn.buf
  requestInfo : conn'.requestInfo = conn.requestInfo
  requestLen : conn'.requestLen = conn.requestLen
  contentLen : conn'.contentLen = conn.contentLen
  mustClose : conn'.mustClose = conn.mustClose
  consumed : conn'.consumedContent = conn.consumedContent + bytes.length
  ahead : ahead rest conn = bytes ++ Mongoose.ahead rest conn'

theorem ReadOn.refl (rest : σ → Str) (conn : Connection σ) : ReadOn rest conn [] conn :=
  ⟨rfl, rfl, rfl, rfl, rfl, rfl, rfl⟩

/-- A reply gives the request a status. -/
theorem ReadOn.answered {bytes : Str} {conn' : Connection σ} (readOn : ReadOn rest conn bytes conn')
    (statusCode : ℤ) : ReadOn rest conn bytes { conn' with statusCode } :=
  ⟨readOn.buf, readOn.requestInfo, readOn.requestLen, readOn.contentLen, readOn.mustClose,
    readOn.consumed, readOn.ahead⟩

/-- How many bytes a call of `mg_read` may hand over. -/
def allowed (conn : Connection σ) (len : ℕ) : ℕ :=
  min (conn.contentLen - conn.consumedContent).toNat len

theorem toNatClampNeg_ofNat_le (n : ℕ) : (Int32.ofNat n).toNatClampNeg ≤ n := by
  rw [Int32.toNatClampNeg, Int32.toInt_ofNat', Int.bmod_def, Int32.size]
  split_ifs <;> omega

/-- The bytes that are handed over when at most `len` are asked for, and the connection then. -/
def handedOver (network : Network σ) (conn : Connection σ) (len : ℕ) : Str :=
  buffered conn len ++ (pulled network conn len).2.1

/-- The connection when they are handed over. -/
def readTo (network : Network σ) (conn : Connection σ) (len : ℕ) : Connection σ :=
  { conn with
    client := (pulled network conn len).2.2
    consumedContent := conn.consumedContent + (handedOver network conn len).length }

/-- The next bytes of the stream: what the buffer has of them, then what is pulled. -/
theorem readOn_readTo (inOrder : network.InOrder rest)
    (running : ∀ s, network.stopFlag s = false) (conn : Connection σ) (len : ℕ) :
    ReadOn rest conn (handedOver network conn len) (readTo network conn len) ∧
      (handedOver network conn len).length ≤ len := by
  obtain ⟨order, within⟩ := pullAll_inOrder inOrder running conn.client
    (Int32.ofNat (len - (buffered conn len).length)).toNatClampNeg
  rw [← pulled] at order within
  have few : (pulled network conn len).2.1.length ≤ len - (buffered conn len).length :=
    within.trans (toNatClampNeg_ofNat_le _)
  have size : (buffered conn len).length =
      min len (conn.buf.drop (conn.requestLen.toNat + conn.consumedContent)).length :=
    List.length_take
  refine ⟨⟨rfl, rfl, rfl, rfl, rfl, rfl, ?_⟩, by rw [handedOver, List.length_append]; omega⟩
  have split := List.prefix_iff_eq_append.mp (List.take_prefix len
    (conn.buf.drop (conn.requestLen.toNat + conn.consumedContent)))
  rw [← buffered, List.drop_drop] at split
  rw [ahead, ahead, ← split, readTo, handedOver]
  dsimp only
  by_cases none : (pulled network conn len).2.1 = []
  · rw [none, List.nil_append] at order
    rw [none, order, List.append_nil, ← Nat.add_assoc, List.append_assoc]
  · -- the buffer is used up before anything is pulled
    have positive := List.length_pos_iff.mpr none
    have used : (conn.buf.drop (conn.requestLen.toNat + conn.consumedContent)).length =
        (buffered conn len).length := by omega
    rw [List.length_drop] at used
    rw [order, List.drop_of_length_le (by omega), List.append_nil, List.length_append,
      List.drop_of_length_le (by omega), List.nil_append, List.append_assoc]

/-- While the client is there, all that is asked for is handed over, or all that is to come. -/
theorem handedOver_eager (up : network.Up rest) (conn : Connection σ) (small : len < 2 ^ 31) :
    (pulled network conn len).1 = false ∧
      ((handedOver network conn len).length = len ∨ ahead rest (readTo network conn len) = []) := by
  obtain ⟨worked, all⟩ := pullAll_eager up conn.client
    (Int32.ofNat (len - (buffered conn len).length)).toNatClampNeg
  rw [← pulled] at worked all
  refine ⟨worked, ?_⟩
  have size : (buffered conn len).length =
      min len (conn.buf.drop (conn.requestLen.toNat + conn.consumedContent)).length :=
    List.length_take
  rw [List.length_drop] at size
  have asked : (Int32.ofNat (len - (buffered conn len).length)).toNatClampNeg =
      len - (buffered conn len).length := by
    rw [Int32.toNatClampNeg, Int32.toInt_ofNat_of_lt (by omega), Int.toNat_natCast]
  rw [asked] at all
  have total : (handedOver network conn len).length =
      (buffered conn len).length + (pulled network conn len).2.1.length := List.length_append
  rcases all with whole | ended
  · left
    omega
  · by_cases enough : (buffered conn len).length = len
    · have within := (readOn_readTo up.reliable.inOrder up.running conn len).2
      left
      omega
    · right
      rw [ahead, readTo]
      dsimp only
      rw [ended, List.append_nil, List.drop_of_length_le (by omega)]

theorem endless_eq (known : conn.contentLen ≠ 0) : conn.endless = conn := by
  rw [Connection.endless, if_neg fun none => known none.2]

/-- `mg_read` before the end of a body whose length is known. -/
theorem mgRead_eq (known : conn.contentLen ≠ 0) (len : ℕ)
    (unread : conn.consumedContent < conn.contentLen) :
    mgRead network conn len =
      (if (pulled network conn (allowed conn len)).1 then -1
        else Int32.ofNat (handedOver network conn (allowed conn len)).length,
        handedOver network conn (allowed conn len), readTo network conn (allowed conn len)) := by
  have limit : (if conn.contentLen - conn.consumedContent < len
      then (conn.contentLen - conn.consumedContent).toNat else len) = allowed conn len := by
    rw [allowed]
    split_ifs with less <;> omega
  rw [mgRead, endless_eq known]
  dsimp only
  rw [if_pos unread, limit]
  rfl

theorem mgRead_eq_of_le (known : conn.contentLen ≠ 0) (len : ℕ)
    (finished : conn.contentLen ≤ conn.consumedContent) :
    mgRead network conn len = (0, [], conn) := by
  rw [mgRead, endless_eq known]
  exact if_neg (by omega)

/-- `mg_read` hands over the next bytes of the stream, and none behind the body. -/
theorem readOn_mgRead (inOrder : network.InOrder rest)
    (running : ∀ s, network.stopFlag s = false) (known : conn.contentLen ≠ 0) (len : ℕ) :
    ReadOn rest conn (mgRead network conn len).2.1 (mgRead network conn len).2.2 ∧
      (mgRead network conn len).2.1.length ≤ allowed conn len := by
  by_cases finished : conn.contentLen ≤ conn.consumedContent
  · rw [mgRead_eq_of_le known len finished]
    exact ⟨.refl rest conn, Nat.zero_le _⟩
  · rw [mgRead_eq known len (by omega)]
    exact readOn_readTo inOrder running conn (allowed conn len)

/-- A connection on which the length of the body is known, and no more than an `int` holds. -/
structure BodyConnection (σ : Type) extends Connection σ where
  known : contentLen ≠ 0
  small : contentLen < 2 ^ 31

/-- What is left of the body. -/
def bodyRest (rest : σ → Str) (conn : Connection σ) : Str :=
  (ahead rest conn).take (conn.contentLen - conn.consumedContent).toNat

/-- `mg_read` keeps the length of the body. -/
theorem contentLen_mgRead (known : conn.contentLen ≠ 0) (len : ℕ) :
    (mgRead network conn len).2.2.contentLen = conn.contentLen := by
  by_cases finished : conn.contentLen ≤ conn.consumedContent
  · rw [mgRead_eq_of_le known len finished]
  · rw [mgRead_eq known len (by omega)]
    rfl

/-- `mg_read` on these connections. -/
def BodyConnection.mgRead (network : Network σ) : MgThreadHandler.MgRead (BodyConnection σ) :=
  fun conn len =>
    let read := Mongoose.mgRead network conn.toConnection len
    (read.1, read.2.1, ⟨read.2.2, by rw [contentLen_mgRead conn.known]; exact conn.known,
      by rw [contentLen_mgRead conn.known]; exact conn.small⟩)

theorem toInt_mgRead (conn : BodyConnection σ) (len : ℕ)
    (within : (mgRead network conn.toConnection len).2.1.length ≤ allowed conn.toConnection len)
    (worked : (mgRead network conn.toConnection len).1 ≠ -1) :
    (mgRead network conn.toConnection len).1.toInt =
      (mgRead network conn.toConnection len).2.1.length := by
  have small := conn.small
  by_cases finished : conn.contentLen ≤ conn.consumedContent
  · rw [mgRead_eq_of_le conn.known len finished]
    rfl
  · rw [mgRead_eq conn.known len (by omega)] at worked within ⊢
    dsimp only at worked within ⊢
    have limit : allowed conn.toConnection len < 2 ^ 31 := by
      rw [allowed]
      omega
    split_ifs at worked ⊢ with failed
    · exact absurd rfl worked
    · exact Int32.toInt_ofNat_of_lt (by omega)

theorem bodyRest_mgRead (inOrder : network.InOrder rest)
    (running : ∀ s, network.stopFlag s = false) (known : conn.contentLen ≠ 0) (len : ℕ) :
    bodyRest rest conn =
      (mgRead network conn len).2.1 ++ bodyRest rest (mgRead network conn len).2.2 := by
  obtain ⟨readOn, within⟩ := readOn_mgRead inOrder running known len
  rw [allowed] at within
  rw [bodyRest, bodyRest, readOn.ahead, readOn.contentLen, readOn.consumed, List.take_append,
    List.take_of_length_le (by omega), Nat.cast_add]
  congr 2
  omega

/-- The body is handed over in order. -/
theorem delivers_mgRead (inOrder : network.InOrder rest)
    (running : ∀ s, network.stopFlag s = false) :
    MgThreadHandler.MgRead.Delivers (BodyConnection.mgRead network)
      fun conn => bodyRest rest conn.toConnection where
  within conn len := by
    have within := (readOn_mgRead inOrder running conn.known len).2
    rw [allowed] at within
    change (mgRead network conn.toConnection len).2.1.length ≤ len
    omega
  counted conn len positive := by
    refine toInt_mgRead conn len (readOn_mgRead inOrder running conn.known len).2 fun failed => ?_
    change 0 < (mgRead network conn.toConnection len).1 at positive
    rw [failed] at positive
    exact absurd positive (by decide)
  inOrder conn len := bodyRest_mgRead inOrder running conn.known len

/-- While the client is there, `mg_read` goes on to the end of the body. -/
theorem handsOverAll_mgRead (up : network.Up rest) :
    MgThreadHandler.MgRead.HandsOverAll (BodyConnection.mgRead network)
      fun conn => bodyRest rest conn.toConnection := by
  intro conn len stops
  change ¬ 0 < (mgRead network conn.toConnection len).1 at stops
  have small := conn.small
  by_cases finished : conn.contentLen ≤ conn.consumedContent
  · right
    dsimp only
    rw [bodyRest, Int.toNat_of_nonpos (by omega), List.take_zero]
  · have unread : conn.consumedContent < conn.contentLen := by omega
    have limit : allowed conn.toConnection len < 2 ^ 31 ∧
        (allowed conn.toConnection len = 0 → len = 0) := by
      rw [allowed]
      omega
    obtain ⟨worked, all⟩ := handedOver_eager up conn.toConnection limit.1
    obtain ⟨readOn, within⟩ := readOn_readTo up.reliable.inOrder up.running conn.toConnection
      (allowed conn.toConnection len)
    rw [mgRead_eq conn.known len unread, worked, if_neg Bool.false_ne_true,
      Int32.lt_iff_toInt_lt, Int32.toInt_ofNat_of_lt (by omega), Int32.toInt_zero] at stops
    have none :
        (handedOver network conn.toConnection (allowed conn.toConnection len)).length = 0 := by
      omega
    refine all.imp (fun asked => limit.2 (asked.symm.trans none)) fun ended => ?_
    dsimp only
    rw [bodyRest, readOn.ahead, ended, List.length_eq_zero_iff.mp none, List.append_nil,
      List.take_nil]

end Body

end Mongoose

end FlowRetrieval
