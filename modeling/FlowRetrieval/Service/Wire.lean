/-
# From the bytes of a client to a response

`begin_request` runs on a connection: its loop over `mg_read` takes the body out of the buffer
of the connection and off the socket. The response to a request that a client sends is then
the one that `begin_request` gives for the method and the body, however the bytes arrive, if the
checks of `handle_request` let the request pass.

## Main results

* `MgThreadHandler.map_readLoopConn` — the loop with the connection and the loop without it
* `MgThreadHandler.beginRequestOn_eq` — `begin_request` on a connection
* `MgThreadHandler.processNewConnection_response` — the response to the bytes of a request
-/
import FlowRetrieval.Mongoose.HandleRequest

namespace FlowRetrieval

open CS RequestHandler

namespace MgThreadHandler

section Loop

variable {σ τ : Type}

/-- The loop of `begin_request`, with the connection that it leaves. -/
def readLoopConn (mgRead : MgRead σ) : ℕ → σ → ℕ → Int32 → TracedMemory requestBufferSize →
    Option (σ × TracedMemory requestBufferSize)
  | 0, _, _, _, _ => none
  | fuel + 1, conn, bufBeg, bufSize, buffer =>
    let (readSize, bytes, conn) := mgRead conn (sizeT bufSize)
    let buffer := buffer.sweep (fun _ k => bytes.getD k 0) bufBeg bytes.length
    if 0 < readSize then
      readLoopConn mgRead fuel conn (bufBeg + readSize.toInt.toNat) (bufSize - readSize) buffer
    else some (conn, buffer)

theorem map_readLoopConn (mgRead : MgRead σ) (fuel : ℕ) (conn : σ) (bufBeg : ℕ) (bufSize : Int32)
    (buffer : TracedMemory requestBufferSize) :
    (readLoopConn mgRead fuel conn bufBeg bufSize buffer).map Prod.snd =
      readLoop mgRead fuel conn bufBeg bufSize buffer := by
  induction fuel generalizing conn bufBeg bufSize buffer with
  | zero => rfl
  | succ fuel ih =>
    rw [readLoopConn, readLoop]
    dsimp only
    split_ifs with more
    · exact ih _ _ _ _
    · rfl

/-- Calls that do the same on two kinds of connections give the same loop. -/
theorem readLoop_map {mgRead : MgRead σ} (mgRead' : MgRead τ) (forget : σ → τ)
    (same : ∀ conn len, mgRead' (forget conn) len =
      ((mgRead conn len).1, (mgRead conn len).2.1, forget (mgRead conn len).2.2))
    (fuel : ℕ) (conn : σ) (bufBeg : ℕ) (bufSize : Int32)
    (buffer : TracedMemory requestBufferSize) :
    readLoop mgRead' fuel (forget conn) bufBeg bufSize buffer =
      readLoop mgRead fuel conn bufBeg bufSize buffer := by
  induction fuel generalizing conn bufBeg bufSize buffer with
  | zero => rfl
  | succ fuel ih =>
    rw [readLoop, readLoop, same]
    dsimp only
    split_ifs with more
    · exact ih _ _ _ _
    · rfl

end Loop

section Begin

variable {σ R : Type} [Double R] (network : Mongoose.Network σ) (lib : DoubleLib R) (mg : Library)
  (self : RequestHandler R) (memory : SharedMemory R) (heap : HeapWords)

/-- `begin_request` once the request is in the buffer. -/
def answer : Option (ℤ × RequestHandler R × Response) :=
  let (returnCode, qd) := mg.parse (requestString self)
  if returnCode ≠ 0 then
    some (0, self, responseError mg (QueryParser.getErrMsg returnCode))
  else
    (self.process lib memory qd heap).map fun handler =>
      (0, handler, ⟨.ofLiteral "HTTP/1.1 200 OK", handler.getJsonResult⟩)

/-- `begin_request` on a connection: the connection that it leaves, the return code, the handler
and the response. -/
def beginRequestOn (conn : Mongoose.Connection σ) :
    Option (Mongoose.Connection σ × ℤ × RequestHandler R × Response) :=
  let buffer := (TracedMemory.start self.requestBuf).fill 0 0 requestBufferSize
  if conn.requestInfo.requestMethod = .ofLiteral "GET" then
    some (conn, 0, { self with requestBuf := buffer.memory },
      responseError mg (.ofLiteral "not support HTTP GET method!"))
  else
    (readLoopConn (Mongoose.mgRead network) (requestBufferSize + 1) conn 0
      (Int32.ofNat requestBufferSize) buffer).bind fun (conn, buffer) =>
    (answer lib mg { self with requestBuf := buffer.memory } memory heap).map fun answer =>
      (conn, answer)

/-- The callback as `handle_request` has it called; `own` is what happens to the
connection afterwards. -/
def callback
    (own : ℤ × RequestHandler R × Response → Mongoose.Connection σ → Mongoose.Connection σ)
    (conn : Mongoose.Connection σ) :
    Mongoose.Connection σ × Option (ℤ × RequestHandler R × Response) :=
  match beginRequestOn network lib mg self memory heap conn with
  | none => (conn, none)
  | some (conn, answer) => (own answer conn, some answer)

variable {network lib mg self memory heap} {rest : σ → Str} {message : Mongoose.Message}
  {more : Str} {conn : Mongoose.Connection σ}

theorem bodyRest_received (received : Mongoose.Received rest message more conn) :
    Mongoose.bodyRest rest conn.withUri = message.body := by
  have same : Mongoose.bodyRest rest conn.withUri = Mongoose.bodyRest rest conn := rfl
  rw [same, Mongoose.bodyRest, received.ahead, received.contentLen, received.consumed,
    List.take_append_of_le_length (by omega), List.take_of_length_le (by omega)]

omit [Double R] in
/-- For a `GET` request nothing is read into the buffer. -/
theorem fill_eq_readRequest :
    { self with requestBuf :=
      ((TracedMemory.start self.requestBuf).fill 0 0 requestBufferSize).memory } =
      readRequest self [] := by
  rw [TracedMemory.fill, TracedMemory.memory_sweep, readRequest, List.length_nil, Nat.zero_min,
    ByteMemory.sweep.eq_1, ByteMemory.fill, TracedMemory.start]

/-- The loop leaves the buffer that `readRequest` has for the body. -/
theorem readLoopConn_received (self : RequestHandler R) (up : network.Up rest)
    (received : Mongoose.Received rest message more conn) (some : message.body ≠ [])
    (short : message.body.length < 2 ^ 31) :
    ∃ conn' buffer, readLoopConn (Mongoose.mgRead network) (requestBufferSize + 1) conn.withUri 0
        (Int32.ofNat requestBufferSize)
        ((TracedMemory.start self.requestBuf).fill 0 0 requestBufferSize) = .some (conn', buffer) ∧
      buffer.memory = (readRequest self message.body).requestBuf := by
  have positive := List.length_pos_iff.mpr some
  have contentLen : conn.withUri.contentLen = message.body.length := received.contentLen
  let body : Mongoose.BodyConnection σ := ⟨conn.withUri, by omega, by omega⟩
  have delivers := Mongoose.delivers_mgRead up.reliable.inOrder up.running
  have all := Mongoose.handsOverAll_mgRead up
  obtain ⟨left, done⟩ := Option.isSome_iff_exists.mp
    (isSome_readPost delivers body self.requestBuf)
  have loaded : left.memory = (readRequest self message.body).requestBuf := by
    funext i
    have byte := load_readPost delivers done all self i.isLt
    rw [bodyRest_received received] at byte
    simpa [ByteMemory.load] using byte
  rw [readPost, ← readLoop_map (Mongoose.mgRead network)
    Mongoose.BodyConnection.toConnection (fun _ _ => rfl), ← map_readLoopConn] at done
  obtain ⟨⟨conn', buffer⟩, ran, rfl⟩ := Option.map_eq_some_iff.mp done
  exact ⟨conn', buffer, ran, loaded⟩

/-- `begin_request` on a connection does what it does for the method and the body. -/
theorem beginRequestOn_eq (up : network.Up rest)
    (received : Mongoose.Received rest message more conn) (some : message.body ≠ [])
    (short : message.body.length < 2 ^ 31) :
    (beginRequestOn network lib mg self memory heap conn.withUri).map Prod.snd =
      beginRequest lib mg self memory heap ⟨message.head.method, message.body⟩ := by
  have method : conn.withUri.requestInfo.requestMethod = message.head.method := by
    rw [received.requestInfo_withUri]
    rfl
  rw [beginRequestOn, beginRequest]
  dsimp only
  by_cases get : message.head.method = .ofLiteral "GET"
  · rw [if_pos (method.trans get), if_pos get, fill_eq_readRequest, Option.map_some]
  · obtain ⟨conn', buffer, ran, loaded⟩ := readLoopConn_received self up received some short
    rw [if_neg (method ▸ get), if_neg get, ran, Option.bind_some]
    dsimp only
    rw [loaded, Option.map_map]
    exact Option.map_id'

theorem snd_callback
    (own : ℤ × RequestHandler R × Response → Mongoose.Connection σ → Mongoose.Connection σ) :
    (callback network lib mg self memory heap own conn).2 =
      (beginRequestOn network lib mg self memory heap conn).map Prod.snd := by
  rw [callback]
  cases beginRequestOn network lib mg self memory heap conn <;> rfl

/-- The bytes of a request with a body get the response that `begin_request` gives for its
method and its body, in whatever pieces they arrive and whatever follows them, if the request
passes the checks in front of the callback. The server closes the connection then, since
`enable_keep_alive` is not set. -/
theorem processNewConnection_response (up : network.Up rest)
    (own : ℤ × RequestHandler R × Response → Mongoose.Connection σ → Mongoose.Connection σ)
    (enableKeepAlive : Str)
    (unset : enableKeepAlive ≠ .ofLiteral "yes") (message : Mongoose.Message)
    (some : message.body ≠ []) (short : message.body.length < 2 ^ 31)
    {checks : Mongoose.Checks σ}
    (passes : ∀ conn : Mongoose.Connection σ,
      conn.requestInfo = message.head.handled → checks.Passes conn)
    (stream : rest conn.client = message.bytes ++ more) (stale : ℕ → Str) (fuel : ℕ) :
    (Mongoose.processNewConnection network enableKeepAlive
        (Mongoose.handleRequest checks (callback network lib mg self memory heap own)) (fuel + 1)
        stale conn).map Prod.fst =
      .some [.handled (.served (beginRequest lib mg self memory heap
        ⟨message.head.method, message.body⟩))] := by
  obtain ⟨known, done⟩ := Mongoose.processNewConnection_unset up unset conn stream stale fuel
  rw [done, Option.map_some,
    Mongoose.handleRequest_of_passes (passes _ known.requestInfo_withUri), snd_callback,
    beginRequestOn_eq up known some short]

end Begin

/-- A request in two pieces. -/
def queryInPieces : List Str :=
  [Mongoose.query.bytes.take 7, Mongoose.query.bytes.drop 7]

theorem response_queryInPieces :
    (Mongoose.processNewConnection Mongoose.arriving (.ofLiteral "no")
        (Mongoose.handleRequest .unprotected
          (callback Mongoose.arriving DoubleLib.integral plainLibrary blankHandler .fresh
            (fun _ _ => 0) fun _ conn => conn)) 1 (fun _ => [])
          (Mongoose.opened queryInPieces)).map Prod.fst =
      some [.handled (.served (beginRequest DoubleLib.integral plainLibrary blankHandler .fresh
        (fun _ _ => 0) ⟨Mongoose.query.head.method, Mongoose.query.body⟩))] :=
  processNewConnection_response Mongoose.up_arriving (fun _ conn => conn) (.ofLiteral "no")
    (by decide) Mongoose.query (by decide) (by decide)
    (fun conn _ => Mongoose.Checks.passes_unprotected conn)
    (show queryInPieces.flatten = Mongoose.query.bytes ++ [] by decide) _ 0

end MgThreadHandler

end FlowRetrieval
