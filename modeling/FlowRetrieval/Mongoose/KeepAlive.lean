/-
# The requests of a connection

`process_new_connection` takes one request after the other from a connection: it reads a head,
has the request handled, and throws away what the buffer holds of it. The next request begins
behind that. When the handler has read the whole body, or the buffer holds it, this is the end
of the request, and the requests that a client sends one after the other are handled one after
the other. Otherwise the rest of the body is taken for the next request.

## Main results

* `Mongoose.getreq_message` — what is known of a request when it is handled
* `Mongoose.inStep_iff` — when the next request is looked for behind this one
* `Mongoose.processNewConnection_messages` — the requests of a connection
-/
import FlowRetrieval.Mongoose.Connection

namespace FlowRetrieval

open CS CS.HttpStream

namespace Mongoose

section Code

variable {σ : Type} (network : Network σ)

/-- `reset_per_request_attributes`. -/
def resetPerRequestAttributes (conn : Connection σ) : Connection σ :=
  { conn with consumedContent := 0, statusCode := -1, mustClose := false, requestLen := 0 }

/-- The string that `snprintf` leaves in an error buffer of 100 bytes. -/
def ebufOf (text : Str) : Str := text.take 99

/-- `content_len` of a request whose head is parsed. -/
def contentLenOf (ri : RequestInfo) : ℤ :=
  match getHeader ri (.ofLiteral "Content-Length") with
  | some cl => (Cstdlib.strtol cl).toInt
  | none =>
    if mgStrcasecmp ri.requestMethod (.ofLiteral "POST") = 0 ∨
      mgStrcasecmp ri.requestMethod (.ofLiteral "PUT") = 0 then -1 else 0

/-- `getreq`: the connection and the text of the error, which is empty when there is none.
Behind the data the buffer holds what earlier requests left there. -/
def getreq (stale : Str) (conn : Connection σ) : Connection σ × Str :=
  let conn := resetPerRequestAttributes conn
  let (requestLen, buf, client) := readRequest network conn.buf conn.client
  let conn := { conn with requestLen, buf, client }
  if requestLen = 0 ∧ buf.length = maxRequestSize then
    (conn, ebufOf (.ofLiteral "Request Too Large"))
  else if requestLen ≤ 0 then (conn, ebufOf (.ofLiteral "Client closed connection"))
  else
    let (length, requestInfo) := parseHttpMessage (buf ++ stale) conn.requestInfo
    let conn := { conn with requestInfo }
    if length ≤ 0 then
      -- of the buffer the zero bytes leave the blanks in front and the first word
      let text := MgThreadHandler.cString (buf.set (requestLen.toNat - 1) 0)
      let word := text.takeWhile Cstdlib.isspace ++ requestInfo.requestMethod
      (conn, ebufOf (.ofLiteral "Bad request: [" ++ word ++ .ofLiteral "]"))
    else ({ conn with contentLen := contentLenOf requestInfo }, [])

/-- `is_valid_uri`. -/
def isValidUri (uri : Str) : Bool := uri.head? = some 47 || uri = .ofLiteral "*"

/-- `should_keep_alive`, with the option `enable_keep_alive`. -/
def shouldKeepAlive (enableKeepAlive : Str) (conn : Connection σ) : Bool :=
  let header := getHeader conn.requestInfo (.ofLiteral "Connection")
  !(conn.mustClose || conn.statusCode = 401 ||
    mgStrcasecmp enableKeepAlive (.ofLiteral "yes") ≠ 0 ||
    header.any (fun value => mgStrcasecmp value (.ofLiteral "keep-alive") ≠ 0) ||
    header.isNone && conn.requestInfo.httpVersion.any fun number => number ≠ .ofLiteral "1.1")

/-- `suggest_connection_header`. -/
def suggestConnectionHeader (enableKeepAlive : Str) (conn : Connection σ) : Str :=
  if shouldKeepAlive enableKeepAlive conn then .ofLiteral "keep-alive" else .ofLiteral "close"

/-- The text of `send_http_error` for a status that has one. -/
def errorText (status : ℕ) (reason message : Str) : Str :=
  .ofLiteral "Error " ++ decimal status ++ .ofLiteral ": " ++ reason ++ .ofLiteral "\n" ++ message

/-- The head of it. -/
def errorHead (status : ℕ) (reason : Str) (len : ℕ) (connection : Str) : Str :=
  .ofLiteral "HTTP/1.1 " ++ decimal status ++ .ofLiteral " " ++ reason ++
    .ofLiteral "\r\nContent-Length: " ++ decimal len ++
    .ofLiteral "\r\nConnection: " ++ connection ++ .ofLiteral "\r\n\r\n"

/-- `send_http_error`: the connection, and what is written. -/
def sendHttpError (enableKeepAlive : Str) (conn : Connection σ) (status : ℕ)
    (reason message : Str) : Connection σ × Str :=
  let conn := { conn with statusCode := status }
  let text := errorText status reason message
  let head := errorHead status reason text.length (suggestConnectionHeader enableKeepAlive conn)
  ({ conn with client := network.mgPrintf text (network.mgPrintf head conn.client) }, head ++ text)

/-- What a pass of the loop does with a request. -/
inductive Outcome (α : Type)
  | refused (written : Str)
  | handled (reply : α)

/-- The checks in front of `handle_request`; `none` when the request passes them. -/
def check (enableKeepAlive : Str) (conn : Connection σ) (ebuf : Str) :
    Connection σ × Option Str :=
  if ebuf ≠ [] then
    let (conn, written) :=
      sendHttpError network enableKeepAlive conn 500 (.ofLiteral "Server Error") ebuf
    ({ conn with mustClose := true }, some written)
  else if !isValidUri conn.requestInfo.uri then
    let ebuf := ebufOf (.ofLiteral "Invalid URI: [" ++ conn.requestInfo.uri ++ .ofLiteral "]")
    let (conn, written) :=
      sendHttpError network enableKeepAlive conn 400 (.ofLiteral "Bad Request") ebuf
    (conn, some written)
  else
    let number := conn.requestInfo.httpVersion.getD []
    if number ≠ .ofLiteral "1.0" ∧ number ≠ .ofLiteral "1.1" then
      let ebuf := ebufOf (.ofLiteral "Bad HTTP version: [" ++ number ++ .ofLiteral "]")
      let (conn, written) :=
        sendHttpError network enableKeepAlive conn 505 (.ofLiteral "Bad HTTP version") ebuf
      (conn, some written)
    else (conn, none)

/-- How many bytes of the buffer are thrown away. -/
def discardLen (conn : Connection σ) : ℕ :=
  -- an `int` and an `int64_t` are added, and the sum is converted to `int`
  let sum := (conn.requestLen + conn.contentLen).bmod (2 ^ 64)
  if 0 ≤ conn.contentLen ∧ 0 < conn.requestLen ∧ sum < conn.buf.length then
    (sum.bmod (2 ^ 32)).toNat
  else conn.buf.length

variable {α : Type} (enableKeepAlive : Str) (handleRequest : Connection σ → Connection σ × α)

/-- One pass of the loop of `process_new_connection`, and whether there is another one. -/
def processRequest (stale : Str) (conn : Connection σ) : Connection σ × Outcome α × Bool :=
  let (conn, ebuf) := getreq network stale conn
  let (conn, refusal) := check network enableKeepAlive conn ebuf
  let (conn, outcome) : Connection σ × Outcome α :=
    match refusal with
    | some written => (conn, .refused written)
    | none =>
      let (conn, reply) := handleRequest conn
      (conn, .handled reply)
  let keepAlive := !network.stopFlag conn.client && enableKeepAlive = .ofLiteral "yes" &&
    0 ≤ conn.contentLen && shouldKeepAlive enableKeepAlive conn
  ({ conn with buf := conn.buf.drop (discardLen conn) }, outcome, keepAlive)

/-- The loop, for at most `fuel` passes; `stale` is what the buffer holds behind the data in
each of them. -/
def processLoop : ℕ → (ℕ → Str) → Connection σ → Option (List (Outcome α) × Connection σ)
  | 0, _, _ => none
  | fuel + 1, stale, conn =>
    let (conn, outcome, keepAlive) :=
      processRequest network enableKeepAlive handleRequest (stale 0) conn
    if keepAlive then
      (processLoop fuel (fun pass => stale (pass + 1)) conn).map fun (outcomes, conn) =>
        (outcome :: outcomes, conn)
    else some ([outcome], conn)

/-- `process_new_connection`, which begins with an empty buffer. -/
def processNewConnection (fuel : ℕ) (stale : ℕ → Str) (conn : Connection σ) :
    Option (List (Outcome α) × Connection σ) :=
  processLoop network enableKeepAlive handleRequest fuel stale { conn with buf := [] }

end Code

section Received

variable {σ : Type} {network : Network σ} {rest : σ → Str}

/-- A request with a head that fits into the buffer and gives the length of the body. -/
structure Message where
  head : Head
  body : Str
  short : head.bytes.length ≤ maxRequestSize
  path : isValidUri head.target
  number : head.number = .ofLiteral "1.0" ∨ head.number = .ofLiteral "1.1"
  framed : contentLenOf head.info = body.length
  small : head.bytes.length + body.length < 2 ^ 63

/-- The request as it is sent. -/
def Message.bytes (message : Message) : Str := message.head.bytes ++ message.body

/-- A request with two bytes of body. -/
def query : Message where
  head := queryHead
  body := .ofLiteral "{}"
  short := by decide
  path := by decide
  number := Or.inr rfl
  framed := by decide
  small := by decide

/-- The same request, with the wish that the connection be closed. -/
def lastQuery : Message where
  head := { query.head with
    fields := [⟨.ofLiteral "Content-Length", .ofLiteral "2"⟩,
      ⟨.ofLiteral "Connection", .ofLiteral "close"⟩]
    plainFields := by
      rw [List.forall_mem_cons, List.forall_mem_singleton]
      exact ⟨⟨by decide, by decide, by decide, by decide, by decide⟩,
        ⟨by decide, by decide, by decide, by decide, by decide⟩⟩ }
  body := query.body
  short := by decide
  path := by decide
  number := Or.inr rfl
  framed := by decide
  small := by decide

/-- What is known of a request when it is handled; `more` follows it on the connection. -/
structure Received (rest : σ → Str) (message : Message) (more : Str) (conn : Connection σ) :
    Prop where
  requestInfo : conn.requestInfo = message.head.info
  requestLen : conn.requestLen = message.head.bytes.length
  contentLen : conn.contentLen = message.body.length
  consumed : conn.consumedContent = 0
  alive : conn.mustClose = false
  headed : message.head.bytes <+: conn.buf
  fits : conn.buf.length ≤ maxRequestSize
  ahead : ahead rest conn = message.body ++ more

theorem Received.buffered {message : Message} {more : Str} {conn : Connection σ}
    (received : Received rest message more conn) :
    message.head.bytes.length ≤ conn.buf.length := received.headed.length_le

theorem headLen_bytes (message : Message) (behind : Str) :
    headLen (message.head.bytes ++ behind) = message.head.bytes.length := by
  have some := List.length_pos_iff.mpr message.head.bytes_ne_nil
  rw [headLen, List.take_append, List.take_of_length_le message.short,
    message.head.getRequestLen_bytes, if_pos (by omega)]

/-- However the bytes of a request arrive, and whatever is left in the buffer behind them, its
head is read whole and its body comes next. -/
theorem getreq_message (up : network.Up rest) {message : Message} {more : Str}
    {conn : Connection σ} (stream : conn.buf ++ rest conn.client = message.bytes ++ more)
    (room : conn.buf.length < maxRequestSize) (stale : Str) :
    (getreq network stale conn).2 = [] ∧
      Received rest message more (getreq network stale conn).1 := by
  have some := List.length_pos_iff.mpr message.head.bytes_ne_nil
  have read := readRequestFrom_eq up conn.buf conn.client 0 room.le (Or.inr room)
  rw [stream, Message.bytes, List.append_assoc, ← readRequest] at read
  obtain ⟨value, found, fits, whole⟩ := read
  rw [headLen_bytes] at value
  have within := getRequestLen_le (readRequest network conn.buf conn.client).2.1
  rw [found (by omega), value, Nat.cast_le] at within
  have prefixed : message.head.bytes <+: (readRequest network conn.buf conn.client).2.1 :=
    List.prefix_of_prefix_length_le (List.prefix_append _ _)
      (whole ▸ List.prefix_append _ _) (by omega)
  obtain ⟨behind, split⟩ := prefixed
  have parsed := message.head.parseHttpMessage_bytes (behind ++ stale) conn.requestInfo
  rw [← List.append_assoc, split] at parsed
  rw [getreq, resetPerRequestAttributes]
  dsimp only
  rw [if_neg (by omega), if_neg (by omega), parsed]
  dsimp only
  rw [if_neg (by omega)]
  refine ⟨rfl, rfl, value, message.framed, rfl, rfl, ⟨behind, split⟩, fits, ?_⟩
  rw [ahead]
  dsimp only
  rw [value, Int.toNat_natCast, Nat.add_zero, ← split, List.drop_left]
  rw [← split, List.append_assoc] at whole
  exact List.append_cancel_left whole

theorem check_received {message : Message} {more : Str} {conn : Connection σ}
    (received : Received rest message more conn) (enableKeepAlive : Str) :
    check network enableKeepAlive conn [] = (conn, none) := by
  have path : ¬ (!isValidUri message.head.info.uri) = true := by
    rw [Head.info, message.path]
    exact Bool.false_ne_true
  have number : ¬ (message.head.info.httpVersion.getD [] ≠ .ofLiteral "1.0" ∧
      message.head.info.httpVersion.getD [] ≠ .ofLiteral "1.1") := by
    rintro ⟨first, second⟩
    exact message.number.elim first second
  rw [check, if_neg (not_not_intro rfl), received.requestInfo, if_neg path]
  dsimp only
  rw [if_neg number]

/-- All of a request is thrown away that the buffer holds. -/
theorem drop_discardLen {message : Message} {conn : Connection σ}
    (requestLen : conn.requestLen = message.head.bytes.length)
    (contentLen : conn.contentLen = message.body.length)
    (fits : conn.buf.length ≤ maxRequestSize) :
    conn.buf.drop (discardLen conn) =
      conn.buf.drop (message.head.bytes.length + message.body.length) := by
  have some := List.length_pos_iff.mpr message.head.bytes_ne_nil
  have small := message.small
  have sum : (conn.requestLen + conn.contentLen).bmod (2 ^ 64) =
      (message.head.bytes.length + message.body.length : ℕ) := by
    rw [requestLen, contentLen, Int.bmod_eq_of_le] <;> push_cast <;> omega
  have size : maxRequestSize = 32768 := rfl
  simp only [discardLen, sum]
  split_ifs with inside
  · rw [Int.bmod_eq_of_le (by omega) (by omega), Int.toNat_natCast]
  · rw [List.drop_length, List.drop_of_length_le (by omega)]

end Received

section Handled

variable {σ α : Type} {network : Network σ} {rest : σ → Str} {message : Message} {more : Str}
  {conn conn' : Connection σ}

theorem Received.contentLen_of_readOn (received : Received rest message more conn) {bytes : Str}
    (readOn : ReadOn rest conn bytes conn') :
    conn'.buf.drop (discardLen conn') =
      conn.buf.drop (message.head.bytes.length + message.body.length) := by
  rw [drop_discardLen (readOn.requestLen.trans received.requestLen)
    (readOn.contentLen.trans received.contentLen) (by rw [readOn.buf]; exact received.fits),
    readOn.buf]

/-- What is behind the bytes of the body that a handler has read. -/
theorem Received.ahead_of_readOn (received : Received rest message more conn) {bytes : Str}
    (readOn : ReadOn rest conn bytes conn') :
    message.body ++ more = bytes ++
      (conn.buf.drop (message.head.bytes.length + bytes.length) ++ rest conn'.client) := by
  have split := readOn.ahead
  rwa [received.ahead, Mongoose.ahead, readOn.buf, readOn.requestLen, readOn.consumed,
    received.consumed, received.requestLen, Int.toNat_natCast, Nat.zero_add] at split

/-- The next request is looked for right behind this one exactly when the handler has read the
whole body or the buffer holds it. -/
theorem Received.next_iff (received : Received rest message more conn) {bytes : Str}
    (readOn : ReadOn rest conn bytes conn') (within : bytes.length ≤ message.body.length) :
    conn'.buf.drop (discardLen conn') ++ rest conn'.client = more ↔
      message.body.length ≤ max bytes.length (conn.buf.length - message.head.bytes.length) := by
  have split := received.ahead_of_readOn readOn
  have buffered := received.buffered
  rw [received.contentLen_of_readOn readOn]
  constructor
  · intro here
    rw [← here] at split
    have lengths := congrArg List.length split
    simp only [List.length_append, List.length_drop] at lengths
    omega
  · intro enough
    have behind : more = (conn.buf.drop (message.head.bytes.length + bytes.length) ++
        rest conn'.client).drop (message.body.length - bytes.length) := by
      have dropped := congrArg (List.drop message.body.length) split
      rwa [List.drop_left, List.drop_append, List.drop_of_length_le within,
        List.nil_append] at dropped
    rw [behind, List.drop_append_of_le_length (by rw [List.length_drop]; omega), List.drop_drop]
    congr 2
    omega

variable {handleRequest : Connection σ → Connection σ × α} {enableKeepAlive : Str}

theorem processRequest_eq (up : network.Up rest)
    (stream : conn.buf ++ rest conn.client = message.bytes ++ more)
    (room : conn.buf.length < maxRequestSize) (stale : Str) :
    processRequest network enableKeepAlive handleRequest stale conn =
      let handled := handleRequest (getreq network stale conn).1
      ({ handled.1 with buf := handled.1.buf.drop (discardLen handled.1) }, .handled handled.2,
        !network.stopFlag handled.1.client && enableKeepAlive = .ofLiteral "yes" &&
          0 ≤ handled.1.contentLen && shouldKeepAlive enableKeepAlive handled.1) := by
  obtain ⟨fine, received⟩ := getreq_message up stream room stale
  rw [processRequest]
  generalize getreq network stale conn = got at fine received ⊢
  obtain ⟨conn', ebuf⟩ := got
  obtain rfl : ebuf = [] := fine
  dsimp only at received ⊢
  rw [check_received received]

/-- After a handler that reads `bytes` of the body, the next pass finds what follows this
request exactly when the handler has read the whole body or the buffer holds it. Otherwise it
takes the rest of the body for a request. -/
theorem inStep_iff (up : network.Up rest) (message : Message)
    (stream : conn.buf ++ rest conn.client = message.bytes ++ more)
    (room : conn.buf.length < maxRequestSize) (stale : Str) {bytes : Str}
    (readOn : ReadOn rest (getreq network stale conn).1 bytes
      (handleRequest (getreq network stale conn).1).1)
    (within : bytes.length ≤ message.body.length) :
    let next := (processRequest network enableKeepAlive handleRequest stale conn).1
    next.buf ++ rest next.client = more ↔ message.body.length ≤
      max bytes.length ((getreq network stale conn).1.buf.length - message.head.bytes.length) := by
  rw [processRequest_eq up stream room stale]
  exact (getreq_message up stream room stale).2.next_iff readOn within

/-- A connection before its first request. -/
def opened (client : σ) : Connection σ :=
  ⟨client, [], ⟨[], [], none, []⟩, 0, 0, 0, false, -1⟩

theorem inStep_query :
    let next := (processRequest arriving (.ofLiteral "yes") (fun conn => (conn, ())) []
      (opened [query.bytes])).1
    next.buf ++ next.client.flatten = [] ↔ query.body.length ≤ max ([] : Str).length
      ((getreq arriving [] (opened [query.bytes])).1.buf.length - query.head.bytes.length) :=
  inStep_iff up_arriving query (show [] ++ [query.bytes].flatten = query.bytes ++ [] by simp)
    (by decide) [] (.refl _ _) (Nat.zero_le _)

/-- What `should_keep_alive` looks at in the head. -/
def persistent (ri : RequestInfo) : Bool :=
  let header := getHeader ri (.ofLiteral "Connection")
  !(header.any (fun value => mgStrcasecmp value (.ofLiteral "keep-alive") ≠ 0) ||
    header.isNone && ri.httpVersion.any fun number => number ≠ .ofLiteral "1.1")

/-- The server waits for another request after one with this head. -/
def keptOpen (enableKeepAlive : Str) (ri : RequestInfo) : Bool :=
  enableKeepAlive = .ofLiteral "yes" && persistent ri

theorem shouldKeepAlive_eq (enableKeepAlive : Str) (alive : conn.mustClose = false)
    (authorized : conn.statusCode ≠ 401) :
    (enableKeepAlive = .ofLiteral "yes" && shouldKeepAlive enableKeepAlive conn) =
      keptOpen enableKeepAlive conn.requestInfo := by
  by_cases on : enableKeepAlive = .ofLiteral "yes"
  · have same : mgStrcasecmp (.ofLiteral "yes") (.ofLiteral "yes") = 0 := by decide
    simp [on, shouldKeepAlive, keptOpen, persistent, alive, authorized, same]
  · simp [on, keptOpen]

/-- A handler that reads the whole body of some requests, and answers from the head and the
body. -/
structure Serves (rest : σ → Str) (served : Message → Prop)
    (handleRequest : Connection σ → Connection σ × α) (reply : RequestInfo → Str → α) : Prop where
  readOn : ∀ {message more conn}, served message → Received rest message more conn →
    ReadOn rest conn message.body (handleRequest conn).1
  authorized : ∀ {message more conn}, served message → Received rest message more conn →
    (handleRequest conn).1.statusCode ≠ 401
  answers : ∀ {message more conn}, served message → Received rest message more conn →
    (handleRequest conn).2 = reply message.head.info message.body

variable {served : Message → Prop} {reply : RequestInfo → Str → α}

/-- One pass over a request that is sent by the rules. -/
theorem processRequest_message (up : network.Up rest)
    (serves : Serves rest served handleRequest reply) (here : served message)
    (stream : conn.buf ++ rest conn.client = message.bytes ++ more)
    (room : conn.buf.length < maxRequestSize) (stale : Str) :
    ∃ next, processRequest network enableKeepAlive handleRequest stale conn =
        (next, .handled (reply message.head.info message.body),
          keptOpen enableKeepAlive message.head.info) ∧
      next.buf ++ rest next.client = more ∧ next.buf.length < maxRequestSize := by
  have received := (getreq_message up stream room stale).2
  have readOn := serves.readOn here received
  have kept := shouldKeepAlive_eq enableKeepAlive (readOn.mustClose.trans received.alive)
    (serves.authorized here received)
  rw [readOn.requestInfo, received.requestInfo] at kept
  have counted : 0 ≤ (handleRequest (getreq network stale conn).1).1.contentLen := by
    rw [readOn.contentLen, received.contentLen]
    exact Int.natCast_nonneg _
  rw [processRequest_eq up stream room stale]
  refine ⟨_, Prod.ext rfl (Prod.ext (congrArg Outcome.handled (serves.answers here received)) ?_),
    (received.next_iff readOn le_rfl).mpr (le_max_left _ _), ?_⟩
  · dsimp only
    rw [up.running, Bool.not_false, Bool.true_and, decide_eq_true counted, Bool.and_true, kept]
  · have some := List.length_pos_iff.mpr message.head.bytes_ne_nil
    have fits := received.fits
    dsimp only
    rw [received.contentLen_of_readOn readOn, List.length_drop]
    omega

/-- The requests of a connection up to the first one after which it is closed. -/
theorem processLoop_messages (up : network.Up rest)
    (serves : Serves rest served handleRequest reply) (messages : List Message) (last : Message)
    (kept : ∀ message ∈ messages,
      served message ∧ keptOpen enableKeepAlive message.head.info = true)
    (closed : served last ∧ keptOpen enableKeepAlive last.head.info = false) {fuel : ℕ}
    (enough : messages.length < fuel) (stale : ℕ → Str)
    (stream : conn.buf ++ rest conn.client = messages.flatMap Message.bytes ++ last.bytes ++ more)
    (room : conn.buf.length < maxRequestSize) :
    ∃ final, processLoop network enableKeepAlive handleRequest fuel stale conn =
        some ((messages ++ [last]).map fun message =>
          .handled (reply message.head.info message.body), final) ∧
      final.buf ++ rest final.client = more := by
  induction messages generalizing conn fuel stale with
  | nil =>
    obtain ⟨fuel, rfl⟩ := Nat.exists_eq_succ_of_ne_zero (Nat.ne_zero_of_lt enough)
    rw [List.flatMap_nil, List.nil_append] at stream
    obtain ⟨next, pass, behind, -⟩ :=
      processRequest_message up serves closed.1 stream room (stale 0)
    refine ⟨next, ?_, behind⟩
    rw [processLoop, pass, closed.2]
    rfl
  | cons message messages ih =>
    obtain ⟨fuel, rfl⟩ := Nat.exists_eq_succ_of_ne_zero (Nat.ne_zero_of_lt enough)
    rw [List.forall_mem_cons] at kept
    rw [List.flatMap_cons, List.append_assoc, List.append_assoc] at stream
    obtain ⟨next, pass, behind, space⟩ :=
      processRequest_message up serves kept.1.1 stream room (stale 0)
    obtain ⟨final, later, rest⟩ := ih kept.2 (Nat.lt_of_succ_lt_succ enough)
      (fun pass => stale (pass + 1)) (by rw [behind, List.append_assoc]) space
    refine ⟨final, ?_, rest⟩
    rw [processLoop, pass, kept.1.2]
    dsimp only
    rw [if_pos rfl, later]
    rfl

/-- The requests that a client sends on a connection are handled one after the other, each with
its own head and body, in whatever pieces they arrive; what follows the one that closes the
connection is left alone. -/
theorem processNewConnection_messages (up : network.Up rest)
    (serves : Serves rest served handleRequest reply) (messages : List Message) (last : Message)
    (kept : ∀ message ∈ messages,
      served message ∧ keptOpen enableKeepAlive message.head.info = true)
    (closed : served last ∧ keptOpen enableKeepAlive last.head.info = false) {fuel : ℕ}
    (enough : messages.length < fuel) (stale : ℕ → Str) (conn : Connection σ)
    (stream : rest conn.client = messages.flatMap Message.bytes ++ last.bytes ++ more) :
    ∃ final, processNewConnection network enableKeepAlive handleRequest fuel stale conn =
        some ((messages ++ [last]).map fun message =>
          .handled (reply message.head.info message.body), final) ∧
      final.buf ++ rest final.client = more :=
  processLoop_messages up serves messages last kept closed enough stale stream
    (show 0 < maxRequestSize by decide)

/-- Without `enable_keep_alive` there is only one pass. -/
theorem processNewConnection_eq (unset : enableKeepAlive ≠ .ofLiteral "yes") (conn : Connection σ)
    (stale : ℕ → Str) (fuel : ℕ) :
    processNewConnection network enableKeepAlive handleRequest (fuel + 1) stale conn =
      let pass := processRequest network enableKeepAlive handleRequest (stale 0)
        { conn with buf := [] }
      some ([pass.2.1], pass.1) := by
  have closed : (processRequest network enableKeepAlive handleRequest (stale 0)
      { conn with buf := [] }).2.2 = false := by
    rw [processRequest]
    simp [unset]
  rw [processNewConnection, processLoop]
  dsimp only
  rw [closed, if_neg Bool.false_ne_true]

/-- Without `enable_keep_alive` the first request is the only one. -/
theorem processNewConnection_unset (up : network.Up rest)
    (unset : enableKeepAlive ≠ .ofLiteral "yes") (conn : Connection σ)
    (stream : rest conn.client = message.bytes ++ more) (stale : ℕ → Str) (fuel : ℕ) :
    let received := (getreq network (stale 0) { conn with buf := [] }).1
    let handled := handleRequest received
    Received rest message more received ∧
      processNewConnection network enableKeepAlive handleRequest (fuel + 1) stale conn =
        some ([.handled handled.2],
          { handled.1 with buf := handled.1.buf.drop (discardLen handled.1) }) := by
  have whole : ({ conn with buf := [] } : Connection σ).buf ++ rest conn.client =
      message.bytes ++ more := stream
  have room : ([] : Str).length < maxRequestSize := by decide
  refine ⟨(getreq_message up whole room (stale 0)).2, ?_⟩
  rw [processNewConnection_eq unset, processRequest_eq up whole room]

/-- A handler that reads the body with one call of `mg_read`. -/
def collect (network : Network σ) (conn : Connection σ) : Connection σ × (RequestInfo × Str) :=
  let read := mgRead network conn conn.contentLen.toNat
  ({ read.2.2 with statusCode := 200 }, (conn.requestInfo, read.2.1))

/-- `mg_read` hands over the body in one call. -/
theorem mgRead_body (up : network.Up rest) (some : message.body ≠ [])
    (short : message.body.length < 2 ^ 31) (received : Received rest message more conn) :
    ReadOn rest conn message.body (mgRead network conn conn.contentLen.toNat).2.2 ∧
      (mgRead network conn conn.contentLen.toNat).2.1 = message.body := by
  have positive := List.length_pos_iff.mpr some
  have contentLen := received.contentLen
  have consumed := received.consumed
  have limit : allowed conn conn.contentLen.toNat = message.body.length := by
    rw [allowed, contentLen, consumed]
    omega
  rw [mgRead_eq (by omega) _ (by omega), limit]
  obtain ⟨readOn, within⟩ :=
    readOn_readTo up.reliable.inOrder up.running conn message.body.length
  have order := readOn.ahead
  rw [received.ahead] at order
  have lengths := congrArg List.length order
  simp only [List.length_append] at lengths
  have whole : (handedOver network conn message.body.length).length = message.body.length := by
    rcases (handedOver_eager up conn short).2 with all | ended
    · exact all
    · rw [ended, List.length_nil] at lengths
      omega
  have body : handedOver network conn message.body.length = message.body :=
    (List.append_inj_left order whole.symm).symm
  rw [body] at readOn
  exact ⟨readOn, body⟩

theorem serves_collect (up : network.Up rest) :
    Serves rest (fun message => message.body ≠ [] ∧ message.body.length < 2 ^ 31)
      (collect network) Prod.mk where
  readOn served received := (mgRead_body up served.1 served.2 received).1.answered 200
  authorized _ _ := show (200 : ℤ) ≠ 401 by decide
  answers served received := by
    rw [collect, (mgRead_body up served.1 served.2 received).2, received.requestInfo]

/-- Two requests in three pieces, of which the first one says that it is not the last. -/
theorem processNewConnection_queries :
    ∃ final, processNewConnection arriving (.ofLiteral "yes") (collect arriving) 2 (fun _ => [])
        (opened [query.bytes.take 20, query.bytes.drop 20 ++ lastQuery.bytes.take 9,
          lastQuery.bytes.drop 9]) =
        some (([query] ++ [lastQuery]).map fun message =>
          .handled (message.head.info, message.body), final) ∧
      final.buf ++ final.client.flatten = [] :=
  processNewConnection_messages up_arriving (serves_collect up_arriving) [query] lastQuery
    (by rw [List.forall_mem_singleton]; exact ⟨⟨by decide, by decide⟩, by decide⟩)
    ⟨⟨by decide, by decide⟩, by decide⟩ (by decide) _ _ (by decide)

end Handled

end Mongoose

end FlowRetrieval
