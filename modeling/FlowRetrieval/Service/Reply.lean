/-
# From the bytes of a client to the bytes that it gets

`handle_request` has `begin_request` print its response. As that returns zero, mongoose then prints
a reply of its own, and without `enable_keep_alive` it closes the connection. A request that
cannot be read gets an error message instead. All this goes over one socket, in pieces in both
directions.

## Main results

* `Mongoose.processNewConnection_client` — what the client of a request gets and reads
* `Mongoose.processNewConnection_refused` — a client whose bytes are refused reads one message
-/
import FlowRetrieval.Mongoose.Output
import FlowRetrieval.Service.Wire

namespace FlowRetrieval

open CS CS.HttpStream

namespace Mongoose

section Socket

variable {σ : Type}

/-- The socket of a client, the clock, and the stop flag of the server. -/
structure Socket (σ : Type) extends ByteSource σ, ByteSink σ where
  time : σ → ℤ × σ
  sleep : σ → σ
  stopFlag : σ → Bool

variable (socket : Socket σ) (malloc : Heap) (mem : {mem : Str // mem.length = mgBufLen})

/-- What is called to write. -/
def Socket.outside : Outside σ where
  toByteSink := socket.toByteSink
  time := socket.time
  sleep := socket.sleep
  stopFlag s := (socket.stopFlag s, s)

/-- What is called for a client when the option `throttle` is not set. -/
def Socket.network : Network σ where
  toByteSource := socket.toByteSource
  stopFlag := socket.stopFlag
  mgPrintf text s := (mgPrintf socket.outside malloc mem ⟨0, 0, 0⟩ text s).2.2

/-- The client sends `rest` and keeps reading, and the server is not stopped. -/
structure Socket.Open (socket : Socket σ) (rest arrived : σ → Str) : Prop where
  source : socket.toByteSource.Reliable rest
  sink : socket.toByteSink.Reliable arrived
  recv : ∀ s len, arrived (socket.recv s len).2 = arrived s
  time : ∀ s, arrived (socket.time s).2 = arrived s
  sleep : ∀ s, arrived (socket.sleep s) = arrived s
  running : ∀ s, socket.stopFlag s = false

variable {socket malloc mem} {rest arrived : σ → Str}

theorem Socket.Open.up (client : socket.Open rest arrived) : (socket.network malloc mem).Up rest :=
  ⟨client.source, client.running⟩

theorem Socket.Open.steady (client : socket.Open rest arrived) :
    socket.outside.Steady arrived where
  inOrder := client.sink.inOrder
  time := client.time
  sleep := client.sleep
  stopFlag _ := rfl
  takes := client.sink.takes
  runs := client.running

theorem Socket.Open.mgPrintf (client : socket.Open rest arrived) {text : Str}
    (fits : text.length < intMax)
    (room : mgBufLen < text.length → (malloc (text.length + 1)).isSome) (s : σ) :
    arrived ((socket.network malloc mem).mgPrintf text s) = arrived s ++ printed text :=
  mgPrintf_arrived client.steady (le_max_right _ _) s fits room

/-- A short text arrives as it is. -/
theorem Socket.Open.mgPrintf_short (client : socket.Open rest arrived) {text : Str}
    (short : text.length < mgBufLen) (s : σ) :
    arrived ((socket.network malloc mem).mgPrintf text s) = arrived s ++ text := by
  have fits : text.length < intMax := short.trans (by decide)
  rw [client.mgPrintf fits (fun long => absurd short long.not_gt), printed, if_neg short.ne]

/-- A client whose bytes arrive in pieces, and who takes some bytes at a time. -/
def talking : Socket (List Str × (Str × List ℕ) × ℤ) where
  recv s len := ((ByteSource.pieces.recv s.1 len).1, (ByteSource.pieces.recv s.1 len).2, s.2)
  send s bytes := ((patient.send s.2 bytes).1, s.1, (patient.send s.2 bytes).2)
  time s := (s.2.2, s)
  sleep s := (s.1, patient.sleep s.2)
  stopFlag _ := false

theorem open_talking : talking.Open (fun s => s.1.flatten) fun s => s.2.1.1 where
  source :=
    { inOrder := fun s len => ByteSource.inOrder_pieces s.1 len
      works := fun s len => ByteSource.reliable_pieces.works s.1 len
      eager := fun s len => ByteSource.reliable_pieces.eager s.1 len }
  sink :=
    { inOrder := fun s bytes => steady_patient.inOrder s.2 bytes
      takes := fun s bytes => steady_patient.takes s.2 bytes }
  recv _ _ := rfl
  time _ := rfl
  sleep _ := rfl
  running _ := rfl

end Socket

section Reading

variable {σ : Type} {network : Network σ} {arrived : σ → Str}
  (recv : ∀ s len, arrived (network.recv s len).2 = arrived s)

include recv

theorem pull_unwritten (s : σ) (len : ℕ) : arrived (pull network s len).2 = arrived s := recv s len

theorem pullAll_unwritten (s : σ) (len : ℕ) :
    arrived (pullAll network s len).2.2 = arrived s := by
  have pulled := pull_unwritten recv
  fun_induction pullAll network s len with
  | case1 s len goes s' call => simpa only [call] using pulled s len
  | case2 s len goes bytes s' call nothing => simpa only [call] using pulled s len
  | case3 s len goes bytes s' call some failed more s'' later ih =>
    rw [later] at ih
    exact ih.trans (by simpa only [call] using pulled s len)
  | case4 => rfl

theorem readRequestFrom_unwritten (buf : Str) (s : σ) (n : ℤ) :
    arrived (readRequestFrom network buf s n).2.2 = arrived s := by
  have pulled := pull_unwritten recv
  fun_induction readRequestFrom network buf s n with
  | case1 buf s n requestLen goes s' call =>
    simpa only [call] using pulled s (maxRequestSize - buf.length)
  | case2 buf s n requestLen goes bytes s' call nothing =>
    simpa only [call] using pulled s (maxRequestSize - buf.length)
  | case3 buf s n requestLen goes bytes s' call some ih =>
    exact ih.trans (by simpa only [call] using pulled s (maxRequestSize - buf.length))
  | case4 => rfl

theorem getreq_unwritten (stale : Str) (conn : Connection σ) :
    arrived (getreq network stale conn).1.client = arrived conn.client := by
  have read := readRequestFrom_unwritten recv conn.buf conn.client 0
  rw [getreq]
  dsimp only [resetPerRequestAttributes]
  split_ifs <;> exact read

theorem mgRead_unwritten (conn : Connection σ) (len : ℕ) :
    arrived (mgRead network conn len).2.2.client = arrived conn.client := by
  have same : conn.endless.client = conn.client := by
    rw [Connection.endless]
    split <;> rfl
  rw [mgRead]
  dsimp only
  split
  · exact (pullAll_unwritten recv _ _).trans (congrArg arrived same)
  · exact congrArg arrived same

omit recv in
theorem requestInfo_mgRead (network : Network σ) (conn : Connection σ) (len : ℕ) :
    (mgRead network conn len).2.2.requestInfo = conn.requestInfo := by
  rw [mgRead, Connection.endless]
  dsimp only
  split_ifs <;> rfl

end Reading

section Refused

variable {σ α : Type} {network : Network σ} {enableKeepAlive : Str} {conn : Connection σ}
  {status : ℕ} {reason message : Str}

/-- What `send_http_error` is called with. -/
structure ShortError (status : ℕ) (reason message : Str) : Prop where
  plain : 13 ∉ reason
  length_reason : reason.length < 100
  length_message : message.length < 100
  status : status < 1000

theorem ShortError.length_errorText (short : ShortError status reason message) :
    (errorText status reason message).length < 1000 := by
  have number := length_decimal_le short.status three_pos
  have reason := short.length_reason
  have message := short.length_message
  have first : (Str.ofLiteral "Error ").length = 6 := rfl
  have second : (Str.ofLiteral ": ").length = 2 := rfl
  have third : (Str.ofLiteral "\n").length = 1 := rfl
  simp only [errorText, List.length_append]
  omega

/-- The statuses and reasons of the errors in front of `handle_request`. -/
def reasons : List (ℕ × Str) :=
  [(500, .ofLiteral "Server Error"), (400, .ofLiteral "Bad Request"),
    (505, .ofLiteral "Bad HTTP version")]

theorem shortError_of_mem (member : (status, reason) ∈ reasons) (short : message.length < 100) :
    ShortError status reason message := by
  simp only [reasons, List.mem_cons, Prod.mk.injEq, List.not_mem_nil, or_false] at member
  rcases member with ⟨rfl, rfl⟩ | ⟨rfl, rfl⟩ | ⟨rfl, rfl⟩
  all_goals exact ⟨by decide, by decide, short, by decide⟩

/-- The start line of an error. -/
def errorStart (status : ℕ) (reason : Str) : Str :=
  .ofLiteral "HTTP/1.1 " ++ decimal status ++ .ofLiteral " " ++ reason

/-- The header fields of an error. -/
def errorFields (len : ℕ) (connection : Str) : List Str :=
  [.ofLiteral "Content-Length: " ++ decimal len, .ofLiteral "Connection: " ++ connection]

theorem errorHead_append (status : ℕ) (reason : Str) (len : ℕ) (connection tail : Str) :
    errorHead status reason len connection ++ tail =
      errorStart status reason ++ (crlf ++ (fieldBytes (errorFields len connection) ++ tail)) := by
  have first : Str.ofLiteral "\r\nContent-Length: " = crlf ++ .ofLiteral "Content-Length: " := rfl
  have second : Str.ofLiteral "\r\nConnection: " = crlf ++ .ofLiteral "Connection: " := rfl
  have last : Str.ofLiteral "\r\n\r\n" = crlf ++ crlf := rfl
  simp [errorHead, errorStart, errorFields, fieldBytes, first, second, last]

theorem suggestConnectionHeader_cases (enableKeepAlive : Str) (conn : Connection σ) :
    suggestConnectionHeader enableKeepAlive conn = .ofLiteral "keep-alive" ∨
      suggestConnectionHeader enableKeepAlive conn = .ofLiteral "close" := by
  rw [suggestConnectionHeader]
  split
  · exact Or.inl rfl
  · exact Or.inr rfl

theorem length_errorHead (short : ShortError status reason message) (conn : Connection σ) :
    (errorHead status reason (errorText status reason message).length
      (suggestConnectionHeader enableKeepAlive conn)).length < mgBufLen := by
  have number := length_decimal_le short.status three_pos
  have length := length_decimal_le short.length_errorText three_pos
  have reason := short.length_reason
  have first : (Str.ofLiteral "HTTP/1.1 ").length = 9 := rfl
  have second : (Str.ofLiteral " ").length = 1 := rfl
  have third : (Str.ofLiteral "\r\nContent-Length: ").length = 18 := rfl
  have fourth : (Str.ofLiteral "\r\nConnection: ").length = 14 := rfl
  have last : (Str.ofLiteral "\r\n\r\n").length = 4 := rfl
  have connection : (suggestConnectionHeader enableKeepAlive conn).length ≤ 10 := by
    rcases suggestConnectionHeader_cases enableKeepAlive conn with same | same <;>
      rw [same] <;> decide
  simp only [errorHead, List.length_append, mgBufLen]
  omega

/-- A text behind the head of an error is a message, whatever comes behind it. -/
theorem readMessage_errorHead (status : ℕ) (plain : 13 ∉ reason) {connection : Str}
    (header : connection = .ofLiteral "keep-alive" ∨ connection = .ofLiteral "close")
    (text rest : Str) :
    readMessage (errorHead status reason text.length connection ++ (text ++ rest)) =
      some (text, rest) := by
  have start : 13 ∉ errorStart status reason := by
    simp only [errorStart, List.mem_append, not_or]
    exact ⟨⟨⟨by decide, notMem_decimal (by decide) _⟩, by decide⟩, plain⟩
  have fields : ∀ field ∈ errorFields text.length connection, field ≠ [] ∧ 13 ∉ field := by
    rw [errorFields, List.forall_mem_cons, List.forall_mem_singleton]
    refine ⟨⟨List.append_ne_nil_of_left_ne_nil (by decide) _, ?_⟩,
      List.append_ne_nil_of_left_ne_nil (by decide) _, ?_⟩
    · rw [List.mem_append, not_or]
      exact ⟨by decide, notMem_decimal (by decide) _⟩
    · rcases header with rfl | rfl <;> decide
  have length : contentLength (Str.ofLiteral "Content-Length: " ++ decimal text.length) =
    some text.length := contentLength_append _
  have given : (errorFields text.length connection).findSome? contentLength =
      some text.length := by
    rw [errorFields, List.findSome?_cons, length]
  rw [errorHead_append, readMessage_append (by rfl) start fields given,
    if_neg (by rw [List.length_append]; omega), List.take_left, List.drop_left]

/-- An error is one message with its text. -/
theorem readMessages_sendHttpError (short : ShortError status reason message)
    (conn : Connection σ) :
    readMessages 1 (sendHttpError network enableKeepAlive conn status reason message).2 =
      some ([errorText status reason message], []) := by
  have whole (conn : Connection σ) := readMessage_errorHead status short.plain
    (suggestConnectionHeader_cases enableKeepAlive conn) (errorText status reason message) []
  rw [List.append_nil] at whole
  rw [readMessages, sendHttpError]
  dsimp only
  rw [whole]
  rfl

theorem length_ebufOf_lt (text : Str) : (ebufOf text).length < 100 := by
  rw [ebufOf, List.length_take]
  omega

/-- What stops a request in front of `handle_request` is an error for the client, with one of
three reasons. -/
theorem check_cases (enableKeepAlive : Str) (conn : Connection σ) {ebuf : Str}
    (short : ebuf.length < 100) :
    check network enableKeepAlive conn ebuf = (conn, none) ∨
      ∃ status reason message, (status, reason) ∈ reasons ∧ message.length < 100 ∧
        (check network enableKeepAlive conn ebuf).1.client =
          (sendHttpError network enableKeepAlive conn status reason message).1.client ∧
        (check network enableKeepAlive conn ebuf).2 =
          some (sendHttpError network enableKeepAlive conn status reason message).2 := by
  rw [check]
  dsimp only
  split_ifs
  · exact Or.inr ⟨500, _, ebuf, .head _, short, rfl, rfl⟩
  · exact Or.inr ⟨400, _, _, .tail _ (.head _), length_ebufOf_lt _, rfl, rfl⟩
  · exact Or.inr ⟨505, _, _, .tail _ (.tail _ (.head _)), length_ebufOf_lt _, rfl, rfl⟩
  · exact Or.inl rfl

theorem length_getreq_lt (network : Network σ) (stale : Str) (conn : Connection σ) :
    (getreq network stale conn).2.length < 100 := by
  rw [getreq]
  dsimp only
  split_ifs
  · exact length_ebufOf_lt _
  · exact length_ebufOf_lt _
  · exact length_ebufOf_lt _
  · exact Nat.zero_lt_succ 99

/-- A request that a pass refuses has not passed the checks. -/
theorem check_of_refused {handleRequest : Connection σ → Connection σ × α} {stale written : Str}
    {next : Connection σ} {keepAlive : Bool}
    (refused : processRequest network enableKeepAlive handleRequest stale conn =
      (next, .refused written, keepAlive)) :
    let got := getreq network stale conn
    (check network enableKeepAlive got.1 got.2).2 = some written ∧
      (check network enableKeepAlive got.1 got.2).1.client = next.client := by
  rw [processRequest] at refused
  dsimp only at refused ⊢
  generalize check network enableKeepAlive (getreq network stale conn).1
    (getreq network stale conn).2 = checked at refused ⊢
  obtain ⟨conn', refusal⟩ := checked
  cases refusal with
  | none => cases refused
  | some text =>
    cases refused
    exact ⟨rfl, rfl⟩

end Refused

section Closed

variable {σ α : Type} {socket : Socket σ} {malloc : Heap}
  {mem : {mem : Str // mem.length = mgBufLen}} {rest arrived : σ → Str} {enableKeepAlive : Str}
  {handleRequest : Connection σ → Connection σ × α}

theorem Socket.Open.sendHttpError (client : socket.Open rest arrived) {status : ℕ}
    {reason message : Str} (short : ShortError status reason message) (conn : Connection σ) :
    let error := sendHttpError (socket.network malloc mem) enableKeepAlive conn status reason
      message
    arrived error.1.client = arrived conn.client ++ error.2 := by
  have body : (errorText status reason message).length < mgBufLen :=
    short.length_errorText.trans (by decide)
  rw [Mongoose.sendHttpError]
  dsimp only
  rw [client.mgPrintf_short body, client.mgPrintf_short (length_errorHead short _),
    List.append_assoc]

/-- Whatever bytes a client sends: there is one pass, and if it refuses them, what the client gets
is one message with the text of an error. -/
theorem processNewConnection_refused (client : socket.Open rest arrived)
    (unset : enableKeepAlive ≠ .ofLiteral "yes") (conn : Connection σ)
    (unwritten : arrived conn.client = []) (stale : ℕ → Str) (fuel : ℕ) :
    ∃ outcome final, processNewConnection (socket.network malloc mem) enableKeepAlive handleRequest
        (fuel + 1) stale conn = some ([outcome], final) ∧
      ∀ written, outcome = .refused written → arrived final.client = written ∧
        ∃ status reason message, (status, reason) ∈ reasons ∧
          readMessages 1 written = some ([errorText status reason message], []) := by
  have recv (s : σ) (len : ℕ) : arrived ((socket.network malloc mem).recv s len).2 = arrived s :=
    client.recv s len
  have read := getreq_unwritten recv (stale 0) { conn with buf := [] }
  refine ⟨_, _, processNewConnection_eq unset conn stale fuel, fun written refused => ?_⟩
  generalize pass : processRequest (socket.network malloc mem) enableKeepAlive handleRequest
    (stale 0) { conn with buf := [] } = result at refused ⊢
  obtain ⟨next, outcome, keepAlive⟩ := result
  obtain rfl : outcome = .refused written := refused
  obtain ⟨error, gets⟩ := check_of_refused pass
  rcases check_cases enableKeepAlive _ (length_getreq_lt (socket.network malloc mem) (stale 0)
    { conn with buf := [] }) with passed | ⟨status, reason, message, member, cut, gets', error'⟩
  · rw [passed] at error
    cases error
  · have short := shortError_of_mem member cut
    obtain rfl := Option.some.inj (error'.symm.trans error)
    refine ⟨?_, status, reason, message, member, readMessages_sendHttpError short _⟩
    dsimp only
    rw [← gets, gets', client.sendHttpError short, read, unwritten, List.nil_append]

/-- One byte, which is not a request. -/
theorem processNewConnection_noRequest :
    ∃ outcome final, processNewConnection (talking.network (fun _ => none) zeroed)
        (.ofLiteral "no") (fun conn => (conn, ())) 1 (fun _ => [])
        (opened ([[120]], ([], [0]), 7)) = some ([outcome], final) ∧
      ∀ written, outcome = .refused written → (fun s => s.2.1.1) final.client = written ∧
        ∃ status reason message, (status, reason) ∈ reasons ∧
          readMessages 1 written = some ([errorText status reason message], []) :=
  processNewConnection_refused open_talking (by decide) (opened ([[120]], ([], [0]), 7)) rfl _ 0

end Closed

section Handled

open MgThreadHandler RequestHandler

variable {σ R : Type} [Double R] (network : Network σ) (lib : DoubleLib R) (mg : Library)
  (self : RequestHandler R) (memory : SharedMemory R) (heap : HeapWords) (enableKeepAlive : Str)

/-- What `send_options` prints. -/
def optionsText : Str :=
  .ofLiteral "HTTP/1.1 200 OK\r\nAllow: GET, POST, HEAD, CONNECT, PUT, DELETE, " ++
    .ofLiteral "OPTIONS, PROPFIND, MKCOL\r\nDAV: 1\r\n\r\n"

/-- What happens to a connection once the response is known: `begin_request` prints it, and
`handle_request` goes on when a zero is returned. No `document_root` is set. -/
def reply (answer : ℤ × RequestHandler R × Response) (conn : Connection σ) : Connection σ :=
  let conn := { conn with client := network.mgPrintf answer.2.2.bytes conn.client }
  if answer.1 ≠ 0 then conn
  else if conn.requestInfo.requestMethod = .ofLiteral "OPTIONS" then
    { conn with statusCode := 200, client := network.mgPrintf optionsText conn.client }
  else
    (sendHttpError network enableKeepAlive conn 404 (.ofLiteral "Not Found")
      (.ofLiteral "Not Found")).1

/-- `handle_request` with the callback of the service. -/
def handleQuery (checks : Checks σ) :
    Connection σ → Connection σ × Handling (Option (ℤ × RequestHandler R × Response)) :=
  handleRequest checks (callback network lib mg self memory heap (reply network enableKeepAlive))

/-- What mongoose prints behind the response. -/
def ownReply (method : Str) : Str :=
  if method = .ofLiteral "OPTIONS" then optionsText
  else
    let text := errorText 404 (.ofLiteral "Not Found") (.ofLiteral "Not Found")
    errorHead 404 (.ofLiteral "Not Found") text.length (.ofLiteral "close") ++ text

variable {network lib mg self memory heap} {arrived : σ → Str}

/-- Reading changes neither what is known of the request nor what the client has. -/
theorem readLoopConn_unwritten (recv : ∀ s len, arrived (network.recv s len).2 = arrived s)
    {fuel : ℕ} {conn conn' : Connection σ} {bufBeg : ℕ} {bufSize : Int32}
    {buffer buffer' : TracedMemory requestBufferSize}
    (done : readLoopConn (mgRead network) fuel conn bufBeg bufSize buffer =
      some (conn', buffer')) :
    conn'.requestInfo = conn.requestInfo ∧ arrived conn'.client = arrived conn.client := by
  induction fuel generalizing conn bufBeg bufSize buffer with
  | zero => cases done
  | succ fuel ih =>
    have info := requestInfo_mgRead network conn (sizeT bufSize)
    have kept := mgRead_unwritten recv conn (sizeT bufSize)
    rw [readLoopConn] at done
    dsimp only at done
    split_ifs at done with more
    · obtain ⟨info', kept'⟩ := ih done
      exact ⟨info'.trans info, kept'.trans kept⟩
    · cases done
      exact ⟨info, kept⟩

theorem beginRequestOn_unwritten (recv : ∀ s len, arrived (network.recv s len).2 = arrived s)
    {conn conn' : Connection σ} {answer : ℤ × RequestHandler R × Response}
    (done : beginRequestOn network lib mg self memory heap conn = some (conn', answer)) :
    conn'.requestInfo = conn.requestInfo ∧ arrived conn'.client = arrived conn.client := by
  rw [beginRequestOn] at done
  dsimp only at done
  split_ifs at done with get
  · cases done
    exact ⟨rfl, rfl⟩
  · obtain ⟨⟨conn'', buffer⟩, read, answered⟩ := Option.bind_eq_some_iff.mp done
    obtain ⟨_, _, same⟩ := Option.map_eq_some_iff.mp answered
    cases same
    exact readLoopConn_unwritten recv read

/-- A printed response has its line feed or a NUL at the end. -/
theorem printed_bytes (response : Response) :
    ∃ c, printed response.bytes = response.statusLine ++ (crlf ++ (fieldBytes response.fields ++
      (cString response.json ++ [c]))) := by
  have whole := bytes_append response []
  rw [List.append_nil] at whole
  rw [printed]
  split
  · refine ⟨0, ?_⟩
    rw [whole]
    simp only [← List.append_assoc, List.dropLast_concat]
  · exact ⟨10, whole⟩

variable {socket : Socket σ} {malloc : Heap} {mem : {mem : Str // mem.length = mgBufLen}}
  {rest : σ → Str}

theorem suggestConnectionHeader_no (conn : Connection σ) :
    suggestConnectionHeader (.ofLiteral "no") conn = .ofLiteral "close" := by
  have off : mgStrcasecmp (.ofLiteral "no") (.ofLiteral "yes") ≠ 0 := by decide
  rw [suggestConnectionHeader, if_neg (by simp [shouldKeepAlive, off])]

omit [Double R] in
theorem requestInfo_reply (answer : ℤ × RequestHandler R × Response) (conn : Connection σ) :
    (reply network enableKeepAlive answer conn).requestInfo = conn.requestInfo := by
  rw [reply]
  dsimp only
  split_ifs <;> rfl

/-- What is printed to the client of a request that comes to the callback. -/
theorem callback_client (client : socket.Open rest arrived) {conn : Connection σ}
    {answer : ℤ × RequestHandler R × Response}
    (begun : (beginRequestOn (socket.network malloc mem) lib mg self memory heap conn).map
      Prod.snd = some answer) (zero : answer.1 = 0) (fits : answer.2.2.bytes.length < intMax)
    (room : mgBufLen < answer.2.2.bytes.length →
      (malloc (answer.2.2.bytes.length + 1)).isSome) :
    let handled := callback (socket.network malloc mem) lib mg self memory heap
      (reply (socket.network malloc mem) (.ofLiteral "no")) conn
    handled.2 = some answer ∧ handled.1.requestInfo = conn.requestInfo ∧
      arrived handled.1.client = arrived conn.client ++
        (printed answer.2.2.bytes ++ ownReply conn.requestInfo.requestMethod) := by
  have recv (s : σ) (len : ℕ) : arrived ((socket.network malloc mem).recv s len).2 = arrived s :=
    client.recv s len
  have notFound : ShortError 404 (.ofLiteral "Not Found") (.ofLiteral "Not Found") :=
    ⟨by decide, by decide, by decide, by decide⟩
  obtain ⟨⟨conn', answer⟩, ran, rfl⟩ := Option.map_eq_some_iff.mp begun
  obtain ⟨info, kept⟩ := beginRequestOn_unwritten recv ran
  rw [callback, ran]
  refine ⟨rfl, (requestInfo_reply _ _ conn').trans info, ?_⟩
  dsimp only at zero ⊢
  rw [reply, if_neg (not_not_intro zero), info, ownReply]
  split
  · rw [client.mgPrintf_short (by decide), client.mgPrintf fits room, kept, List.append_assoc]
  · rw [client.sendHttpError notFound, client.mgPrintf fits room, kept, List.append_assoc,
      sendHttpError]
    dsimp only
    rw [suggestConnectionHeader_no]

/-- From the bytes of a request to the bytes that its client gets, both in whatever pieces, if the
request passes the checks in front of the callback: the response that `begin_request` gives for
the method and the body, and the reply of mongoose behind it. The request is handled with its
decoded URI, and the client reads the whole JSON text, whatever its length. -/
theorem processNewConnection_client (client : socket.Open rest arrived) (message : Message)
    (nonempty : message.body ≠ []) (short : message.body.length < 2 ^ 31) {more : Str}
    (conn : Connection σ) (stream : rest conn.client = message.bytes ++ more)
    (unwritten : arrived conn.client = []) {checks : Checks σ}
    (passes : ∀ conn : Connection σ, conn.requestInfo = message.head.handled → checks.Passes conn)
    {answer : ℤ × RequestHandler R × Response}
    (begun : beginRequest lib mg self memory heap ⟨message.head.method, message.body⟩ =
      some answer)
    (text : 0 ∉ answer.2.2.json) (fits : answer.2.2.bytes.length < intMax)
    (room : mgBufLen < answer.2.2.bytes.length →
      (malloc (answer.2.2.bytes.length + 1)).isSome) (stale : ℕ → Str) (fuel : ℕ) :
    ∃ final c, processNewConnection (socket.network malloc mem) (.ofLiteral "no")
        (handleQuery (socket.network malloc mem) lib mg self memory heap (.ofLiteral "no") checks)
        (fuel + 1) stale conn = some ([.handled (.served (some answer))], final) ∧
      final.requestInfo = message.head.handled ∧
      arrived final.client = printed answer.2.2.bytes ++ ownReply message.head.method ∧
      readMessage (arrived final.client) =
        some (answer.2.2.json, c :: ownReply message.head.method) := by
  have recv (s : σ) (len : ℕ) : arrived ((socket.network malloc mem).recv s len).2 = arrived s :=
    client.recv s len
  have up : (socket.network malloc mem).Up rest := client.up
  obtain ⟨received, done⟩ : _ ∧ processNewConnection (socket.network malloc mem) (.ofLiteral "no")
      (handleQuery (socket.network malloc mem) lib mg self memory heap (.ofLiteral "no") checks)
      (fuel + 1) stale conn = _ :=
    processNewConnection_unset up (by decide) conn stream stale fuel
  have read := getreq_unwritten recv (stale 0) { conn with buf := [] }
  generalize (getreq (socket.network malloc mem) (stale 0) { conn with buf := [] }).1 = conn'
    at received done read
  have uri := received.requestInfo_withUri
  obtain ⟨zero, plain⟩ := code_beginRequest begun
  obtain ⟨outcome, kept, gets⟩ := callback_client client
    ((beginRequestOn_eq up received nonempty short).trans begun) zero fits room
  have method : conn'.withUri.requestInfo.requestMethod = message.head.method := by
    rw [uri]
    rfl
  have nothing : arrived conn'.withUri.client = [] := read.trans unwritten
  rw [nothing, List.nil_append, method] at gets
  obtain ⟨c, bytes⟩ := printed_bytes answer.2.2
  have whole : cString answer.2.2.json = answer.2.2.json :=
    List.takeWhile_eq_self_iff.mpr fun byte member =>
      decide_eq_true fun zero => text (zero ▸ member)
  rw [handleQuery, handleRequest_of_passes (passes _ uri), outcome] at done
  refine ⟨_, c, done, kept.trans uri, gets, ?_⟩
  dsimp only
  rw [gets, bytes, whole]
  simp only [List.append_assoc, List.singleton_append]
  have enough := Nat.le_add_right answer.2.2.json.length (c :: ownReply message.head.method).length
  rw [← List.length_append] at enough
  rw [readMessage_fields plain, if_neg enough.not_gt, List.take_left, List.drop_left]

/-- The response to a body that is not JSON. -/
def errorResponse : Response := responseError plainLibrary (QueryParser.getErrMsg 1)

theorem zero_notMem_errorResponse : 0 ∉ errorResponse.json := fun member =>
  absurd (List.all_eq_true.mp
    (show errorResponse.json.all (fun c => c ≠ 0) = true from rfl) 0 member) (by decide)

set_option maxRecDepth 2000 in
theorem length_errorResponse : errorResponse.bytes.length = 119 := rfl

theorem beginRequest_query :
    beginRequest DoubleLib.integral plainLibrary blankHandler .fresh (fun _ _ => 0)
        ⟨query.head.method, query.body⟩ =
      some (0, MgThreadHandler.readRequest blankHandler query.body, errorResponse) := rfl

/-- A request in two pieces whose body is not JSON, and its client takes three bytes first. -/
theorem processNewConnection_queryClient :
    ∃ final c, processNewConnection (talking.network (fun _ => none) zeroed) (.ofLiteral "no")
        (handleQuery (talking.network (fun _ => none) zeroed) DoubleLib.integral plainLibrary
          blankHandler .fresh (fun _ _ => 0) (.ofLiteral "no") .unprotected) 1 (fun _ => [])
        (opened (queryInPieces, ([], [2]), 7)) =
          some ([.handled (.served (some (0, MgThreadHandler.readRequest blankHandler query.body,
            errorResponse)))], final) ∧
      final.requestInfo = query.head.handled ∧
      (fun s => s.2.1.1) final.client = printed errorResponse.bytes ++ ownReply query.head.method ∧
      readMessage ((fun s => s.2.1.1) final.client) =
        some (errorResponse.json, c :: ownReply query.head.method) :=
  processNewConnection_client open_talking query (by decide) (by decide)
    (opened (queryInPieces, ([], [2]), 7))
    (show queryInPieces.flatten = query.bytes ++ [] by decide) rfl
    (fun conn _ => Checks.passes_unprotected conn) beginRequest_query
    zero_notMem_errorResponse
    (show errorResponse.bytes.length < intMax by rw [length_errorResponse]; decide)
    (fun long => absurd long
      (show ¬ mgBufLen < errorResponse.bytes.length by rw [length_errorResponse]; decide)) _ 0

end Handled

end Mongoose

end FlowRetrieval
