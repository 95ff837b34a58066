/-
# Responses

`begin_request` prints one response for each request, with the length of the JSON text as its
`Content-Length`, and returns zero. The text is followed by a line feed that the length does
not count, and the zero tells mongoose to process the request itself and to send a reply of
its own. So a client finds the text of the first response, but neither the end of the stream
nor another message behind it.

## Main results

* `MgThreadHandler.readMessage_response` — what a client reads of a response
* `MgThreadHandler.framed_iff` — when a stream has one message for each request
-/
import Mathlib.Data.List.TakeWhile
import FlowRetrieval.CS.HttpStream
import FlowRetrieval.Service.QueryParser
import FlowRetrieval.Service.Retrieval

namespace FlowRetrieval

open CS CS.HttpStream RequestHandler

namespace MgThreadHandler

/-- A request: its method and the body that `mg_read` hands over. -/
structure Request where
  method : Str
  body : Str

/-- What is called on the way to a response: the query parser, the writer of JSON for a code
and a message, and what mongoose does with a request that it processes itself. -/
structure Library where
  parse : Str → ℕ × QueryData
  toStyledString : ℕ → Str → Str
  reply : Request → Str

/-- The arguments of `mg_printf`, the status line being a part of the format string. -/
structure Response where
  statusLine : Str
  json : Str

/-- The string at a `char` pointer to these bytes. -/
def cString (bytes : List UInt8) : Str := bytes.takeWhile fun c => c ≠ 0

/-- What `mg_printf` writes. -/
def Response.bytes (response : Response) : Str :=
  response.statusLine ++ .ofLiteral "\r\nContent-Type: text/plain\r\nContent-Length: " ++
    decimal response.json.length ++ .ofLiteral "\r\n\r\n" ++ cString response.json ++
    .ofLiteral "\n"

section Handler

variable {R : Type} [Double R] (lib : DoubleLib R) (mg : Library)

/-- `RESPONSE_ERROR`. -/
def responseError (err : Str) : Response :=
  ⟨.ofLiteral "HTTP/1.1 200 ", mg.toStyledString 404 err⟩

/-- The zeroed request buffer after the loop over `mg_read`, which takes what fits. -/
def readRequest (self : RequestHandler R) (body : Str) : RequestHandler R :=
  { self with
    requestBuf := (self.requestBuf.fill 0 0 requestBufferSize).sweep (fun _ k => body.getD k 0) 0
      (min body.length requestBufferSize) }

/-- The request buffer as a string. -/
def requestString (self : RequestHandler R) : Str :=
  cString ((List.range requestBufferSize).map self.requestBuf.load)

/-- `begin_request`: the return code, the handler and the response; `none` stands for `exit(1)`. -/
def beginRequest (self : RequestHandler R) (memory : SharedMemory R) (heap : HeapWords)
    (request : Request) : Option (ℤ × RequestHandler R × Response) :=
  if request.method = .ofLiteral "GET" then
    some (0, readRequest self [], responseError mg (.ofLiteral "not support HTTP GET method!"))
  else
    let self := readRequest self request.body
    let (returnCode, qd) := mg.parse (requestString self)
    if returnCode ≠ 0 then
      some (0, self, responseError mg (QueryParser.getErrMsg returnCode))
    else
      (self.process lib memory qd heap).map fun handler =>
        (0, handler, ⟨.ofLiteral "HTTP/1.1 200 OK", handler.getJsonResult⟩)

/-- `handle_request` of mongoose: a request is done when the callback returns non-zero. -/
def handleRequest (self : RequestHandler R) (memory : SharedMemory R) (heap : HeapWords)
    (request : Request) : Option (RequestHandler R × Response × Str) :=
  (beginRequest lib mg self memory heap request).map fun (code, handler, response) =>
    (handler, response,
      if code ≠ 0 then response.bytes else response.bytes ++ mg.reply request)

/-- The requests of one connection: the responses, and all that is written to the client. -/
def serve (self : RequestHandler R) :
    List (SharedMemory R × HeapWords × Request) → Option (List Response × Str)
  | [] => some ([], [])
  | (memory, heap, request) :: requests =>
    (handleRequest lib mg self memory heap request).bind fun (handler, response, bytes) =>
      (serve handler requests).map fun (responses, written) =>
        (response :: responses, bytes ++ written)

end Handler

/-- The client finds one message for each of this number of requests, with the whole text of
its response, and nothing behind the last one. -/
def Framed (count : ℕ) (responses : List Response) (written : Str) : Prop :=
  readMessages count written = some (responses.map Response.json, [])

section Stream

/-- The status lines of the source. -/
def Response.Plain (response : Response) : Prop :=
  response.statusLine = .ofLiteral "HTTP/1.1 200 " ∨
    response.statusLine = .ofLiteral "HTTP/1.1 200 OK"

variable {response : Response}

/-- The header fields. -/
def Response.fields (response : Response) : List Str :=
  [.ofLiteral "Content-Type: text/plain",
    .ofLiteral "Content-Length: " ++ decimal response.json.length]

theorem bytes_append (response : Response) (rest : Str) :
    response.bytes ++ rest = response.statusLine ++ (crlf ++ (fieldBytes response.fields ++
      (cString response.json ++ 10 :: rest))) := by
  have first : Str.ofLiteral "\r\nContent-Type: text/plain\r\nContent-Length: " =
      crlf ++ (.ofLiteral "Content-Type: text/plain" ++ (crlf ++
        .ofLiteral "Content-Length: ")) := rfl
  have second : Str.ofLiteral "\r\n\r\n" = crlf ++ crlf := rfl
  have last : Str.ofLiteral "\n" = [10] := rfl
  simp [Response.bytes, Response.fields, fieldBytes, first, second, last]

/-- Behind the head of a response a client takes as many bytes as the text has. -/
theorem readMessage_fields (plain : response.Plain) (tail : Str) :
    readMessage (response.statusLine ++ (crlf ++ (fieldBytes response.fields ++ tail))) =
      if tail.length < response.json.length then none
      else some (tail.take response.json.length, tail.drop response.json.length) := by
  apply readMessage_append
  · rcases plain with same | same <;> rw [same] <;> rfl
  · rcases plain with same | same <;> rw [same] <;> decide
  · have length : 13 ∉ Str.ofLiteral "Content-Length: " ++ decimal response.json.length := by
      rw [List.mem_append, not_or]
      exact ⟨by decide, notMem_decimal (by decide) _⟩
    rw [Response.fields, List.forall_mem_cons, List.forall_mem_singleton]
    exact ⟨by decide, List.append_ne_nil_of_left_ne_nil (by decide) _, length⟩
  · have other : contentLength (Str.ofLiteral "Content-Type: text/plain") = none := rfl
    rw [Response.fields, List.findSome?_cons, other, List.findSome?_singleton]
    exact contentLength_append response.json.length

theorem readMessage_response (plain : response.Plain) (rest : Str) :
    readMessage (response.bytes ++ rest) =
      if (cString response.json ++ 10 :: rest).length < response.json.length then none
      else some ((cString response.json ++ 10 :: rest).take response.json.length,
        (cString response.json ++ 10 :: rest).drop response.json.length) := by
  rw [bytes_append, readMessage_fields plain]

/-- No client finds whole texts and nothing else in a stream that begins with a response. -/
theorem not_framed_of_response (plain : response.Plain) (count : ℕ) (responses : List Response)
    (rest : Str) : ¬ Framed (count + 1) (response :: responses) (response.bytes ++ rest) := by
  intro framed
  rw [Framed, readMessages, readMessage_response plain] at framed
  split at framed
  · cases framed
  · simp only [Option.bind_eq_bind, Option.bind_some, Option.bind_eq_some_iff, List.map_cons,
      Option.pure_def, Option.some.injEq, Prod.mk.injEq, List.cons.injEq, Prod.exists] at framed
    obtain ⟨bodies, behind, later, ⟨whole, -⟩, rfl⟩ := framed
    have split : cString response.json ++ response.json.dropWhile (fun c => c ≠ 0) =
        response.json := List.takeWhile_append_dropWhile
    cases tail : response.json.dropWhile (fun c => c ≠ 0) with
    | nil =>
      -- the line feed is what the next message would begin with
      rw [tail, List.append_nil] at split
      rw [split, List.drop_left] at later
      cases count with
      | zero => simp [readMessages] at later
      | succ count => simp [readMessages, readMessage_eq_none (c := 10) (by decide)] at later
    | cons c more =>
      -- a text with a zero byte is cut there, and the line feed stands in its place
      have zero : c = 0 := by
        have first := List.head?_dropWhile_not (fun c => c ≠ 0) response.json
        rw [tail] at first
        simpa using first
      rw [tail] at split
      generalize cString response.json = text at split whole
      rw [← split, List.length_append, List.take_length_add_append, List.append_cancel_left_eq,
        List.length_cons, List.take_succ_cons] at whole
      obtain ⟨same, -⟩ := List.cons.inj whole
      exact absurd (same.trans zero) (by decide)

end Stream

section Serve

variable {R : Type} [Double R] {lib : DoubleLib R} {mg : Library} {self handler : RequestHandler R}
  {memory : SharedMemory R} {heap : HeapWords} {request : Request} {response : Response}

/-- Every path of `begin_request` returns zero, after a response with one of two status lines. -/
theorem code_beginRequest {code : ℤ}
    (done : beginRequest lib mg self memory heap request = some (code, handler, response)) :
    code = 0 ∧ response.Plain := by
  rw [beginRequest] at done
  split at done
  · obtain ⟨rfl, -, rfl⟩ := done
    exact ⟨rfl, .inl rfl⟩
  · dsimp only at done
    split at done
    · obtain ⟨rfl, -, rfl⟩ := done
      exact ⟨rfl, .inl rfl⟩
    · obtain ⟨_, -, pair⟩ := Option.map_eq_some_iff.mp done
      obtain ⟨rfl, -, rfl⟩ := pair
      exact ⟨rfl, .inr rfl⟩

/-- After the response of the first request follow the reply of mongoose and the rest. -/
theorem serve_cons {requests : List (SharedMemory R × HeapWords × Request)}
    {responses : List Response} {written : Str}
    (served : serve lib mg self ((memory, heap, request) :: requests) =
      some (responses, written)) :
    ∃ response others more, response.Plain ∧ responses = response :: others ∧
      written = response.bytes ++ (mg.reply request ++ more) := by
  obtain ⟨⟨handler, response, bytes⟩, handled, rest⟩ := Option.bind_eq_some_iff.mp served
  obtain ⟨⟨code, _, _⟩, begun, same⟩ := Option.map_eq_some_iff.mp handled
  obtain ⟨⟨others, more⟩, -, pair⟩ := Option.map_eq_some_iff.mp rest
  obtain ⟨rfl, plain⟩ := code_beginRequest begun
  obtain ⟨rfl, rfl, rfl⟩ := same
  obtain ⟨rfl, rfl⟩ := pair
  exact ⟨_, others, more, plain, rfl, List.append_assoc ..⟩

/-- A client finds one message for each request, with the text of its response and with nothing
left over, iff there is no request. -/
theorem framed_iff {requests : List (SharedMemory R × HeapWords × Request)}
    {responses : List Response} {written : Str}
    (served : serve lib mg self requests = some (responses, written)) :
    Framed requests.length responses written ↔ requests = [] := by
  cases requests with
  | nil =>
    obtain ⟨rfl, rfl⟩ := served
    exact iff_of_true rfl rfl
  | cons request requests =>
    obtain ⟨response, others, more, plain, rfl, rfl⟩ := serve_cons served
    exact iff_of_false (not_framed_of_response plain _ _ _) (List.cons_ne_nil _ _)

end Serve

section Single

/-- A `GET` request. -/
def getRequest : Request := ⟨.ofLiteral "GET", []⟩

/-- The texts for it: jsoncpp writes the members of an object in the order of their names, and
without a document root mongoose sends an error of its own. -/
def plainLibrary : Library where
  parse _ := (1, singleQuery [97])
  toStyledString code message := .ofLiteral "\x7b\n   \"code\" : " ++ decimal code ++
    .ofLiteral ",\n   \"message\" : \"" ++ message ++ .ofLiteral "\"\n\x7d\n"
  reply _ := .ofLiteral "HTTP/1.1 404 Not Found\r\nContent-Length: 30\r\n" ++
    .ofLiteral "Connection: close\r\n\r\nError 404: Not Found\nNot Found"

/-- A connection with this request. -/
def getRequests : List (SharedMemory ℚ × HeapWords × Request) :=
  [(.fresh, fun _ _ => 0, getRequest)]

/-- The response to it, for any writer of JSON. -/
def getResponse (mg : Library) : Response :=
  responseError mg (.ofLiteral "not support HTTP GET method!")

theorem serve_getRequests (mg : Library) :
    serve DoubleLib.integral mg blankHandler getRequests =
      some ([getResponse mg], (getResponse mg).bytes ++ mg.reply getRequest) := by
  have get : getRequest.method = .ofLiteral "GET" := rfl
  simp only [getRequests, serve, handleRequest, beginRequest, if_pos get, Option.map_some,
    Option.bind_some, ne_eq, not_true_eq_false, if_false, List.append_nil, getResponse]

theorem framed_single :
    Framed getRequests.length [getResponse plainLibrary]
        ((getResponse plainLibrary).bytes ++ plainLibrary.reply getRequest) ↔
      getRequests = [] :=
  framed_iff (serve_getRequests plainLibrary)

/-- The client of one `GET` request finds the text of the response, but a line feed and the
reply of mongoose behind it. -/
theorem not_framed_getRequests :
    serve DoubleLib.integral plainLibrary blankHandler getRequests =
        some ([getResponse plainLibrary],
          (getResponse plainLibrary).bytes ++ plainLibrary.reply getRequest) ∧
      readMessage ((getResponse plainLibrary).bytes ++ plainLibrary.reply getRequest) =
        some ((getResponse plainLibrary).json, 10 :: plainLibrary.reply getRequest) ∧
      ¬ Framed 1 [getResponse plainLibrary]
        ((getResponse plainLibrary).bytes ++ plainLibrary.reply getRequest) := by
  refine ⟨serve_getRequests plainLibrary, ?_, not_framed_of_response (.inl rfl) 0 [] _⟩
  have whole : cString (getResponse plainLibrary).json = (getResponse plainLibrary).json :=
    List.takeWhile_eq_self_iff.mpr (List.all_eq_true.mp rfl)
  rw [readMessage_response (.inl rfl), whole, if_neg (by simp), List.take_left, List.drop_left]

end Single

end MgThreadHandler

end FlowRetrieval
