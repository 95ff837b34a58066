/-
# The way to the callback

`handle_request` decodes the URI of a request, in the buffer of the connection. A request may then
be redirected to a port with SSL, or be refused for want of a password. The callback gets the
others.

## Main results

* `Mongoose.Received.requestInfo_withUri` — the request that the callback is asked to handle
* `Mongoose.handleRequest_of_passes` — a request that passes the checks
-/
import FlowRetrieval.Mongoose.KeepAlive
import FlowRetrieval.Mongoose.Uri

namespace FlowRetrieval

open CS CS.HttpStream

namespace Mongoose

section Code

variable {σ α : Type}

/-- `ri->uri` as an offset in the buffer: the word behind the method. -/
def uriStart (buf : Str) (requestLen : ℕ) : ℕ :=
  let text := MgThreadHandler.cString (buf.set (requestLen - 1) 0)
  text.length - (skip (text.dropWhile Cstdlib.isspace) (.ofLiteral " ")).2.length

/-- The buffer with the zeros of `parse_http_message` at the ends of the head and of the URI. -/
def uriBuffer (buf : Str) (requestLen : ℕ) (uri : Str) : ByteMemory maxRequestSize :=
  .ofList ((buf.set (requestLen - 1) 0).set (uriStart buf requestLen + uri.length) 0)

/-- What `handle_request` begins with. -/
def Connection.withUri (conn : Connection σ) : Connection σ :=
  let start := uriStart conn.buf conn.requestLen.toNat
  let buffer := uriBuffer conn.buf conn.requestLen.toNat conn.requestInfo.uri
  { conn with requestInfo.uri := (decodeUri buffer start).2.string start }

/-- `is_put_or_delete_request`. -/
def isPutOrDeleteRequest (conn : Connection σ) : Bool :=
  let method := conn.requestInfo.requestMethod
  method = .ofLiteral "PUT" || method = .ofLiteral "DELETE" || method = .ofLiteral "MKCOL"

/-- What is asked for in front of the callback, and the replies of mongoose; the answers depend on
the listening ports and on the password files. -/
structure Checks (σ : Type) where
  sslRedir : Connection σ → Bool
  checkAuthorization : Connection σ → Bool
  redirectToHttpsPort : Connection σ → Connection σ
  sendAuthorizationRequest : Connection σ → Connection σ

/-- What `handle_request` does with a request. -/
inductive Handling (α : Type)
  | redirected
  | unauthorized
  | served (reply : α)

/-- `handle_request`, where `callback` is the call of `begin_request` with what comes behind it. -/
def handleRequest (checks : Checks σ) (callback : Connection σ → Connection σ × α)
    (conn : Connection σ) : Connection σ × Handling α :=
  let conn := conn.withUri
  if checks.sslRedir conn then (checks.redirectToHttpsPort conn, .redirected)
  else if !isPutOrDeleteRequest conn && !checks.checkAuthorization conn then
    (checks.sendAuthorizationRequest conn, .unauthorized)
  else
    let (conn, reply) := callback conn
    (conn, .served reply)

end Code

section Passing

variable {σ α : Type}

/-- A request is neither redirected nor refused. -/
structure Checks.Passes (checks : Checks σ) (conn : Connection σ) : Prop where
  direct : checks.sslRedir conn = false
  authorized : isPutOrDeleteRequest conn = true ∨ checks.checkAuthorization conn = true

/-- A server with one port and without password files. -/
def Checks.unprotected : Checks σ := ⟨fun _ => false, fun _ => true, id, id⟩

theorem Checks.passes_unprotected (conn : Connection σ) : unprotected.Passes conn :=
  ⟨rfl, Or.inr rfl⟩

theorem handleRequest_of_passes {checks : Checks σ} {conn : Connection σ}
    (passes : checks.Passes conn.withUri) (callback : Connection σ → Connection σ × α) :
    handleRequest checks callback conn =
      ((callback conn.withUri).1, .served (callback conn.withUri).2) := by
  have passed : ¬ (!isPutOrDeleteRequest conn.withUri &&
      !checks.checkAuthorization conn.withUri) = true := by
    rcases passes.authorized with upload | known
    · simp [upload]
    · simp [known]
  rw [handleRequest]
  dsimp only
  rw [passes.direct, if_neg Bool.false_ne_true, if_neg passed]

end Passing

section Uri

variable {σ : Type} {rest : σ → Str} {message : Message} {more : Str} {conn : Connection σ}

namespace Head

variable (head : Head)

/-- What the callback is to know of a head. -/
def handled : RequestInfo := { head.info with uri := uriOf (pathOf head.target) }

theorem uriStart_bytes (behind : Str) :
    uriStart (head.bytes ++ behind) head.bytes.length = head.method.length + 1 := by
  rw [uriStart, cString_set, dropWhile_dropLast_bytes, skip_dropLast_bytes, dropLast_bytes]
  simp only [List.length_append, List.length_cons, List.length_nil]
  omega

theorem target_lt_length : head.method.length + 1 + head.target.length < head.bytes.length := by
  have within := congrArg List.length head.dropLast_bytes
  simp only [List.length_append, List.length_cons, List.length_nil, List.length_dropLast]
    at within
  omega

theorem string_uriBuffer (behind : Str) (fits : head.bytes.length ≤ maxRequestSize) :
    (uriBuffer (head.bytes ++ behind) head.bytes.length head.target).string
      (head.method.length + 1) = head.target := by
  have plain : 0 ∉ head.target := head.plainTarget.notMem (by decide)
  have length : (head.method ++ [32]).length = head.method.length + 1 := List.length_append ..
  have within := head.target_lt_length
  have split : head.bytes.dropLast ++ 0 :: behind = (head.method ++ [32]) ++ head.target ++
      32 :: (head.behindTarget ++ 0 :: behind) := by
    rw [dropLast_bytes]
    simp
  have zeros : ((head.bytes ++ behind).set (head.bytes.length - 1) 0).set
      (head.method.length + 1 + head.target.length) 0 =
        (head.method ++ [32]) ++ head.target ++ 0 :: (head.behindTarget ++ 0 :: behind) := by
    rw [set_bytes, split, ← length, ← List.length_append, List.set_append_right _ _ le_rfl,
      Nat.sub_self, List.set_cons_zero]
  rw [uriBuffer, uriStart_bytes, zeros, ← length]
  exact ByteMemory.string_ofList plain (by omega)

end Head

/-- The callback sees the decoded URI of a request, and the rest of the head as it was sent. -/
theorem Received.requestInfo_withUri (received : Received rest message more conn) :
    conn.withUri.requestInfo = message.head.handled := by
  obtain ⟨behind, split⟩ := received.headed
  have text := message.head.string_uriBuffer behind message.short
  have short := message.head.target_lt_length.trans_le message.short
  have uri : conn.requestInfo.uri = message.head.target := by rw [received.requestInfo, Head.info]
  rw [Connection.withUri, received.requestLen, Int.toNat_natCast, ← split,
    message.head.uriStart_bytes, uri]
  dsimp only
  rw [(handled_decodeUri _ _ text short).string, received.requestInfo, Head.handled]

end Uri

end Mongoose

end FlowRetrieval
