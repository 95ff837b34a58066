/-
# The head of a request

mongoose looks for the end of the head in what it has received, ends the head with a zero byte
and cuts it into its words in place. The end that it finds stays the end when more bytes
arrive, and the words of a head that was written by the rules are the words it was written
with.

## Main results

* `Mongoose.getRequestLen_append` — a verdict on the first bytes is one on all
* `Mongoose.Head.parseHttpMessage_bytes` — a head is read back, whatever is behind it
-/
import FlowRetrieval.Service.MgThreadHandler

namespace FlowRetrieval

open CS.HttpStream

namespace Mongoose

/-- `isprint` in the C locale. -/
def isprint (c : UInt8) : Bool := 32 ≤ c && c ≤ 126

/-- The scan of `get_request_len` from the byte at `offset` on. -/
def requestLenFrom (offset : ℕ) : Str → ℤ
  | c :: next :: rest =>
    if !isprint c && c ≠ 13 && c ≠ 10 && c < 128 then -1
    else if c = 10 ∧ next = 10 then offset + 2
    else if c = 10 ∧ next = 13 ∧ rest.head? = some 10 then offset + 3
    else requestLenFrom (offset + 1) (next :: rest)
  -- the last byte of the buffer is not looked at
  | _ => 0

/-- `get_request_len`: the length of the head, zero when its end is missing, or -1. -/
def getRequestLen (buf : Str) : ℤ := requestLenFrom 0 buf

/-- `skip_quoted` without a quote character: the word before a delimiter and the buffer behind
the delimiter and the white space after it. -/
def skipQuoted (buf delimiters whitespace : Str) : Str × Str :=
  let word := buf.takeWhile fun c => c ∉ delimiters
  (word, ((buf.drop word.length).tail.dropWhile fun c => c ∈ whitespace))

/-- `skip`. -/
def skip (buf delimiters : Str) : Str × Str := skipQuoted buf delimiters delimiters

/-- `mg_header`. -/
structure Header where
  name : Str
  value : Str
  deriving DecidableEq

/-- The part of `mg_request_info` that comes from the head; `httpVersion` is the one that is
looked at before there is any. -/
structure RequestInfo where
  requestMethod : Str
  uri : Str
  httpVersion : Option Str
  httpHeaders : List Header
  deriving DecidableEq

/-- `ARRAY_SIZE(ri->http_headers)`. -/
def maxHeaders : ℕ := 64

/-- `parse_http_headers`: the headers up to `num_headers`. -/
def parseHttpHeaders : ℕ → Str → List Header
  | 0, _ => []
  | room + 1, buf =>
    let (name, buf) := skipQuoted buf (.ofLiteral ":") (.ofLiteral " ")
    let (value, buf) := skip buf crlf
    if name = [] then [] else ⟨name, value⟩ :: parseHttpHeaders room buf

/-- `is_valid_http_method`. -/
def isValidHttpMethod (method : Str) : Bool :=
  method = .ofLiteral "GET" || method = .ofLiteral "POST" || method = .ofLiteral "HEAD" ||
    method = .ofLiteral "CONNECT" || method = .ofLiteral "PUT" || method = .ofLiteral "DELETE" ||
    method = .ofLiteral "OPTIONS" || method = .ofLiteral "PROPFIND" || method = .ofLiteral "MKCOL"

/-- `parse_http_message`: the length of the head or what is wrong, and the words of it. -/
def parseHttpMessage (buf : Str) (ri : RequestInfo) : ℤ × RequestInfo :=
  let requestLength := getRequestLen buf
  if 0 < requestLength then
    let text := MgThreadHandler.cString (buf.set (requestLength.toNat - 1) 0)
    let text := text.dropWhile Cstdlib.isspace
    let (requestMethod, text) := skip text (.ofLiteral " ")
    let (uri, text) := skip text (.ofLiteral " ")
    let (httpVersion, text) := skip text crlf
    let isRequest := isValidHttpMethod requestMethod
    if isRequest && !version.isPrefixOf httpVersion ||
        !isRequest && !version.isPrefixOf requestMethod then
      (-1, ⟨requestMethod, uri, some httpVersion, []⟩)
    else
      (requestLength, ⟨requestMethod, uri,
        some (if isRequest then httpVersion.drop 5 else httpVersion),
        parseHttpHeaders maxHeaders text⟩)
  else (requestLength, ri)

/-- `lowercase`, which is `tolower` in the C locale. -/
def lowercase (c : UInt8) : UInt8 := if 65 ≤ c ∧ c ≤ 90 then c + 32 else c

/-- `mg_strcasecmp`; a string ends where its list does. -/
def mgStrcasecmp : Str → Str → ℤ
  | [], [] => 0
  | [], d :: _ => 0 - (lowercase d).toNat
  | c :: _, [] => (lowercase c).toNat
  | c :: first, d :: second =>
    let diff : ℤ := (lowercase c).toNat - (lowercase d).toNat
    if diff = 0 then mgStrcasecmp first second else diff

/-- `get_header`. -/
def getHeader (ri : RequestInfo) (name : Str) : Option Str :=
  (ri.httpHeaders.find? fun header => mgStrcasecmp name header.name = 0).map Header.value

section Scan

theorem requestLenFrom_append (first behind : Str) (offset : ℕ)
    (decided : requestLenFrom offset first ≠ 0) :
    requestLenFrom offset (first ++ behind) = requestLenFrom offset first := by
  fun_induction requestLenFrom offset first with
  | case1 offset c next rest bad =>
    rw [List.cons_append, List.cons_append, requestLenFrom, if_pos bad]
  | case2 offset c next rest bad double =>
    rw [List.cons_append, List.cons_append, requestLenFrom, if_neg bad, if_pos double]
  | case3 offset c next rest bad double ends =>
    have here : (rest ++ behind).head? = some 10 := by
      rw [List.head?_append, ends.2.2, Option.some_or]
    rw [List.cons_append, List.cons_append, requestLenFrom, if_neg bad, if_neg double,
      if_pos ⟨ends.1, ends.2.1, here⟩]
  | case4 offset c next rest bad double goesOn ih =>
    have later := ih decided
    cases rest with
    | nil => exact absurd rfl decided
    | cons third rest =>
      rw [List.cons_append, List.cons_append, requestLenFrom, if_neg bad, if_neg double,
        List.cons_append, if_neg (by simpa using goesOn)]
      exact later
  | case5 => exact absurd rfl decided

/-- Once the end of the head is found, or a byte that may not be there, more bytes change
nothing. -/
theorem getRequestLen_append (first behind : Str) (decided : getRequestLen first ≠ 0) :
    getRequestLen (first ++ behind) = getRequestLen first :=
  requestLenFrom_append first behind 0 decided

theorem requestLenFrom_le (buf : Str) (offset : ℕ) :
    requestLenFrom offset buf ≤ offset + buf.length := by
  fun_induction requestLenFrom offset buf with
  | case1 => omega
  | case2 => simp only [List.length_cons]; omega
  | case3 offset c next rest bad double ends =>
    have : rest ≠ [] := fun none => by rw [none] at ends; cases ends.2.2
    have := List.length_pos_iff.mpr this
    simp only [List.length_cons]
    omega
  | case4 offset c next rest bad double goesOn ih =>
    simp only [List.length_cons] at ih ⊢
    omega
  | case5 => omega

theorem getRequestLen_le (buf : Str) : getRequestLen buf ≤ buf.length := by
  have := requestLenFrom_le buf 0
  rwa [Nat.cast_zero, Int.zero_add] at this

theorem getRequestLen_cases (buf : Str) : getRequestLen buf = -1 ∨ 0 ≤ getRequestLen buf := by
  rw [getRequestLen]
  generalize 0 = offset
  fun_induction requestLenFrom offset buf with
  | case1 => exact Or.inl rfl
  | case2 => right; omega
  | case3 => right; omega
  | case4 offset c next rest bad double goesOn ih => exact ih
  | case5 => exact Or.inr le_rfl

/-- Text without control characters. -/
def Plain (text : Str) : Prop := ∀ c ∈ text, isprint c ∨ 128 ≤ c

instance (text : Str) : Decidable (Plain text) :=
  List.decidableBAll (fun c => isprint c ∨ 128 ≤ c) text

theorem Plain.notMem {text : Str} (plain : Plain text) {c : UInt8} (control : c < 32) :
    c ∉ text := by
  intro member
  have here := plain c member
  rw [isprint, Bool.and_eq_true, decide_eq_true_eq, decide_eq_true_eq] at here
  simp only [UInt8.le_iff_toNat_le, UInt8.lt_iff_toNat_lt, UInt8.reduceToNat] at here control
  omega

theorem requestLenFrom_plain {text : Str} (plain : Plain text) {tail : Str} (more : tail ≠ [])
    (offset : ℕ) :
    requestLenFrom offset (text ++ tail) = requestLenFrom (offset + text.length) tail := by
  induction text generalizing offset with
  | nil => rfl
  | cons c text ih =>
    have good : ¬ (!isprint c && c ≠ 13 && c ≠ 10 && c < 128) = true := by
      have here := plain c (List.mem_cons_self ..)
      rcases here with prints | high
      · simp [prints]
      · simp [UInt8.not_lt.mpr high]
    have other : c ≠ 10 := fun same =>
      plain.notMem (show (10 : UInt8) < 32 by decide) (same ▸ List.mem_cons_self ..)
    obtain ⟨next, rest, split⟩ : ∃ next rest, text ++ tail = next :: rest :=
      List.exists_cons_of_ne_nil (List.append_ne_nil_of_right_ne_nil _ more)
    have later := ih (fun d member => plain d (List.mem_cons_of_mem _ member)) (offset + 1)
    rw [split] at later
    rw [List.cons_append, split, requestLenFrom, if_neg good, if_neg fun here => other here.1,
      if_neg fun here => other here.1, later, List.length_cons, Nat.add_assoc,
      Nat.add_comm 1]

/-- Lines of a head: none of them is empty or has control characters. -/
def PlainLines (lines : List Str) : Prop := ∀ line ∈ lines, line ≠ [] ∧ Plain line

theorem requestLenFrom_cr (offset : ℕ) (rest : Str) :
    requestLenFrom offset (13 :: 10 :: rest) = requestLenFrom (offset + 1) (10 :: rest) := by
  rw [requestLenFrom, if_neg (by decide), if_neg (by decide),
    if_neg fun ends => absurd ends.1 (by decide)]

theorem requestLenFrom_lf (offset : ℕ) {c : UInt8} (rest : Str) (printed : c ≠ 10 ∧ c ≠ 13) :
    requestLenFrom offset (10 :: c :: rest) = requestLenFrom (offset + 1) (c :: rest) := by
  rw [requestLenFrom, if_neg (by decide), if_neg fun ends => printed.1 ends.2,
    if_neg fun ends => printed.2 ends.2.1]

theorem fieldBytes_cons (line : Str) (lines : List Str) (rest : Str) :
    fieldBytes (line :: lines) ++ rest = line ++ 13 :: 10 :: (fieldBytes lines ++ rest) := by
  simp [fieldBytes, crlf]

theorem requestLenFrom_fieldBytes {line : Str} {lines : List Str}
    (plain : PlainLines (line :: lines)) (rest : Str) (offset : ℕ) :
    requestLenFrom offset (fieldBytes (line :: lines) ++ rest) =
      offset + (fieldBytes (line :: lines)).length := by
  induction lines generalizing line offset with
  | nil =>
    rw [fieldBytes_cons, requestLenFrom_plain (plain line (List.mem_cons_self ..)).2
      (List.cons_ne_nil _ _), requestLenFrom_cr]
    change requestLenFrom _ (10 :: 13 :: 10 :: rest) = _
    rw [requestLenFrom, if_neg (by decide), if_neg (by decide), if_pos ⟨rfl, rfl, rfl⟩]
    simp only [fieldBytes, crlf, List.flatMap_cons, List.flatMap_nil, List.length_append,
      List.length_cons, List.length_nil]
    omega
  | cons next lines ih =>
    rw [PlainLines, List.forall_mem_cons] at plain
    have later := ih plain.2 (offset + line.length + 2)
    obtain ⟨some, nextPlain⟩ := plain.2 next (List.mem_cons_self ..)
    obtain ⟨c, word, rfl⟩ := List.exists_cons_of_ne_nil some
    have printed : c ≠ 10 ∧ c ≠ 13 := by
      constructor <;> rintro rfl <;>
        exact nextPlain.notMem (by decide) (List.mem_cons_self ..)
    rw [fieldBytes_cons, requestLenFrom_plain plain.1.2 (List.cons_ne_nil _ _),
      requestLenFrom_cr, fieldBytes_cons, List.cons_append, requestLenFrom_lf _ _ printed,
      ← List.cons_append, ← fieldBytes_cons, later]
    simp only [fieldBytes, crlf, List.flatMap_cons, List.length_append, List.length_cons,
      List.length_nil]
    omega

end Scan

section Words

theorem skipQuoted_append {word delimiters whitespace : Str} {delimiter : UInt8}
    (blanks rest : Str) (inside : ∀ c ∈ word, c ∉ delimiters) (ends : delimiter ∈ delimiters)
    (blank : ∀ c ∈ blanks, c ∈ whitespace) (boundary : ∀ c, rest.head? = some c → c ∉ whitespace) :
    skipQuoted (word ++ delimiter :: (blanks ++ rest)) delimiters whitespace = (word, rest) := by
  have wordEq : (word ++ delimiter :: (blanks ++ rest)).takeWhile (fun c => c ∉ delimiters) =
      word := by
    rw [List.takeWhile_append_of_pos (by simpa using inside),
      List.takeWhile_cons_of_neg (by simpa using ends), List.append_nil]
  rw [skipQuoted, wordEq]
  rw [List.drop_left, List.tail_cons, List.dropWhile_append_of_pos (by simpa using blank)]
  cases rest with
  | nil => rfl
  | cons c rest => rw [List.dropWhile_cons_of_neg (by simpa using boundary c rfl)]

/-- A header field whose name and value can be told apart on its line. -/
structure Header.Plain (field : Header) : Prop where
  named : field.name ≠ []
  noColon : 58 ∉ field.name
  name : Mongoose.Plain field.name
  value : Mongoose.Plain field.value
  noBlank : field.value.head? ≠ some 32

/-- A header field on a line. -/
def Header.line (field : Header) : Str := field.name ++ 58 :: 32 :: field.value

theorem Header.Plain.line {field : Header} (plain : field.Plain) :
    field.line ≠ [] ∧ Mongoose.Plain field.line := by
  refine ⟨List.append_ne_nil_of_left_ne_nil plain.named _, fun c member => ?_⟩
  rw [Header.line, List.mem_append, List.mem_cons, List.mem_cons] at member
  rcases member with inName | rfl | rfl | inValue
  · exact plain.name c inName
  · exact Or.inl rfl
  · exact Or.inl rfl
  · exact plain.value c inValue

/-- What is left of the fields for `parse_http_headers`: the zero that ends the head stands in
the place of the last line feed. -/
def unread (fields : List Header) : Str :=
  if fields = [] then [] else (fieldBytes (fields.map Header.line)).dropLast

theorem dropLast_fieldBytes (line : Str) (lines : List Str) :
    (fieldBytes (line :: lines)).dropLast = line ++ 13 :: 10 :: (fieldBytes lines).dropLast := by
  have some : fieldBytes lines ≠ [] := by simp [fieldBytes, crlf]
  rw [← List.append_nil (fieldBytes (line :: lines)), fieldBytes_cons, List.append_nil,
    List.dropLast_append_of_ne_nil (List.cons_ne_nil _ _), List.dropLast_cons_of_ne_nil
      (List.cons_ne_nil _ _), List.dropLast_cons_of_ne_nil some]

/-- Behind the last word of a line `parse_http_message` comes to the next field. -/
theorem skip_line {word : Str} (plain : Mongoose.Plain word) {fields : List Header}
    (plains : ∀ field ∈ fields, field.Plain) :
    skip (word ++ 13 :: 10 :: (fieldBytes (fields.map Header.line)).dropLast) crlf =
      (word, unread fields) := by
  have inside : ∀ c ∈ word, c ∉ crlf := by
    intro c member ends
    rw [crlf, List.mem_cons, List.mem_singleton] at ends
    rcases ends with rfl | rfl <;> exact plain.notMem (by decide) member
  cases fields with
  | nil =>
    -- the end of the head is taken for white space
    exact skipQuoted_append [10, 13] [] inside (List.mem_cons_self ..)
      (fun c blank => by simpa [crlf, or_comm] using blank) fun c none => by cases none
  | cons field fields =>
    obtain ⟨c, rest, name⟩ :=
      List.exists_cons_of_ne_nil (plains field (List.mem_cons_self ..)).named
    have split : unread (field :: fields) = c :: (rest ++ 58 :: 32 :: field.value ++ 13 :: 10 ::
        (fieldBytes (fields.map Header.line)).dropLast) := by
      rw [unread, if_neg (List.cons_ne_nil _ _), List.map_cons, dropLast_fieldBytes, Header.line,
        name]
      simp
    have here : (fieldBytes ((field :: fields).map Header.line)).dropLast =
        unread (field :: fields) := by
      rw [unread, if_neg (List.cons_ne_nil _ _)]
    rw [here]
    refine skipQuoted_append [10] (unread (field :: fields)) inside (List.mem_cons_self ..)
      (fun c blank => List.mem_cons_of_mem _ blank) ?_
    intro d first ends
    rw [split, List.head?_cons, Option.some.injEq] at first
    have printed := (plains field (List.mem_cons_self ..)).name
    rw [name] at printed
    rw [crlf, List.mem_cons, List.mem_singleton] at ends
    subst first
    rcases ends with rfl | rfl <;> exact printed.notMem (by decide) (List.mem_cons_self ..)

/-- As many fields are read back as there is room for. -/
theorem parseHttpHeaders_unread {fields : List Header} (plains : ∀ field ∈ fields, field.Plain)
    (room : ℕ) : parseHttpHeaders room (unread fields) = fields.take room := by
  induction room generalizing fields with
  | zero => rfl
  | succ room ih =>
    cases fields with
    | nil => rfl
    | cons field fields =>
      rw [List.forall_mem_cons] at plains
      have name : skipQuoted (unread (field :: fields)) (.ofLiteral ":") (.ofLiteral " ") =
          (field.name, field.value ++ 13 :: 10 ::
            (fieldBytes (fields.map Header.line)).dropLast) := by
        have split : unread (field :: fields) = field.name ++ 58 :: ([32] ++ (field.value ++
            13 :: 10 :: (fieldBytes (fields.map Header.line)).dropLast)) := by
          rw [unread, if_neg (List.cons_ne_nil _ _), List.map_cons, dropLast_fieldBytes,
            Header.line]
          simp
        rw [split]
        refine skipQuoted_append [32] _ (fun c member colon => ?_) (List.mem_cons_self ..)
          (fun c blank => blank) fun c first blank => ?_
        · rw [show Str.ofLiteral ":" = [58] from rfl, List.mem_singleton] at colon
          exact plains.1.noColon (colon ▸ member)
        · rw [show Str.ofLiteral " " = [32] from rfl, List.mem_singleton] at blank
          subst blank
          rw [List.head?_append] at first
          cases value : field.value.head? with
          | none =>
            rw [value, Option.none_or, List.head?_cons] at first
            exact absurd first (by decide)
          | some d =>
            rw [value, Option.some_or] at first
            exact plains.1.noBlank (value.trans first)
      rw [parseHttpHeaders, name]
      dsimp only
      rw [skip_line plains.1.value plains.2]
      dsimp only
      rw [if_neg plains.1.named, ih plains.2, List.take_succ_cons]

end Words

section Heads

/-- A head that keeps the rules: a method that is known, a target without blanks, a version and
fields. -/
structure Head where
  method : Str
  target : Str
  number : Str
  fields : List Header
  known : isValidHttpMethod method
  named : target ≠ []
  noBlank : 32 ∉ target
  plainTarget : Plain target
  plainNumber : Plain number
  plainFields : ∀ field ∈ fields, field.Plain

namespace Head

variable (head : Head)

/-- The request line. -/
def line : Str := head.method ++ 32 :: (head.target ++ 32 :: (version ++ head.number))

/-- The head as it is sent. -/
def bytes : Str := fieldBytes (head.line :: head.fields.map Header.line)

/-- What the server is to know of it: it keeps the first 64 fields. -/
def info : RequestInfo :=
  ⟨head.method, head.target, some head.number, head.fields.take maxHeaders⟩

theorem method_cases {method : Str} (known : isValidHttpMethod method) :
    Plain method ∧ 32 ∉ method ∧ ∃ c rest, method = c :: rest ∧ Cstdlib.isspace c = false := by
  simp only [isValidHttpMethod, Bool.or_eq_true, decide_eq_true_eq] at known
  rcases known with (((((((rfl | rfl) | rfl) | rfl) | rfl) | rfl) | rfl) | rfl) | rfl <;>
    exact ⟨by decide, by decide, _, _, rfl, rfl⟩

theorem plain_line : head.line ≠ [] ∧ Plain head.line := by
  obtain ⟨method, -, c, rest, split, -⟩ := method_cases head.known
  refine ⟨by simp [line, split], fun d member => ?_⟩
  have printed : Plain version := by decide
  simp only [line, List.mem_append, List.mem_cons] at member
  rcases member with inMethod | rfl | inTarget | rfl | inVersion | inNumber
  · exact method d inMethod
  · exact Or.inl rfl
  · exact head.plainTarget d inTarget
  · exact Or.inl rfl
  · exact printed d inVersion
  · exact head.plainNumber d inNumber

theorem plainLines : PlainLines (head.line :: head.fields.map Header.line) := by
  rw [PlainLines, List.forall_mem_cons]
  refine ⟨head.plain_line, fun line member => ?_⟩
  obtain ⟨field, inside, rfl⟩ := List.mem_map.mp member
  exact (head.plainFields field inside).line

/-- The end of the head is found where it is, whatever follows. -/
theorem getRequestLen_bytes (behind : Str) :
    getRequestLen (head.bytes ++ behind) = head.bytes.length := by
  rw [getRequestLen, bytes, requestLenFrom_fieldBytes head.plainLines, Nat.cast_zero,
    Int.zero_add]

theorem zero_notMem_fieldBytes {lines : List Str} (plain : PlainLines lines) :
    (0 : UInt8) ∉ fieldBytes lines := by
  rw [fieldBytes, List.mem_append, List.mem_flatMap, not_or]
  refine ⟨?_, by decide⟩
  rintro ⟨line, member, zero⟩
  rcases List.mem_append.mp zero with inLine | inEnd
  · exact (plain line member).2.notMem (by decide) inLine
  · exact absurd inEnd (by decide)

theorem bytes_ne_nil : head.bytes ≠ [] := by simp [bytes, fieldBytes, crlf]

/-- The last byte of a head becomes a zero. -/
theorem set_bytes (behind : Str) :
    (head.bytes ++ behind).set (head.bytes.length - 1) 0 = head.bytes.dropLast ++ 0 :: behind := by
  have some := head.bytes_ne_nil
  conv_lhs => rw [← List.dropLast_append_getLast some]
  rw [List.append_assoc, List.length_append, List.length_dropLast, List.length_singleton,
    List.set_append_right _ _ (by rw [List.length_dropLast]; omega), List.length_dropLast,
    Nat.add_sub_cancel, Nat.sub_self, List.singleton_append, List.set_cons_zero]

/-- The buffer as a string then. -/
theorem cString_set (behind : Str) :
    MgThreadHandler.cString ((head.bytes ++ behind).set (head.bytes.length - 1) 0) =
      head.bytes.dropLast := by
  have plain := zero_notMem_fieldBytes head.plainLines
  have clean : ∀ c ∈ head.bytes.dropLast, decide (c ≠ 0) = true := by
    intro c member
    refine decide_eq_true fun zero => plain ?_
    rw [← zero]
    exact List.dropLast_subset _ member
  rw [set_bytes, MgThreadHandler.cString, List.takeWhile_append_of_pos clean,
    List.takeWhile_cons_of_neg (by decide), List.append_nil]

/-- What follows the target and the space behind it. -/
def behindTarget : Str :=
  (version ++ head.number) ++ 13 :: 10 :: (fieldBytes (head.fields.map Header.line)).dropLast

/-- The text of a head begins with its method. -/
theorem dropLast_bytes : head.bytes.dropLast =
    head.method ++ 32 :: ([] ++ (head.target ++ 32 :: ([] ++ head.behindTarget))) := by
  rw [bytes, dropLast_fieldBytes, line, behindTarget]
  simp

theorem dropWhile_dropLast_bytes :
    head.bytes.dropLast.dropWhile Cstdlib.isspace = head.bytes.dropLast := by
  obtain ⟨-, -, c, rest, split, letter⟩ := method_cases head.known
  rw [dropLast_bytes, split, List.cons_append, List.dropWhile_cons_of_neg (by simp [letter])]

theorem notMem_blank {word : Str} (whole : (32 : UInt8) ∉ word) :
    ∀ c ∈ word, c ∉ Str.ofLiteral " " := by
  intro d member here
  rw [show Str.ofLiteral " " = [32] from rfl, List.mem_singleton] at here
  exact whole (here ▸ member)

theorem skip_dropLast_bytes : skip head.bytes.dropLast (.ofLiteral " ") =
    (head.method, head.target ++ 32 :: ([] ++ head.behindTarget)) := by
  obtain ⟨-, unbroken, -⟩ := method_cases head.known
  rw [dropLast_bytes]
  refine skipQuoted_append [] _ (notMem_blank unbroken) (List.mem_cons_self ..)
    (fun c none => absurd none List.not_mem_nil) fun d first => notMem_blank head.noBlank d ?_
  rw [List.head?_append_of_ne_nil _ head.named] at first
  exact List.mem_of_mem_head? first

/-- The words of a head are read back, whatever stands behind it in the buffer. -/
theorem parseHttpMessage_bytes (behind : Str) (ri : RequestInfo) :
    parseHttpMessage (head.bytes ++ behind) ri = ((head.bytes.length : ℤ), head.info) := by
  have positive : 0 < getRequestLen (head.bytes ++ behind) := by
    rw [getRequestLen_bytes]
    exact Int.natCast_pos.mpr (List.length_pos_iff.mpr head.bytes_ne_nil)
  have target : skip (head.target ++ 32 :: ([] ++ head.behindTarget)) (.ofLiteral " ") =
      (head.target, head.behindTarget) := by
    refine skipQuoted_append [] _ (notMem_blank head.noBlank) (List.mem_cons_self ..)
      (fun c none => absurd none List.not_mem_nil) fun d first => ?_
    obtain rfl : (72 : UInt8) = d := Option.some.inj first
    decide
  have plainVersion : Plain (version ++ head.number) := by
    intro d member
    rcases List.mem_append.mp member with inVersion | inNumber
    · exact (by decide : Plain version) d inVersion
    · exact head.plainNumber d inNumber
  have prefixed : version.isPrefixOf (version ++ head.number) = true :=
    List.isPrefixOf_iff_prefix.mpr (List.prefix_append _ _)
  rw [parseHttpMessage, if_pos positive, getRequestLen_bytes, Int.toNat_natCast, cString_set]
  dsimp only
  rw [dropWhile_dropLast_bytes, skip_dropLast_bytes]
  dsimp only
  rw [target]
  dsimp only
  rw [behindTarget, skip_line plainVersion head.plainFields]
  dsimp only
  rw [head.known, prefixed, if_neg (by simp), if_pos rfl,
    parseHttpHeaders_unread head.plainFields]
  rfl

end Head

/-- The head of a request with two bytes of body. -/
def queryHead : Head where
  method := .ofLiteral "POST"
  target := .ofLiteral "/"
  number := .ofLiteral "1.1"
  fields := [⟨.ofLiteral "Content-Length", .ofLiteral "2"⟩]
  known := by decide
  named := by decide
  noBlank := by decide
  plainTarget := by decide
  plainNumber := by decide
  plainFields := by
    rw [List.forall_mem_singleton]
    exact ⟨by decide, by decide, by decide, by decide, by decide⟩

/-- It stands in front of its body. -/
theorem parseHttpMessage_queryHead :
    parseHttpMessage (queryHead.bytes ++ .ofLiteral "{}") ⟨[], [], none, []⟩ =
      ((queryHead.bytes.length : ℤ), queryHead.info) :=
  queryHead.parseHttpMessage_bytes (.ofLiteral "{}") ⟨[], [], none, []⟩

end Heads

end Mongoose

end FlowRetrieval
