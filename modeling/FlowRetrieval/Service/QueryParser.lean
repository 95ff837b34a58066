/-
# Query parsing

`QueryParser::Deserialize` checks the members of a JSON value one after the other and
returns the code of the first check that fails, with what it has decoded so far in
place. The accessors of the JSON library are a parameter.
-/
import FlowRetrieval.Service.RequestHandler

namespace FlowRetrieval

/-- The accessors of `Json::Value`, for a type `V` of JSON values. -/
structure JsonLib (V R : Type) where
  isObject : V → Bool
  /-- `operator[]`, a null value for a member that is not there. -/
  member : V → String → V
  isDouble : V → Bool
  asDouble : V → R
  isInt : V → Bool
  asInt : V → Int32
  isString : V → Bool
  asString : V → Str
  /-- The length of a string value and its terminator is an `unsigned int`. -/
  length_asString : ∀ value, (asString value).length + 1 < 2 ^ 32

/-- A JSON value: a null value, a number, a string or an object with its members. -/
inductive JsonValue
  | null
  | int (number : Int32)
  | real (number : ℚ)
  | string (text : Str)
  | object (members : List (String × JsonValue))

/-- The accessors of such a value; a string is cut where its length would not fit. -/
def JsonValue.lib : JsonLib JsonValue ℚ where
  isObject | .object _ => true | _ => false
  member value name :=
    match value with
    | .object members => ((members.find? fun entry => entry.1 = name).map Prod.snd).getD .null
    | _ => .null
  isDouble | .real _ => true | _ => false
  asDouble | .real number => number | _ => 0
  isInt | .int _ => true | _ => false
  asInt | .int number => number | _ => 0
  isString | .string _ => true | _ => false
  asString | .string text => text.take (2 ^ 32 - 2) | _ => []
  length_asString value := by
    cases value with
    | string text =>
      have cut := List.length_take_le (2 ^ 32 - 2) text
      simp only
      omega
    | _ => simp

/-- `Clear` of the query data. -/
def QueryData.clear (_self : QueryData) : QueryData where
  price := 0
  bidType := 0
  advertType := 0
  platform := 0
  hours := []
  targetings := []
  psids := []

namespace QueryParser

/-- `ErrMsg`. -/
def errMsg : List Str :=
  [.ofLiteral "OK", .ofLiteral "json parse error", .ofLiteral "object type error",
    .ofLiteral "bidPrice error", .ofLiteral "bidType error", .ofLiteral "schemaType error",
    .ofLiteral "launchTime error", .ofLiteral "launchTime length error",
    .ofLiteral "launchTime value error", .ofLiteral "adposIdList error",
    .ofLiteral "orientation error", .ofLiteral "bidPrice value error",
    .ofLiteral "advertType error"]

/-- `GetErrMsg`. -/
def getErrMsg (errCode : ℕ) : Str := errMsg.getD errCode []

/-- `HOURS_PER_DAY`. -/
def hoursPerDay : ℕ := 24

/-- The platform that a schema type names. -/
def platformOf (schemaType : Str) : Int32 :=
  let platform := StringExt.toUpper schemaType
  if platform = .ofLiteral "MOBUNION" then 2 else if platform = .ofLiteral "WAP" then 1 else 0

/-- The loop over the characters of the launch time from index `i` on: the return code
and the hours after it. -/
def readHours : Str → UInt32 → List UInt32 → ℤ × List UInt32
  | [], _, hours => (0, hours)
  | c :: rest, i, hours =>
    if c = 49 then readHours rest (i + 1) (hours ++ [i])
    else if c ≠ 48 then (8, hours)
    else readHours rest (i + 1) hours

/-- The ids of a group, when the number that `Split` returns for them is not zero. -/
def readIds (ids : Str) : Option (List (List Str)) := do
  let array ← StringExt.splitCall ids 44
  if UInt32.ofNat array.length ≠ 0 then return [array] else return []

/-- What one group of the orientation adds, from its fields between colons: the ids in
its second field, or else the ones in its first field. -/
def readGroup (fields : List Str) : Option (List (List Str)) := do
  match fields with
  | [] => return []
  | [first] => readIds first
  | first :: second :: _ =>
    let group ← readIds second
    if group.isEmpty then readIds first else return group

/-- The groups of the orientation. -/
def readGroups : List (List Str) → Option (List (List Str))
  | [] => some []
  | fields :: rest => do
    let group ← readGroup fields
    let groups ← readGroups rest
    return group ++ groups

/-- An hour as the stream prints it, with a width of two and zeros as the fill. -/
def formatHour (hour : UInt32) : Str :=
  let digits := (Nat.toDigits 10 hour.toNat).map fun c => UInt8.ofNat c.toNat
  List.replicate (2 - digits.length) 48 ++ digits

section Deserialize

variable {V R : Type} [Double R] (json : JsonLib V R) (value : V)

/-- `Deserialize`: the code it returns and the query data it leaves; `none` when it does
not return. -/
def deserialize (qd : QueryData) : Option (ℤ × QueryData) := do
  let mut qd := qd.clear
  if !json.isObject value then return (2, qd)
  let mut iter := json.member value "bidPrice"
  if !json.isDouble iter then return (3, qd)
  qd := { qd with price := Double.toInt32 (json.asDouble iter) }
  if qd.price < 0 then return (11, qd)
  iter := json.member value "bidType"
  if !json.isInt iter then return (4, qd)
  qd := { qd with bidType := json.asInt iter }
  iter := json.member value "advertType"
  if !json.isInt iter then return (12, qd)
  qd := { qd with advertType := json.asInt iter }
  iter := json.member value "schemaType"
  if !json.isString iter then return (5, qd)
  qd := { qd with platform := platformOf (json.asString iter) }
  iter := json.member value "launchTime"
  if !json.isString iter then return (6, qd)
  let buffer := json.asString iter
  if buffer.length ≠ hoursPerDay then return (7, qd)
  let (code, hours) := readHours buffer 0 []
  qd := { qd with hours := hours }
  if code ≠ 0 then return (code, qd)
  iter := json.member value "adposIdList"
  if !json.isString iter then return (9, qd)
  let array ← StringExt.splitCall (json.asString iter) 44
  qd := { qd with psids := array.filter fun psid => !psid.isEmpty }
  iter := json.member value "orientation"
  if !json.isString iter then return (10, qd)
  let multiArray ← StringExt.split2Call (json.asString iter) 124 58
  let groups ← readGroups multiArray
  qd := { qd with targetings := groups }
  -- the hours are one more group, unless there are none
  let names := qd.hours.map formatHour
  if !names.isEmpty then
    qd := { qd with targetings := qd.targetings ++ [names] }
  return (0, qd)

end Deserialize

end QueryParser

end FlowRetrieval
