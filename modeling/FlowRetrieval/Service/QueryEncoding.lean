/-
# Encoded queries

The lists of a query are written with three separators: psids with commas, and the
orientation as groups of ids with commas inside a group, an optional field name and a
colon before it, and bars between the groups. `Deserialize` reads back the lists that
were written, the hours of the launch time and, as one more group, their names.

## Main results

* `QueryParser.Query.readGroups_fields` — the groups of an orientation are read back
* `QueryParser.deserialize_of_encodes` — so are all lists of an encoded query
-/
import FlowRetrieval.Service.QueryParser

namespace FlowRetrieval

namespace QueryParser

/-- A string without the separators of the lists. -/
structure Plain (str : Str) : Prop where
  bar : 124 ∉ str
  colon : 58 ∉ str
  comma : 44 ∉ str

instance (str : Str) : Decidable (Plain str) :=
  decidable_of_iff (124 ∉ str ∧ 58 ∉ str ∧ 44 ∉ str)
    ⟨fun ⟨bar, colon, comma⟩ => ⟨bar, colon, comma⟩, fun plain =>
      ⟨plain.bar, plain.colon, plain.comma⟩⟩

/-- A group of target ids, with a field name or without. -/
structure Group where
  name : Option Str
  ids : List Str
  ids_ne_nil : ids ≠ []
  plain_name : ∀ text ∈ name, Plain text
  plain_ids : ∀ id ∈ ids, Plain id

/-- Strings joined by a separator. -/
abbrev join (separator : UInt8) (fields : List Str) : Str := [separator].intercalate fields

namespace Group

variable (group : Group)

/-- The fields between the colons of a group. -/
def fields : List Str := group.name.toList ++ [join 44 group.ids]

/-- A group as it is written, `name:id,id,...` or `id,id,...`. -/
def text : Str := join 58 group.fields

theorem not_mem_fields {c : UInt8} (comma : c ≠ 44) (plain : ∀ {str}, Plain str → c ∉ str) :
    ∀ field ∈ group.fields, c ∉ field := by
  intro field member
  obtain named | rfl := by simpa [fields] using member
  · exact plain (group.plain_name field named)
  · exact StringExt.not_mem_intercalate comma fun id listed => plain (group.plain_ids id listed)

theorem bar_not_mem_text : 124 ∉ group.text :=
  StringExt.not_mem_intercalate (by decide) (group.not_mem_fields (by decide) Plain.bar)

theorem splitOn_text : group.text.splitOn 58 = group.fields :=
  List.splitOn_intercalate 58 (group.not_mem_fields (by decide) Plain.colon) (by simp [fields])

theorem splitOn_ids : (join 44 group.ids).splitOn 44 = group.ids :=
  List.splitOn_intercalate 44 (fun id listed => (group.plain_ids id listed).comma)
    group.ids_ne_nil

/-- The ids of a group are read back. -/
theorem readGroup_fields (short : group.text.length + 1 < 2 ^ 32) :
    readGroup group.fields = some [group.ids] := by
  have listed : join 44 group.ids ∈ group.text.splitOn 58 := by simp [splitOn_text, fields]
  have bound := StringExt.length_le_of_mem_splitOn _ _ listed
  have read : readIds (join 44 group.ids) = some [group.ids] := by
    have count := StringExt.toUInt32_length_splitOn_ne_zero (join 44 group.ids) 44 (by omega)
    rw [splitOn_ids] at count
    rw [readIds, StringExt.splitCall_eq_some _ _ (by omega), splitOn_ids]
    simp [count]
  cases named : group.name with
  | none => simpa [fields, named, readGroup] using read
  | some name => simp [fields, named, readGroup, read]

end Group

/-- The lists of a query, as they are encoded in a request. -/
structure Query where
  groups : List Group
  psids : List Str
  launchTime : Str
  groups_ne_nil : groups ≠ []
  psids_ne_nil : ∀ psid ∈ psids, psid ≠ []
  plain_psids : ∀ psid ∈ psids, Plain psid
  length_launchTime : launchTime.length = hoursPerDay
  flags : ∀ c ∈ launchTime, c = 48 ∨ c = 49

namespace Query

variable (query : Query)

/-- The orientation, groups joined by bars. -/
def orientation : Str := join 124 (query.groups.map Group.text)

/-- The list of psids, joined by commas. -/
def adposIdList : Str := join 44 query.psids

/-- The positions of `1` in the launch time. -/
def hours : List ℕ :=
  (List.range hoursPerDay).filter fun hour => query.launchTime.getD hour 0 = 49

/-- An hour in two digits. -/
def hourName (hour : ℕ) : Str := [48 + UInt8.ofNat (hour / 10), 48 + UInt8.ofNat (hour % 10)]

/-- The groups of ids, and one more group with the names of the hours if there are any. -/
def targetings : List (List Str) :=
  query.groups.map Group.ids ++ if query.hours = [] then [] else [query.hours.map hourName]

theorem splitOn_orientation :
    query.orientation.splitOn 124 = query.groups.map Group.text := by
  refine List.splitOn_intercalate 124 ?_ (by simpa using query.groups_ne_nil)
  intro text member
  obtain ⟨group, -, rfl⟩ := List.mem_map.mp member
  exact group.bar_not_mem_text

theorem split2Call_orientation (short : query.orientation.length + 1 < 2 ^ 32) :
    StringExt.split2Call query.orientation 124 58 = some (query.groups.map Group.fields) := by
  rw [StringExt.split2Call_eq_some _ (by decide) (by omega), query.splitOn_orientation,
    List.map_map]
  exact congrArg some (List.map_congr_left fun group _ => group.splitOn_text)

/-- The groups of the orientation are read back in their order. -/
theorem readGroups_fields (short : query.orientation.length + 1 < 2 ^ 32) :
    readGroups (query.groups.map Group.fields) = some (query.groups.map Group.ids) := by
  have texts : ∀ group ∈ query.groups, group.text.length + 1 < 2 ^ 32 := by
    intro group member
    have listed : group.text ∈ query.orientation.splitOn 124 := by
      rw [query.splitOn_orientation]
      exact List.mem_map_of_mem member
    have bound := StringExt.length_le_of_mem_splitOn _ _ listed
    omega
  generalize query.groups = groups at texts ⊢
  induction groups with
  | nil => rfl
  | cons group rest ih =>
    have first := group.readGroup_fields (texts group List.mem_cons_self)
    have later := ih fun other member => texts other (List.mem_cons_of_mem _ member)
    rw [List.map_cons, readGroups, first, later]
    rfl

/-- The list of psids is read back; an empty list is written as an empty string. -/
theorem filter_splitOn_adposIdList :
    (query.adposIdList.splitOn 44).filter (fun psid => !psid.isEmpty) = query.psids := by
  by_cases none : query.psids = []
  · rw [adposIdList, none, join, List.intercalate_nil, List.splitOn_nil]
    rfl
  · have read : query.adposIdList.splitOn 44 = query.psids :=
      List.splitOn_intercalate 44 (fun psid member => (query.plain_psids psid member).comma) none
    rw [read, List.filter_eq_self]
    intro psid member
    simpa using query.psids_ne_nil psid member

end Query

/-- Every `1` adds its position, after the hours found before. -/
theorem readHours_eq {text : Str} (flags : ∀ c ∈ text, c = 48 ∨ c = 49) (i : UInt32)
    (hours : List UInt32) :
    readHours text i hours =
      (0, hours ++ ((List.range text.length).filter fun k => text.getD k 0 = 49).map
        fun k => i + UInt32.ofNat k) := by
  induction text generalizing i hours with
  | nil => simp [readHours]
  | cons c rest ih =>
    have later := ih fun other member => flags other (List.mem_cons_of_mem _ member)
    have shift : (fun k => i + 1 + UInt32.ofNat k) = fun k => i + UInt32.ofNat (k + 1) := by
      funext k
      rw [UInt32.ofNat_add, UInt32.add_assoc, UInt32.add_comm 1]
      rfl
    rw [readHours, List.length_cons, List.range_succ_eq_map]
    obtain rfl | rfl := flags c List.mem_cons_self
    · rw [if_neg (by decide), if_neg (by decide), later, shift]
      simp [List.filter_map, Function.comp_def]
    · rw [if_pos rfl, later, shift]
      simp [List.filter_map, Function.comp_def]

/-- The stream prints an hour of the day in two digits. -/
theorem formatHour_eq :
    ∀ hour < hoursPerDay, formatHour (UInt32.ofNat hour) = Query.hourName hour := by decide

/-- The hours of the launch time are read in their order. -/
theorem readHours_launchTime (query : Query) :
    readHours query.launchTime 0 [] = (0, query.hours.map UInt32.ofNat) := by
  rw [readHours_eq query.flags, query.length_launchTime, List.nil_append, Query.hours]
  simp only [UInt32.zero_add]

theorem map_formatHour (query : Query) :
    (query.hours.map UInt32.ofNat).map formatHour = query.hours.map Query.hourName := by
  rw [List.map_map]
  refine List.map_congr_left fun hour member => ?_
  exact formatHour_eq hour (List.mem_range.mp (List.mem_of_mem_filter member))

section Deserialize

variable {V R : Type} [Double R] (json : JsonLib V R) (value : V)

/-- A request whose members have their types, with a price that is not negative and the
lists of a query in their text form. -/
structure Encodes (query : Query) : Prop where
  isObject : json.isObject value
  bidPrice : json.isDouble (json.member value "bidPrice")
  price : ¬Double.toInt32 (json.asDouble (json.member value "bidPrice")) < 0
  bidType : json.isInt (json.member value "bidType")
  advertType : json.isInt (json.member value "advertType")
  schemaType : json.isString (json.member value "schemaType")
  launchTime : json.isString (json.member value "launchTime")
  adposIdList : json.isString (json.member value "adposIdList")
  orientation : json.isString (json.member value "orientation")
  launchTime_eq : json.asString (json.member value "launchTime") = query.launchTime
  adposIdList_eq : json.asString (json.member value "adposIdList") = query.adposIdList
  orientation_eq : json.asString (json.member value "orientation") = query.orientation

variable {json value}

/-- The lists of an encoded query are decoded, whatever the query data held before. -/
theorem deserialize_of_encodes {query : Query} (encodes : Encodes json value query)
    (qd : QueryData) :
    ∃ result, deserialize json value qd = some (0, result) ∧
      result.psids = query.psids ∧
      result.hours = query.hours.map UInt32.ofNat ∧
      result.targetings = query.targetings := by
  have short := json.length_asString (json.member value "orientation")
  have listed := json.length_asString (json.member value "adposIdList")
  rw [encodes.orientation_eq] at short
  rw [encodes.adposIdList_eq] at listed
  have psids : StringExt.splitCall query.adposIdList 44 =
      some (query.adposIdList.splitOn 44) := StringExt.splitCall_eq_some _ _ (by omega)
  -- no check fails
  simp only [deserialize, encodes.isObject, encodes.bidPrice, encodes.price, encodes.bidType,
    encodes.advertType, encodes.schemaType, encodes.launchTime, encodes.adposIdList,
    encodes.orientation, encodes.launchTime_eq, encodes.adposIdList_eq, encodes.orientation_eq,
    query.length_launchTime, readHours_launchTime, map_formatHour, Bool.not_true,
    Bool.false_eq_true, if_false, ne_eq, not_true, Option.bind_eq_bind, Option.bind_some, psids,
    query.filter_splitOn_adposIdList, query.split2Call_orientation short,
    query.readGroups_fields short]
  by_cases none : query.hours = []
  · rw [if_neg (by simp [none])]
    exact ⟨_, rfl, rfl, rfl, by rw [Query.targetings, if_pos none, List.append_nil]⟩
  · rw [if_pos (by simpa using none)]
    exact ⟨_, rfl, rfl, rfl, by rw [Query.targetings, if_neg none]⟩

end Deserialize

/-- One group with a field name and one without, two psids and two hours. -/
def twoGroups : Query where
  groups :=
    [⟨some (.ofLiteral "sex"), [.ofLiteral "m", .ofLiteral "f"], by decide, by decide, by decide⟩,
      ⟨none, [.ofLiteral "x"], by decide, by decide, by decide⟩]
  psids := [.ofLiteral "a", .ofLiteral "b"]
  launchTime := 49 :: (List.replicate 22 48 ++ [49])
  groups_ne_nil := by decide
  psids_ne_nil := by decide
  plain_psids := by decide
  length_launchTime := by decide
  flags := by simp

/-- A request with the lists of a query. -/
def request (query : Query) : JsonValue :=
  .object
    [("bidPrice", .real 100), ("bidType", .int 0), ("advertType", .int 1),
      ("schemaType", .string (.ofLiteral "wap")), ("launchTime", .string query.launchTime),
      ("adposIdList", .string query.adposIdList), ("orientation", .string query.orientation)]

theorem deserialize_twoGroups :
    ∃ result, deserialize JsonValue.lib (request twoGroups) ⟨1, 1, 1, 1, [5], [[]], [[]]⟩ =
        some (0, result) ∧
      result.psids = [.ofLiteral "a", .ofLiteral "b"] ∧ result.hours = [0, 23] ∧
      result.targetings =
        [[.ofLiteral "m", .ofLiteral "f"], [.ofLiteral "x"], [.ofLiteral "00", .ofLiteral "23"]] := by
  have encodes : Encodes JsonValue.lib (request twoGroups) twoGroups := by
    constructor <;> first | rfl | decide
  obtain ⟨result, decoded, psids, hours, targetings⟩ :=
    deserialize_of_encodes encodes ⟨1, 1, 1, 1, [5], [[]], [[]]⟩
  exact ⟨result, decoded, psids, hours, targetings⟩

end QueryParser

end FlowRetrieval
