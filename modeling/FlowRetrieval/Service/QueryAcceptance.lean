/-
# The requests that are accepted

`Deserialize` returns zero when all its checks pass, and then the request handler relies on
what they say: a price that is not negative, hours of the day in ascending order, psids and
groups that are not empty. The price is checked after the cast to `int`, which drops the
fraction: so a price between `-1` and `0` passes.

## Main results

* `QueryParser.deserialize_eq_some_iff` — the values that are accepted, and what is decoded
* `QueryParser.acceptsValid_iff` — acceptance is validity for prices that are not in that range
-/
import FlowRetrieval.Service.QueryEncoding
import Mathlib.Algebra.Order.Field.Rat

namespace FlowRetrieval

namespace QueryParser

section Price

theorem tdiv_of_neg {num den : ℤ} (negative : num < 0) (positive : 0 < den) :
    num.tdiv den = -(-num / den) ∧ 0 ≤ -num / den := by
  refine ⟨?_, Int.ediv_nonneg (by omega) positive.le⟩
  rw [← Int.tdiv_eq_ediv_of_nonneg (by omega), Int.neg_tdiv, neg_neg]

/-- Dropping the fraction leaves a number that is not negative for every number above `-1`. -/
theorem tdiv_nonneg_iff (x : ℚ) : 0 ≤ x.num.tdiv x.den ↔ -1 < x := by
  have den : (0 : ℤ) < x.den := by exact_mod_cast x.den_pos
  have above : -1 < x ↔ -(x.den : ℤ) < x.num := by
    rw [Rat.lt_iff]
    simp
  rw [above]
  by_cases negative : x.num < 0
  · obtain ⟨flip, nonneg⟩ := tdiv_of_neg negative den
    have small : -x.num / x.den < 1 ↔ -x.num < 1 * x.den := Int.ediv_lt_iff_lt_mul den
    omega
  · rw [Int.tdiv_eq_ediv_of_nonneg (by omega)]
    exact iff_of_true (Int.ediv_nonneg (by omega) den.le) (by omega)

theorem tdiv_lt_iff (x : ℚ) : x.num.tdiv x.den < 2 ^ 31 ↔ x < 2 ^ 31 := by
  have den : (0 : ℤ) < x.den := by exact_mod_cast x.den_pos
  have below : x < 2 ^ 31 ↔ x.num < 2 ^ 31 * x.den := by
    rw [Rat.lt_iff]
    norm_num
  rw [below]
  by_cases negative : x.num < 0
  · obtain ⟨flip, nonneg⟩ := tdiv_of_neg negative den
    omega
  · rw [Int.tdiv_eq_ediv_of_nonneg (by omega), Int.ediv_lt_iff_lt_mul den]

/-- The cast of a number is not negative when the number is above `-1` and fits. -/
theorem not_toInt32_neg_iff (x : ℚ) : ¬Double.toInt32 x < 0 ↔ -1 < x ∧ x < 2 ^ 31 := by
  have cast : Double.toInt32 x =
      if -2 ^ 31 ≤ x.num.tdiv x.den ∧ x.num.tdiv x.den < 2 ^ 31 then
        Int32.ofInt (x.num.tdiv x.den)
      else Int32.minValue := rfl
  rw [cast, ← tdiv_nonneg_iff, ← tdiv_lt_iff]
  by_cases fits : -2 ^ 31 ≤ x.num.tdiv x.den ∧ x.num.tdiv x.den < 2 ^ 31
  · rw [if_pos fits, Int32.lt_iff_toInt_lt, Int32.toInt_ofInt_of_le fits.1 fits.2,
      Int32.toInt_zero, not_lt, and_iff_left fits.2]
  · rw [if_neg fits]
    exact iff_of_false (by decide) fun both => fits ⟨by omega, both.2⟩

end Price

section Groups

theorem isSome_readIds {ids : Str} (short : ids.length < 2 ^ 32) : (readIds ids).isSome := by
  rw [readIds, StringExt.splitCall_eq_some _ _ short, Option.bind_eq_bind, Option.bind_some]
  split <;> rfl

/-- A list of ids is a group only when it is not empty. -/
theorem ne_nil_of_readIds {ids : Str} {groups : List (List Str)}
    (read : readIds ids = some groups) : ∀ group ∈ groups, group ≠ [] := by
  obtain ⟨array, -, read⟩ := Option.bind_eq_some_iff.mp read
  by_cases counted : UInt32.ofNat array.length ≠ 0
  · rw [if_pos counted] at read
    obtain rfl := Option.some.inj read
    rintro group member rfl
    obtain rfl := List.mem_singleton.mp member
    exact counted rfl
  · rw [if_neg counted] at read
    obtain rfl := Option.some.inj read
    exact List.forall_mem_nil _

theorem isSome_readGroup {fields : List Str} (short : ∀ field ∈ fields, field.length < 2 ^ 32) :
    (readGroup fields).isSome := by
  cases fields with
  | nil => rfl
  | cons first rest =>
    have alone := isSome_readIds (short first List.mem_cons_self)
    cases rest with
    | nil => exact alone
    | cons second rest =>
      obtain ⟨group, read⟩ := Option.isSome_iff_exists.mp
        (isSome_readIds (short second (List.mem_cons_of_mem _ List.mem_cons_self)))
      rw [readGroup, read, Option.bind_eq_bind, Option.bind_some]
      split
      · exact alone
      · rfl

theorem ne_nil_of_readGroup {fields : List Str} {groups : List (List Str)}
    (read : readGroup fields = some groups) : ∀ group ∈ groups, group ≠ [] := by
  cases fields with
  | nil =>
    obtain rfl := Option.some.inj read
    exact List.forall_mem_nil _
  | cons first rest =>
    cases rest with
    | nil => exact ne_nil_of_readIds read
    | cons second rest =>
      obtain ⟨group, found, read⟩ := Option.bind_eq_some_iff.mp read
      by_cases empty : group.isEmpty
      · rw [if_pos empty] at read
        exact ne_nil_of_readIds read
      · rw [if_neg empty] at read
        obtain rfl := Option.some.inj read
        exact ne_nil_of_readIds found

theorem isSome_readGroups {items : List (List Str)}
    (short : ∀ fields ∈ items, ∀ field ∈ fields, field.length < 2 ^ 32) :
    (readGroups items).isSome := by
  induction items with
  | nil => rfl
  | cons fields rest ih =>
    rw [List.forall_mem_cons] at short
    obtain ⟨group, first⟩ := Option.isSome_iff_exists.mp (isSome_readGroup short.1)
    obtain ⟨groups, others⟩ := Option.isSome_iff_exists.mp (ih short.2)
    rw [readGroups, first, others]
    rfl

/-- No group of an orientation is empty. -/
theorem ne_nil_of_readGroups {items groups : List (List Str)}
    (read : readGroups items = some groups) : ∀ group ∈ groups, group ≠ [] := by
  induction items generalizing groups with
  | nil =>
    obtain rfl := Option.some.inj read
    exact List.forall_mem_nil _
  | cons fields rest ih =>
    obtain ⟨group, first, read⟩ := Option.bind_eq_some_iff.mp read
    obtain ⟨others, later, read⟩ := Option.bind_eq_some_iff.mp read
    obtain rfl := Option.some.inj read
    rw [List.forall_mem_append]
    exact ⟨ne_nil_of_readGroup first, ih later⟩

/-- The fields of an orientation that `Split` returns for are short enough for the next
calls. -/
theorem exists_readGroups {orientation : Str} (short : orientation.length < 2 ^ 32) :
    ∃ groups, readGroups ((orientation.splitOn 124).map (·.splitOn 58)) = some groups := by
  rw [← Option.isSome_iff_exists]
  apply isSome_readGroups
  intro fields listed field member
  obtain ⟨text, cut, rfl⟩ := List.mem_map.mp listed
  have outer := StringExt.length_le_of_mem_splitOn _ _ cut
  have inner := StringExt.length_le_of_mem_splitOn _ _ member
  omega

end Groups

section Hours

/-- Only flags are accepted. -/
theorem flags_of_readHours {text : Str} {i : UInt32} {hours : List UInt32}
    (accepted : (readHours text i hours).1 = 0) : ∀ c ∈ text, c = 48 ∨ c = 49 := by
  induction text generalizing i hours with
  | nil => exact List.forall_mem_nil _
  | cons c rest ih =>
    rw [readHours] at accepted
    rw [List.forall_mem_cons]
    by_cases one : c = 49
    · rw [if_pos one] at accepted
      exact ⟨.inr one, ih accepted⟩
    · rw [if_neg one] at accepted
      by_cases zero : c = 48
      · rw [if_neg (not_not.mpr zero)] at accepted
        exact ⟨.inl zero, ih accepted⟩
      · rw [if_pos zero] at accepted
        cases accepted

theorem readHours_eq_zero_iff (text : Str) :
    (readHours text 0 []).1 = 0 ↔ ∀ c ∈ text, c = 48 ∨ c = 49 :=
  ⟨flags_of_readHours, fun flags => by rw [readHours_eq flags]⟩

/-- The hours of a launch time for one day ascend and are hours of the day. -/
theorem pairwise_readHours {text : Str} (length : text.length = hoursPerDay)
    (flags : ∀ c ∈ text, c = 48 ∨ c = 49) :
    (readHours text 0 []).2.Pairwise (· < ·) ∧ ∀ hour ∈ (readHours text 0 []).2, hour < 24 := by
  rw [readHours_eq flags, length, List.nil_append]
  have toNat {k : ℕ} (inside : k < hoursPerDay) : (0 + UInt32.ofNat k).toNat = k := by
    rw [UInt32.zero_add]
    exact UInt32.toNat_ofNat_of_lt' (inside.trans (by decide))
  constructor
  · rw [List.pairwise_map]
    refine (List.pairwise_lt_range.filter _).imp_of_mem ?_
    intro k later before behind ordered
    have first := toNat (List.mem_range.mp (List.mem_of_mem_filter before))
    have second := toNat (List.mem_range.mp (List.mem_of_mem_filter behind))
    rw [UInt32.lt_iff_toNat_lt, first, second]
    exact ordered
  · intro hour member
    obtain ⟨k, listed, rfl⟩ := List.mem_map.mp member
    have inside := List.mem_range.mp (List.mem_of_mem_filter listed)
    rw [UInt32.lt_iff_toNat_lt, toNat inside]
    exact inside

end Hours

section Deserialize

variable {V : Type} (json : JsonLib V ℚ) (value : V)

/-- The number that is given as the price. -/
def bidPrice : ℚ := json.asDouble (json.member value "bidPrice")

/-- The text of a member of the request. -/
def text (name : String) : Str := json.asString (json.member value name)

/-- A request whose members have their types and whose launch time has a flag for every
hour of the day. -/
structure Typed : Prop where
  isObject : json.isObject value
  bidPrice : json.isDouble (json.member value "bidPrice")
  bidType : json.isInt (json.member value "bidType")
  advertType : json.isInt (json.member value "advertType")
  schemaType : json.isString (json.member value "schemaType")
  launchTime : json.isString (json.member value "launchTime")
  adposIdList : json.isString (json.member value "adposIdList")
  orientation : json.isString (json.member value "orientation")
  length : (text json value "launchTime").length = hoursPerDay
  flags : ∀ c ∈ text json value "launchTime", c = 48 ∨ c = 49

/-- A valid request: such a request with a price that is not negative and fits an `int`. -/
structure Valid : Prop extends Typed json value where
  nonneg : 0 ≤ QueryParser.bidPrice json value
  fits : QueryParser.bidPrice json value < 2 ^ 31

/-- What the request handler relies on. -/
structure WellFormed (qd : QueryData) : Prop where
  price : 0 ≤ qd.price
  ascending : qd.hours.Pairwise (· < ·)
  hours : ∀ hour ∈ qd.hours, hour < 24
  psids : ∀ psid ∈ qd.psids, psid ≠ []
  targetings : ∀ group ∈ qd.targetings, group ≠ []

/-- The groups of a query: those of the orientation, and the names of the hours. -/
def targetingsOf (groups : List (List Str)) (hours : List UInt32) : List (List Str) :=
  if !(hours.map formatHour).isEmpty then groups ++ [hours.map formatHour] else groups

/-- The query data of a request with these groups in its orientation. -/
def decoded (groups : List (List Str)) : QueryData where
  price := Double.toInt32 (bidPrice json value)
  bidType := json.asInt (json.member value "bidType")
  advertType := json.asInt (json.member value "advertType")
  platform := platformOf (text json value "schemaType")
  hours := (readHours (text json value "launchTime") 0 []).2
  targetings := targetingsOf groups (readHours (text json value "launchTime") 0 []).2
  psids := ((text json value "adposIdList").splitOn 44).filter fun psid => !psid.isEmpty

variable {json value}

theorem targetingsOf_of_hours {groups : List (List Str)} {hours : List UInt32}
    (named : !(hours.map formatHour).isEmpty) :
    targetingsOf groups hours = groups ++ [hours.map formatHour] := if_pos named

theorem targetingsOf_of_no_hours {groups : List (List Str)} {hours : List UInt32}
    (unnamed : ¬!(hours.map formatHour).isEmpty) : targetingsOf groups hours = groups :=
  if_neg unnamed

/-- A check that fails with a code other than zero is passed when zero is returned. -/
theorem check_eq_some_iff {failed : Prop} [Decidable failed] {code : ℤ} (bad : failed → code ≠ 0)
    {qd result : QueryData} {rest : Option (ℤ × QueryData)} :
    (if failed then pure (code, qd) else rest) = some (0, result) ↔
      ¬failed ∧ rest = some (0, result) := by
  by_cases wrong : failed
  · rw [if_pos wrong]
    refine iff_of_false (fun same => bad wrong ?_) fun both => both.1 wrong
    exact (Prod.mk.inj (Option.some.inj same)).1
  · rw [if_neg wrong, and_iff_right wrong]

/-- The requests for which `Deserialize` returns zero, and the query data it leaves. -/
theorem deserialize_eq_some_iff {qd result : QueryData} :
    deserialize json value qd = some (0, result) ↔
      (Typed json value ∧ -1 < bidPrice json value ∧ bidPrice json value < 2 ^ 31) ∧
        ∃ groups, readGroups (((text json value "orientation").splitOn 124).map (·.splitOn 58)) =
          some groups ∧ result = decoded json value groups := by
  have listed := json.length_asString (json.member value "adposIdList")
  have oriented := json.length_asString (json.member value "orientation")
  have psids : StringExt.splitCall (text json value "adposIdList") 44 =
      some ((text json value "adposIdList").splitOn 44) :=
    StringExt.splitCall_eq_some _ _ (by rw [text]; omega)
  have fields : StringExt.split2Call (text json value "orientation") 124 58 =
      some (((text json value "orientation").splitOn 124).map (·.splitOn 58)) :=
    StringExt.split2Call_eq_some _ (by decide) (by rw [text]; omega)
  have texts (name : String) : json.asString (json.member value name) = text json value name := rfl
  have number : json.asDouble (json.member value "bidPrice") = bidPrice json value := rfl
  rw [deserialize]
  simp only [texts, number, psids, fields, Option.bind_eq_bind, Option.bind_some]
  rw [check_eq_some_iff (by simp), check_eq_some_iff (by simp), check_eq_some_iff (by simp),
    check_eq_some_iff (by simp), check_eq_some_iff (by simp), check_eq_some_iff (by simp),
    check_eq_some_iff (by simp), check_eq_some_iff (by simp), check_eq_some_iff id,
    check_eq_some_iff (by simp), check_eq_some_iff (by simp)]
  have passed (test : Bool) : ¬(!test) = true ↔ test = true := by cases test <;> simp
  simp only [passed, not_not, not_toInt32_neg_iff, readHours_eq_zero_iff, Option.bind_eq_some_iff]
  constructor
  · rintro ⟨isObject, bidPrice, price, bidType, advertType, schemaType, launchTime, length, flags,
      adposIdList, orientation, groups, read, done⟩
    refine ⟨⟨⟨isObject, bidPrice, bidType, advertType, schemaType, launchTime, adposIdList,
      orientation, length, flags⟩, price⟩, groups, read, ?_⟩
    split at done <;> rename_i named
    · rw [decoded, targetingsOf_of_hours named]
      exact (Prod.mk.inj (Option.some.inj done)).2.symm
    · rw [decoded, targetingsOf_of_no_hours named]
      exact (Prod.mk.inj (Option.some.inj done)).2.symm
  · rintro ⟨⟨typed, price⟩, groups, read, rfl⟩
    refine ⟨typed.isObject, typed.bidPrice, price, typed.bidType, typed.advertType,
      typed.schemaType, typed.launchTime, typed.length, typed.flags, typed.adposIdList,
      typed.orientation, groups, read, ?_⟩
    split <;> rename_i named
    · rw [decoded, targetingsOf_of_hours named]
      rfl
    · rw [decoded, targetingsOf_of_no_hours named]
      rfl

/-- What is decoded of an accepted request is well formed. -/
theorem wellFormed_decoded (typed : Typed json value)
    (price : -1 < bidPrice json value ∧ bidPrice json value < 2 ^ 31) {groups : List (List Str)}
    (read : readGroups (((text json value "orientation").splitOn 124).map (·.splitOn 58)) =
      some groups) : WellFormed (decoded json value groups) := by
  have hours := pairwise_readHours typed.length typed.flags
  have nonempty := ne_nil_of_readGroups read
  refine ⟨?_, hours.1, hours.2, ?_, ?_⟩
  · exact Int32.not_lt.mp ((not_toInt32_neg_iff _).mpr price)
  · intro psid member
    simpa using (List.mem_filter.mp member).2
  · rw [decoded]
    by_cases named : !((readHours (text json value "launchTime") 0 []).2.map formatHour).isEmpty
    · rw [targetingsOf_of_hours named, List.forall_mem_append, List.forall_mem_singleton]
      exact ⟨nonempty, by simpa using named⟩
    · rw [targetingsOf_of_no_hours named]
      exact nonempty

variable (json value)

/-- Zero is returned for the valid requests and for no others, and leaves query data that
the request handler can rely on, whatever they were before. -/
structure AcceptsValid (qd : QueryData) : Prop where
  accepts : (∃ result, deserialize json value qd = some (0, result)) ↔ Valid json value
  wellFormed : ∀ result, deserialize json value qd = some (0, result) → WellFormed result

/-- The cast lets prices between `-1` and `0` pass, and nothing else that is not valid. -/
theorem acceptsValid_iff (qd : QueryData) :
    AcceptsValid json value qd ↔
      ¬(Typed json value ∧ -1 < bidPrice json value ∧ bidPrice json value < 0) := by
  have short := json.length_asString (json.member value "orientation")
  obtain ⟨groups, read⟩ : ∃ groups, readGroups
      (((text json value "orientation").splitOn 124).map (·.splitOn 58)) = some groups :=
    exists_readGroups (by rw [text]; omega)
  constructor
  · rintro ⟨accepts, -⟩ ⟨typed, above, negative⟩
    have fits : bidPrice json value < 2 ^ 31 := negative.trans (by norm_num)
    have returned : deserialize json value qd = some (0, decoded json value groups) :=
      deserialize_eq_some_iff.mpr ⟨⟨typed, above, fits⟩, groups, read, rfl⟩
    exact not_le_of_gt negative (accepts.mp ⟨_, returned⟩).nonneg
  · intro outside
    refine ⟨⟨?_, fun valid => ?_⟩, fun result returned => ?_⟩
    · rintro ⟨result, returned⟩
      obtain ⟨⟨typed, above, fits⟩, -⟩ := deserialize_eq_some_iff.mp returned
      exact ⟨typed, not_lt.mp fun negative => outside ⟨typed, above, negative⟩, fits⟩
    · have above : -1 < bidPrice json value := neg_one_lt_zero.trans_le valid.nonneg
      exact ⟨_, deserialize_eq_some_iff.mpr
        ⟨⟨valid.toTyped, above, valid.fits⟩, groups, read, rfl⟩⟩
    · obtain ⟨⟨typed, price⟩, others, found, rfl⟩ := deserialize_eq_some_iff.mp returned
      exact wellFormed_decoded typed price found

/-- A request that is valid but for its price, `-1 / 2`. -/
def halfBelowZero : JsonValue :=
  .object
    [("bidPrice", .real (-1 / 2)), ("bidType", .int 0), ("advertType", .int 1),
      ("schemaType", .string (.ofLiteral "wap")), ("launchTime", .string (List.replicate 24 48)),
      ("adposIdList", .string (.ofLiteral "a")), ("orientation", .string (.ofLiteral "sex:m"))]

theorem not_acceptsValid_halfBelowZero :
    ¬AcceptsValid JsonValue.lib halfBelowZero ⟨0, 0, 0, 0, [], [], []⟩ := by
  have launchTime : text JsonValue.lib halfBelowZero "launchTime" = List.replicate 24 48 :=
    List.take_of_length_le (by simp)
  have typed : Typed JsonValue.lib halfBelowZero := by
    refine ⟨rfl, rfl, rfl, rfl, rfl, rfl, rfl, rfl, ?_, fun c member => ?_⟩
    · rw [launchTime, List.length_replicate, hoursPerDay]
    · rw [launchTime] at member
      exact .inl (List.eq_of_mem_replicate member)
  have price : bidPrice JsonValue.lib halfBelowZero = -1 / 2 := rfl
  intro accepts
  obtain ⟨groups, read⟩ : ∃ groups, readGroups
      (((text JsonValue.lib halfBelowZero "orientation").splitOn 124).map (·.splitOn 58)) =
        some groups := exists_readGroups (by decide)
  have returned : deserialize JsonValue.lib halfBelowZero ⟨0, 0, 0, 0, [], [], []⟩ =
      some (0, decoded JsonValue.lib halfBelowZero groups) :=
    deserialize_eq_some_iff.mpr
      ⟨⟨typed, by rw [price]; norm_num, by rw [price]; norm_num⟩, groups, read, rfl⟩
  have nonneg := (accepts.accepts.mp ⟨_, returned⟩).nonneg
  rw [price] at nonneg
  norm_num at nonneg

end Deserialize

end QueryParser

end FlowRetrieval
