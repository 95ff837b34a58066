/-
# The overloads of `Split`

Four loops cut strings: with one separator or two, on a `std::string` or on a C string,
which ends at its first zero byte. They keep the same books in separate code. Cutting at
one separator is the inverse of joining, and cutting at two is cutting twice.

## Main results

* `StringExt.splits_of_splitCall` — one-level `Split` gives the only fields that join to
  the string
* `StringExt.overloads_agree` — two levels are one level on every field, and a C string is
  cut like the string it holds
-/
import FlowRetrieval.Util.StringExt

namespace FlowRetrieval

namespace StringExt

section Chars

/-- The loop of `Split(const char*, char, …)`; `chars` is the memory from the pointer on,
and `none` stands for a loop that is out of fuel. -/
def splitCharsLoop (chars : Str) (separator : UInt8) : ℕ → UInt32 → UInt32 → Option (List Str)
  | 0, _, _ => none
  | fuel + 1, i, begin =>
    if chars.getD i.toNat 0 ≠ 0 then
      if chars.getD i.toNat 0 = separator then
        (splitCharsLoop chars separator fuel (i + 1) (i + 1)).map
          (substr chars begin.toNat (i - begin).toNat :: ·)
      else splitCharsLoop chars separator fuel (i + 1) begin
    else some [substr chars begin.toNat (i - begin).toNat]

/-- The loop of `Split(const char*, char, char, …)`. -/
def split2CharsLoop (chars : Str) (sepFirst sepSecond : UInt8) :
    ℕ → UInt32 → UInt32 → List Str → Option (List (List Str))
  | 0, _, _, _ => none
  | fuel + 1, i, begin, buffer =>
    if chars.getD i.toNat 0 ≠ 0 then
      if chars.getD i.toNat 0 = sepSecond then
        split2CharsLoop chars sepFirst sepSecond fuel (i + 1) (i + 1)
          (buffer ++ [substr chars begin.toNat (i - begin).toNat])
      else if chars.getD i.toNat 0 = sepFirst then
        (split2CharsLoop chars sepFirst sepSecond fuel (i + 1) (i + 1) []).map
          ((buffer ++ [substr chars begin.toNat (i - begin).toNat]) :: ·)
      else split2CharsLoop chars sepFirst sepSecond fuel (i + 1) begin buffer
    else some [buffer ++ [substr chars begin.toNat (i - begin).toNat]]

/-- A list with the number that `Split` returns for it, `result.size()` as a `uint32_t`. -/
def counted {α : Type} (result : List α) : UInt32 × List α := (UInt32.ofNat result.length, result)

/-- `Split(const std::string&, char, …)`: the number it returns and the list it leaves. -/
def splitString (str : Str) (separator : UInt8) : Option (UInt32 × List Str) :=
  (splitCall str separator).map counted

/-- `Split(const std::string&, char, char, …)`. -/
def split2String (str : Str) (sepFirst sepSecond : UInt8) : Option (UInt32 × List (List Str)) :=
  (split2Call str sepFirst sepSecond).map counted

/-- `Split(const char*, char, …)`. -/
def splitChars (chars : Str) (separator : UInt8) : Option (UInt32 × List Str) :=
  (splitCharsLoop chars separator chars.length 0 0).map counted

/-- `Split(const char*, char, char, …)`. -/
def split2Chars (chars : Str) (sepFirst sepSecond : UInt8) : Option (UInt32 × List (List Str)) :=
  (split2CharsLoop chars sepFirst sepSecond chars.length 0 0 []).map counted

end Chars

section CString

variable {str rest : Str}

theorem getD_chars_of_lt {i : ℕ} (inside : i < str.length) :
    (str ++ 0 :: rest).getD i 0 = str.getD i 0 := by
  rw [List.getD_append _ _ _ _ inside]

theorem getD_chars_length : (str ++ 0 :: rest).getD str.length 0 = 0 := by
  rw [List.getD_append_right _ _ _ _ (Nat.le_refl _), Nat.sub_self, List.getD_cons_zero]

/-- A character of a string without zero bytes does not end it. -/
theorem getD_chars_ne_zero (text : 0 ∉ str) {i : ℕ} (inside : i < str.length) :
    (str ++ 0 :: rest).getD i 0 ≠ 0 := by
  rw [getD_chars_of_lt inside, List.getD_eq_getElem _ _ inside]
  exact fun zero => text (zero ▸ List.getElem_mem inside)

theorem substr_chars {begin count : ℕ} (inside : begin + count ≤ str.length) :
    substr (str ++ 0 :: rest) begin count = substr str begin count := by
  rw [substr, substr, List.drop_append_of_le_length (by omega),
    List.take_append_of_le_length (by rw [List.length_drop]; omega)]

variable (text : 0 ∉ str)
include text

/-- On a string that a 32-bit index can scan, the loops over both kinds of strings take
the same steps. -/
theorem splitCharsLoop_eq {separator : UInt8} {fuel : ℕ} {i begin : UInt32}
    (short : str.length < 2 ^ 32) (inside : i.toNat ≤ str.length)
    (started : begin.toNat ≤ i.toNat) :
    splitCharsLoop (str ++ 0 :: rest) separator fuel i begin =
      splitLoop str separator fuel i begin := by
  induction fuel generalizing i begin with
  | zero => rfl
  | succ fuel ih =>
    have width : (i - begin).toNat = i.toNat - begin.toNat :=
      UInt32.toNat_sub_of_le _ _ (UInt32.le_iff_toNat_le.mpr started)
    rw [splitCharsLoop, splitLoop, substr_chars (by omega)]
    by_cases more : i.toNat < str.length
    · have next := toNat_next short more
      rw [if_pos (getD_chars_ne_zero text more), if_pos more, getD_chars_of_lt more,
        ih (by omega) (by omega), ih (by omega) (by omega)]
    · have done : i.toNat = str.length := by omega
      rw [done, if_neg (not_not.mpr getD_chars_length), if_neg (Nat.lt_irrefl _), width, done]

theorem splitCharsLoop_eq_none {separator : UInt8} {fuel : ℕ} {i begin : UInt32}
    (long : 2 ^ 32 ≤ str.length) :
    splitCharsLoop (str ++ 0 :: rest) separator fuel i begin = none := by
  induction fuel generalizing i begin with
  | zero => rfl
  | succ fuel ih =>
    have more : i.toNat < str.length := i.toNat_lt.trans_le long
    rw [splitCharsLoop, if_pos (getD_chars_ne_zero text more), ih, ih, Option.map_none, ite_self]

theorem split2CharsLoop_eq {sepFirst sepSecond : UInt8} {fuel : ℕ} {i begin : UInt32}
    {buffer : List Str} (short : str.length < 2 ^ 32) (inside : i.toNat ≤ str.length)
    (started : begin.toNat ≤ i.toNat) :
    split2CharsLoop (str ++ 0 :: rest) sepFirst sepSecond fuel i begin buffer =
      split2Loop str sepFirst sepSecond fuel i begin buffer := by
  induction fuel generalizing i begin buffer with
  | zero => rfl
  | succ fuel ih =>
    have width : (i - begin).toNat = i.toNat - begin.toNat :=
      UInt32.toNat_sub_of_le _ _ (UInt32.le_iff_toNat_le.mpr started)
    rw [split2CharsLoop, split2Loop, substr_chars (by omega)]
    by_cases more : i.toNat < str.length
    · have next := toNat_next short more
      rw [if_pos (getD_chars_ne_zero text more), if_pos more, getD_chars_of_lt more,
        ih (by omega) (by omega), ih (by omega) (by omega), ih (by omega) (by omega)]
    · have done : i.toNat = str.length := by omega
      rw [done, if_neg (not_not.mpr getD_chars_length), if_neg (Nat.lt_irrefl _), width, done]

theorem split2CharsLoop_eq_none {sepFirst sepSecond : UInt8} {fuel : ℕ} {i begin : UInt32}
    {buffer : List Str} (long : 2 ^ 32 ≤ str.length) :
    split2CharsLoop (str ++ 0 :: rest) sepFirst sepSecond fuel i begin buffer = none := by
  induction fuel generalizing i begin buffer with
  | zero => rfl
  | succ fuel ih =>
    have more : i.toNat < str.length := i.toNat_lt.trans_le long
    rw [split2CharsLoop, if_pos (getD_chars_ne_zero text more), ih, ih, ih, Option.map_none,
      ite_self, ite_self]

/-- One-level `Split` of a C string is that of the string it holds. -/
theorem splitChars_eq (separator : UInt8) :
    splitChars (str ++ 0 :: rest) separator = splitString str separator := by
  by_cases short : str.length < 2 ^ 32
  · rw [splitChars, splitCharsLoop_eq text short (Nat.zero_le _) (Nat.le_refl _),
      splitLoop_eq_some _ _ short (Nat.zero_le _) (Nat.le_refl _) (by simp), splitString,
      splitCall, splitLoop_eq_some _ _ short (Nat.zero_le _) (Nat.le_refl _) (by simp)]
  · rw [splitChars, splitCharsLoop_eq_none text (not_lt.mp short), splitString, splitCall,
      splitLoop_eq_none _ _ (not_lt.mp short)]

/-- Two-level `Split` of a C string is that of the string it holds. -/
theorem split2Chars_eq (sepFirst sepSecond : UInt8) :
    split2Chars (str ++ 0 :: rest) sepFirst sepSecond = split2String str sepFirst sepSecond := by
  by_cases short : str.length < 2 ^ 32
  · rw [split2Chars, split2CharsLoop_eq text short (Nat.zero_le _) (Nat.le_refl _),
      split2Loop_eq_some _ short (Nat.zero_le _) (Nat.le_refl _) (by simp), split2String,
      split2Call, split2Loop_eq_some _ short (Nat.zero_le _) (Nat.le_refl _) (by simp)]
  · rw [split2Chars, split2CharsLoop_eq_none text (not_lt.mp short), split2String, split2Call,
      split2Loop_eq_none _ (not_lt.mp short)]

end CString

section Levels

theorem mapM_eq_some {α β : Type} {f : α → Option β} {g : α → β} {list : List α}
    (values : ∀ a ∈ list, f a = some (g a)) : list.mapM f = some (list.map g) := by
  induction list with
  | nil => rfl
  | cons a list ih =>
    rw [List.mapM_cons, values a List.mem_cons_self,
      ih fun b member => values b (List.mem_cons_of_mem _ member)]
    rfl

/-- Two-level `Split` is one-level `Split` with the second separator on every field of
one-level `Split` with the first one. -/
theorem split2Call_eq_nested (str : Str) {sepFirst sepSecond : UInt8}
    (different : sepFirst ≠ sepSecond) :
    split2Call str sepFirst sepSecond =
      splitCall str sepFirst >>= fun fields => fields.mapM (splitCall · sepSecond) := by
  by_cases short : str.length < 2 ^ 32
  · have fields : ∀ field ∈ str.splitOn sepFirst,
        splitCall field sepSecond = some (field.splitOn sepSecond) := fun field member =>
      splitCall_eq_some _ _ ((length_le_of_mem_splitOn _ _ member).trans_lt short)
    rw [split2Call_eq_some str different short, splitCall_eq_some str sepFirst short,
      Option.bind_eq_bind, Option.bind_some, mapM_eq_some fields]
  · rw [split2Call, split2Loop_eq_none str (not_lt.mp short), splitCall,
      splitLoop_eq_none str sepFirst (not_lt.mp short)]
    rfl

/-- All overloads cut a string without zero bytes alike, two levels are one level on
every field, and the calls return when the string has fewer than `2 ^ 32` bytes. -/
theorem overloads_agree {str : Str} (text : 0 ∉ str) (rest : Str)
    {sepFirst sepSecond : UInt8} (different : sepFirst ≠ sepSecond) :
    split2Call str sepFirst sepSecond =
        splitCall str sepFirst >>= (fun fields => fields.mapM (splitCall · sepSecond)) ∧
      splitChars (str ++ 0 :: rest) sepFirst = splitString str sepFirst ∧
      split2Chars (str ++ 0 :: rest) sepFirst sepSecond = split2String str sepFirst sepSecond ∧
      (str.length < 2 ^ 32 →
        (splitString str sepFirst).isSome ∧ (split2String str sepFirst sepSecond).isSome) := by
  refine ⟨split2Call_eq_nested str different, splitChars_eq text sepFirst,
    split2Chars_eq text sepFirst sepSecond, fun short => ⟨?_, ?_⟩⟩
  · rw [splitString, splitCall_eq_some str sepFirst short]
    rfl
  · rw [split2String, split2Call_eq_some str different short]
    rfl

theorem overloads_agree_emptyFields :
    splitChars (Str.ofLiteral "|a,,|" ++ [0, 44]) 124 =
        splitString (Str.ofLiteral "|a,,|") 124 ∧
      split2Chars (Str.ofLiteral "|a,,|" ++ [0, 44]) 124 44 =
        some (3, [[[]], [Str.ofLiteral "a", [], []], [[]]]) := by
  have text : 0 ∉ Str.ofLiteral "|a,,|" := by decide
  have agree := overloads_agree text [44] (show (124 : UInt8) ≠ 44 by decide)
  exact ⟨agree.2.1, agree.2.2.1.trans rfl⟩

end Levels

section Join

variable {str : Str} {separator : UInt8}

/-- A list of fields that can be told apart in the string that they join to. -/
structure Splits (separator : UInt8) (str : Str) (fields : List Str) : Prop where
  ne_nil : fields ≠ []
  separated : ∀ field ∈ fields, separator ∉ field
  joined : [separator].intercalate fields = str

theorem not_mem_of_mem_splitOn {field : Str} (member : field ∈ str.splitOn separator) :
    separator ∉ field := by
  induction str generalizing field with
  | nil =>
    obtain rfl := List.mem_singleton.mp (List.splitOn_nil separator ▸ member)
    exact List.not_mem_nil
  | cons c rest ih =>
    rw [List.splitOn_cons_eq_if_modifyHead] at member
    by_cases atSeparator : c = separator
    · rw [if_pos (beq_iff_eq.mpr atSeparator)] at member
      rcases List.mem_cons.mp member with rfl | later
      · exact List.not_mem_nil
      · exact ih later
    · rw [if_neg (by simpa using atSeparator)] at member
      obtain ⟨first, others, cut⟩ :=
        List.exists_cons_of_ne_nil (List.splitOn_ne_nil separator rest)
      rw [cut] at ih
      rw [cut, List.modifyHead_cons] at member
      rcases List.mem_cons.mp member with rfl | later
      · rw [List.mem_cons, not_or]
        exact ⟨Ne.symm atSeparator, ih List.mem_cons_self⟩
      · exact ih (List.mem_cons_of_mem _ later)

theorem splits_splitOn (str : Str) (separator : UInt8) :
    Splits separator str (str.splitOn separator) where
  ne_nil := List.splitOn_ne_nil _ _
  separated _ := not_mem_of_mem_splitOn
  joined := List.intercalate_splitOn separator

/-- There is one way to take a string apart. -/
theorem Splits.eq_splitOn {fields : List Str} (splits : Splits separator str fields) :
    fields = str.splitOn separator := by
  rw [← splits.joined, List.splitOn_intercalate separator splits.separated splits.ne_nil]

/-- One-level `Split` gives the only fields without separators that join to the string;
so it gives back the fields of every string that was joined. -/
theorem splits_of_splitCall (short : str.length < 2 ^ 32) (separator : UInt8) :
    (∃ fields, splitCall str separator = some fields) ∧
      ∀ fields, splitCall str separator = some fields ↔ Splits separator str fields := by
  rw [splitCall_eq_some str separator short]
  refine ⟨⟨_, rfl⟩, fun fields => ⟨?_, fun splits => ?_⟩⟩
  · rintro ⟨⟩
    exact splits_splitOn str separator
  · rw [splits.eq_splitOn]

theorem splits_of_splitCall_emptyFields :
    splitCall (Str.ofLiteral "|a||") 124 = some [[], Str.ofLiteral "a", [], []] := by
  have joined : Splits 124 (Str.ofLiteral "|a||") [[], Str.ofLiteral "a", [], []] :=
    ⟨by decide, by decide, rfl⟩
  exact ((splits_of_splitCall (by decide) 124).2 _).mpr joined

end Join

end StringExt

end FlowRetrieval
