/-
# The text of a platform table

A table is written as entries between bars, a platform, an advert type and a value between
commas, with blanks around the numbers; entries with fewer fields are skipped. The value
of a later entry takes the place of an earlier one with the same two keys.

## Main results

* `Param.getEntry_deserializeTable` — the entries that are found in a table read from its text
* `Param.decodesTables_of_short` — so are those of the three tables of a parameter file
-/
import FlowRetrieval.Service.ParamLines

namespace FlowRetrieval

open CS

namespace Param

section Entries

variable {R : Type}

/-- An entry of a table: two keys and a value, with the texts of their fields. -/
structure Triple (lib : DoubleLib R) where
  platform : Int32
  advertType : Int32
  value : R
  platformText : Str
  advertTypeText : Str
  valueText : Str
  platform_numeral : Cstdlib.IsNumeral (StringExt.trim platformText) platform.toInt
  advertType_numeral : Cstdlib.IsNumeral (StringExt.trim advertTypeText) advertType.toInt
  strtod_value : lib.strtod (StringExt.trim valueText) = value
  uncut : ∀ field ∈ [platformText, advertTypeText, valueText], 44 ∉ field ∧ 124 ∉ field

/-- What is written between two bars: an entry, or fields that are too few for one. -/
inductive Item (lib : DoubleLib R)
  | triple (entry : Triple lib)
  | short (fields : List Str) (some : fields ≠ []) (few : fields.length < 3)
      (uncut : ∀ field ∈ fields, 44 ∉ field ∧ 124 ∉ field)

namespace Item

variable {lib : DoubleLib R}

/-- The fields of an item. -/
def fields : Item lib → List Str
  | triple entry => [entry.platformText, entry.advertTypeText, entry.valueText]
  | short fields _ _ _ => fields

/-- The entry of an item. -/
def entry? : Item lib → Option (Triple lib)
  | triple entry => some entry
  | short _ _ _ _ => none

/-- An item as it is written, its fields joined by commas. -/
def text (item : Item lib) : Str := [44].intercalate item.fields

theorem uncut (item : Item lib) : ∀ field ∈ item.fields, 44 ∉ field ∧ 124 ∉ field := by
  cases item with
  | triple entry => exact entry.uncut
  | short fields _ _ uncut => exact uncut

theorem splitOn_text (item : Item lib) : item.text.splitOn 44 = item.fields := by
  apply List.splitOn_intercalate 44 fun field member => (item.uncut field member).1
  cases item with
  | triple entry => exact List.cons_ne_nil _ _
  | short fields some _ _ => exact some

theorem bar_not_mem_text (item : Item lib) : 124 ∉ item.text :=
  StringExt.not_mem_intercalate (by decide) fun field member => (item.uncut field member).2

end Item

variable {lib : DoubleLib R}

/-- A table as it is written, its items joined by bars. -/
def tableText (items : List (Item lib)) : Str := [124].intercalate (items.map Item.text)

/-- The entries of a table. -/
def triples (items : List (Item lib)) : List (Triple lib) := items.filterMap Item.entry?

/-- The value of the last entry with the two keys, or zero. -/
def lastValue [Double R] (items : List (Item lib)) (platform advertType : Int32) : R :=
  (((triples items).reverse.find? fun entry =>
    entry.platform = platform ∧ entry.advertType = advertType).map Triple.value).getD 0.0

end Entries

section Decode

variable {R : Type} (lib : DoubleLib R)

/-- What an item with the given stripped fields does to a table. -/
def assign (table : PlatformTable R) : List Str → PlatformTable R
  | first :: second :: value :: _ =>
    table.insert (Cstdlib.strtol first).toInt32
      (((table.lookup (Cstdlib.strtol first).toInt32).getD ∅).insert
        (Cstdlib.strtol second).toInt32 (lib.strtod value))
  | _ => table

/-- The table that is read from a short text depends on its stripped fields alone. -/
theorem deserializeTable_eq {str : Str} (short : str.length < 2 ^ 31) :
    deserializeTable lib str =
      ((str.splitOn 124).map fun item => (item.splitOn 44).map StringExt.trim).foldl
        (assign lib) ∅ := by
  rw [deserializeTable, StringExt.split2_eq_splitOn str (by decide), List.foldl_map,
    List.foldl_map]
  apply List.foldl_ext
  intro table item member
  have strip : ∀ field ∈ item.splitOn 44, StringExt.strip field = StringExt.trim field := by
    intro field inner
    have outer := StringExt.length_le_of_mem_splitOn _ _ member
    have bound := StringExt.length_le_of_mem_splitOn _ _ inner
    exact StringExt.strip_eq_trim (by omega)
  match cut : item.splitOn 44 with
  | [] => rfl
  | [_] => rfl
  | [_, _] => rfl
  | first :: second :: value :: rest =>
    rw [cut] at strip
    simp only [List.forall_mem_cons] at strip
    dsimp only
    rw [strip.1, strip.2.1, strip.2.2.1]
    rfl

/-- Blanks at the ends of the text make no difference. -/
theorem deserializeTable_trim {text : Str} (short : (StringExt.trim text).length < 2 ^ 31) :
    deserializeTable lib (StringExt.trim text) =
      ((text.splitOn 124).map fun item => (item.splitOn 44).map StringExt.trim).foldl
        (assign lib) ∅ := by
  have visible : (44 : UInt8) ≠ 32 := by decide
  rw [deserializeTable_eq lib short, StringExt.map_splitOn_trim _ _ (by decide)]
  · exact StringExt.map_splitOn_cons_blank StringExt.trim_cons_blank visible
  · exact StringExt.map_splitOn_append_blank StringExt.trim_append_blank visible

variable [Double R]

/-- An item with three fields sets its entry and leaves all others. -/
theorem getEntry_assign (table : PlatformTable R) (first second value : Str) (rest : List Str)
    (platform advertType : Int32) :
    getEntry (assign lib table (first :: second :: value :: rest)) platform advertType =
      if (Cstdlib.strtol first).toInt32 = platform ∧ (Cstdlib.strtol second).toInt32 = advertType
      then lib.strtod value else getEntry table platform advertType := by
  rw [assign, getEntry, getEntry]
  by_cases first : (Cstdlib.strtol first).toInt32 = platform
  · subst first
    rw [AList.lookup_insert]
    dsimp only
    by_cases second : (Cstdlib.strtol second).toInt32 = advertType
    · subst second
      rw [AList.lookup_insert, if_pos ⟨rfl, rfl⟩, Option.getD_some]
    · rw [AList.lookup_insert_ne (Ne.symm second), if_neg fun both => second both.2]
      cases table.lookup (Cstdlib.strtol _).toInt32 with
      | none => rw [Option.getD_none, AList.lookup_empty, Option.getD_none]
      | some row => rw [Option.getD_some]
  · rw [AList.lookup_insert_ne (Ne.symm first), if_neg fun both => first both.1]

variable {lib}

/-- One item sets its entry, if it has one. -/
theorem getEntry_item (table : PlatformTable R) (item : Item lib) (platform advertType : Int32) :
    getEntry (assign lib table (item.fields.map StringExt.trim)) platform advertType =
      ((item.entry?.filter fun entry =>
        entry.platform = platform ∧ entry.advertType = advertType).map Triple.value).getD
          (getEntry table platform advertType) := by
  cases item with
  | triple entry =>
    have keys := getEntry_assign lib table (StringExt.trim entry.platformText)
      (StringExt.trim entry.advertTypeText) (StringExt.trim entry.valueText) [] platform advertType
    rw [Cstdlib.toInt32_strtol entry.platform_numeral,
      Cstdlib.toInt32_strtol entry.advertType_numeral, entry.strtod_value] at keys
    rw [Item.fields, List.map_cons, List.map_cons, List.map_singleton, keys, Item.entry?]
    by_cases same : entry.platform = platform ∧ entry.advertType = advertType
    · rw [if_pos same, Option.filter_some_pos (by simpa using same), Option.map_some,
        Option.getD_some]
    · rw [if_neg same, Option.filter_some_neg (by simpa using same), Option.map_none,
        Option.getD_none]
  | short fields some few uncut =>
    have skipped : assign lib table (fields.map StringExt.trim) = table := by
      match fields, few with
      | [], _ => rfl
      | [_], _ => rfl
      | [_, _], _ => rfl
    rw [Item.fields, skipped]
    rfl

/-- The items of a table leave at every pair of keys the value of the last entry. -/
theorem getEntry_foldl (items : List (Item lib)) (table : PlatformTable R)
    (platform advertType : Int32) :
    getEntry ((items.map fun item => item.fields.map StringExt.trim).foldl (assign lib) table)
        platform advertType =
      (((triples items).reverse.find? fun entry =>
        entry.platform = platform ∧ entry.advertType = advertType).map Triple.value).getD
          (getEntry table platform advertType) := by
  induction items generalizing table with
  | nil => rfl
  | cons item rest ih =>
    have first : ((item.entry?.toList.reverse).find? fun entry =>
        entry.platform = platform ∧ entry.advertType = advertType) =
        item.entry?.filter fun entry =>
          entry.platform = platform ∧ entry.advertType = advertType := by
      cases item.entry? with
      | none => rfl
      | some entry => rw [Option.toList_some, List.reverse_singleton, List.find?_singleton]; rfl
    have split : triples (item :: rest) = item.entry?.toList ++ triples rest := by
      rw [triples, triples, List.filterMap_cons]
      cases item.entry? <;> rfl
    rw [List.map_cons, List.foldl_cons, ih, getEntry_item, split, List.reverse_append,
      List.find?_append, first, Option.map_or, Option.getD_or]

/-- A table that is read from its text has at every pair of keys the value of the last
entry. -/
theorem getEntry_deserializeTable (items : List (Item lib))
    (short : (StringExt.trim (tableText items)).length < 2 ^ 31) (platform advertType : Int32) :
    getEntry (deserializeTable lib (StringExt.trim (tableText items))) platform advertType =
      lastValue items platform advertType := by
  rw [deserializeTable_trim lib short, lastValue]
  by_cases empty : items = []
  · rw [empty]
    rfl
  · have cut : (tableText items).splitOn 124 = items.map Item.text := by
      refine List.splitOn_intercalate 124 (fun text member => ?_) (by simpa using empty)
      obtain ⟨item, -, rfl⟩ := List.mem_map.mp member
      exact item.bar_not_mem_text
    have fields : (items.map Item.text).map (fun item => (item.splitOn 44).map StringExt.trim) =
        items.map fun item => item.fields.map StringExt.trim := by
      rw [List.map_map]
      exact List.map_congr_left fun item _ => congrArg (List.map StringExt.trim) item.splitOn_text
    rw [cut, fields, getEntry_foldl]
    rfl

end Decode

section Load

variable {R : Type} {lib : DoubleLib R} {lines : List Str}

/-- What the lines give for a name, nothing if there is no line for it, is the text of a
table up to blanks at its ends. -/
def Writes (lines : List Str) (name : String) (items : List (Item lib)) : Prop :=
  (firstValue lines (.ofLiteral name)).getD [] = StringExt.trim (tableText items)

/-- A line with the name and the text of a table gives the table, unless it is blank or an
earlier line has the name and a value. -/
theorem writes_of_line (before after : List Str) {name : String} {nameText : Str}
    {items : List (Item lib)}
    (earlier : ∀ line ∈ before, lineName line = .ofLiteral name → lineValue line = [])
    (named : StringExt.toLower (StringExt.trim nameText) = .ofLiteral name)
    (visible : StringExt.trim (tableText items) ≠ []) (uncut : 61 ∉ nameText ++ tableText items) :
    Writes (before ++ (nameText ++ 61 :: tableText items) :: after) name items := by
  rw [List.mem_append, not_or] at uncut
  have value := lineValue_append uncut.1 uncut.2
  have skipped : before.find? (fun line => lineName line = .ofLiteral name ∧ lineValue line ≠ []) =
      none := by
    rw [List.find?_eq_none]
    intro line listed
    simpa using earlier line listed
  have here : lineName (nameText ++ 61 :: tableText items) = .ofLiteral name ∧
      lineValue (nameText ++ 61 :: tableText items) ≠ [] :=
    ⟨(lineName_append uncut.1 _).trans named, value ▸ visible⟩
  rw [Writes, firstValue, List.find?_append, skipped, Option.none_or,
    List.find?_cons_of_pos, Option.map_some, Option.getD_some, value]
  exact decide_eq_true here

theorem writes_nil {name : String}
    (absent : ∀ line ∈ lines, lineName line ≠ .ofLiteral name) :
    Writes lines name ([] : List (Item lib)) := by
  have skipped : lines.find? (fun line => lineName line = .ofLiteral name ∧ lineValue line ≠ []) =
      none := by
    rw [List.find?_eq_none]
    intro line listed
    simp [absent line listed]
  rw [Writes, firstValue, skipped]
  rfl

theorem tableOf_eq (name : String) :
    tableOf lib lines name =
      deserializeTable lib ((firstValue lines (.ofLiteral name)).getD []) := by
  rw [tableOf]
  cases firstValue lines (.ofLiteral name) with
  | none => rfl
  | some value => rw [Option.map_some, Option.getD_some, Option.getD_some]

theorem length_lineValue_le (line : Str) : (lineValue line).length ≤ line.length := by
  calc
    _ ≤ (((line.dropWhile (· != 61)).drop 1).takeWhile (· != 61)).length :=
      StringExt.length_trim_le _
    _ ≤ ((line.dropWhile (· != 61)).drop 1).length := (List.takeWhile_sublist _).length_le
    _ ≤ (line.dropWhile (· != 61)).length := (List.drop_sublist _ _).length_le
    _ ≤ line.length := (List.dropWhile_sublist _).length_le

theorem length_firstValue_lt (short : ∀ line ∈ lines, line.length < 2 ^ 31) (name : Str) :
    ((firstValue lines name).getD []).length < 2 ^ 31 := by
  cases found : firstValue lines name with
  | none => simp
  | some value =>
    obtain ⟨line, listed, rfl⟩ := Option.map_eq_some_iff.mp found
    exact (length_lineValue_le line).trans_lt (short line (List.mem_of_find?_eq_some listed))

variable [Double R]

/-- A setting is decoded to the table that its line holds. -/
theorem getEntry_tableOf (short : ∀ line ∈ lines, line.length < 2 ^ 31) {name : String}
    {items : List (Item lib)} (written : Writes lines name items) (platform advertType : Int32) :
    getEntry (tableOf lib lines name) platform advertType =
      lastValue items platform advertType := by
  have bound := length_firstValue_lt short (.ofLiteral name)
  rw [written] at bound
  rw [tableOf_eq, written, getEntry_deserializeTable items bound]

/-- After a call, each lookup gives the value of the last entry of its own table with the
two keys, and zero if there is none. -/
structure DecodesTables (text : Str) (bids scales thresholds : List (Item lib)) : Prop where
  minBids : ∀ (self : Param R) (platform advertType : Int32),
    getMinBids (self.load lib (some text)).2 platform advertType =
      lastValue bids platform advertType
  winRateScale : ∀ (self : Param R) (platform advertType : Int32),
    getWinRateScale (self.load lib (some text)).2 platform advertType =
      lastValue scales platform advertType
  winRateThreshold : ∀ (self : Param R) (platform advertType : Int32),
    getWinRateThreshold (self.load lib (some text)).2 platform advertType =
      lastValue thresholds platform advertType

/-- The tables in files whose lines are shorter than `2 ^ 31` are decoded. -/
theorem decodesTables_of_short {text : Str}
    (short : ∀ line ∈ StringExt.lines text, line.length < 2 ^ 31)
    {bids scales thresholds : List (Item lib)}
    (first : Writes (StringExt.lines text) "platform_min_bids" bids)
    (second : Writes (StringExt.lines text) "win_rate_scales" scales)
    (third : Writes (StringExt.lines text) "win_rate_thresholds" thresholds) :
    DecodesTables text bids scales thresholds := by
  refine ⟨?_, ?_, ?_⟩
  · intro self platform advertType
    rw [getMinBids, (tables_of_load lib short self).1, getEntry_tableOf short first]
  · intro self platform advertType
    rw [getWinRateScale, (tables_of_load lib short self).2.1, getEntry_tableOf short second]
  · intro self platform advertType
    rw [getWinRateThreshold, (tables_of_load lib short self).2.2, getEntry_tableOf short third]

end Load

section Trailing

/-- The entry of the platform `-1` and the advert type `0`, with blanks around its numbers. -/
def negativePlatform (valueText : Str) (uncut : 44 ∉ valueText ∧ 124 ∉ valueText) :
    Triple DoubleLib.integral where
  platform := -1
  advertType := 0
  value := DoubleLib.integral.strtod (StringExt.trim valueText)
  platformText := .ofLiteral " -1"
  advertTypeText := .ofLiteral "0 "
  valueText := valueText
  platform_numeral := .minus [49] (by simp) (by simp [Cstdlib.IsDigit])
  advertType_numeral := .plain [48] (by simp) (by simp [Cstdlib.IsDigit])
  strtod_value := rfl
  uncut := by
    rw [List.forall_mem_cons, List.forall_mem_cons, List.forall_mem_singleton]
    exact ⟨by decide, by decide, uncut⟩

/-- An entry, fields that are too few, and a later entry with the same keys. -/
def replaced : List (Item DoubleLib.integral) :=
  [.triple (negativePlatform (.ofLiteral "2") (by decide)),
    .short [.ofLiteral "0", []] (by decide) (by decide) (by decide),
    .triple (negativePlatform (.ofLiteral " 5") (by decide))]

theorem decodesTables_replaced :
    getMinBids
        ((empty : Param ℚ).load DoubleLib.integral
          (some (.ofLiteral "# -1,0,2\nplatform_min_bids = -1,0 ,2|0,| -1,0 , 5\n"))).2
        (-1) 0 = 5 := by
  have decodes : DecodesTables
      (.ofLiteral "# -1,0,2\nplatform_min_bids = -1,0 ,2|0,| -1,0 , 5\n") replaced [] [] := by
    apply decodesTables_of_short
    · decide
    · rw [Writes]
      decide
    · rw [Writes]
      decide
    · rw [Writes]
      decide
  exact (decodes.minBids empty (-1) 0).trans rfl

/-- A table of one entry, with `2 ^ 31` blanks after its value. -/
def trailingTable : List (Item DoubleLib.integral) :=
  [.triple (negativePlatform (Str.ofLiteral "5" ++ List.replicate (2 ^ 31) 32) (by
    rw [List.mem_append, List.mem_append, List.mem_replicate, List.mem_replicate]
    decide))]

/-- The line of that table. -/
def trailingLine : Str := Str.ofLiteral "win_rate_scales" ++ 61 :: tableText trailingTable

theorem tableText_trailingTable :
    tableText trailingTable = Str.ofLiteral " -1,0 ,5" ++ List.replicate (2 ^ 31) 32 := by
  rw [tableText, trailingTable, List.map_singleton, List.intercalate_singleton, Item.text,
    Item.fields, negativePlatform, List.intercalate_cons_cons, List.intercalate_cons_cons,
    List.intercalate_singleton]
  rfl

/-- The line is dropped: its length is negative as an `int`. -/
theorem not_decodesTables_trailing :
    Writes (StringExt.lines trailingLine) "platform_min_bids"
        ([] : List (Item DoubleLib.integral)) ∧
      Writes (StringExt.lines trailingLine) "win_rate_scales" trailingTable ∧
      Writes (StringExt.lines trailingLine) "win_rate_thresholds"
        ([] : List (Item DoubleLib.integral)) ∧
      ¬DecodesTables trailingLine [] trailingTable [] := by
  have oneLine : 10 ∉ trailingLine := by
    rw [trailingLine, tableText_trailingTable, List.mem_append, List.mem_cons, List.mem_append,
      List.mem_replicate]
    decide
  have length : trailingLine.length = 2 ^ 31 + 24 := by
    rw [trailingLine, tableText_trailingTable, List.length_append, List.length_cons,
      List.length_append, List.length_replicate]
    rfl
  have named : lineName trailingLine = .ofLiteral "win_rate_scales" := by
    rw [trailingLine, lineName_append (by decide)]
    decide
  have value : lastValue trailingTable (-1) 0 = (5 : ℚ) := by
    have entry : lastValue trailingTable (-1) 0 = DoubleLib.integral.strtod
        (StringExt.trim (Str.ofLiteral "5" ++ List.replicate (2 ^ 31) 32)) := rfl
    rw [entry, StringExt.trim_append_blanks]
    rfl
  have other {name : String} (different : Str.ofLiteral "win_rate_scales" ≠ .ofLiteral name) :
      Writes [trailingLine] name ([] : List (Item DoubleLib.integral)) :=
    writes_nil (List.forall_mem_singleton.mpr (named ▸ different))
  rw [StringExt.lines_eq_singleton oneLine]
  refine ⟨other (by decide), ?_, other (by decide), ?_⟩
  · apply writes_of_line [] [] (List.forall_mem_nil _) (by decide)
    · rw [tableText_trailingTable, StringExt.trim_append_blanks]
      decide
    · rw [tableText_trailingTable, List.mem_append, List.mem_append, List.mem_replicate]
      decide
  · intro decodes
    have wrong := decodes.winRateScale empty (-1) 0
    have absent : getWinRateScale (empty : Param ℚ) (-1) 0 = 0.0 := rfl
    rw [load_of_long _ oneLine (by omega) (by omega), absent, value] at wrong
    norm_num at wrong

end Trailing

end Param

end FlowRetrieval
