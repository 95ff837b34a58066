/-
# String helpers

`std::string` is a list of bytes. `split` is the scan of `util::StringExt::Split`
with the begin index of the current field. `splitLoop` is the same scan with the
32-bit indices of the source: it gives the same fields on strings shorter than
`2 ^ 32` bytes and does not end on longer ones.
-/
import Mathlib.Algebra.Order.BigOperators.Group.List
import Mathlib.Algebra.Order.Ring.Nat
import Mathlib.Data.List.GetD

namespace FlowRetrieval

/-- `std::string`. -/
abbrev Str := List UInt8

namespace Str

/-- The bytes of an ASCII literal of the source. -/
def ofLiteral (text : String) : Str := text.toList.map fun c => UInt8.ofNat c.toNat

/-- `operator<=` of `std::string`, which compares bytes as unsigned numbers. -/
def ble (first second : Str) : Bool := !second.lex first fun x y => decide (x < y)

end Str

namespace StringExt

/-- `substr(begin, count)`. -/
def substr (str : Str) (begin count : ℕ) : Str := (str.drop begin).take count

/-- The loop of one-level `Split` from index `i` on, with `remaining` characters
still to scan and the current field starting at `begin`. -/
def splitFrom (str : Str) (separator : UInt8) : ℕ → ℕ → ℕ → List Str
  | 0, _, begin => [substr str begin (str.length - begin)]
  | remaining + 1, i, begin =>
    if str.getD i 0 = separator then
      substr str begin (i - begin) :: splitFrom str separator remaining (i + 1) (i + 1)
    else splitFrom str separator remaining (i + 1) begin

/-- `Split(const std::string&, char, std::vector<std::string>&)`. -/
def split (str : Str) (separator : UInt8) : List Str := splitFrom str separator str.length 0 0

/-- The loop of one-level `Split` with its indices of 32 bits; `none` when the fuel
runs out. -/
def splitLoop (str : Str) (separator : UInt8) : ℕ → UInt32 → UInt32 → Option (List Str)
  | 0, _, _ => none
  | fuel + 1, i, begin =>
    if i.toNat < str.length then
      if str.getD i.toNat 0 = separator then
        (splitLoop str separator fuel (i + 1) (i + 1)).map
          (substr str begin.toNat (i - begin).toNat :: ·)
      else splitLoop str separator fuel (i + 1) begin
    else some [substr str begin.toNat (str.length - begin.toNat)]

/-- A call of one-level `Split`; `none` when it does not return. -/
def splitCall (str : Str) (separator : UInt8) : Option (List Str) :=
  splitLoop str separator (str.length + 1) 0 0

/-- The loop of two-level `Split`, with the fields of the current group in `buffer`. -/
def split2From (str : Str) (sepFirst sepSecond : UInt8) :
    ℕ → ℕ → ℕ → List Str → List (List Str)
  | 0, _, begin, buffer => [buffer ++ [substr str begin (str.length - begin)]]
  | remaining + 1, i, begin, buffer =>
    if str.getD i 0 = sepSecond then
      split2From str sepFirst sepSecond remaining (i + 1) (i + 1)
        (buffer ++ [substr str begin (i - begin)])
    -- the first separator ends a group
    else if str.getD i 0 = sepFirst then
      (buffer ++ [substr str begin (i - begin)]) ::
        split2From str sepFirst sepSecond remaining (i + 1) (i + 1) []
    else split2From str sepFirst sepSecond remaining (i + 1) begin buffer

/-- `Split(const std::string&, char, char, std::vector<std::vector<std::string>>&)`. -/
def split2 (str : Str) (sepFirst sepSecond : UInt8) : List (List Str) :=
  split2From str sepFirst sepSecond str.length 0 0 []

/-- The loop of two-level `Split` with its indices of 32 bits; `none` when the fuel
runs out. -/
def split2Loop (str : Str) (sepFirst sepSecond : UInt8) :
    ℕ → UInt32 → UInt32 → List Str → Option (List (List Str))
  | 0, _, _, _ => none
  | fuel + 1, i, begin, buffer =>
    if i.toNat < str.length then
      if str.getD i.toNat 0 = sepSecond then
        split2Loop str sepFirst sepSecond fuel (i + 1) (i + 1)
          (buffer ++ [substr str begin.toNat (i - begin).toNat])
      else if str.getD i.toNat 0 = sepFirst then
        (split2Loop str sepFirst sepSecond fuel (i + 1) (i + 1) []).map
          ((buffer ++ [substr str begin.toNat (i - begin).toNat]) :: ·)
      else split2Loop str sepFirst sepSecond fuel (i + 1) begin buffer
    else some [buffer ++ [substr str begin.toNat (str.length - begin.toNat)]]

/-- A call of two-level `Split`; `none` when it does not return. -/
def split2Call (str : Str) (sepFirst sepSecond : UInt8) : Option (List (List Str)) :=
  split2Loop str sepFirst sepSecond (str.length + 1) 0 0 []

/-- `ToLower`. -/
def toLower (str : Str) : Str := str.map fun c => if c ≤ 90 ∧ 65 ≤ c then c + 32 else c

/-- `ToUpper`. -/
def toUpper (str : Str) : Str := str.map fun c => if c ≤ 122 ∧ 97 ≤ c then c - 32 else c

/-- A string without the blanks at both ends. -/
def trim (str : Str) : Str := ((str.dropWhile (· == 32)).reverse.dropWhile (· == 32)).reverse

/-- `Strip`, which takes the length of the string as an `int`. -/
def strip (str : Str) : Str := trim (str.take (Int32.ofNat str.length).toNatClampNeg)

/-- The lines a loop over `getline` until `eof` sees: the text split at every
newline, with a last empty line after a final newline. -/
def lines (text : Str) : List Str := split text 10

/-- The lines of a text are short enough for the indices of `Split`. -/
def ShortLines (text : Str) : Prop := ∀ line ∈ lines text, line.length < 2 ^ 32

instance (text : Str) : Decidable (ShortLines text) :=
  inferInstanceAs (Decidable (∀ line ∈ lines text, line.length < 2 ^ 32))

/-- A loop that parses line after line and skips those that `parse` rejects; `none` when a call
does not return. -/
def parseAll {α : Type} (parse : Str → Option (Option α)) : List Str → Option (List α)
  | [] => some []
  | line :: rest => do
    let result ← parse line
    let results ← parseAll parse rest
    return result.toList ++ results

/-- The loop over the lines of a text. -/
def parseLines {α : Type} (parse : Str → Option (Option α)) (text : Str) : Option (List α) :=
  parseAll parse (lines text)

/-- The lines of a text that are parsed and not skipped, as `parse` reads them. -/
def parsed {α : Type} (parse : Str → Option (Option α)) (text : Str) : List α :=
  (lines text).filterMap fun line => (parse line).join

/-- The index after one inside a shorter string. -/
theorem toNat_next {str : Str} {i : UInt32} (short : str.length < 2 ^ 32)
    (inside : i.toNat < str.length) : (i + 1).toNat = i.toNat + 1 := by
  rw [UInt32.toNat_add, UInt32.toNat_one, Nat.mod_eq_of_lt (by omega)]

section Split

variable (str : Str) (separator : UInt8)

/-- On a shorter string the 32-bit indices do not wrap around. -/
theorem splitLoop_eq_some {fuel : ℕ} {i begin : UInt32} (short : str.length < 2 ^ 32)
    (inside : i.toNat ≤ str.length) (started : begin.toNat ≤ i.toNat)
    (enough : str.length - i.toNat < fuel) :
    splitLoop str separator fuel i begin =
      some (splitFrom str separator (str.length - i.toNat) i.toNat begin.toNat) := by
  induction fuel generalizing i begin with
  | zero => omega
  | succ fuel ih =>
    rw [splitLoop]
    by_cases more : i.toNat < str.length
    · have next := toNat_next short more
      have left : str.length - i.toNat = str.length - (i + 1).toNat + 1 := by omega
      rw [if_pos more, left, splitFrom, next]
      by_cases atSeparator : str.getD i.toNat 0 = separator
      · have width : (i - begin).toNat = i.toNat - begin.toNat :=
          UInt32.toNat_sub_of_le _ _ (UInt32.le_iff_toNat_le.mpr started)
        rw [if_pos atSeparator, if_pos atSeparator, width,
          ih (by omega) (by omega) (by omega), next, Option.map_some]
      · rw [if_neg atSeparator, if_neg atSeparator, ih (by omega) (by omega) (by omega), next]
    · have done : str.length - i.toNat = 0 := by omega
      rw [if_neg more, done, splitFrom]

/-- On a longer string the index wraps around before it reaches the end, however long
the loop runs. -/
theorem splitLoop_eq_none {fuel : ℕ} {i begin : UInt32} (long : 2 ^ 32 ≤ str.length) :
    splitLoop str separator fuel i begin = none := by
  induction fuel generalizing i begin with
  | zero => rfl
  | succ fuel ih =>
    have more : i.toNat < str.length := Nat.lt_of_lt_of_le i.toNat_lt long
    rw [splitLoop, if_pos more, ih, ih, Option.map_none, ite_self]

theorem substr_succ_sub {begin i : ℕ} (started : begin ≤ i) (inside : i < str.length) :
    substr str begin (i + 1 - begin) = substr str begin (i - begin) ++ [str[i]] := by
  have last : begin + (i - begin) = i := by omega
  rw [substr, substr, Nat.succ_sub started, List.take_add_one, List.getElem?_drop, last,
    List.getElem?_eq_getElem inside, Option.toList_some]

theorem modifyHead_substr_zero (begin : ℕ) (fields : List Str) :
    fields.modifyHead (substr str begin 0 ++ ·) = fields := by
  cases fields <;> rfl

theorem splitFrom_eq {remaining i begin : ℕ} (scanned : i + remaining = str.length)
    (started : begin ≤ i) :
    splitFrom str separator remaining i begin =
      ((str.drop i).splitOn separator).modifyHead (substr str begin (i - begin) ++ ·) := by
  induction remaining generalizing i begin with
  | zero =>
    have done : i = str.length := by omega
    rw [splitFrom, List.drop_of_length_le (by omega), List.splitOn_nil, done]
    simp
  | succ remaining ih =>
    have inside : i < str.length := by omega
    rw [splitFrom, List.drop_eq_getElem_cons inside, List.splitOn_cons_eq_if_modifyHead,
      List.getD_eq_getElem _ _ inside]
    by_cases atSeparator : str[i] = separator
    · rw [if_pos atSeparator, if_pos (beq_iff_eq.mpr atSeparator),
        ih (by omega) (Nat.le_refl _), Nat.sub_self, modifyHead_substr_zero,
        List.modifyHead_cons, List.append_nil]
    · rw [if_neg atSeparator, if_neg (by simpa using atSeparator), ih (by omega) (by omega),
        List.modifyHead_modifyHead, substr_succ_sub str started inside]
      congr 1
      funext field
      simp

/-- `Split` cuts a string at every separator. -/
theorem split_eq_splitOn : split str separator = str.splitOn separator := by
  rw [split, splitFrom_eq str separator (Nat.zero_add _) (Nat.le_refl _), Nat.sub_self,
    modifyHead_substr_zero, List.drop_zero]

/-- `Split` returns on a shorter string. -/
theorem splitCall_eq_some (short : str.length < 2 ^ 32) :
    splitCall str separator = some (str.splitOn separator) := by
  rw [splitCall, splitLoop_eq_some str separator short (Nat.zero_le _) (Nat.le_refl _) (by simp),
    ← split_eq_splitOn, split]
  rfl

/-- And on no other. -/
theorem splitCall_eq :
    splitCall str separator = if str.length < 2 ^ 32 then some (split str separator) else none := by
  by_cases short : str.length < 2 ^ 32
  · rw [if_pos short, splitCall_eq_some str separator short, split_eq_splitOn]
  · rw [if_neg short, splitCall, splitLoop_eq_none str separator (not_lt.mp short)]

theorem isSome_splitCall : (splitCall str separator).isSome ↔ str.length < 2 ^ 32 := by
  rw [splitCall_eq]
  split
  · rename_i short
    exact iff_of_true rfl short
  · rename_i long
    exact iff_of_false (by decide) long

/-- The fields and the separators between them make up the string. -/
theorem sum_length_splitOn :
    ((str.splitOn separator).map List.length).sum + (str.splitOn separator).length =
      str.length + 1 := by
  induction str with
  | nil => rw [List.splitOn_nil]; rfl
  | cons c rest ih =>
    rw [List.splitOn_cons_eq_if_modifyHead]
    split
    · simp only [List.map_cons, List.length_nil, List.sum_cons, List.length_cons]
      omega
    · cases cut : rest.splitOn separator with
      | nil => exact absurd cut (List.splitOn_ne_nil _ _)
      | cons field fields =>
        simp only [cut, List.modifyHead_cons, List.map_cons, List.sum_cons,
          List.length_cons] at ih ⊢
        omega

theorem length_le_of_mem_splitOn {field : Str} (member : field ∈ str.splitOn separator) :
    field.length ≤ str.length := by
  have total := sum_length_splitOn str separator
  have counted := List.le_sum_of_mem (List.mem_map_of_mem (f := List.length) member)
  have fields := List.length_pos_of_mem member
  omega

variable {str separator} in
/-- The fields of a shorter string can be split again. -/
theorem splitCall_of_mem_split {field : Str} (short : str.length < 2 ^ 32)
    (member : field ∈ split str separator) (other : UInt8) :
    splitCall field other = some (split field other) := by
  rw [split_eq_splitOn] at member
  rw [splitCall_eq, if_pos ((length_le_of_mem_splitOn str separator member).trans_lt short)]

/-- Two different fields fit into the string together with a separator. -/
theorem length_add_lt_of_splitOn_eq {before after : List Str} {field other : Str}
    (cut : str.splitOn separator = before ++ field :: after) (member : other ∈ before ++ after) :
    other.length + field.length < str.length := by
  have total := sum_length_splitOn str separator
  have counted := List.le_sum_of_mem (List.mem_map_of_mem (f := List.length) member)
  have fields := List.length_pos_of_mem member
  simp only [cut, List.map_append, List.map_cons, List.sum_append, List.sum_cons,
    List.length_append, List.length_cons] at total counted fields
  omega

/-- A string of fewer than `2 ^ 32` fields has a number of fields that `Split` can
return. -/
theorem toUInt32_length_splitOn_ne_zero (short : str.length + 1 < 2 ^ 32) :
    UInt32.ofNat (str.splitOn separator).length ≠ 0 := by
  have total := sum_length_splitOn str separator
  have some := List.length_pos_of_ne_nil (List.splitOn_ne_nil separator str)
  intro zero
  have wrapped := congrArg UInt32.toNat zero
  rw [UInt32.toNat_ofNat_of_lt' (show _ < 2 ^ 32 by omega), UInt32.toNat_zero] at wrapped
  omega

end Split

section Split2

variable (str : Str) {sepFirst sepSecond : UInt8}

/-- On a shorter string the 32-bit indices do not wrap around. -/
theorem split2Loop_eq_some {fuel : ℕ} {i begin : UInt32} {buffer : List Str}
    (short : str.length < 2 ^ 32) (inside : i.toNat ≤ str.length)
    (started : begin.toNat ≤ i.toNat) (enough : str.length - i.toNat < fuel) :
    split2Loop str sepFirst sepSecond fuel i begin buffer =
      some (split2From str sepFirst sepSecond (str.length - i.toNat) i.toNat begin.toNat
        buffer) := by
  induction fuel generalizing i begin buffer with
  | zero => omega
  | succ fuel ih =>
    rw [split2Loop]
    by_cases more : i.toNat < str.length
    · have next := toNat_next short more
      have left : str.length - i.toNat = str.length - (i + 1).toNat + 1 := by omega
      have width : (i - begin).toNat = i.toNat - begin.toNat :=
        UInt32.toNat_sub_of_le _ _ (UInt32.le_iff_toNat_le.mpr started)
      rw [if_pos more, left, split2From, next, width]
      by_cases atSecond : str.getD i.toNat 0 = sepSecond
      · rw [if_pos atSecond, if_pos atSecond, ih (by omega) (by omega) (by omega), next]
      · rw [if_neg atSecond, if_neg atSecond]
        by_cases atFirst : str.getD i.toNat 0 = sepFirst
        · rw [if_pos atFirst, if_pos atFirst, ih (by omega) (by omega) (by omega), next,
            Option.map_some]
        · rw [if_neg atFirst, if_neg atFirst, ih (by omega) (by omega) (by omega), next]
    · have done : str.length - i.toNat = 0 := by omega
      rw [if_neg more, done, split2From]

theorem split2Loop_eq_none {fuel : ℕ} {i begin : UInt32} {buffer : List Str}
    (long : 2 ^ 32 ≤ str.length) :
    split2Loop str sepFirst sepSecond fuel i begin buffer = none := by
  induction fuel generalizing i begin buffer with
  | zero => rfl
  | succ fuel ih =>
    have more : i.toNat < str.length := Nat.lt_of_lt_of_le i.toNat_lt long
    rw [split2Loop, if_pos more, ih, ih, ih, Option.map_none, ite_self, ite_self]

theorem split2From_eq (different : sepFirst ≠ sepSecond) {remaining i begin : ℕ}
    {buffer : List Str} (scanned : i + remaining = str.length) (started : begin ≤ i) :
    split2From str sepFirst sepSecond remaining i begin buffer =
      (((str.drop i).splitOn sepFirst).map (·.splitOn sepSecond)).modifyHead fun fields =>
        buffer ++ fields.modifyHead (substr str begin (i - begin) ++ ·) := by
  induction remaining generalizing i begin buffer with
  | zero =>
    have done : i = str.length := by omega
    rw [split2From, List.drop_of_length_le (by omega), List.splitOn_nil, done]
    simp
  | succ remaining ih =>
    have inside : i < str.length := by omega
    rw [split2From, List.drop_eq_getElem_cons inside, List.splitOn_cons_eq_if_modifyHead,
      List.getD_eq_getElem _ _ inside]
    -- the scan goes on within the first field of the rest
    obtain ⟨field, fields, cut⟩ :=
      List.exists_cons_of_ne_nil (List.splitOn_ne_nil sepFirst (str.drop (i + 1)))
    by_cases atSecond : str[i] = sepSecond
    · have notFirst : ¬(str[i] == sepFirst) = true := by
        rw [beq_iff_eq, atSecond]
        exact Ne.symm different
      rw [if_pos atSecond, if_neg notFirst, ih (by omega) (Nat.le_refl _), Nat.sub_self, cut]
      simp only [List.modifyHead_cons, List.map_cons, List.splitOn_cons_eq_if_modifyHead]
      rw [if_pos (beq_iff_eq.mpr atSecond), modifyHead_substr_zero]
      simp
    · rw [if_neg atSecond]
      by_cases atFirst : str[i] = sepFirst
      · rw [if_pos atFirst, if_pos (beq_iff_eq.mpr atFirst), ih (by omega) (Nat.le_refl _),
          Nat.sub_self]
        simp [modifyHead_substr_zero, cut]
      · rw [if_neg atFirst, if_neg (by simpa using atFirst), ih (by omega) (by omega), cut,
          substr_succ_sub str started inside]
        simp only [List.modifyHead_cons, List.map_cons, List.splitOn_cons_eq_if_modifyHead]
        rw [if_neg (by simpa using atSecond), List.modifyHead_modifyHead]
        congr 3
        funext field
        simp

/-- Two-level `Split` cuts every field of the first level at the second separator. -/
theorem split2_eq_splitOn (different : sepFirst ≠ sepSecond) :
    split2 str sepFirst sepSecond = (str.splitOn sepFirst).map (·.splitOn sepSecond) := by
  obtain ⟨field, fields, cut⟩ :=
    List.exists_cons_of_ne_nil (List.splitOn_ne_nil sepFirst str)
  rw [split2, split2From_eq str different (Nat.zero_add _) (Nat.le_refl _), List.drop_zero,
    Nat.sub_self]
  simp [modifyHead_substr_zero, cut]

/-- It returns on a shorter string. -/
theorem split2Call_eq_some (different : sepFirst ≠ sepSecond) (short : str.length < 2 ^ 32) :
    split2Call str sepFirst sepSecond =
      some ((str.splitOn sepFirst).map (·.splitOn sepSecond)) := by
  rw [split2Call, split2Loop_eq_some str short (Nat.zero_le _) (Nat.le_refl _) (by simp),
    ← split2_eq_splitOn str different, split2]
  rfl

end Split2

section Lines

variable {α : Type} {parse : Str → Option (Option α)}
  (returns : ∀ line, (parse line).isSome ↔ line.length < 2 ^ 32)

include returns

theorem parseAll_eq (all : List Str) :
    parseAll parse all =
      if ∀ line ∈ all, line.length < 2 ^ 32 then some (all.filterMap fun line => (parse line).join)
      else none := by
  induction all with
  | nil => rfl
  | cons line rest ih =>
    have cut : (∀ other ∈ line :: rest, other.length < 2 ^ 32) ↔
        line.length < 2 ^ 32 ∧ ∀ other ∈ rest, other.length < 2 ^ 32 := List.forall_mem_cons
    have short := returns line
    rw [parseAll, if_congr cut rfl rfl, List.filterMap_cons]
    cases read : parse line with
    | none =>
      have long : ¬ line.length < 2 ^ 32 := by
        rw [← short, read]
        exact Bool.false_ne_true
      exact (if_neg fun both => long both.1).symm
    | some result =>
      have within : line.length < 2 ^ 32 := short.mp (Option.isSome_of_eq_some read)
      rw [ih]
      by_cases others : ∀ other ∈ rest, other.length < 2 ^ 32
      · rw [if_pos others, if_pos ⟨within, others⟩]
        cases result <;> rfl
      · rw [if_neg others, if_neg fun both => others both.2]
        rfl

/-- A loop over lines returns on texts of short lines. -/
theorem parseLines_eq_some_iff {text : Str} {results : List α} :
    parseLines parse text = some results ↔ ShortLines text ∧ parsed parse text = results := by
  rw [parseLines, parseAll_eq returns, ShortLines, parsed]
  split
  · rename_i short
    rw [Option.some_inj, and_iff_right short]
  · rename_i long
    exact iff_of_false (fun h => nomatch h) fun both => long both.1

end Lines

/-- A text without newlines is one line. -/
theorem lines_eq_singleton {text : Str} (oneLine : 10 ∉ text) : lines text = [text] := by
  rw [lines, split_eq_splitOn, List.splitOn_eq_singleton oneLine]

/-- A character that is neither in the fields nor between them. -/
theorem not_mem_intercalate {separator c : UInt8} (different : c ≠ separator) {fields : List Str}
    (absent : ∀ field ∈ fields, c ∉ field) : c ∉ [separator].intercalate fields := by
  induction fields with
  | nil => simp
  | cons field rest ih =>
    have later := ih fun other member => absent other (List.mem_cons_of_mem _ member)
    cases rest with
    | nil => simpa using absent field List.mem_cons_self
    | cons next rest =>
      rw [List.intercalate_cons_cons]
      simp [absent field List.mem_cons_self, different, later]

/-- Up to the largest `int`, `Strip` drops the blanks at both ends. -/
theorem strip_eq_trim {str : Str} (short : str.length < 2 ^ 31) : strip str = trim str := by
  rw [strip, Int32.toNatClampNeg_ofNat_of_lt short, List.take_length]

/-- Above it, up to the range of `unsigned`, the length is negative and nothing is left. -/
theorem strip_eq_nil {str : Str} (long : 2 ^ 31 ≤ str.length) (short : str.length < 2 ^ 32) :
    strip str = [] := by
  have length : (Int32.ofNat str.length).toNatClampNeg = 0 := by
    have size : Int32.size = 2 ^ 32 := rfl
    rw [Int32.toNatClampNeg, Int32.toInt_ofNat', Int.bmod_def, size]
    omega
  rw [strip, length, List.take_zero]
  rfl

end StringExt

end FlowRetrieval
