/-
# The text of a step function

A step function is written as values and split points in turn, `v0|s1|v1|...|sn|vn`,
with blanks around the numbers and empty tokens allowed. `Param::Deserialize` sorts
the split points and leaves the values where they are. So it gives a text its meaning
exactly when reading the values in ascending order of their split points changes
nothing, provided that the 32-bit index of `Split` and the `int` of `Strip` are large
enough for the text.

## Main results

* `Param.getValue_ofTable` — the function that `Deserialize` makes from the numbers of a text
* `Param.meansText_iff` — the texts that get their meaning
-/
import FlowRetrieval.Common.StepSearch
import FlowRetrieval.Service.Param
import Mathlib.Algebra.Order.Ring.Rat

namespace FlowRetrieval

open CS (StepTable)

namespace Param

section Numbers

variable {R : Type} (lib : DoubleLib R) (text : Str)

theorem length_alternate (array : List R) :
    (alternate array).1.length = (array.length + 1) / 2 ∧
      (alternate array).2.length = array.length / 2 := by
  fun_induction alternate array with
  | case1 => simp
  | case2 => simp
  | case3 x y rest values splits same ih =>
    simp only [same, List.length_cons] at ih ⊢
    omega

/-- The entries of a table at even positions are its values, the ones at odd positions
its keys. -/
theorem alternate_entries (table : StepTable R R) :
    alternate table.entries = (table.values, table.keys) := by
  obtain ⟨first, steps⟩ := table
  induction steps generalizing first with
  | nil => rfl
  | cons step steps ih =>
    have rest := ih step.2
    simp only [StepTable.entries, StepTable.values, StepTable.keys, List.flatMap_cons,
      List.map_cons, List.cons_append, List.nil_append] at rest ⊢
    rw [alternate, rest]

/-- The numeric tokens of a text: its fields without the blanks around them, the empty
ones left out. -/
def tokens : List Str :=
  ((text.splitOn 124).map StringExt.trim).filter fun token => !token.isEmpty

/-- The numbers of a text in the order in which they are written. -/
def numbers : List R := (tokens text).map lib.strtod

/-- The numbers that `Deserialize` reads. -/
def readNumbers : List R :=
  (((text.splitOn 124).map StringExt.strip).filter fun token => !token.isEmpty).map lib.strtod

/-- No token is too long for the `int` with which `Strip` measures it. -/
def Strippable : Prop :=
  ∀ field ∈ text.splitOn 124, StringExt.trim field ≠ [] → field.length < 2 ^ 31

/-- A blank field leaves nothing however long it is, and a short one what is between
its blanks. -/
theorem strip_eq_trim_of_mem {text field : Str} (short : text.length < 2 ^ 32)
    (member : field ∈ text.splitOn 124)
    (fits : StringExt.trim field ≠ [] → field.length < 2 ^ 31) :
    StringExt.strip field = StringExt.trim field := by
  by_cases small : field.length < 2 ^ 31
  · exact StringExt.strip_eq_trim small
  · have blank : StringExt.trim field = [] := not_not.mp (mt fits small)
    have bounded := (StringExt.length_le_of_mem_splitOn text 124 member).trans_lt short
    rw [blank, StringExt.strip_eq_nil (not_lt.mp small) bounded]

/-- With tokens that are short enough, `Deserialize` reads the numbers of the text. -/
theorem readNumbers_of_strippable {text : Str} (short : text.length < 2 ^ 32)
    (strippable : Strippable text) : readNumbers lib text = numbers lib text := by
  have stripped : (text.splitOn 124).map StringExt.strip =
      (text.splitOn 124).map StringExt.trim :=
    List.map_congr_left fun field member =>
      strip_eq_trim_of_mem short member (strippable field member)
  rw [readNumbers, stripped, numbers, tokens]

/-- A token that is too long is dropped, and there is no room for a second one. -/
theorem length_readNumbers_of_not_strippable {text : Str} (short : text.length < 2 ^ 32)
    (unstrippable : ¬Strippable text) :
    (readNumbers lib text).length + 1 = (numbers lib text).length := by
  simp only [Strippable, not_forall] at unstrippable
  obtain ⟨field, member, token, long⟩ := unstrippable
  obtain ⟨before, after, cut⟩ := List.append_of_mem member
  have others : ∀ other ∈ before ++ after, StringExt.strip other = StringExt.trim other := by
    intro other listed
    have room := StringExt.length_add_lt_of_splitOn_eq text 124 cut listed
    exact StringExt.strip_eq_trim (by omega)
  have dropped : StringExt.strip field = [] :=
    StringExt.strip_eq_nil (not_lt.mp long)
      ((StringExt.length_le_of_mem_splitOn text 124 member).trans_lt short)
  have first : before.map StringExt.strip = before.map StringExt.trim :=
    List.map_congr_left fun other listed => others other (List.mem_append_left _ listed)
  have last : after.map StringExt.strip = after.map StringExt.trim :=
    List.map_congr_left fun other listed => others other (List.mem_append_right _ listed)
  have kept : (!(StringExt.trim field).isEmpty) = true := by simpa using token
  simp only [readNumbers, numbers, tokens, cut, List.map_append, List.map_cons, first, last,
    dropped, List.filter_append, List.length_map, List.length_append]
  rw [List.filter_cons_of_neg (by simp), List.filter_cons, if_pos kept, List.length_cons]
  omega

end Numbers

section Deserialize

variable {R : Type} [Double R] (lib : DoubleLib R) (text : Str)

/-- `Deserialize` of a step function, with `none` for a call that does not return
because the loop of `Split` does not end. -/
def callDeserialize : Option (ℤ × StepFunction R) :=
  (StringExt.splitCall text 124).map fun _ => deserializeFunction lib text

theorem callDeserialize_eq_some (short : text.length < 2 ^ 32) :
    callDeserialize lib text = some (deserializeFunction lib text) := by
  rw [callDeserialize, StringExt.splitCall_eq_some text 124 short, Option.map_some]

theorem length_lt_of_callDeserialize {outcome : ℤ × StepFunction R}
    (returned : callDeserialize lib text = some outcome) : text.length < 2 ^ 32 := by
  by_contra long
  rw [callDeserialize, StringExt.splitCall, StringExt.splitLoop_eq_none text 124 (not_lt.mp long)]
    at returned
  cases returned

/-- The step function that `Deserialize` makes from the entries of a table. -/
def ofTable (table : StepTable R R) : StepFunction R :=
  (StepFunction.empty.setValues table.values).setSplits table.keys

/-- An even number of numbers is refused. -/
theorem deserializeFunction_of_even (even : Even (readNumbers lib text).length) :
    deserializeFunction lib text = (-1, .empty) := by
  have lengths := length_alternate (readNumbers lib text)
  have uneven : (alternate (readNumbers lib text)).1.length ≠
      (alternate (readNumbers lib text)).2.length + 1 := by
    obtain ⟨half, twice⟩ := even
    omega
  simp only [deserializeFunction, StringExt.split_eq_splitOn]
  exact if_pos uneven

/-- An odd number of numbers is accepted. -/
theorem deserializeFunction_of_odd (odd : Odd (readNumbers lib text).length) :
    (deserializeFunction lib text).1 = 0 := by
  have lengths := length_alternate (readNumbers lib text)
  have fits : ¬(alternate (readNumbers lib text)).1.length ≠
      (alternate (readNumbers lib text)).2.length + 1 := by
    obtain ⟨half, twice⟩ := odd
    omega
  simp only [deserializeFunction, StringExt.split_eq_splitOn]
  exact congrArg Prod.fst (if_neg fits)

theorem deserializeFunction_of_entries {table : StepTable R R}
    (written : readNumbers lib text = table.entries) :
    deserializeFunction lib text = (0, ofTable table) := by
  have fits : ¬table.values.length ≠ table.keys.length + 1 := by simp
  simp only [deserializeFunction, StringExt.split_eq_splitOn]
  rw [← readNumbers, written, alternate_entries]
  exact if_neg fits

end Deserialize

section Meaning

variable (lib : DoubleLib ℚ) (text : Str)

/-- The step function that `Deserialize` makes from a table counts the split points
below `x` and gives the value at that place of the text. -/
theorem getValue_ofTable (table : StepTable ℚ ℚ) (few : table.steps.length < 2 ^ 31) (x : ℚ) :
    (ofTable table).getValue x = table.values.getD (table.keys.countP (· < x)) 0.0 := by
  have valid : table.values.length = table.keys.length + 1 := by simp
  exact StepFunction.getValue_setSplits _ valid (by rw [StepTable.length_keys]; exact few.le) x

/-- `Deserialize` gives the text its meaning: a text of values and different split
points in turn is accepted and its function takes at every `x` the value written after
the greatest split point below `x`; an even number of numbers is refused and leaves a
function that is zero everywhere. -/
def MeansText : Prop :=
  (∀ table : StepTable ℚ ℚ, numbers lib text = table.entries → table.keys.Nodup →
      ∃ function, callDeserialize lib text = some (0, function) ∧
        ∀ x, table.IsValueAt x (function.getValue x)) ∧
    (Even (numbers lib text).length →
      ∃ function, callDeserialize lib text = some (-1, function) ∧
        ∀ x, function.getValue x = 0)

/-- A text has too few bytes for `2 ^ 31` split points. -/
theorem length_steps_lt {text : Str} (short : text.length < 2 ^ 32) {table : StepTable ℚ ℚ}
    (written : numbers lib text = table.entries) : table.steps.length < 2 ^ 31 := by
  have total := StringExt.sum_length_splitOn text 124
  have kept : (numbers lib text).length ≤ (text.splitOn 124).length := by
    rw [numbers, tokens, List.length_map]
    exact (List.length_filter_le _ _).trans (List.length_map _).le
  rw [written, StepTable.length_entries] at kept
  omega

/-- When the call returns a code that fits the number of the tokens, no token was
dropped. -/
theorem strippable_of_callDeserialize {text : Str} {outcome : ℤ × StepFunction ℚ}
    (returned : callDeserialize lib text = some outcome)
    (fits : outcome.1 = 0 ↔ Odd (numbers lib text).length) : Strippable text := by
  have short := length_lt_of_callDeserialize lib text returned
  rw [callDeserialize_eq_some lib text short, Option.some.injEq] at returned
  subst returned
  by_contra unstrippable
  have fewer := length_readNumbers_of_not_strippable lib short unstrippable
  rw [← fewer, Nat.odd_add_one, Nat.not_odd_iff_even] at fits
  by_cases even : Even (readNumbers lib text).length
  · have code := fits.mpr even
    rw [deserializeFunction_of_even lib text even] at code
    cases code
  · exact even (fits.mp (deserializeFunction_of_odd lib text (Nat.not_even_iff_odd.mp even)))

/-- A text with numbers that make a table of different split points, or with an even
number of them, gets its meaning exactly when it is short enough for `Split`, its
tokens are short enough for `Strip`, and its values keep their order when the steps
are sorted by their split points. -/
theorem meansText_iff
    (configured : Even (numbers lib text).length ∨
      ∃ table : StepTable ℚ ℚ, numbers lib text = table.entries ∧ table.keys.Nodup) :
    MeansText lib text ↔
      text.length < 2 ^ 32 ∧ Strippable text ∧
        ∀ table : StepTable ℚ ℚ, numbers lib text = table.entries →
          table.sort.values = table.values := by
  constructor
  · rintro ⟨accepts, refuses⟩
    obtain even | ⟨table, written, distinct⟩ := configured
    · obtain ⟨function, returned, -⟩ := refuses even
      refine ⟨length_lt_of_callDeserialize lib text returned,
        strippable_of_callDeserialize lib returned ?_, fun table written => ?_⟩
      · exact iff_of_false (by simp) (Nat.not_odd_iff_even.mpr even)
      · exact absurd (written ▸ table.odd_length_entries) (Nat.not_odd_iff_even.mpr even)
    · obtain ⟨function, returned, means⟩ := accepts table written distinct
      have odd : Odd (numbers lib text).length := written ▸ table.odd_length_entries
      have short := length_lt_of_callDeserialize lib text returned
      have strippable := strippable_of_callDeserialize lib returned (iff_of_true rfl odd)
      refine ⟨short, strippable, fun other same => ?_⟩
      obtain rfl := StepTable.entries_injective (written.symm.trans same)
      have read := (readNumbers_of_strippable lib short strippable).trans written
      rw [callDeserialize_eq_some lib text short, deserializeFunction_of_entries lib text read,
        Option.some.injEq, Prod.mk.injEq] at returned
      obtain rfl := returned.2
      refine (StepTable.forall_isValueAt_iff distinct 0.0).mp fun x => ?_
      rw [← getValue_ofTable table (length_steps_lt lib short written)]
      exact means x
  · rintro ⟨short, strippable, sorted⟩
    have read := readNumbers_of_strippable lib short strippable
    rw [MeansText, callDeserialize_eq_some lib text short]
    refine ⟨fun table written distinct => ⟨ofTable table, ?_, fun x => ?_⟩, fun even =>
      ⟨.empty, ?_, fun x => ?_⟩⟩
    · rw [deserializeFunction_of_entries lib text (read.trans written)]
    · rw [getValue_ofTable table (length_steps_lt lib short written)]
      exact (StepTable.forall_isValueAt_iff distinct 0.0).mpr (sorted table written) x
    · rw [deserializeFunction_of_even lib text (read ▸ even)]
    · rw [StepFunction.getValue_empty]
      norm_num

theorem meansText_oneStep : MeansText DoubleLib.integral (.ofLiteral "5| 2||7") := by
  have written : numbers DoubleLib.integral (.ofLiteral "5| 2||7") =
      (⟨5, [(2, 7)]⟩ : StepTable ℚ ℚ).entries := by decide
  refine (meansText_iff _ _ (.inr ⟨_, written, by simp [StepTable.keys]⟩)).mpr
    ⟨by decide, fun field member _ => ?_, fun table same => ?_⟩
  · exact (StringExt.length_le_of_mem_splitOn _ _ member).trans_lt (by decide)
  · rw [← StepTable.entries_injective (written.symm.trans same)]
    simp [StepTable.sort, StepTable.values]

/-- The value `3` stands after the split point `3`, but at `4` the function is `2`. -/
theorem not_meansText_descending :
    ¬MeansText DoubleLib.integral (.ofLiteral "1|5|2|3|3") := by
  rintro ⟨accepts, -⟩
  have short : (Str.ofLiteral "1|5|2|3|3").length < 2 ^ 32 := by decide
  have written : numbers DoubleLib.integral (.ofLiteral "1|5|2|3|3") =
      (⟨1, [(5, 2), (3, 3)]⟩ : StepTable ℚ ℚ).entries := by decide
  have read : readNumbers DoubleLib.integral (.ofLiteral "1|5|2|3|3") =
      (⟨1, [(5, 2), (3, 3)]⟩ : StepTable ℚ ℚ).entries := by decide
  obtain ⟨function, returned, means⟩ := accepts _ written (by simp [StepTable.keys])
  rw [callDeserialize_eq_some _ _ short, deserializeFunction_of_entries _ _ read,
    Option.some.injEq, Prod.mk.injEq] at returned
  obtain rfl := returned.2
  have value := means 4
  rw [getValue_ofTable _ (by decide)] at value
  norm_num [StepTable.IsValueAt, StepTable.values, StepTable.keys] at value

end Meaning

end Param

end FlowRetrieval
