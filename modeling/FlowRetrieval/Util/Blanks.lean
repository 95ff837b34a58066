/-
# Blanks around fields

The readers of text files strip a line, cut it at separators and strip every field. What
does not depend on the blanks at the two ends of a string does not depend on the first of
these steps.

## Main results

* `StringExt.apply_trim` — a function that no blank at an end changes
* `StringExt.map_splitOn_trim` — neither do blanks at the ends of a line change its fields
* `StringExt.splitOn_eq_takeWhile` — the first field, and the fields after it
-/
import FlowRetrieval.Util.StringExt
import Mathlib.Data.List.TakeWhile

namespace FlowRetrieval

namespace StringExt

section Blanks

variable {α : Type} {f : Str → α} {separator : UInt8}

theorem apply_dropWhile (left : ∀ text, f (32 :: text) = f text) (str : Str) :
    f (str.dropWhile (· == 32)) = f str := by
  induction str with
  | nil => rfl
  | cons c rest ih =>
    by_cases blank : c = 32
    · rw [blank, List.dropWhile_cons_of_pos (by simp), ih, left]
    · rw [List.dropWhile_cons_of_neg (by simpa using blank)]

theorem map_splitOn_cons_blank (left : ∀ text, f (32 :: text) = f text)
    (visible : separator ≠ 32) (str : Str) :
    ((32 :: str).splitOn separator).map f = (str.splitOn separator).map f := by
  obtain ⟨field, fields, cut⟩ :=
    List.exists_cons_of_ne_nil (List.splitOn_ne_nil separator str)
  rw [List.splitOn_cons_eq_if_modifyHead, if_neg (by simpa using Ne.symm visible), cut,
    List.modifyHead_cons, List.map_cons, List.map_cons, left]

theorem map_splitOn_append_blank (right : ∀ text, f (text ++ [32]) = f text)
    (visible : separator ≠ 32) (str : Str) :
    ((str ++ [32]).splitOn separator).map f = (str.splitOn separator).map f := by
  induction length : str.length using Nat.strong_induction_on generalizing str with
  | h n ih =>
    by_cases cut : separator ∈ str
    · obtain ⟨field, rest, rfl, -⟩ := List.eq_append_cons_of_mem cut
      -- the blank is in the last field of the rest
      have shorter : rest.length < n := by
        rw [← length, List.length_append, List.length_cons]
        omega
      rw [List.append_assoc, List.cons_append, List.splitOn_append_cons_self,
        List.splitOn_append_cons_self, List.map_append, List.map_append, ih _ shorter rest rfl]
    · have uncut : separator ∉ str ++ [32] := by
        rw [List.mem_append, List.mem_singleton, not_or]
        exact ⟨cut, visible⟩
      rw [List.splitOn_eq_singleton uncut, List.splitOn_eq_singleton cut, List.map_singleton,
        List.map_singleton, right]

variable (left : ∀ text, f (32 :: text) = f text) (right : ∀ text, f (text ++ [32]) = f text)
include left right

/-- A function that no blank at an end changes is not changed by stripping. -/
theorem apply_trim (str : Str) : f (trim str) = f str := by
  have flip (text : Str) : f (32 :: text).reverse = f text.reverse := by
    rw [List.reverse_cons, right]
  rw [trim, apply_dropWhile (f := fun text => f text.reverse) flip, List.reverse_reverse,
    apply_dropWhile left]

/-- Stripping a line leaves its stripped fields as they are. -/
theorem map_splitOn_trim (visible : separator ≠ 32) (str : Str) :
    ((trim str).splitOn separator).map f = (str.splitOn separator).map f :=
  apply_trim (f := fun text => (text.splitOn separator).map f)
    (map_splitOn_cons_blank left visible) (map_splitOn_append_blank right visible) str

end Blanks

section Trim

theorem trim_cons_blank (str : Str) : trim (32 :: str) = trim str := by
  rw [trim, List.dropWhile_cons_of_pos (by simp), trim]

theorem trim_append_blank (str : Str) : trim (str ++ [32]) = trim str := by
  by_cases empty : (str.dropWhile (· == 32)).isEmpty
  · rw [trim, trim, List.dropWhile_append, if_pos empty, List.isEmpty_iff.mp empty]
    rfl
  · rw [trim, trim, List.dropWhile_append, if_neg empty, List.reverse_append, List.reverse_singleton,
      List.singleton_append, List.dropWhile_cons_of_pos (by simp)]

theorem trim_append_blanks (str : Str) (count : ℕ) :
    trim (str ++ List.replicate count 32) = trim str := by
  induction count with
  | zero => rw [List.replicate_zero, List.append_nil]
  | succ count ih => rw [List.replicate_succ', ← List.append_assoc, trim_append_blank, ih]

theorem map_trim_splitOn_trim {separator : UInt8} (visible : separator ≠ 32) (str : Str) :
    ((trim str).splitOn separator).map trim = (str.splitOn separator).map trim :=
  map_splitOn_trim trim_cons_blank trim_append_blank visible str

theorem length_trim_le (str : Str) : (trim str).length ≤ str.length := by
  rw [trim, List.length_reverse]
  calc
    _ ≤ (str.dropWhile (· == 32)).reverse.length := (List.dropWhile_sublist _).length_le
    _ = (str.dropWhile (· == 32)).length := List.length_reverse
    _ ≤ str.length := (List.dropWhile_sublist _).length_le

end Trim

/-- The first field ends at the first separator. -/
theorem splitOn_eq_takeWhile (str : Str) (separator : UInt8) :
    str.splitOn separator =
      str.takeWhile (· != separator) ::
        if separator ∈ str then ((str.dropWhile (· != separator)).drop 1).splitOn separator
        else [] := by
  by_cases cut : separator ∈ str
  · obtain ⟨field, rest, rfl, before⟩ := List.eq_append_cons_of_mem cut
    have visible : ∀ c ∈ field, (c != separator) = true := fun c member => by
      rw [bne_iff_ne]
      rintro rfl
      exact before member
    rw [if_pos cut, List.splitOn_append_cons_self_of_not_mem before,
      List.takeWhile_append_of_pos visible, List.dropWhile_append_of_pos visible,
      List.takeWhile_cons_of_neg (by simp), List.dropWhile_cons_of_neg (by simp),
      List.append_nil, List.drop_one, List.tail_cons]
  · rw [if_neg cut, List.splitOn_eq_singleton cut, List.takeWhile_eq_self_iff.mpr]
    intro c member
    rw [bne_iff_ne]
    rintro rfl
    exact cut member

end StringExt

end FlowRetrieval
