/-
# The lines of a parameter file

`Load` strips a line, skips comments, cuts at `=`, strips and folds the name and keeps the
first value of every name. For the fifteen names it then looks up, this comes to a search
for the first line with the name and a value. So the order of the lines counts only between
lines of one name.

## Main results

* `Param.lookup_settings` — the value that is kept for a name
* `Param.readsLines_of_short` — the object that `Load` leaves, whatever the order of the lines
-/
import FlowRetrieval.Service.Param
import FlowRetrieval.Util.Blanks

namespace FlowRetrieval

open CS

namespace Param

section Lines

/-- The part of a line before its first `=`, stripped and in lower case. -/
def lineName (line : Str) : Str :=
  StringExt.toLower (StringExt.trim (line.takeWhile (· != 61)))

/-- The part between the first `=` and the second one, if any, stripped. -/
def lineValue (line : Str) : Str :=
  StringExt.trim (((line.dropWhile (· != 61)).drop 1).takeWhile (· != 61))

/-- The value of the first line with a name that has a value. -/
def firstValue (lines : List Str) (name : Str) : Option Str :=
  (lines.find? fun line => lineName line = name ∧ lineValue line ≠ []).map lineValue

/-- The names of the settings. -/
def names : List Str :=
  [.ofLiteral "pv_use_delta", .ofLiteral "uv_use_delta", .ofLiteral "avg_ctr_use_pos",
    .ofLiteral "avg_bid_use_pos", .ofLiteral "win_rate_use_pos", .ofLiteral "win_rate_use_delta",
    .ofLiteral "uv_pv_min_rate", .ofLiteral "uv_pv_max_rate", .ofLiteral "max_win_rate",
    .ofLiteral "platform_min_bids", .ofLiteral "win_rate_scales",
    .ofLiteral "win_rate_thresholds", .ofLiteral "pv_step_function",
    .ofLiteral "uv_step_function", .ofLiteral "win_rate_step_function"]

/-- The lines that give one of the settings a value. -/
def effective (lines : List Str) : List Str :=
  lines.filter fun line => lineName line ∈ names ∧ lineValue line ≠ []

theorem lineName_eq (line : Str) :
    lineName line = StringExt.toLower (((line.splitOn 61).map StringExt.trim).headD []) := by
  rw [StringExt.splitOn_eq_takeWhile, List.map_cons, List.headD_cons]
  rfl

theorem lineValue_eq (line : Str) :
    lineValue line = ((line.splitOn 61).map StringExt.trim).getD 1 [] := by
  rw [StringExt.splitOn_eq_takeWhile, List.map_cons, List.getD_cons_succ]
  by_cases cut : 61 ∈ line
  · rw [if_pos cut, StringExt.splitOn_eq_takeWhile, List.map_cons, List.getD_cons_zero]
    rfl
  · have whole : line.dropWhile (· != 61) = [] := by
      rw [List.dropWhile_eq_nil_iff]
      intro c member
      rw [bne_iff_ne]
      rintro rfl
      exact cut member
    rw [if_neg cut, lineValue, whole]
    rfl

theorem lineName_append {name : Str} (uncut : 61 ∉ name) (value : Str) :
    lineName (name ++ 61 :: value) = StringExt.toLower (StringExt.trim name) := by
  rw [lineName_eq, List.splitOn_append_cons_self_of_not_mem uncut]
  rfl

theorem lineValue_append {name value : Str} (uncut : 61 ∉ name) (last : 61 ∉ value) :
    lineValue (name ++ 61 :: value) = StringExt.trim value := by
  rw [lineValue_eq, List.splitOn_append_cons_self_of_not_mem uncut,
    List.splitOn_eq_singleton last]
  rfl

/-- A line shorter than `2 ^ 31` has a name and a value, or none is read. -/
theorem parseLine_eq {line : Str} (short : line.length < 2 ^ 31) :
    parseLine line =
      if (StringExt.trim line).headD 0 = 35 ∨ lineName line = [] ∨ lineValue line = [] then none
      else some (lineName line, lineValue line) := by
  have inside := StringExt.length_trim_le line
  have strip {field : Str} (member : field ∈ (StringExt.trim line).splitOn 61) :
      StringExt.strip field = StringExt.trim field := by
    have bound := StringExt.length_le_of_mem_splitOn _ _ member
    exact StringExt.strip_eq_trim (by omega)
  rw [lineName_eq, lineValue_eq, ← StringExt.map_trim_splitOn_trim (by decide), parseLine,
    StringExt.strip_eq_trim short, StringExt.split_eq_splitOn]
  by_cases empty : StringExt.trim line = []
  · rw [empty]
    rfl
  · by_cases comment : (StringExt.trim line).headD 0 = 35
    · rw [if_neg (by simpa using empty), if_pos comment, if_pos (.inl comment)]
    · rw [if_neg (by simpa using empty), if_neg comment]
      cases cut : (StringExt.trim line).splitOn 61 with
      | nil => exact absurd cut (List.splitOn_ne_nil _ _)
      | cons name rest =>
        cases rest with
        | nil => simp
        | cons value rest =>
          rw [cut] at strip
          have first := strip List.mem_cons_self
          have second := strip (List.mem_cons_of_mem _ List.mem_cons_self)
          dsimp only
          rw [first, second, List.map_cons, List.map_cons, List.headD_cons, List.getD_cons_succ,
            List.getD_cons_zero]
          by_cases unnamed : StringExt.toLower (StringExt.trim name) = []
          · rw [if_neg (by simp [unnamed]), if_pos (.inr (.inl unnamed))]
          · by_cases blank : StringExt.trim value = []
            · rw [if_neg (by simp [blank]), if_pos (.inr (.inr blank))]
            · rw [if_pos (by simp [unnamed, blank]),
                if_neg (not_or.mpr ⟨comment, not_or.mpr ⟨unnamed, blank⟩⟩)]

theorem exists_trim_cons {c : UInt8} (visible : c ≠ 32) (rest : Str) :
    ∃ last, StringExt.trim (c :: rest) = c :: last := by
  rw [StringExt.trim, List.dropWhile_cons_of_neg (by simpa using visible), List.reverse_cons,
    List.dropWhile_append]
  by_cases empty : (rest.reverse.dropWhile (· == 32)).isEmpty
  · rw [if_pos empty, List.dropWhile_cons_of_neg (by simpa using visible)]
    exact ⟨[], rfl⟩
  · rw [if_neg empty, List.reverse_append]
    exact ⟨_, rfl⟩

/-- The name of a comment begins like the comment. -/
theorem headD_lineName {line : Str} (comment : (StringExt.trim line).headD 0 = 35) :
    (lineName line).headD 0 = 35 := by
  rw [lineName_eq, ← StringExt.map_trim_splitOn_trim (by decide)]
  cases stripped : StringExt.trim line with
  | nil =>
    rw [stripped] at comment
    cases comment
  | cons c rest =>
    obtain rfl : c = 35 := by simpa [stripped] using comment
    obtain ⟨last, named⟩ := exists_trim_cons (c := 35) (by decide) (rest.takeWhile (· != 61))
    rw [StringExt.splitOn_eq_takeWhile, List.takeWhile_cons_of_pos (by decide), List.map_cons,
      List.headD_cons, named]
    rfl

/-- A name that is looked up is not empty and is not that of a comment. -/
theorem ne_nil_of_mem_names : ∀ name ∈ names, name ≠ [] ∧ name.headD 0 ≠ 35 := by decide

section Settings

variable {name : Str} (recognised : name ∈ names)
include recognised

/-- One line adds its value for the name, unless the name has one. -/
theorem lookup_parseLine {line : Str} (short : line.length < 2 ^ 31) (buffer : Dict Str Str) :
    (match parseLine line with
      | none => buffer
      | some (name, value) => buffer.insertNew name value).lookup name =
      (buffer.lookup name).or (firstValue [line] name) := by
  obtain ⟨nonempty, visible⟩ := ne_nil_of_mem_names name recognised
  rw [parseLine_eq short, firstValue]
  by_cases gives : lineName line = name ∧ lineValue line ≠ []
  · have complete : ¬((StringExt.trim line).headD 0 = 35 ∨ lineName line = [] ∨
        lineValue line = []) := by
      rw [gives.1]
      rintro (comment | unnamed | blank)
      · exact visible (gives.1 ▸ headD_lineName comment)
      · exact nonempty unnamed
      · exact gives.2 blank
    rw [if_neg complete, List.find?_cons_of_pos (by simpa using gives)]
    dsimp only
    rw [gives.1, Dict.lookup_insertNew_self, Option.map_some]
    cases buffer.lookup name <;> rfl
  · rw [List.find?_cons_of_neg (by simpa using gives), List.find?_nil, Option.map_none,
      Option.or_none]
    split
    · rfl
    · rename_i entered
      split at entered
      · cases entered
      · rename_i complete
        obtain ⟨rfl, rfl⟩ := Prod.mk.inj (Option.some.inj entered)
        apply Dict.lookup_insertNew_of_ne
        rintro rfl
        exact gives ⟨rfl, fun blank => complete (.inr (.inr blank))⟩

/-- The value that is kept for a name is that of the first line which has one. -/
theorem lookup_settings {text : Str}
    (short : ∀ line ∈ StringExt.lines text, line.length < 2 ^ 31) :
    (settings text).lookup name = firstValue (StringExt.lines text) name := by
  have start : firstValue (StringExt.lines text) name =
      ((∅ : Dict Str Str).lookup name).or (firstValue (StringExt.lines text) name) := by
    rw [AList.lookup_empty, Option.none_or]
  rw [settings, start]
  generalize (∅ : Dict Str Str) = buffer
  generalize StringExt.lines text = lines at short
  induction lines generalizing buffer with
  | nil => rw [List.foldl_nil, firstValue, List.find?_nil, Option.map_none, Option.or_none]
  | cons line rest ih =>
    rw [List.forall_mem_cons] at short
    have split : firstValue (line :: rest) name =
        (firstValue [line] name).or (firstValue rest name) := by
      rw [firstValue, firstValue, firstValue, ← Option.map_or, ← List.find?_append,
        List.singleton_append]
    rw [List.foldl_cons, ih _ short.2, split, ← Option.or_assoc]
    exact congrArg (Option.or · (firstValue rest name))
      (lookup_parseLine recognised short.1 buffer)

end Settings

end Lines

section Order

/-- A name is looked up among the effective lines. -/
theorem firstValue_effective (lines : List Str) {name : Str} (recognised : name ∈ names) :
    firstValue (effective lines) name = firstValue lines name := by
  rw [firstValue, firstValue, effective, List.find?_filter]
  congr 2
  funext line
  by_cases same : lineName line = name
  · simp [same, recognised]
  · simp [same]

/-- Effective lines with distinct names give the same values in any order. -/
theorem firstValue_eq_of_perm {lines others : List Str}
    (distinct : ((effective lines).map lineName).Nodup)
    (perm : (effective lines).Perm (effective others)) {name : Str} (recognised : name ∈ names) :
    firstValue lines name = firstValue others name := by
  rw [← firstValue_effective lines recognised, ← firstValue_effective others recognised,
    firstValue, firstValue]
  apply congrArg (Option.map lineValue)
  apply find?_eq_of_perm perm
  intro line first other second named same
  rw [decide_eq_true_iff] at named same
  exact List.inj_on_of_nodup_map distinct first second (named.1.trans same.1.symm)

end Order

section Load

variable {R : Type} [Double R] (lib : DoubleLib R) (lines : List Str)

/-- What the lines give for a name, decoded, or the default of the setting. -/
def boolOf (name : String) : Bool :=
  ((firstValue lines (.ofLiteral name)).map toBool).getD false

def doubleOf (name : String) : R :=
  ((firstValue lines (.ofLiteral name)).map (toDouble lib)).getD 0.0

def tableOf (name : String) : PlatformTable R :=
  ((firstValue lines (.ofLiteral name)).map (deserializeTable lib)).getD ∅

def functionOf (name : String) : ℤ × StepFunction R :=
  ((firstValue lines (.ofLiteral name)).map (deserializeFunction lib)).getD (0, .empty)

/-- The parameters that the lines of a file give; a setting without a value has its
default. -/
def ofLines : Param R where
  pvUseDelta := boolOf lines "pv_use_delta"
  uvUseDelta := boolOf lines "uv_use_delta"
  avgCtrUsePos := boolOf lines "avg_ctr_use_pos"
  avgBidUsePos := boolOf lines "avg_bid_use_pos"
  winRateUsePos := boolOf lines "win_rate_use_pos"
  winRateUseDelta := boolOf lines "win_rate_use_delta"
  uvPvMinRate := doubleOf lib lines "uv_pv_min_rate"
  uvPvMaxRate := doubleOf lib lines "uv_pv_max_rate"
  maxWinRate := doubleOf lib lines "max_win_rate"
  pvStepFunction := (functionOf lib lines "pv_step_function").2
  uvStepFunction := (functionOf lib lines "uv_step_function").2
  winRateStepFunction := (functionOf lib lines "win_rate_step_function").2
  platformMinBids := tableOf lib lines "platform_min_bids"
  winRateScales := tableOf lib lines "win_rate_scales"
  winRateThresholds := tableOf lib lines "win_rate_thresholds"

theorem uvUseDelta_ofLines : (ofLines lib lines).uvUseDelta = boolOf lines "uv_use_delta" := rfl

variable {text : Str} (short : ∀ line ∈ StringExt.lines text, line.length < 2 ^ 31)
include short

theorem lookup_names : ∀ name ∈ names,
    (settings text).lookup name = firstValue (StringExt.lines text) name :=
  fun _ recognised => lookup_settings recognised short

/-- A call that returns zero has decoded every setting from its line. -/
theorem eq_ofLines_of_load {self result : Param R}
    (loaded : self.load lib (some text) = (0, result)) :
    result = ofLines lib (StringExt.lines text) := by
  have kept := lookup_names short
  simp only [names, List.forall_mem_cons] at kept
  simp only [load, kept] at loaded
  split_ifs at loaded with bad bad bad
  · exact absurd (Prod.mk.inj loaded).1 bad.ne
  · exact absurd (Prod.mk.inj loaded).1 bad.ne
  · exact absurd (Prod.mk.inj loaded).1 bad.ne
  · exact (Prod.mk.inj loaded).2.symm

/-- The tables are decoded before any step function, so whatever the code is. -/
theorem tables_of_load (self : Param R) :
    (self.load lib (some text)).2.platformMinBids =
        tableOf lib (StringExt.lines text) "platform_min_bids" ∧
      (self.load lib (some text)).2.winRateScales =
        tableOf lib (StringExt.lines text) "win_rate_scales" ∧
      (self.load lib (some text)).2.winRateThresholds =
        tableOf lib (StringExt.lines text) "win_rate_thresholds" := by
  have kept := lookup_names short
  simp only [names, List.forall_mem_cons] at kept
  simp only [load, kept]
  split_ifs
  · exact ⟨rfl, rfl, rfl⟩
  · exact ⟨rfl, rfl, rfl⟩
  · exact ⟨rfl, rfl, rfl⟩
  · exact ⟨rfl, rfl, rfl⟩

omit short

/-- A call depends on the file through the values of the settings alone. -/
theorem load_congr (self other : Param R) {others : Str}
    (agree : ∀ name ∈ names, (settings text).lookup name = (settings others).lookup name) :
    self.load lib (some text) = other.load lib (some others) := by
  simp only [names, List.forall_mem_cons] at agree
  simp only [load, agree]
  rfl

/-- A call that returns zero gives every setting the value of its line or its default, and
effective lines with distinct names give the same code and object in any order. -/
structure ReadsLines (text : Str) : Prop where
  reads : ∀ self result : Param R, self.load lib (some text) = (0, result) →
    result = ofLines lib (StringExt.lines text)
  anyOrder : ∀ (self other : Param R) (others : Str),
    (∀ line ∈ StringExt.lines others, line.length < 2 ^ 31) →
    ((effective (StringExt.lines text)).map lineName).Nodup →
    (effective (StringExt.lines text)).Perm (effective (StringExt.lines others)) →
    self.load lib (some text) = other.load lib (some others)

/-- Files whose lines are shorter than `2 ^ 31` are read line by line, in any order. -/
theorem readsLines_of_short (short : ∀ line ∈ StringExt.lines text, line.length < 2 ^ 31) :
    ReadsLines lib text := by
  refine ⟨fun self result => eq_ofLines_of_load lib short, ?_⟩
  intro self other others bound distinct perm
  apply load_congr
  intro name recognised
  rw [lookup_settings recognised short, lookup_settings recognised bound,
    firstValue_eq_of_perm distinct perm recognised]

theorem readsLines_twoLines :
    ofLines DoubleLib.integral
        (StringExt.lines (.ofLiteral " Max_Win_Rate = 3 \n#=\nuv_use_delta=true=x")) =
      (empty.load DoubleLib.integral
        (some (.ofLiteral " Max_Win_Rate = 3 \n#=\nuv_use_delta=true=x"))).2 ∧
      empty.load DoubleLib.integral
          (some (.ofLiteral " Max_Win_Rate = 3 \n#=\nuv_use_delta=true=x")) =
        empty.load DoubleLib.integral
          (some (.ofLiteral "uv_use_delta=true=x\nmode=1\n Max_Win_Rate = 3 ")) := by
  have reads : ReadsLines DoubleLib.integral
      (.ofLiteral " Max_Win_Rate = 3 \n#=\nuv_use_delta=true=x") :=
    readsLines_of_short _ (by decide)
  refine ⟨(reads.reads empty _ (Prod.ext ?_ rfl)).symm, ?_⟩
  · rfl
  · exact reads.anyOrder empty empty _ (by decide) (by decide) (by decide)

end Load

section Long

/-- A file of one line that is too long for an `int` leaves the defaults. -/
theorem load_of_long {R : Type} [Double R] (lib : DoubleLib R) {line : Str} (oneLine : 10 ∉ line)
    (long : 2 ^ 31 ≤ line.length) (fits : line.length < 2 ^ 32) :
    (empty : Param R).load lib (some line) = (0, empty) := by
  have dropped : parseLine line = none := by
    rw [parseLine, StringExt.strip_eq_nil long fits]
    rfl
  have nothing : settings line = ∅ := by
    rw [settings, StringExt.lines_eq_singleton oneLine, List.foldl_cons, List.foldl_nil, dropped]
  simp only [load, nothing, AList.lookup_empty]
  rfl

/-- A line with a name and a value, and `2 ^ 31` blanks after them. -/
def trailing : Str :=
  Str.ofLiteral "uv_use_delta" ++ 61 :: (Str.ofLiteral "true" ++ List.replicate (2 ^ 31) 32)

/-- The line is dropped: its length is negative as an `int`. -/
theorem not_readsLines_trailing : ¬ReadsLines DoubleLib.integral trailing := by
  have length : trailing.length = 2 ^ 31 + 17 := by
    rw [trailing, List.length_append, List.length_cons, List.length_append, List.length_replicate]
    rfl
  have oneLine : 10 ∉ trailing := by
    rw [trailing, List.mem_append, List.mem_cons, List.mem_append, List.mem_replicate]
    decide
  have named : lineName trailing = .ofLiteral "uv_use_delta" := by
    rw [trailing, lineName_append (by decide)]
    decide
  have valued : lineValue trailing = .ofLiteral "true" := by
    have last : 61 ∉ Str.ofLiteral "true" ++ List.replicate (2 ^ 31) 32 := by
      rw [List.mem_append, List.mem_replicate]
      decide
    rw [trailing, lineValue_append (by decide) last, StringExt.trim_append_blanks]
    decide
  have found : firstValue [trailing] (.ofLiteral "uv_use_delta") = some (.ofLiteral "true") := by
    rw [firstValue, List.find?_cons_of_pos, Option.map_some, valued]
    rw [named, valued]
    decide
  intro reads
  have default := congrArg uvUseDelta
    (reads.reads empty empty (load_of_long _ oneLine (by omega) (by omega)))
  rw [StringExt.lines_eq_singleton oneLine, uvUseDelta_ofLines, boolOf, found] at default
  revert default
  decide

end Long

end Param

end FlowRetrieval
