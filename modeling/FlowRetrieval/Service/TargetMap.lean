/-
# Target dictionaries

`TargetMap::Load` reads one target a line and keeps two dictionaries, from the
offline and from the online name to the row of the target; a later line replaces an
earlier one. The number of rows is the number of offline names.
-/
import FlowRetrieval.CS.Dict
import FlowRetrieval.Util.Cstdlib

namespace FlowRetrieval

open CS

/-- `TargetMap`. -/
structure TargetMap where
  offline : Dict Str Int32
  online : Dict Str Int32

namespace TargetMap

/-- A new object. -/
def empty : TargetMap := ⟨∅, ∅⟩

/-- A query of one of the dictionaries. -/
def query (dict : Dict Str Int32) (target : Str) : Int32 := (dict.lookup target).getD (-1)

/-- `QueryOnline`. -/
def queryOnline (map : TargetMap) (target : Str) : Int32 := query map.online target

/-- `QueryOffline`. -/
def queryOffline (map : TargetMap) (target : Str) : Int32 := query map.offline target

/-- `GetSize`. -/
def getSize (map : TargetMap) : UInt32 := UInt32.ofNat map.offline.entries.length

/-- The names and the row of one target. -/
structure Target where
  offline : Str
  online : Str
  row : Int32
  deriving DecidableEq, Repr

/-- One line of a target file; lines with fewer than four fields are skipped. -/
def parseLine (line : Str) : Option (Option Target) :=
  (StringExt.splitCall line 9).map fun
    | _ :: offline :: online :: row :: _ => some ⟨offline, online, Cstdlib.atoi row⟩
    | _ => none

/-- The targets of a file, in the order of its lines. -/
def targets (text : Str) : List Target := StringExt.parsed parseLine text

/-- The loop body of `Load` for a line with a target. -/
def add (map : TargetMap) (target : Target) : TargetMap :=
  -- `dict[name] = index` replaces what an earlier line has assigned
  ⟨map.offline.insert target.offline target.row, map.online.insert target.online target.row⟩

/-- `Load`, with no file for one that cannot be opened; `none` when it does not return. -/
def load (_self : TargetMap) (file : Option Str) : Option (ℤ × TargetMap) :=
  match file with
  | none => some (-1, empty)
  | some text =>
    (StringExt.parseLines parseLine text).map fun targets => (0, targets.foldl add empty)

/-- The dictionaries of a file. -/
def ofText (text : Str) : TargetMap := (targets text).foldl add empty

/-- `Load` returns for files with short lines. -/
theorem load_eq_some_iff {self : TargetMap} {text : Str} {result : ℤ × TargetMap} :
    self.load (some text) = some result ↔
      StringExt.ShortLines text ∧ (0, ofText text) = result := by
  have returns (line : Str) : (parseLine line).isSome ↔ line.length < 2 ^ 32 := by
    rw [parseLine, Option.isSome_map, StringExt.isSome_splitCall]
  rw [load, Option.map_eq_some_iff]
  simp only [StringExt.parseLines_eq_some_iff returns, ofText, targets]
  constructor
  · rintro ⟨_, ⟨short, rfl⟩, rfl⟩
    exact ⟨short, rfl⟩
  · rintro ⟨short, rfl⟩
    exact ⟨_, ⟨short, rfl⟩, rfl⟩

section Lines

/-- The entries that the lines of a file assign under one of their names. -/
def assigned (name : Target → Str) (lines : List Target) : Dict Str Int32 :=
  Dict.assignAll ∅ (lines.map fun target => (name target, target.row))

theorem foldl_add (map : TargetMap) (lines : List Target) :
    lines.foldl add map =
      ⟨map.offline.assignAll (lines.map fun target => (target.offline, target.row)),
        map.online.assignAll (lines.map fun target => (target.online, target.row))⟩ := by
  induction lines generalizing map with
  | nil => rfl
  | cons target lines ih =>
    rw [List.foldl_cons, ih]
    rfl

/-- The dictionaries that `Load` leaves. -/
theorem ofText_eq (text : Str) :
    ofText text =
      ⟨assigned Target.offline (targets text), assigned Target.online (targets text)⟩ :=
  foldl_add empty (targets text)

variable {name : Target → Str} {lines : List Target}

/-- A line that no later line replaces is found under its name. -/
theorem query_assigned (before : List Target) {after : List Target} {target : Target}
    (last : ∀ later ∈ after, name later ≠ name target) :
    query (assigned name (before ++ target :: after)) (name target) = target.row := by
  have found : (assigned name (before ++ target :: after)).lookup (name target) =
      some target.row := by
    rw [assigned]
    rw [List.map_append, List.map_cons]
    apply Dict.lookup_assignAll_last
    simpa using last
  rw [query, found, Option.getD_some]

/-- A name of no line is not found. -/
theorem query_assigned_of_notMem {key : Str} (unknown : key ∉ lines.map name) :
    query (assigned name lines) key = -1 := by
  have absent : (assigned name lines).lookup key = none := by
    rw [AList.lookup_eq_none, assigned, Dict.mem_assignAll, List.map_map]
    rintro (listed | empty)
    · exact unknown listed
    · exact AList.notMem_empty key empty
  rw [query, absent, Option.getD_none]

/-- A known name is found in the last line that has it. -/
theorem exists_last_of_query {key : Str} (known : 0 ≤ query (assigned name lines) key) :
    ∃ before target after, lines = before ++ target :: after ∧
      (∀ later ∈ after, name later ≠ name target) ∧
      target.row = query (assigned name lines) key := by
  obtain ⟨row, found⟩ : ∃ row, (assigned name lines).lookup key = some row := by
    apply Option.ne_none_iff_exists'.mp
    intro absent
    rw [query, absent] at known
    exact absurd known (by decide)
  -- the entry was assigned last, and its line is the one it was made from
  obtain ⟨first, rest, split, last⟩ := Dict.exists_last_of_lookup_assignAll found
  obtain ⟨before, others, rfl, rfl, tail⟩ := List.map_eq_append_iff.mp split
  obtain ⟨target, after, rfl, pair, rfl⟩ := List.map_eq_cons_iff.mp tail
  obtain ⟨rfl, rfl⟩ := Prod.mk.inj pair
  refine ⟨before, target, after, rfl, ?_, ?_⟩
  · simpa using last
  · rw [query, found, Option.getD_some]

end Lines

section Rows

/-- A target that later lines do not replace under both its names. -/
def Effective (lines : List Target) (target : Target) : Prop :=
  ∃ before after, lines = before ++ target :: after ∧
    ((∀ later ∈ after, later.offline ≠ target.offline) ∨
      ∀ later ∈ after, later.online ≠ target.online)

/-- Every row that a query of either dictionary finds is below the size. -/
structure RowsBelowSize (map : TargetMap) : Prop where
  offline : ∀ name, 0 ≤ map.queryOffline name →
    (map.queryOffline name).toUInt32 < map.getSize
  online : ∀ name, 0 ≤ map.queryOnline name → (map.queryOnline name).toUInt32 < map.getSize

/-- The rows of the effective targets of a file that have one are below the number of its
offline names, as a 32-bit number. -/
def RowsBelowNames (lines : List Target) : Prop :=
  ∀ target, Effective lines target → 0 ≤ target.row →
    target.row.toUInt32 < UInt32.ofNat (lines.map Target.offline).toFinset.card

theorem getSize_ofText (text : Str) :
    (ofText text).getSize =
      UInt32.ofNat ((targets text).map Target.offline).toFinset.card := by
  rw [ofText_eq, getSize, assigned, Dict.length_assignAll, List.map_map]
  rfl

/-- The rows of a loaded dictionary are below its size iff the lines of the file say so. -/
theorem rowsBelowSize_ofText (text : Str) :
    (ofText text).RowsBelowSize ↔ RowsBelowNames (targets text) := by
  have size := getSize_ofText text
  rw [ofText_eq] at size ⊢
  constructor
  -- a line that is not replaced under one of its names is found under that name
  · rintro ⟨offline, online⟩ target ⟨before, after, split, last | last⟩ known
    · have found := query_assigned before last
      rw [← split] at found
      rw [← size, ← found]
      exact offline _ (by rwa [queryOffline, found])
    · have found := query_assigned before last
      rw [← split] at found
      rw [← size, ← found]
      exact online _ (by rwa [queryOnline, found])
  -- and what is found comes from such a line
  · intro below
    constructor
    · intro name known
      obtain ⟨before, target, after, split, last, row⟩ := exists_last_of_query known
      rw [size, queryOffline, ← row]
      exact below target ⟨before, after, split, .inl last⟩ (by rwa [row])
    · intro name known
      obtain ⟨before, target, after, split, last, row⟩ := exists_last_of_query known
      rw [size, queryOnline, ← row]
      exact below target ⟨before, after, split, .inr last⟩ (by rwa [row])

end Rows

end TargetMap

end FlowRetrieval
