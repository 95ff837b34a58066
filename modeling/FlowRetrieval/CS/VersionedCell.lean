/-
# Versioned cells

A cell holds one value with a time stamp. An offer with a later stamp replaces the
value, unless no value came with it; an offer that is not later is ignored. After
any sequence of offers the cell holds the last accepted value, and the stamps of the
accepted values increase.
-/
import Mathlib.Data.List.Basic
import Mathlib.Order.Lattice

namespace CS

/-- A value with the time stamp of the version it came with. -/
structure VersionedCell (S T : Type) where
  value : T
  stamp : S

namespace VersionedCell

variable {S T : Type}

/-- A version with its stamp; `none` stands for one that could not be read. -/
abbrev Offer (S T : Type) := S × Option T

variable [LinearOrder S]

/-- Replace the value by a later version. -/
def offer (cell : VersionedCell S T) (version : Offer S T) : VersionedCell S T :=
  if version.1 ≤ cell.stamp then cell
  else
    match version.2 with
    | none => cell
    | some value => ⟨value, version.1⟩

/-- Make a sequence of offers. -/
def offers (cell : VersionedCell S T) (versions : List (Offer S T)) : VersionedCell S T :=
  versions.foldl offer cell

/-- The version an offer puts into the cell, if it is accepted. -/
def accepts (cell : VersionedCell S T) (version : Offer S T) : Option (S × T) :=
  if version.1 ≤ cell.stamp then none else version.2.map fun value => (version.1, value)

/-- The accepted versions of a sequence of offers, in their order. -/
def accepted (cell : VersionedCell S T) : List (Offer S T) → List (S × T)
  | [] => []
  | version :: versions =>
    (cell.accepts version).toList ++ (cell.offer version).accepted versions

theorem offer_of_accepts {cell : VersionedCell S T} {version : Offer S T} {entry : S × T}
    (accept : cell.accepts version = some entry) :
    cell.offer version = ⟨entry.2, entry.1⟩ ∧ cell.stamp < entry.1 := by
  rw [accepts] at accept
  split at accept
  · cases accept
  · rename_i later
    obtain ⟨value, given, rfl⟩ := Option.map_eq_some_iff.mp accept
    exact ⟨by rw [offer, if_neg later, given], not_le.mp later⟩

theorem offer_of_refuses {cell : VersionedCell S T} {version : Offer S T}
    (refuse : cell.accepts version = none) : cell.offer version = cell := by
  rw [accepts] at refuse
  rw [offer]
  split
  · rfl
  · rename_i later
    rw [if_neg later, Option.map_eq_none_iff] at refuse
    rw [refuse]

/-- The cell holds the last accepted version, or else what it held before. -/
theorem offers_eq (cell : VersionedCell S T) (versions : List (Offer S T)) :
    cell.offers versions =
      ((cell.accepted versions).getLast?.map fun entry => ⟨entry.2, entry.1⟩).getD cell := by
  induction versions generalizing cell with
  | nil => rfl
  | cons version versions ih =>
    -- the first version decides which cell the others are offered to
    rw [offers, List.foldl_cons, ← offers, ih, accepted]
    cases accept : cell.accepts version with
    | none => rw [offer_of_refuses accept, Option.toList_none, List.nil_append]
    | some entry =>
      rw [(offer_of_accepts accept).1, Option.toList_some, List.singleton_append]
      cases (VersionedCell.mk entry.2 entry.1).accepted versions with
      | nil => rfl
      | cons next rest => rw [List.getLast?_cons_cons]; rfl

/-- The stamps of the accepted versions increase strictly, from the first stamp on. -/
theorem pairwise_accepted (cell : VersionedCell S T) (versions : List (Offer S T)) :
    (cell.accepted versions).Pairwise (fun first second => first.1 < second.1) ∧
      ∀ entry ∈ cell.accepted versions, cell.stamp < entry.1 := by
  induction versions generalizing cell with
  | nil => exact ⟨List.Pairwise.nil, by simp [accepted]⟩
  | cons version versions ih =>
    rw [accepted]
    cases accept : cell.accepts version with
    | none =>
      rw [offer_of_refuses accept, Option.toList_none, List.nil_append]
      exact ih cell
    | some entry =>
      obtain ⟨next, later⟩ := offer_of_accepts accept
      obtain ⟨increasing, above⟩ := ih (cell.offer version)
      rw [next] at increasing above ⊢
      -- later versions are accepted by a cell that already has the first stamp
      refine ⟨List.pairwise_cons.mpr ⟨above, increasing⟩, ?_⟩
      intro other member
      rcases List.mem_cons.mp member with rfl | member
      · exact later
      · exact lt_trans later (above other member)

end VersionedCell

end CS
