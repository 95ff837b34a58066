/-
# Dictionaries with an unspecified iteration order

A dictionary is a finite map with distinct keys. Inserting keeps an existing
value, assigning (`AList.insert`) replaces it. A loop over a hash map visits the
entries in some order, which is a permutation of the entries, and nothing more is
known about it. A dictionary whose new keys take the next free number numbers its
keys by their places in the list of all keys.
-/
import Mathlib.Data.Finset.Card
import Mathlib.Data.List.AList

namespace CS

/-- Where at most one entry has a property, it is found in any order. -/
theorem find?_eq_of_perm {α : Type} {property : α → Bool} {list other : List α}
    (perm : list.Perm other)
    (unique : ∀ a ∈ list, ∀ b ∈ list, property a → property b → a = b) :
    list.find? property = other.find? property := by
  cases found : list.find? property with
  | none =>
    rw [eq_comm, List.find?_eq_none]
    exact fun a member => List.find?_eq_none.mp found a (perm.mem_iff.mpr member)
  | some a =>
    have member := List.mem_of_find?_eq_some found
    have holds := List.find?_some found
    obtain ⟨b, same⟩ := Option.isSome_iff_exists.mp
      (List.find?_isSome.mpr ⟨a, perm.mem_iff.mp member, holds⟩)
    rw [same, unique a member b (perm.mem_iff.mpr (List.mem_of_find?_eq_some same)) holds
      (List.find?_some same)]

/-- A finite map from `κ` to `β`. -/
abbrev Dict (κ β : Type) := AList fun _ : κ => β

namespace Dict

variable {κ β γ : Type}

/-- An order in which a loop may visit the entries. -/
structure Order (dict : Dict κ β) where
  entries : List (Σ _ : κ, β)
  perm : entries.Perm dict.entries

/-- The order in which the entries are stored. -/
def Order.stored (dict : Dict κ β) : dict.Order := ⟨dict.entries, .refl _⟩

/-- The order of a map whose entries are kept sorted. -/
def Order.sorted (before : (Σ _ : κ, β) → (Σ _ : κ, β) → Bool) (dict : Dict κ β) : dict.Order :=
  ⟨dict.entries.mergeSort before, List.mergeSort_perm _ _⟩

theorem Order.nodupKeys {dict : Dict κ β} (order : dict.Order) : order.entries.NodupKeys :=
  (List.perm_nodupKeys order.perm).mpr dict.nodupKeys

/-- The keys of the entries in any order are keys of the dictionary. -/
theorem Order.key_mem {dict : Dict κ β} (order : dict.Order) {entry : Σ _ : κ, β}
    (member : entry ∈ order.entries) : entry.1 ∈ dict :=
  List.mem_keys_of_mem (order.perm.mem_iff.mp member)

variable [DecidableEq κ]

theorem Order.mem_entries {dict : Dict κ β} (order : dict.Order) {key : κ} {value : β} :
    ⟨key, value⟩ ∈ order.entries ↔ dict.lookup key = some value :=
  order.perm.mem_iff.trans AList.mem_lookup_iff.symm

@[simp]
theorem lookup_singleton (key other : κ) (value : β) :
    (AList.singleton key value : Dict κ β).lookup other =
      if other = key then some value else none := by
  split
  · rename_i same
    rw [same]
    exact List.dlookup_cons_eq _ _ _
  · rename_i different
    exact List.dlookup_cons_ne _ _ different

/-- Insert an entry unless the key is already present. -/
def insertNew (dict : Dict κ β) (key : κ) (value : β) : Dict κ β :=
  if key ∈ dict then dict else dict.insert key value

theorem lookup_insertNew_self (dict : Dict κ β) (key : κ) (value : β) :
    (dict.insertNew key value).lookup key = some ((dict.lookup key).getD value) := by
  rw [insertNew]
  split
  · rename_i present
    obtain ⟨old, found⟩ := Option.isSome_iff_exists.mp (AList.lookup_isSome.mpr present)
    rw [found, Option.getD_some]
  · rename_i absent
    rw [AList.lookup_insert, AList.lookup_eq_none.mpr absent, Option.getD_none]

theorem lookup_insertNew_of_ne (dict : Dict κ β) {key other : κ} (value : β)
    (different : other ≠ key) : (dict.insertNew key value).lookup other = dict.lookup other := by
  rw [insertNew]
  split
  · rfl
  · exact AList.lookup_insert_ne different

theorem lookup_insertNew_of_lookup_eq_none (dict : Dict κ β) {key : κ} (value : β)
    (absent : dict.lookup key = none) : (dict.insertNew key value).lookup key = some value := by
  rw [lookup_insertNew_self, absent, Option.getD_none]

theorem length_insertNew_of_lookup_eq_none (dict : Dict κ β) {key : κ} (value : β)
    (absent : dict.lookup key = none) :
    (dict.insertNew key value).entries.length = dict.entries.length + 1 := by
  rw [AList.lookup_eq_none] at absent
  rw [insertNew, if_neg absent, AList.entries_insert_of_notMem absent, List.length_cons]

theorem length_insertNew_le (dict : Dict κ β) (key : κ) (value : β) :
    (dict.insertNew key value).entries.length ≤ dict.entries.length + 1 := by
  rw [insertNew]
  split
  · exact Nat.le_succ _
  · rename_i absent
    rw [AList.entries_insert_of_notMem absent, List.length_cons]

/-- Insert the entries of a list one after the other. -/
def insertAll (dict : Dict κ β) (entries : List (Σ _ : κ, β)) : Dict κ β :=
  entries.foldl (fun current entry => current.insertNew entry.1 entry.2) dict

theorem length_insertAll_le (dict : Dict κ β) (entries : List (Σ _ : κ, β)) :
    (dict.insertAll entries).entries.length ≤ dict.entries.length + entries.length := by
  induction entries generalizing dict with
  | nil => exact le_rfl
  | cons entry entries ih =>
    have first := dict.length_insertNew_le entry.1 entry.2
    have others := ih (dict.insertNew entry.1 entry.2)
    rw [insertAll, List.foldl_cons, ← insertAll, List.length_cons]
    omega

theorem lookup_insertAll_of_notMem (dict : Dict κ β) {entries : List (Σ _ : κ, β)} {key : κ}
    (absent : key ∉ entries.keys) : (dict.insertAll entries).lookup key = dict.lookup key := by
  induction entries generalizing dict with
  | nil => rfl
  | cons entry entries ih =>
    rw [List.keys_cons, List.mem_cons, not_or] at absent
    rw [insertAll, List.foldl_cons, ← insertAll, ih _ absent.2,
      lookup_insertNew_of_ne _ _ absent.1]

/-- Entries with distinct new keys are all found after inserting them. -/
theorem lookup_insertAll (dict : Dict κ β) {entries : List (Σ _ : κ, β)} {key : κ} {value : β}
    (distinct : entries.NodupKeys) (fresh : dict.lookup key = none)
    (member : ⟨key, value⟩ ∈ entries) :
    (dict.insertAll entries).lookup key = some value := by
  induction entries generalizing dict with
  | nil => cases member
  | cons entry entries ih =>
    rw [List.nodupKeys_cons] at distinct
    rw [insertAll, List.foldl_cons, ← insertAll]
    -- the entry itself is inserted while its key is new; before that, only other keys are
    rcases List.mem_cons.mp member with rfl | later
    · rw [lookup_insertAll_of_notMem _ distinct.1,
        lookup_insertNew_of_lookup_eq_none _ _ fresh]
    · have different : key ≠ entry.1 := fun same =>
        distinct.1 (same ▸ List.mem_keys_of_mem later)
      exact ih _ distinct.2 (by rw [lookup_insertNew_of_ne _ _ different, fresh]) later

/-- A dictionary filled from the start has no key but those of the entries. -/
theorem exists_mem_of_mem_insertAll {entries : List (Σ _ : κ, β)} {key : κ}
    (member : key ∈ insertAll (∅ : Dict κ β) entries) : ∃ value, ⟨key, value⟩ ∈ entries := by
  have listed : key ∈ entries.keys := by
    by_contra absent
    have missing := lookup_insertAll_of_notMem (∅ : Dict κ β) absent
    rw [AList.lookup_empty, AList.lookup_eq_none] at missing
    exact missing member
  exact List.exists_of_mem_keys listed

/-- Inserting the entries of a dictionary, in any order, into an empty one
gives a dictionary with the same values. -/
theorem lookup_insertAll_order {dict : Dict κ β} (order : dict.Order) (key : κ) :
    (insertAll (∅ : Dict κ β) order.entries).lookup key = dict.lookup key := by
  cases found : dict.lookup key with
  | some value =>
    exact lookup_insertAll _ order.nodupKeys (AList.lookup_empty key)
      (order.mem_entries.mpr found)
  | none =>
    -- a key without a value occurs in no order of the entries
    rw [lookup_insertAll_of_notMem _ fun member => ?_, AList.lookup_empty]
    obtain ⟨value, inside⟩ := List.exists_of_mem_keys member
    rw [order.mem_entries, found] at inside
    cases inside

section Numbered

/-- The place of a key in a list of keys. -/
def place (keys : List κ) (key : κ) : ℕ := keys.idxOf key

theorem place_lt_length {keys : List κ} {key : κ} (member : key ∈ keys) :
    place keys key < keys.length := List.idxOf_lt_length_of_mem member

theorem place_inj {keys : List κ} {key other : κ} (member : key ∈ keys) :
    place keys key = place keys other ↔ key = other := List.idxOf_inj member

theorem place_getElem {keys : List κ} (nodup : keys.Nodup) {k : ℕ} (inside : k < keys.length) :
    place keys keys[k] = k := nodup.idxOf_getElem k inside

theorem place_append_of_mem {keys more : List κ} {key : κ} (member : key ∈ keys) :
    place (keys ++ more) key = place keys key := List.idxOf_append_of_mem member

/-- A key behind all others has their number as its place. -/
theorem place_append_cons {keys more : List κ} {key : κ} (fresh : key ∉ keys) :
    place (keys ++ key :: more) key = keys.length := by
  rw [place, List.idxOf_append_of_notMem fresh, List.idxOf_cons_self, Nat.add_zero]

/-- The keys of the dictionary are those of the list, and each has the number of its place. -/
structure Numbered (dict : Dict κ β) (number : ℕ → β) (keys : List κ) : Prop where
  nodup : keys.Nodup
  size : dict.entries.length = keys.length
  lookup : ∀ key, dict.lookup key =
    if key ∈ keys then some (number (place keys key)) else none

variable {dict : Dict κ β} {number : ℕ → β} {keys : List κ} {key : κ}

theorem numbered_empty (number : ℕ → β) : Numbered (∅ : Dict κ β) number [] where
  nodup := List.nodup_nil
  size := rfl
  lookup key := by simp

theorem Numbered.mem_iff (numbered : Numbered dict number keys) : key ∈ dict ↔ key ∈ keys := by
  rw [← AList.lookup_isSome, numbered.lookup]
  split <;> simp [*]

/-- A new key takes the next free number. -/
theorem Numbered.insertNew (numbered : Numbered dict number keys)
    (absent : dict.lookup key = none) :
    Numbered (dict.insertNew key (number dict.entries.length)) number (keys ++ [key]) := by
  have fresh : key ∉ keys := by
    rwa [← numbered.mem_iff, ← AList.lookup_eq_none]
  refine ⟨?_, ?_, fun other => ?_⟩
  · rw [← List.concat_eq_append]
    exact numbered.nodup.concat fresh
  · rw [length_insertNew_of_lookup_eq_none _ _ absent, numbered.size, List.length_append,
      List.length_singleton]
  · rcases eq_or_ne other key with rfl | different
    · rw [lookup_insertNew_of_lookup_eq_none _ _ absent, numbered.size, place_append_cons fresh]
      simp
    · rw [lookup_insertNew_of_ne _ _ different, numbered.lookup]
      -- an old key keeps its place
      by_cases old : other ∈ keys
      · simp [old, place_append_of_mem old]
      · simp [old, different]

end Numbered

section Assign

/-- Assign the values of a list one after the other. -/
def assignAll (dict : Dict κ β) (entries : List (κ × β)) : Dict κ β :=
  entries.foldl (fun current entry => current.insert entry.1 entry.2) dict

variable {entries before after : List (κ × β)} {key : κ} {value : β}

theorem mem_assignAll (dict : Dict κ β) :
    key ∈ dict.assignAll entries ↔ key ∈ entries.map Prod.fst ∨ key ∈ dict := by
  induction entries generalizing dict with
  | nil => simp [assignAll]
  | cons entry entries ih =>
    rw [assignAll, List.foldl_cons, ← assignAll, ih, AList.mem_insert, List.map_cons,
      List.mem_cons, or_left_comm, or_assoc]

theorem lookup_assignAll_of_notMem (dict : Dict κ β) (absent : key ∉ entries.map Prod.fst) :
    (dict.assignAll entries).lookup key = dict.lookup key := by
  induction entries generalizing dict with
  | nil => rfl
  | cons entry entries ih =>
    rw [List.map_cons, List.mem_cons, not_or] at absent
    rw [assignAll, List.foldl_cons, ← assignAll, ih _ absent.2, AList.lookup_insert_ne absent.1]

/-- The last value assigned to a key is the one that is found. -/
theorem lookup_assignAll_last (dict : Dict κ β) (last : key ∉ after.map Prod.fst) :
    (dict.assignAll (before ++ (key, value) :: after)).lookup key = some value := by
  rw [assignAll, List.foldl_append, List.foldl_cons, ← assignAll,
    lookup_assignAll_of_notMem _ last, AList.lookup_insert]

/-- What is found in a dictionary filled from the start was assigned last. -/
theorem exists_last_of_lookup_assignAll
    (found : (assignAll (∅ : Dict κ β) entries).lookup key = some value) :
    ∃ before after, entries = before ++ (key, value) :: after ∧ key ∉ after.map Prod.fst := by
  induction entries using List.reverseRecOn with
  | nil => cases found
  | append_singleton entries entry ih =>
    rw [assignAll, List.foldl_append, List.foldl_cons, List.foldl_nil, ← assignAll] at found
    -- induction from the back: either the last assignment is the one that is found,
    -- or it has another key and comes behind the one that is
    by_cases same : key = entry.1
    · subst same
      rw [AList.lookup_insert] at found
      obtain rfl := Option.some.inj found
      exact ⟨entries, [], rfl, List.not_mem_nil⟩
    · rw [AList.lookup_insert_ne same] at found
      obtain ⟨before, after, rfl, last⟩ := ih found
      refine ⟨before, after ++ [entry], by simp, ?_⟩
      rw [List.map_append, List.mem_append, not_or]
      exact ⟨last, by simpa using same⟩

/-- A dictionary filled from the start has as many entries as there are distinct keys. -/
theorem length_assignAll (entries : List (κ × β)) :
    (assignAll (∅ : Dict κ β) entries).entries.length =
      (entries.map Prod.fst).toFinset.card := by
  have keys : (assignAll (∅ : Dict κ β) entries).keys.toFinset =
      (entries.map Prod.fst).toFinset := by
    ext key
    rw [List.mem_toFinset, List.mem_toFinset, ← AList.mem_keys, mem_assignAll]
    simp
  rw [← keys, List.toFinset_card_of_nodup (AList.keys_nodup _), AList.keys, List.keys,
    List.length_map]

end Assign

end Dict

end CS
