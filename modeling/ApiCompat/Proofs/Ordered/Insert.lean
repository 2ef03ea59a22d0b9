import ApiCompat.Ordered.Set
import ApiCompat.Proofs.Ordered.Lookup
import Mathlib.Data.List.Perm.Subperm

/-!
# Adding to ordered maps and sets

What is not there yet comes last; adding the elements of a list without
repeats to nothing gives the list again.
-/

set_option autoImplicit false

namespace ApiCompat

namespace OrderedMap

variable {κ α : Type}

theorem ext_entries {map other : OrderedMap κ α} (same : map.entries = other.entries) :
    map = other := by
  cases map
  cases other
  simp only at same
  subst same
  rfl

variable [DecidableEq κ]

theorem contains_iff (map : OrderedMap κ α) (key : κ) :
    map.contains key = true ↔ key ∈ map.keys := by
  rw [contains, Option.isSome_iff_ne_none]
  constructor
  · intro found
    by_contra missing
    exact found ((map.get?_eq_none_iff key).mpr missing)
  · intro member missing
    exact (map.get?_eq_none_iff key).mp missing member

/-- An entry after an insertion was there before or is the inserted one. -/
theorem mem_entries_insert {map : OrderedMap κ α} {key : κ} {value : α} {entry : κ × α}
    (member : entry ∈ (map.insert key value).entries) :
    entry ∈ map.entries ∨ entry = (key, value) := by
  have put : ∀ entries : List (κ × α), entry ∈ putEntry key value entries →
      entry ∈ entries ∨ entry = (key, value) := by
    intro entries
    induction entries with
    | nil => exact fun stored => .inr (List.mem_singleton.mp stored)
    | cons first rest ih =>
        intro stored
        unfold putEntry at stored
        split at stored
        · rcases List.mem_cons.mp stored with rfl | later
          · exact .inr rfl
          · exact .inl (List.mem_cons_of_mem _ later)
        · rcases List.mem_cons.mp stored with rfl | later
          · exact .inl List.mem_cons_self
          · exact (ih later).imp_left (List.mem_cons_of_mem _)
  exact put map.entries member

theorem entries_insert {map : OrderedMap κ α} {key : κ} (absent : map.contains key = false)
    (value : α) : (map.insert key value).entries = map.entries ++ [(key, value)] := by
  have missing : key ∉ map.keys := by
    intro member
    rw [(map.contains_iff key).mpr member] at absent
    cases absent
  have grown : ∀ entries : List (κ × α), key ∉ entries.map Prod.fst →
      putEntry key value entries = entries ++ [(key, value)] := by
    intro entries
    induction entries with
    | nil => intro _; rfl
    | cons entry entries ih =>
        intro missing
        simp only [List.map_cons, List.mem_cons, not_or] at missing
        have other : entry.1 ≠ key := fun same => missing.1 same.symm
        rw [putEntry, if_neg other, ih missing.2]
        rfl
  exact grown map.entries missing

/-- An entry after several insertions was there before or is one of the inserted ones. -/
theorem mem_of_mem_insertAll {entries : List (κ × α)} {map : OrderedMap κ α} {entry : κ × α}
    (member : entry ∈ (entries.foldl (fun map entry => map.insert entry.1 entry.2) map).entries) :
    entry ∈ map.entries ∨ entry ∈ entries := by
  induction entries generalizing map with
  | nil => exact .inl member
  | cons first rest ih =>
      rcases ih member with inserted | later
      · rcases mem_entries_insert inserted with old | rfl
        · exact .inl old
        · exact .inr List.mem_cons_self
      · exact .inr (List.mem_cons_of_mem _ later)

theorem mem_of_mem_ofList {entries : List (κ × α)} {entry : κ × α}
    (member : entry ∈ (ofList entries).entries) : entry ∈ entries :=
  (mem_of_mem_insertAll member).resolve_left nofun

section Distinct

variable {map : OrderedMap κ α} {key : κ} {later : List κ}

/-- The next of several distinct keys is not there yet. -/
theorem contains_of_distinct (distinct : (map.keys ++ key :: later).Nodup) :
    map.contains key = false := by
  rw [← Bool.not_eq_true, map.contains_iff]
  intro stored
  exact (List.nodup_append.mp distinct).2.2 key stored key List.mem_cons_self rfl

theorem distinct_insert (distinct : (map.keys ++ key :: later).Nodup) (value : α) :
    ((map.insert key value).keys ++ later).Nodup := by
  have inserted := map.entries_insert (contains_of_distinct distinct) value
  have keys : (map.insert key value).keys = map.keys ++ [key] := by
    rw [OrderedMap.keys, inserted, List.map_append]
    rfl
  rw [keys]
  simpa using distinct

/-- Entries with distinct keys come behind those that are there. -/
theorem entries_insertAll {entries : List (κ × α)}
    (distinct : (map.keys ++ entries.map Prod.fst).Nodup) :
    (entries.foldl (fun map entry => map.insert entry.1 entry.2) map).entries =
      map.entries ++ entries := by
  induction entries generalizing map with
  | nil => exact (List.append_nil _).symm
  | cons entry entries ih =>
      rw [List.foldl_cons, ih (distinct_insert distinct entry.2),
        entries_insert (contains_of_distinct distinct), List.append_assoc]
      rfl

end Distinct

theorem entries_ofList {entries : List (κ × α)} (distinct : (entries.map Prod.fst).Nodup) :
    (ofList entries).entries = entries :=
  entries_insertAll distinct

theorem ofList_entries (map : OrderedMap κ α) : ofList map.entries = map :=
  ext_entries (entries_ofList map.distinct)

end OrderedMap

namespace OrderedSet

variable {α : Type}

theorem ext_toList {set other : OrderedSet α} (same : set.toList = other.toList) : set = other := by
  cases set
  cases other
  simp only at same
  subst same
  rfl

variable [DecidableEq α]

theorem toList_insert_of_not_mem {set : OrderedSet α} {element : α}
    (absent : element ∉ set.toList) : (set.insert element).toList = set.toList ++ [element] := by
  rw [insert, dif_pos absent]

theorem toList_insertAll (set : OrderedSet α) {elements : List α}
    (distinct : (set.toList ++ elements).Nodup) :
    (set.insertAll elements).toList = set.toList ++ elements := by
  induction elements generalizing set with
  | nil => simp [insertAll]
  | cons element elements ih =>
      have absent : element ∉ set.toList := by
        intro member
        exact (List.nodup_append.mp distinct).2.2 element member element List.mem_cons_self rfl
      have step := toList_insert_of_not_mem absent
      have distinct' : ((set.insert element).toList ++ elements).Nodup := by
        rw [step]
        simpa using distinct
      have whole := ih (set.insert element) distinct'
      rw [step] at whole
      simpa [insertAll] using whole

theorem ofList_toList (set : OrderedSet α) : ofList set.toList = set := by
  apply ext_toList
  have distinct : ((empty : OrderedSet α).toList ++ set.toList).Nodup := set.distinct
  exact toList_insertAll empty distinct

theorem mem_insertAll {set : OrderedSet α} {elements : List α} {element : α}
    (member : element ∈ (set.insertAll elements).toList) :
    element ∈ set.toList ∨ element ∈ elements := by
  induction elements generalizing set with
  | nil => exact .inl member
  | cons first elements ih =>
      have inLater : element ∈ ((set.insert first).insertAll elements).toList := member
      rcases ih inLater with inserted | later
      · unfold insert at inserted
        split at inserted
        · rcases List.mem_append.mp inserted with before | last
          · exact .inl before
          · exact .inr (by simp [List.mem_singleton.mp last])
        · exact .inl inserted
      · exact .inr (List.mem_cons_of_mem _ later)

/-- Equal sets have each other's elements. -/
theorem mem_of_sameElements {set other : OrderedSet α} (same : set.sameElements other = true)
    {element : α} (member : element ∈ other.toList) : element ∈ set.toList := by
  simp only [sameElements, Bool.and_eq_true, beq_iff_eq, List.all_eq_true, decide_eq_true_eq]
    at same
  have inner := List.subperm_of_subset set.distinct same.2
  exact (inner.perm_of_length_le (Nat.le_of_eq same.1.symm)).mem_iff.mpr member

end OrderedSet

end ApiCompat
