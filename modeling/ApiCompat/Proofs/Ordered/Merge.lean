import ApiCompat.Proofs.Ordered.Insert
import ApiCompat.Proofs.Ordered.Values

/-!
# Merging ordered maps

The keys of the first map come first, in their order, then those of the second
map that are new.  Two maps are equal as soon as they have the same keys in the
same order and find the same values (`ext_get?`).
-/

set_option autoImplicit false

namespace ApiCompat.OrderedMap

variable {κ α β : Type}

/-- Both maps as one; `join` makes one value of two that have the same key. -/
def merge [DecidableEq κ] (join : α → α → α) (first second : OrderedMap κ α) : OrderedMap κ α where
  entries :=
    first.entries.map (fun entry => (entry.1, (second.get? entry.1).elim entry.2 (join entry.2))) ++
      second.entries.filter fun entry => !first.contains entry.1
  distinct := by
    rw [List.map_append, List.nodup_append]
    have front : (first.entries.map fun entry =>
        (entry.1, (second.get? entry.1).elim entry.2 (join entry.2))).map Prod.fst = first.keys := by
      rw [List.map_map]
      rfl
    have back := (List.filter_sublist (l := second.entries)
      (p := fun entry => !first.contains entry.1)).map Prod.fst
    refine ⟨by rw [front]; exact first.distinct, back.nodup second.distinct, ?_⟩
    rintro key stored _ new rfl
    rw [front, ← first.contains_iff] at stored
    obtain ⟨entry, kept, rfl⟩ := List.mem_map.mp new
    have absent := (List.mem_filter.mp kept).2
    rw [stored] at absent
    cases absent

/-! ## Equality by lookup -/

theorem ext_get? [DecidableEq κ] {map other : OrderedMap κ α} (keys : map.keys = other.keys)
    (found : ∀ key ∈ map.keys, map.get? key = other.get? key) : map = other := by
  have entries : ∀ map : OrderedMap κ α,
      map.entries.map some = map.keys.map fun key => (map.get? key).map (Prod.mk key) := by
    intro map
    rw [OrderedMap.keys, List.map_map]
    refine List.map_congr_left fun entry stored => ?_
    rw [Function.comp_apply, (map.get?_eq_some_iff entry.1 entry.2).mpr stored]
    rfl
  apply ext_entries
  apply List.map_injective_iff.mpr fun _ _ => Option.some.inj
  rw [entries, entries, ← keys]
  exact List.map_congr_left fun key stored => by rw [found key stored]

variable [DecidableEq κ]

theorem get?_insert (map : OrderedMap κ α) (key key' : κ) (value : α) :
    (map.insert key value).get? key' = if key' = key then some value else map.get? key' := by
  have put : ∀ entries : List (κ × α),
      ((putEntry key value entries).find? fun entry => decide (entry.1 = key')).map Prod.snd =
        if key' = key then some value
        else (entries.find? fun entry => decide (entry.1 = key')).map Prod.snd := by
    intro entries
    induction entries with
    | nil => grind [putEntry]
    | cons entry entries ih => grind [putEntry]
  exact put map.entries

/-! ## What is in a merged map -/

section Merge

variable (join : α → α → α) (first second : OrderedMap κ α)

theorem keys_merge : (first.merge join second).keys =
    first.keys ++ second.keys.filter fun key => !first.contains key := by
  simp [keys, merge, List.filter_map, Function.comp_def]

theorem get?_merge (key : κ) : (first.merge join second).get? key =
    match first.get? key with
    | some value => some ((second.get? key).elim value (join value))
    | none => second.get? key := by
  cases there : first.get? key with
  | some value =>
      rw [get?_eq_some_iff]
      have stored := (first.get?_eq_some_iff key value).mp there
      exact List.mem_append_left _ (List.mem_map.mpr ⟨_, stored, rfl⟩)
  | none =>
      cases new : second.get? key with
      | some value =>
          rw [get?_eq_some_iff]
          have stored := (second.get?_eq_some_iff key value).mp new
          exact List.mem_append_right _ (List.mem_filter.mpr ⟨stored, by simp [contains, there]⟩)
      | none =>
          rw [get?_eq_none_iff] at there new ⊢
          rw [keys_merge, List.mem_append, not_or]
          exact ⟨there, fun member => new (List.mem_filter.mp member).1⟩

theorem contains_merge (key : κ) : (first.merge join second).contains key =
    (first.contains key || second.contains key) := by
  rw [contains, contains, contains, get?_merge]
  cases first.get? key <;> simp

theorem merge_empty : first.merge join empty = first := by
  apply ext_entries
  simp [merge, empty, get?]

theorem empty_merge : empty.merge join second = second := by
  apply ext_entries
  simp [merge, empty, contains, get?]

/-- An insertion into the second map is one into the merged map. -/
theorem merge_insert (key : κ) (value : α) : first.merge join (second.insert key value) =
    (first.merge join second).insert key ((first.get? key).elim value (join · value)) := by
  apply ext_get?
  · rw [keys_insert, keys_merge, keys_merge, keys_insert]
    by_cases there : key ∈ first.keys
    · have stored := (first.contains_iff key).mpr there
      by_cases known : key ∈ second.keys <;> simp [there, known, stored]
    · have absent : first.contains key = false := by
        rwa [← Bool.not_eq_true, first.contains_iff]
      by_cases known : key ∈ second.keys <;> simp [there, known, absent]
  · intro key' _
    rw [get?_merge, get?_insert, get?_insert, get?_merge]
    by_cases same : key' = key
    · subst same
      cases first.get? key' <;> simp
    · simp [same]

end Merge

end ApiCompat.OrderedMap
