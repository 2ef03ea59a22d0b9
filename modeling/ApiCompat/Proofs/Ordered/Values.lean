import ApiCompat.Proofs.Ordered.Insert

/-!
# Ordered maps under a function on their values

Changing the values changes neither the keys nor their order, so it may be
done before or after an insertion.
-/

set_option autoImplicit false

namespace ApiCompat.OrderedMap

variable {κ α β γ : Type}

theorem keys_mapValues (map : OrderedMap κ α) (f : α → β) : (map.mapValues f).keys = map.keys := by
  simp [keys, mapValues, Function.comp_def]

theorem mapValues_mapValues (map : OrderedMap κ α) (f : α → β) (g : β → γ) :
    (map.mapValues f).mapValues g = map.mapValues fun value => g (f value) := by
  apply ext_entries
  simp [mapValues, Function.comp_def]

theorem mapValues_congr {map : OrderedMap κ α} {f g : α → β}
    (same : ∀ value ∈ map.values, f value = g value) : map.mapValues f = map.mapValues g := by
  apply ext_entries
  refine List.map_congr_left fun entry stored => ?_
  rw [same entry.2 (List.mem_map.mpr ⟨entry, stored, rfl⟩)]

theorem mapValues_id (map : OrderedMap κ α) : map.mapValues id = map := by
  apply ext_entries
  simp [mapValues]

variable [DecidableEq κ]

theorem contains_mapValues (map : OrderedMap κ α) (f : α → β) (key : κ) :
    (map.mapValues f).contains key = map.contains key := by
  rw [contains, contains, get?_mapValues, Option.isSome_map]

theorem mapValues_insert (map : OrderedMap κ α) (f : α → β) (key : κ) (value : α) :
    (map.insert key value).mapValues f = (map.mapValues f).insert key (f value) := by
  have put : ∀ entries : List (κ × α),
      (putEntry key value entries).map (fun entry => (entry.1, f entry.2)) =
        putEntry key (f value) (entries.map fun entry => (entry.1, f entry.2)) := by
    intro entries
    induction entries with
    | nil => rfl
    | cons entry entries ih =>
        by_cases same : entry.1 = key
        · simp [putEntry, same]
        · simp [putEntry, same, ih]
  exact ext_entries (put map.entries)

theorem mapValues_ofList (entries : List (κ × α)) (f : α → β) :
    (ofList entries).mapValues f = ofList (entries.map fun entry => (entry.1, f entry.2)) := by
  have grown : ∀ (entries : List (κ × α)) (map : OrderedMap κ α),
      (entries.foldl (fun map entry => map.insert entry.1 entry.2) map).mapValues f =
        (entries.map fun entry => (entry.1, f entry.2)).foldl
          (fun map entry => map.insert entry.1 entry.2) (map.mapValues f) := by
    intro entries
    induction entries with
    | nil => intro map; rfl
    | cons entry entries ih =>
        intro map
        rw [List.foldl_cons, ih, mapValues_insert]
        rfl
  exact grown entries empty

end ApiCompat.OrderedMap
