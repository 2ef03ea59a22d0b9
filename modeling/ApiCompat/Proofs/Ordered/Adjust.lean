import ApiCompat.Proofs.Ordered.Lookup

/-!
# Changing one value of an ordered map

The value of one key is changed in place.  All other keys find what they found
before (`get?_adjust`), and a key that is not there changes nothing.
-/

set_option autoImplicit false

namespace ApiCompat.OrderedMap

variable {κ α β : Type} [DecidableEq κ]

/-- The map with the value of a key changed, if the key is there. -/
def adjust (map : OrderedMap κ α) (key : κ) (change : α → α) : OrderedMap κ α where
  entries := map.entries.map fun entry =>
    (entry.1, if entry.1 = key then change entry.2 else entry.2)
  distinct := by
    have same : (map.entries.map fun entry =>
        (entry.1, if entry.1 = key then change entry.2 else entry.2)).map Prod.fst =
          map.entries.map Prod.fst := by
      rw [List.map_map]
      rfl
    rw [same]
    exact map.distinct

theorem isEmpty_adjust (map : OrderedMap κ α) (key : κ) (change : α → α) :
    (map.adjust key change).isEmpty = map.isEmpty := by
  simp [isEmpty, adjust]

theorem get?_adjust (map : OrderedMap κ α) (key key' : κ) (change : α → α) :
    (map.adjust key change).get? key' =
      if key' = key then (map.get? key').map change else map.get? key' := by
  simp only [get?, adjust, List.find?_map, Function.comp_def]
  cases found : map.entries.find? fun entry => decide (entry.1 = key') with
  | none => simp
  | some entry =>
      have same : entry.1 = key' := by simpa using List.find?_some found
      simp only [Option.map_some, same]
      split <;> rfl

theorem get?_adjust_self (map : OrderedMap κ α) (key : κ) (change : α → α) :
    (map.adjust key change).get? key = (map.get? key).map change := by
  rw [get?_adjust, if_pos rfl]

theorem get?_adjust_of_ne (map : OrderedMap κ α) {key key' : κ} (differs : key' ≠ key)
    (change : α → α) : (map.adjust key change).get? key' = map.get? key' := by
  rw [get?_adjust, if_neg differs]

/-- Going through a changed map is going through the map with what is done changed at one key. -/
theorem flatMap_values_adjust (map : OrderedMap κ α) (key : κ) (change : α → α)
    (block : α → List β) :
    (map.adjust key change).values.flatMap block = map.entries.flatMap fun entry =>
      block (if entry.1 = key then change entry.2 else entry.2) := by
  simp only [values, adjust, List.map_map, List.flatMap_map, Function.comp_def]

end ApiCompat.OrderedMap
