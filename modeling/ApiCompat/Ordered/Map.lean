/-!
# Maps that remember the order of insertion

An `OrderedMap` is a finite map whose keys keep the place at which they were
first inserted.  Giving a key a new value keeps its place.  Two maps hold the
same entries when each key of one has an equal value in the other, whatever
the order (`OrderedMap.sameEntries`).
-/

set_option autoImplicit false

namespace ApiCompat

def putEntry {κ α : Type} [DecidableEq κ] (key : κ) (value : α) :
    List (κ × α) → List (κ × α)
  | [] => [(key, value)]
  | entry :: rest =>
      if entry.1 = key then (key, value) :: rest else entry :: putEntry key value rest

theorem putEntry_keys {κ α : Type} [DecidableEq κ] (key : κ) (value : α)
    (entries : List (κ × α)) :
    (putEntry key value entries).map Prod.fst =
      if key ∈ entries.map Prod.fst then entries.map Prod.fst
      else entries.map Prod.fst ++ [key] := by
  induction entries with
  | nil => simp [putEntry]
  | cons entry rest ih =>
      by_cases same : entry.1 = key
      · simp [putEntry, same]
      · have other : key ≠ entry.1 := fun h => same h.symm
        by_cases member : key ∈ rest.map Prod.fst
        · simp only [putEntry, if_neg same, List.map_cons, ih,
            List.mem_cons, member, or_true, if_true]
        · have absent : key ∉ entry.1 :: rest.map Prod.fst := by
            simp only [List.mem_cons, not_or]
            exact ⟨other, member⟩
          simp only [putEntry, if_neg same, List.map_cons, ih, if_neg member,
            if_neg absent, List.cons_append]

theorem putEntry_distinct {κ α : Type} [DecidableEq κ] (key : κ) (value : α)
    {entries : List (κ × α)} (distinct : (entries.map Prod.fst).Nodup) :
    ((putEntry key value entries).map Prod.fst).Nodup := by
  rw [putEntry_keys]
  split
  · exact distinct
  · next absent =>
      rw [List.nodup_append]
      refine ⟨distinct, by simp, ?_⟩
      intro first member second last
      rw [List.mem_singleton] at last
      subst last
      intro same
      subst same
      exact absent member

/-- A finite map from keys to values in the order in which its keys came. -/
structure OrderedMap (κ α : Type) where
  entries : List (κ × α)
  distinct : (entries.map Prod.fst).Nodup

namespace OrderedMap

variable {κ α β : Type}

def empty : OrderedMap κ α := ⟨[], List.nodup_nil⟩

instance : Inhabited (OrderedMap κ α) := ⟨empty⟩

def keys (map : OrderedMap κ α) : List κ := map.entries.map Prod.fst

def values (map : OrderedMap κ α) : List α := map.entries.map Prod.snd

def size (map : OrderedMap κ α) : Nat := map.entries.length

def isEmpty (map : OrderedMap κ α) : Bool := map.entries.isEmpty

def mapValues (f : α → β) (map : OrderedMap κ α) : OrderedMap κ β where
  entries := map.entries.map fun entry => (entry.1, f entry.2)
  distinct := by
    have same : (map.entries.map fun entry => (entry.1, f entry.2)).map Prod.fst =
        map.entries.map Prod.fst := by
      rw [List.map_map]
      rfl
    rw [same]
    exact map.distinct

variable [DecidableEq κ]

def get? (map : OrderedMap κ α) (key : κ) : Option α :=
  (map.entries.find? fun entry => decide (entry.1 = key)).map Prod.snd

def contains (map : OrderedMap κ α) (key : κ) : Bool := (map.get? key).isSome

/-- The map in which `key` has the value `value`; a new key comes last. -/
def insert (map : OrderedMap κ α) (key : κ) (value : α) : OrderedMap κ α :=
  ⟨putEntry key value map.entries, putEntry_distinct key value map.distinct⟩

/-- The map of a list of entries: a repeated key keeps its first place and
takes its last value. -/
def ofList (entries : List (κ × α)) : OrderedMap κ α :=
  entries.foldl (fun map entry => map.insert entry.1 entry.2) empty

def sameEntries (agree : α → β → Bool) (map : OrderedMap κ α) (other : OrderedMap κ β) : Bool :=
  map.size == other.size && map.entries.all fun entry =>
    match other.get? entry.1 with
    | some value => agree entry.2 value
    | none => false

@[simp] theorem keys_insert (map : OrderedMap κ α) (key : κ) (value : α) :
    (map.insert key value).keys =
      if key ∈ map.keys then map.keys else map.keys ++ [key] :=
  putEntry_keys key value map.entries

end OrderedMap

end ApiCompat
