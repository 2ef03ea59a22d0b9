/-!
# Sets that remember the order of insertion

An `OrderedSet` is a list without repeats to which elements are added at the
end.  Two sets are the same when they have equally many elements and each
element of one is in the other (`OrderedSet.sameElements`).
-/

set_option autoImplicit false

namespace ApiCompat

structure OrderedSet (α : Type) where
  toList : List α
  distinct : toList.Nodup

namespace OrderedSet

variable {α : Type}

def empty : OrderedSet α := ⟨[], List.nodup_nil⟩

instance : Inhabited (OrderedSet α) := ⟨empty⟩

def isEmpty (set : OrderedSet α) : Bool := set.toList.isEmpty

variable [DecidableEq α]

/-- The set with one more element, at the end; an element that is there stays where it is. -/
def insert (set : OrderedSet α) (element : α) : OrderedSet α :=
  if absent : element ∉ set.toList then
    { toList := set.toList ++ [element]
      distinct := by
        rw [List.nodup_append]
        refine ⟨set.distinct, by simp, ?_⟩
        intro first member second last
        rw [List.mem_singleton] at last
        subst last
        intro same
        subst same
        exact absent member }
  else set

def insertAll (set : OrderedSet α) (elements : List α) : OrderedSet α :=
  elements.foldl insert set

def ofList (elements : List α) : OrderedSet α := empty.insertAll elements

/-- Whether both sets have the same elements, in any order. -/
def sameElements (set other : OrderedSet α) : Bool :=
  set.toList.length == other.toList.length &&
    set.toList.all fun element => decide (element ∈ other.toList)

end OrderedSet

end ApiCompat
