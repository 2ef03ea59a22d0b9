import ApiCompat.Member

/-!
# The parts of a dotted name

A name is cut at its dots and put together again by `joinWith "."`; on parts
without dots the two are inverse to each other.
-/

set_option autoImplicit false

namespace ApiCompat

/-- The words between the dots of a name; there is always one more than dots. -/
def nameParts (name : String) : List String := (name.toList.splitOn '.').map String.ofList

def firstPart (name : String) : String := (nameParts name).headD ""

theorem foldl_join_toList (separator front : String) (texts : List String) :
    (texts.foldl (fun sofar next => sofar ++ separator ++ next) front).toList =
      front.toList ++ texts.flatMap fun next => separator.toList ++ next.toList := by
  induction texts generalizing front with
  | nil => simp
  | cons text rest ih =>
      rw [List.foldl_cons, ih]
      simp

theorem joinWith_toList (separator : String) (texts : List String) :
    (joinWith separator texts).toList =
      List.intercalate separator.toList (texts.map String.toList) := by
  cases texts with
  | nil => rfl
  | cons text rest =>
      rw [joinWith, foldl_join_toList]
      induction rest generalizing text with
      | nil => simp [List.intercalate]
      | cons text' rest ih =>
          have inner := ih text'
          simp only [List.intercalate, List.map_cons, List.intersperse_cons_cons,
            List.flatten_cons, List.flatMap_cons] at inner ⊢
          rw [← inner]
          simp

theorem nameParts_ne_nil (name : String) : nameParts name ≠ [] := by
  intro none
  exact List.splitOn_ne_nil '.' name.toList (List.map_eq_nil_iff.mp none)

theorem joinWith_nameParts (name : String) : joinWith "." (nameParts name) = name := by
  rw [← String.toList_inj, joinWith_toList, nameParts, List.map_map]
  have same : (String.toList ∘ String.ofList) = id := by
    funext text
    exact String.toList_ofList
  rw [same, List.map_id]
  exact List.intercalate_splitOn '.'

theorem nameParts_joinWith {parts : List String} (filled : parts ≠ [])
    (plain : ∀ part ∈ parts, '.' ∉ part.toList) : nameParts (joinWith "." parts) = parts := by
  have cut : List.splitOn '.' (List.intercalate ['.'] (parts.map String.toList)) =
      parts.map String.toList := by
    refine List.splitOn_intercalate '.' ?_ (by simpa using filled)
    intro text member
    obtain ⟨part, stored, rfl⟩ := List.mem_map.mp member
    exact plain part stored
  rw [nameParts, joinWith_toList]
  have dot : ".".toList = ['.'] := rfl
  rw [dot, cut, List.map_map]
  have same : (String.ofList ∘ String.toList) = id := by
    funext text
    exact String.ofList_toList
  rw [same, List.map_id]

theorem nameParts_shape (name : String) :
    ∃ later, nameParts name = firstPart name :: later := by
  cases parts : nameParts name with
  | nil => exact absurd parts (nameParts_ne_nil name)
  | cons part later => exact ⟨later, by simp [firstPart, parts]⟩

example : nameParts "java.util.List" = ["java", "util", "List"] := by decide

end ApiCompat
