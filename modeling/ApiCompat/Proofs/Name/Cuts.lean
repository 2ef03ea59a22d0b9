import ApiCompat.Name
import Mathlib.Data.List.Basic

/-!
# The cuts of a dotted name

A name is cut at each of its dots and nowhere else (`mem_nameCuts_iff`), and
the cut with the longest front part comes first (`nameCuts_inOrder`).
-/

set_option autoImplicit false

namespace ApiCompat

theorem cutsFromFront_cons (c : Char) (rest : List Char) :
    cutsFromFront (c :: rest) = (if c = '.' then [([], rest)] else []) ++
      (cutsFromFront rest).map fun cut => (c :: cut.1, cut.2) := by
  rw [cutsFromFront]
  split <;> rfl

theorem mem_cutsFromFront_iff {text front back : List Char} :
    (front, back) ∈ cutsFromFront text ↔ front ++ '.' :: back = text := by
  induction text generalizing front with
  | nil => simp [cutsFromFront]
  | cons c rest ih =>
      rw [cutsFromFront_cons, List.mem_append, List.mem_map]
      cases front with
      | nil =>
          by_cases dot : c = '.'
          · simp [dot]
          · simp [dot, Ne.symm dot]
      | cons c' front =>
          by_cases dot : c = '.' <;> simp [dot, ih, and_comm, eq_comm]

/-- The front parts grow from cut to cut. -/
theorem cutsFromFront_inOrder (text : List Char) :
    (cutsFromFront text).Pairwise fun cut later => cut.1.length < later.1.length := by
  induction text with
  | nil => exact .nil
  | cons c rest ih =>
      rw [cutsFromFront_cons, List.pairwise_append]
      refine ⟨?_, ?_, ?_⟩
      · split
        · exact List.pairwise_singleton _ _
        · exact .nil
      · rw [List.pairwise_map]
        exact ih.imp fun shorter => Nat.succ_lt_succ shorter
      · intro cut first later member
        obtain ⟨inner, _, rfl⟩ := List.mem_map.mp member
        split at first
        · rw [List.mem_singleton.mp first]
          exact Nat.zero_lt_succ _
        · cases first

theorem mem_nameCuts_iff {name front back : String} :
    (front, back) ∈ nameCuts name ↔ front ++ "." ++ back = name := by
  rw [nameCuts, List.mem_map, ← String.toList_inj]
  constructor
  · rintro ⟨⟨left, right⟩, member, same⟩
    obtain ⟨rfl, rfl⟩ := Prod.mk.inj same
    have cut := mem_cutsFromFront_iff.mp (List.mem_reverse.mp member)
    simpa using cut
  · intro whole
    refine ⟨(front.toList, back.toList), List.mem_reverse.mpr ?_, by simp⟩
    rw [mem_cutsFromFront_iff]
    simpa using whole

theorem nameCuts_inOrder (name : String) :
    (nameCuts name).Pairwise fun cut later => later.1.length < cut.1.length := by
  rw [nameCuts, List.pairwise_map, List.pairwise_reverse]
  refine (cutsFromFront_inOrder name.toList).imp fun shorter => ?_
  simpa using shorter

/-- Two cuts of one name at places of one length are one cut. -/
theorem cut_unique {front back front' back' : String}
    (same : front ++ "." ++ back = front' ++ "." ++ back') (length : front.length = front'.length) :
    front = front' ∧ back = back' := by
  have texts := congrArg String.toList same
  simp only [String.toList_append, List.append_assoc] at texts
  have lengths : front.toList.length = front'.toList.length := by
    simpa only [String.length_toList] using length
  obtain ⟨fronts, rests⟩ := List.append_inj texts lengths
  refine ⟨String.toList_inj.mp fronts, String.toList_inj.mp ?_⟩
  simpa using rests

end ApiCompat
