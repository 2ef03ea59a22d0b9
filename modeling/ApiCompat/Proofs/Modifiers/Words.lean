import ApiCompat.Modifiers

/-!
# Modifier words

Applying the words that are written for some modifiers builds up the same
modifiers again (`Modifiers.applyWords_words`).
-/

set_option autoImplicit false

namespace ApiCompat

namespace Modifiers

def applyWords (modifiers : Modifiers) (words : List String) : Modifiers :=
  words.foldl (fun modifiers word => (modifiers.applyWord? word).getD modifiers) modifiers

theorem applyWord?_flag (modifiers : Modifiers) (flag : Flag) :
    modifiers.applyWord? flag.word = some (modifiers.raise flag) := by
  cases flag <;> rfl

theorem ext_has {modifiers other : Modifiers} (visibility : modifiers.visibility = other.visibility)
    (annotations : modifiers.annotations = other.annotations)
    (flags : ∀ flag, modifiers.has flag = other.has flag) : modifiers = other := by
  have deprecated := flags .deprecatedFlag
  have isSealed := flags .sealedFlag
  have static := flags .staticFlag
  have final := flags .finalFlag
  have abstract := flags .abstractFlag
  have default := flags .defaultFlag
  have synchronized := flags .synchronizedFlag
  have native := flags .nativeFlag
  have transient := flags .transientFlag
  have volatile := flags .volatileFlag
  have strictfp := flags .strictfpFlag
  cases modifiers
  cases other
  simp only [has] at *
  simp_all

theorem raise_other (modifiers : Modifiers) (flag : Flag) :
    (modifiers.raise flag).visibility = modifiers.visibility ∧
      (modifiers.raise flag).annotations = modifiers.annotations := by
  cases flag <;> exact ⟨rfl, rfl⟩

theorem applyWords_flags (modifiers : Modifiers) (flags : List Flag) :
    (modifiers.applyWords (flags.map Flag.word)).visibility = modifiers.visibility ∧
      (modifiers.applyWords (flags.map Flag.word)).annotations = modifiers.annotations ∧
      ∀ flag, (modifiers.applyWords (flags.map Flag.word)).has flag =
        (decide (flag ∈ flags) || modifiers.has flag) := by
  induction flags generalizing modifiers with
  | nil => simp [applyWords]
  | cons raised flags ih =>
      have step : modifiers.applyWords ((raised :: flags).map Flag.word) =
          (modifiers.raise raised).applyWords (flags.map Flag.word) := by
        simp [applyWords, applyWord?_flag]
      obtain ⟨visibility, annotations, has⟩ := ih (modifiers.raise raised)
      obtain ⟨sameVisibility, sameAnnotations⟩ := raise_other modifiers raised
      rw [step]
      refine ⟨visibility.trans sameVisibility, annotations.trans sameAnnotations, ?_⟩
      intro flag
      rw [has, has_raise]
      by_cases same : raised = flag
      · simp [same]
      · have other : flag ≠ raised := fun h => same h.symm
        simp [same, other]

theorem ofWord?_words (modifiers : Modifiers) :
    ∀ word ∈ modifiers.words, ModifierWord.ofWord? word ≠ none := by
  intro word member
  rcases List.mem_append.mp member with scope | raised
  · cases visibility : modifiers.visibility <;> rw [visibility] at scope <;>
      simp only [Visibility.word?, Option.toList_some, Option.toList_none, List.mem_singleton,
        List.not_mem_nil] at scope <;> subst scope <;> decide
  · obtain ⟨flag, _, rfl⟩ := List.mem_map.mp raised
    cases flag <;> decide

/-- The written words, applied to the bare annotations, give the modifiers again. -/
theorem applyWords_words (modifiers : Modifiers) :
    Modifiers.applyWords { annotations := modifiers.annotations } modifiers.words = modifiers := by
  have scope : Modifiers.applyWords { annotations := modifiers.annotations } modifiers.words =
      Modifiers.applyWords { annotations := modifiers.annotations,
                             visibility := modifiers.visibility }
        ((Flag.all.filter modifiers.has).map Flag.word) := by
    unfold words
    cases modifiers.visibility <;> rfl
  obtain ⟨visibility, annotations, has⟩ := applyWords_flags
    { annotations := modifiers.annotations, visibility := modifiers.visibility }
    (Flag.all.filter modifiers.has)
  rw [scope]
  refine ext_has visibility annotations ?_
  intro flag
  rw [has flag]
  have listed : flag ∈ Flag.all := by cases flag <;> decide
  have lowered : Modifiers.has { annotations := modifiers.annotations,
                                 visibility := modifiers.visibility } flag = false := by
    cases flag <;> rfl
  simp [listed, lowered]

end Modifiers

end ApiCompat
