import ApiCompat.Proofs.Signature.ClassGives
import ApiCompat.Proofs.Signature.RoundTrip

/-!
# Reading again what was read

What a text declares is written as a text that declares the same just where the
description is rereadable.
-/

set_option autoImplicit false

namespace ApiCompat.Signature

variable {source text : String} {requested : Option NullMode} {api : Api}

/-- What was read and is written survives being read again, or not, just as it
is rereadable. -/
theorem retells_read (whole : read source text requested = .ok api) (source' : String) :
    (api.Rereadable → ∃ again, read source' (write api) none = .ok again ∧
        again.unplaced = api.unplaced) ∧
      ∀ again, read source' (write api) none = .ok again → again.same api = true →
        api.Rereadable := by
  obtain ⟨formed, clear⟩ := formed_of_read whole
  have identifiers : Identifiers AnyIdentifier := fun _ => id
  exact retells_write identifiers formed clear source' (by simp)

/-- What was read from any text, under any null mode asked for, survives being
written and read again exactly where it is rereadable. -/
theorem reread_iff_rereadable (whole : read source text requested = .ok api) (source' : String) :
    (∃ again, read source' (write api) none = .ok again ∧ again.same api = true ∧
      write again = write api) ↔ api.Rereadable := by
  obtain ⟨equal, only⟩ := retells_read whole source'
  constructor
  · rintro ⟨again, readAgain, same, _⟩
    exact only again readAgain same
  · intro rereadable
    obtain ⟨again, readAgain, unplaced⟩ := equal rereadable
    exact ⟨again, readAgain, Api.same_of_unplaced unplaced, write_of_unplaced unplaced⟩

def rereadable? (text : String) (requested : Option NullMode) : Option Bool :=
  match read "api.txt" text requested with
  | .ok api => some (decide api.Rereadable)
  | .error _ => none

theorem rereadable?_spec {verdict : Bool} (known : rereadable? text requested = some verdict) :
    ∃ api, read "api.txt" text requested = .ok api ∧ decide api.Rereadable = verdict := by
  unfold rereadable? at known
  split at known
  · next api whole => exact ⟨api, whole, Option.some.inj known⟩
  · cases known

/-- An interface of the name `implements` that comes first. -/
def firstText : String :=
  "package p \x7b\n  interface I extends implements, A \x7b\n    field int x = 1;\n  \x7d\n\x7d\n"

theorem reread_firstText :
    ∃ api, read "api.txt" firstText none = .ok api ∧
      ∃ again, read "api.txt" (write api) none = .ok again ∧ again.same api = true ∧
        write again = write api := by
  obtain ⟨api, whole, good⟩ := @rereadable?_spec firstText none true (by decide +kernel)
  exact ⟨api, whole, (reread_iff_rereadable whole "api.txt").mpr (of_decide_eq_true good)⟩

/-- An interface of the name `implements` behind the word that introduces it. -/
def namesakeText : String :=
  "package p \x7b\n  public interface I extends A implements implements \x7b\n  \x7d\n\x7d\n"

/-- A field whose type begins with a modifier word, behind a sign that ends the modifiers. -/
def nativeText : String :=
  "package p \x7b\n  class C \x7b\n    field @interface native? x;\n  \x7d\n\x7d\n"

/-- Both clashes come from texts that can be read. -/
theorem not_reread_clashes :
    (∃ api, read "api.txt" namesakeText none = .ok api ∧
      ¬∃ again, read "api.txt" (write api) none = .ok again ∧ again.same api = true ∧
        write again = write api) ∧
    ∃ api, read "api.txt" nativeText (some .nullAware) = .ok api ∧
      ¬∃ again, read "api.txt" (write api) none = .ok again ∧ again.same api = true ∧
        write again = write api := by
  constructor
  · obtain ⟨api, whole, bad⟩ := @rereadable?_spec namesakeText none false (by decide +kernel)
    refine ⟨api, whole, ?_⟩
    rintro ⟨again, readAgain, same, _⟩
    exact of_decide_eq_false bad ((retells_read whole "api.txt").2 again readAgain same)
  · obtain ⟨api, whole, bad⟩ := @rereadable?_spec nativeText (some .nullAware) false
      (by decide +kernel)
    refine ⟨api, whole, ?_⟩
    rintro ⟨again, readAgain, same, _⟩
    exact of_decide_eq_false bad ((retells_read whole "api.txt").2 again readAgain same)

end ApiCompat.Signature
