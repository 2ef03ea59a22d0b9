import ApiCompat.Name

/-!
# Nullness

Whether a type admits null, how a signature file marks it, and which changes
of it break callers.  A parameter may come to accept more and a result may
come to promise more; the other directions, and dropping a mark, are
regressions (`regression?`).
-/

set_option autoImplicit false

namespace ApiCompat

inductive Nullness where
  | unspecified
  | nullable
  | nonNull
deriving DecidableEq, Inhabited

/-- How a type without any nullness mark is to be understood. -/
inductive NullMode where
  /-- A bare type says nothing about null. -/
  | legacy
  /-- A bare type excludes null. -/
  | nullAware
deriving DecidableEq, Inhabited

namespace Nullness

def annotationText? : Nullness → Option String
  | unspecified => none
  | nullable => some "@Nullable"
  | nonNull => some "@NonNull"

def isSpecified (nullness : Nullness) : Bool := nullness != unspecified

/-- The nullness declared by an annotation of the given name, in any package. -/
def ofAnnotation? (name : String) : Option Nullness :=
  match lastWord name with
  | "Nullable" | "CheckForNull" | "RecentlyNullable" => some nullable
  | "NonNull" | "NotNull" | "Nonnull" | "RecentlyNonNull" => some nonNull
  | _ => none

end Nullness

namespace NullMode

def bare : NullMode → Nullness
  | legacy => .unspecified
  | nullAware => .nonNull

def name : NullMode → String
  | legacy => "legacy"
  | nullAware => "null-aware"

def version : NullMode → String
  | legacy => "2.0"
  | nullAware => "3.0"

def ofVersion? : String → Option NullMode
  | "1.0" | "2.0" => some legacy
  | "3.0" => some nullAware
  | _ => none

def ofName? : String → Option NullMode
  | "legacy" => some legacy
  | "null-aware" => some nullAware
  | _ => none

theorem ofVersion?_version (mode : NullMode) : ofVersion? mode.version = some mode := by
  cases mode <;> rfl

theorem ofName?_name (mode : NullMode) : ofName? mode.name = some mode := by
  cases mode <;> rfl

end NullMode

inductive Position where
  | parameter
  /-- What a method returns or a field holds. -/
  | result
deriving DecidableEq

inductive Regression where
  | removedNullable
  | removedNonNull
  | narrowedParameter
  | widenedReturn
deriving DecidableEq

def regression? : Nullness → Nullness → Position → Option Regression
  | .nullable, .unspecified, _ => some .removedNullable
  | .nonNull, .unspecified, _ => some .removedNonNull
  | .nullable, .nonNull, .parameter => some .narrowedParameter
  | .nonNull, .nullable, .result => some .widenedReturn
  | _, _, _ => none

end ApiCompat
