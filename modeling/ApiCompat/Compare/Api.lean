import ApiCompat.Compare.Classes

/-!
# Comparing APIs

Everything that the previous API declares is looked up in the current one, in
the order of the previous one.  What only the current API has is an addition
and always compatible.  The two must have been read under the same null mode.
-/

set_option autoImplicit false

namespace ApiCompat

namespace Compare

def classOutcome (sources : Sources) (now : Package) (was : Located ClassDecl) : List Finding :=
  match now.classes.get? was.item.name with
  | some found => classFindings sources was found
  | none => [removedClass sources was]

/-- What became of a package of the previous API; a package without classes may go. -/
def packageOutcome (sources : Sources) (current : Api) (was : Located Package) : List Finding :=
  match current.packages.get? was.item.name with
  | some found => was.item.classes.values.flatMap (classOutcome sources found.item)
  | none =>
      if was.item.classes.isEmpty then []
      else
        [Finding.warning .removedPackage ("Removed package " ++ was.item.name) was.item.name
          { file := sources.previous, line := was.line }]

/-- Everything that is wrong with the current API for users of the previous one. -/
def findings (previous current : Api) : List Finding :=
  previous.packages.values.flatMap
    (packageOutcome { previous := previous.source, current := current.source } current)

end Compare

/-- Two APIs that were read under different null modes. -/
structure ModeMismatch where
  previous : NullMode
  current : NullMode
deriving DecidableEq

def ModeMismatch.message (mismatch : ModeMismatch) : String :=
  "Cannot compare a " ++ mismatch.previous.name ++ " model against a " ++
    mismatch.current.name ++ " model; parse both with the same null mode"

def Api.compare (previous current : Api) : Except ModeMismatch Report :=
  if previous.nullMode = current.nullMode then
    .ok (Report.ofFindings previous.source current.source (Compare.findings previous current))
  else .error { previous := previous.nullMode, current := current.nullMode }

def Api.compareAll (previous : Api) (currents : List Api) : List (Except ModeMismatch Report) :=
  currents.map previous.compare

end ApiCompat
