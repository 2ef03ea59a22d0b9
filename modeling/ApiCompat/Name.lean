/-!
# Dotted names

Packages, classes and types are named by words joined with dots.  `cuts` lists
the ways to cut a name at one of its dots, the longest front part first, so
that the search for a class prefers the innermost package.
-/

set_option autoImplicit false

namespace ApiCompat

def cutsFromFront : List Char → List (List Char × List Char)
  | [] => []
  | c :: rest =>
      let later := (cutsFromFront rest).map fun cut => (c :: cut.1, cut.2)
      if c = '.' then ([], rest) :: later else later

/-- The ways to cut a name at a dot into what stands before and after it, the
longest front part first. -/
def nameCuts (name : String) : List (String × String) :=
  (cutsFromFront name.toList).reverse.map fun cut =>
    (String.ofList cut.1, String.ofList cut.2)

/-- The part of a name after its last dot; all of it if it has none. -/
def lastWord (name : String) : String :=
  match nameCuts name with
  | [] => name
  | cut :: _ => cut.2

/-- The name of something declared inside a package; the unnamed package adds nothing. -/
def qualify (package name : String) : String :=
  if package.isEmpty then name else package ++ "." ++ name

end ApiCompat
