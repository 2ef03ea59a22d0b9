import ApiCompat.Api.Basic

/-!
# Looking up classes by qualified name

A qualified name does not say where the package ends and the class begins, so
every cut is tried, the longest package first.  A supertype is unresolved when
the API has a package that the name belongs to but no such class.
-/

set_option autoImplicit false

namespace ApiCompat

/-- A supertype whose package is described but which is not. -/
structure UnresolvedReference where
  className : String
  reference : String
  line : Nat
deriving DecidableEq

namespace Api

def classIn? (api : Api) (package name : String) : Option (Located ClassDecl) :=
  (api.packages.get? package).bind fun found => found.item.classes.get? name

/-- The class of a qualified name; a longer package name goes before a shorter
one, and the unnamed package comes last. -/
def findClass? (api : Api) (qualifiedName : String) : Option (Located ClassDecl) :=
  ((nameCuts qualifiedName).findSome? fun cut => api.classIn? cut.1 cut.2).or
    (api.classIn? "" qualifiedName)

def ownsPackageOf (api : Api) (qualifiedName : String) : Bool :=
  (nameCuts qualifiedName).any fun cut => api.packages.contains cut.1

def supertypes (cls : ClassDecl) : List TypeRef :=
  cls.superclass.toList ++ cls.interfaces.toList

/-- The supertypes that should be in the API and are not. -/
def unresolvedReferences (api : Api) : List UnresolvedReference :=
  api.classes.flatMap fun cls =>
    (supertypes cls.item).filterMap fun type =>
      if (api.findClass? type.name).isSome || !api.ownsPackageOf type.name then none
      else some
        { className := cls.item.qualifiedName, reference := type.name, line := cls.line }

end Api

end ApiCompat
