import ApiCompat.Member
import ApiCompat.Ordered.Map
import ApiCompat.Ordered.Set

/-!
# Descriptions of an API

An API consists of packages, packages hold classes, classes hold members.  A
nested class is held by its package under a dotted name.  Two descriptions are
equal (`Api.same`) when they declare the same things: the order in which they
are stored, their lines and the name of their source do not count.
-/

set_option autoImplicit false

namespace ApiCompat

inductive ClassKind where
  | classKind
  | interfaceKind
  | enumKind
  | annotationKind
deriving DecidableEq

def ClassKind.keyword : ClassKind → String
  | classKind => "class"
  | interfaceKind => "interface"
  | enumKind => "enum"
  | annotationKind => "@interface"

structure ClassDecl where
  /-- The name inside the package, dotted for nested classes. -/
  name : String
  qualifiedName : String
  kind : ClassKind
  modifiers : Modifiers := {}
  typeParams : List TypeParam := []
  superclass : Option TypeRef := none
  interfaces : OrderedSet TypeRef := .empty
  members : OrderedMap MemberKey (Located Member) := .empty

structure Package where
  name : String
  classes : OrderedMap String (Located ClassDecl) := .empty

structure Api where
  source : String
  nullMode : NullMode
  packages : OrderedMap String (Located Package) := .empty

namespace ClassDecl

def constructors (cls : ClassDecl) : List Constructor :=
  cls.members.values.filterMap fun member =>
    match member.item with
    | .constructor item => some item
    | _ => none

def methods (cls : ClassDecl) : List Method :=
  cls.members.values.filterMap fun member =>
    match member.item with
    | .method item => some item
    | _ => none

def fields (cls : ClassDecl) : List Field :=
  cls.members.values.filterMap fun member =>
    match member.item with
    | .field item => some item
    | _ => none

def interfaceNames (cls : ClassDecl) : List String :=
  cls.interfaces.toList.map TypeRef.erasure

def same (cls other : ClassDecl) : Bool :=
  cls.name == other.name && cls.qualifiedName == other.qualifiedName &&
    cls.kind == other.kind && cls.modifiers == other.modifiers &&
    cls.typeParams == other.typeParams && cls.superclass == other.superclass &&
    cls.interfaces.sameElements other.interfaces &&
    cls.members.sameEntries (fun member member' => member.item == member'.item) other.members

end ClassDecl

def Package.same (package other : Package) : Bool :=
  package.name == other.name &&
    package.classes.sameEntries (fun cls cls' => cls.item.same cls'.item) other.classes

namespace Api

/-- Whether two descriptions declare the same under the same null mode. -/
def same (api other : Api) : Bool :=
  api.nullMode == other.nullMode &&
    api.packages.sameEntries (fun package package' => package.item.same package'.item)
      other.packages

def classes (api : Api) : List (Located ClassDecl) :=
  api.packages.values.flatMap fun package => package.item.classes.values

def classCount (api : Api) : Nat := api.classes.length

def memberCount (api : Api) : Nat :=
  (api.classes.map fun cls => cls.item.members.size).foldr Nat.add 0

end Api

end ApiCompat
