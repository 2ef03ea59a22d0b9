import ApiCompat.Api.Basic
import ApiCompat.Signature.Members

/-!
# Reading classes and packages

Blocks are read until their closing brace.  No class may be declared twice in
a package, also when the package is opened again, and no member twice in a
class; the fault is placed on the second declaration.
-/

set_option autoImplicit false

namespace ApiCompat.Signature

open Reader

def classKind : Reader ClassKind := do
  if ← skipWord? "class" then return .classKind
  else if ← skipWord? "interface" then return .interfaceKind
  else if ← skipWord? "enum" then return .enumKind
  else
    match ← remaining with
    | sign :: word :: rest =>
        if sign.kind = .atSign ∧ word.text = "interface" then
          continueWith rest
          return .annotationKind
        else unexpected .classKeyword
    | _ => unexpected .classKeyword

/-- Reads the types of a list after the first one, in at most `rounds` rounds.
Commas between the types may be left out. -/
def typeListRest : Nat → Reader (List TypeRef)
  | 0 => pure []
  | rounds + 1 => do
      let _ ← skip? .comma
      match (← remaining).head? with
      | none => return []
      | some next =>
          if next.kind = .leftBrace || next.isWord "implements" then return []
          else
            let first ← plainType
            let later ← typeListRest rounds
            return first :: later

def typeList : Reader (List TypeRef) := do
  let first ← plainType
  let later ← typeListRest (← remaining).length
  return first :: later

/-- Reads the supertypes of a class: the superclass and the interfaces.  What
an interface extends are interfaces. -/
def supertypeClauses (kind : ClassKind) : Reader (Option TypeRef × OrderedSet TypeRef) := do
  let (superclass, extended) ←
    if ← skipWord? "extends" then
      if kind = .interfaceKind then
        let types ← typeList
        pure (none, types)
      else
        let type ← plainType
        pure (some type, [])
    else pure (none, [])
  let implemented ← if ← skipWord? "implements" then typeList else pure []
  return (superclass, (OrderedSet.ofList extended).insertAll implemented)

/-- Reads members up to the closing brace, in at most `rounds` rounds.  A round
takes a lexeme, so without rounds the text is at its end. -/
def classBody (line : Nat) (owner : String) :
    Nat → OrderedMap MemberKey (Located Member) → Reader (OrderedMap MemberKey (Located Member))
  | 0, _ => failAt line (.unterminatedClass owner)
  | rounds + 1, members => do
      if ← skip? .rightBrace then return members
      else if (← remaining).isEmpty then failAt line (.unterminatedClass owner)
      else
        let found ← member
        let key := found.item.key
        if members.contains key then failAt found.line (.duplicateMember key owner)
        else classBody line owner rounds (members.insert key found)

def classDecl (package : String) : Reader (Located ClassDecl) := do
  let line ← currentLine
  let front ← preamble
  let kind ← classKind
  let name ← qualifiedName .className
  let qualifiedName := qualify package name
  let typeParams ← typeParams
  let (superclass, interfaces) ← supertypeClauses kind
  let _ ← expect .leftBrace
  let members ← classBody line qualifiedName (← remaining).length .empty
  return {
    line
    item := { name, qualifiedName, kind, modifiers := front.modifiers, typeParams, superclass,
              interfaces, members } }

/-- Reads classes up to the closing brace and adds them to those of the
package, in at most `rounds` rounds. -/
def packageBody (line : Nat) (package : String) :
    Nat → OrderedMap String (Located ClassDecl) → Reader (OrderedMap String (Located ClassDecl))
  | 0, _ => failAt line (.unterminatedPackage package)
  | rounds + 1, classes => do
      if ← skip? .rightBrace then return classes
      else if (← remaining).isEmpty then failAt line (.unterminatedPackage package)
      else
        let found ← classDecl package
        if classes.contains found.item.name then
          failAt found.line (.duplicateClass found.item.qualifiedName)
        else packageBody line package rounds (classes.insert found.item.name found)

/-- Reads a package block and adds it to the packages.  A package that was
there keeps its line and its classes. -/
def packageBlock (packages : OrderedMap String (Located Package)) :
    Reader (OrderedMap String (Located Package)) := do
  let line ← currentLine
  if ← skipWord? "package" then
    let name ← qualifiedName .packageName
    let _ ← expect .leftBrace
    let opened := (packages.get? name).getD { line, item := { name } }
    let classes ← packageBody line name (← remaining).length opened.item.classes
    return packages.insert name { opened with item := { opened.item with classes } }
  else unexpected .packageKeyword

/-- Reads package blocks up to the end of the text, in at most `rounds` rounds. -/
def packageBlocks : Nat → OrderedMap String (Located Package) →
    Reader (OrderedMap String (Located Package))
  | 0, packages => pure packages
  | rounds + 1, packages => do
      if (← remaining).isEmpty then return packages
      else packageBlocks rounds (← packageBlock packages)

end ApiCompat.Signature
