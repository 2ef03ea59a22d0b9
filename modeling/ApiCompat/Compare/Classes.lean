import ApiCompat.Compare.Members

/-!
# Comparing classes

A class that changed its kind gives one finding in place of those about its
declaration.  Its members are compared either way, in the order of the
previous version.
-/

set_option autoImplicit false

namespace ApiCompat.Compare

def rootClass : String := "java.lang.Object"

def superclassName (cls : ClassDecl) : String :=
  (cls.superclass.map TypeRef.erasure).getD rootClass

def describeKind : ClassKind → String
  | .classKind => "class"
  | .interfaceKind => "interface"
  | .enumKind => "enum"
  | .annotationKind => "annotation"

def superclassFindings (spot : Spot) (was now : ClassDecl) : List Finding :=
  spot.findingIf (superclassName was != superclassName now) .changedSuperclass
    ("Class " ++ spot.target ++ " superclass changed from " ++ superclassName was ++ " to " ++
      superclassName now)

def interfaceFindings (spot : Spot) (was now : ClassDecl) : List Finding :=
  was.interfaceNames.flatMap fun interface =>
    spot.findingIf (!now.interfaceNames.contains interface) .removedInterface
      ("Class " ++ spot.target ++ " no longer implements " ++ interface)

/-- What is wrong with the declaration of a class whose kind stayed.  Only a class proper can
become abstract or change its superclass. -/
def shapeFindings (spot : Spot) (was now : ClassDecl) : List Finding :=
  let isClass := now.kind == .classKind
  scopeFindings spot "Class" was.modifiers now.modifiers ++
    staticFindings spot "Class" was.modifiers now.modifiers ++
    spot.findingIf (!was.modifiers.isFinal && now.modifiers.isFinal) .changedFinal
      ("Class " ++ spot.target ++ " added 'final' qualifier") ++
    spot.findingIf (isClass && !was.modifiers.isAbstract && now.modifiers.isAbstract)
      .changedAbstract ("Class " ++ spot.target ++ " changed 'abstract' qualifier") ++
    (if isClass then superclassFindings spot was now else []) ++
    interfaceFindings spot was now

def declarationFindings (spot : Spot) (was now : ClassDecl) : List Finding :=
  if was.kind = now.kind then shapeFindings spot was now
  else
    [spot.finding .changedClass
      ("Class " ++ spot.target ++ " changed class/interface declaration")]

structure Sources where
  previous : String
  current : String

/-- What became of a member of the previous version of a class. -/
def memberOutcome (sources : Sources) (was now : ClassDecl) (member : Located Member) :
    List Finding :=
  match now.members.get? member.item.key with
  | some found => memberFindings sources.current now member found
  | none => [removedMember sources.previous was member]

def classFindings (sources : Sources) (was now : Located ClassDecl) : List Finding :=
  let spot : Spot :=
    { file := sources.current, line := now.line, target := now.item.qualifiedName }
  declarationFindings spot was.item now.item ++
    was.item.members.values.flatMap (memberOutcome sources was.item now.item)

def removedClass (sources : Sources) (was : Located ClassDecl) : Finding :=
  Finding.warning .removedClass
    ("Removed " ++ describeKind was.item.kind ++ " " ++ was.item.qualifiedName)
    was.item.qualifiedName { file := sources.previous, line := was.line }

end ApiCompat.Compare
