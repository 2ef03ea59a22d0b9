import ApiCompat.Api.Basic
import ApiCompat.Report.Basic

/-!
# Comparing members

Two members with the same key are compared rule by rule.  Each rule gives the
findings of one kind of change, and a comparison lists those of its rules in
order, so no finding hides another.
-/

set_option autoImplicit false

namespace ApiCompat.Compare

/-- The element that findings are about, and the line of the file where they are placed. -/
structure Spot where
  file : String
  line : Nat
  target : String

def Spot.finding (spot : Spot) (issue : Issue) (message : String) : Finding :=
  Finding.warning issue message spot.target { file := spot.file, line := spot.line }

def Spot.findingIf (spot : Spot) (condition : Bool) (issue : Issue) (message : String) :
    List Finding :=
  if condition then [spot.finding issue message] else []

/-! ## Rules shared by several declarations -/

def scopeFindings (spot : Spot) (what : String) (was now : Modifiers) : List Finding :=
  spot.findingIf (decide (now.visibility.rank < was.visibility.rank)) .changedScope
    (what ++ " " ++ spot.target ++ " changed visibility from " ++ was.visibility.describe ++
      " to " ++ now.visibility.describe)

/-- What is static stays static, and what is not does not become so. -/
def staticFindings (spot : Spot) (what : String) (was now : Modifiers) : List Finding :=
  spot.findingIf (was.isStatic != now.isStatic) .changedStatic
    (what ++ " " ++ spot.target ++ " has changed 'static' qualifier")

/-- No exception may be added; exceptions are told apart by their erasures. -/
def throwsFindings (spot : Spot) (what : String) (was now : List TypeRef) : List Finding :=
  let before := was.map TypeRef.erasure
  now.flatMap fun thrown =>
    spot.findingIf (!before.contains thrown.erasure) .changedThrows
      (what ++ " " ++ spot.target ++ " added thrown exception " ++ thrown.erasure)

/-! ## Nullness -/

def regressionMessage (regression : Regression) (subject position : String) : String :=
  match regression with
  | .removedNullable => "Attempted to remove @Nullable annotation from " ++ subject
  | .removedNonNull => "Attempted to remove @NonNull annotation from " ++ subject
  | .narrowedParameter =>
      "Attempted to change " ++ position ++
        " from @Nullable to @NonNull: incompatible change for " ++ subject
  | .widenedReturn =>
      "Attempted to change " ++ position ++
        " from @NonNull to @Nullable: incompatible change for " ++ subject

def nullnessFindings (spot : Spot) (subject position : String) (change : Option Regression) :
    List Finding :=
  match change with
  | none => []
  | some regression =>
      [spot.finding .invalidNullConversion (regressionMessage regression subject position)]

/-- Nullness of parameters, which are lined up by index; `owner` is what they belong to. -/
def parameterFindings (spot : Spot) (owner : String) (was now : List Parameter) : List Finding :=
  (was.zip now).zipIdx.flatMap fun ((before, after), index) =>
    nullnessFindings spot ("parameter " ++ after.displayName index ++ " in " ++ owner) "parameter"
      (regression? before.type.nullness after.type.nullness .parameter)

/-! ## Members -/

def constructorTarget (cls : ClassDecl) (item : Constructor) : String :=
  callSignature cls.qualifiedName item.parameters

def constructorFindings (file : String) (line : Nat) (cls : ClassDecl) (was now : Constructor) :
    List Finding :=
  let spot : Spot := { file, line, target := constructorTarget cls now }
  scopeFindings spot "Constructor" was.modifiers now.modifiers ++
    throwsFindings spot "Constructor" was.throws now.throws ++
    parameterFindings spot cls.qualifiedName was.parameters now.parameters

def methodFindings (file : String) (line : Nat) (cls : ClassDecl) (was now : Method) :
    List Finding :=
  let label := cls.qualifiedName ++ "." ++ now.name
  let target := cls.qualifiedName ++ "." ++ now.signature
  let spot : Spot := { file, line, target }
  scopeFindings spot "Method" was.modifiers now.modifiers ++
    staticFindings spot "Method" was.modifiers now.modifiers ++
    spot.findingIf
      (!was.modifiers.isFinal && now.modifiers.isFinal && !cls.modifiers.isFinal) .changedFinal
      ("Method " ++ target ++ " has added 'final' qualifier") ++
    spot.findingIf (!was.modifiers.isAbstract && now.modifiers.isAbstract) .changedAbstract
      ("Method " ++ target ++ " has changed 'abstract' qualifier") ++
    spot.findingIf (!was.returnType.sameShape now.returnType) .changedType
      ("Method " ++ target ++ " has changed return type from " ++ was.returnType.display ++
        " to " ++ now.returnType.display) ++
    throwsFindings spot "Method" was.throws now.throws ++
    (if now.returnType.isVoid then []
      else nullnessFindings spot ("method " ++ label) "method return"
        (regression? was.returnType.nullness now.returnType.nullness .result)) ++
    parameterFindings spot label was.parameters now.parameters

/-- A changed constant value; a value that came or went is no change. -/
def valueFindings (spot : Spot) (was now : Option String) : List Finding :=
  match was, now with
  | some before, some after =>
      spot.findingIf (before != after) .changedValue
        ("Field " ++ spot.target ++ " has changed value from " ++ before ++ " to " ++ after)
  | _, _ => []

def fieldFindings (file : String) (line : Nat) (cls : ClassDecl) (was now : Field) :
    List Finding :=
  let target := cls.qualifiedName ++ "." ++ now.name
  let spot : Spot := { file, line, target }
  scopeFindings spot "Field" was.modifiers now.modifiers ++
    staticFindings spot "Field" was.modifiers now.modifiers ++
    spot.findingIf (!was.modifiers.isFinal && now.modifiers.isFinal) .changedFinal
      ("Field " ++ target ++ " has added 'final' qualifier") ++
    spot.findingIf (!was.type.sameShape now.type) .changedType
      ("Field " ++ target ++ " has changed type from " ++ was.type.display ++ " to " ++
        now.type.display) ++
    valueFindings spot was.value now.value ++
    nullnessFindings spot ("field " ++ target) "field"
      (regression? was.type.nullness now.type.nullness .result)

/-- What is wrong with a member whose key is in both versions of a class; `cls` is the current
version in `file`.  Members of one key are of one kind. -/
def memberFindings (file : String) (cls : ClassDecl) (was now : Located Member) : List Finding :=
  match was.item, now.item with
  | .constructor before, .constructor after => constructorFindings file now.line cls before after
  | .method before, .method after => methodFindings file now.line cls before after
  | .field before, .field after => fieldFindings file now.line cls before after
  | _, _ => []

def removedMember (file : String) (cls : ClassDecl) (was : Located Member) : Finding :=
  let owner := cls.qualifiedName
  let removed := fun (issue : Issue) (message target : String) =>
    Finding.warning issue message target { file, line := was.line }
  match was.item with
  | .constructor item =>
      removed .removedMethod ("Removed constructor " ++ owner) (constructorTarget cls item)
  | .method item =>
      removed .removedMethod ("Removed method " ++ owner ++ "." ++ item.name)
        (owner ++ "." ++ item.signature)
  | .field item =>
      removed .removedField
        ((if item.isEnumConstant then "Removed enum constant " else "Removed field ") ++ owner ++
          "." ++ item.name)
        (owner ++ "." ++ item.name)

end ApiCompat.Compare
