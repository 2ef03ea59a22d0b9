/-!
# Kinds of incompatibility

Every kind has a name and a code.  Reports print both and policies go by the
code, so codes are never given away twice.
-/

set_option autoImplicit false

namespace ApiCompat

inductive Issue where
  | removedPackage
  | removedClass
  | removedMethod
  | removedField
  | removedInterface
  | changedStatic
  | changedFinal
  | changedType
  | changedValue
  | changedSuperclass
  | changedScope
  | changedAbstract
  | changedThrows
  | changedClass
  | invalidNullConversion
deriving DecidableEq

namespace Issue

def all : List Issue :=
  [removedPackage, removedClass, removedMethod, removedField, removedInterface, changedStatic,
    changedFinal, changedType, changedValue, changedSuperclass, changedScope, changedAbstract,
    changedThrows, changedClass, invalidNullConversion]

def code : Issue → UInt32
  | removedPackage => 7
  | removedClass => 8
  | removedMethod => 9
  | removedField => 10
  | removedInterface => 11
  | changedStatic => 12
  | changedFinal => 13
  | changedType => 16
  | changedValue => 17
  | changedSuperclass => 18
  | changedScope => 19
  | changedAbstract => 20
  | changedThrows => 21
  | changedClass => 23
  | invalidNullConversion => 40

def name : Issue → String
  | removedPackage => "RemovedPackage"
  | removedClass => "RemovedClass"
  | removedMethod => "RemovedMethod"
  | removedField => "RemovedField"
  | removedInterface => "RemovedInterface"
  | changedStatic => "ChangedStatic"
  | changedFinal => "ChangedFinal"
  | changedType => "ChangedType"
  | changedValue => "ChangedValue"
  | changedSuperclass => "ChangedSuperclass"
  | changedScope => "ChangedScope"
  | changedAbstract => "ChangedAbstract"
  | changedThrows => "ChangedThrows"
  | changedClass => "ChangedClass"
  | invalidNullConversion => "InvalidNullConversion"

def display (issue : Issue) : String := issue.name ++ ":" ++ toString issue.code.toNat

def ofCode? (code : UInt32) : Option Issue := all.find? fun issue => issue.code == code

def ofName? (name : String) : Option Issue := all.find? fun issue => issue.name == name

theorem mem_all (issue : Issue) : issue ∈ all := by
  cases issue <;> decide

theorem ofCode?_code (issue : Issue) : ofCode? issue.code = some issue := by
  cases issue <;> decide

theorem ofName?_name (issue : Issue) : ofName? issue.name = some issue := by
  cases issue <;> decide

end Issue

end ApiCompat
