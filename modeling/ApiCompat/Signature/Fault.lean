import ApiCompat.Member
import ApiCompat.Token.Basic

/-!
# Why a signature text is malformed

A fault has a line and a reason.  `Reason.message` gives the wording.
-/

set_option autoImplicit false

namespace ApiCompat

inductive Expected where
  | token (kind : TokenKind)
  | packageKeyword
  | packageName
  | classKeyword
  | className
  | memberDeclaration
  | constructorName
  | methodName
  | fieldName
  | typeName
  | typeParameter
  | annotationName
  | value
deriving DecidableEq

def Expected.describe : Expected → String
  | token kind => kind.describe
  | packageKeyword => "`package`"
  | packageName => "package name"
  | classKeyword => "class, interface, enum or @interface"
  | className => "class name"
  | memberDeclaration => "member declaration"
  | constructorName => "constructor name"
  | methodName => "method name"
  | fieldName => "field name"
  | typeName => "type"
  | typeParameter => "type parameter"
  | annotationName => "annotation name"
  | value => "value"

inductive Reason where
  /-- No lexeme can be read here. -/
  | unreadable (text : String)
  | unsupportedFormat (version : String)
  /-- The header implies another null mode than the one asked for. -/
  | modeConflict (version : String) (implied requested : NullMode)
  /-- Something else stands where `expected` should; nothing at the end of the text. -/
  | unexpected (expected : Expected) (found : Option (TokenKind × String))
  | unterminatedPackage (name : String)
  | unterminatedClass (qualifiedName : String)
  | unterminatedArguments
  | duplicateClass (qualifiedName : String)
  | duplicateMember (key : MemberKey) (qualifiedName : String)
  | unsupportedMember (keyword : String)
  | conflictingAnnotations
  | conflictingSuffix
deriving DecidableEq

def Reason.message : Reason → String
  | unreadable text => "unexpected character `" ++ text ++ "`"
  | unsupportedFormat version => "unsupported signature format " ++ version
  | modeConflict version implied requested =>
      "signature format " ++ version ++ " implies " ++ implied.name ++ " nullness but " ++
        requested.name ++ " was requested"
  | unexpected expected none => "expected " ++ expected.describe ++ ", found end of file"
  | unexpected expected (some (kind, text)) =>
      "expected " ++ expected.describe ++ ", found " ++ kind.describe ++ " `" ++ text ++ "`"
  | unterminatedPackage name => "unterminated package block `" ++ name ++ "`"
  | unterminatedClass name => "unterminated class block `" ++ name ++ "`"
  | unterminatedArguments => "unterminated annotation arguments"
  | duplicateClass name => "duplicate class `" ++ name ++ "`"
  | duplicateMember key name => "duplicate member `" ++ key.display ++ "` in `" ++ name ++ "`"
  | unsupportedMember keyword => "unsupported member kind `" ++ keyword ++ "`"
  | conflictingAnnotations => "conflicting nullness annotations"
  | conflictingSuffix => "conflicting nullness annotation and suffix"

structure Fault where
  line : Nat
  reason : Reason
deriving DecidableEq

def Fault.message (fault : Fault) (file : String) : String :=
  file ++ ":" ++ toString fault.line ++ ": malformed signature: " ++ fault.reason.message

end ApiCompat
