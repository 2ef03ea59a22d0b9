import ApiCompat.Proofs.Rerun.Classes
import ApiCompat.Proofs.Signature.Fronts

/-!
# Declarations behind their fronts

What is read of a declaration behind its front depends on the front only
through what it says.  `memberBody` is that part of a member, `classHeadBody`
that of the head of a class.
-/

set_option autoImplicit false

namespace ApiCompat.Signature

open Reader

/-! ## Members -/

def constructorBody (front : Preamble) : Reader Constructor := do
  let typeParams ← typeParams
  let name ← qualifiedName .constructorName
  let parameters ← parameters
  let throws ← throwsClause
  let _ ← expect .semicolon
  return { name, modifiers := front.modifiers, typeParams, parameters, throws }

def methodBody (front : Preamble) : Reader Method := do
  let typeParams ← typeParams
  let returnType ← typeRef front.nullness
  let name ← identifier .methodName
  let parameters ← parameters
  let throws ← throwsClause
  let defaultValue ← if ← skipWord? "default" then some <$> rawValue else pure none
  let _ ← expect .semicolon
  return { name := name.text, modifiers := front.modifiers, typeParams, returnType, parameters,
           throws, defaultValue }

def fieldBody (isEnumConstant : Bool) (front : Preamble) : Reader Field := do
  let type ← typeRef front.nullness
  let name ← identifier .fieldName
  let value ← if ← skip? .equals then some <$> rawValue else pure none
  let _ ← expect .semicolon
  return { name := name.text, modifiers := front.modifiers, type, value, isEnumConstant }

def memberBody (keyword : String) (line : Nat) (front : Preamble) : Reader (Located Member) :=
  match keyword with
  | "ctor" => do return { line, item := .constructor (← constructorBody front) }
  | "method" => do return { line, item := .method (← methodBody front) }
  | "field" => do return { line, item := .field (← fieldBody false front) }
  | "enum_constant" => do return { line, item := .field (← fieldBody true front) }
  | other => failAt line (.unsupportedMember other)

theorem member_eq_behind : member =
    identifier .memberDeclaration >>= fun keyword => memberBehind keyword.text keyword.line := rfl

/-- Behind a keyword that is known a front and a body are read. -/
theorem memberBehind_eq (keyword : String) (line : Nat) :
    memberBehind keyword line = preamble >>= memberBody keyword line ∨
      memberBehind keyword line = failAt line (.unsupportedMember keyword) := by
  unfold memberBehind memberBody
  split
  · exact .inl (bind_assoc preamble constructorBody _)
  · exact .inl (bind_assoc preamble methodBody _)
  · exact .inl (bind_assoc preamble (fieldBody false) _)
  · exact .inl (bind_assoc preamble (fieldBody true) _)
  · exact .inr rfl

variable {context : Context} {lexemes rest : List Lexeme} {found : Located Member}

/-- A member is read as its keyword, its front and its body. -/
theorem member_eq_ok_iff : member context lexemes = .ok (found, rest) ↔
    ∃ keyword later front body, lexemes = keyword :: later ∧ keyword.kind = .identifier ∧
      preamble context later = .ok (front, body) ∧
      memberBody keyword.text keyword.line front context body = .ok (found, rest) ∧
      memberBehind keyword.text keyword.line =
        preamble >>= memberBody keyword.text keyword.line := by
  rw [member_eq_behind]
  constructor
  · intro read
    obtain ⟨keyword, later, first, readOwn⟩ := bind_eq_ok read
    obtain ⟨rfl, isWord⟩ := expectKind_eq_ok first
    rcases memberBehind_eq keyword.text keyword.line with known | unknown
    · rw [known] at readOwn
      obtain ⟨front, body, readFront, readBody⟩ := bind_eq_ok readOwn
      exact ⟨keyword, later, front, body, rfl, isWord, readFront, readBody, known⟩
    · rw [unknown] at readOwn
      cases readOwn
  · rintro ⟨keyword, later, front, body, rfl, isWord, readFront, readBody, known⟩
    rw [identifier, bind_ok (expectKind_here isWord _ context later), known, bind_ok readFront]
    exact readBody

/-! ## Heads of classes -/

def classHeadBody (line : Nat) (front : Preamble) : Reader ClassHead := do
  let kind ← classKind
  let name ← qualifiedName .className
  let typeParams ← typeParams
  let supertypes ← supertypeClauses kind
  let _ ← expect .leftBrace
  return { line, front, kind, name, typeParams, supertypes }

/-- The head keeps the front and the line, and nothing else of it depends on them. -/
theorem classHeadBody_eq_ok {line : Nat} {front : Preamble} {head : ClassHead}
    (read : classHeadBody line front context lexemes = .ok (head, rest)) :
    head.front = front ∧ ∀ line', classHeadBody line' front context lexemes =
      .ok ({ head with line := line' }, rest) := by
  obtain ⟨kind, _, readKind, read⟩ := bind_eq_ok read
  obtain ⟨name, _, readName, read⟩ := bind_eq_ok read
  obtain ⟨params, _, readParams, read⟩ := bind_eq_ok read
  obtain ⟨supertypes, _, readSupertypes, read⟩ := bind_eq_ok read
  obtain ⟨brace, _, readBrace, read⟩ := bind_eq_ok read
  obtain ⟨rfl, rfl⟩ := pure_eq_ok read
  refine ⟨rfl, fun line' => ?_⟩
  rw [classHeadBody, bind_ok readKind, bind_ok readName, bind_ok readParams,
    bind_ok readSupertypes, bind_ok readBrace]
  rfl

/-- The head of a class is read as its front and what is behind it. -/
theorem classHead_eq_ok_iff {head : ClassHead} : classHead context lexemes = .ok (head, rest) ↔
    ∃ line front body, currentLine context lexemes = .ok (line, lexemes) ∧
      preamble context lexemes = .ok (front, body) ∧
      classHeadBody line front context body = .ok (head, rest) := by
  constructor
  · intro read
    obtain ⟨line, behind, readLine, read⟩ := bind_eq_ok read
    obtain rfl : lexemes = behind := by
      cases lexemes <;> cases readLine <;> rfl
    obtain ⟨front, body, readFront, read⟩ := bind_eq_ok read
    exact ⟨line, front, body, readLine, readFront, read⟩
  · rintro ⟨line, front, body, readLine, readFront, readBody⟩
    rw [classHead, bind_ok readLine, bind_ok readFront]
    exact readBody

end ApiCompat.Signature
