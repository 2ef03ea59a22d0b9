import ApiCompat.Proofs.Signature.Takes
import ApiCompat.Signature.Classes

/-!
# The loop that reads a block

The members of a class and the classes of a package are read by one loop: item
by item up to the closing brace, each filed under its key (`BlockLoop`).
-/

set_option autoImplicit false

namespace ApiCompat.Signature

open Reader

theorem skip_here {kind : TokenKind} {next : Lexeme} (same : next.kind = kind) (context : Context)
    (rest : List Lexeme) : skip? kind context (next :: rest) = .ok (true, rest) := by
  have taken : takeIf? (fun lexeme => lexeme.kind == kind) context (next :: rest) =
      .ok (some next, rest) := by simp [takeIf?, same]
  exact bind_ok taken

theorem skip_elsewhere {kind : TokenKind} {next : Lexeme} (other : next.kind ≠ kind)
    (context : Context) (rest : List Lexeme) :
    skip? kind context (next :: rest) = .ok (false, next :: rest) := by
  have left : takeIf? (fun lexeme => lexeme.kind == kind) context (next :: rest) =
      .ok (none, next :: rest) := by simp [takeIf?, other]
  exact bind_ok left

section Loop

variable {κ α : Type} [DecidableEq κ]

/-- What is read of a block where it neither ends nor is left open. -/
def blockItem (key : α → κ) (item : Reader (Located α)) (duplicate : Located α → Reason)
    (later : OrderedMap κ (Located α) → Reader (OrderedMap κ (Located α)))
    (map : OrderedMap κ (Located α)) : Reader (OrderedMap κ (Located α)) := do
  let found ← item
  if map.contains (key found.item) then failAt found.line (duplicate found)
  else later (map.insert (key found.item) found)

/-- The loop reads items up to the closing brace, one a round, and files them under their keys. -/
structure BlockLoop (key : α → κ) (item : Reader (Located α)) (line : Nat) (unterminated : Reason)
    (duplicate : Located α → Reason)
    (body : Nat → OrderedMap κ (Located α) → Reader (OrderedMap κ (Located α))) : Prop where
  zero : ∀ map, body 0 map = failAt line unterminated
  step : ∀ rounds map, body (rounds + 1) map = (do
    if ← skip? .rightBrace then return map
    else if (← remaining).isEmpty then failAt line unterminated
    else blockItem key item duplicate (body rounds) map)

namespace BlockLoop

variable {key : α → κ} {item : Reader (Located α)} {line : Nat} {unterminated : Reason}
  {duplicate : Located α → Reason}
  {body : Nat → OrderedMap κ (Located α) → Reader (OrderedMap κ (Located α))}

theorem atEnd (loop : BlockLoop key item line unterminated duplicate body) (rounds : Nat)
    (map : OrderedMap κ (Located α)) (context : Context) :
    body rounds map context [] = .error { line, reason := unterminated } := by
  cases rounds with
  | zero => rw [loop.zero]; rfl
  | succ rounds => rw [loop.step]; rfl

variable {next : Lexeme}

theorem close (loop : BlockLoop key item line unterminated duplicate body)
    (closes : next.kind = .rightBrace) (rounds : Nat) (map : OrderedMap κ (Located α))
    (context : Context) (rest : List Lexeme) :
    body (rounds + 1) map context (next :: rest) = .ok (map, rest) := by
  rw [loop.step, bind_ok (skip_here closes context rest)]
  rfl

theorem goOn (loop : BlockLoop key item line unterminated duplicate body)
    (other : next.kind ≠ .rightBrace) (rounds : Nat) (map : OrderedMap κ (Located α))
    (context : Context) (rest : List Lexeme) :
    body (rounds + 1) map context (next :: rest) =
      blockItem key item duplicate (body rounds) map context (next :: rest) := by
  rw [loop.step, bind_ok (skip_elsewhere other context rest)]
  rfl

end BlockLoop

end Loop

theorem blockLoop_classBody (line : Nat) (owner : String) :
    BlockLoop Member.key member line (.unterminatedClass owner)
      (fun found => .duplicateMember found.item.key owner) (classBody line owner) where
  zero _ := rfl
  step _ _ := rfl

theorem blockLoop_packageBody (line : Nat) (package : String) :
    BlockLoop ClassDecl.name (classDecl package) line (.unterminatedPackage package)
      (fun found => .duplicateClass found.item.qualifiedName) (packageBody line package) where
  zero _ := rfl
  step _ _ := rfl

end ApiCompat.Signature
