import ApiCompat.Proofs.Api.Merge
import ApiCompat.Proofs.Signature.Modes
import ApiCompat.Proofs.Token.Append

/-!
# The same lexemes on other lines

What is read depends on the kinds and the texts of the lexemes and on what
stands between them.  Their lines are copied into what is declared and into
faults, and nothing else looks at them (`readPackages_relined`).
-/

set_option autoImplicit false

namespace ApiCompat.Signature

open Grammar Reader

structure Relines (shift : Nat → Nat) (move : Lexeme → Lexeme) : Prop where
  kind : ∀ lexeme, (move lexeme).kind = lexeme.kind
  text : ∀ lexeme, (move lexeme).text = lexeme.text
  gap : ∀ lexeme, (move lexeme).gap = lexeme.gap
  line : ∀ lexeme, (move lexeme).line = shift lexeme.line

theorem relines_down (bytes lines : Nat) : Relines (· + lines) (Lexeme.down bytes lines) where
  kind _ := rfl
  text _ := rfl
  gap _ := rfl
  line _ := rfl

variable {mode : NullMode} {lexemes : List Lexeme} {shift : Nat → Nat} {move : Lexeme → Lexeme}

theorem Relines.lastLine (relines : Relines shift move) (filled : lexemes ≠ []) :
    lastLine (lexemes.map move) = shift (lastLine lexemes) := by
  rw [Signature.lastLine, Signature.lastLine, List.getLast?_map]
  cases shape : lexemes.getLast? with
  | none => exact absurd (List.getLast?_eq_none_iff.mp shape) filled
  | some last => exact relines.line last

def relined (mode : NullMode) (relines : Relines shift move) (lexemes : List Lexeme) : Rerun where
  context := { nullMode := mode, endLine := lastLine lexemes }
  context' := { nullMode := mode, endLine := shift (lastLine lexemes) }
  move := move
  shift := shift
  more := []
  kind_move := relines.kind
  text_move := relines.text
  gap_move := relines.gap
  line_move := relines.line
  end_move _ := rfl

/-- What is declared, and the fault if there is one, move with the lexemes. -/
theorem readPackages_relined (mode : NullMode) (relines : Relines shift move)
    (standard : ∀ lexeme ∈ lexemes, lexeme.Standard) :
    readPackages mode (lexemes.map move) =
      moveOutcome shift (changePackages shift (ClassDecl.moved shift))
        (readPackages mode lexemes) := by
  by_cases filled : lexemes = []
  · subst filled
    rfl
  · let run := relined mode relines lexemes
    have again : run.again lexemes = lexemes.map move := List.append_nil _
    have settled : run.Settled lexemes := Rerun.settled_of_alone rfl standard
    obtain ⟨blocks, _, outcome⟩ :=
      accumulates_packageBlocks settled (Nat.le_refl _) (Nat.le_refl (run.again lexemes).length)
    have declared : blocks.foldlM (blockAgain run) .empty =
        moveOutcome shift (changePackages shift (ClassDecl.moved shift))
          (blocks.foldlM (blockFirst run) .empty) := by
      rw [foldlM_blockAgain, foldlM_blockFirst]
      exact (foldlM_declareBlock_changed shift (keepsNames_moved shift) _ .empty).symm
    rw [again] at outcome
    have context : run.context' = { nullMode := mode, endLine := lastLine (lexemes.map move) } := by
      rw [relines.lastLine filled]
      rfl
    rw [context] at outcome
    rcases outcome with ⟨fault, failed, failed'⟩ | ⟨_, all, left, _, all'⟩
    · rw [readPackages_failed (failed .empty), readPackages_failed (failed' rfl .empty), declared]
      cases blocks.foldlM (blockFirst run) .empty <;> rfl
    · have all' := all' .empty
      have behind : run.more = [] := rfl
      simp only [behind, packageBlocks_nil] at all'
      rw [readPackages_all (all .empty), readPackages_all all', declared]

/-! ## What stands before the first lexeme -/

theorem lastLine_widen (gap : String) : lastLine (widen gap lexemes) = lastLine lexemes := by
  cases lexemes with
  | nil => rfl
  | cons first rest =>
      cases rest with
      | nil => rfl
      | cons next rest => simp [lastLine, widen]

theorem packageHead_cons (context : Context) (next : Lexeme) (rest : List Lexeme) :
    packageHead context (next :: rest) =
      if next.isWord "package" then
        (qualifiedName .packageName >>= fun name => expect .leftBrace >>= fun _ =>
          pure (next.line, name)) context rest
      else .error { line := next.line,
                    reason := .unexpected .packageKeyword (some (next.kind, next.text)) } := by
  rw [packageHead, bind_ok (currentLine_apply context next rest)]
  have skipped : skipWord? "package" context (next :: rest) =
      .ok (next.isWord "package", if next.isWord "package" then rest else next :: rest) := by
    have taken : takeIf? (fun lexeme => lexeme.isWord "package") context (next :: rest) =
        if next.isWord "package" then .ok (some next, rest) else .ok (none, next :: rest) := rfl
    cases word : next.isWord "package" with
    | true => exact bind_ok (taken.trans (if_pos word))
    | false => exact bind_ok (taken.trans (if_neg (by simp [word])))
  rw [bind_ok skipped]
  cases next.isWord "package" <;> rfl

/-- What stands before the first lexeme does not matter. -/
theorem packageBlocks_widen {rounds : Nat} (enough : lexemes.length ≤ rounds)
    (packages : OrderedMap String (Located Package)) (context : Context) (gap : String) :
    packageBlocks rounds packages context (widen gap lexemes) =
      packageBlocks rounds packages context lexemes := by
  cases lexemes with
  | nil => rfl
  | cons first rest =>
      obtain ⟨rounds, rfl⟩ : ∃ fewer, rounds = fewer + 1 :=
        Nat.exists_eq_succ_of_ne_zero (by rw [List.length_cons] at enough; omega)
      have head : packageHead context ({ first with gap := gap ++ first.gap } :: rest) =
          packageHead context (first :: rest) := by
        rw [packageHead_cons, packageHead_cons]
        rfl
      have block : packageBlock packages context ({ first with gap := gap ++ first.gap } :: rest) =
          packageBlock packages context (first :: rest) := by
        rw [packageBlock_eq]
        show andThen _ _ _ _ = andThen _ _ _ _
        simp only [andThen, head]
      rw [widen, packageBlocks_cons, packageBlocks_cons, block]

theorem readPackages_widen (gap : String) :
    readPackages mode (widen gap lexemes) = readPackages mode lexemes := by
  have length : (widen gap lexemes).length = lexemes.length := by
    cases lexemes <;> rfl
  simp only [readPackages, length, lastLine_widen, packageBlocks_widen (Nat.le_refl _)]

end ApiCompat.Signature
