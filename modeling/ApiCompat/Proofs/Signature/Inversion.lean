import ApiCompat.Proofs.Signature.Takes
import ApiCompat.Signature.Types

/-!
# What a successful reader did

If a composed reader succeeds, its parts did, one after the other
(`bind_eq_ok`); and what each of the small readers returned tells which
lexemes it took.
-/

set_option autoImplicit false

namespace ApiCompat.Signature

open Reader

variable {α β : Type}

theorem bind_eq_ok {reader : Reader α} {next : α → Reader β} {context : Context}
    {lexemes rest : List Lexeme} {value : β}
    (read : (reader >>= next) context lexemes = .ok (value, rest)) :
    ∃ found behind, reader context lexemes = .ok (found, behind) ∧
      next found context behind = .ok (value, rest) := by
  cases first : reader context lexemes with
  | error fault =>
      rw [bind_error first] at read
      cases read
  | ok pair =>
      obtain ⟨found, behind⟩ := pair
      rw [bind_ok first] at read
      exact ⟨found, behind, rfl, read⟩

theorem pure_eq_ok {context : Context} {lexemes rest : List Lexeme} {found value : α}
    (read : (pure found : Reader α) context lexemes = .ok (value, rest)) :
    found = value ∧ lexemes = rest := by
  injection read with read
  injection read with first second
  exact ⟨first, second⟩

theorem remaining_eq_ok {context : Context} {lexemes rest found : List Lexeme}
    (read : remaining context lexemes = .ok (found, rest)) : lexemes = found ∧ lexemes = rest := by
  injection read with read
  injection read with first second
  exact ⟨first, second⟩

theorem takeIf_eq_ok {test : Lexeme → Bool} {context : Context} {lexemes rest : List Lexeme}
    {found : Option Lexeme} (read : takeIf? test context lexemes = .ok (found, rest)) :
    (∃ lexeme, found = some lexeme ∧ lexemes = lexeme :: rest ∧ test lexeme = true) ∨
      (found = none ∧ lexemes = rest ∧ ∀ next ∈ rest.head?, test next = false) := by
  cases lexemes with
  | nil =>
      injection read with read
      injection read with first second
      subst first second
      refine .inr ⟨rfl, rfl, ?_⟩
      intro next member
      cases member
  | cons next later =>
      cases passes : test next with
      | true =>
          simp only [takeIf?, passes, if_true, Except.ok.injEq, Prod.mk.injEq] at read
          obtain ⟨rfl, rfl⟩ := read
          exact .inl ⟨next, rfl, rfl, passes⟩
      | false =>
          simp only [takeIf?, passes, Bool.false_eq_true, if_false, Except.ok.injEq,
            Prod.mk.injEq] at read
          obtain ⟨rfl, rfl⟩ := read
          refine .inr ⟨rfl, rfl, ?_⟩
          intro next' member
          obtain rfl := Option.some.inj member
          exact passes

theorem skip_eq_ok {kind : TokenKind} {context : Context} {lexemes rest : List Lexeme}
    {found : Bool} (read : skip? kind context lexemes = .ok (found, rest)) :
    (found = true ∧ ∃ lexeme, lexemes = lexeme :: rest ∧ lexeme.kind = kind) ∨
      (found = false ∧ lexemes = rest ∧ ∀ next ∈ rest.head?, next.kind ≠ kind) := by
  obtain ⟨taken, behind, first, second⟩ := bind_eq_ok read
  obtain ⟨rfl, rfl⟩ := pure_eq_ok second
  rcases takeIf_eq_ok first with ⟨lexeme, rfl, rfl, passes⟩ | ⟨rfl, rfl, none⟩
  · exact .inl ⟨rfl, lexeme, rfl, by simpa using passes⟩
  · refine .inr ⟨rfl, rfl, fun next member => ?_⟩
    simpa using none next member

theorem skipWord_eq_ok {word : String} {context : Context} {lexemes rest : List Lexeme}
    {found : Bool} (read : skipWord? word context lexemes = .ok (found, rest)) :
    (found = true ∧ ∃ lexeme, lexemes = lexeme :: rest ∧ lexeme.isWord word = true) ∨
      (found = false ∧ lexemes = rest ∧ ∀ next ∈ rest.head?, next.isWord word = false) := by
  obtain ⟨taken, behind, first, second⟩ := bind_eq_ok read
  obtain ⟨rfl, rfl⟩ := pure_eq_ok second
  rcases takeIf_eq_ok first with ⟨lexeme, rfl, rfl, passes⟩ | ⟨rfl, rfl, none⟩
  · exact .inl ⟨rfl, lexeme, rfl, passes⟩
  · exact .inr ⟨rfl, rfl, none⟩

theorem expectKind_eq_ok {kind : TokenKind} {expected : Expected} {context : Context}
    {lexemes rest : List Lexeme} {found : Lexeme}
    (read : expectKind kind expected context lexemes = .ok (found, rest)) :
    lexemes = found :: rest ∧ found.kind = kind := by
  obtain ⟨taken, behind, first, second⟩ := bind_eq_ok read
  rcases takeIf_eq_ok first with ⟨lexeme, rfl, rfl, passes⟩ | ⟨rfl, rfl, _⟩
  · obtain ⟨rfl, rfl⟩ := pure_eq_ok second
    exact ⟨rfl, by simpa using passes⟩
  · cases lexemes with
    | nil => cases second
    | cons next later => cases second

theorem isNext_eq_ok {kind : TokenKind} {context : Context} {lexemes rest : List Lexeme}
    {found : Bool} (read : isNext kind context lexemes = .ok (found, rest)) :
    lexemes = rest ∧ found = rest.head?.any fun next => next.kind == kind := by
  obtain ⟨seen, behind, first, second⟩ := bind_eq_ok read
  obtain ⟨rfl, rfl⟩ := remaining_eq_ok first
  obtain ⟨rfl, rfl⟩ := pure_eq_ok second
  exact ⟨rfl, rfl⟩

/-- Where no separator comes next, no items are read. -/
theorem separatedRest_none {item : Reader α} {separator : TokenKind} {rounds : Nat}
    {context : Context} {lexemes rest : List Lexeme} {found : List α}
    (stop : ∀ next ∈ lexemes.head?, next.kind ≠ separator)
    (read : separatedRest separator item rounds context lexemes = .ok (found, rest)) :
    found = [] ∧ lexemes = rest := by
  cases rounds with
  | zero =>
      obtain ⟨rfl, rfl⟩ := pure_eq_ok read
      exact ⟨rfl, rfl⟩
  | succ rounds =>
      obtain ⟨skipped, behind, first, second⟩ := bind_eq_ok read
      rcases skip_eq_ok first with ⟨rfl, lexeme, rfl, same⟩ | ⟨rfl, rfl, _⟩
      · exact absurd same (stop lexeme rfl)
      · obtain ⟨rfl, rfl⟩ := pure_eq_ok second
        exact ⟨rfl, rfl⟩

theorem withSource_eq_ok {reader : Reader α} {context : Context} {lexemes rest : List Lexeme}
    {value : α} {source : String}
    (read : withSource reader context lexemes = .ok ((value, source), rest)) :
    reader context lexemes = .ok (value, rest) ∧
      source = Lexeme.sourceText (lexemes.take (lexemes.length - rest.length)) := by
  obtain ⟨before, behind, first, second⟩ := bind_eq_ok read
  obtain ⟨rfl, rfl⟩ := remaining_eq_ok first
  obtain ⟨found, behind, taken, second⟩ := bind_eq_ok second
  obtain ⟨after, behind', third, second⟩ := bind_eq_ok second
  obtain ⟨rfl, rfl⟩ := remaining_eq_ok third
  obtain ⟨same, rfl⟩ := pure_eq_ok second
  obtain ⟨rfl, rfl⟩ := Prod.mk.inj same
  exact ⟨taken, rfl⟩

end ApiCompat.Signature
