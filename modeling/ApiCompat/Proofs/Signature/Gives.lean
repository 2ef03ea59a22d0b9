import ApiCompat.Proofs.Signature.Formed
import ApiCompat.Proofs.Signature.Inversion

/-!
# What readers give

`Gives pre reader post` says of a reader that succeeds on lexemes of some text
with the property `pre` that it leaves a back part of them, and that its value
and what it leaves have the property `post`.  `Yields` is for properties of
the value alone.
-/

set_option autoImplicit false

namespace ApiCompat.Signature

open Reader

variable {α β : Type} {pre : List Lexeme → Prop} {post : α → List Lexeme → Prop}

def Gives (pre : List Lexeme → Prop) (reader : Reader α) (post : α → List Lexeme → Prop) : Prop :=
  ∀ context lexemes value rest, Lexed lexemes → pre lexemes →
    reader context lexemes = .ok (value, rest) → rest <:+ lexemes ∧ post value rest

abbrev Anything (_ : List Lexeme) : Prop := True

/-- What the reader returns has the property, whatever it reads. -/
abbrev Yields (reader : Reader α) (holds : α → Prop) : Prop :=
  Gives Anything reader fun value _ => holds value

/-! ## Composition -/

theorem gives_pure {value : α} (holds : ∀ lexemes, pre lexemes → post value lexemes) :
    Gives pre (pure value) post := by
  intro context lexemes found rest _ before read
  obtain ⟨rfl, rfl⟩ := pure_eq_ok read
  exact ⟨List.suffix_rfl, holds lexemes before⟩

theorem gives_failAt {line : Nat} {reason : Reason} :
    Gives pre (failAt line reason : Reader α) post := by
  intro context lexemes value rest _ _ read
  cases read

theorem gives_unexpected {expected : Expected} :
    Gives pre (unexpected expected : Reader α) post := by
  intro context lexemes value rest _ _ read
  cases lexemes <;> cases read

theorem Gives.bind {reader : Reader α} {next : α → Reader β} {middle : α → List Lexeme → Prop}
    {post : β → List Lexeme → Prop} (first : Gives pre reader middle)
    (second : ∀ value, Gives (middle value) (next value) post) :
    Gives pre (reader >>= next) post := by
  intro context lexemes value rest lexed before read
  obtain ⟨found, behind, readFirst, readNext⟩ := bind_eq_ok read
  obtain ⟨suffix, between⟩ := first context lexemes found behind lexed before readFirst
  obtain ⟨suffix', after⟩ :=
    second found context behind value rest (lexed.suffix suffix) between readNext
  exact ⟨suffix'.trans suffix, after⟩

theorem Gives.imp {reader : Reader α} {pre' : List Lexeme → Prop} {post' : α → List Lexeme → Prop}
    (gives : Gives pre reader post) (before : ∀ lexemes, pre' lexemes → pre lexemes)
    (after : ∀ value rest, post value rest → post' value rest) : Gives pre' reader post' := by
  intro context lexemes value rest lexed holds read
  obtain ⟨suffix, done⟩ := gives context lexemes value rest lexed (before lexemes holds) read
  exact ⟨suffix, after value rest done⟩

/-- What is given from any lexemes is given from those with a property. -/
theorem Gives.anywhere {reader : Reader α} (gives : Gives Anything reader post) :
    Gives pre reader post :=
  gives.imp (fun _ _ => trivial) fun _ _ => id

/-- A fact about the values before, put aside. -/
theorem gives_of {reader : Reader α} {fact : Prop} (gives : fact → Gives pre reader post) :
    Gives (fun lexemes => fact ∧ pre lexemes) reader post := by
  intro context lexemes value rest lexed before read
  exact gives before.1 context lexemes value rest lexed before.2 read

theorem Yields.of {reader : Reader α} {fact : Prop} (gives : fact → Gives Anything reader post) :
    Gives (fun _ => fact) reader post := by
  intro context lexemes value rest lexed before read
  exact gives before context lexemes value rest lexed trivial read

theorem Yields.bind {reader : Reader α} {next : α → Reader β} {holds : α → Prop}
    {post : β → List Lexeme → Prop} (first : Yields reader holds)
    (second : ∀ value, holds value → Gives Anything (next value) post) :
    Gives Anything (reader >>= next) post :=
  Gives.bind first fun value => Yields.of (second value)

/-! ## Single lexemes -/

theorem gives_remaining : Gives pre remaining fun found rest => found = rest ∧ pre rest := by
  intro context lexemes value rest _ before read
  obtain ⟨rfl, rfl⟩ := remaining_eq_ok read
  exact ⟨List.suffix_rfl, rfl, before⟩

theorem gives_currentLine : Gives pre currentLine fun _ rest => pre rest := by
  intro context lexemes value rest _ before read
  cases lexemes <;> cases read <;> exact ⟨List.suffix_rfl, before⟩

theorem gives_context : Gives pre context fun _ rest => pre rest := by
  intro context lexemes value rest _ before read
  cases read
  exact ⟨List.suffix_rfl, before⟩

theorem gives_isNext {kind : TokenKind} : Gives pre (isNext kind) fun _ rest => pre rest := by
  intro context lexemes value rest _ before read
  obtain ⟨rfl, _⟩ := isNext_eq_ok read
  exact ⟨List.suffix_rfl, before⟩

theorem gives_takeIf {test : Lexeme → Bool} :
    Gives pre (takeIf? test) fun found rest =>
      (∀ lexeme ∈ found, test lexeme = true ∧ Lexed (lexeme :: rest) ∧ pre (lexeme :: rest)) ∧
        (found = none → pre rest ∧ ∀ next ∈ rest.head?, test next = false) := by
  intro context lexemes value rest lexed before read
  rcases takeIf_eq_ok read with ⟨lexeme, rfl, rfl, passes⟩ | ⟨rfl, rfl, fails⟩
  · refine ⟨List.suffix_cons _ _, ?_, by simp⟩
    intro found same
    obtain rfl := Option.some.inj same
    exact ⟨passes, lexed, before⟩
  · exact ⟨List.suffix_rfl, by simp, fun _ => ⟨before, fails⟩⟩

theorem gives_skip {kind : TokenKind} :
    Gives pre (skip? kind) fun found rest => found = false → pre rest := by
  refine gives_takeIf.bind fun found => gives_pure ?_
  rintro lexemes ⟨_, none⟩ isNone
  exact (none (by simpa using isNone)).1

theorem gives_skipWord {word : String} :
    Gives pre (skipWord? word) fun found rest =>
      found = false → pre rest ∧ ∀ next ∈ rest.head?, next.isWord word = false := by
  refine gives_takeIf.bind fun found => gives_pure ?_
  rintro lexemes ⟨_, none⟩ isNone
  exact none (by simpa using isNone)

theorem gives_expectKind {kind : TokenKind} {expected : Expected} :
    Gives pre (expectKind kind expected) fun lexeme rest =>
      lexeme.kind = kind ∧ Lexed (lexeme :: rest) ∧ pre (lexeme :: rest) := by
  intro context lexemes value rest lexed before read
  obtain ⟨rfl, same⟩ := expectKind_eq_ok read
  exact ⟨List.suffix_cons _ _, same, lexed, before⟩

theorem yields_expect {kind : TokenKind} : Yields (expect kind) fun _ => True :=
  gives_expectKind.imp (fun _ => id) fun _ _ _ => trivial

abbrev AnyIdentifier (word : String) : Prop := isIdentifier word = true

theorem gives_identifier {expected : Expected} :
    Gives pre (identifier expected) fun lexeme rest =>
      AnyIdentifier lexeme.text ∧ lexeme.kind = .identifier ∧ pre (lexeme :: rest) :=
  gives_expectKind.imp (fun _ => id) fun _ _ outcome =>
    ⟨outcome.2.1.isIdentifier outcome.1, outcome.1, outcome.2.2⟩

theorem yields_identifier {expected : Expected} :
    Yields (identifier expected) fun lexeme => AnyIdentifier lexeme.text :=
  gives_identifier.imp (fun _ => id) fun _ _ outcome => outcome.1

/-! ## Lists and names -/

theorem yields_separatedRest {item : Reader α} {holds : α → Prop} (gives : Yields item holds)
    (separator : TokenKind) (rounds : Nat) :
    Yields (separatedRest separator item rounds) fun values => ∀ value ∈ values, holds value := by
  induction rounds with
  | zero => exact gives_pure fun _ _ => List.forall_mem_nil _
  | succ rounds ih =>
      refine Gives.bind gives_skip fun found => ?_
      cases found with
      | false => exact gives_pure fun _ _ => List.forall_mem_nil _
      | true =>
          refine gives.anywhere.bind fun first => Yields.of ?_
          intro holdsFirst
          refine ih.bind fun later holdsLater => gives_pure fun _ _ value member => ?_
          rcases List.mem_cons.mp member with rfl | member
          · exact holdsFirst
          · exact holdsLater value member

theorem yields_separated {item : Reader α} {holds : α → Prop} (gives : Yields item holds)
    (separator : TokenKind) :
    Yields (separated separator item) fun values =>
      values ≠ [] ∧ ∀ value ∈ values, holds value := by
  refine gives.bind fun first holdsFirst => ?_
  refine Gives.bind gives_remaining fun lexemes => ?_
  refine (yields_separatedRest gives separator lexemes.length).anywhere.bind
    fun later => Yields.of fun holdsLater => ?_
  refine gives_pure fun _ _ => ⟨List.cons_ne_nil first later, fun value member => ?_⟩
  rcases List.mem_cons.mp member with rfl | member
  · exact holdsFirst
  · exact holdsLater value member

theorem splitDotted_spec (lexemes : List Lexeme) :
    (∀ word ∈ (splitDotted lexemes).1, word ∈ lexemes ∧ word.kind = .identifier) ∧
      (splitDotted lexemes).2 <:+ lexemes := by
  fun_induction splitDotted lexemes with
  | case1 dot word rest both later ih =>
      refine ⟨fun next member => ?_,
        ih.2.trans ((List.suffix_cons _ _).trans (List.suffix_cons _ _))⟩
      rcases List.mem_cons.mp member with rfl | member
      · exact ⟨by simp, both.2⟩
      · obtain ⟨stored, kind⟩ := ih.1 next member
        exact ⟨by simp [stored], kind⟩
  | case2 => exact ⟨List.forall_mem_nil _, List.suffix_rfl⟩
  | case3 => exact ⟨List.forall_mem_nil _, List.suffix_rfl⟩

/-- A dotted name consists of identifiers, and its first part is the next lexeme. -/
theorem gives_qualifiedName {expected : Expected} :
    Gives pre (qualifiedName expected) fun name _ => DottedName AnyIdentifier name ∧
      ∃ first later, pre (first :: later) ∧ first.kind = .identifier ∧
        first.text = firstPart name := by
  refine gives_expectKind.bind fun first => ?_
  intro context lexemes name rest lexed before read
  obtain ⟨kind, whole, held⟩ := before
  obtain ⟨found, behind, readRemaining, readName⟩ := bind_eq_ok read
  obtain ⟨rfl, rfl⟩ := remaining_eq_ok readRemaining
  obtain ⟨⟨⟩, left, continued, result⟩ := bind_eq_ok readName
  cases continued
  obtain ⟨rfl, rfl⟩ := pure_eq_ok result
  obtain ⟨words, suffix⟩ := splitDotted_spec lexemes
  have valid : ∀ part ∈ first.text :: (splitDotted lexemes).1.map Lexeme.text,
      isIdentifier part = true := by
    intro part member
    rcases List.mem_cons.mp member with rfl | member
    · exact whole.isIdentifier kind
    · obtain ⟨word, stored, rfl⟩ := List.mem_map.mp member
      obtain ⟨inside, isWord⟩ := words word stored
      exact lexed.isIdentifier_of_mem word inside isWord
  have parts := nameParts_joinWith (List.cons_ne_nil first.text _)
    fun part member => isIdentifier_noDot (valid part member)
  refine ⟨suffix, ?_, first, lexemes, held, kind, ?_⟩
  · intro part member
    rw [parts] at member
    exact valid part member
  · simp [firstPart, parts]

theorem yields_qualifiedName {expected : Expected} :
    Yields (qualifiedName expected) (DottedName AnyIdentifier) :=
  gives_qualifiedName.imp (fun _ => id) fun _ _ outcome => outcome.1

end ApiCompat.Signature
