import ApiCompat.Proofs.Signature.Inversion
import ApiCompat.Proofs.Signature.MemberTakes

/-!
# Remnants of types

What a reader makes of a written type whose first word is gone.  Most remnants
are no type; of `native?` the wildcard remains, and the arguments of a return
type may pass for type parameters.
-/

set_option autoImplicit false

namespace ApiCompat.Signature

open Reader

variable {mode : NullMode} {back : List Word} {allowed : String → Prop}

/-! ## What is no type -/

/-- Whether a type may begin with a lexeme of the kind. -/
def beginsTypeKind : TokenKind → Bool
  | .atSign | .question | .identifier => true
  | _ => false

def NoType (back : List Word) : Prop := ∀ word ∈ back.head?, beginsTypeKind word.kind = false

@[simp] theorem noType_cons (word : Word) (words : List Word) :
    NoType (word :: words) ↔ beginsTypeKind word.kind = false := by
  simp [NoType]

theorem NoType.notNext (stop : NoType back) {kind : TokenKind}
    (begins : beginsTypeKind kind = true) : NotNext kind back := by
  rintro word next rfl
  rw [stop word next] at begins
  cases begins

theorem fails_typeWithin {depth : Nat} {declared : Option Nullness} (stop : NoType back) :
    Fails mode (typeWithin depth declared) back := by
  cases depth with
  | zero => exact fails_unexpected
  | succ depth =>
      rw [typeWithin_succ]
      refine Takes.peek takes_currentLine fun line _ => ?_
      refine Takes.peek takes_remaining fun lexemes _ => ?_
      refine Takes.peek (takes_typeAnnotations_none (stop.notNext rfl) lexemes.length)
        fun found _ => ?_
      refine Takes.peek (takes_skip_not (stop.notNext rfl)) fun found none => ?_
      subst none
      exact (fails_expectKind (stop.notNext rfl)).bind.bind

theorem fails_typeRef {declared : Option Nullness} (stop : NoType back) :
    Fails mode (typeRef declared) back :=
  Takes.peek takes_remaining fun _ _ => fails_typeWithin stop

/-- The sign of a wildcard before a name: the name may be taken for a bound, but
then there is no type for it. -/
theorem takes_openWildcard {declared : Option Nullness} {name : String} {later : List Word}
    (stop : NoType later) :
    Takes mode False (typeRef declared) [.question] (.ident name :: later)
      fun found => found.name = "?" := by
  refine Takes.peek takes_remaining fun lexemes spells => ?_
  cases lexemes.length with
  | zero => exact Fails.takes fails_unexpected id
  | succ depth =>
      rw [typeWithin_succ]
      refine Takes.peek takes_currentLine fun line _ => ?_
      refine Takes.peek takes_remaining fun lexemes _ => ?_
      refine Takes.peek (takes_typeAnnotations_none ?_ lexemes.length) fun found _ => ?_
      · simp [Word.question, Word.punctuation]
      refine (takes_skip rfl).bind_word fun found wildcard => ?_
      subst wildcard
      have bound : Takes mode False (wildcardBound (typeWithin depth none)) []
          (.ident name :: later) fun _ => True := by
        by_cases upper : name = "extends"
        · subst upper
          refine Fails.takes (Fails.after_word (takes_skipWord "extends") fun found taken => ?_) id
          subst taken
          exact (fails_typeWithin stop).bind
        · refine Takes.peek (takes_skipWord_not ?_) fun found none => ?_
          · simp [Word.ident, upper]
          subst none
          by_cases lower : name = "super"
          · subst lower
            refine Fails.takes (Fails.after_word (takes_skipWord "super") fun found taken => ?_) id
            subst taken
            exact (fails_typeWithin stop).bind
          · refine Takes.peek (takes_skipWord_not ?_) fun found none => ?_
            · simp [Word.ident, lower]
            subst none
            exact takes_pure trivial
      exact bound.last fun found _ => takes_pure rfl

/-! ## What is left of a type without its name -/

def suffixWords (mode : NullMode) (type : TypeRef) : List Word :=
  dimWords type.arrayDims ++ (varargsWords type.varargs ++ afterWords mode type.nullness)

theorem ownTypeWords_named (mode : NullMode) {type : TypeRef} (formed : type.Formed allowed)
    (named : type.name ≠ "?") :
    ownTypeWords mode type =
      nameWords type.name ++ (argWords mode type.args ++ suffixWords mode type) := by
  obtain ⟨name, args, bound, dims, varargs, nullness⟩ := type
  rcases formed with ⟨wildcard, _⟩ | ⟨_, rfl, _⟩
  · exact absurd wildcard named
  · have plain : name ≠ "?" := named
    simp [ownTypeWords, closedWords, TypeRef.isWildcard, plain, bareWords, headWords, boundWords,
      suffixWords]

/-- The marks that are left are no type, or a nullable mark that reads as a wildcard, or nothing. -/
theorem suffixWords_cases (mode : NullMode) (type : TypeRef) :
    suffixWords mode type = [] ∧ afterWords mode type.nullness = [] ∨
      suffixWords mode type = [.question] ∨
      ∃ word later, suffixWords mode type = word :: later ∧ beginsTypeKind word.kind = false ∧
        endsTypeKind word.kind = false := by
  obtain ⟨name, args, bound, dims, varargs, nullness⟩ := type
  cases dims with
  | succ dims => exact .inr (.inr ⟨_, _, rfl, rfl, rfl⟩)
  | zero =>
      cases varargs with
      | true => exact .inr (.inr ⟨_, _, rfl, rfl, rfl⟩)
      | false =>
          cases mode with
          | legacy => exact .inl ⟨rfl, rfl⟩
          | nullAware =>
              cases nullness with
              | unspecified => exact .inr (.inr ⟨_, _, rfl, rfl, rfl⟩)
              | nullable => exact .inr (.inl rfl)
              | nonNull => exact .inl ⟨rfl, rfl⟩

/-- Where only the marks of a type are left, its place is taken by a wildcard, or
by the name behind it, which is then missing. -/
theorem takes_leftType {α : Type} (idents : Identifiers allowed) (type : TypeRef) {name : String}
    (formed : allowed name) {expected : Expected} {next : TypeRef → Lexeme → Reader α}
    {later : List Word} {post : α → Prop} (stop : NoType (later ++ back))
    (ends : EndsType (later ++ back))
    (rest : ∀ found lexeme, found.name = "?" → lexeme.text = name →
      Takes mode False (next found lexeme) later back post) :
    Takes mode False
      (do
        let found ← typeRef (declaredBefore mode type.nullness)
        let lexeme ← identifier expected
        next found lexeme)
      (suffixWords mode type ++ .ident name :: later) back post := by
  rcases suffixWords_cases mode type with
    ⟨nothing, noMark⟩ | question | ⟨word, more, shape, noType, _⟩
  · rw [nothing]
    have plain : TypeRef.Formed allowed { name, nullness := type.nullness } := by
      refine .inr ⟨?_, rfl, trivial⟩
      intro part member
      rw [nameParts_ident (idents name formed), List.mem_singleton] at member
      exact member ▸ formed
    have words : ownTypeWords mode { name, nullness := type.nullness } = [.ident name] := by
      have notWildcard : name ≠ "?" := by
        rintro rfl
        exact absurd (idents "?" formed) (by decide)
      rw [ownTypeWords_named mode plain notWildcard, nameWords_ident (idents name formed)]
      simp [argWords, suffixWords, dimWords, varargsWords, noMark]
    have asType : Takes mode False (typeRef (declaredBefore mode type.nullness)) [.ident name]
        (later ++ back) fun _ => True := by
      have closed : TypeRef.endsOpen { name, nullness := type.nullness } = true →
          EndsWildcard (later ++ back) := by
        intro _
        have notName : NotNext .identifier (later ++ back) := stop.notNext rfl
        exact ⟨fun word next isWord => notName word next isWord.1,
          fun word next isWord => notName word next isWord.1⟩
      have takes := @takes_ownType mode False _ allowed _ plain idents ends closed
      rw [words] at takes
      exact takes.mono fun _ _ => trivial
    refine Fails.takes (Fails.after_word asType fun found _ => ?_) id
    exact (fails_expectKind (stop.notNext rfl)).bind
  · rw [question]
    refine (takes_openWildcard stop).bind_word fun found wildcard => ?_
    refine (takes_identifier expected name).bind_word fun lexeme text => ?_
    exact rest found lexeme wildcard text
  · rw [shape]
    exact Fails.takes (fails_typeRef ((noType_cons _ _).mpr noType)).bind id

/-! ## Type arguments read as type parameters -/

/-- What follows the first word of a named type continues it. -/
theorem ownTypeWords_tail (mode : NullMode) {type : TypeRef} (formed : type.Formed allowed)
    (named : type.name ≠ "?") :
    ∃ tail, ownTypeWords mode type = .ident (firstPart type.name) :: tail ∧
      (tail = [] ∨ tail = [.question] ∨
        ∃ word later, tail = word :: later ∧ beginsTypeKind word.kind = false ∧
          endsTypeKind word.kind = false) := by
  obtain ⟨parts, shape⟩ := nameParts_shape type.name
  rw [ownTypeWords_named mode formed named, nameWords, shape]
  refine ⟨_, rfl, ?_⟩
  cases parts with
  | cons part parts => exact .inr (.inr ⟨_, _, rfl, rfl, rfl⟩)
  | nil =>
      cases type.args with
      | cons first others => exact .inr (.inr ⟨_, _, rfl, rfl, rfl⟩)
      | nil =>
          rcases suffixWords_cases mode type with ⟨nothing, _⟩ | question | marks
          · exact .inl nothing
          · exact .inr (.inl question)
          · exact .inr (.inr marks)

/-- A type whose first word is an identifier begins with its name, and what follows continues it. -/
theorem typeWords_of_identifier (idents : Identifiers allowed) {type : TypeRef}
    (formed : type.Formed allowed)
    (begins : ∀ word ∈ (typeWords mode type).head?, word.kind = .identifier) :
    ∃ tail, typeWords mode type = .ident (firstPart type.name) :: tail ∧
      ∀ word ∈ tail.head?, endsTypeKind word.kind = false := by
  have named : type.name ≠ "?" := by
    intro wildcard
    have isWildcard : type.isWildcard = true := by simp [TypeRef.isWildcard, wildcard]
    obtain ⟨name, args, bound, dims, varargs, nullness⟩ := type
    obtain rfl : name = "?" := wildcard
    have kind := begins .question
      (by simp [typeWords, markedWords, isWildcard, bareWords, headWords])
    cases kind
  have unmarked : beforeWords mode type.nullness = [] := by
    rcases beforeWords_cases mode type.nullness with ⟨nothing, _⟩ | ⟨later, marked⟩
    · exact nothing
    · have kind := begins .atSign (by rw [typeWords_eq mode formed idents, marked]; rfl)
      cases kind
  obtain ⟨tail, words, remnant⟩ := ownTypeWords_tail mode formed named
  refine ⟨tail, ?_, ?_⟩
  · rw [typeWords_eq mode formed idents, unmarked, List.nil_append, words]
  · rcases remnant with rfl | rfl | ⟨word, later, rfl, _, continues⟩
    · simp
    · exact fun word next => Option.some.inj next ▸ rfl
    · exact fun word next => Option.some.inj next ▸ continues

/-- A type read as a type parameter is taken up to its end, or up to a lexeme
that ends no type parameter. -/
theorem typeParam_outcome (idents : Identifiers allowed) {type : TypeRef}
    (formed : type.Formed allowed) {context : Context} {taken rest left : List Lexeme}
    {param : TypeParam} (spells : Spells (typeWords mode type) taken)
    (noWord : ∀ next ∈ rest.head?, next.kind ≠ .identifier)
    (read : typeParam context (taken ++ rest) = .ok (param, left)) :
    left = rest ∨ ∃ next ∈ left.head?, next.kind ≠ .comma ∧ next.kind ≠ .greater := by
  obtain ⟨name, behind, readName, read⟩ := bind_eq_ok read
  obtain ⟨shape, isName⟩ := expectKind_eq_ok readName
  have begins := spells.head_kind shape
  rw [isName] at begins
  obtain ⟨tail, words, continues⟩ := typeWords_of_identifier idents formed begins
  rw [words] at spells
  cases spells with
  | @cons _ first _ later _ spells =>
      obtain rfl := (List.cons.inj shape).2
      obtain ⟨found, behind, readBound, read⟩ := bind_eq_ok read
      rcases skipWord_eq_ok readBound with ⟨_, bound, opened, isBound⟩ | ⟨rfl, rfl, _⟩
      · have kind : bound.kind = .identifier := by
          simp only [Lexeme.isWord, Bool.and_eq_true, beq_iff_eq] at isBound
          exact isBound.1
        cases spells with
        | nil =>
            obtain rfl : rest = bound :: behind := opened
            exact absurd kind (noWord bound rfl)
        | cons matched _ =>
            have continued := continues _ rfl
            obtain rfl := (List.cons.inj opened).1
            rw [← matched.1, kind] at continued
            cases continued
      · obtain ⟨_, rfl⟩ := pure_eq_ok read
        cases spells with
        | nil => exact .inl rfl
        | @cons word next _ _ matched _ =>
            have continued := continues _ rfl
            rw [← matched.1] at continued
            refine .inr ⟨next, rfl, ?_⟩
            constructor <;> intro kind <;> rw [kind] at continued <;> cases continued

theorem head?_kind_ne {kind : TokenKind} {lexemes : List Lexeme} {next : Lexeme}
    (member : next ∈ lexemes.head?) (other : next.kind ≠ kind) :
    ∀ first ∈ lexemes.head?, first.kind ≠ kind := by
  intro first isFirst
  obtain rfl := Option.some.inj (isFirst.symm.trans member)
  exact other

/-- What the list of type parameters takes of a list of types ends as that list
does, or not at all. -/
theorem separatedRest_outcome (idents : Identifiers allowed) {args : List TypeRef}
    (formed : ∀ type ∈ args, type.Formed allowed) {context : Context} {rounds : Nat}
    {taken rest left : List Lexeme} {found : List TypeParam}
    (spells : Spells (args.flatMap fun type => .comma :: typeWords mode type) taken)
    (behind : Spells (.greater :: back) rest)
    (read : separatedRest .comma typeParam rounds context (taken ++ rest) = .ok (found, left)) :
    left = rest ∨ ∃ next ∈ left.head?, next.kind ≠ .greater := by
  induction args generalizing rounds taken found left with
  | nil =>
      cases spells
      have stop : ∀ next ∈ rest.head?, next.kind ≠ .comma :=
        head_kind_ne behind (notNext_of_ne TokenKind.noConfusion)
      exact .inl (separatedRest_none stop read).2.symm
  | cons type args ih =>
      rw [List.flatMap_cons] at spells
      cases spells with
      | @cons _ comma _ later matched spells =>
          have isComma : comma.kind = .comma := matched.1
          obtain ⟨own, more, rfl, spellsOwn, spellsMore⟩ := Spells.split spells
          cases rounds with
          | zero =>
              obtain ⟨_, rfl⟩ := pure_eq_ok read
              exact .inr ⟨comma, rfl, by rw [isComma]; decide⟩
          | succ rounds =>
              obtain ⟨skipped, later, readComma, read⟩ := bind_eq_ok read
              rcases skip_eq_ok readComma with ⟨rfl, first, shape, _⟩ | ⟨rfl, rfl, other⟩
              · obtain ⟨param, later', readParam, read⟩ := bind_eq_ok read
                obtain ⟨params, after, readRest, read⟩ := bind_eq_ok read
                obtain ⟨_, rfl⟩ := pure_eq_ok read
                have tail : own ++ (more ++ rest) = later := by
                  simpa using (List.cons.inj shape).2
                subst tail
                have noWord : ∀ next ∈ (more ++ rest).head?, next.kind ≠ .identifier := by
                  apply head_kind_ne (Spells.append spellsMore behind)
                  cases args <;> simp [Word.greater, Word.comma, Word.punctuation]
                rcases typeParam_outcome idents (formed type List.mem_cons_self) spellsOwn noWord
                  readParam with rfl | ⟨next, member, notComma, notGreater⟩
                · exact ih (fun inner later => formed inner (List.mem_cons_of_mem _ later))
                    spellsMore readRest
                · obtain ⟨_, rfl⟩ := separatedRest_none (head?_kind_ne member notComma) readRest
                  exact .inr ⟨next, member, notGreater⟩
              · exact absurd isComma (other comma rfl)

/-- Type arguments are taken whole by the reader of type parameters, if at all. -/
theorem takes_argsAsParams (idents : Identifiers allowed) {args : List TypeRef} (filled : args ≠ [])
    (formed : ∀ type ∈ args, type.Formed allowed) :
    Takes mode False typeParams (argWords mode args) back fun _ => True := by
  cases args with
  | nil => exact absurd rfl filled
  | cons type args =>
      have words : argWords mode (type :: args) = .less :: (typeWords mode type ++
          ((args.flatMap fun type => .comma :: typeWords mode type) ++ [.greater])) := by
        simp [argWords_eq, joinWords, List.flatMap_map]
      rw [words]
      refine (takes_skip rfl).bind_word fun found opened => ?_
      subst opened
      refine takes_of_ok fun context taken rest params left spells behind read => ?_
      obtain ⟨own, taken, rfl, spellsOwn, spells⟩ := Spells.split spells
      obtain ⟨more, last, rfl, spellsMore, spellsLast⟩ := Spells.split spells
      obtain ⟨found, later, readAll, ending⟩ := bind_eq_ok read
      obtain ⟨param, middle, readParam, readLater⟩ := bind_eq_ok readAll
      obtain ⟨lexemes, middle', readRemaining, readOthers⟩ := bind_eq_ok readLater
      obtain ⟨rfl, rfl⟩ := remaining_eq_ok readRemaining
      obtain ⟨others, later', readRest, result⟩ := bind_eq_ok readOthers
      obtain ⟨rfl, rfl⟩ := pure_eq_ok result
      obtain ⟨closing, left', readClosing, ended⟩ := bind_eq_ok ending
      obtain ⟨shape, isGreater⟩ := expectKind_eq_ok readClosing
      obtain ⟨_, rfl⟩ := pure_eq_ok ended
      simp only [List.append_assoc] at readParam
      have closingWords : Spells (.greater :: back) (last ++ rest) :=
        Spells.append spellsLast behind
      have noWord : ∀ next ∈ (more ++ (last ++ rest)).head?, next.kind ≠ .identifier := by
        apply head_kind_ne (Spells.append spellsMore closingWords)
        cases args <;> simp [Word.greater, Word.comma, Word.punctuation]
      have closed : ¬∃ next ∈ later'.head?, next.kind ≠ .greater := by
        rw [shape]
        rintro ⟨next, member, other⟩
        obtain rfl := Option.some.inj member
        exact other isGreater
      rcases typeParam_outcome idents (formed type List.mem_cons_self) spellsOwn noWord readParam
        with rfl | ⟨next, member, notComma, notGreater⟩
      · rcases separatedRest_outcome idents
          (fun inner later => formed inner (List.mem_cons_of_mem _ later)) spellsMore closingWords
          readRest with rfl | short
        · refine ⟨?_, trivial⟩
          cases spellsLast with
          | cons _ nothing =>
              cases nothing
              exact (List.cons.inj shape).2.symm
        · exact absurd short closed
      · obtain ⟨_, rfl⟩ := separatedRest_none (head?_kind_ne member notComma) readRest
        exact absurd ⟨next, member, notGreater⟩ closed

end ApiCompat.Signature
