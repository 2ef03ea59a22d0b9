import ApiCompat.Proofs.Signature.Inversion
import ApiCompat.Signature.Members

/-!
# Captured source texts

Annotations and values are kept as written.  A text is captured whole if its
reader, run on the lexemes of just that text, returns it again; it is then
returned wherever the text stands, up to what follows it.
-/

set_option autoImplicit false

namespace ApiCompat.Signature

open Reader

variable {α : Type} {mode : NullMode} {good : Prop} {back : List Word}

theorem takes_withSource {reader : Reader α} {front : List Word} {post : α → Prop}
    (takes : Takes mode good reader front back post) :
    Takes mode good (withSource reader) front back fun found =>
      post found.1 ∧ ∃ taken, Spells front taken ∧ found.2 = Lexeme.sourceText taken := by
  intro context taken rest inMode spells behind
  rcases takes context taken rest inMode spells behind with
    ⟨value, read, holds⟩ | ⟨bad, fault, failed⟩
  · refine .inl ⟨(value, Lexeme.sourceText taken), ?_, holds, taken, spells, rfl⟩
    have cut : (taken ++ rest).take ((taken ++ rest).length - rest.length) = taken := by
      simp
    rw [withSource, bind_ok (remaining_apply context (taken ++ rest)), bind_ok read,
      bind_ok (remaining_apply context rest), cut]
    rfl
  · refine .inr ⟨bad, fault, ?_⟩
    rw [withSource, bind_ok (remaining_apply context (taken ++ rest)), bind_error failed]

/-! ## Annotations -/

theorem splitDotted_nothing {rest : List Lexeme} (stop : ∀ next ∈ rest.head?, next.kind ≠ .dot) :
    splitDotted rest = ([], rest) := by
  have cut : ∃ words, splitDotted ([] ++ rest) = (words, rest) ∧ words.map Lexeme.text = [] :=
    splitDotted_spells .nil stop
  obtain ⟨words, found, texts⟩ := cut
  obtain rfl := List.map_eq_nil_iff.mp texts
  exact found

theorem splitDotted_follow (lexemes words rest : List Lexeme)
    (cut : splitDotted lexemes = (words, rest)) :
    ∃ taken, lexemes = taken ++ rest ∧ ∀ taken' rest', Spells (taken.map Lexeme.word) taken' →
      (∀ next ∈ rest'.head?, next.kind ≠ .dot) →
      ∃ words', splitDotted (taken' ++ rest') = (words', rest') ∧
        words'.map Lexeme.text = words.map Lexeme.text := by
  fun_induction splitDotted lexemes generalizing words rest with
  | case1 dot word behind kinds later ih =>
      simp only [Prod.mk.injEq] at cut
      obtain ⟨rfl, rfl⟩ := cut
      obtain ⟨taken, whole, again⟩ := ih later.1 later.2 rfl
      refine ⟨dot :: word :: taken, by rw [whole]; rfl, ?_⟩
      intro taken' rest' spells stop
      cases spells with
      | @cons _ dot' _ _ isDot spells =>
          cases spells with
          | @cons _ word' _ _ isWord spells =>
              obtain ⟨words', found, texts⟩ := again _ rest' spells stop
              have dotKind : dot'.kind = .dot := isDot.1.trans kinds.1
              have wordKind : word'.kind = .identifier := isWord.1.trans kinds.2
              have wordText : word'.text = word.text := isWord.2.1
              refine ⟨word' :: words', ?_, ?_⟩
              · simp [splitDotted, dotKind, wordKind, found]
              · simp only [List.map_cons, wordText, texts]
  | case2 =>
      obtain ⟨rfl, rfl⟩ := Prod.mk.inj cut
      refine ⟨[], rfl, ?_⟩
      intro taken' rest' spells stop
      cases spells
      exact ⟨[], splitDotted_nothing stop, rfl⟩
  | case3 =>
      obtain ⟨rfl, rfl⟩ := Prod.mk.inj cut
      refine ⟨[], rfl, ?_⟩
      intro taken' rest' spells stop
      cases spells
      exact ⟨[], splitDotted_nothing stop, rfl⟩

/-- How many parentheses are open after a lexeme of the given kind. -/
def depthAfter (depth : Nat) : TokenKind → Nat
  | .leftParen => depth + 1
  | .rightParen => depth - 1
  | _ => depth

theorem splitArguments_cons (depth : Nat) (next : Lexeme) (rest : List Lexeme) :
    splitArguments depth (next :: rest) =
      if depthAfter depth next.kind = 0 then some ([next], rest)
      else (splitArguments (depthAfter depth next.kind) rest).map fun cut =>
        (next :: cut.1, cut.2) := rfl

theorem splitArguments_follow {depth : Nat} {lexemes args rest : List Lexeme}
    (cut : splitArguments depth lexemes = some (args, rest)) :
    lexemes = args ++ rest ∧ ∀ args' rest', Spells (args.map Lexeme.word) args' →
      splitArguments depth (args' ++ rest') = some (args', rest') := by
  induction lexemes generalizing depth args with
  | nil => simp [splitArguments] at cut
  | cons next lexemes ih =>
      rw [splitArguments_cons] at cut
      split at cut
      · next closed =>
          simp only [Option.some.injEq, Prod.mk.injEq] at cut
          obtain ⟨rfl, rfl⟩ := cut
          refine ⟨rfl, ?_⟩
          intro args' rest' spells
          cases spells with
          | @cons _ next' _ _ same spells =>
              cases spells
              have sameKind : next'.kind = next.kind := same.1
              rw [List.cons_append, splitArguments_cons, sameKind, if_pos closed]
              rfl
      · next opened =>
          simp only [Option.map_eq_some_iff, Prod.mk.injEq] at cut
          obtain ⟨⟨more, behind⟩, found, rfl, rfl⟩ := cut
          obtain ⟨whole, again⟩ := ih found
          refine ⟨by rw [whole]; rfl, ?_⟩
          intro args' rest' spells
          cases spells with
          | @cons _ next' _ _ same spells =>
              have sameKind : next'.kind = next.kind := same.1
              rw [List.cons_append, splitArguments_cons, sameKind, if_neg opened,
                again _ rest' spells]
              rfl

theorem splitArguments_ne_nil {depth : Nat} {lexemes args rest : List Lexeme}
    (cut : splitArguments depth lexemes = some (args, rest)) : args ≠ [] := by
  cases lexemes with
  | nil => simp [splitArguments] at cut
  | cons next lexemes =>
      rw [splitArguments_cons] at cut
      rintro rfl
      split at cut
      · simp at cut
      · simp at cut

theorem isNext_apply (kind : TokenKind) (context : Context) (lexemes : List Lexeme) :
    isNext kind context lexemes =
      .ok (lexemes.head?.any fun next => next.kind == kind, lexemes) := rfl

theorem currentLine_apply (context : Context) (next : Lexeme) (lexemes : List Lexeme) :
    currentLine context (next :: lexemes) = .ok (next.line, next :: lexemes) := rfl

theorem annotationArguments_open {context : Context} {next : Lexeme}
    {lexemes args rest : List Lexeme} (kind : next.kind = .leftParen)
    (cut : splitArguments 0 (next :: lexemes) = some (args, rest)) :
    annotationArguments context (next :: lexemes) = .ok ((), rest) := by
  rw [annotationArguments, bind_ok (isNext_apply .leftParen context (next :: lexemes))]
  simp only [List.head?_cons, Option.any_some, kind, beq_self_eq_true, if_true]
  rw [bind_ok (currentLine_apply context next lexemes),
    bind_ok (remaining_apply context (next :: lexemes)), cut]
  rfl

theorem annotationArguments_eq_ok {context : Context} {lexemes rest : List Lexeme}
    (read : annotationArguments context lexemes = .ok ((), rest)) :
    (lexemes = rest ∧ ∀ next ∈ rest.head?, next.kind ≠ .leftParen) ∨
      ∃ next more, splitArguments 0 lexemes = some (next :: more, rest) ∧
        next.kind = .leftParen := by
  obtain ⟨found, behind, asked, answered⟩ := bind_eq_ok read
  obtain ⟨rfl, opened⟩ := isNext_eq_ok asked
  cases found with
  | false =>
      obtain ⟨_, rfl⟩ := pure_eq_ok answered
      refine .inl ⟨rfl, ?_⟩
      intro next member
      rw [Option.mem_def.mp member] at opened
      simpa using opened.symm
  | true =>
      cases lexemes with
      | nil => simp at opened
      | cons next later =>
          have kind : next.kind = .leftParen := by simpa using opened.symm
          cases cut : splitArguments 0 (next :: later) with
          | none =>
              simp only [if_true] at answered
              rw [bind_ok (currentLine_apply context next later),
                bind_ok (remaining_apply context (next :: later)), cut] at answered
              cases answered
          | some pair =>
              obtain ⟨args, rest'⟩ := pair
              rw [annotationArguments_open kind cut] at read
              obtain rfl : rest' = rest := (Prod.mk.inj (Except.ok.inj read)).2
              cases args with
              | nil => exact absurd rfl (splitArguments_ne_nil cut)
              | cons next' more =>
                  obtain ⟨rfl, _⟩ := List.cons.inj (splitArguments_follow cut).1
                  exact .inr ⟨next, more, rfl, kind⟩

theorem takes_annotationArguments_none (stop : NotNext .leftParen back) :
    Takes mode good annotationArguments [] back fun _ => True := by
  refine (takes_isNext_not stop).last fun found none => ?_
  subst none
  exact takes_pure trivial

theorem annotationArguments_follow {context : Context} {lexemes rest : List Lexeme}
    (read : annotationArguments context lexemes = .ok ((), rest)) :
    ∃ taken, lexemes = taken ++ rest ∧ (∀ next ∈ taken.head?, next.kind = .leftParen) ∧
      ∀ mode good back, NotNext .leftParen back →
        Takes mode good annotationArguments (taken.map Lexeme.word) back fun _ => True := by
  rcases annotationArguments_eq_ok read with ⟨rfl, _⟩ | ⟨next, more, cut, kind⟩
  · refine ⟨[], rfl, ?_, ?_⟩
    · intro next member
      cases member
    · intro mode good back stop
      exact takes_annotationArguments_none stop
  · obtain ⟨whole, again⟩ := splitArguments_follow cut
    refine ⟨next :: more, whole, ?_, ?_⟩
    · intro next' member
      obtain rfl := Option.some.inj member
      exact kind
    · intro mode good back _ context' taken' rest' _ spells _
      have cut' := again taken' rest' spells
      cases spells with
      | @cons _ next' _ _ same spells =>
          have kind' : next'.kind = .leftParen := same.1.trans kind
          exact .inl ⟨(), annotationArguments_open kind' cut', trivial⟩

theorem qualifiedName_follow {expected : Expected} {context : Context} {lexemes rest : List Lexeme}
    {name : String} (read : qualifiedName expected context lexemes = .ok (name, rest)) :
    ∃ first dotted, lexemes = first :: dotted ++ rest ∧ first.kind = .identifier ∧
      ∀ mode good back, NotNext .dot back →
        Takes mode good (qualifiedName expected) ((first :: dotted).map Lexeme.word) back
          (· = name) := by
  obtain ⟨first, later, asked, answered⟩ := bind_eq_ok read
  obtain ⟨rfl, kind⟩ := expectKind_eq_ok asked
  rw [bind_ok (remaining_apply context later), bind_ok (continueWith_apply context later _)]
    at answered
  obtain ⟨rfl, rfl⟩ := pure_eq_ok answered
  obtain ⟨dotted, whole, again⟩ := splitDotted_follow later _ _ (Prod.eta (splitDotted later)).symm
  refine ⟨first, dotted, congrArg (List.cons first) whole, kind, ?_⟩
  intro mode good back stop
  refine (takes_expectKind kind).bind_word fun first' same => ?_
  intro context' taken' rest' _ spells behind
  have stopped := head_kind_ne behind stop
  obtain ⟨words', cut, texts⟩ := again taken' rest' spells stopped
  refine .inl ⟨_, ?_, rfl⟩
  rw [bind_ok (remaining_apply context' _), cut, bind_ok (continueWith_apply context' _ rest'),
    same.2.1, texts]
  rfl

/-- An annotation is read again wherever it stands, if neither a dot nor arguments follow. -/
theorem annotationUse_follow {context : Context} {lexemes rest : List Lexeme} {name source : String}
    (read : annotationUse context lexemes = .ok ((name, source), rest)) :
    ∃ sign first more, lexemes = sign :: first :: more ++ rest ∧ sign.kind = .atSign ∧
      source = Lexeme.sourceText (sign :: first :: more) ∧
      ∀ mode good back, NotNext .dot back → NotNext .leftParen back →
        Takes mode good annotationUse (loosen ((sign :: first :: more).map Lexeme.word)) back
          (· = (name, source)) := by
  obtain ⟨body, sourceText⟩ := withSource_eq_ok read
  obtain ⟨sign, afterSign, signed, behindSign⟩ := bind_eq_ok body
  obtain ⟨rfl, signKind⟩ := expectKind_eq_ok signed
  obtain ⟨name', afterName, named, behindName⟩ := bind_eq_ok behindSign
  obtain ⟨_, afterArguments, argued, behindArguments⟩ := bind_eq_ok behindName
  obtain ⟨rfl, rfl⟩ := pure_eq_ok behindArguments
  obtain ⟨first, dotted, rfl, _, takesName⟩ := qualifiedName_follow named
  obtain ⟨args, rfl, opening, takesArguments⟩ := annotationArguments_follow argued
  have taken : (sign :: (first :: dotted ++ (args ++ afterArguments))).take
      ((sign :: (first :: dotted ++ (args ++ afterArguments))).length - afterArguments.length) =
      sign :: first :: (dotted ++ args) := by
    have whole : sign :: (first :: dotted ++ (args ++ afterArguments)) =
        (sign :: first :: (dotted ++ args)) ++ afterArguments := by simp
    rw [whole, List.length_append, Nat.add_sub_cancel, List.take_left]
  rw [taken] at sourceText
  subst sourceText
  refine ⟨sign, first, dotted ++ args, by simp, signKind, rfl, ?_⟩
  intro mode good back notDot notParen
  have behindName : NotNext .dot (args.map Lexeme.word ++ back) := by
    cases args with
    | nil => exact notDot
    | cons next more =>
        have kind := opening next rfl
        simp [Lexeme.word, kind]
  have body : Takes mode good
      (do
        let _ ← expect .atSign
        let name ← qualifiedName .annotationName
        annotationArguments
        return name)
      (loosen ((sign :: first :: (dotted ++ args)).map Lexeme.word)) back (· = name') := by
    refine (takes_expect signKind).bind_word fun _ _ => ?_
    have words : (first :: (dotted ++ args)).map Lexeme.word =
        (first :: dotted).map Lexeme.word ++ args.map Lexeme.word := by simp
    rw [words]
    refine (takesName mode good _ behindName).bind fun found same => ?_
    subst same
    refine (takesArguments mode good back notParen).last fun _ _ => ?_
    exact takes_pure rfl
  apply (takes_withSource body).mono
  rintro ⟨found, text⟩ ⟨same, taken, spells, rfl⟩
  rw [sourceText_of_spells spells]
  exact Prod.ext same rfl

/-- The text of an annotation that is kept among the modifiers. -/
def CapturedAnnotation (text : String) : Prop :=
  ∃ lexemes name, tokenize text = .ok lexemes ∧
    (∀ context, annotationUse context lexemes = .ok ((name, text), [])) ∧
    Nullness.ofAnnotation? name = none ∧
    lexemes.tail.head?.any (fun lexeme => lexeme.text == "interface") = false

def annotationWords (text : String) : List Word :=
  match tokenize text with
  | .ok lexemes => loosen (lexemes.map Lexeme.word)
  | .error _ => []

theorem CapturedAnnotation.shape {text : String} (captured : CapturedAnnotation text) :
    ∃ sign first more, annotationWords text = sign :: first :: more ∧ sign.kind = .atSign ∧
      first.text ≠ "interface" ∧ ∃ name, Nullness.ofAnnotation? name = none ∧
        ∀ mode good back, NotNext .dot back → NotNext .leftParen back →
          Takes mode good annotationUse (annotationWords text) back (· = (name, text)) := by
  obtain ⟨lexemes, name, found, read, other, notInterface⟩ := captured
  obtain ⟨sign, first, more, whole, signKind, _, takes⟩ :=
    annotationUse_follow (read { nullMode := .legacy, endLine := 0 })
  rw [List.append_nil] at whole
  subst whole
  have words : annotationWords text = loosen ((sign :: first :: more).map Lexeme.word) := by
    rw [annotationWords, found]
  refine ⟨_, _, _, words, signKind, ?_, name, other, ?_⟩
  · simpa [Lexeme.word] using notInterface
  · rw [words]
    exact takes

theorem CapturedAnnotation.separated {text : String} (captured : CapturedAnnotation text) :
    Separated (text ++ " ") (annotationWords text) := by
  obtain ⟨lexemes, name, found, read, _, _⟩ := captured
  obtain ⟨sign, first, more, whole, _, source, _⟩ :=
    annotationUse_follow (read { nullMode := .legacy, endLine := 0 })
  rw [List.append_nil] at whole
  rw [annotationWords, found, source, ← whole]
  refine ⟨loose_loosen _, ?_⟩
  intro after later _ loose scans
  have blank := separated_blank.scans after later trivial loose scans
  have lexed : Lexed (lexemes ++ []) := by
    rw [List.append_nil]
    exact lexed_of_tokenize found
  have stops : Stops (" ".toList ++ after) := stops_cons (by decide) after
  rw [String.toList_append, List.append_assoc]
  exact lexed.source stops blank

theorem capturedAnnotation_of_read {context : Context} {lexemes rest : List Lexeme}
    {name source : String} (lexed : Lexed lexemes)
    (read : annotationUse context lexemes = .ok ((name, source), rest))
    (other : Nullness.ofAnnotation? name = none)
    (notInterface : lexemes.tail.head?.any (fun lexeme => lexeme.text == "interface") = false) :
    CapturedAnnotation source := by
  obtain ⟨sign, first, more, rfl, _, rfl, takes⟩ := annotationUse_follow read
  have atEnd : Scans [] [] := .blank rfl
  have scans := lexed.source stops_nil atEnd
  obtain ⟨lexemes, found, spells⟩ := scans.tokenizeFrom 0 1
  rw [List.append_nil] at found spells
  refine ⟨lexemes, name, found, ?_, other, ?_⟩
  · intro context'
    obtain ⟨value, again, rfl⟩ := (takes context'.nullMode True [] (notNext_nil _)
      (notNext_nil _)).run rfl spells .nil
    rwa [List.append_nil] at again
  · cases spells with
    | cons _ spells =>
        cases spells with
        | cons same _ =>
            simp only [List.cons_append, List.tail_cons, List.head?_cons, Option.any_some]
              at notInterface ⊢
            rw [same.2.1]
            exact notInterface

/-! ## Values -/

theorem rawValue_eq_ok {context : Context} {lexemes rest : List Lexeme} {text : String}
    (read : rawValue context lexemes = .ok (text, rest)) :
    ∃ taken semicolon behind, lexemes = taken ++ rest ∧ taken ≠ [] ∧
      lexemes.takeWhile (fun lexeme => !isSemicolon lexeme) = taken ∧
      (∀ lexeme ∈ taken, lexeme.kind ≠ .semicolon) ∧ rest = semicolon :: behind ∧
      semicolon.kind = .semicolon ∧ text = Lexeme.sourceText taken := by
  rw [rawValue, bind_ok (remaining_apply context lexemes)] at read
  split at read
  · next empty => cases lexemes <;> cases read
  · next filled =>
      rw [bind_ok (continueWith_apply context lexemes _), bind_ok (remaining_apply context _)]
        at read
      split at read
      · next atEnd =>
          rw [List.isEmpty_iff.mp atEnd] at read
          cases read
      · next more =>
          obtain ⟨rfl, rfl⟩ := pure_eq_ok read
          have whole : lexemes.takeWhile (fun lexeme => !isSemicolon lexeme) ++
              lexemes.dropWhile (fun lexeme => !isSemicolon lexeme) = lexemes :=
            List.takeWhile_append_dropWhile
          have plain : ∀ lexeme ∈ lexemes.takeWhile (fun lexeme => !isSemicolon lexeme),
              lexeme.kind ≠ .semicolon := by
            intro lexeme member
            have passes := List.all_eq_true.mp List.all_takeWhile lexeme member
            simpa [isSemicolon] using passes
          cases shape : lexemes.dropWhile fun lexeme => !isSemicolon lexeme with
          | nil => simp [shape] at more
          | cons semicolon behind =>
              have kind := List.head?_dropWhile_not (fun lexeme => !isSemicolon lexeme) lexemes
              rw [shape] at whole kind
              refine ⟨_, semicolon, behind, whole.symm, ?_, rfl, plain, rfl, ?_, rfl⟩
              · simpa using filled
              · simpa [isSemicolon] using kind

/-- Words up to a semicolon are read as their source text. -/
theorem takes_rawWords {words : List Word} {semicolon : Word} (filled : words ≠ [])
    (plain : ∀ word ∈ words, word.kind ≠ .semicolon) (kind : semicolon.kind = .semicolon) :
    Takes mode good rawValue words (semicolon :: back)
      fun text => ∃ taken, Spells words taken ∧ text = Lexeme.sourceText taken := by
  intro context taken rest' _ spells behind
  have plain' := Spells.kind_ne spells plain
  have filled' : taken ≠ [] := by
    rintro rfl
    cases spells
    exact filled rfl
  cases behind with
  | @cons _ semicolon' _ behind matched _ =>
      have passes : ∀ lexeme ∈ taken, (!isSemicolon lexeme) = true := by
        intro lexeme member
        simpa [isSemicolon] using plain' lexeme member
      have stops : (!isSemicolon semicolon') = false := by
        simp [isSemicolon, matched.1, kind]
      have before : (taken ++ semicolon' :: behind).takeWhile (fun lexeme => !isSemicolon lexeme) =
          taken := by
        simp [List.takeWhile_append_of_pos passes, stops]
      have after : (taken ++ semicolon' :: behind).dropWhile (fun lexeme => !isSemicolon lexeme) =
          semicolon' :: behind := by
        simp [List.dropWhile_append_of_pos passes, stops]
      refine .inl ⟨_, ?_, taken, spells, rfl⟩
      rw [rawValue, bind_ok (remaining_apply context _), before, after,
        if_neg (by simpa using filled'), bind_ok (continueWith_apply context _ _),
        bind_ok (remaining_apply context _)]
      rfl

theorem takes_rawValue {taken : List Lexeme} {semicolon : Word} (filled : taken ≠ [])
    (plain : ∀ lexeme ∈ taken, lexeme.kind ≠ .semicolon) (kind : semicolon.kind = .semicolon) :
    Takes mode good rawValue (loosen (taken.map Lexeme.word)) (semicolon :: back)
      (· = Lexeme.sourceText taken) := by
  have filled' : loosen (taken.map Lexeme.word) ≠ [] := by
    cases taken with
    | nil => exact absurd rfl filled
    | cons first rest => exact List.cons_ne_nil _ _
  refine (takes_rawWords filled' (loosen_kind_ne plain) kind).mono ?_
  rintro _ ⟨taken', spells, rfl⟩
  exact sourceText_of_spells spells

def CapturedValue (text : String) : Prop :=
  ∃ lexemes rest, tokenize (text ++ ";") = .ok lexemes ∧
    ∀ context, rawValue context lexemes = .ok (text, rest)

def valueWords (text : String) : List Word :=
  match tokenize (text ++ ";") with
  | .ok lexemes =>
      loosen ((lexemes.takeWhile fun lexeme => !isSemicolon lexeme).map Lexeme.word)
  | .error _ => []

theorem CapturedValue.takes {text : String} (captured : CapturedValue text) :
    Takes mode good rawValue (valueWords text) (.semicolon :: back) (· = text) := by
  obtain ⟨lexemes, rest, found, read⟩ := captured
  obtain ⟨taken, semicolon, behind, whole, filled, same, plain, rfl, _, rfl⟩ :=
    rawValue_eq_ok (read { nullMode := .legacy, endLine := 0 })
  have words : valueWords (Lexeme.sourceText taken) = loosen (taken.map Lexeme.word) := by
    simp only [valueWords, found, same]
  rw [words]
  exact takes_rawValue filled plain rfl

theorem CapturedValue.separated {text : String} (captured : CapturedValue text) :
    Separated (text ++ ";") (valueWords text ++ [.semicolon]) := by
  obtain ⟨lexemes, rest, found, read⟩ := captured
  obtain ⟨taken, semicolon, behind, whole, filled, same, plain, rfl, _, rfl⟩ :=
    rawValue_eq_ok (read { nullMode := .legacy, endLine := 0 })
  have words : valueWords (Lexeme.sourceText taken) = loosen (taken.map Lexeme.word) := by
    simp only [valueWords, found, same]
  rw [words]
  refine ⟨(loose_loosen _).append (loose_cons rfl _), ?_⟩
  intro after later _ loose scans
  have mark : Separated ";" [.semicolon] := separated_punctuation rfl (by decide)
  have behindText := mark.scans after later trivial loose scans
  have lexed : Lexed (taken ++ semicolon :: behind) := by
    rw [← whole]
    exact lexed_of_tokenize found
  have stops : Stops (";".toList ++ after) := stops_cons (by decide) after
  rw [String.toList_append, List.append_assoc, List.append_assoc]
  exact lexed.source stops behindText

theorem capturedValue_of_read {context : Context} {lexemes rest : List Lexeme} {text : String}
    (lexed : Lexed lexemes) (read : rawValue context lexemes = .ok (text, rest)) :
    CapturedValue text := by
  obtain ⟨taken, semicolon, behind, rfl, filled, _, plain, rfl, _, rfl⟩ := rawValue_eq_ok read
  have mark : Separated ";" [.semicolon] := separated_punctuation rfl (by decide)
  have atEnd : Scans [] [] := .blank rfl
  have stops : Stops (";".toList ++ []) := stops_cons (by decide) []
  have scans := lexed.source stops (mark.scans [] [] trivial loose_nil atEnd)
  obtain ⟨lexemes, found, spells⟩ := scans.tokenizeFrom 0 1
  rw [← List.append_assoc, List.append_nil, ← String.toList_append] at found
  obtain ⟨taken', rest', rfl, spellsTaken, spellsRest⟩ := Spells.split spells
  refine ⟨_, rest', found, ?_⟩
  intro context'
  have takes : Takes context'.nullMode True rawValue _ [.semicolon] _ :=
    takes_rawValue filled plain rfl
  obtain ⟨value, again, rfl⟩ := takes.run rfl spellsTaken spellsRest
  exact again

end ApiCompat.Signature
