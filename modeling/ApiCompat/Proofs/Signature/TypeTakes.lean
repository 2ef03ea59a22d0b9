import ApiCompat.Proofs.Signature.Formed
import ApiCompat.Proofs.Signature.Rereadable
import ApiCompat.Proofs.Signature.Words

/-!
# Reading written types

A type is read back from its words if what follows does not continue it.  What
follows an open wildcard must not be the word of a bound either.
-/

set_option autoImplicit false

namespace ApiCompat

namespace Signature

open Reader

variable {mode : NullMode} {good : Prop} {back : List Word} {allowed : String → Prop}

/-! ## What may follow a type -/

def endsTypeKind : TokenKind → Bool
  | .dot | .less | .question | .bang | .leftBracket | .ellipsis => false
  | _ => true

def EndsType (back : List Word) : Prop := ∀ word ∈ back.head?, endsTypeKind word.kind = true

def EndsWildcard (back : List Word) : Prop :=
  NotNextWord "extends" back ∧ NotNextWord "super" back

@[simp] theorem endsType_cons (word : Word) (words : List Word) :
    EndsType (word :: words) ↔ endsTypeKind word.kind = true := by
  simp [EndsType]

theorem EndsType.notNext (ends : EndsType back) {kind : TokenKind}
    (continues : endsTypeKind kind = false) : NotNext kind back := by
  rintro word next rfl
  rw [ends word next] at continues
  cases continues

/-! ## Nullness marks -/

def declaredBefore : NullMode → Nullness → Option Nullness
  | .legacy, .nullable => some .nullable
  | .legacy, .nonNull => some .nonNull
  | _, _ => none

def declaredAfter : NullMode → Nullness → Option Nullness
  | .nullAware, .nullable => some .nullable
  | .nullAware, .unspecified => some .unspecified
  | _, _ => none

theorem takes_mark {text : String} (single : nameWords text = [.ident text])
    (notDot : NotNext .dot back) (notParen : NotNext .leftParen back) :
    Takes mode good annotationUse [.atSign, .ident text] back fun found => found.1 = text := by
  have body : Takes mode good
      (do
        let _ ← expect .atSign
        let name ← qualifiedName .annotationName
        annotationArguments
        return name)
      [.atSign, .ident text] back (· = text) := by
    refine (takes_expect rfl).bind_word fun _ _ => ?_
    rw [← single]
    refine (takes_qualifiedName _ _ notDot).last fun found same => ?_
    subst same
    exact (takes_annotationArguments_none notParen).last fun _ _ => takes_pure rfl
  exact (takes_withSource body).mono fun found holds => holds.1

theorem takes_typeAnnotations_none {line : Nat} {declared : Option Nullness}
    (stop : NotNext .atSign back) (rounds : Nat) :
    Takes mode good (typeAnnotations line rounds declared) [] back (· = declared) := by
  cases rounds with
  | zero => exact takes_pure rfl
  | succ rounds =>
      refine (takes_isNext_not stop).last fun found none => ?_
      subst none
      exact takes_pure rfl

theorem takes_annotationMark {line rounds : Nat} {nullness : Nullness} {text : String}
    (single : nameWords text = [.ident text]) (known : Nullness.ofAnnotation? text = some nullness)
    (notDot : NotNext .dot back) (notParen : NotNext .leftParen back)
    (notSign : NotNext .atSign back) :
    Takes mode good (typeAnnotations line (rounds + 1) none) [.atSign, .ident text] back
      (· = some nullness) := by
  refine Takes.peek (takes_isNext rfl) fun found marked => ?_
  subst marked
  refine (takes_mark single notDot notParen).last fun found same => ?_
  obtain ⟨name, source⟩ := found
  obtain rfl : name = text := same
  simp only [known]
  refine Takes.peek (takes_pure rfl) fun declared same => ?_
  subst same
  exact takes_typeAnnotations_none notSign rounds

theorem takes_beforeWords {line rounds : Nat} {nullness : Nullness}
    (enough : (beforeWords mode nullness).length ≤ rounds) (notDot : NotNext .dot back)
    (notParen : NotNext .leftParen back) (notSign : NotNext .atSign back) :
    Takes mode good (typeAnnotations line rounds none) (beforeWords mode nullness) back
      (· = declaredBefore mode nullness) := by
  cases mode with
  | nullAware => exact takes_typeAnnotations_none notSign rounds
  | legacy =>
      cases nullness with
      | unspecified => exact takes_typeAnnotations_none notSign rounds
      | nullable =>
          cases rounds with
          | zero => simp [beforeWords, annotationMark] at enough
          | succ rounds => exact takes_annotationMark rfl (by decide) notDot notParen notSign
      | nonNull =>
          cases rounds with
          | zero => simp [beforeWords, annotationMark] at enough
          | succ rounds => exact takes_annotationMark rfl (by decide) notDot notParen notSign

/-- A type has no mark before it, or one that begins with the sign of an annotation. -/
theorem beforeWords_cases (mode : NullMode) (nullness : Nullness) :
    beforeWords mode nullness = [] ∧ (mode = .nullAware ∨ nullness = .unspecified) ∨
      ∃ later, beforeWords mode nullness = .atSign :: later := by
  cases mode with
  | nullAware => exact .inl ⟨rfl, .inl rfl⟩
  | legacy =>
      cases nullness with
      | unspecified => exact .inl ⟨rfl, .inr rfl⟩
      | nullable => exact .inr ⟨_, rfl⟩
      | nonNull => exact .inr ⟨_, rfl⟩

theorem takes_nullnessSuffix_none (notQuestion : NotNext .question back)
    (notBang : NotNext .bang back) : Takes mode good nullnessSuffix [] back (· = none) := by
  refine Takes.peek (takes_skip_not notQuestion) fun found none => ?_
  subst none
  refine Takes.peek (takes_skip_not notBang) fun found none => ?_
  subst none
  exact takes_pure rfl

theorem takes_afterWords {nullness : Nullness} (notQuestion : NotNext .question back)
    (notBang : NotNext .bang back) :
    Takes mode good nullnessSuffix (afterWords mode nullness) back
      (· = declaredAfter mode nullness) := by
  cases mode with
  | legacy => exact takes_nullnessSuffix_none notQuestion notBang
  | nullAware =>
      cases nullness with
      | nonNull => exact takes_nullnessSuffix_none notQuestion notBang
      | nullable =>
          refine (takes_skip rfl).last fun found marked => ?_
          subst marked
          exact takes_pure rfl
      | unspecified =>
          refine Takes.peek (takes_skip_not ?_) fun found none => ?_
          · simp [afterWords, Word.bang, Word.punctuation]
          · subst none
            refine (takes_skip rfl).last fun found marked => ?_
            subst marked
            exact takes_pure rfl

theorem notNext_afterWords {kind : TokenKind} {nullness : Nullness} (notQuestion : kind ≠ .question)
    (notBang : kind ≠ .bang) (stop : NotNext kind back) :
    NotNext kind (afterWords mode nullness ++ back) := by
  cases mode with
  | legacy => exact stop
  | nullAware =>
      cases nullness with
      | unspecified => exact notNext_of_ne notBang.symm
      | nullable => exact notNext_of_ne notQuestion.symm
      | nonNull => exact stop

theorem notNext_dimWords {kind : TokenKind} (dims : Nat) (other : kind ≠ .leftBracket)
    (stop : NotNext kind back) : NotNext kind (dimWords dims ++ back) := by
  cases dims with
  | zero => exact stop
  | succ dims => exact notNext_of_ne other.symm

theorem notNext_varargsWords {kind : TokenKind} (varargs : Bool) (other : kind ≠ .ellipsis)
    (stop : NotNext kind back) : NotNext kind (varargsWords varargs ++ back) := by
  cases varargs with
  | false => exact stop
  | true => exact notNext_of_ne other.symm

theorem takes_arrayDims (dims : Nat) {rounds : Nat} (enough : dims ≤ rounds)
    (stop : NotNext .leftBracket back) :
    Takes mode good (arrayDims rounds) (dimWords dims) back (· = dims) := by
  induction dims generalizing rounds with
  | zero =>
      cases rounds with
      | zero => exact takes_pure rfl
      | succ rounds =>
          refine Takes.peek (takes_skip_not stop) fun found none => ?_
          subst none
          exact takes_pure rfl
  | succ dims ih =>
      cases rounds with
      | zero => omega
      | succ rounds =>
          refine (takes_skip rfl).bind_word fun found opened => ?_
          subst opened
          refine (takes_expect rfl).bind_word fun _ _ => ?_
          refine (ih (Nat.le_of_succ_le_succ enough)).last fun more same => ?_
          subst same
          exact takes_pure rfl

theorem takes_varargs {varargs : Bool} (stop : NotNext .ellipsis back) :
    Takes mode good (skip? .ellipsis) (varargsWords varargs) back (· = varargs) := by
  cases varargs with
  | false => exact takes_skip_not stop
  | true => exact takes_skip rfl

/-- The marks around a type, read again, amount to its nullness. -/
theorem takes_settleNullness {line : Nat} (nullness : Nullness) :
    Takes mode good
      (settleNullness line (declaredBefore mode nullness) (declaredAfter mode nullness)) [] back
      (· = nullness) := by
  cases mode with
  | legacy =>
      cases nullness with
      | unspecified =>
          refine takes_context.last fun context inMode => ?_
          rw [inMode]
          exact takes_pure rfl
      | nullable => exact takes_pure rfl
      | nonNull => exact takes_pure rfl
  | nullAware =>
      cases nullness with
      | nonNull =>
          refine takes_context.last fun context inMode => ?_
          rw [inMode]
          exact takes_pure rfl
      | nullable => exact takes_pure rfl
      | unspecified => exact takes_pure rfl

/-! ## The parts of a type -/

def typeSuffix (line : Nat) (declared : Option Nullness) (name : String) (args : List TypeRef) :
    Reader TypeRef := do
  let inner ← nullnessSuffix
  let dims ← arrayDims (← remaining).length
  let varargs ← skip? .ellipsis
  let outer ← nullnessSuffix
  let suffix := outer.or (if dims = 0 ∧ varargs = false then inner else none)
  let nullness ← settleNullness line declared suffix
  return { name, args, arrayDims := dims, varargs, nullness }

def typeBody (depth line : Nat) (declared : Option Nullness) : Reader TypeRef := do
  if ← skip? .question then
    let bound ← wildcardBound (typeWithin depth none)
    return { name := "?", bound }
  else
    let name ← qualifiedName .typeName
    let args ← typeArguments (typeWithin depth none)
    typeSuffix line declared name args

theorem typeWithin_succ (depth : Nat) (declared : Option Nullness) :
    typeWithin (depth + 1) declared =
      (do
        let line ← currentLine
        let declared ← typeAnnotations line (← remaining).length declared
        typeBody depth line declared) :=
  rfl

theorem length_dimWords (dims : Nat) : dims ≤ (dimWords dims).length := by
  induction dims with
  | zero => exact Nat.le_refl 0
  | succ dims ih =>
      simp only [dimWords, List.length_cons]
      omega

/-- A mark behind a type: the words are read as the mark, and are nothing else. -/
structure MarksBehind (mode : NullMode) (words : List Word) (mark : Option Nullness) : Prop where
  takes : ∀ good back, NotNext .question back → NotNext .bang back →
    Takes mode good nullnessSuffix words back (· = mark)
  notNext : ∀ kind back, kind ≠ .question → kind ≠ .bang → NotNext kind back →
    NotNext kind (words ++ back)

theorem marksBehind_afterWords (mode : NullMode) (nullness : Nullness) :
    MarksBehind mode (afterWords mode nullness) (declaredAfter mode nullness) where
  takes _ _ notQuestion notBang := takes_afterWords notQuestion notBang
  notNext _ _ notQuestion notBang stop := notNext_afterWords notQuestion notBang stop

/-- Behind brackets or dots only a mark is taken, whatever follows it. -/
theorem takes_arraySuffix {line : Nat} {name : String} {args : List TypeRef}
    {declared mark : Option Nullness} {words : List Word} {nullness : Nullness} {dims : Nat}
    {varargs : Bool} (isArray : ¬(dims = 0 ∧ varargs = false))
    (takesMark : Takes mode good nullnessSuffix words back (· = mark))
    (noBracket : NotNext .leftBracket (words ++ back)) (noEllipsis : NotNext .ellipsis (words ++ back))
    (settles : Takes mode good (settleNullness line declared mark) [] back (· = nullness)) :
    Takes mode good (typeSuffix line declared name args)
      (dimWords dims ++ (varargsWords varargs ++ words)) back
      (· = ⟨name, args, .unbounded, dims, varargs, nullness⟩) := by
  have noSuffix : NotNext .question (dimWords dims ++ (varargsWords varargs ++ words) ++ back) ∧
      NotNext .bang (dimWords dims ++ (varargsWords varargs ++ words) ++ back) := by
    cases dims with
    | succ dims => simp [dimWords, Word.leftBracket, Word.punctuation]
    | zero =>
        cases varargs with
        | false => exact absurd ⟨rfl, rfl⟩ isArray
        | true => simp [dimWords, varargsWords, Word.ellipsis]
  have behindDims : NotNext .leftBracket (varargsWords varargs ++ words ++ back) := by
    rw [List.append_assoc]
    exact notNext_varargsWords varargs (by decide) noBracket
  refine Takes.peek (takes_nullnessSuffix_none noSuffix.1 noSuffix.2) fun inner none => ?_
  subst none
  refine Takes.peek takes_remaining fun lexemes spells => ?_
  have enough : dims ≤ lexemes.length := by
    rw [← spells.length_eq]
    have bound := length_dimWords dims
    simp only [List.length_append]
    omega
  refine (takes_arrayDims dims enough behindDims).bind fun found same => ?_
  subst same
  refine (takes_varargs noEllipsis).bind fun found same => ?_
  subst same
  refine takesMark.last fun outer same => ?_
  subst same
  rw [if_neg isArray, Option.or_none]
  refine Takes.peek settles fun found same => ?_
  subst same
  exact takes_pure rfl

theorem takes_typeSuffix {line : Nat} {name : String} {args : List TypeRef}
    {declared mark : Option Nullness} {words : List Word} {nullness : Nullness} (dims : Nat)
    (varargs : Bool) (marks : MarksBehind mode words mark)
    (settles : ∀ back, Takes mode good (settleNullness line declared mark) [] back (· = nullness))
    (ends : EndsType back) :
    Takes mode good (typeSuffix line declared name args)
      (dimWords dims ++ (varargsWords varargs ++ words)) back
      (· = ⟨name, args, .unbounded, dims, varargs, nullness⟩) := by
  have notQuestion : NotNext .question back := ends.notNext rfl
  have notBang : NotNext .bang back := ends.notNext rfl
  have notBracket : NotNext .leftBracket back := ends.notNext rfl
  have notEllipsis : NotNext .ellipsis back := ends.notNext rfl
  by_cases plain : dims = 0 ∧ varargs = false
  · obtain ⟨rfl, rfl⟩ := plain
    refine (marks.takes good back notQuestion notBang).last fun inner same => ?_
    subst same
    refine Takes.peek takes_remaining fun lexemes _ => ?_
    refine Takes.peek (takes_arrayDims 0 (Nat.zero_le _) notBracket) fun found same => ?_
    subst same
    refine Takes.peek (takes_skip_not notEllipsis) fun found none => ?_
    subst none
    refine Takes.peek (takes_nullnessSuffix_none notQuestion notBang) fun found none => ?_
    subst none
    refine Takes.peek (settles _) fun found same => ?_
    subst same
    exact takes_pure rfl
  · exact takes_arraySuffix plain (marks.takes good back notQuestion notBang)
      (marks.notNext _ back (by decide) (by decide) notBracket)
      (marks.notNext _ back (by decide) (by decide) notEllipsis) (settles back)

theorem nameWords_cons (name : String) :
    ∃ later, nameWords name = .ident (firstPart name) :: later := by
  obtain ⟨later, shape⟩ := nameParts_shape name
  exact ⟨_, by rw [nameWords, shape]; rfl⟩

theorem argWords_eq (mode : NullMode) (type : TypeRef) (rest : List TypeRef) :
    argWords mode (type :: rest) =
      .less :: (joinWords [.comma] ((type :: rest).map (typeWords mode)) ++ [.greater]) := by
  have more : ∀ types : List TypeRef, moreArgWords mode types =
      (types.map (typeWords mode)).flatMap (fun words => [.comma] ++ words) ++ [.greater] := by
    intro types
    induction types with
    | nil => rfl
    | cons type types ih => simp [moreArgWords, ih, typeWords]
  simp [argWords, more, joinWords, typeWords]

theorem sublist_joinWords (separator : List Word) {words : List Word} {items : List (List Word)}
    (member : words ∈ items) : words.Sublist (joinWords separator items) := by
  cases items with
  | nil => cases member
  | cons first rest =>
      rcases List.mem_cons.mp member with rfl | later
      · exact List.sublist_append_left _ _
      · have inBlock : words.Sublist (separator ++ words) := List.sublist_append_right _ _
        have block : (separator ++ words).Sublist (rest.flatMap fun next => separator ++ next) :=
          List.sublist_flatten_of_mem (List.mem_map.mpr ⟨words, later, rfl⟩)
        exact (inBlock.trans block).trans (List.sublist_append_right _ _)

theorem argWords_eq_enclosed (mode : NullMode) (types : List TypeRef) :
    argWords mode types = enclosedWords (types.map (typeWords mode)) := by
  cases types with
  | nil => rfl
  | cons type rest => exact argWords_eq mode type rest

theorem notNext_argWords {kind : TokenKind} (args : List TypeRef) (other : kind ≠ .less)
    (stop : NotNext kind back) : NotNext kind (argWords mode args ++ back) := by
  rw [argWords_eq_enclosed]
  exact notNext_enclosedWords _ other stop

theorem length_lt_enclosedWords {words : List Word} {items : List (List Word)}
    (member : words ∈ items) : words.length < (enclosedWords items).length := by
  cases items with
  | nil => cases member
  | cons first rest =>
      have inJoin := (sublist_joinWords [.comma] member).length_le
      rw [enclosedWords, List.length_cons, List.length_append]
      omega

theorem length_typeWords_lt (mode : NullMode) {type : TypeRef} {types : List TypeRef}
    (member : type ∈ types) :
    (typeWords mode type).length < (argWords mode types).length := by
  rw [argWords_eq_enclosed]
  exact length_lt_enclosedWords (List.mem_map.mpr ⟨type, member, rfl⟩)

def TypeTakes (mode : NullMode) (type : TypeRef) : Prop :=
  ∀ good depth back, (typeWords mode type).length ≤ depth → EndsType back →
    (type.endsOpen = true → EndsWildcard back) →
    Takes mode good (typeWithin depth none) (typeWords mode type) back (· = type)

/-- What follows a type inside angle brackets ends it. -/
theorem ends_enclosed (word : Word) (later : List Word) (which : word = .comma ∨ word = .greater) :
    EndsType (word :: later) ∧ EndsWildcard (word :: later) := by
  rcases which with rfl | rfl
  · simp [EndsWildcard, Word.comma, Word.punctuation, endsTypeKind]
  · simp [EndsWildcard, Word.greater, Word.punctuation, endsTypeKind]

theorem takes_typeArguments {depth : Nat} (args : List TypeRef)
    (inner : ∀ type ∈ args, TypeTakes mode type) (enough : (argWords mode args).length ≤ depth + 1)
    (stop : NotNext .less back) :
    Takes mode good (typeArguments (typeWithin depth none)) (argWords mode args) back
      (· = args) := by
  have whole : Takes mode good (enclosed (typeWithin depth none))
      (enclosedWords (args.map (typeWords mode))) back (· = args.map id) := by
    refine takes_enclosed (fun later => EndsType later ∧ EndsWildcard later) id stop ends_enclosed ?_
    intro value member later ends
    have shorter : (typeWords mode value).length ≤ depth := by
      have bound := length_typeWords_lt mode member
      omega
    exact inner value member good depth later shorter ends.1 fun _ => ends.2
  rwa [List.map_id, ← argWords_eq_enclosed] at whole

section Bounds

variable {type : Reader TypeRef} {words : List Word} {bound : TypeRef}

theorem takes_unbounded (ends : EndsWildcard back) :
    Takes mode good (wildcardBound type) [] back (· = .unbounded) := by
  refine Takes.peek (takes_skipWord_not ends.1) fun found none => ?_
  subst none
  refine Takes.peek (takes_skipWord_not ends.2) fun found none => ?_
  subst none
  exact takes_pure rfl

theorem takes_upperBound (takes : Takes mode good type words back (· = bound)) :
    Takes mode good (wildcardBound type) (.ident "extends" :: words) back (· = .upper bound) := by
  refine (takes_skipWord "extends").bind_word fun found taken => ?_
  subst taken
  refine takes.last fun found same => ?_
  subst same
  exact takes_pure rfl

theorem takes_lowerBound (takes : Takes mode good type words back (· = bound)) :
    Takes mode good (wildcardBound type) (.ident "super" :: words) back (· = .lower bound) := by
  have notExtends : NotNextWord "extends" (.ident "super" :: words ++ back) := by
    simp [Word.ident]
  refine Takes.peek (takes_skipWord_not notExtends) fun found none => ?_
  subst none
  refine (takes_skipWord "super").bind_word fun found taken => ?_
  subst taken
  refine takes.last fun found same => ?_
  subst same
  exact takes_pure rfl

end Bounds

theorem takes_wildcardBound {depth : Nat} (bound : Bound TypeRef)
    (inner : ∀ type, bound = .upper type ∨ bound = .lower type → TypeTakes mode type)
    (enough : (boundWords mode bound).length ≤ depth + 1) (ends : EndsType back)
    (closed : TypeRef.boundEndsOpen bound = true → EndsWildcard back) :
    Takes mode good (wildcardBound (typeWithin depth none)) (boundWords mode bound) back
      (· = bound) := by
  cases bound with
  | unbounded => exact takes_unbounded (closed rfl)
  | upper type =>
      have shorter : (typeWords mode type).length ≤ depth := Nat.le_of_succ_le_succ enough
      exact takes_upperBound (inner type (.inl rfl) good depth back shorter ends closed)
  | lower type =>
      have shorter : (typeWords mode type).length ≤ depth := Nat.le_of_succ_le_succ enough
      exact takes_lowerBound (inner type (.inr rfl) good depth back shorter ends closed)

theorem takes_typeBody {depth line : Nat} {type : TypeRef} (formed : type.Formed allowed)
    (idents : Identifiers allowed)
    (inBound : ∀ inner, type.bound = .upper inner ∨ type.bound = .lower inner →
      TypeTakes mode inner)
    (inArgs : ∀ inner ∈ type.args, TypeTakes mode inner)
    (enough : (bareWords mode type).length ≤ depth + 1) (ends : EndsType back)
    (closed : type.endsOpen = true → EndsWildcard back) :
    Takes mode good (typeBody depth line (declaredBefore mode type.nullness))
      (closedWords mode type (bareWords mode type)) back (· = type) := by
  obtain ⟨name, args, bound, dims, varargs, nullness⟩ := type
  rcases formed with ⟨rfl, rfl, rfl, rfl, rfl, _⟩ | ⟨dotted, rfl, _⟩
  · have words : closedWords mode ⟨"?", [], bound, 0, false, .unspecified⟩
        (bareWords mode ⟨"?", [], bound, 0, false, .unspecified⟩) =
        .question :: boundWords mode bound := by
      simp [closedWords, TypeRef.isWildcard, bareWords, headWords, argWords, dimWords,
        varargsWords]
    have enough' : (boundWords mode bound).length ≤ depth + 1 := by
      simp only [bareWords, List.length_append] at enough
      omega
    rw [words]
    refine (takes_skip rfl).bind_word fun found wildcard => ?_
    subst wildcard
    refine (takes_wildcardBound bound inBound enough' ends closed).last fun found same => ?_
    subst same
    exact takes_pure rfl
  · have notWildcard : name ≠ "?" := by
      rintro rfl
      exact idents.not_wildcard dotted
    have words : closedWords mode ⟨name, args, .unbounded, dims, varargs, nullness⟩
        (bareWords mode ⟨name, args, .unbounded, dims, varargs, nullness⟩) =
        nameWords name ++ (argWords mode args ++ (dimWords dims ++ (varargsWords varargs ++
          afterWords mode nullness))) := by
      simp [closedWords, TypeRef.isWildcard, notWildcard, bareWords, headWords, boundWords]
    have enough' : (argWords mode args).length ≤ depth + 1 := by
      simp only [bareWords, List.length_append] at enough
      omega
    have behindName : NotNext .dot (argWords mode args ++ (dimWords dims ++ (varargsWords varargs ++
        afterWords mode nullness)) ++ back) := by
      simp only [List.append_assoc]
      exact notNext_argWords args (by decide) (notNext_dimWords dims (by decide)
        (notNext_varargsWords varargs (by decide)
          (notNext_afterWords (by decide) (by decide) (ends.notNext rfl))))
    have behindArgs : NotNext .less (dimWords dims ++ (varargsWords varargs ++
        afterWords mode nullness) ++ back) := by
      simp only [List.append_assoc]
      exact notNext_dimWords dims (by decide) (notNext_varargsWords varargs (by decide)
        (notNext_afterWords (by decide) (by decide) (ends.notNext rfl)))
    rw [words]
    refine Takes.peek (takes_skip_not ?_) fun found none => ?_
    · obtain ⟨later, shape⟩ := nameWords_cons name
      simp [shape, Word.ident]
    · subst none
      refine (takes_qualifiedName _ name behindName).bind fun found same => ?_
      subst same
      refine (takes_typeArguments args inArgs enough' behindArgs).bind fun found same => ?_
      subst same
      exact takes_typeSuffix dims varargs (marksBehind_afterWords mode nullness)
        (fun _ => takes_settleNullness nullness) ends

theorem typeWords_eq (mode : NullMode) {type : TypeRef} (formed : type.Formed allowed)
    (idents : Identifiers allowed) :
    typeWords mode type = beforeWords mode type.nullness ++ ownTypeWords mode type := by
  unfold typeWords ownTypeWords markedWords closedWords
  split
  · next wildcard =>
      obtain ⟨name, args, bound, dims, varargs, nullness⟩ := type
      rcases formed with ⟨_, _, _, _, rfl, _⟩ | ⟨dotted, _, _⟩
      · cases mode <;> rfl
      · obtain rfl : name = "?" := by simpa [TypeRef.isWildcard] using wildcard
        exact absurd dotted idents.not_wildcard
  · rfl

/-- A type begins with a word or the sign of a wildcard. -/
theorem ownTypeWords_cons (mode : NullMode) (type : TypeRef) :
    ∃ word later, ownTypeWords mode type = word :: later ∧
      (word = .question ∨ word = .ident (firstPart type.name)) := by
  obtain ⟨name, args, bound, dims, varargs, nullness⟩ := type
  have head : ∃ word later, headWords name = word :: later ∧
      (word = .question ∨ word = .ident (firstPart name)) := by
    unfold headWords
    split
    · exact ⟨_, _, rfl, .inl rfl⟩
    · obtain ⟨later, shape⟩ := nameWords_cons name
      exact ⟨_, later, shape, .inr rfl⟩
  obtain ⟨word, later, shape, which⟩ := head
  unfold ownTypeWords closedWords
  split
  · exact ⟨word, _, by rw [bareWords, shape]; rfl, which⟩
  · exact ⟨word, _, by rw [bareWords, shape]; rfl, which⟩

theorem notNext_ownTypeWords {kind : TokenKind} (mode : NullMode) (type : TypeRef)
    (notQuestion : kind ≠ .question) (notIdent : kind ≠ .identifier) :
    NotNext kind (ownTypeWords mode type ++ back) := by
  obtain ⟨word, later, shape, rfl | rfl⟩ := ownTypeWords_cons mode type
  · rw [shape]
    exact notNext_of_ne notQuestion.symm
  · rw [shape]
    exact notNext_of_ne notIdent.symm

theorem length_bareWords_le (mode : NullMode) (type : TypeRef) :
    (bareWords mode type).length ≤ (ownTypeWords mode type).length := by
  unfold ownTypeWords closedWords
  split
  · exact Nat.le_refl _
  · simp

theorem typeTakes_of_body {type : TypeRef} (formed : type.Formed allowed)
    (idents : Identifiers allowed)
    (inBound : ∀ inner, type.bound = .upper inner ∨ type.bound = .lower inner →
      TypeTakes mode inner)
    (inArgs : ∀ inner ∈ type.args, TypeTakes mode inner) : TypeTakes mode type := by
  intro good depth back enough ends closed
  rw [typeWords_eq mode formed idents] at enough ⊢
  rw [List.length_append] at enough
  have bare := length_bareWords_le mode type
  obtain ⟨word, later, shape, _⟩ := ownTypeWords_cons mode type
  cases depth with
  | zero => simp [shape] at enough
  | succ depth =>
      rw [typeWithin_succ]
      refine Takes.peek takes_currentLine fun line _ => ?_
      refine Takes.peek takes_remaining fun lexemes spells => ?_
      have rounds : (beforeWords mode type.nullness).length ≤ lexemes.length := by
        rw [← spells.length_eq, List.length_append, List.length_append]
        omega
      refine (takes_beforeWords rounds (notNext_ownTypeWords mode type (by decide) (by decide))
        (notNext_ownTypeWords mode type (by decide) (by decide))
        (notNext_ownTypeWords mode type (by decide) (by decide))).bind fun declared same => ?_
      subst same
      exact takes_typeBody formed idents inBound inArgs (by omega) ends closed

mutual

theorem typeTakes (idents : Identifiers allowed) (mode : NullMode) :
    (type : TypeRef) → type.Formed allowed → TypeTakes mode type
  | ⟨name, args, bound, dims, varargs, nullness⟩, formed => by
      obtain ⟨_, formedBound, formedArgs⟩ := formed.parts
      have inBound := boundTakes idents mode bound formedBound
      have inArgs := allTakes idents mode args formedArgs
      exact typeTakes_of_body formed idents inBound inArgs
termination_by structural type => type

theorem boundTakes (idents : Identifiers allowed) (mode : NullMode) :
    (bound : Bound TypeRef) → TypeRef.FormedBound allowed bound →
    ∀ inner, bound = .upper inner ∨ bound = .lower inner → TypeTakes mode inner
  | .unbounded, _ => by
      rintro inner (same | same) <;> cases same
  | .upper type, formed => by
      have takes := typeTakes idents mode type formed
      rintro inner (same | same)
      · cases same
        exact takes
      · cases same
  | .lower type, formed => by
      have takes := typeTakes idents mode type formed
      rintro inner (same | same)
      · cases same
      · cases same
        exact takes
termination_by structural bound => bound

theorem allTakes (idents : Identifiers allowed) (mode : NullMode) :
    (types : List TypeRef) → TypeRef.FormedAll allowed types →
    ∀ inner ∈ types, TypeTakes mode inner
  | [], _ => by
      intro inner member
      cases member
  | type :: rest, formed => by
      have first := typeTakes idents mode type formed.1
      have later := allTakes idents mode rest formed.2
      intro inner member
      rcases List.mem_cons.mp member with rfl | member
      · exact first
      · exact later inner member
termination_by structural types => types

end

/-- A type that carries all its marks. -/
theorem takes_plainType {type : TypeRef} (formed : type.Formed allowed)
    (idents : Identifiers allowed) (ends : EndsType back)
    (closed : type.endsOpen = true → EndsWildcard back) :
    Takes mode good plainType (typeWords mode type) back (· = type) := by
  refine Takes.peek takes_remaining fun lexemes spells => ?_
  have enough : (typeWords mode type).length ≤ lexemes.length := by
    rw [← spells.length_eq, List.length_append]
    omega
  exact typeTakes idents mode type formed good lexemes.length back enough ends closed

/-- A type whose mark in front was read before. -/
theorem takes_ownType {type : TypeRef} (formed : type.Formed allowed)
    (idents : Identifiers allowed) (ends : EndsType back)
    (closed : type.endsOpen = true → EndsWildcard back) :
    Takes mode good (typeRef (declaredBefore mode type.nullness)) (ownTypeWords mode type) back
      (· = type) := by
  obtain ⟨_, formedBound, formedArgs⟩ := formed.parts
  have inBound := boundTakes idents mode type.bound formedBound
  have inArgs := allTakes idents mode type.args formedArgs
  refine Takes.peek takes_remaining fun lexemes spells => ?_
  have bare := length_bareWords_le mode type
  have length : (ownTypeWords mode type ++ back).length = lexemes.length := spells.length_eq
  obtain ⟨word, later, shape, _⟩ := ownTypeWords_cons mode type
  cases depth : lexemes.length with
  | zero => simp [shape, depth] at length
  | succ depth =>
      rw [List.length_append, depth] at length
      rw [typeWithin_succ]
      refine Takes.peek takes_currentLine fun line _ => ?_
      refine Takes.peek takes_remaining fun lexemes _ => ?_
      refine Takes.peek (takes_typeAnnotations_none
        (notNext_ownTypeWords mode type (by decide) (by decide)) lexemes.length) fun found same => ?_
      subst same
      exact takes_typeBody formed idents inBound inArgs (by omega) ends closed

end Signature

end ApiCompat
