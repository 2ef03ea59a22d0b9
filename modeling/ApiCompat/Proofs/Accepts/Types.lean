import ApiCompat.Proofs.Grammar.Documented
import ApiCompat.Proofs.Signature.PreambleTakes

/-!
# Types of the documented grammar are read

A type whose marks agree is read as what it means under the null mode, wherever
the words behind it do not continue it (`treeTakes`).
-/

set_option autoImplicit false

namespace ApiCompat

namespace Grammar

open Signature

/-- A type that can be read: its marks agree and stand behind it, and a wildcard ends with
its bound. -/
structure Occurrence.Sound (occurrence : Occurrence) : Prop extends occurrence.Documented where
  bare : occurrence.type.BareWildcard

/-- Without a mark before its ending a named type has the marks that it carries. -/
theorem outerMarks_eq_carried (declared : Option Nullness) (annotations : List AnnotationTree)
    (name : Name) (args : List TypeTree) (ending : Ending) :
    outerMarks declared annotations none ending =
      (TypeTree.named annotations name args none ending).carried declared := by
  simp [outerMarks, TypeTree.carried, TypeTree.annotations, TypeTree.ending]

theorem TypeTree.argWords_eq_enclosed (types : List TypeTree) :
    argWords types = enclosedWords (types.map words) := by
  cases types with
  | nil => rfl
  | cons type rest => exact argWords_eq _ (List.cons_ne_nil type rest)

/-- Any type ends where nothing continues a type. -/
theorem TypeTree.endsBefore_of {back : List Word} (type : EndsType back)
    (wildcard : EndsWildcard back) : (tree : TypeTree) → tree.EndsBefore back
  | .named _ _ _ _ _ => .inr type
  | .wildcard _ .unbounded _ => wildcard
  | .wildcard _ (.upper bound) _ => endsBefore_of type wildcard bound
  | .wildcard _ (.lower bound) _ => endsBefore_of type wildcard bound

end Grammar

namespace Signature

open Reader Grammar

variable {mode : NullMode} {good : Prop} {back : List Word}

/-! ## Names and annotations -/

theorem takes_name (expected : Expected) (name : Name) (stop : NotNext .dot back) :
    Takes mode good (qualifiedName expected) name.words back (· = name.text) :=
  takes_nameParts expected name.first name.later stop

theorem splitArguments_closes {words : List Word} {depth : Nat} {taken : List Lexeme}
    (closes : closesAtEnd depth words = true) (spells : Spells words taken) (rest : List Lexeme) :
    splitArguments depth (taken ++ rest) = some (taken, rest) := by
  induction words generalizing depth taken with
  | nil => cases closes
  | cons word words ih =>
      cases spells with
      | @cons _ lexeme _ taken matched spells =>
          rw [closesAtEnd] at closes
          rw [List.cons_append, splitArguments_cons, matched.1]
          split at closes
          · next closed =>
              obtain rfl := List.isEmpty_iff.mp closes
              cases spells
              rw [if_pos closed]
              rfl
          · next opened =>
              rw [if_neg opened, ih closes spells]
              rfl

/-- Arguments begin with a parenthesis, if there are any. -/
theorem arguments_cases (use : AnnotationTree) :
    use.arguments = [] ∨ ∃ word later, use.arguments = word :: later ∧ word.kind = .leftParen ∧
      closesAtEnd 0 (word :: later) = true := by
  rcases use.enclosed with none | enclosed
  · exact .inl none
  · cases shape : use.arguments with
    | nil => exact .inl rfl
    | cons word later =>
        rw [shape] at enclosed
        exact .inr ⟨word, later, rfl, enclosed.opens word rfl, enclosed.closes⟩

theorem takes_arguments (use : AnnotationTree) (stop : NotNext .leftParen back) :
    Takes mode good annotationArguments use.arguments back fun _ => True := by
  rcases arguments_cases use with none | ⟨word, later, shape, opens, closes⟩
  · rw [none]
    exact takes_annotationArguments_none stop
  · rw [shape]
    intro context taken rest _ spells _
    have cut := splitArguments_closes closes spells rest
    cases spells with
    | @cons _ lexeme _ taken matched spells =>
        exact .inl ⟨(), annotationArguments_open (matched.1.trans opens) cut, trivial⟩

theorem takes_annotationTree (use : AnnotationTree) (ends : EndsAnnotation back) :
    Takes mode good annotationUse use.words back fun found => found.1 = use.name.text := by
  have behindName : NotNext .dot (use.arguments ++ back) := by
    rcases arguments_cases use with none | ⟨word, later, shape, opens, _⟩
    · rw [none]
      exact ends.noDot
    · rw [shape]
      refine notNext_of_ne ?_
      rw [opens]
      decide
  have body : Takes mode good
      (do
        let _ ← expect .atSign
        let name ← qualifiedName .annotationName
        annotationArguments
        return name)
      use.words back (· = use.name.text) := by
    refine (takes_expect rfl).bind_word fun _ _ => ?_
    refine (takes_name _ use.name behindName).bind fun found same => ?_
    subst same
    exact (takes_arguments use ends.noArguments).last fun _ _ => takes_pure rfl
  exact (takes_withSource body).mono fun found holds => holds.1

theorem endsAnnotation_annotations (annotations : List AnnotationTree)
    (ends : EndsAnnotation back) : EndsAnnotation (annotationsWords annotations ++ back) := by
  cases annotations with
  | nil => exact ends
  | cons use annotations =>
      exact endsAnnotation_of_ne TokenKind.noConfusion TokenKind.noConfusion

/-! ## Marks -/

theorem takes_mergeNullness {declared : Option Nullness} {nullness : Nullness} {line : Nat}
    (agree : ∀ other ∈ declared, other = nullness) :
    Takes mode good (mergeNullness declared nullness line) [] back (· = some nullness) := by
  rw [mergeNullness_agree agree]
  exact takes_pure rfl

/-- Of agreeing marks the first one is any of them. -/
theorem head?_agree {declared : Option Nullness} {nullness : Nullness} {later : List Nullness}
    (agree : Agree (declared.toList ++ nullness :: later)) :
    (∀ other ∈ declared, other = nullness) ∧
      (declared.toList ++ nullness :: later).head? = some nullness := by
  have same : ∀ other ∈ declared, other = nullness := fun other member =>
    agree other (by simp [Option.mem_def.mp member]) nullness (by simp)
  refine ⟨same, ?_⟩
  cases declared with
  | none => rfl
  | some other => exact congrArg some (same other rfl)

theorem takes_typeAnnotations {line rounds : Nat} {declared : Option Nullness}
    {annotations : List AnnotationTree}
    (agree : Agree (declared.toList ++ annotations.filterMap AnnotationTree.nullness?))
    (enough : annotations.length ≤ rounds) (ends : EndsAnnotation back)
    (noSign : NotNext .atSign back) :
    Takes mode good (typeAnnotations line rounds declared) (annotationsWords annotations) back
      (· = (declared.toList ++ annotations.filterMap AnnotationTree.nullness?).head?) := by
  induction annotations generalizing rounds declared with
  | nil =>
      rw [List.filterMap_nil, List.append_nil, Option.head?_toList]
      exact takes_typeAnnotations_none noSign rounds
  | cons use annotations ih =>
      cases rounds with
      | zero => simp at enough
      | succ rounds =>
          have fewer : annotations.length ≤ rounds := Nat.le_of_succ_le_succ enough
          have signed : Takes mode good (isNext .atSign) []
              (annotationsWords (use :: annotations) ++ back) (· = true) := takes_isNext rfl
          refine Takes.peek signed fun found marked => ?_
          subst marked
          have words : annotationsWords (use :: annotations) =
              use.words ++ annotationsWords annotations := List.flatMap_cons
          rw [words]
          refine (takes_annotationTree use (endsAnnotation_annotations annotations ends)).bind
            fun found same => ?_
          obtain ⟨name, source⟩ := found
          obtain rfl : name = use.name.text := same
          cases meaning : use.nullness? with
          | none =>
              have unknown : Nullness.ofAnnotation? use.name.text = none := meaning
              rw [List.filterMap_cons_none meaning] at agree ⊢
              simp only [unknown]
              exact ih agree fewer
          | some nullness =>
              have known : Nullness.ofAnnotation? use.name.text = some nullness := meaning
              rw [List.filterMap_cons_some meaning] at agree ⊢
              obtain ⟨same, first⟩ := head?_agree agree
              simp only [known]
              refine Takes.peek (takes_mergeNullness same) fun merged same => ?_
              subst same
              rw [first]
              exact ih (agree.subset (List.subset_append_right _ _)) fewer

theorem takes_markWord (mark : Mark) :
    Takes mode good nullnessSuffix [mark.word] back (· = some mark.nullness) := by
  cases mark with
  | question =>
      refine (takes_skip rfl).last fun found marked => ?_
      subst marked
      exact takes_pure rfl
  | bang =>
      refine Takes.peek (takes_skip_not (notNext_of_ne (by decide))) fun found none => ?_
      subst none
      refine (takes_skip rfl).last fun found marked => ?_
      subst marked
      exact takes_pure rfl

theorem notNext_markWord {kind : TokenKind} (mark : Mark) (noQuestion : kind ≠ .question)
    (noBang : kind ≠ .bang) : NotNext kind (mark.word :: back) := by
  cases mark with
  | question => exact notNext_of_ne noQuestion.symm
  | bang => exact notNext_of_ne noBang.symm

theorem marksBehind_markWords (mode : NullMode) (mark : Option Mark) :
    MarksBehind mode (markWords mark) (mark.map Mark.nullness) where
  takes good back notQuestion notBang := by
    cases mark with
    | none => exact takes_nullnessSuffix_none notQuestion notBang
    | some mark => exact takes_markWord mark
  notNext kind back notQuestion notBang stop := by
    cases mark with
    | none => exact stop
    | some mark => exact notNext_markWord mark notQuestion notBang

theorem takes_settledMarks {line : Nat} {declared mark : Option Nullness}
    (agree : Agree (declared.toList ++ mark.toList)) :
    Takes mode good (settleNullness line declared mark) [] back
      (· = (declared.toList ++ mark.toList).head?.getD mode.bare) := by
  cases declared with
  | none =>
      cases mark with
      | none =>
          refine takes_context.last fun context inMode => ?_
          rw [inMode]
          exact takes_pure rfl
      | some nullness => exact takes_pure rfl
  | some nullness =>
      cases mark with
      | none => exact takes_pure rfl
      | some marked =>
          have same : nullness = marked := agree nullness (by simp) marked (by simp)
          rw [settleNullness, if_pos same]
          exact takes_pure rfl

/-! ## Types -/

def TreeTakes (mode : NullMode) (declared : Option Nullness) (type : TypeTree) : Prop :=
  ∀ good depth back, type.words.length ≤ depth → type.EndsBefore back →
    Takes mode good (typeWithin depth declared) type.words back (· = type.typeIn mode declared)

theorem takes_treeArguments {depth : Nat} {args : List TypeTree}
    (inner : ∀ type ∈ args, TreeTakes mode none type)
    (enough : (TypeTree.argWords args).length ≤ depth + 1) (stop : NotNext .less back) :
    Takes mode good (typeArguments (typeWithin depth none)) (TypeTree.argWords args) back
      (· = TypeTree.typesIn mode args) := by
  rw [TypeTree.argWords_eq_enclosed] at enough ⊢
  rw [TypeTree.typesIn_eq]
  refine takes_enclosed (fun later => EndsType later ∧ EndsWildcard later) _ stop ends_enclosed ?_
  intro type member later ends
  have shorter : type.words.length ≤ depth := by
    have bound := length_lt_enclosedWords (List.mem_map_of_mem (f := TypeTree.words) member)
    omega
  exact inner type member good depth later shorter (TypeTree.endsBefore_of ends.1 ends.2 type)

theorem takes_treeBound {depth : Nat} {bound : Bound TypeTree}
    (inner : ∀ type, bound = .upper type ∨ bound = .lower type → TreeTakes mode none type)
    (enough : (TypeTree.boundWords bound).length ≤ depth + 1)
    (ends : TypeTree.BoundEndsBefore back bound) :
    Takes mode good (wildcardBound (typeWithin depth none)) (TypeTree.boundWords bound) back
      (· = TypeTree.boundIn mode bound) := by
  cases bound with
  | unbounded => exact takes_unbounded ends
  | upper type =>
      have shorter : type.words.length ≤ depth := Nat.le_of_succ_le_succ enough
      exact takes_upperBound (inner type (.inl rfl) good depth back shorter ends)
  | lower type =>
      have shorter : type.words.length ≤ depth := Nat.le_of_succ_le_succ enough
      exact takes_lowerBound (inner type (.inr rfl) good depth back shorter ends)

theorem notNext_treeArguments {kind : TokenKind} (args : List TypeTree) (other : kind ≠ .less)
    (stop : NotNext kind back) : NotNext kind (TypeTree.argWords args ++ back) := by
  rw [TypeTree.argWords_eq_enclosed]
  exact notNext_enclosedWords _ other stop

theorem notNext_ending {kind : TokenKind} (ending : Ending) (noBracket : kind ≠ .leftBracket)
    (noEllipsis : kind ≠ .ellipsis) (noQuestion : kind ≠ .question) (noBang : kind ≠ .bang)
    (continues : endsTypeKind kind = false) (ends : ending.Closed ∨ EndsType back) :
    NotNext kind (ending.words ++ back) := by
  have behindDims : NotNext kind (markWords ending.mark ++ back) := by
    rcases ends with ⟨marked, _⟩ | ends
    · obtain ⟨mark, isMark⟩ := Option.isSome_iff_exists.mp marked
      rw [isMark]
      exact notNext_markWord mark noQuestion noBang
    · exact (marksBehind_markWords .legacy ending.mark).notNext kind back noQuestion noBang
        (ends.notNext continues)
  rw [Ending.words, List.append_assoc, List.append_assoc]
  exact notNext_dimWords _ noBracket (notNext_varargsWords _ noEllipsis behindDims)

theorem takes_ending {line : Nat} {name : String} {args : List TypeRef}
    {declared : Option Nullness} {ending : Ending}
    (agree : Agree (declared.toList ++ (ending.mark.map Mark.nullness).toList))
    (ends : ending.Closed ∨ EndsType back) :
    Takes mode good (typeSuffix line declared name args) ending.words back
      (· = { name, args, arrayDims := ending.dims, varargs := ending.varargs,
             nullness := (declared.toList ++
               (ending.mark.map Mark.nullness).toList).head?.getD mode.bare }) := by
  rcases ends with ⟨marked, isArray⟩ | ends
  · obtain ⟨dims, varargs, mark⟩ := ending
    obtain ⟨mark, rfl⟩ := Option.isSome_iff_exists.mp marked
    exact takes_arraySuffix isArray (takes_markWord mark)
      (notNext_markWord mark (by decide) (by decide))
      (notNext_markWord mark (by decide) (by decide)) (takes_settledMarks agree)
  · exact takes_typeSuffix ending.dims ending.varargs (marksBehind_markWords mode ending.mark)
      (fun _ => takes_settledMarks agree) ends

/-- What is read of a named type after the annotations before it. -/
theorem takes_namedBody {depth line : Nat} {declared : Option Nullness} {name : Name}
    {args : List TypeTree} {ending : Ending} (inner : ∀ type ∈ args, TreeTakes mode none type)
    (enough : (TypeTree.argWords args).length ≤ depth + 1)
    (agree : Agree (declared.toList ++ (ending.mark.map Mark.nullness).toList))
    (ends : ending.Closed ∨ EndsType back) :
    Takes mode good (typeBody depth line declared)
      (name.words ++ (TypeTree.argWords args ++ ending.words)) back
      (· = { name := name.text, args := TypeTree.typesIn mode args, arrayDims := ending.dims,
             varargs := ending.varargs,
             nullness := (declared.toList ++
               (ending.mark.map Mark.nullness).toList).head?.getD mode.bare }) := by
  have noQuestion : NotNext .question
      (name.words ++ (TypeTree.argWords args ++ ending.words) ++ back) :=
    notNext_of_ne TokenKind.noConfusion
  have noLess : NotNext .less (ending.words ++ back) :=
    notNext_ending ending (by decide) (by decide) (by decide) (by decide) rfl ends
  have noDot : NotNext .dot (TypeTree.argWords args ++ ending.words ++ back) := by
    rw [List.append_assoc]
    exact notNext_treeArguments args (by decide)
      (notNext_ending ending (by decide) (by decide) (by decide) (by decide) rfl ends)
  refine Takes.peek (takes_skip_not noQuestion) fun found none => ?_
  subst none
  refine (takes_name _ name noDot).bind fun found same => ?_
  subst same
  refine (takes_treeArguments inner enough noLess).bind fun found same => ?_
  subst same
  exact takes_ending agree ends

theorem head?_toList_append {α : Type} (first later : List α) :
    (first.head?.toList ++ later).head? = (first ++ later).head? := by
  cases first <;> rfl

theorem length_le_annotationsWords (annotations : List AnnotationTree) :
    annotations.length ≤ (annotationsWords annotations).length := by
  induction annotations with
  | nil => exact Nat.le_refl 0
  | cons use annotations ih =>
      simp only [annotationsWords, List.flatMap_cons, List.length_append, AnnotationTree.words,
        List.length_cons] at ih ⊢
      omega

/-- What is read of a type after the annotations before it, whose marks are `front`. -/
theorem treeTakes_of_body {declared : Option Nullness} {annotations : List AnnotationTree}
    {words : List Word} {type : TypeRef} {depth : Nat}
    (agree : Agree (declared.toList ++ annotations.filterMap AnnotationTree.nullness?))
    (ends : EndsAnnotation (words ++ back)) (noSign : NotNext .atSign (words ++ back))
    (body : ∀ line, Takes mode good (typeBody depth line
      (declared.toList ++ annotations.filterMap AnnotationTree.nullness?).head?) words back
      (· = type)) :
    Takes mode good (typeWithin (depth + 1) declared) (annotationsWords annotations ++ words) back
      (· = type) := by
  rw [typeWithin_succ]
  refine Takes.peek takes_currentLine fun line _ => ?_
  refine Takes.peek takes_remaining fun lexemes spells => ?_
  have enough : annotations.length ≤ lexemes.length := by
    have bound := length_le_annotationsWords annotations
    rw [← spells.length_eq]
    simp only [List.length_append]
    omega
  refine (takes_typeAnnotations agree enough ends noSign).bind fun found same => ?_
  subst same
  exact body line

mutual

theorem treeTakes (mode : NullMode) (declared : Option Nullness) : (type : TypeTree) →
    (∀ occurrence ∈ type.occurrences declared, occurrence.Sound) → TreeTakes mode declared type
  | .named annotations name args inner ending, sound => by
      obtain ⟨⟨behind, agree⟩, _⟩ := sound _ List.mem_cons_self
      have inArgs := treesTake mode args fun occurrence member =>
        sound occurrence (List.mem_cons_of_mem _ member)
      obtain rfl : inner = none := behind
      have marks := outerMarks_eq_carried declared annotations name args ending
      simp only [TypeTree.carried, TypeTree.annotations, TypeTree.ending] at agree marks
      intro good depth back enough ends
      have ends : ending.Closed ∨ EndsType back := ends
      have words : TypeTree.words (.named annotations name args none ending) =
          annotationsWords annotations ++
            (name.words ++ (TypeTree.argWords args ++ ending.words)) := by
        simp [TypeTree.words, markWords]
      rw [words] at enough ⊢
      simp only [List.length_append] at enough
      have filled : 0 < name.words.length := Nat.succ_pos _
      cases depth with
      | zero => omega
      | succ depth =>
          refine treeTakes_of_body (agree.subset ?_) (endsAnnotation_ident name.first _)
            (notNext_of_ne TokenKind.noConfusion) fun line => ?_
          · rw [← List.append_assoc]
            exact List.subset_append_left _ _
          · refine (takes_namedBody inArgs (by omega) (agree.subset ?_) ends).mono
              fun found same => ?_
            · rw [← List.append_assoc]
              refine List.append_subset.mpr ⟨fun mark member => ?_, List.subset_append_right _ _⟩
              exact List.mem_append_left _ (List.mem_of_mem_head? (by simpa using member))
            · rw [same, head?_toList_append, TypeTree.typeIn, marks, List.append_assoc]
  | .wildcard annotations bound ending, sound => by
      obtain ⟨⟨_, agree⟩, bare⟩ := sound _ List.mem_cons_self
      have inBound := boundTreeTakes mode bound fun occurrence member =>
        sound occurrence (List.mem_cons_of_mem _ member)
      obtain rfl : ending = {} := bare
      simp only [TypeTree.carried, TypeTree.annotations] at agree
      intro good depth back enough ends
      have ends : TypeTree.BoundEndsBefore back bound := ends
      have words : TypeTree.words (.wildcard annotations bound {}) =
          annotationsWords annotations ++ (.question :: TypeTree.boundWords bound) := by
        simp [TypeTree.words, Ending.words, dimWords, varargsWords, markWords]
      rw [words] at enough ⊢
      simp only [List.length_append, List.length_cons] at enough
      cases depth with
      | zero => omega
      | succ depth =>
          refine treeTakes_of_body (agree.subset ?_)
            (endsAnnotation_of_ne TokenKind.noConfusion TokenKind.noConfusion)
            (notNext_of_ne TokenKind.noConfusion) fun line => ?_
          · rw [← List.append_assoc]
            exact List.subset_append_left _ _
          · refine (takes_skip rfl).bind_word fun found wildcard => ?_
            subst wildcard
            refine (takes_treeBound inBound (by omega) ends).last fun found same => ?_
            subst same
            exact takes_pure rfl
termination_by structural type => type

theorem treesTake (mode : NullMode) : (types : List TypeTree) →
    (∀ occurrence ∈ TypeTree.argOccurrences types, occurrence.Sound) →
    ∀ type ∈ types, TreeTakes mode none type
  | [], _ => by
      intro type member
      cases member
  | type :: rest, sound => by
      have first := treeTakes mode none type fun occurrence member =>
        sound occurrence (List.mem_append_left _ member)
      have later := treesTake mode rest fun occurrence member =>
        sound occurrence (List.mem_append_right _ member)
      intro type' member
      rcases List.mem_cons.mp member with rfl | member
      · exact first
      · exact later type' member
termination_by structural types => types

theorem boundTreeTakes (mode : NullMode) : (bound : Bound TypeTree) →
    (∀ occurrence ∈ TypeTree.boundOccurrences bound, occurrence.Sound) →
    ∀ type, bound = .upper type ∨ bound = .lower type → TreeTakes mode none type
  | .unbounded, _ => by
      rintro type (same | same) <;> cases same
  | .upper type, sound => by
      have takes := treeTakes mode none type sound
      rintro type' (same | same)
      · cases same
        exact takes
      · cases same
  | .lower type, sound => by
      have takes := treeTakes mode none type sound
      rintro type' (same | same)
      · cases same
      · cases same
        exact takes
termination_by structural bound => bound

end

/-- A type with marks of its own and others stated apart from it. -/
theorem takes_typeTree {declared : Option Nullness} {type : TypeTree}
    (sound : ∀ occurrence ∈ type.occurrences declared, occurrence.Sound)
    (ends : type.EndsBefore back) :
    Takes mode good (typeRef declared) type.words back (· = type.typeIn mode declared) := by
  refine Takes.peek takes_remaining fun lexemes spells => ?_
  have enough : type.words.length ≤ lexemes.length := by
    rw [← spells.length_eq, List.length_append]
    omega
  exact treeTakes mode declared type sound good lexemes.length back enough ends

end Signature

end ApiCompat
