import ApiCompat.Proofs.Accepts.Types
import ApiCompat.Proofs.Signature.Clauses
import Mathlib.Data.List.TakeWhile

/-!
# Members of the documented grammar are read

What stands in front of a member is read together with the annotations of its
own type, for the reader of modifiers does not know where the type begins.  The
key of the member that is read is the key of the tree.
-/

set_option autoImplicit false

namespace ApiCompat

namespace Grammar

open Signature

/-! ## The beginning of a type -/

namespace TypeTree

/-- The annotations that are read as if they stood in front of the member. -/
def leading (type : TypeTree) : List AnnotationTree :=
  type.annotations.takeWhile fun use => use.name.first != "interface"

/-- The type from the first annotation on that is not read so. -/
def behind : TypeTree → TypeTree
  | named annotations name args inner ending =>
      named (annotations.dropWhile fun use => use.name.first != "interface") name args inner ending
  | wildcard annotations bound ending =>
      wildcard (annotations.dropWhile fun use => use.name.first != "interface") bound ending

theorem words_eq_leading (type : TypeTree) :
    type.words = annotationsWords type.leading ++ type.behind.words := by
  have cut : ∀ annotations : List AnnotationTree, annotationsWords annotations =
      annotationsWords (annotations.takeWhile fun use => use.name.first != "interface") ++
        annotationsWords (annotations.dropWhile fun use => use.name.first != "interface") := by
    intro annotations
    rw [annotationsWords, annotationsWords, annotationsWords, ← List.flatMap_append,
      List.takeWhile_append_dropWhile]
  cases type with
  | named annotations name args inner ending =>
      rw [words, behind, words, leading, TypeTree.annotations, cut annotations, List.append_assoc]
  | wildcard annotations bound ending =>
      rw [words, behind, words, leading, TypeTree.annotations, cut annotations, List.append_assoc]

theorem annotations_eq_leading (type : TypeTree) :
    type.annotations = type.leading ++ type.behind.annotations := by
  cases type <;> exact (List.takeWhile_append_dropWhile).symm

theorem endsBefore_behind {type : TypeTree} {back : List Word} (ends : type.EndsBefore back) :
    type.behind.EndsBefore back := by
  cases type <;> exact ends

/-- Where other marks are stated apart from the type, it can still be read if they agree. -/
theorem sound_behind {type : TypeTree} {declared declared' : Option Nullness}
    (sound : ∀ occurrence ∈ type.occurrences declared, occurrence.Sound)
    (agree : Agree (type.behind.carried declared')) :
    ∀ occurrence ∈ type.behind.occurrences declared', occurrence.Sound := by
  cases type with
  | named annotations name args inner ending =>
      have own := sound _ List.mem_cons_self
      intro occurrence member
      rcases List.mem_cons.mp member with rfl | member
      · exact ⟨⟨own.behind, agree⟩, own.bare⟩
      · exact sound occurrence (List.mem_cons_of_mem _ member)
  | wildcard annotations bound ending =>
      have own := sound _ List.mem_cons_self
      intro occurrence member
      rcases List.mem_cons.mp member with rfl | member
      · exact ⟨⟨own.behind, agree⟩, own.bare⟩
      · exact sound occurrence (List.mem_cons_of_mem _ member)

end TypeTree

end Grammar

namespace Signature

open Reader Grammar

variable {mode : NullMode} {good : Prop} {back : List Word}

/-! ## In front of members -/

theorem endsAnnotation_front (front : List FrontTree) (ends : EndsAnnotation back) :
    EndsAnnotation (frontWords front ++ back) := by
  cases front with
  | nil => exact ends
  | cons tree front =>
      cases tree <;> exact endsAnnotation_of_ne TokenKind.noConfusion TokenKind.noConfusion

theorem takes_front {front : List FrontTree} {rounds : Nat} {sofar : Preamble}
    (clear : ∀ tree ∈ front, tree.Clear)
    (agree : Agree (sofar.nullness.toList ++ frontMarks front)) (enough : front.length ≤ rounds)
    (ends : EndsPreamble back ∧ EndsAnnotation back) :
    Takes mode good (preambleFrom rounds sofar) (frontWords front) back fun found =>
      found.nullness = (sofar.nullness.toList ++ frontMarks front).head? := by
  induction front generalizing rounds sofar with
  | nil =>
      refine (takes_preambleFrom_none rounds sofar ends.1).mono fun found same => ?_
      subst same
      simp [frontMarks]
  | cons tree front ih =>
      cases rounds with
      | zero => simp at enough
      | succ rounds =>
          have fewer : front.length ≤ rounds := Nat.le_of_succ_le_succ enough
          have later := fun next member => clear next (List.mem_cons_of_mem tree member)
          have words : frontWords (tree :: front) = tree.words ++ frontWords front :=
            List.flatMap_cons
          rw [words]
          cases tree with
          | modifier word =>
              have marks : frontMarks (.modifier word :: front) = frontMarks front := rfl
              rw [marks] at agree ⊢
              exact takes_preamble_modifier word.known (ih later agree fewer)
          | annotated use source =>
              have free : use.name.first ≠ "interface" := clear _ List.mem_cons_self
              obtain ⟨more, shape⟩ : ∃ more, use.words = .atSign :: .ident use.name.first :: more :=
                ⟨_, rfl⟩
              have takes : Takes mode True annotationUse use.words (frontWords front ++ back) _ :=
                takes_annotationTree use (endsAnnotation_front front ends.2)
              rw [FrontTree.words, shape]
              rw [shape] at takes
              cases meaning : use.nullness? with
              | none =>
                  have marks : frontMarks (.annotated use source :: front) = frontMarks front :=
                    List.filterMap_cons_none meaning
                  rw [marks] at agree ⊢
                  refine takes_preamble_kept (fun _ => True) rfl free meaning
                    (takes.mono fun _ named => ⟨named, trivial⟩) fun text _ => ?_
                  exact ih later agree fewer
              | some nullness =>
                  have marks : frontMarks (.annotated use source :: front) =
                      nullness :: frontMarks front := List.filterMap_cons_some meaning
                  rw [marks] at agree ⊢
                  obtain ⟨same, first⟩ := head?_agree agree
                  rw [first]
                  refine takes_preamble_marked rfl free meaning same takes ?_
                  exact ih later (agree.subset (List.subset_append_right _ _)) fewer

theorem length_le_frontWords (front : List FrontTree) :
    front.length ≤ (frontWords front).length := by
  induction front with
  | nil => exact Nat.le_refl 0
  | cons tree front ih =>
      have own : 0 < tree.words.length := by cases tree <;> exact Nat.succ_pos _
      simp only [frontWords, List.flatMap_cons, List.length_append, List.length_cons] at ih ⊢
      omega

theorem takes_preambleTree {front : List FrontTree} (clear : ∀ tree ∈ front, tree.Clear)
    (agree : Agree (frontMarks front)) (ends : EndsPreamble back ∧ EndsAnnotation back) :
    Takes mode good preamble (frontWords front) back fun found =>
      found.nullness = (frontMarks front).head? := by
  refine Takes.peek takes_remaining fun lexemes spells => ?_
  have enough : front.length ≤ lexemes.length := by
    have bound := length_le_frontWords front
    rw [← spells.length_eq, List.length_append]
    omega
  exact takes_front clear agree enough ends

/-! ## The type of a member -/

/-- What is left of the type when the annotations in front of it are read begins no
preamble. -/
theorem ends_behind {type : TypeTree} (start : type.ClearStart) (later : List Word) :
    EndsPreamble (type.behind.words ++ later) ∧ EndsAnnotation (type.behind.words ++ later) := by
  have annotated : ∀ (annotations : List AnnotationTree) (words : List Word) use rest,
      (annotations.dropWhile fun use => use.name.first != "interface") = use :: rest →
        EndsPreamble (annotationsWords (use :: rest) ++ words) ∧
          EndsAnnotation (annotationsWords (use :: rest) ++ words) := by
    intro annotations words use rest shape
    have first : use.name.first = "interface" := by
      have stop := List.head?_dropWhile_not (fun use => use.name.first != "interface") annotations
      rw [shape] at stop
      simpa using stop
    refine ⟨?_, endsAnnotation_of_ne TokenKind.noConfusion TokenKind.noConfusion⟩
    intro word next
    obtain rfl := Option.some.inj next
    exact ⟨fun _ => ⟨_, rfl, first⟩, TokenKind.noConfusion⟩
  cases type with
  | named annotations name args inner ending =>
      rw [TypeTree.behind, TypeTree.words, List.append_assoc]
      cases shape : annotations.dropWhile fun use => use.name.first != "interface" with
      | cons use rest => exact annotated annotations _ use rest shape
      | nil =>
          have noWord : ModifierWord.ofWord? name.first = none := by
            refine start fun use member => ?_
            simpa using List.dropWhile_eq_nil_iff.mp shape use member
          exact ends_ident noWord _
  | wildcard annotations bound ending =>
      rw [TypeTree.behind, TypeTree.words, List.append_assoc]
      cases shape : annotations.dropWhile fun use => use.name.first != "interface" with
      | cons use rest => exact annotated annotations _ use rest shape
      | nil =>
          exact ⟨endsPreamble_punctuation (by decide) (by decide) _,
            endsAnnotation_of_ne TokenKind.noConfusion TokenKind.noConfusion⟩

/-- The marks of the annotations before a type, read with those of its member. -/
theorem agree_leading {front : List FrontTree} {type : TypeTree} (agree : Agree (frontMarks front))
    (carried : Agree (type.carried (frontNullness front))) :
    Agree (frontMarks front ++ type.leading.filterMap AnnotationTree.nullness?) ∧
      Agree (type.behind.carried
        (frontMarks front ++ type.leading.filterMap AnnotationTree.nullness?).head?) := by
  have ending : type.behind.ending = type.ending := by cases type <;> rfl
  rw [TypeTree.carried, TypeTree.annotations_eq_leading type, List.filterMap_append,
    List.append_assoc, ← List.append_assoc] at carried
  constructor
  · exact agree.append (carried.subset (List.subset_append_left _ _))
  · rw [TypeTree.carried, ending]
    refine carried.subset (List.append_subset.mpr ⟨?_, List.subset_append_right _ _⟩)
    intro mark member
    refine List.mem_append_left _ ?_
    rw [← head?_toList_append] at member
    exact List.mem_of_mem_head? (by simpa [frontNullness, frontMarks] using member)

/-- The annotations of a front that are those of a type. -/
def leadingFront (type : TypeTree) : List FrontTree :=
  type.leading.map fun use => .annotated use ""

theorem takes_leadingFront {front : List FrontTree} {type : TypeTree}
    (clear : ∀ tree ∈ front, tree.Clear) (agree : Agree (frontMarks front))
    (carried : Agree (type.carried (frontNullness front))) (start : type.ClearStart) :
    Takes mode good preamble (frontWords front ++ annotationsWords type.leading)
      (type.behind.words ++ back) fun found => found.nullness =
        (frontMarks front ++ type.leading.filterMap AnnotationTree.nullness?).head? := by
  have words : frontWords (front ++ leadingFront type) =
      frontWords front ++ annotationsWords type.leading := by
    simp only [frontWords, leadingFront, List.flatMap_append, List.flatMap_map, annotationsWords]
    rfl
  have marks : frontMarks (front ++ leadingFront type) =
      frontMarks front ++ type.leading.filterMap AnnotationTree.nullness? := by
    simp only [frontMarks, leadingFront, List.filterMap_append, List.filterMap_map]
    rfl
  have whole := (agree_leading agree carried).1
  rw [← marks] at whole ⊢
  rw [← words]
  refine takes_preambleTree ?_ whole (ends_behind start back)
  intro tree member
  rcases List.mem_append.mp member with inFront | inType
  · exact clear tree inFront
  · obtain ⟨use, stored, rfl⟩ := List.mem_map.mp inType
    have passes := List.mem_takeWhile_imp stored
    simpa [FrontTree.Clear] using passes

/-! ## Parts of members -/

theorem takes_eachTree {types : List TypeTree}
    (sound : ∀ occurrence ∈ plainOccurrences types, occurrence.Sound) :
    EachTakes mode good TypeTree.words (TypeTree.plainIn mode) types :=
  fun type member _ ends wildcard =>
    takes_typeTree (fun occurrence inner => sound occurrence
      (List.mem_flatMap.mpr ⟨type, member, inner⟩)) (TypeTree.endsBefore_of ends wildcard type)

theorem notNext_treeWords {kind : TokenKind} (type : TypeTree) (noSign : kind ≠ .atSign)
    (noQuestion : kind ≠ .question) (noWord : kind ≠ .identifier) :
    NotNext kind (type.words ++ back) := by
  cases type with
  | named annotations name args inner ending =>
      cases annotations with
      | nil => exact notNext_of_ne noWord.symm
      | cons use annotations => exact notNext_of_ne noSign.symm
  | wildcard annotations bound ending =>
      cases annotations with
      | nil => exact notNext_of_ne noQuestion.symm
      | cons use annotations => exact notNext_of_ne noSign.symm

theorem takes_paramTree {param : TypeParamTree}
    (sound : ∀ occurrence ∈ plainOccurrences param.bounds, occurrence.Sound)
    (ends : EndsItem back) :
    Takes mode good typeParam param.words back (· = param.paramIn mode) := by
  obtain ⟨name, bounds⟩ := param
  have words : TypeParamTree.words ⟨name, bounds⟩ =
      .ident name :: listedWords "extends" .ampersand (bounds.map TypeTree.words) := by
    cases bounds <;> rfl
  rw [words]
  exact takes_boundedParam name (takes_eachTree sound) ends

theorem listWords_eq_enclosed (params : List TypeParamTree) :
    TypeParamTree.listWords params = enclosedWords (params.map TypeParamTree.words) := by
  cases params <;> rfl

theorem takes_paramTrees {params : List TypeParamTree}
    (sound : ∀ occurrence ∈ paramOccurrences params, occurrence.Sound)
    (stop : NotNext .less back) :
    Takes mode good typeParams (TypeParamTree.listWords params) back
      (· = params.map (TypeParamTree.paramIn mode)) := by
  rw [listWords_eq_enclosed, typeParams_eq]
  exact takes_enclosed EndsItem _ stop endsItem_enclosed fun param member later ends =>
    takes_paramTree (fun occurrence inner => sound occurrence
      (List.mem_flatMap.mpr ⟨param, member, inner⟩)) ends

/-- A name that is no word of the grammar may follow a wildcard. -/
theorem endsBefore_ident {text : String} (free : Name.Free { first := text }) (type : TypeTree)
    (later : List Word) : type.EndsBefore (.ident text :: later) := by
  have plain := free rfl
  have notExtends : text ≠ "extends" := by
    rintro rfl
    revert plain
    decide
  have notSuper : text ≠ "super" := by
    rintro rfl
    revert plain
    decide
  refine TypeTree.endsBefore_of ((endsType_cons _ later).mpr rfl) ⟨?_, ?_⟩ type
  · rw [notNextWord_cons]
    exact fun same => notExtends same.2
  · rw [notNextWord_cons]
    exact fun same => notSuper same.2

theorem takes_parameterTree {parameter : ParameterTree}
    (sound : ∀ occurrence ∈ parameter.type.occurrences none, occurrence.Sound)
    (free : ∀ text ∈ parameter.name, Name.Free { first := text }) (ends : EndsItem back) :
    Takes mode good Signature.parameter parameter.words back (· = parameter.parameterIn mode) := by
  obtain ⟨type, name⟩ := parameter
  refine takes_namedType (takes_typeTree sound ?_) fun _ => ends.noName
  cases name with
  | none => exact TypeTree.endsBefore_of ends.type ends.endsWildcard type
  | some text => exact endsBefore_ident (free text rfl) type back

theorem takes_parameterTrees {parameters : List ParameterTree}
    (sound : ∀ occurrence ∈ parameterOccurrences parameters, occurrence.Sound)
    (free : ∀ name ∈ parameterNames parameters, name.Free) :
    Takes mode good Signature.parameters (ParameterTree.listWords parameters) back
      (· = parameters.map (ParameterTree.parameterIn mode)) := by
  refine takes_parametersOf _ ?_ ?_
  · intro parameter member back
    rw [ParameterTree.words, List.append_assoc]
    exact notNext_treeWords parameter.type (by decide) (by decide) (by decide)
  · intro parameter member later ends
    refine takes_parameterTree (fun occurrence inner => sound occurrence ?_) ?_ ends
    · exact List.mem_flatMap.mpr ⟨_, List.mem_map_of_mem member, inner⟩
    · intro text named
      refine free _ (List.mem_map.mpr ⟨text, ?_, rfl⟩)
      exact List.mem_filterMap.mpr ⟨parameter, member, named⟩

theorem throwsWords_eq_listed (types : List TypeTree) :
    throwsWords types = listedWords "throws" .comma (types.map TypeTree.words) := by
  cases types <;> rfl

theorem takes_throwsTrees {types : List TypeTree}
    (sound : ∀ occurrence ∈ plainOccurrences types, occurrence.Sound)
    (ends : EndsClause "throws" .comma back) :
    Takes mode good throwsClause (throwsWords types) back
      (· = types.map (TypeTree.plainIn mode)) := by
  rw [throwsWords_eq_listed]
  exact takes_listed ⟨rfl, by decide⟩ (takes_eachTree sound) ends

theorem takes_valueTree {α : Type} {sign : Reader Bool} {word : Word} {value : Option ValueTree}
    {next : Option String → Reader α} {post : α → Prop}
    (present : ∀ back, Takes mode good sign [word] back (· = true))
    (absent : Takes mode good sign [] (.semicolon :: back) (· = false))
    (rest : ∀ value, Takes mode good (next value) [.semicolon] back post) :
    Takes mode good
      (do
        let value ← if ← sign then some <$> rawValue else pure none
        next value)
      (ValueTree.clauseWords word value ++ [.semicolon]) back post := by
  have words : ValueTree.clauseWords word value =
      signedWords word (value.map ValueTree.words) := by cases value <;> rfl
  rw [words]
  refine takes_valueClause (fun _ => True) ?_ (fun _ => trivial) present absent fun value _ =>
    rest value
  intro words written
  obtain ⟨tree, rfl, rfl⟩ := Option.map_eq_some_iff.mp written
  exact (takes_rawWords tree.filled tree.plain rfl).mono fun _ _ => trivial

/-! ## Members -/

theorem endsClause_value (value : Option ValueTree) (later : List Word) :
    EndsClause "throws" .comma
      (ValueTree.clauseWords (.ident "default") value ++ [.semicolon] ++ later) := by
  cases value with
  | none => exact endsClause_cons rfl (.inl (by decide)) (by decide) _
  | some value => exact endsClause_cons rfl (.inr (by decide)) (by decide) _

theorem takes_constructorTree {item : ConstructorTree}
    (names : ∀ name ∈ (MemberTree.constructor item).names, name.Free)
    (sound : ∀ occurrence ∈ (MemberTree.constructor item).occurrences, occurrence.Sound)
    (clear : (MemberTree.constructor item).Clear) :
    Takes mode good Signature.constructor item.words back fun found =>
      found.parameters = item.parameters.map (ParameterTree.parameterIn mode) := by
  have start := clear.start
  obtain ⟨front, typeParams, name, parameters, throws⟩ := item
  simp only [MemberTree.occurrences, List.forall_mem_append] at sound
  obtain ⟨inParams, inParameters, inThrows⟩ := sound
  refine (takes_preambleTree clear.front clear.agree ?_).bind fun front _ => ?_
  · cases typeParams with
    | nil => exact ends_ident (start rfl) _
    | cons param params => exact ends_less _
  refine (takes_paramTrees inParams (notNext_of_ne TokenKind.noConfusion)).bind fun _ _ => ?_
  refine (takes_name _ name (notNext_of_ne TokenKind.noConfusion)).bind fun found _ => ?_
  refine (takes_parameterTrees inParameters fun name member => names name ?_).bind
    fun found same => ?_
  · simp [MemberTree.names, member]
  have ends : EndsClause "throws" .comma ([.semicolon] ++ back) :=
    endsClause_cons rfl (.inl (by decide)) (by decide) _
  refine (takes_throwsTrees inThrows ends).bind fun _ _ => ?_
  exact (takes_expect rfl).last fun _ _ => takes_pure same

/-- What is read of a member up to its own type: then what is left of the type can be read. -/
theorem takes_ownTree {α : Type} {front : List FrontTree} {type : TypeTree} {words : List Word}
    {next : Preamble → Reader α} {post : α → Prop} (clear : ∀ tree ∈ front, tree.Clear)
    (agree : Agree (frontMarks front))
    (sound : ∀ occurrence ∈ type.occurrences (frontNullness front), occurrence.Sound)
    (start : type.ClearStart) (ends : type.EndsBefore (words ++ back))
    (rest : ∀ found : Preamble, (Takes mode good (typeRef found.nullness) type.behind.words
        (words ++ back) fun _ => True) →
      Takes mode good (next found) (type.behind.words ++ words) back post) :
    Takes mode good (preamble >>= next) (frontWords front ++ (type.words ++ words)) back post := by
  have carried : Agree (type.carried (frontNullness front)) := by
    cases type <;> exact (sound _ List.mem_cons_self).agree
  have own := TypeTree.sound_behind sound (agree_leading agree carried).2
  have cut : frontWords front ++ (type.words ++ words) =
      frontWords front ++ annotationsWords type.leading ++ (type.behind.words ++ words) := by
    rw [TypeTree.words_eq_leading type]
    simp
  have takesFront := @takes_leadingFront mode good (words ++ back) front type clear agree carried
    start
  rw [← List.append_assoc type.behind.words] at takesFront
  rw [cut]
  refine takesFront.bind fun found same => rest found ?_
  rw [same]
  exact (takes_typeTree own (TypeTree.endsBefore_behind ends)).mono fun _ _ => trivial

/-- What is read of a method up to its own type. -/
theorem takes_genericTree {α : Type} {front : List FrontTree} {params : List TypeParamTree}
    {type : TypeTree} {words : List Word} {next : Preamble → List TypeParam → TypeRef → Reader α}
    {post : α → Prop} (clear : ∀ tree ∈ front, tree.Clear) (agree : Agree (frontMarks front))
    (inParams : ∀ occurrence ∈ paramOccurrences params, occurrence.Sound)
    (sound : ∀ occurrence ∈ type.occurrences (frontNullness front), occurrence.Sound)
    (start : params = [] → type.ClearStart) (ends : type.EndsBefore (words ++ back))
    (rest : ∀ front params type, Takes mode good (next front params type) words back post) :
    Takes mode good
      (do
        let front ← preamble
        let params ← typeParams
        let type ← typeRef front.nullness
        next front params type)
      (frontWords front ++ (TypeParamTree.listWords params ++ (type.words ++ words))) back post := by
  cases params with
  | nil =>
      have noLess : NotNext .less (type.behind.words ++ words ++ back) := by
        rw [List.append_assoc]
        exact notNext_treeWords type.behind (by decide) (by decide) (by decide)
      refine takes_ownTree clear agree sound (start rfl) ends fun found takesType => ?_
      refine Takes.peek (takes_typeParams_none noLess) fun params _ => ?_
      exact takesType.bind fun type _ => rest found params type
  | cons param params =>
      have noLess : NotNext .less (type.words ++ words ++ back) := by
        rw [List.append_assoc]
        exact notNext_treeWords type (by decide) (by decide) (by decide)
      refine (takes_preambleTree clear agree (ends_less _)).bind fun found same => ?_
      refine (takes_paramTrees inParams noLess).bind fun params _ => ?_
      rw [same]
      exact (takes_typeTree sound ends).bind fun type _ => rest found params type

theorem takes_methodTree {item : MethodTree}
    (names : ∀ name ∈ (MemberTree.method item).names, name.Free)
    (sound : ∀ occurrence ∈ (MemberTree.method item).occurrences, occurrence.Sound)
    (documented : (MemberTree.method item).Documented) (clear : (MemberTree.method item).Clear) :
    Takes mode good Signature.method item.words back fun found => found.name = item.name ∧
      found.parameters = item.parameters.map (ParameterTree.parameterIn mode) := by
  have start := clear.start
  simp only [MemberTree.occurrences, List.forall_mem_append] at sound
  obtain ⟨inParams, inReturn, inParameters, inThrows⟩ := sound
  have free : Name.Free { first := item.name } := names _ List.mem_cons_self
  refine takes_genericTree clear.front documented inParams inReturn start
    (endsBefore_ident free item.returnType _) fun front params type => ?_
  refine (takes_identifier _ item.name).bind_word fun name text => ?_
  refine (takes_parameterTrees inParameters fun name member => names name ?_).bind
    fun parameters same => ?_
  · simp [MemberTree.names, member]
  refine (takes_throwsTrees inThrows (endsClause_value item.defaultValue back)).bind
    fun throws _ => ?_
  refine takes_valueTree (fun _ => takes_skipWord "default") (takes_skipWord_not ?_)
    fun value => ?_
  · simp [Word.semicolon, Word.punctuation]
  · exact (takes_expect rfl).last fun _ _ => takes_pure ⟨text, same⟩

theorem takes_fieldTree {item : FieldTree}
    (names : ∀ name ∈ (MemberTree.field item).names, name.Free)
    (sound : ∀ occurrence ∈ (MemberTree.field item).occurrences, occurrence.Sound)
    (documented : (MemberTree.field item).Documented) (clear : (MemberTree.field item).Clear)
    (isEnumConstant : Bool) :
    Takes mode good (Signature.field isEnumConstant) item.words back fun found =>
      found.name = item.name := by
  have free : Name.Free { first := item.name } := names _ List.mem_cons_self
  refine takes_ownTree clear.front documented.1 sound clear.start
    (endsBefore_ident free item.type _) fun front takesType => takesType.bind fun type _ => ?_
  refine (takes_identifier _ item.name).bind_word fun name text => ?_
  refine takes_valueTree (fun _ => takes_skip rfl) (takes_skip_not ?_) fun value => ?_
  · simp [Word.semicolon, Word.punctuation]
  · exact (takes_expect rfl).last fun _ _ => takes_pure text

/-- A member is read under its own key. -/
theorem takes_memberTree {member : MemberTree} (names : ∀ name ∈ member.names, name.Free)
    (sound : ∀ occurrence ∈ member.occurrences, occurrence.Sound)
    (documented : member.Documented) (clear : member.Clear) :
    Takes mode good Signature.member member.words back fun found =>
      found.item.key = member.key := by
  rw [← MemberTree.key_memberIn mode]
  cases member with
  | constructor item =>
      refine (takes_identifier _ "ctor").bind_word fun keyword text => ?_
      simp only [text]
      refine (takes_constructorTree names sound clear).last fun found same => takes_pure ?_
      simp only [Member.key, same]
      rfl
  | method item =>
      refine (takes_identifier _ "method").bind_word fun keyword text => ?_
      simp only [text]
      refine (takes_methodTree names sound documented clear).last fun found same => takes_pure ?_
      simp only [Member.key, same]
      rfl
  | field item =>
      refine takes_fieldMember (fun found => found.key = (MemberTree.field item).key)
        ((takes_fieldTree names sound documented clear item.isEnumConstant).mono ?_)
      intro found same
      simp only [Member.key, same]
      rfl

end Signature

end ApiCompat
