import ApiCompat.Proofs.Grammar.Declare
import ApiCompat.Proofs.Rerun.Members
import ApiCompat.Proofs.Signature.BlockLoop
import ApiCompat.Proofs.Signature.SupertypeTakes

/-!
# Reading classes twice

Both runs take the words of the same class.  Members are told apart by keys,
in which nullness takes no part, so both runs find the same duplicates.  What
is read has none: all its members have keys of their own.
-/

set_option autoImplicit false

namespace ApiCompat.Signature

open Reader Grammar

variable {run : Rerun} {lexemes : List Lexeme}

/-! ## The head of a class -/

theorem repeats_classKind :
    Repeats run lexemes classKind classKind fun words kind kind' =>
      kind' = kind ∧ words = kindWords kind := by
  refine (repeats_skipWord "class").bind fun found found' words rest taken _ => ?_
  obtain ⟨rfl, rfl⟩ := taken
  cases found' with
  | true => exact repeats_pure ⟨rfl, rfl⟩
  | false =>
      refine (repeats_skipWord "interface").bind fun found found' words rest taken _ => ?_
      obtain ⟨rfl, rfl⟩ := taken
      cases found' with
      | true => exact repeats_pure ⟨rfl, rfl⟩
      | false =>
          refine (repeats_skipWord "enum").bind fun found found' words rest taken _ => ?_
          obtain ⟨rfl, rfl⟩ := taken
          cases found' with
          | true => exact repeats_pure ⟨rfl, rfl⟩
          | false =>
              refine Repeats.remaining ?_
              match rest with
              | [] =>
                  refine fun _ => .inl ⟨_, rfl, fun alone => ?_⟩
                  rw [run.again_nil, alone]
                  simp [unexpected, Rerun.faultAgain, run.end_move alone]
              | [sign] =>
                  refine fun _ => .inl ⟨_, rfl, fun alone => ?_⟩
                  rw [run.again_cons, run.again_nil, alone]
                  simp [unexpected, Rerun.faultAgain, run.line_move, run.kind_move, run.text_move]
              | sign :: word :: rest =>
                  simp only [run.again_cons, run.kind_move, run.text_move]
                  by_cases declares : sign.kind = .atSign ∧ word.text = "interface"
                  · simp only [if_pos declares]
                    intro settled
                    have signStandard := settled.standard sign (by simp)
                    have wordStandard := settled.standard word (by simp)
                    have isSign : sign.bare = .atSign :=
                      signStandard.fixed .atSign (by rw [declares.1]; rfl)
                    have wordKind : word.kind = .identifier :=
                      wordStandard.identifier (by rw [declares.2]; decide)
                    have isWord : word.bare = .ident "interface" := by
                      simp [Lexeme.bare, Word.ident, wordKind, declares.2]
                    refine Repeats.continueWith [sign, word] (repeats_pure ?_) settled
                    exact ⟨rfl, by simp [isSign, isWord, kindWords]⟩
                  · simp only [if_neg declares]
                    exact repeats_unexpected .classKeyword

/-- The later types of a list, and whether a comma stands behind the last one. -/
structure RestOfList where
  later : List ListedType
  trailing : Bool

def RestOfList.words (list : RestOfList) : List Word :=
  list.later.flatMap ListedType.words ++ commaWords list.trailing

def RestOfList.typesIn (mode : NullMode) (list : RestOfList) : List TypeRef :=
  list.later.map fun listed => listed.type.plainIn mode

def RestOfList.sites (list : RestOfList) : List Site :=
  plainSites (list.later.map ListedType.type)

abbrev RestTold (run : Rerun) : List Word → List TypeRef → List TypeRef → Prop :=
  ToldBy (fun list : RestOfList => AllConsistent list.sites) RestOfList.words
    (RestOfList.typesIn run.mode) (RestOfList.typesIn run.mode')

theorem restTold_nil (run : Rerun) (comma : Bool) : RestTold run (commaWords comma) [] [] :=
  ⟨⟨[], comma⟩, List.forall_mem_nil _, by simp [RestOfList.words], rfl, rfl⟩

theorem typeListRest_nil (rounds : Nat) (context : Context) :
    typeListRest rounds context [] = .ok ([], []) := by
  cases rounds with
  | zero => rfl
  | succ rounds => rfl

theorem repeats_typeListStep {rounds rounds' : Nat}
    (later : ∀ rest : List Lexeme, rest.length < lexemes.length →
      Repeats run rest (typeListRest rounds) (typeListRest rounds') (RestTold run))
    (comma : Bool) :
    Repeats run lexemes (typeListStep rounds) (typeListStep rounds') fun words =>
      RestTold run (commaWords comma ++ words) := by
  have last : RestTold run (commaWords comma ++ []) [] [] := by
    rw [List.append_nil]
    exact restTold_nil run comma
  refine Repeats.remaining ?_
  cases lexemes with
  | nil =>
      intro settled
      refine .inr ⟨[], [], [], [], [], rfl, .nil, last, rfl, ?_⟩
      rintro (none | filled)
      · rw [run.again_nil, none]
        rfl
      · exact absurd rfl filled
  | cons next rest =>
      simp only [run.again_cons, List.head?_cons, run.kind_move, run.isWord_move]
      by_cases ends : (decide (next.kind = .leftBrace) || next.isWord "implements") = true
      · simp only [if_pos ends]
        exact repeats_pure last
      · simp only [if_neg ends]
        refine repeats_plainType.bind fun type type' words rest' told length => ?_
        obtain ⟨type, inType, rfl, rfl, rfl⟩ := told
        have positive := type.length_words_pos
        refine (later rest' (by omega)).bind fun types types' words rest told _ => ?_
        obtain ⟨list, inLater, rfl, rfl, rfl⟩ := told
        refine repeats_pure ⟨⟨⟨comma, type⟩ :: list.later, list.trailing⟩, ?_, ?_, rfl, rfl⟩
        · exact allConsistent_append.mpr ⟨inType, inLater⟩
        · simp [RestOfList.words, ListedType.words]

theorem repeats_typeListRest {rounds rounds' : Nat} (enough : lexemes.length ≤ rounds)
    (enough' : (run.again lexemes).length ≤ rounds') :
    Repeats run lexemes (typeListRest rounds) (typeListRest rounds') (RestTold run) := by
  induction rounds generalizing lexemes rounds' with
  | zero =>
      obtain rfl : lexemes = [] := List.length_eq_zero_iff.mp (Nat.le_zero.mp enough)
      exact repeats_atEnd (restTold_nil run false) rfl (typeListRest_nil rounds' run.context')
  | succ rounds ih =>
      cases rounds' with
      | zero =>
          obtain rfl := Rerun.eq_nil_of_again lexemes enough'
          exact repeats_atEnd (restTold_nil run false) (typeListRest_nil _ run.context) rfl
      | succ rounds' =>
          rw [typeListRest_succ, typeListRest_succ]
          rw [run.length_again] at enough'
          refine (repeats_skip rfl).bind fun comma comma' words rest taken length => ?_
          obtain ⟨rfl, rfl⟩ := taken
          have shorter : rest.length ≤ lexemes.length := by omega
          exact repeats_typeListStep
            (fun rest' fewer => ih (by omega) (by rw [run.length_again]; omega)) comma'

theorem repeats_typeList :
    Repeats run lexemes typeList typeList
      (ToldBy (fun list => AllConsistent (plainSites list.types)) TypeListTree.words
        (fun list => list.types.map (TypeTree.plainIn run.mode))
        fun list => list.types.map (TypeTree.plainIn run.mode')) := by
  refine repeats_plainType.bind fun type type' words rest told _ => ?_
  obtain ⟨first, inFirst, rfl, rfl, rfl⟩ := told
  refine Repeats.remaining ?_
  refine (repeats_typeListRest (Nat.le_refl _) (Nat.le_refl _)).bind
    fun types types' words rest told _ => ?_
  obtain ⟨list, inLater, rfl, rfl, rfl⟩ := told
  refine repeats_pure ⟨⟨first, list.later, list.trailing⟩, ?_, ?_, ?_, ?_⟩
  · exact allConsistent_append.mpr ⟨inFirst, inLater⟩
  · simp [TypeListTree.words, RestOfList.words]
  · simp [TypeListTree.types, RestOfList.typesIn]
  · simp [TypeListTree.types, RestOfList.typesIn]

def supertypesIn (mode : NullMode) (supertypes : SupertypesTree) :
    Option TypeRef × OrderedSet TypeRef :=
  (supertypes.superclass.map (TypeTree.plainIn mode),
    .ofList (supertypes.interfaces.map (TypeTree.plainIn mode)))

/-- What is read of supertypes behind what the class extends. -/
def implementedClause (superclass : Option TypeRef) (extended : List TypeRef) :
    Reader (Option TypeRef × OrderedSet TypeRef) := do
  let implemented ← if ← skipWord? "implements" then typeList else pure []
  return (superclass, (OrderedSet.ofList extended).insertAll implemented)

theorem supertypesIn_eq (mode : NullMode) (extension : Option ExtendsTree)
    (implemented : Option TypeListTree) :
    supertypesIn mode ⟨extension, implemented⟩ =
      ((supertypesIn mode ⟨extension, none⟩).1,
        (OrderedSet.ofList ((SupertypesTree.mk extension none).interfaces.map
          (TypeTree.plainIn mode))).insertAll
            ((implemented.elim [] TypeListTree.types).map (TypeTree.plainIn mode))) := by
  simp [supertypesIn, SupertypesTree.superclass, SupertypesTree.interfaces, OrderedSet.ofList,
    OrderedSet.insertAll]

abbrev SupertypesTold (run : Rerun) : List Word → Option TypeRef × OrderedSet TypeRef →
    Option TypeRef × OrderedSet TypeRef → Prop :=
  ToldBy (fun supertypes : SupertypesTree => AllConsistent supertypes.sites) SupertypesTree.words
    (supertypesIn run.mode) (supertypesIn run.mode')

theorem repeats_implementedClause {extension : Option ExtendsTree}
    (inExtension : AllConsistent (SupertypesTree.mk extension none).sites) :
    Repeats run lexemes
      (implementedClause (supertypesIn run.mode ⟨extension, none⟩).1
        ((SupertypesTree.mk extension none).interfaces.map (TypeTree.plainIn run.mode)))
      (implementedClause (supertypesIn run.mode' ⟨extension, none⟩).1
        ((SupertypesTree.mk extension none).interfaces.map (TypeTree.plainIn run.mode')))
      fun words => SupertypesTold run
        (clauseWords "extends" (extension.map ExtendsTree.words) ++ words) := by
  refine (repeats_skipWord "implements").bind fun found found' words rest taken _ => ?_
  obtain ⟨rfl, rfl⟩ := taken
  cases found' with
  | false =>
      exact repeats_pure ⟨⟨extension, none⟩, inExtension, rfl,
        (supertypesIn_eq _ extension none).symm, (supertypesIn_eq _ extension none).symm⟩
  | true =>
      refine repeats_typeList.bind fun types types' words rest told _ => ?_
      obtain ⟨list, inList, rfl, rfl, rfl⟩ := told
      refine repeats_pure ⟨⟨extension, some list⟩, ?_, ?_,
        (supertypesIn_eq _ extension (some list)).symm,
        (supertypesIn_eq _ extension (some list)).symm⟩
      · have both := allConsistent_append.mp inExtension
        refine allConsistent_append.mpr ⟨both.1, ?_⟩
        simp only [SupertypesTree.interfaces, Option.elim_none, List.append_nil] at both
        rw [SupertypesTree.interfaces, plainSites, List.flatMap_append]
        exact allConsistent_append.mpr ⟨both.2, inList⟩
      · simp [SupertypesTree.words, clauseWords]

theorem repeats_supertypeClauses (kind : ClassKind) :
    Repeats run lexemes (supertypeClauses kind) (supertypeClauses kind) (SupertypesTold run) := by
  refine (repeats_skipWord "extends").bind fun found found' words rest taken _ => ?_
  obtain ⟨rfl, rfl⟩ := taken
  cases found' with
  | false =>
      have inExtension : AllConsistent (SupertypesTree.mk none none).sites :=
        List.forall_mem_nil _
      exact repeats_implementedClause inExtension
  | true =>
      by_cases isInterface : kind = .interfaceKind
      · simp only [if_pos isInterface, if_true]
        refine repeats_typeList.bind fun types types' words rest told _ => ?_
        obtain ⟨list, inList, rfl, rfl, rfl⟩ := told
        have interfaces : (SupertypesTree.mk (some (.interfaces list)) none).interfaces =
            list.types := List.append_nil _
        have inExtension :
            AllConsistent (SupertypesTree.mk (some (.interfaces list)) none).sites := by
          rw [SupertypesTree.sites, interfaces]
          exact inList
        have behind := @repeats_implementedClause run rest _ inExtension
        rw [interfaces] at behind
        exact behind
      · simp only [if_neg isInterface, if_true]
        refine repeats_plainType.bind fun type type' words rest told _ => ?_
        obtain ⟨type, inType, rfl, rfl, rfl⟩ := told
        have inExtension :
            AllConsistent (SupertypesTree.mk (some (.superclass type)) none).sites := by
          simpa [SupertypesTree.sites, SupertypesTree.superclass, SupertypesTree.interfaces,
            plainSites] using inType
        exact repeats_implementedClause inExtension

/-- What is read of a class up to its opening brace. -/
structure ClassHead where
  line : Nat
  front : Preamble
  kind : ClassKind
  name : String
  typeParams : List TypeParam
  supertypes : Option TypeRef × OrderedSet TypeRef

def classHead : Reader ClassHead := do
  let line ← currentLine
  let front ← preamble
  let kind ← classKind
  let name ← qualifiedName .className
  let typeParams ← typeParams
  let supertypes ← supertypeClauses kind
  let _ ← expect .leftBrace
  return { line, front, kind, name, typeParams, supertypes }

/-- The class of a head and of the members behind its opening brace. -/
def ClassHead.with (package : String) (head : ClassHead)
    (members : OrderedMap MemberKey (Located Member)) : Located ClassDecl where
  line := head.line
  item := {
    name := head.name
    qualifiedName := qualify package head.name
    kind := head.kind
    modifiers := head.front.modifiers
    typeParams := head.typeParams
    superclass := head.supertypes.1
    interfaces := head.supertypes.2
    members }

def classBehind (package : String) (head : ClassHead) : Reader (Located ClassDecl) := do
  let lexemes ← remaining
  let members ← classBody head.line (qualify package head.name) lexemes.length .empty
  return head.with package members

theorem classDecl_eq (package : String) :
    classDecl package = classHead >>= classBehind package := by
  simp only [classHead, bind_assoc]
  rfl

def headIn (mode : NullMode) (cls : Located ClassTree) : ClassHead where
  line := cls.line
  front := frontPreamble cls.item.front
  kind := cls.item.kind
  name := cls.item.name.text
  typeParams := cls.item.typeParams.map (TypeParamTree.paramIn mode)
  supertypes := supertypesIn mode cls.item.supertypes

/-- What a reader has seen to when it has read the head of a class. -/
structure HeadSound (cls : ClassTree) : Prop where
  front : Agree (frontMarks cls.front)
  typeParams : AllConsistent (cls.typeParams.flatMap TypeParamTree.sites)
  supertypes : AllConsistent cls.supertypes.sites

abbrev HeadTold (run : Rerun) : List Word → ClassHead → ClassHead → Prop :=
  ToldBy (fun tree : Located ClassTree => HeadSound tree.item)
    (fun tree => tree.item.headWords ++ [.leftBrace]) (headIn run.mode)
    fun tree => headIn run.mode' (tree.move run.shift id)

theorem repeats_classHead : Repeats run lexemes classHead classHead (HeadTold run) := by
  refine repeats_currentLine.peek fun line line' same => ?_
  subst same
  refine repeats_preamble.bind fun front front' words rest told _ => ?_
  obtain ⟨front, agree, rfl, rfl, rfl⟩ := told
  refine repeats_classKind.bind fun kind kind' words rest taken _ => ?_
  obtain ⟨rfl, rfl⟩ := taken
  refine (repeats_qualifiedName .className).bind fun name name' words rest told _ => ?_
  obtain ⟨name, rfl, rfl, rfl⟩ := told
  refine repeats_typeParams.bind fun params params' words rest told _ => ?_
  obtain ⟨typeParams, inParams, rfl, rfl, rfl⟩ := told
  refine (repeats_supertypeClauses _).bind fun found found' words rest told _ => ?_
  obtain ⟨supertypes, inSupertypes, rfl, rfl, rfl⟩ := told
  refine (repeats_expect rfl).bind fun _ _ words rest taken _ => ?_
  subst taken
  refine repeats_pure ⟨⟨line, { front, kind := kind', name, typeParams, supertypes }⟩,
    ⟨agree, inParams, inSupertypes⟩, ?_, rfl, rfl⟩
  simp [ClassTree.headWords]

/-! ## Members and classes -/

/-- Members under a null mode, on the lines where the second run sees them. -/
def movedMembers (run : Rerun) (members : List (Located MemberTree)) :
    OrderedMap MemberKey (Located Member) :=
  (membersIn run.mode' members).mapValues (Located.move run.shift id)

def bodyWords (members : List (Located MemberTree)) : List Word :=
  members.flatMap (fun found => found.item.words) ++ [.rightBrace]

theorem length_memberWords_pos (member : MemberTree) : 0 < member.words.length :=
  Nat.succ_pos _

/-- A key that is not there is none of those that were read. -/
theorem distinct_concat {mode : NullMode} {prior : List (Located MemberTree)}
    {tree : Located MemberTree} (distinct : (prior.map fun found => found.item.key).Nodup)
    (absent : ¬(membersIn mode prior).contains tree.item.key = true) :
    ((prior ++ [tree]).map fun found => found.item.key).Nodup := by
  have keys : (membersIn mode prior).keys = prior.map fun found => found.item.key := by
    rw [OrderedMap.keys, entries_membersIn mode distinct, List.map_map]
    rfl
  rw [OrderedMap.contains_iff, keys] at absent
  rw [List.map_append, List.nodup_append]
  refine ⟨distinct, List.nodup_singleton _, ?_⟩
  rintro key stored last member rfl
  rw [List.map_singleton, List.mem_singleton] at member
  exact absent (member ▸ stored)

/-- The members behind those that were read before: all of them have keys of their own. -/
structure BodySound (prior members : List (Located MemberTree)) : Prop where
  consistent : ∀ found ∈ members, found.item.Consistent
  distinct : ((prior ++ members).map fun found => found.item.key).Nodup

theorem BodySound.cons {prior members : List (Located MemberTree)} {tree : Located MemberTree}
    (sound : BodySound (prior ++ [tree]) members) (consistent : tree.item.Consistent) :
    BodySound prior (tree :: members) where
  consistent := List.forall_mem_cons.mpr ⟨consistent, sound.consistent⟩
  distinct := by simpa using sound.distinct

theorem contains_movedMembers (run : Rerun) (members : List (Located MemberTree))
    (key : MemberKey) :
    (movedMembers run members).contains key = (membersIn run.mode members).contains key := by
  rw [movedMembers, OrderedMap.contains_mapValues]
  exact contains_membersIn run.mode' run.mode members key

theorem movedMembers_concat (run : Rerun) (members : List (Located MemberTree))
    (tree : Located MemberTree) :
    movedMembers run (members ++ [tree]) = (movedMembers run members).insert tree.item.key
      ⟨run.shift tree.line, tree.item.memberIn run.mode'⟩ := by
  rw [movedMembers, movedMembers, membersIn_concat, OrderedMap.mapValues_insert]
  rfl

/-- Where the lexemes end both runs fail, and the class is left open. -/
theorem repeats_openBody (line : Nat) (owner : String) (rounds rounds' : Nat)
    (members members' : OrderedMap MemberKey (Located Member))
    {post : List Word → OrderedMap MemberKey (Located Member) →
      OrderedMap MemberKey (Located Member) → Prop} :
    Repeats run [] (classBody line owner rounds members)
      (classBody (run.shift line) owner rounds' members') post := by
  refine fun _ => .inl ⟨_, (blockLoop_classBody line owner).atEnd _ _ _, fun alone => ?_⟩
  rw [run.again_nil, alone]
  exact (blockLoop_classBody (run.shift line) owner).atEnd _ _ _

theorem repeats_classBody {line line' rounds rounds' : Nat} (same : line' = run.shift line)
    (owner : String) (prior : List (Located MemberTree))
    (distinct : (prior.map fun found => found.item.key).Nodup) (enough : lexemes.length ≤ rounds)
    (enough' : (run.again lexemes).length ≤ rounds') :
    Repeats run lexemes (classBody line owner rounds (membersIn run.mode prior))
      (classBody line' owner rounds' (movedMembers run prior))
      (ToldBy (BodySound prior) bodyWords (fun members => membersIn run.mode (prior ++ members))
        fun members => movedMembers run (prior ++ members)) := by
  subst same
  induction rounds generalizing lexemes rounds' prior with
  | zero =>
      obtain rfl : lexemes = [] := List.length_eq_zero_iff.mp (Nat.le_zero.mp enough)
      exact repeats_openBody line owner 0 rounds' _ _
  | succ rounds ih =>
      cases lexemes with
      | nil => exact repeats_openBody line owner (rounds + 1) rounds' _ _
      | cons next later =>
          rw [run.length_again] at enough'
          simp only [List.length_cons] at enough enough'
          obtain ⟨rounds', rfl⟩ : ∃ fewer, rounds' = fewer + 1 :=
            Nat.exists_eq_succ_of_ne_zero (by omega)
          refine (repeats_skip rfl).bind fun found found' words rest taken length => ?_
          obtain ⟨rfl, rfl⟩ := taken
          cases found' with
          | true =>
              refine repeats_pure ⟨[], ⟨by simp, ?_⟩, rfl, by simp, by simp⟩
              rwa [List.append_nil]
          | false =>
              simp only [Bool.false_eq_true, if_false, List.length_nil, List.length_cons] at length
              refine Repeats.remaining ?_
              cases rest with
              | nil => simp at length
              | cons next' later' =>
                  refine repeats_member.bind fun found found' words rest told length' => ?_
                  obtain ⟨tree, consistent, rfl, rfl, rfl⟩ := told
                  have positive : 0 < ((fun tree : Located MemberTree => tree.item.words)
                      tree).length := length_memberWords_pos tree.item
                  simp only [MemberTree.key_memberIn, contains_movedMembers]
                  split
                  · exact repeats_failAt _ rfl
                  · next absent =>
                    have grown : (membersIn run.mode prior).insert tree.item.key
                        ⟨tree.line, tree.item.memberIn run.mode⟩ =
                        membersIn run.mode (prior ++ [tree]) :=
                      (membersIn_concat run.mode prior tree).symm
                    rw [grown, ← movedMembers_concat]
                    refine (ih (prior ++ [tree]) (distinct_concat distinct absent) (by omega)
                      (by rw [run.length_again]; omega)).mono fun words members members' told => ?_
                    obtain ⟨trees, sound, rfl, rfl, rfl⟩ := told
                    exact ⟨tree :: trees, sound.cons consistent, by simp [bodyWords], by simp,
                      by simp⟩

abbrev ClassTold (run : Rerun) (package : String) :
    List Word → Located ClassDecl → Located ClassDecl → Prop :=
  ToldBy (fun tree : Located ClassTree => tree.item.Consistent) (fun tree => tree.item.words)
    (Located.move id (ClassTree.classIn run.mode package))
    fun tree => (tree.move id (ClassTree.classIn run.mode' package)).move run.shift
      (ClassDecl.moved run.shift)

theorem repeats_classDecl (package : String) :
    Repeats run lexemes (classDecl package) (classDecl package) (ClassTold run package) := by
  rw [classDecl_eq]
  refine repeats_classHead.bind fun head head' words rest told _ => ?_
  obtain ⟨⟨line, cls⟩, head, rfl, rfl, rfl⟩ := told
  refine Repeats.remaining ?_
  refine (repeats_classBody rfl _ [] List.nodup_nil (Nat.le_refl _) (Nat.le_refl _)).bind
    fun members members' words rest told _ => ?_
  obtain ⟨members, sound, rfl, rfl, rfl⟩ := told
  refine repeats_pure ⟨⟨line, { cls with members }⟩, ⟨head.front, ?_, sound.distinct⟩, ?_, rfl, rfl⟩
  · refine allConsistent_append.mpr
      ⟨head.typeParams, allConsistent_append.mpr ⟨head.supertypes, ?_⟩⟩
    exact allConsistent_flatMap.mpr fun found member => (sound.consistent found member).sites
  · simp [ClassTree.words, ClassTree.headWords, bodyWords]

end ApiCompat.Signature
