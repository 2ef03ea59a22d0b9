import ApiCompat.Proofs.Ordered.Insert
import ApiCompat.Proofs.Signature.Remnants
import ApiCompat.Signature.Classes

/-!
# Reading written supertypes

A list of supertypes ends at the word `implements`.  An interface that begins
with this word is read back only where it comes first.
-/

set_option autoImplicit false

namespace ApiCompat.Signature

open Reader

variable {mode : NullMode} {good : Prop} {back : List Word} {allowed : String → Prop}

/-! ## Lists of types -/

def StopsTypes (back : List Word) : Prop :=
  ∃ word later, back = word :: later ∧ (word.kind = .leftBrace ∨ word = .ident "implements")

def EndsSupertype (back : List Word) : Prop := EndsType back ∧ EndsWildcard back

theorem StopsTypes.endsSupertype (stops : StopsTypes back) : EndsSupertype back := by
  obtain ⟨word, later, rfl, isBrace | rfl⟩ := stops
  · simp [EndsSupertype, EndsWildcard, isBrace, endsTypeKind]
  · simp [EndsSupertype, EndsWildcard, Word.ident, endsTypeKind]

theorem StopsTypes.noComma (stops : StopsTypes back) : NotNext .comma back := by
  obtain ⟨word, later, rfl, isBrace | rfl⟩ := stops
  · simp [isBrace]
  · simp [Word.ident]

theorem endsSupertype_comma (later : List Word) : EndsSupertype (.comma :: later) := by
  simp [EndsSupertype, EndsWildcard, Word.comma, Word.punctuation, endsTypeKind]

def moreTypesWords (mode : NullMode) (types : List TypeRef) : List Word :=
  types.flatMap fun type => .comma :: typeWords mode type

theorem joinWords_types (mode : NullMode) (first : TypeRef) (types : List TypeRef) :
    joinWords [.comma] ((first :: types).map (typeWords mode)) =
      typeWords mode first ++ moreTypesWords mode types := by
  simp [joinWords, moreTypesWords, List.flatMap_map]

theorem moreTypesWords_append (mode : NullMode) (types others : List TypeRef) :
    moreTypesWords mode (types ++ others) =
      moreTypesWords mode types ++ moreTypesWords mode others := by
  simp [moreTypesWords]

theorem notImplements_typeWords (idents : Identifiers allowed) {type : TypeRef}
    (formed : type.Formed allowed) (other : type.beginsWithImplements mode = false) :
    NotNextWord "implements" (typeWords mode type ++ back) := by
  rw [typeWords_eq mode formed idents, List.append_assoc]
  obtain ⟨word, later, shape, which⟩ := ownTypeWords_cons mode type
  rcases beforeWords_cases mode type.nullness with ⟨nothing, unmarked⟩ | ⟨more, marked⟩
  · rw [nothing, shape]
    rcases which with rfl | rfl
    · simp [Word.question, Word.punctuation]
    · have notWord : firstPart type.name ≠ "implements" := by
        intro begins
        rcases unmarked with inMode | plain
        · simp [TypeRef.beginsWithImplements, begins, inMode] at other
        · simp [TypeRef.beginsWithImplements, begins, plain] at other
      simp [Word.ident, notWord]
  · rw [marked]
    simp [Word.atSign, Word.punctuation]

/-- A wildcard does not begin with the word. -/
theorem named_of_implements {type : TypeRef} (first : firstPart type.name = "implements") :
    type.name ≠ "?" := by
  intro wildcard
  rw [wildcard] at first
  exact absurd first (by decide)

theorem typeWords_implements (idents : Identifiers allowed) {type : TypeRef}
    (formed : type.Formed allowed) (begins : type.beginsWithImplements mode = true) :
    typeWords mode type = ownTypeWords mode type ∧ firstPart type.name = "implements" := by
  simp only [TypeRef.beginsWithImplements, Bool.and_eq_true, Bool.or_eq_true, beq_iff_eq] at begins
  obtain ⟨first, unmarked⟩ := begins
  refine ⟨?_, first⟩
  rw [typeWords_eq mode formed idents]
  rcases unmarked with rfl | plain
  · rfl
  · rw [plain]
    cases mode <;> rfl

/-- What is read of a list after the comma. -/
def typeListStep (rounds : Nat) : Reader (List TypeRef) := do
  match (← remaining).head? with
  | none => return []
  | some next =>
      if next.kind = .leftBrace || next.isWord "implements" then return []
      else
        let first ← plainType
        let later ← typeListRest rounds
        return first :: later

theorem typeListRest_succ (rounds : Nat) :
    typeListRest (rounds + 1) = skip? .comma >>= fun _ => typeListStep rounds :=
  rfl

theorem takes_typeListStep_stop {rounds : Nat} (stops : StopsTypes back) :
    Takes mode good (typeListStep rounds) [] back (· = []) := by
  refine takes_remaining.last fun lexemes spells => ?_
  obtain ⟨word, later, rfl, stop⟩ := stops
  cases spells with
  | @cons _ lexeme _ _ matched _ =>
      have ended : (decide (lexeme.kind = .leftBrace) || lexeme.isWord "implements") = true := by
        rcases stop with isBrace | rfl
        · simp [matched.1, isBrace]
        · simp [Lexeme.isWord, matched.1, matched.2.1, Word.ident]
      simp only [List.head?_cons, ended, if_true]
      exact takes_pure rfl

theorem takes_typeListStep {rounds : Nat} {words : List Word} {post : List TypeRef → Prop}
    (notBrace : NotNext .leftBrace (words ++ back))
    (notWord : NotNextWord "implements" (words ++ back)) (filled : words ++ back ≠ [])
    (takes : Takes mode good
      (do
        let first ← plainType
        let later ← typeListRest rounds
        return first :: later) words back post) :
    Takes mode good (typeListStep rounds) words back post := by
  refine Takes.peek takes_remaining fun lexemes spells => ?_
  cases shape : words ++ back with
  | nil => exact absurd shape filled
  | cons word later =>
      rw [shape] at spells notBrace notWord
      rw [notNext_cons] at notBrace
      rw [notNextWord_cons] at notWord
      cases spells with
      | @cons _ lexeme _ _ matched _ =>
          have continued :
              (decide (lexeme.kind = .leftBrace) || lexeme.isWord "implements") = false := by
            simp only [Bool.or_eq_false_iff, decide_eq_false_iff_not, Lexeme.isWord, matched.1,
              matched.2.1]
            exact ⟨notBrace, by simpa using notWord⟩
          simp only [List.head?_cons, continued, Bool.false_eq_true, if_false]
          exact takes

theorem takes_typeListRest (idents : Identifiers allowed) {types : List TypeRef}
    (formed : ∀ type ∈ types, type.Formed allowed)
    (others : ∀ type ∈ types, type.beginsWithImplements mode = false) {closing : List Word}
    (mayClose : closing = [] ∨ closing = [.comma]) (stops : StopsTypes back) {rounds : Nat}
    (enough : types.length < rounds) :
    Takes mode good (typeListRest rounds) (moreTypesWords mode types ++ closing) back
      (· = types) := by
  induction types generalizing rounds with
  | nil =>
      cases rounds with
      | zero => simp at enough
      | succ rounds =>
          rw [typeListRest_succ]
          rcases mayClose with rfl | rfl
          · exact Takes.peek (takes_skip_not stops.noComma) fun _ _ => takes_typeListStep_stop stops
          · exact (takes_skip rfl).bind_word fun _ _ => takes_typeListStep_stop stops
  | cons type types ih =>
      cases rounds with
      | zero => simp at enough
      | succ rounds =>
          have inner := formed type List.mem_cons_self
          have behind : EndsSupertype (moreTypesWords mode types ++ closing ++ back) := by
            cases types with
            | cons next types => exact endsSupertype_comma _
            | nil =>
                rcases mayClose with rfl | rfl
                · exact stops.endsSupertype
                · exact endsSupertype_comma _
          have words : moreTypesWords mode (type :: types) ++ closing =
              .comma :: (typeWords mode type ++ (moreTypesWords mode types ++ closing)) := by
            simp [moreTypesWords]
          rw [typeListRest_succ, words]
          refine (takes_skip rfl).bind_word fun _ _ => ?_
          apply takes_typeListStep
          · rw [List.append_assoc]
            exact notNext_typeWords idents inner (by decide) (by decide) (by decide)
          · rw [List.append_assoc]
            exact notImplements_typeWords idents inner (others type List.mem_cons_self)
          · obtain ⟨word, later, rfl, _⟩ := stops
            simp
          · refine (takes_plainType inner idents behind.1 fun _ => behind.2).bind
              fun found same => ?_
            subst same
            refine (ih (fun type member => formed type (List.mem_cons_of_mem _ member))
              (fun type member => others type (List.mem_cons_of_mem _ member))
              (Nat.lt_of_succ_lt_succ enough)).last fun later same => ?_
            subst same
            exact takes_pure rfl

/-- A list is read up to the first type, but for the one in front, that begins
with `implements`. -/
theorem takes_typeList (idents : Identifiers allowed) {first : TypeRef} {types : List TypeRef}
    (formedFirst : first.Formed allowed) (formed : ∀ type ∈ types, type.Formed allowed)
    (others : ∀ type ∈ types, type.beginsWithImplements mode = false) {closing : List Word}
    (mayClose : closing = [] ∨ closing = [.comma]) (stops : StopsTypes back) :
    Takes mode good typeList (typeWords mode first ++ (moreTypesWords mode types ++ closing)) back
      (· = first :: types) := by
  have behind : EndsSupertype (moreTypesWords mode types ++ closing ++ back) := by
    cases types with
    | cons next types => exact endsSupertype_comma _
    | nil =>
        rcases mayClose with rfl | rfl
        · exact stops.endsSupertype
        · exact endsSupertype_comma _
  refine (takes_plainType formedFirst idents behind.1 fun _ => behind.2).bind fun found same => ?_
  subst same
  refine Takes.peek takes_remaining fun lexemes spells => ?_
  have enough : types.length < lexemes.length := by
    have bound := length_le_flatMap types (typeWords mode) .comma
    obtain ⟨word, later, rfl, _⟩ := stops
    rw [← spells.length_eq]
    simp only [moreTypesWords, List.length_append, List.length_cons] at bound ⊢
    omega
  refine (takes_typeListRest idents formed others mayClose stops enough).last fun later same => ?_
  subst same
  exact takes_pure rfl

/-! ## Both clauses -/

def extendsClause (kind : ClassKind) : Reader (Option TypeRef × List TypeRef) := do
  if ← skipWord? "extends" then
    if kind = .interfaceKind then
      let types ← typeList
      pure (none, types)
    else
      let type ← plainType
      pure (some type, [])
  else pure (none, [])

def implementsClause : Reader (List TypeRef) := do
  if ← skipWord? "implements" then typeList else pure []

theorem supertypeClauses_eq (kind : ClassKind) :
    supertypeClauses kind =
      (do
        let (superclass, extended) ← extendsClause kind
        let implemented ← implementsClause
        return (superclass, (OrderedSet.ofList extended).insertAll implemented)) := by
  have joined : ∀ result : List TypeRef → Reader (Option TypeRef × OrderedSet TypeRef),
      (implementsClause >>= result) =
        skipWord? "implements" >>= fun found =>
          if found = true then typeList >>= result else pure [] >>= result := by
    intro result
    rw [implementsClause, bind_assoc]
    congr 1
    funext found
    cases found <;> rfl
  unfold supertypeClauses extendsClause
  simp only [joined]
  rw [bind_assoc]
  congr 1
  funext found
  cases found with
  | false => rfl
  | true =>
      by_cases isInterface : kind = .interfaceKind
      · simp only [isInterface, if_true, bind_assoc]
      · simp only [isInterface, if_true, if_false, bind_assoc]

theorem takes_extendsClause_none {kind : ClassKind} (stop : NotNextWord "extends" back) :
    Takes mode good (extendsClause kind) [] back (· = (none, [])) := by
  refine Takes.peek (takes_skipWord_not stop) fun found none => ?_
  subst none
  exact takes_pure rfl

theorem takes_implementsClause_none (stop : NotNextWord "implements" back) :
    Takes mode good implementsClause [] back (· = []) := by
  refine Takes.peek (takes_skipWord_not stop) fun found none => ?_
  subst none
  exact takes_pure rfl

/-- The superclass of a class that is no interface. -/
theorem takes_superclass (idents : Identifiers allowed) {kind : ClassKind}
    (other : kind ≠ .interfaceKind) {superclass : Option TypeRef}
    (formed : ∀ type ∈ superclass, type.Formed allowed) (stops : StopsTypes back) :
    Takes mode good (extendsClause kind) (typesWords mode "extends" superclass.toList) back
      (· = (superclass, [])) := by
  cases superclass with
  | none =>
      apply takes_extendsClause_none
      obtain ⟨word, later, rfl, isBrace | rfl⟩ := stops
      · simp [isBrace]
      · simp [Word.ident]
  | some type =>
      refine (takes_skipWord "extends").bind_word fun found taken => ?_
      subst taken
      rw [if_neg other]
      have ends := stops.endsSupertype
      have takes : Takes mode good plainType (typeWords mode type ++ []) back (· = type) := by
        rw [List.append_nil]
        exact takes_plainType (formed type rfl) idents ends.1 fun _ => ends.2
      refine takes.last fun found same => ?_
      subst same
      exact takes_pure rfl

/-- The interfaces that an interface extends. -/
theorem takes_extended (idents : Identifiers allowed) {first : TypeRef} {types : List TypeRef}
    (formedFirst : first.Formed allowed) (formed : ∀ type ∈ types, type.Formed allowed)
    (others : ∀ type ∈ types, type.beginsWithImplements mode = false) {closing : List Word}
    (mayClose : closing = [] ∨ closing = [.comma]) (stops : StopsTypes back) :
    Takes mode good (extendsClause .interfaceKind)
      (.ident "extends" :: (typeWords mode first ++ (moreTypesWords mode types ++ closing))) back
      (· = (none, first :: types)) := by
  refine (takes_skipWord "extends").bind_word fun found taken => ?_
  subst taken
  refine (takes_typeList idents formedFirst formed others mayClose stops).last fun found same => ?_
  subst same
  exact takes_pure rfl

theorem takes_implemented (idents : Identifiers allowed) {first : TypeRef} {types : List TypeRef}
    (formedFirst : first.Formed allowed) (formed : ∀ type ∈ types, type.Formed allowed)
    (others : ∀ type ∈ types, type.beginsWithImplements mode = false) {closing : List Word}
    (mayClose : closing = [] ∨ closing = [.comma]) (stops : StopsTypes back) :
    Takes mode good implementsClause
      (.ident "implements" :: (typeWords mode first ++ (moreTypesWords mode types ++ closing))) back
      (· = first :: types) := by
  refine (takes_skipWord "implements").bind_word fun found taken => ?_
  subst taken
  exact takes_typeList idents formedFirst formed others mayClose stops

/-- The supertypes of a class that is no interface. -/
theorem takes_classClauses (idents : Identifiers allowed) {kind : ClassKind}
    (other : kind ≠ .interfaceKind) {superclass : Option TypeRef}
    (formedSuperclass : ∀ type ∈ superclass, type.Formed allowed) {first : TypeRef}
    {types : List TypeRef} (formedFirst : first.Formed allowed)
    (formed : ∀ type ∈ types, type.Formed allowed)
    (others : ∀ type ∈ types, type.beginsWithImplements mode = false) {closing : List Word}
    (mayClose : closing = [] ∨ closing = [.comma]) (stops : StopsTypes back) :
    Takes mode good (supertypeClauses kind)
      (typesWords mode "extends" superclass.toList ++
        .ident "implements" :: (typeWords mode first ++ (moreTypesWords mode types ++ closing))) back
      (· = (superclass, OrderedSet.ofList (first :: types))) := by
  rw [supertypeClauses_eq]
  refine (takes_superclass idents other formedSuperclass ⟨_, _, rfl, .inr rfl⟩).bind
    fun found same => ?_
  subst same
  refine (takes_implemented idents formedFirst formed others mayClose stops).last
    fun found same => ?_
  subst same
  exact takes_pure rfl

theorem stopsTypes_brace (later : List Word) : StopsTypes (.leftBrace :: later) :=
  ⟨_, later, rfl, .inl rfl⟩

theorem supertypeWords_cons (mode : NullMode) (kind : ClassKind) (superclass : Option TypeRef)
    (first : TypeRef) (types : List TypeRef) :
    supertypeWords mode kind superclass (first :: types) =
      typesWords mode "extends" superclass.toList ++
        .ident (interfacesKeyword kind) :: (typeWords mode first ++ moreTypesWords mode types) := by
  rw [← joinWords_types]
  rfl

theorem interfacesKeyword_class {kind : ClassKind} (other : kind ≠ .interfaceKind) :
    interfacesKeyword kind = "implements" := by
  cases kind with
  | interfaceKind => exact absurd rfl other
  | classKind | enumKind | annotationKind => rfl

/-- Without the word `implements` the supertypes are those of the first clause. -/
theorem takes_onlyExtended {kind : ClassKind} {words : List Word} {superclass : Option TypeRef}
    {extended : List TypeRef} (stop : NotNextWord "implements" back)
    (takes : Takes mode good (extendsClause kind) words back (· = (superclass, extended))) :
    Takes mode good (supertypeClauses kind) words back
      (· = (superclass, OrderedSet.ofList extended)) := by
  rw [supertypeClauses_eq]
  refine takes.last fun found same => ?_
  subst same
  refine Takes.peek (takes_implementsClause_none stop) fun found same => ?_
  subst same
  exact takes_pure rfl

theorem takes_supertypeClauses (idents : Identifiers allowed) {kind : ClassKind}
    {superclass : Option TypeRef} {interfaces : OrderedSet TypeRef}
    (formedSuperclass : ∀ type ∈ superclass, type.Formed allowed)
    (formed : ∀ type ∈ interfaces.toList, type.Formed allowed)
    (noSuperclass : kind = .interfaceKind → superclass = none)
    (others : ∀ type ∈ interfaces.toList.tail, type.beginsWithImplements mode = false)
    (later : List Word) :
    Takes mode good (supertypeClauses kind)
      (supertypeWords mode kind superclass interfaces.toList) (.leftBrace :: later)
      (· = (superclass, interfaces)) := by
  have stops := stopsTypes_brace later
  have notImplements : NotNextWord "implements" (.leftBrace :: later) := by
    simp [Word.leftBrace, Word.punctuation]
  have notExtends : NotNextWord "extends" (.leftBrace :: later) := by
    simp [Word.leftBrace, Word.punctuation]
  have whole := OrderedSet.ofList_toList interfaces
  generalize interfaces.toList = listed at formed others whole ⊢
  subst whole
  by_cases isInterface : kind = .interfaceKind
  · obtain rfl := noSuperclass isInterface
    subst isInterface
    cases listed with
    | nil => exact takes_onlyExtended notImplements (takes_extendsClause_none notExtends)
    | cons first types =>
        obtain ⟨formedFirst, formedTypes⟩ := List.forall_mem_cons.mp formed
        have takes := @takes_extended mode good _ allowed idents first types formedFirst
          formedTypes others [] (.inl rfl) stops
        rw [List.append_nil] at takes
        rw [supertypeWords_cons]
        exact takes_onlyExtended notImplements takes
  · cases listed with
    | nil =>
        have takes : Takes mode good (extendsClause kind)
            (typesWords mode "extends" superclass.toList ++ []) (.leftBrace :: later)
            (· = (superclass, [])) := by
          rw [List.append_nil]
          exact takes_superclass idents isInterface formedSuperclass stops
        exact takes_onlyExtended notImplements takes
    | cons first types =>
        obtain ⟨formedFirst, formedTypes⟩ := List.forall_mem_cons.mp formed
        have takes := @takes_classClauses mode good _ allowed idents kind isInterface superclass
          formedSuperclass first types formedFirst formedTypes others [] (.inl rfl) stops
        rw [List.append_nil] at takes
        rw [supertypeWords_cons, interfacesKeyword_class isInterface]
        exact takes

/-! ## Lists that are not read back -/

/-- A list in which no type begins with `implements`, or what stands around the
first that does. -/
theorem implements_cases (mode : NullMode) (types : List TypeRef) :
    (∀ type ∈ types, type.beginsWithImplements mode = false) ∨
      ∃ before bad after, types = before ++ bad :: after ∧
        (∀ type ∈ before, type.beginsWithImplements mode = false) ∧
        bad.beginsWithImplements mode = true := by
  induction types with
  | nil => exact .inl (List.forall_mem_nil _)
  | cons type types ih =>
      cases begins : type.beginsWithImplements mode with
      | true => exact .inr ⟨[], type, types, rfl, List.forall_mem_nil _, begins⟩
      | false =>
          rcases ih with others | ⟨before, bad, after, rfl, others, beginsBad⟩
          · refine .inl fun inner member => ?_
            rcases List.mem_cons.mp member with rfl | later
            · exact begins
            · exact others inner later
          · refine .inr ⟨type :: before, bad, after, rfl, fun inner member => ?_, beginsBad⟩
            rcases List.mem_cons.mp member with rfl | later
            · exact begins
            · exact others inner later

theorem stopsTypes_implements (idents : Identifiers allowed) {type : TypeRef}
    (formed : type.Formed allowed) (begins : type.beginsWithImplements mode = true)
    (later : List Word) : StopsTypes (typeWords mode type ++ later) ∧
      NotNext .leftBrace (typeWords mode type ++ later) := by
  obtain ⟨own, first⟩ := typeWords_implements idents formed begins
  obtain ⟨tail, words, _⟩ := ownTypeWords_tail mode formed (named_of_implements first)
  rw [own, words, first]
  exact ⟨⟨_, _, rfl, .inr rfl⟩, notNext_of_ne TokenKind.noConfusion⟩

/-- The type that stands for what is left of `implements?`. -/
def wildcard : TypeRef := { name := "?" }

theorem formed_wildcard : wildcard.Formed allowed := .inl ⟨rfl, rfl, rfl, rfl, rfl, trivial⟩

/-- What is left of a list whose next type lost its first word: if it is read at
all, a wildcard takes the place of that type. -/
theorem takes_implementsRemnant {α : Type} (idents : Identifiers allowed) {tail : List Word}
    (remnant : tail = [] ∨ tail = [.question] ∨
      ∃ word later, tail = word :: later ∧ beginsTypeKind word.kind = false ∧
        endsTypeKind word.kind = false) {types : List TypeRef}
    (formed : ∀ type ∈ types, type.Formed allowed) {next : List TypeRef → Reader α}
    {later : List Word} {post : α → Prop}
    (fails : ∀ found words, NotNext .leftBrace words → Fails mode (next found) words)
    (rest : Takes mode False (next (wildcard :: types)) (.leftBrace :: later) back post) :
    Takes mode False (implementsClause >>= next)
      (.ident "implements" :: (tail ++ (moreTypesWords mode types ++ .leftBrace :: later))) back
      post := by
  have none : ∀ words, NoType words →
      Fails mode (implementsClause >>= next) (.ident "implements" :: words) := by
    intro words noType
    refine Fails.bind (Fails.after_word (takes_skipWord "implements") fun found taken => ?_)
    subst taken
    exact (fails_typeRef noType).bind
  rcases remnant with rfl | rfl | ⟨word, more, rfl, noType, _⟩
  · refine Fails.takes (none _ ?_) id
    cases types <;> exact (noType_cons _ _).mpr rfl
  · have words : typeWords mode wildcard = [.question] := by
      cases mode <;> rfl
    rcases implements_cases mode types with others | ⟨before, bad, after, rfl, others, begins⟩
    · have takes := @takes_implemented mode False _ allowed idents wildcard types formed_wildcard
        formed others [] (.inl rfl) (stopsTypes_brace (later ++ back))
      have whole : Takes mode False (implementsClause >>= next) (_ ++ .leftBrace :: later) back post :=
        Takes.bind takes fun found same => same ▸ rest
      simpa [words] using whole
    · have formedBad := formed bad (by simp)
      obtain ⟨stops, noBrace⟩ := stopsTypes_implements idents formedBad begins
        (moreTypesWords mode after ++ .leftBrace :: later ++ back)
      have takes := @takes_implemented mode False _ allowed idents wildcard before formed_wildcard
        (fun type member => formed type (List.mem_append_left _ member)) others [.comma] (.inr rfl)
        stops
      have whole := Fails.after takes fun found _ => fails found _ noBrace
      refine Fails.takes ?_ id
      rw [moreTypesWords_append]
      simpa [words, moreTypesWords] using whole
  · exact Fails.takes (none _ ((noType_cons _ _).mpr noType)) id

/-- Nothing stands for the type whose place the wildcard took. -/
theorem not_sameElements {interfaces : OrderedSet TypeRef} {first type : TypeRef}
    {before after : List TypeRef}
    (listed : interfaces.toList = first :: (before ++ type :: after)) (named : type ≠ wildcard) :
    ((OrderedSet.ofList (first :: before)).insertAll (wildcard :: after)).sameElements interfaces =
      false := by
  rw [← Bool.not_eq_true]
  intro same
  have stored : type ∈ interfaces.toList := by simp [listed]
  have distinct := interfaces.distinct
  rw [listed, ← List.cons_append, List.nodup_append] at distinct
  rcases OrderedSet.mem_insertAll (OrderedSet.mem_of_sameElements same stored) with inFront | inBack
  · rcases OrderedSet.mem_insertAll inFront with nowhere | inFront
    · cases nowhere
    · exact distinct.2.2 type inFront type List.mem_cons_self rfl
  · rcases List.mem_cons.mp inBack with isWildcard | inAfter
    · exact named isWildcard
    · exact (List.nodup_cons.mp distinct.2.1).1 inAfter

/-- A list of interfaces that is not rereadable is read as other interfaces, if at all. -/
theorem misreads_supertypes {α : Type} (idents : Identifiers allowed) {kind : ClassKind}
    {superclass : Option TypeRef} {interfaces : OrderedSet TypeRef}
    (formedSuperclass : ∀ type ∈ superclass, type.Formed allowed)
    (formed : ∀ type ∈ interfaces.toList, type.Formed allowed)
    (noSuperclass : kind = .interfaceKind → superclass = none)
    (bad : ¬∀ type ∈ interfaces.toList.tail, type.beginsWithImplements mode = false)
    {next : Option TypeRef × OrderedSet TypeRef → Reader α} {later : List Word} {post : α → Prop}
    (fails : ∀ found words, NotNext .leftBrace words → Fails mode (next found) words)
    (rest : ∀ found, found.sameElements interfaces = false →
      Takes mode False (next (superclass, found)) (.leftBrace :: later) back post) :
    Takes mode False (supertypeClauses kind >>= next)
      (supertypeWords mode kind superclass interfaces.toList ++ .leftBrace :: later) back post := by
  rcases implements_cases mode interfaces.toList.tail with
    others | ⟨before, type, after, split, others, begins⟩
  · exact absurd others bad
  cases listed : interfaces.toList with
  | nil => simp [listed] at split
  | cons first types =>
      obtain rfl : types = before ++ type :: after := by simpa [listed] using split
      have distinct := interfaces.distinct
      rw [listed] at formed distinct
      have formedFirst := formed first List.mem_cons_self
      have formedBefore : ∀ inner ∈ before, inner.Formed allowed :=
        fun inner member => formed inner (by simp [member])
      have formedType := formed type (by simp)
      have formedAfter : ∀ inner ∈ after, inner.Formed allowed :=
        fun inner member => formed inner (by simp [member])
      obtain ⟨stops, noBrace⟩ := stopsTypes_implements idents formedType begins
        (moreTypesWords mode after ++ .leftBrace :: later ++ back)
      rw [← List.append_assoc] at stops noBrace
      have words : supertypeWords mode kind superclass (first :: (before ++ type :: after)) ++
          .leftBrace :: later =
          typesWords mode "extends" superclass.toList ++
            (.ident (interfacesKeyword kind) :: (typeWords mode first ++
              (moreTypesWords mode before ++ [.comma])) ++
              (typeWords mode type ++ (moreTypesWords mode after ++ .leftBrace :: later))) := by
        simp [supertypeWords_cons, moreTypesWords]
      rw [words]
      by_cases isInterface : kind = .interfaceKind
      · obtain rfl := noSuperclass isInterface
        subst isInterface
        obtain ⟨own, isFirst⟩ := typeWords_implements idents formedType begins
        have named := named_of_implements isFirst
        obtain ⟨tail, shape, remnant⟩ := ownTypeWords_tail mode formedType named
        have takes := @takes_extended mode False _ allowed idents first before formedFirst
          formedBefore others [.comma] (.inr rfl) stops
        have noneWords : typesWords mode "extends" (none : Option TypeRef).toList = [] := rfl
        rw [supertypeClauses_eq, bind_assoc, noneWords, List.nil_append]
        refine Takes.bind takes fun found same => ?_
        subst same
        rw [own, shape, isFirst]
        show Takes mode False ((implementsClause >>= _) >>= next) _ back post
        rw [bind_assoc]
        refine takes_implementsRemnant idents remnant formedAfter
          (fun found words noBrace => fails _ words noBrace) (rest _ ?_)
        exact not_sameElements listed fun same => named (congrArg TypeRef.name same)
      · have takes := @takes_classClauses mode False _ allowed idents kind isInterface superclass
          formedSuperclass first before formedFirst formedBefore others [.comma] (.inr rfl) stops
        have whole := Fails.after takes fun found _ => fails found _ noBrace
        rw [interfacesKeyword_class isInterface]
        exact Fails.takes (by simpa using whole) id

end ApiCompat.Signature
