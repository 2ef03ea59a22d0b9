import ApiCompat.Proofs.Api.Merge
import ApiCompat.Proofs.Faults.Blocks

/-!
# Blocks, item by item

What is read of a block is what is read of its items, one behind the other, up
to the closing brace (`InTurn`).  Each item is read from its own piece of the
lexemes.  So reading a class is reading its head and its members in turn, and
reading a text is reading its package blocks in turn
(`readPackages_eq_ok_iff`).
-/

set_option autoImplicit false

namespace ApiCompat.Signature

open Reader

/-- The values are read one after the other, each from a piece of the lexemes that is no closing
brace, and `rest` is left. -/
inductive InTurn {τ : Type} (reads : List Lexeme → τ → List Lexeme → Prop) (rest : List Lexeme) :
    List Lexeme → List τ → Prop
  | done : InTurn reads rest rest []
  | step {first : Lexeme} {piece behind : List Lexeme} {value : τ} {values : List τ}
      (begins : first.kind ≠ .rightBrace) (read : reads (first :: piece ++ behind) value behind)
      (later : InTurn reads rest behind values) :
      InTurn reads rest (first :: piece ++ behind) (value :: values)

abbrev ReadBy {α : Type} (context : Context) (reader : Reader α) (lexemes : List Lexeme)
    (value : α) (rest : List Lexeme) : Prop :=
  reader context lexemes = .ok (value, rest)

def Advances {α : Type} (reader : Reader α) : Prop :=
  ∀ context lexemes value rest, reader context lexemes = .ok (value, rest) →
    ∃ first piece, lexemes = first :: piece ++ rest

section InTurn

variable {τ : Type} {reads : List Lexeme → τ → List Lexeme → Prop} {lexemes rest : List Lexeme}
  {values : List τ}

theorem InTurn.suffix (inTurn : InTurn reads rest lexemes values) : rest <:+ lexemes := by
  induction inTurn with
  | done => exact List.suffix_rfl
  | step begins read later ih => exact ih.trans (List.suffix_append _ _)

theorem InTurn.length_le (inTurn : InTurn reads rest lexemes values) :
    values.length + rest.length ≤ lexemes.length := by
  induction inTurn with
  | done => simp
  | step begins read later ih =>
      simp only [List.length_cons, List.length_append]
      omega

/-- Where one of the values was read, behind those before it. -/
theorem InTurn.place (inTurn : InTurn reads rest lexemes values) :
    ∀ value ∈ values, ∃ earlier start behind later, values = earlier ++ value :: later ∧
      InTurn reads start lexemes earlier ∧ reads start value behind ∧
      InTurn reads rest behind later := by
  induction inTurn with
  | done => simp
  | @step first piece behind value values begins read later ih =>
      refine List.forall_mem_cons.mpr ⟨?_, fun other member => ?_⟩
      · exact ⟨[], _, behind, values, rfl, .done, read, later⟩
      · obtain ⟨earlier, start, behind', later', rfl, before, there, after⟩ := ih other member
        exact ⟨value :: earlier, start, behind', later', rfl, .step begins read before, there,
          after⟩

end InTurn

/-! ## Readers that advance -/

section Advances

variable {α β : Type} {reader : Reader α} {next : α → Reader β}

theorem Advances.bind (first : Advances reader) (second : ∀ value, Careful (next value)) :
    Advances (reader >>= next) := by
  intro context lexemes value rest read
  obtain ⟨found, behind, readFirst, readNext⟩ := bind_eq_ok read
  obtain ⟨head, piece, rfl⟩ := first context lexemes found behind readFirst
  obtain ⟨more, rfl⟩ := (second found behind).leaves context value rest readNext
  exact ⟨head, piece ++ more, by simp⟩

theorem Advances.behind (first : Careful reader) (second : ∀ value, Advances (next value)) :
    Advances (reader >>= next) := by
  intro context lexemes value rest read
  obtain ⟨found, behind, readFirst, readNext⟩ := bind_eq_ok read
  obtain ⟨more, rfl⟩ := (first lexemes).leaves context found behind readFirst
  obtain ⟨head, piece, rfl⟩ := second found context behind value rest readNext
  cases more with
  | nil => exact ⟨head, piece, rfl⟩
  | cons start more => exact ⟨start, more ++ head :: piece, by simp⟩

theorem Advances.rest_ne (advances : Advances reader) {context : Context}
    {lexemes rest : List Lexeme} {value : α} (read : reader context lexemes = .ok (value, rest)) :
    rest ≠ lexemes := by
  rintro rfl
  obtain ⟨first, piece, whole⟩ := advances context _ value _ read
  have lengths := congrArg List.length whole
  simp only [List.length_append, List.length_cons] at lengths
  omega

theorem advances_remaining {loop : List Lexeme → Reader β}
    (loops : ∀ lexemes, Advances (loop lexemes)) : Advances (remaining >>= loop) :=
  fun context lexemes value rest read => loops lexemes context lexemes value rest read

/-- A choice by whether a lexeme was taken; if none was, the other reader takes one. -/
theorem Advances.branch {test : Reader Bool} {yes no : Reader β}
    (takes : ∀ context lexemes rest, test context lexemes = .ok (true, rest) →
      ∃ next, lexemes = next :: rest)
    (careful : Careful test) (ifYes : Careful yes) (ifNo : Advances no) :
    Advances (test >>= fun found => if found = true then yes else no) := by
  intro context lexemes value rest read
  obtain ⟨found, behind, readTest, readNext⟩ := bind_eq_ok read
  cases found with
  | true =>
      obtain ⟨next, rfl⟩ := takes context lexemes behind readTest
      obtain ⟨more, rfl⟩ := (ifYes behind).leaves context value rest readNext
      exact ⟨next, more, rfl⟩
  | false =>
      obtain ⟨more, rfl⟩ := (careful lexemes).leaves context false behind readTest
      obtain ⟨head, piece, rfl⟩ := ifNo context behind value rest readNext
      cases more with
      | nil => exact ⟨head, piece, rfl⟩
      | cons start more => exact ⟨start, more ++ head :: piece, by simp⟩

end Advances

theorem advances_expectKind {kind : TokenKind} {expected : Expected} :
    Advances (expectKind kind expected) := by
  intro context lexemes value rest read
  obtain ⟨rfl, _⟩ := expectKind_eq_ok read
  exact ⟨value, [], rfl⟩

theorem advances_member : Advances member := by
  refine advances_expectKind.bind fun keyword => ?_
  dsimp only
  split
  · exact careful_constructor.bind fun _ => careful_pure
  · exact careful_method.bind fun _ => careful_pure
  · exact careful_field.bind fun _ => careful_pure
  · exact careful_field.bind fun _ => careful_pure
  · exact careful_failAt fun _ _ => trivial

theorem advances_classHead : Advances classHead := by
  refine .behind careful_currentLine fun line => .behind careful_preamble fun front => ?_
  refine .behind careful_classKind fun kind => .behind careful_qualifiedName fun name => ?_
  refine .behind careful_typeParams fun typeParams => ?_
  refine .behind (careful_supertypeClauses kind) fun supertypes => ?_
  exact advances_expectKind.bind fun _ => careful_pure

/-! ## The items of a block -/

section Loop

variable {κ α : Type} [DecidableEq κ] {key : α → κ} {item : Reader (Located α)} {line : Nat}
  {unterminated : Reason} (reason : α → Reason) {context : Context} {lexemes rest : List Lexeme}
  {body : Nat → OrderedMap κ (Located α) → Reader (OrderedMap κ (Located α))}

theorem blockItem_eq_ok_iff {later : OrderedMap κ (Located α) → Reader (OrderedMap κ (Located α))}
    {map result : OrderedMap κ (Located α)} :
    blockItem key item (fun found => reason found.item) later map context lexemes =
        .ok (result, rest) ↔
      ∃ found behind map', item context lexemes = .ok (found, behind) ∧
        addFound key reason map found = .ok map' ∧
        later map' context behind = .ok (result, rest) := by
  constructor
  · intro read
    obtain ⟨found, behind, first, read⟩ := bind_eq_ok read
    by_cases present : map.contains (key found.item) = true
    · rw [if_pos present] at read
      cases read
    · rw [if_neg present] at read
      exact ⟨found, behind, _, first, by rw [addFound, if_neg present], read⟩
  · rintro ⟨found, behind, map', first, added, read⟩
    rw [blockItem, bind_ok first]
    unfold addFound at added
    split at added
    · cases added
    · next absent =>
        obtain rfl := Except.ok.inj added
        rw [if_neg absent]
        exact read

/-- A block that is read ends in a brace, and its items were read in turn. -/
theorem inTurn_of_block
    (loop : BlockLoop key item line unterminated (fun found => reason found.item) body)
    (advances : Advances item) {rounds : Nat} {map result : OrderedMap κ (Located α)}
    (read : body rounds map context lexemes = .ok (result, rest)) :
    ∃ founds close, close.kind = .rightBrace ∧
      InTurn (ReadBy context item) (close :: rest) lexemes founds ∧
      founds.foldlM (addFound key reason) map = .ok result := by
  induction rounds generalizing map lexemes with
  | zero =>
      rw [loop.zero] at read
      cases read
  | succ rounds ih =>
      cases lexemes with
      | nil =>
          rw [loop.atEnd] at read
          cases read
      | cons next later =>
          by_cases closes : next.kind = .rightBrace
          · rw [loop.close closes] at read
            obtain ⟨rfl, rfl⟩ := Prod.mk.inj (Except.ok.inj read)
            exact ⟨[], next, closes, .done, rfl⟩
          · rw [loop.goOn closes] at read
            obtain ⟨found, behind, map', first, added, read⟩ := (blockItem_eq_ok_iff reason).mp read
            obtain ⟨founds, close, isClose, inTurn, stored⟩ := ih read
            obtain ⟨head, piece, whole⟩ := advances context _ found behind first
            obtain ⟨rfl, rfl⟩ := List.cons.inj whole
            refine ⟨found :: founds, close, isClose, .step closes first inTurn, ?_⟩
            rw [List.foldlM_cons, added]
            exact stored

/-- Items that are read in turn up to a brace are read as a block. -/
theorem block_of_inTurn
    (loop : BlockLoop key item line unterminated (fun found => reason found.item) body)
    {close : Lexeme} (isClose : close.kind = .rightBrace) {founds : List (Located α)}
    (inTurn : InTurn (ReadBy context item) (close :: rest) lexemes founds) {rounds : Nat}
    (enough : founds.length < rounds) {map result : OrderedMap κ (Located α)}
    (stored : founds.foldlM (addFound key reason) map = .ok result) :
    body rounds map context lexemes = .ok (result, rest) := by
  induction inTurn generalizing rounds map with
  | done =>
      obtain ⟨rounds, rfl⟩ := Nat.exists_eq_succ_of_ne_zero (Nat.ne_of_gt enough)
      obtain rfl := Except.ok.inj stored
      exact loop.close isClose rounds map context rest
  | @step first piece behind found founds begins read later ih =>
      have some := Nat.ne_of_gt (Nat.zero_lt_of_lt enough)
      obtain ⟨rounds, rfl⟩ := Nat.exists_eq_succ_of_ne_zero some
      obtain ⟨map', added, stored⟩ := foldlM_cons_eq_ok stored
      rw [List.cons_append, loop.goOn begins]
      have behindFirst := ih (Nat.lt_of_succ_lt_succ enough) stored
      exact (blockItem_eq_ok_iff reason).mpr ⟨found, behind, map', read, added, behindFirst⟩

end Loop

/-! ## Classes -/

/-- Adds a member to those of a class. -/
def declareMember (owner : String) (members : OrderedMap MemberKey (Located Member))
    (found : Located Member) : Except Fault (OrderedMap MemberKey (Located Member)) :=
  addFound Member.key (fun item => .duplicateMember item.key owner) members found

/-- How the class was read: its head, its members in turn, and its closing brace. -/
structure ClassRead (package : String) (context : Context) (lexemes : List Lexeme)
    (head : ClassHead) (body : List Lexeme) (members : List (Located Member)) (close : Lexeme)
    (found : Located ClassDecl) (rest : List Lexeme) : Prop where
  readHead : classHead context lexemes = .ok (head, body)
  isClose : close.kind = .rightBrace
  inTurn : InTurn (ReadBy context member) (close :: rest) body members
  stored : ∃ map, members.foldlM (declareMember (qualify package head.name)) .empty = .ok map ∧
    found = head.with package map

variable {context : Context} {lexemes rest : List Lexeme}

theorem classDecl_eq_ok_iff {package : String} {found : Located ClassDecl} :
    classDecl package context lexemes = .ok (found, rest) ↔
      ∃ head body members close,
        ClassRead package context lexemes head body members close found rest := by
  rw [classDecl_eq]
  constructor
  · intro read
    obtain ⟨head, body, readHead, read⟩ := bind_eq_ok read
    rw [classBehind, bind_ok (remaining_apply context body)] at read
    obtain ⟨map, behind, readBody, read⟩ := bind_eq_ok read
    obtain ⟨rfl, rfl⟩ := pure_eq_ok read
    obtain ⟨members, close, isClose, inTurn, stored⟩ :=
      inTurn_of_block (fun (item : Member) => .duplicateMember item.key (qualify package head.name))
        (blockLoop_classBody _ _) advances_member readBody
    exact ⟨head, body, members, close, readHead, isClose, inTurn, map, stored, rfl⟩
  · rintro ⟨head, body, members, close, readHead, isClose, inTurn, map, stored, rfl⟩
    have enough : members.length < body.length := by
      have lengths := inTurn.length_le
      simp only [List.length_cons] at lengths
      omega
    have readBody := block_of_inTurn
      (fun (item : Member) => .duplicateMember item.key (qualify package head.name))
      (blockLoop_classBody head.line (qualify package head.name)) isClose inTurn enough stored
    rw [bind_ok readHead, classBehind, bind_ok (remaining_apply context body), bind_ok readBody]
    rfl

theorem advances_classDecl {package : String} : Advances (classDecl package) := by
  intro context lexemes found rest read
  obtain ⟨head, body, members, close, classRead⟩ := classDecl_eq_ok_iff.mp read
  obtain ⟨first, piece, rfl⟩ := advances_classHead context lexemes head body classRead.readHead
  obtain ⟨more, rfl⟩ := classRead.inTurn.suffix
  exact ⟨first, piece ++ (more ++ [close]), by simp⟩

/-! ## Package blocks -/

structure BlockRead (context : Context) (lexemes : List Lexeme) (block : Block)
    (rest : List Lexeme) : Prop where
  parts : ∃ body close, packageHead context lexemes = .ok ((block.line, block.name), body) ∧
    close.kind = .rightBrace ∧
    InTurn (ReadBy context (classDecl block.name)) (close :: rest) body block.classes

theorem packageBlock_eq_ok_iff {packages result : OrderedMap String (Located Package)} :
    packageBlock packages context lexemes = .ok (result, rest) ↔
      ∃ block, BlockRead context lexemes block rest ∧ declareBlock packages block = .ok result := by
  rw [packageBlock_eq]
  constructor
  · intro read
    obtain ⟨⟨line, name⟩, body, readHead, read⟩ := bind_eq_ok read
    rw [packageBehind_apply] at read
    cases readBody : packageBody line name body.length
        (openedPackage packages line name).item.classes context body with
    | error fault =>
        rw [readBody] at read
        cases read
    | ok pair =>
        obtain ⟨classes, behind⟩ := pair
        rw [readBody] at read
        obtain ⟨rfl, rfl⟩ := Prod.mk.inj (Except.ok.inj read)
        obtain ⟨founds, close, isClose, inTurn, stored⟩ :=
          inTurn_of_block (fun (cls : ClassDecl) => .duplicateClass cls.qualifiedName)
            (blockLoop_packageBody _ _) advances_classDecl readBody
        refine ⟨⟨line, name, founds⟩, ⟨body, close, readHead, isClose, inTurn⟩, ?_⟩
        have stored : founds.foldlM declareClass (openedPackage packages line name).item.classes =
          .ok classes := stored
        rw [declareBlock, stored]
        rfl
  · rintro ⟨⟨line, name, founds⟩, ⟨body, close, readHead, isClose, inTurn⟩, declared⟩
    cases stored : founds.foldlM declareClass (openedPackage packages line name).item.classes with
    | error fault =>
        rw [declareBlock, stored] at declared
        cases declared
    | ok classes =>
        rw [declareBlock, stored] at declared
        obtain rfl := Except.ok.inj declared
        have enough : founds.length < body.length := by
          have lengths := inTurn.length_le
          simp only [List.length_cons] at lengths
          omega
        have readBody := block_of_inTurn
          (fun (cls : ClassDecl) => .duplicateClass cls.qualifiedName)
          (blockLoop_packageBody line name) isClose inTurn enough stored
        rw [bind_ok readHead, packageBehind_apply, readBody]
        rfl

/-- A block begins with its keyword. -/
theorem BlockRead.first {block : Block} (read : BlockRead context lexemes block rest) :
    ∃ first piece, lexemes = first :: piece ++ rest ∧ first.kind ≠ .rightBrace := by
  obtain ⟨body, close, readHead, _, inTurn⟩ := read.parts
  obtain ⟨more, rfl⟩ := inTurn.suffix
  obtain ⟨line, behindLine, readLine, readOpening⟩ := bind_eq_ok readHead
  obtain ⟨found, behindWord, readWord, readName⟩ := bind_eq_ok readOpening
  obtain ⟨_, rfl⟩ : True ∧ lexemes = behindLine := by
    cases lexemes <;> cases readLine <;> exact ⟨trivial, rfl⟩
  rcases skipWord_eq_ok readWord with ⟨rfl, first, rfl, isWord⟩ | ⟨rfl, rfl, _⟩
  · obtain ⟨piece, suffix⟩ : more ++ close :: rest <:+ behindWord := by
      have careful : Careful (qualifiedName .packageName >>= fun name =>
          expect .leftBrace >>= fun _ => (pure (line, name) : Reader (Nat × String))) :=
        careful_qualifiedName.bind fun _ => careful_expect.bind fun _ => careful_pure
      exact (careful behindWord).leaves context _ _ readName
    refine ⟨first, piece ++ (more ++ [close]), by simp [← suffix], ?_⟩
    have kind : first.kind = .identifier := by
      simp only [Lexeme.isWord, Bool.and_eq_true, beq_iff_eq] at isWord
      exact isWord.1
    rw [kind]
    exact TokenKind.noConfusion
  · cases lexemes <;> cases readName

theorem packageBlocks_eq_ok_iff {rounds : Nat} (enough : lexemes.length ≤ rounds)
    {packages result : OrderedMap String (Located Package)} :
    packageBlocks rounds packages context lexemes = .ok (result, rest) ↔
      rest = [] ∧ ∃ blocks, InTurn (BlockRead context) [] lexemes blocks ∧
        blocks.foldlM declareBlock packages = .ok result := by
  constructor
  · intro read
    induction rounds generalizing lexemes packages with
    | zero =>
        obtain rfl := List.length_eq_zero_iff.mp (Nat.le_zero.mp enough)
        obtain ⟨rfl, rfl⟩ := pure_eq_ok read
        exact ⟨rfl, [], .done, rfl⟩
    | succ rounds ih =>
        cases lexemes with
        | nil =>
            rw [packageBlocks_nil] at read
            obtain ⟨rfl, rfl⟩ := Prod.mk.inj (Except.ok.inj read)
            exact ⟨rfl, [], .done, rfl⟩
        | cons next later =>
            rw [packageBlocks_cons] at read
            cases first : packageBlock packages context (next :: later) with
            | error fault =>
                rw [first] at read
                cases read
            | ok pair =>
                obtain ⟨grown, behind⟩ := pair
                rw [first] at read
                obtain ⟨block, blockRead, declared⟩ := packageBlock_eq_ok_iff.mp first
                obtain ⟨start, piece, whole, begins⟩ := blockRead.first
                have fewer : behind.length ≤ rounds := by
                  have lengths := congrArg List.length whole
                  simp only [List.length_cons, List.length_append] at lengths enough
                  omega
                obtain ⟨atEnd, blocks, inTurn, folded⟩ := ih fewer read
                rw [whole] at blockRead ⊢
                refine ⟨atEnd, block :: blocks, .step begins blockRead inTurn, ?_⟩
                rw [List.foldlM_cons, declared]
                exact folded
  · rintro ⟨rfl, blocks, inTurn, folded⟩
    induction inTurn generalizing rounds packages with
    | done =>
        obtain rfl := Except.ok.inj folded
        exact packageBlocks_nil rounds packages context
    | @step first piece behind block blocks begins blockRead later ih =>
        cases rounds with
        | zero => simp at enough
        | succ rounds =>
            obtain ⟨grown, declared, folded⟩ := foldlM_cons_eq_ok folded
            have fewer : behind.length ≤ rounds := by
              simp only [List.length_cons, List.length_append] at enough
              omega
            rw [List.cons_append, packageBlocks_cons]
            have read := packageBlock_eq_ok_iff.mpr ⟨block, blockRead, declared⟩
            rw [List.cons_append] at read
            rw [read]
            exact ih fewer folded

/-- A text is read as its package blocks, declared one after the other. -/
theorem readPackages_eq_ok_iff {mode : NullMode} {packages : OrderedMap String (Located Package)} :
    readPackages mode lexemes = .ok packages ↔
      ∃ blocks, InTurn (BlockRead { nullMode := mode, endLine := lastLine lexemes }) [] lexemes
        blocks ∧ blocks.foldlM declareBlock .empty = .ok packages := by
  have blocks := @packageBlocks_eq_ok_iff { nullMode := mode, endLine := lastLine lexemes } lexemes
    [] _ (Nat.le_refl _) .empty packages
  simp only [true_and] at blocks
  rw [← blocks]
  unfold readPackages
  cases read : packageBlocks lexemes.length .empty
      { nullMode := mode, endLine := lastLine lexemes } lexemes with
  | error fault => simp [read]
  | ok pair =>
      obtain ⟨found, rest⟩ := pair
      obtain ⟨rfl, _⟩ := (packageBlocks_eq_ok_iff (Nat.le_refl _)).mp read
      simp [read]

end ApiCompat.Signature
