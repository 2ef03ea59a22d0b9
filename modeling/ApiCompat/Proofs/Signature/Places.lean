import ApiCompat.Proofs.Signature.InTurn
import ApiCompat.Proofs.Signature.Stored

/-!
# Where declarations are read

Every class that is stored was read at a place of the text, behind the classes
and blocks before it and in front of those after it (`ClassPlace`), and every
member of it at a place of the class (`MemberPlace`).
-/

set_option autoImplicit false

namespace ApiCompat.Signature

open Reader

/-- The reading of a text at one of its classes, and before and behind it. -/
structure ClassPlace (context : Context) (lexemes : List Lexeme) (package : String)
    (cls : Located ClassDecl) where
  /-- The blocks before the one of the class. -/
  blocks : List Block
  /-- What is left of the lexemes where that block begins. -/
  opening : List Lexeme
  line : Nat
  body : List Lexeme
  /-- The classes before this one in the block. -/
  earlier : List (Located ClassDecl)
  /-- What is left of the lexemes where the class begins. -/
  start : List Lexeme
  behind : List Lexeme
  later : List (Located ClassDecl)
  close : Lexeme
  blockEnd : List Lexeme
  laterBlocks : List Block
  inFile : InTurn (BlockRead context) opening lexemes blocks
  readPackage : packageHead context opening = .ok ((line, package), body)
  inBlock : InTurn (ReadBy context (classDecl package)) start body earlier
  read : classDecl package context start = .ok (cls, behind)
  inBlockLater : InTurn (ReadBy context (classDecl package)) (close :: blockEnd) behind later
  isClose : close.kind = .rightBrace
  inFileLater : InTurn (BlockRead context) [] blockEnd laterBlocks

/-- The blocks of the whole text. -/
def ClassPlace.allBlocks {context : Context} {lexemes : List Lexeme} {package : String}
    {cls : Located ClassDecl} (place : ClassPlace context lexemes package cls) : List Block :=
  place.blocks ++ ⟨place.line, package, place.earlier ++ cls :: place.later⟩ :: place.laterBlocks

/-- The reading of a class that begins with the lexemes at one of its members, and before and
behind it. -/
structure MemberPlace (package : String) (context : Context) (lexemes : List Lexeme)
    (cls : Located ClassDecl) (classEnd : List Lexeme) (found : Located Member) where
  head : ClassHead
  body : List Lexeme
  /-- The members before this one. -/
  earlier : List (Located Member)
  /-- What is left of the lexemes where the member begins. -/
  start : List Lexeme
  behind : List Lexeme
  later : List (Located Member)
  close : Lexeme
  readHead : classHead context lexemes = .ok (head, body)
  inClass : InTurn (ReadBy context member) start body earlier
  read : member context start = .ok (found, behind)
  inClassLater : InTurn (ReadBy context member) (close :: classEnd) behind later
  isClose : close.kind = .rightBrace
  stored : ∃ map, (earlier ++ found :: later).foldlM
    (declareMember (qualify package head.name)) .empty = .ok map ∧ cls = head.with package map

variable {context : Context} {lexemes rest : List Lexeme}

theorem classPlace_of_blocks {blocks : List Block}
    (inTurn : InTurn (BlockRead context) [] lexemes blocks) {block : Block}
    (member : block ∈ blocks) {cls : Located ClassDecl} (inner : cls ∈ block.classes) :
    ∃ place : ClassPlace context lexemes block.name cls, place.allBlocks = blocks := by
  obtain ⟨before, opening, blockEnd, after, rfl, inFile, blockRead, inFileLater⟩ :=
    inTurn.place block member
  obtain ⟨body, close, readPackage, isClose, inBlock⟩ := blockRead.parts
  obtain ⟨earlier, start, behind, later, classes, inBlock, read, inBlockLater⟩ :=
    inBlock.place cls inner
  refine ⟨⟨before, opening, block.line, body, earlier, start, behind, later, close, blockEnd, after,
    inFile, readPackage, inBlock, read, inBlockLater, isClose, inFileLater⟩, ?_⟩
  rw [ClassPlace.allBlocks, ← classes]

/-- The members of a class are those that were read. -/
theorem values_foldlM_declareMember {owner : String} {founds : List (Located Member)}
    {members result : OrderedMap MemberKey (Located Member)}
    (declared : founds.foldlM (declareMember owner) members = .ok result) :
    result.values = members.values ++ founds := by
  induction founds generalizing members with
  | nil =>
      obtain rfl := Except.ok.inj declared
      exact (List.append_nil _).symm
  | cons found founds ih =>
      obtain ⟨grown, first, later⟩ := foldlM_cons_eq_ok declared
      have grows : grown.values = members.values ++ [found] := by
        unfold declareMember addFound at first
        split at first
        · cases first
        · next absent =>
            obtain rfl := Except.ok.inj first
            rw [OrderedMap.values, OrderedMap.entries_insert (by simpa using absent),
              List.map_append]
            rfl
      rw [ih later, grows, List.append_assoc]
      rfl

/-- Every member of a class that was read has its place in it. -/
theorem memberPlace_of_classDecl {package : String} {cls : Located ClassDecl}
    {classEnd : List Lexeme} (read : classDecl package context lexemes = .ok (cls, classEnd)) :
    ∀ found ∈ cls.item.members.values,
      Nonempty (MemberPlace package context lexemes cls classEnd found) := by
  obtain ⟨head, body, members, close, classRead⟩ := classDecl_eq_ok_iff.mp read
  obtain ⟨map, declared, rfl⟩ := classRead.stored
  have values : map.values = members := values_foldlM_declareMember declared
  intro found stored
  have stored : found ∈ map.values := stored
  obtain ⟨earlier, start, behind, later, rfl, inClass, readMember, inClassLater⟩ :=
    classRead.inTurn.place found (values ▸ stored)
  exact ⟨⟨head, body, earlier, start, behind, later, close, classRead.readHead, inClass, readMember,
    inClassLater, classRead.isClose, map, declared, rfl⟩⟩

variable {source text : String} {requested : Option NullMode} {api : Api}

structure LexedAs (api : Api) (source text : String) (requested : Option NullMode)
    (lexemes : List Lexeme) : Prop where
  resolved : resolveMode text.toList requested = .ok api.nullMode
  tokenized : tokenize text = .ok lexemes
  declared : readPackages api.nullMode lexemes = .ok api.packages
  source_eq : api.source = source

theorem read_eq_ok_iff :
    read source text requested = .ok api ↔
      ∃ lexemes, LexedAs api source text requested lexemes := by
  constructor
  · intro whole
    unfold read at whole
    cases resolved : resolveMode text.toList requested with
    | error fault => simp [resolved] at whole
    | ok mode =>
        cases tokenized : tokenize text with
        | error place => simp [resolved, tokenized] at whole
        | ok lexemes =>
            cases declared : readPackages mode lexemes with
            | error fault => simp [resolved, tokenized, declared] at whole
            | ok packages =>
                simp only [resolved, tokenized, declared] at whole
                obtain rfl := Except.ok.inj whole
                exact ⟨lexemes, resolved, tokenized, declared, rfl⟩
  · rintro ⟨lexemes, lexed⟩
    simp only [read, lexed.resolved, lexed.tokenized, lexed.declared]
    rw [← lexed.source_eq]

/-- The context in which the lexemes of a text are read. -/
def contextOf (mode : NullMode) (lexemes : List Lexeme) : Context :=
  { nullMode := mode, endLine := lastLine lexemes }

/-- Every class that was read from a text has its place in it. -/
theorem classPlace_of_read (whole : read source text requested = .ok api)
    (lexed : LexedAs api source text requested lexemes) :
    ∀ package ∈ api.packages.values, ∀ cls ∈ package.item.classes.values,
      ∃ place : ClassPlace (contextOf api.nullMode lexemes) lexemes package.item.name cls,
        place.allBlocks.foldlM declareBlock .empty = .ok api.packages := by
  intro package stored cls inner
  have keyed := (formed_of_read whole).1.keyed
  obtain ⟨blocks, inTurn, declared⟩ := readPackages_eq_ok_iff.mp lexed.declared
  have order := values_foldlM_declareBlock declared package.item.name
  rw [classesAt, keyed.get?_name stored] at order
  have listed : cls ∈ classesOf package.item.name blocks := by
    have order : package.item.classes.values = classesOf package.item.name blocks := order
    rwa [← order]
  obtain ⟨block, member, inBlock⟩ := List.mem_flatMap.mp listed
  obtain ⟨member, named⟩ := List.mem_filter.mp member
  obtain ⟨place, all⟩ := classPlace_of_blocks inTurn member inBlock
  rw [← eq_of_beq named]
  exact ⟨place, all ▸ declared⟩

end ApiCompat.Signature
