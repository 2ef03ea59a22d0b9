import ApiCompat.Proofs.Rerun.Classes
import ApiCompat.Signature.Read

/-!
# Reading package blocks twice

What a block declares does not depend on what is there already; only whether a
class is declared twice does.  So the blocks of a text are the same whatever
packages the reader starts from, and reading is declaring them one by one.
-/

set_option autoImplicit false

namespace ApiCompat.Signature

open Reader Grammar

variable {run : Rerun} {lexemes : List Lexeme} {σ ι : Type}

/-- Each run declares the same sound items on top of what it starts from, and then
fails alike or takes their words.  The second run needs no guard: the first one
has seen the end of the items. -/
def Accumulates (run : Rerun) (lexemes : List Lexeme) (body body' : σ → Reader σ)
    (sound : ι → Prop) (write : List ι → List Word) (declare declare' : σ → ι → Except Fault σ) :
    Prop :=
  run.Settled lexemes → ∃ items : List ι, (∀ item ∈ items, sound item) ∧
    ((∃ fault,
      (∀ state, body state run.context lexemes =
        items.foldlM declare state >>= fun _ => .error fault) ∧
      (run.more = [] → ∀ state, body' state run.context' (run.again lexemes) =
        items.foldlM declare' state >>= fun _ => .error (run.faultAgain fault))) ∨
    ∃ taken rest, lexemes = taken ++ rest ∧ taken ≠ [] ∧ Spells (write items) taken ∧
      (∀ state, body state run.context lexemes =
        items.foldlM declare state >>= fun state => .ok (state, rest)) ∧
      ∀ state, body' state run.context' (run.again lexemes) =
        items.foldlM declare' state >>= fun state => .ok (state, run.again rest))

section Accumulates

variable {body body' later later' : σ → Reader σ} {sound : ι → Prop} {write : List ι → List Word}
  {declare declare' : σ → ι → Except Fault σ}

/-- Both runs fail before they declare anything. -/
theorem accumulates_fault (fault : Fault)
    (failed : ∀ state, body state run.context lexemes = .error fault)
    (failed' : run.more = [] → ∀ state,
      body' state run.context' (run.again lexemes) = .error (run.faultAgain fault)) :
    Accumulates run lexemes body body' sound write declare declare' :=
  fun _ => ⟨[], List.forall_mem_nil _, .inl ⟨fault, failed, failed'⟩⟩

/-- Both runs declare an item, and then what they declare behind it. -/
theorem Accumulates.cons {item : ι} {words : List Word} {taken rest : List Lexeme}
    (behind : Accumulates run rest later later' sound write declare declare')
    (whole : lexemes = taken ++ rest) (spells : Spells words taken) (holds : sound item)
    (written : ∀ items, write (item :: items) = words ++ write items)
    (step : ∀ state, body state run.context lexemes =
      declare state item >>= fun state => later state run.context rest)
    (step' : run.more = [] ∨ rest ≠ [] → ∀ state, body' state run.context' (run.again lexemes) =
      declare' state item >>= fun state => later' state run.context' (run.again rest)) :
    Accumulates run lexemes body body' sound write declare declare' := by
  intro settled
  rw [whole] at settled
  obtain ⟨items, inItems, outcome⟩ := behind (settled.suffix taken)
  have inAll : ∀ each ∈ item :: items, sound each := List.forall_mem_cons.mpr ⟨holds, inItems⟩
  rcases outcome with ⟨fault, failed, failed'⟩ | ⟨taken', rest', rfl, filled, spells', read, read'⟩
  · refine ⟨item :: items, inAll, .inl ⟨fault, fun state => ?_, fun alone state => ?_⟩⟩
    · rw [step, foldlM_cons_bind]
      simp only [failed]
    · rw [step' (.inl alone), foldlM_cons_bind]
      simp only [failed' alone]
  · have more : taken' ++ rest' ≠ [] := List.append_ne_nil_of_left_ne_nil filled rest'
    refine ⟨item :: items, inAll, .inr ⟨taken ++ taken', rest', ?_, ?_, ?_, fun state => ?_,
      fun state => ?_⟩⟩
    · rw [whole, List.append_assoc]
    · exact List.append_ne_nil_of_right_ne_nil taken filled
    · rw [written]
      exact spells.append spells'
    · rw [step, foldlM_cons_bind]
      simp only [read]
    · rw [step' (.inr more), foldlM_cons_bind]
      simp only [read']

end Accumulates

def classesWords (classes : List (Located ClassTree)) : List Word :=
  classes.flatMap (fun found => found.item.words) ++ [.rightBrace]

/-- A class as the first run declares it. -/
def declareTree (mode : NullMode) (package : String)
    (classes : OrderedMap String (Located ClassDecl)) (tree : Located ClassTree) :
    Except Fault (OrderedMap String (Located ClassDecl)) :=
  declareClass classes (tree.move id (ClassTree.classIn mode package))

/-- A class as the second run declares it. -/
def declareAgain (run : Rerun) (package : String)
    (classes : OrderedMap String (Located ClassDecl)) (tree : Located ClassTree) :
    Except Fault (OrderedMap String (Located ClassDecl)) :=
  declareClass classes ((tree.move id (ClassTree.classIn run.mode' package)).move run.shift
    (ClassDecl.moved run.shift))

/-- A class that was read is declared, and the loop goes on. -/
theorem blockItem_ok {line rounds : Nat} {package : String} {context : Context}
    {found : Located ClassDecl} {rest : List Lexeme}
    (read : classDecl package context lexemes = .ok (found, rest))
    (classes : OrderedMap String (Located ClassDecl)) :
    blockItem ClassDecl.name (classDecl package)
        (fun found => .duplicateClass found.item.qualifiedName) (packageBody line package rounds)
        classes context lexemes =
      declareClass classes found >>= fun classes =>
        packageBody line package rounds classes context rest := by
  rw [blockItem, bind_ok read, declareClass, addFound]
  split
  · rfl
  · rfl

theorem length_classWords_pos (cls : ClassTree) : 0 < cls.words.length := by
  simp only [ClassTree.words, List.length_append, List.length_cons]
  omega

/-- Where the lexemes end the block is left open. -/
theorem accumulates_openBody (line : Nat) (package : String) (rounds rounds' : Nat) :
    Accumulates run [] (packageBody line package rounds)
      (packageBody (run.shift line) package rounds') (fun tree => tree.item.Consistent)
      classesWords (declareTree run.mode package) (declareAgain run package) := by
  refine accumulates_fault { line, reason := .unterminatedPackage package } (fun classes => ?_)
    fun alone classes => ?_
  · exact (blockLoop_packageBody line package).atEnd rounds classes _
  · rw [run.again_nil, alone]
    exact (blockLoop_packageBody (run.shift line) package).atEnd rounds' classes _

theorem accumulates_packageBody (line : Nat) (package : String) {rounds rounds' : Nat}
    (enough : lexemes.length ≤ rounds) (enough' : (run.again lexemes).length ≤ rounds') :
    Accumulates run lexemes (packageBody line package rounds)
      (packageBody (run.shift line) package rounds') (fun tree => tree.item.Consistent)
      classesWords (declareTree run.mode package) (declareAgain run package) := by
  have loop := blockLoop_packageBody line package
  have loop' := blockLoop_packageBody (run.shift line) package
  induction rounds generalizing lexemes rounds' with
  | zero =>
      obtain rfl : lexemes = [] := List.length_eq_zero_iff.mp (Nat.le_zero.mp enough)
      exact accumulates_openBody line package 0 rounds'
  | succ rounds ih =>
      cases lexemes with
      | nil => exact accumulates_openBody line package (rounds + 1) rounds'
      | cons next later =>
          rw [run.length_again] at enough'
          simp only [List.length_cons] at enough enough'
          obtain ⟨rounds', rfl⟩ : ∃ fewer, rounds' = fewer + 1 :=
            Nat.exists_eq_succ_of_ne_zero (by omega)
          intro settled
          by_cases closes : next.kind = .rightBrace
          · have closes' : (run.move next).kind = .rightBrace := (run.kind_move next).trans closes
            have isBrace : next.bare = .rightBrace :=
              (settled.standard next List.mem_cons_self).fixed _ (by rw [closes]; rfl)
            have spells : Spells [.rightBrace] [next] := by
              rw [← isBrace]
              exact spells_bare [next]
            exact ⟨[], List.forall_mem_nil _, .inr ⟨[next], later, rfl, List.cons_ne_nil _ _,
              spells, fun classes => loop.close closes _ classes _ _,
              fun classes => loop'.close closes' _ classes _ _⟩⟩
          · have goesOn : (run.move next).kind ≠ .rightBrace := by rwa [run.kind_move]
            rcases repeats_classDecl package settled with ⟨fault, failed, failed'⟩ |
              ⟨_, _, words, taken, rest, whole, spells, ⟨tree, consistent, rfl, rfl, rfl⟩,
                read, read'⟩
            · refine accumulates_fault fault (fun classes => ?_) (fun alone classes => ?_) settled
              · rw [loop.goOn closes]
                exact bind_error failed
              · rw [run.again_cons, loop'.goOn goesOn]
                exact bind_error (failed' alone)
            · have positive := length_classWords_pos tree.item
              have length : later.length + 1 = tree.item.words.length + rest.length := by
                rw [← List.length_cons, whole, List.length_append, ← spells.length_eq]
              have fewer' : (run.again rest).length ≤ rounds' := by
                rw [run.length_again]
                omega
              have fewer : rest.length ≤ rounds := by omega
              have behind := ih fewer fewer'
              refine behind.cons whole spells consistent (fun trees => ?_) (fun classes => ?_)
                (fun guard classes => ?_) settled
              · rw [classesWords, List.flatMap_cons, List.append_assoc]
                rfl
              · rw [loop.goOn closes]
                exact blockItem_ok read classes
              · rw [run.again_cons, loop'.goOn goesOn]
                exact blockItem_ok (read' guard) classes

/-! ## Single blocks -/

def packageHead : Reader (Nat × String) := do
  let line ← currentLine
  if ← skipWord? "package" then
    let name ← qualifiedName .packageName
    let _ ← expect .leftBrace
    return (line, name)
  else unexpected .packageKeyword

def packageBehind (packages : OrderedMap String (Located Package)) (line : Nat) (name : String) :
    Reader (OrderedMap String (Located Package)) := do
  let opened := openedPackage packages line name
  let classes ← packageBody line name (← remaining).length opened.item.classes
  return packages.insert name { opened with item := { opened.item with classes } }

theorem packageBlock_eq (packages : OrderedMap String (Located Package)) :
    packageBlock packages = packageHead >>= fun head => packageBehind packages head.1 head.2 := by
  rw [packageHead, bind_assoc]
  refine congrArg (fun next => currentLine >>= next) (funext fun line => ?_)
  rw [bind_assoc]
  refine congrArg (fun next => skipWord? "package" >>= next) (funext fun found => ?_)
  cases found with
  | true =>
      simp only [if_true, bind_assoc]
      rfl
  | false =>
      funext context lexemes
      cases lexemes <;> rfl

def openingWords (name : Name) : List Word := .ident "package" :: (name.words ++ [.leftBrace])

theorem repeats_packageHead :
    Repeats run lexemes packageHead packageHead fun words head head' => ∃ name : Name,
      words = openingWords name ∧ head.2 = name.text ∧ head' = (run.shift head.1, name.text) := by
  refine repeats_currentLine.peek fun line line' same => ?_
  subst same
  refine (repeats_skipWord "package").bind fun found found' words rest taken _ => ?_
  obtain ⟨rfl, rfl⟩ := taken
  cases found' with
  | false => exact repeats_unexpected .packageKeyword
  | true =>
      refine (repeats_qualifiedName .packageName).bind fun name name' words rest told _ => ?_
      obtain ⟨name, rfl, rfl, rfl⟩ := told
      refine (repeats_expect rfl).bind fun _ _ words rest taken _ => ?_
      subst taken
      exact repeats_pure ⟨name, by simp [openingWords], rfl, rfl⟩

/-- A block as the first run declares it. -/
def blockFirst (run : Rerun) (packages : OrderedMap String (Located Package))
    (block : Located PackageTree) : Except Fault (OrderedMap String (Located Package)) :=
  declareBlock packages (blockIn run.mode block)

/-- A block as the second run declares it. -/
def blockAgain (run : Rerun) (packages : OrderedMap String (Located Package))
    (block : Located PackageTree) : Except Fault (OrderedMap String (Located Package)) :=
  declareBlock packages
    ((blockIn run.mode' block).changed run.shift (ClassDecl.moved run.shift))

theorem packageBehind_apply (packages : OrderedMap String (Located Package)) (line : Nat)
    (name : String) (context : Context) (lexemes : List Lexeme) :
    packageBehind packages line name context lexemes =
      packageBody line name lexemes.length (openedPackage packages line name).item.classes context
          lexemes >>=
        fun found => .ok (closePackage packages line name found.1, found.2) := by
  rw [packageBehind]
  show (remaining >>= fun lexemes => packageBody line name lexemes.length _ >>= _) context
    lexemes = _
  rw [bind_ok (remaining_apply context lexemes)]
  cases read : packageBody line name lexemes.length
      (openedPackage packages line name).item.classes context lexemes with
  | error fault => exact bind_error read
  | ok found => exact bind_ok read

theorem foldlM_blockFirst (blocks : List (Located PackageTree))
    (packages : OrderedMap String (Located Package)) :
    blocks.foldlM (blockFirst run) packages =
      (blocks.map (blockIn run.mode)).foldlM declareBlock packages := by
  rw [List.foldlM_map]
  rfl

theorem foldlM_blockAgain (blocks : List (Located PackageTree))
    (packages : OrderedMap String (Located Package)) :
    blocks.foldlM (blockAgain run) packages =
      ((blocks.map (blockIn run.mode')).map
        (Block.changed run.shift (ClassDecl.moved run.shift))).foldlM declareBlock packages := by
  rw [List.foldlM_map, List.foldlM_map]
  rfl

theorem foldlM_blockAgain_id (still : run.shift = id) (blocks : List (Located PackageTree))
    (packages : OrderedMap String (Located Package)) :
    blocks.foldlM (blockAgain run) packages =
      (blocks.map (blockIn run.mode')).foldlM declareBlock packages := by
  rw [foldlM_blockAgain, still, ClassDecl.moved_id, Block.changed_id, List.map_id]

theorem blockFirst_eq (packages : OrderedMap String (Located Package)) (line : Nat) (name : Name)
    (classes : List (Located ClassTree)) :
    blockFirst run packages ⟨line, name, classes⟩ =
      classes.foldlM (declareTree run.mode name.text)
          (openedPackage packages line name.text).item.classes >>=
        fun classes => .ok (closePackage packages line name.text classes) := by
  simp only [blockFirst, declareBlock, blockIn, List.foldlM_map]
  rfl

theorem blockAgain_eq (packages : OrderedMap String (Located Package)) (line : Nat) (name : Name)
    (classes : List (Located ClassTree)) :
    blockAgain run packages ⟨line, name, classes⟩ =
      classes.foldlM (declareAgain run name.text)
          (openedPackage packages (run.shift line) name.text).item.classes >>=
        fun classes => .ok (closePackage packages (run.shift line) name.text classes) := by
  simp only [blockAgain, declareBlock, blockIn, Block.changed, List.foldlM_map]
  rfl

theorem accumulates_packageBlock :
    Accumulates run lexemes packageBlock packageBlock (fun block => block.item.Consistent)
      fileWords (blockFirst run) (blockAgain run) := by
  intro settled
  simp only [packageBlock_eq]
  rcases repeats_packageHead settled with ⟨fault, failed, failed'⟩ |
    ⟨head, head', words, taken, rest, rfl, spells, ⟨name, rfl, named, rfl⟩, read, read'⟩
  · exact ⟨[], by simp, .inl ⟨fault, fun _ => bind_error failed,
      fun alone _ => bind_error (failed' alone)⟩⟩
  · obtain ⟨line, text⟩ := head
    obtain rfl : text = name.text := named
    obtain ⟨items, inItems, outcome⟩ := accumulates_packageBody line name.text (Nat.le_refl _)
      (Nat.le_refl _) (settled.suffix taken)
    have sound : ∀ block ∈ [(⟨line, name, items⟩ : Located PackageTree)],
        block.item.Consistent := List.forall_mem_singleton.mpr inItems
    rcases outcome with ⟨fault, failed, failed'⟩ |
      ⟨taken', rest', rfl, filled, spells', taken₁, taken₂⟩
    · refine ⟨[⟨line, name, items⟩], sound,
        .inl ⟨fault, fun packages => ?_, fun alone packages => ?_⟩⟩
      · rw [bind_ok read, foldlM_cons_bind, blockFirst_eq, packageBehind_apply, failed]
        cases items.foldlM (declareTree run.mode name.text) _ <;> rfl
      · rw [bind_ok (read' (.inl alone)), foldlM_cons_bind, blockAgain_eq, packageBehind_apply,
          failed' alone]
        cases items.foldlM (declareAgain run name.text) _ <;> rfl
    · have guard : run.more = [] ∨ taken' ++ rest' ≠ [] :=
        .inr fun empty => filled (List.append_eq_nil_iff.mp empty).1
      refine ⟨[⟨line, name, items⟩], sound, .inr ⟨taken ++ taken', rest', ?_, ?_, ?_,
        fun packages => ?_, fun packages => ?_⟩⟩
      · rw [List.append_assoc]
      · exact fun empty => filled (List.append_eq_nil_iff.mp empty).2
      · have whole := spells.append spells'
        simpa [fileWords, PackageTree.words, openingWords, classesWords] using whole
      · rw [bind_ok read, foldlM_cons_bind, blockFirst_eq, packageBehind_apply, taken₁]
        cases items.foldlM (declareTree run.mode name.text) _ <;> rfl
      · rw [bind_ok (read' guard), foldlM_cons_bind, blockAgain_eq, packageBehind_apply, taken₂]
        cases items.foldlM (declareAgain run name.text) _ <;> rfl

/-! ## Whole texts -/

theorem packageBlocks_cons (rounds : Nat) (packages : OrderedMap String (Located Package))
    (context : Context) (next : Lexeme) (rest : List Lexeme) :
    packageBlocks (rounds + 1) packages context (next :: rest) =
      packageBlock packages context (next :: rest) >>= fun found =>
        packageBlocks rounds found.1 context found.2 := by
  rw [packageBlocks, bind_ok (remaining_apply context (next :: rest))]
  show (packageBlock packages >>= packageBlocks rounds) context (next :: rest) = _
  cases read : packageBlock packages context (next :: rest) with
  | error fault => exact bind_error read
  | ok found => exact bind_ok read

theorem packageBlocks_nil (rounds : Nat) (packages : OrderedMap String (Located Package))
    (context : Context) : packageBlocks rounds packages context [] = .ok (packages, []) := by
  cases rounds with
  | zero => rfl
  | succ rounds => rfl

/-- Each run declares the same sound blocks on top of what it starts from, and then
fails alike or has read all that the first run has; the second one goes on
with what it has behind that. -/
theorem accumulates_packageBlocks {rounds rounds' : Nat} (settled : run.Settled lexemes)
    (enough : lexemes.length ≤ rounds) (enough' : (run.again lexemes).length ≤ rounds') :
    ∃ blocks : List (Located PackageTree), (∀ block ∈ blocks, block.item.Consistent) ∧
      ((∃ fault,
        (∀ packages, packageBlocks rounds packages run.context lexemes =
          blocks.foldlM (blockFirst run) packages >>= fun _ => .error fault) ∧
        (run.more = [] → ∀ packages,
          packageBlocks rounds' packages run.context' (run.again lexemes) =
            blocks.foldlM (blockAgain run) packages >>= fun _ => .error (run.faultAgain fault))) ∨
      (Spells (fileWords blocks) lexemes ∧
        (∀ packages, packageBlocks rounds packages run.context lexemes =
          blocks.foldlM (blockFirst run) packages >>= fun packages => .ok (packages, [])) ∧
        ∃ left, run.more.length ≤ left ∧ ∀ packages,
          packageBlocks rounds' packages run.context' (run.again lexemes) =
            blocks.foldlM (blockAgain run) packages >>= fun packages =>
              packageBlocks left packages run.context' run.more)) := by
  induction rounds generalizing lexemes rounds' with
  | zero =>
      obtain rfl : lexemes = [] := List.length_eq_zero_iff.mp (Nat.le_zero.mp enough)
      exact ⟨[], by simp, .inr ⟨.nil, fun _ => rfl, rounds', enough', fun _ => rfl⟩⟩
  | succ rounds ih =>
      cases lexemes with
      | nil =>
          exact ⟨[], by simp, .inr ⟨.nil, fun packages => packageBlocks_nil _ packages _, rounds',
            enough', fun _ => rfl⟩⟩
      | cons next later =>
          rw [run.length_again] at enough'
          simp only [List.length_cons] at enough enough'
          obtain ⟨rounds', rfl⟩ : ∃ fewer, rounds' = fewer + 1 :=
            Nat.exists_eq_succ_of_ne_zero (by omega)
          simp only [packageBlocks_cons, run.again_cons]
          obtain ⟨items, sound, ⟨fault, failed, failed'⟩ |
            ⟨taken, rest, whole, filled, spells, taken₁, taken₂⟩⟩ :=
            accumulates_packageBlock settled
          · simp only [run.again_cons] at failed'
            refine ⟨items, sound, .inl ⟨fault, fun packages => ?_, fun alone packages => ?_⟩⟩
            · rw [failed]
              cases items.foldlM (blockFirst run) packages <;> rfl
            · rw [failed' alone]
              cases items.foldlM (blockAgain run) packages <;> rfl
          · simp only [run.again_cons] at taken₂
            simp only [taken₁, taken₂]
            have length : later.length + 1 = taken.length + rest.length := by
              rw [← List.length_cons, whole, List.length_append]
            have positive := List.length_pos_iff.mpr filled
            have fewer' : (run.again rest).length ≤ rounds' := by
              rw [run.length_again]
              omega
            rw [whole] at settled
            obtain ⟨blocks, inBlocks, outcome⟩ := ih (settled.suffix taken) (by omega) fewer'
            have both := List.forall_mem_append.mpr ⟨sound, inBlocks⟩
            rcases outcome with ⟨fault, failed, failed'⟩ | ⟨spells', all, left, behind, all'⟩
            · exact ⟨items ++ blocks, both, .inl ⟨fault, foldlM_append_bind _ failed items,
                fun alone => foldlM_append_bind _ (failed' alone) items⟩⟩
            · refine ⟨items ++ blocks, both, .inr ⟨?_, foldlM_append_bind _ all items, left,
                behind, foldlM_append_bind _ all' items⟩⟩
              rw [whole, fileWords, List.flatMap_append]
              exact spells.append spells'

section ReadPackages

variable {mode : NullMode} {outcome : Except Fault (OrderedMap String (Located Package))}

theorem readPackages_failed {fault : Fault}
    (failed : packageBlocks lexemes.length .empty { nullMode := mode, endLine := lastLine lexemes }
      lexemes = outcome >>= fun _ => .error fault) :
    readPackages mode lexemes = outcome >>= fun _ => .error fault := by
  simp only [readPackages, failed]
  cases outcome <;> rfl

theorem readPackages_all {rest : List Lexeme}
    (all : packageBlocks lexemes.length .empty { nullMode := mode, endLine := lastLine lexemes }
      lexemes = outcome >>= fun packages => .ok (packages, rest)) :
    readPackages mode lexemes = outcome := by
  simp only [readPackages, all]
  cases outcome <;> rfl

end ReadPackages

end ApiCompat.Signature
