import ApiCompat.Proofs.Api.Serialized
import ApiCompat.Proofs.Compare.Conversions
import ApiCompat.Proofs.Compare.Visits

/-!
# Members side by side

A comparison visits a member of the previous API together with the one that the
current class holds under its key.  In APIs that were read from a text or from
JSON every member is held under its own key, so both are of one kind, and have
the same name and as many parameters with the same erasures (`pairs_lineUp`).
-/

set_option autoImplicit false

namespace ApiCompat

/-- The APIs that come from outside. -/
inductive Api.Obtained (api : Api) : Prop where
  | text (source text : String) (requested : Option NullMode)
      (whole : Signature.read source text requested = .ok api)
  | json (json : Json) (decoded : Api.ofJson? json = some api)

theorem Api.Obtained.keyed {api : Api} (obtained : api.Obtained) :
    ∀ cls ∈ api.classes, cls.item.Keyed := by
  cases obtained with
  | text source text requested whole => exact (Signature.formed_of_read whole).1.keyed.classes
  | json json decoded => exact Api.gives_keyed nestingLimit json api decoded

/-! ## Members of one key -/

/-- Members of one kind that can be compared part by part. -/
inductive Member.LinesUp : Member → Member → Prop where
  | constructor {was now : Constructor}
      (parameters : erasures was.parameters = erasures now.parameters) :
      LinesUp (.constructor was) (.constructor now)
  | method {was now : Method} (name : was.name = now.name)
      (parameters : erasures was.parameters = erasures now.parameters) :
      LinesUp (.method was) (.method now)
  | field {was now : Field} (name : was.name = now.name) : LinesUp (.field was) (.field now)

theorem Member.lineUp_iff_key {was now : Member} : was.LinesUp now ↔ was.key = now.key := by
  constructor
  · intro lineUp
    cases lineUp with
    | constructor parameters => rw [key, key, parameters]
    | method name parameters => rw [key, key, name, parameters]
    | field name => rw [key, key, name]
  · intro same
    cases was with
    | constructor was =>
        cases now with
        | constructor now => exact .constructor (MemberKey.constructor.inj same)
        | method now => cases same
        | field now => cases same
    | method was =>
        cases now with
        | constructor now => cases same
        | method now =>
            obtain ⟨name, parameters⟩ := MemberKey.method.inj same
            exact .method name parameters
        | field now => cases same
    | field was =>
        cases now with
        | constructor now => cases same
        | method now => cases same
        | field now => exact .field (MemberKey.field.inj same)

/-- Lining parameters up by index drops none of them. -/
theorem Member.LinesUp.unzip_parameters {was now : Member} (lineUp : was.LinesUp now) :
    (was.parameters.zip now.parameters).unzip = (was.parameters, now.parameters) := by
  cases lineUp with
  | constructor parameters => exact List.unzip_zip (erasures_length parameters)
  | method name parameters => exact List.unzip_zip (erasures_length parameters)
  | field name => rfl

namespace Compare

/-! ## What a comparison puts side by side -/

/-- A member of the previous API and the one beside it in the current version of the class. -/
structure Pair where
  cls : ClassDecl
  was : Located Member
  now : Located Member

def Visit.pair? : Visit → Option Pair
  | keptMember _ _ found was now => some ⟨found, was, now⟩
  | _ => none

/-- The members that a comparison puts side by side, in its order. -/
def pairs (previous current : Api) : List Pair :=
  (visits previous current).filterMap Visit.pair?

def Pair.findings (file : String) (pair : Pair) : List Finding :=
  memberFindings file pair.cls pair.was pair.now

/-- Two constructors, two methods or two fields are compared, by the rules for them. -/
inductive Compares (file : String) (cls : ClassDecl) :
    Located Member → Located Member → List Finding → Prop
  | constructor {line line' : Nat} {was now : Constructor} :
      Compares file cls ⟨line, .constructor was⟩ ⟨line', .constructor now⟩
        (constructorFindings file line' cls was now)
  | method {line line' : Nat} {was now : Method} :
      Compares file cls ⟨line, .method was⟩ ⟨line', .method now⟩
        (methodFindings file line' cls was now)
  | field {line line' : Nat} {was now : Field} :
      Compares file cls ⟨line, .field was⟩ ⟨line', .field now⟩
        (fieldFindings file line' cls was now)

theorem compares_of_lineUp (file : String) (cls : ClassDecl) {was now : Located Member}
    (lineUp : was.item.LinesUp now.item) :
    Compares file cls was now (memberFindings file cls was now) := by
  obtain ⟨line, was⟩ := was
  obtain ⟨line', now⟩ := now
  cases lineUp with
  | constructor => exact .constructor
  | method => exact .method
  | field => exact .field

/-- At a visit that puts members side by side nothing is found but by comparing them. -/
theorem findings_pairs (previous current : Api) :
    findings previous current = (visits previous current).flatMap fun visit =>
      visit.pair?.elim
        (visit.findings { previous := previous.source, current := current.source })
        (Pair.findings current.source) := by
  refine (findings_visits previous current).trans (List.flatMap_congr fun visit _ => ?_)
  cases visit <;> rfl

/-- The members of a pair are of one class, and the key of the previous one leads to the other. -/
theorem mem_pairs_iff {previous current : Api} {pair : Pair} :
    pair ∈ pairs previous current ↔ ∃ package cls found,
      Visit.Of previous current (.keptClass package cls found) ∧ found.item = pair.cls ∧
      pair.was ∈ cls.item.members.values ∧
      found.item.members.get? pair.was.item.key = some pair.now := by
  rw [pairs, List.mem_filterMap]
  constructor
  · rintro ⟨visit, visited, isPair⟩
    cases mem_visits_iff.mp visited with
    | keptMember classKept stored kept =>
        obtain rfl := Option.some.inj isPair
        exact ⟨_, _, _, classKept, rfl, stored, kept⟩
    | _ => cases isPair
  · rintro ⟨package, cls, found, classKept, same, stored, kept⟩
    refine ⟨.keptMember package cls.item found.item pair.was pair.now,
      mem_visits_iff.mpr (.keptMember classKept stored kept), ?_⟩
    rw [Visit.pair?, same]

theorem Visit.Of.mem_classes {previous current : Api} {package : String}
    {was now : Located ClassDecl} (kept : Visit.Of previous current (.keptClass package was now)) :
    now ∈ current.classes := by
  cases kept with
  | keptClass _ packageFound _ found =>
      exact List.mem_flatMap.mpr ⟨_, OrderedMap.mem_values_of_get? packageFound,
        OrderedMap.mem_values_of_get? found⟩

/-- In APIs that were read, every member is held under its own key.  So the members that a
comparison puts side by side are of one kind, are compared by the rules for it, and line up
parameter by parameter. -/
theorem pairs_lineUp {previous current : Api} (old : previous.Obtained)
    (new : current.Obtained) :
    (∀ cls ∈ previous.classes ++ current.classes,
      ∀ entry ∈ cls.item.members.entries, entry.1 = entry.2.item.key) ∧
    (findings previous current = (visits previous current).flatMap fun visit =>
      visit.pair?.elim
        (visit.findings { previous := previous.source, current := current.source })
        (Pair.findings current.source)) ∧
    ∀ pair ∈ pairs previous current, pair.was.item.LinesUp pair.now.item ∧
      Compares current.source pair.cls pair.was pair.now (pair.findings current.source) ∧
      (pair.was.item.parameters.zip pair.now.item.parameters).unzip =
        (pair.was.item.parameters, pair.now.item.parameters) := by
  refine ⟨?_, findings_pairs previous current, fun pair member => ?_⟩
  · intro cls stored
    rcases List.mem_append.mp stored with before | after
    · exact old.keyed cls before
    · exact new.keyed cls after
  · obtain ⟨package, cls, found, classKept, same, _, kept⟩ := mem_pairs_iff.mp member
    have key := (new.keyed found classKept.mem_classes).key_of_get? kept
    have lineUp : pair.was.item.LinesUp pair.now.item := Member.lineUp_iff_key.mpr key.symm
    exact ⟨lineUp, compares_of_lineUp _ _ lineUp, lineUp.unzip_parameters⟩

def overloadedText : String :=
  "package p \x7b\n  class C \x7b\n    method void f(int a, String... b);\n" ++
    "    method void f();\n    field int x;\n  \x7d\n\x7d\n"

/-- A class whose list of members repeats a key, in a package under another name than its own. -/
def repeatedJson : Json :=
  .object [("source", .string "new.json"), ("null_mode", .string "legacy"), ("packages",
    .object [("p", .object [("name", .string "q"), ("line", .natural 1), ("classes",
      .object [("C", .object [("name", .string "C"), ("qualified_name", .string "p.C"),
        ("kind", .string "class"), ("modifiers", Modifiers.toJson {}), ("line", .natural 2),
        ("members", .array [
          Member.toJson { line := 3, item := .field { name := "x", type := { name := "long" } } },
          Member.toJson { line := 4, item := .method {
            name := "f"
            returnType := { name := "void" }
            parameters := [
              { type := { name := "int" } },
              { type := { name := "String", varargs := true } }] } },
          Member.toJson {
            line := 5, item := .field { name := "x", type := { name := "int" } } }])])])])])]

theorem pairs_lineUp_repeatedJson : ∃ previous current,
    Signature.read "old.txt" overloadedText none = .ok previous ∧
    Api.ofJson? repeatedJson = some current ∧
    (pairs previous current).map (fun pair => (pair.was.line, pair.now.line)) = [(3, 4), (5, 5)] ∧
    ∀ pair ∈ pairs previous current, pair.was.item.LinesUp pair.now.item := by
  have run : ((Signature.read "old.txt" overloadedText none).toOption.bind fun previous =>
      (Api.ofJson? repeatedJson).map fun current =>
        (pairs previous current).map fun pair => (pair.was.line, pair.now.line)) =
      some [(3, 4), (5, 5)] := by
    decide +kernel
  cases whole : Signature.read "old.txt" overloadedText none with
  | error fault =>
      rw [whole] at run
      cases run
  | ok previous =>
      simp only [whole, Except.toOption, Option.bind_some] at run
      obtain ⟨current, decoded, lines⟩ := Option.map_eq_some_iff.mp run
      have lineUp := (pairs_lineUp (.text _ _ _ whole) (.json _ decoded)).2.2
      exact ⟨previous, current, rfl, decoded, lines, fun pair member => (lineUp pair member).1⟩

end Compare

end ApiCompat
