import ApiCompat.Proofs.Api.Decoded
import ApiCompat.Proofs.Report.Decoded
import ApiCompat.Proofs.Signature.Stored

/-!
# Nothing is lost in JSON

A description whose members stand under their own keys is read back from both
layouts of its JSON, and so is every report.  Descriptions that were read from
a text or from JSON have their members under their own keys.
-/

set_option autoImplicit false

namespace ApiCompat

open Json Decoder

/-! ## Keys of decoded members -/

def Gives {α : Type} (decode : Decoder α) (holds : α → Prop) : Prop :=
  ∀ (room : Nat) (json : Json) (value : α), decode room json = some value → holds value

theorem gives_required {α : Type} {decode : Decoder α} {holds : α → Prop}
    (gives : Gives decode holds) {record : JsonRecord} {name : String} {value : α}
    (decoded : record.required name decode = some value) : holds value := by
  obtain ⟨json, _, read⟩ := Option.bind_eq_some_iff.mp decoded
  exact gives _ _ _ read

theorem exists_of_mem_mapM {α β : Type} {read : α → Option β} {items : List α} {values : List β}
    (decoded : items.mapM read = some values) :
    ∀ value ∈ values, ∃ item, read item = some value := by
  induction items generalizing values with
  | nil =>
      obtain rfl := Option.some.inj decoded
      exact nofun
  | cons item items ih =>
      simp only [List.mapM_cons, Option.bind_eq_bind, Option.bind_eq_some_iff] at decoded
      obtain ⟨first, here, later, below, whole⟩ := decoded
      obtain rfl := Option.some.inj whole
      exact List.forall_mem_cons.mpr ⟨⟨item, here⟩, ih below⟩

theorem gives_entries {α : Type} {decode : Decoder α} {holds : α → Prop}
    (gives : Gives decode holds) :
    Gives (entries decode) fun items => ∀ entry ∈ items, holds entry.2 := by
  intro room json items decoded entry member
  unfold Decoder.entries at decoded
  split at decoded
  · obtain ⟨field, read⟩ := exists_of_mem_mapM decoded entry member
    obtain ⟨value, here, rfl⟩ := Option.map_eq_some_iff.mp read
    exact gives _ _ _ here
  · cases decoded

theorem Member.index_keyed (members : List (Located Member)) :
    ∀ entry ∈ (Member.index members).entries, entry.1 = entry.2.item.key := by
  intro entry stored
  obtain ⟨member, _, rfl⟩ := List.mem_map.mp (OrderedMap.mem_of_mem_ofList stored)
  rfl

theorem ClassDecl.gives_keyed : Gives ClassDecl.ofJson? fun cls => cls.item.Keyed := by
  intro room json cls decoded
  simp only [ClassDecl.ofJson?, Option.bind_eq_bind, Option.bind_eq_some_iff] at decoded
  obtain ⟨_, _, _, _, _, _, _, _, _, _, _, _, _, _, _, _, members, _, _, _, whole⟩ := decoded
  obtain rfl := Option.some.inj whole
  exact Member.index_keyed members

theorem Package.gives_keyed :
    Gives Package.ofJson? fun package => ∀ cls ∈ package.item.classes.values, cls.item.Keyed := by
  intro room json package decoded
  simp only [Package.ofJson?, Option.bind_eq_bind, Option.bind_eq_some_iff] at decoded
  obtain ⟨record, _, _, _, classes, read, _, _, whole⟩ := decoded
  obtain rfl := Option.some.inj whole
  have keyed := gives_required (gives_entries ClassDecl.gives_keyed) read
  intro cls stored
  obtain ⟨entry, member, rfl⟩ := List.mem_map.mp stored
  exact keyed entry (OrderedMap.mem_of_mem_ofList member)

theorem Api.gives_keyed : Gives Api.decode? fun api => ∀ cls ∈ api.classes, cls.item.Keyed := by
  intro room json api decoded
  simp only [Api.decode?, Option.bind_eq_bind, Option.bind_eq_some_iff] at decoded
  obtain ⟨record, _, _, _, _, _, packages, read, whole⟩ := decoded
  obtain rfl := Option.some.inj whole
  have keyed := gives_required (gives_entries Package.gives_keyed) read
  intro cls stored
  obtain ⟨package, held, inside⟩ := List.mem_flatMap.mp stored
  obtain ⟨entry, member, rfl⟩ := List.mem_map.mp held
  exact keyed entry (OrderedMap.mem_of_mem_ofList member) cls inside

theorem Api.Keyed.classes {api : Api} (keyed : api.Keyed) :
    ∀ cls ∈ api.classes, cls.item.Keyed := by
  intro cls stored
  obtain ⟨package, held, inside⟩ := List.mem_flatMap.mp stored
  obtain ⟨entry, member, rfl⟩ := List.mem_map.mp held
  obtain ⟨entry', member', rfl⟩ := List.mem_map.mp inside
  exact ((keyed entry member).2 entry' member').2

/-! ## Both layouts -/

/-- A value is loaded from both layouts of its JSON. -/
def ComesBack {α : Type} (load : Json → Option α) (json : Json) (value : α) : Prop :=
  (Json.read (compact json)).bind load = some value ∧
    (Json.read (pretty json)).bind load = some value

theorem Decodes.comesBack {α : Type} {decode : Decoder α} {json : Json} {value : α}
    (decodes : Decodes decode json value) (plain : Plain json) (sized : json.WordSized) {room : Nat}
    (deep : json.depth ≤ room) : ComesBack (decode room) json value := by
  rw [ComesBack, read_compact plain, read_pretty plain]
  exact ⟨decodes room ⟨sized, deep⟩, decodes room ⟨sized, deep⟩⟩

/-- Descriptions and reports are loaded from their JSON as they were, if their numbers fit machine
words.  A description must not be nested deeper than the limit with which it is loaded; reports
never are. -/
theorem comesBack_toJson :
    (∀ api : Api, (∀ cls ∈ api.classes, cls.item.Keyed) → api.toJson.WordSized →
      (api.toJson.depth ≤ nestingLimit → ComesBack Api.ofJson? api.toJson api) ∧
      ∀ room, api.toJson.depth ≤ room → ComesBack (Api.decode? room) api.toJson api) ∧
    (∀ (source text : String) (requested : Option NullMode) (api : Api),
      Signature.read source text requested = .ok api → ∀ cls ∈ api.classes, cls.item.Keyed) ∧
    (∀ (json : Json) (api : Api), Api.ofJson? json = some api →
      ∀ cls ∈ api.classes, cls.item.Keyed) ∧
    ∀ report : Report, report.toJson.WordSized →
      ComesBack Report.ofJson? report.toJson report ∧
      ∀ room, report.toJson.depth ≤ room →
        ComesBack (Report.decode? room) report.toJson report := by
  refine ⟨fun api keyed sized => ?_, fun source text requested api whole => ?_,
    fun json api decoded => ?_, fun report sized => ?_⟩
  · have atRoom : ∀ room, api.toJson.depth ≤ room → ComesBack (Api.decode? room) api.toJson api :=
      fun _ => (api.decodes keyed).comesBack api.plain_toJson sized
    exact ⟨atRoom nestingLimit, atRoom⟩
  · exact (Signature.formed_of_read whole).1.keyed.classes
  · exact Api.gives_keyed nestingLimit json api decoded
  · have atRoom : ∀ room, report.toJson.depth ≤ room →
        ComesBack (Report.decode? room) report.toJson report :=
      fun _ => report.decodes.comesBack report.plain_toJson sized
    have shallow : report.toJson.depth ≤ nestingLimit :=
      Nat.le_trans report.depth_toJson (by decide)
    exact ⟨atRoom nestingLimit shallow, atRoom⟩

/-- A class under another name than its own, with a type inside a bound inside a type. -/
def serializedSample : Api where
  source := "api.txt"
  nullMode := .nullAware
  packages := OrderedMap.ofList [("some key", { line := 3, item := {
    name := "p"
    classes := OrderedMap.ofList [("another key", { line := 4, item := {
      name := "C"
      qualifiedName := "p.C"
      kind := .interfaceKind
      members := Member.index [{ line := 5, item := .field {
        name := "x"
        type := {
          name := "List"
          args := [{ name := "?", bound := .lower { name := "int", arrayDims := 2 } }]
          nullness := .nullable } } }] } })] } })]

/-- A report whose counts are not those of its findings. -/
def miscountedReport : Report where
  previous := "old.txt"
  current := "new.txt"
  findings := [
    .warning .removedMethod "Removed method p.C.f()" "p.C.f()" { file := "old.txt", line := 4 },
    { issue := .removedClass, code := 8, severity := .error, message := "Removed class \"D\"",
      target := "p.D", location := { file := "old.txt", line := 9 } }]
  errors := 7
  warnings := 0

theorem comesBack_serializedSample :
    ComesBack Api.ofJson? serializedSample.toJson serializedSample ∧
      miscountedReport.errors ≠ (Report.ofFindings "" "" miscountedReport.findings).errors ∧
      ComesBack Report.ofJson? miscountedReport.toJson miscountedReport := by
  have keyed : ∀ cls ∈ serializedSample.classes, cls.item.Keyed := by decide +kernel
  have sized : serializedSample.toJson.WordSized := by
    simp [serializedSample, WordSized, Api.toJson, Package.toJson, ClassDecl.toJson, Member.toJson,
      Field.jsonFields, Modifiers.toJson, TypeRef.toJson, TypeRef.argsFields, TypeRef.toJsons,
      TypeRef.boundFields, fieldIfAny, fieldIfSome, Member.index, OrderedMap.ofList,
      OrderedMap.insert, OrderedMap.empty, OrderedMap.values, OrderedSet.empty, putEntry]
  have shallow : serializedSample.toJson.depth ≤ nestingLimit := by decide +kernel
  have counts : miscountedReport.toJson.WordSized := by
    simp [miscountedReport, WordSized, Report.toJson, Finding.toJson, Location.toJson,
      Finding.warning, Issue.code]
  exact ⟨(comesBack_toJson.1 _ keyed sized).1 shallow, by decide,
    (comesBack_toJson.2.2.2 _ counts).1⟩

end ApiCompat
