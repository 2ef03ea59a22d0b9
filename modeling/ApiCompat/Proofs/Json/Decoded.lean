import ApiCompat.Json.Decode
import ApiCompat.Proofs.Json.Printed

/-!
# Decoding what was encoded

`Decodes` relates a decoder to the JSON of a value: wherever there is room for
the JSON, the decoder gives the value.  There is one lemma for each kind of
decoder.  A record is decoded field by field, and a field is looked up by its
name in what was written.
-/

set_option autoImplicit false

namespace ApiCompat

namespace Json

/-! ## Numbers and nesting -/

/-- No number is too large for a machine word. -/
def WordSized (json : Json) : Prop :=
  Throughout (fun inner => ∀ number : Nat, inner = natural number → number < 0x10000000000000000)
    json

mutual

/-- How many containers are inside each other. -/
def depth : Json → Nat
  | array items => deepestItem items + 1
  | object fields => deepestField fields + 1
  | _ => 0
termination_by structural json => json

def deepestItem : List Json → Nat
  | [] => 0
  | item :: rest => max (depth item) (deepestItem rest)
termination_by structural items => items

def deepestField : List (String × Json) → Nat
  | [] => 0
  | field :: rest => max (fieldDepth field) (deepestField rest)
termination_by structural fields => fields

def fieldDepth : String × Json → Nat
  | (_, value) => depth value
termination_by structural field => field

end

theorem deepestItem_le {items : List Json} {room : Nat} :
    deepestItem items ≤ room ↔ ∀ item ∈ items, depth item ≤ room := by
  induction items with
  | nil => simp [deepestItem]
  | cons item items ih => rw [deepestItem, Nat.max_le, ih, List.forall_mem_cons]

theorem deepestField_le {fields : List (String × Json)} {room : Nat} :
    deepestField fields ≤ room ↔ ∀ field ∈ fields, depth field.2 ≤ room := by
  induction fields with
  | nil => simp [deepestField]
  | cons field fields ih =>
      have first : fieldDepth field = depth field.2 := by cases field; rfl
      rw [deepestField, Nat.max_le, ih, first, List.forall_mem_cons]

theorem depth_item_lt {items : List Json} {item : Json} (member : item ∈ items) :
    depth item < depth (array items) :=
  Nat.lt_succ_of_le (deepestItem_le.mp (Nat.le_refl _) item member)

theorem depth_field_lt {fields : List (String × Json)} {field : String × Json}
    (member : field ∈ fields) : depth field.2 < depth (object fields) :=
  Nat.lt_succ_of_le (deepestField_le.mp (Nat.le_refl _) field member)

/-- A value that a decoder with so much room can hold: its numbers are words and it is not nested
deeper. -/
def Fits (room : Nat) (json : Json) : Prop := json.WordSized ∧ json.depth ≤ room

theorem fits_natural {room value : Nat} (fits : Fits room (natural value)) :
    value < 0x10000000000000000 :=
  fits.1 _ .self value rfl

theorem fits_array {room : Nat} {items : List Json} (fits : Fits room (array items)) :
    ∃ inner, room = inner + 1 ∧ ∀ item ∈ items, Fits inner item := by
  obtain ⟨sized, deep⟩ := fits
  cases room with
  | zero => exact absurd deep (Nat.not_succ_le_zero _)
  | succ room =>
      have items := deepestItem_le.mp (Nat.le_of_succ_le_succ deep)
      exact ⟨room, rfl, fun item member =>
        ⟨(throughout_array.mp sized).2 item member, items item member⟩⟩

theorem fits_object {room : Nat} {fields : List (String × Json)}
    (fits : Fits room (object fields)) :
    ∃ inner, room = inner + 1 ∧ ∀ field ∈ fields, Fits inner field.2 := by
  obtain ⟨sized, deep⟩ := fits
  cases room with
  | zero => exact absurd deep (Nat.not_succ_le_zero _)
  | succ room =>
      have fields := deepestField_le.mp (Nat.le_of_succ_le_succ deep)
      exact ⟨room, rfl, fun field member =>
        ⟨(throughout_object.mp sized).2 field member, fields field member⟩⟩

theorem Fits.fields {room : Nat} {fields rest : List (String × Json)}
    (fits : Fits room (object fields)) (part : ∀ field ∈ rest, field ∈ fields) :
    Fits room (object rest) := by
  obtain ⟨inner, rfl, each⟩ := fits_object fits
  refine ⟨throughout_object.mpr ⟨nofun, fun field member => (each field (part field member)).1⟩, ?_⟩
  exact Nat.succ_le_succ
    (deepestField_le.mpr fun field member => (each field (part field member)).2)

/-! ## Values held whole -/

theorem not_exceedsDouble {value : Nat} (small : value < 0x10000000000000000) :
    (Decimal.mk value 0).exceedsDouble = false := by
  have digits : (Nat.toDigits 10 value).length ≤ 20 :=
    (Nat.length_toDigits_le_iff (by omega) (by omega)).mpr
      (Nat.lt_of_lt_of_le small (by decide))
  have few : ¬((Nat.toDigits 10 value).length : Int) + 0 > 309 := by omega
  have fewer : ((Nat.toDigits 10 value).length : Int) + 0 < 309 := by omega
  simp only [Decimal.exceedsDouble, if_neg few, if_pos fewer, ite_self]

mutual

theorem isStorable_of_fits : (json : Json) → Plain json → ∀ room : Nat, Fits room json →
    isStorable room json = true
  | null, _, _, _ => rfl
  | bool _, _, _, _ => rfl
  | natural value, _, _, fits => by simp [isStorable, not_exceedsDouble (fits_natural fits)]
  | numeral text, plain, _, _ => absurd plain (not_plain_numeral text)
  | string _, _, _, _ => rfl
  | array items, plain, room, fits => by
      obtain ⟨inner, rfl, each⟩ := fits_array fits
      have all := areStorable_of_fits items (plain_array.mp plain) inner each
      simpa [isStorable] using all
  | object fields, plain, room, fits => by
      obtain ⟨inner, rfl, each⟩ := fits_object fits
      have all := areFieldsStorable_of_fits fields (plain_object.mp plain) inner each
      simpa [isStorable] using all
  | broken, plain, _, _ => absurd plain not_plain_broken
termination_by structural json => json

theorem areStorable_of_fits : (items : List Json) → (∀ item ∈ items, Plain item) →
    ∀ room : Nat, (∀ item ∈ items, Fits room item) → areStorable room items = true
  | [], _, _, _ => rfl
  | item :: rest, plain, room, fits => by
      have first := isStorable_of_fits item (plain item List.mem_cons_self) room
        (fits item List.mem_cons_self)
      have later := areStorable_of_fits rest
        (fun item member => plain item (List.mem_cons_of_mem _ member)) room
        (fun item member => fits item (List.mem_cons_of_mem _ member))
      simp [areStorable, first, later]
termination_by structural items => items

theorem areFieldsStorable_of_fits : (fields : List (String × Json)) → PlainFields fields →
    ∀ room : Nat, (∀ field ∈ fields, Fits room field.2) → areFieldsStorable room fields = true
  | [], _, _, _ => rfl
  | field :: rest, plain, room, fits => by
      have first := isFieldStorable_of_fits field (plain field List.mem_cons_self) room
        (fits field List.mem_cons_self)
      have later := areFieldsStorable_of_fits rest
        (fun field member => plain field (List.mem_cons_of_mem _ member)) room
        (fun field member => fits field (List.mem_cons_of_mem _ member))
      simp [areFieldsStorable, first, later]
termination_by structural fields => fields

theorem isFieldStorable_of_fits : (field : String × Json) → Plain field.2 →
    ∀ room : Nat, Fits room field.2 → isFieldStorable room field = true
  | (_, value), plain, room, fits => isStorable_of_fits value plain room fits
termination_by structural field => field

end

/-! ## Fields by name -/

section Lookup

variable {α : Type} {name other : String}

@[simp] theorem field?_nil : (object []).field? name = none := rfl

@[simp] theorem field?_cons (value : Json) (rest : List (String × Json)) :
    (object ((other, value) :: rest)).field? name =
      if other = name then some value else (object rest).field? name := by
  by_cases same : other = name <;> simp [field?, same]

@[simp] theorem field?_append (fields rest : List (String × Json)) :
    (object (fields ++ rest)).field? name =
      ((object fields).field? name).or ((object rest).field? name) := by
  simp only [field?, List.find?_append]
  cases fields.find? fun field => field.1 == name <;> rfl

@[simp] theorem field?_fieldIfAny (encode : α → Json) (items : List α) :
    (object (fieldIfAny other encode items)).field? name =
      if other = name ∧ items ≠ [] then some (array (items.map encode)) else none := by
  cases items <;> simp [fieldIfAny]

@[simp] theorem field?_fieldIfSome (encode : α → Json) (value : Option α) :
    (object (fieldIfSome other encode value)).field? name =
      if other = name then value.map encode else none := by
  cases value <;> simp [fieldIfSome]

theorem sublist_fieldIfAny (name : String) (encode : α → Json) (items : List α) :
    ((fieldIfAny name encode items).map Prod.fst).Sublist [name] := by
  cases items with
  | nil => exact List.nil_sublist _
  | cons item items => exact List.Sublist.refl _

theorem sublist_fieldIfSome (name : String) (encode : α → Json) (value : Option α) :
    ((fieldIfSome name encode value).map Prod.fst).Sublist [name] := by
  cases value with
  | none => exact List.nil_sublist _
  | some value => exact List.Sublist.refl _

theorem mem_of_field? {fields : List (String × Json)} {json : Json}
    (found : (object fields).field? name = some json) : ∃ key, (key, json) ∈ fields := by
  obtain ⟨entry, hit, rfl⟩ := Option.map_eq_some_iff.mp found
  exact ⟨entry.1, List.mem_of_find?_eq_some hit⟩

theorem untag?_cons {tag : String} {fields : List (String × Json)}
    (others : name ∉ fields.map Prod.fst) :
    untag? name (object ((name, string tag) :: fields)) = some (tag, object fields) := by
  have different : ∀ field ∈ fields, field.1 ≠ name :=
    fun field member same => others (same ▸ List.mem_map_of_mem member)
  have noMore : fields.filter (fun field => field.1 == name) = [] :=
    List.filter_eq_nil_iff.mpr fun field member => by simpa using different field member
  have all : fields.filter (fun field => field.1 != name) = fields :=
    List.filter_eq_self.mpr fun field member => by simpa using different field member
  simp [untag?, noMore, all]

end Lookup

end Json

open Json Decoder

section

variable {α : Type}

/-- Wherever the JSON fits, it is decoded as the value. -/
def Decodes (decode : Decoder α) (json : Json) (value : α) : Prop :=
  ∀ room : Nat, json.Fits room → decode room json = some value

theorem decodes_text (value : String) : Decodes text (string value) value := fun _ _ => rfl

theorem decodes_truth (value : Bool) : Decodes truth (bool value) value := fun _ _ => rfl

theorem decodes_count (value : Nat) : Decodes count (natural value) value :=
  fun _ fits => if_pos (fits_natural fits)

theorem decodes_code (value : UInt32) : Decodes Decoder.code (natural value.toNat) value := by
  intro room _
  have small : value.toNat < 0x100000000 := value.toNat_lt
  simp [Decoder.code, naturalBelow, small]

theorem decodes_word {meaning? : String → Option α} {word : String} {value : α} (emptyToo : Bool)
    (meaning : meaning? word = some value) :
    Decodes (Decoder.word emptyToo meaning?) (string word) value :=
  fun _ _ => meaning

theorem mapM_eq_some_of_forall {β : Type} {items : List α} {read : α → Option β} {value : α → β}
    (each : ∀ item ∈ items, read item = some (value item)) :
    items.mapM read = some (items.map value) := by
  induction items with
  | nil => rfl
  | cons item items ih =>
      have first := each item List.mem_cons_self
      have later := ih fun item member => each item (List.mem_cons_of_mem _ member)
      simp [first, later]

theorem decodes_list {decode : Decoder α} {encode : α → Json} {items : List α}
    (each : ∀ item ∈ items, Decodes decode (encode item) item) :
    Decodes (list decode) (array (items.map encode)) items := by
  intro room fits
  obtain ⟨inner, rfl, fitting⟩ := fits_array fits
  have whole := @mapM_eq_some_of_forall α α items (fun item => decode inner (encode item)) id
    fun item member => each item member inner
      (fitting _ (List.mem_map_of_mem member))
  rw [List.map_id] at whole
  rw [Decoder.list, List.mapM_map]
  exact whole

theorem decodes_entries {decode : Decoder α} {encode : α → Json} {items : List (String × α)}
    (each : ∀ item ∈ items, Decodes decode (encode item.2) item.2) :
    Decodes (entries decode) (object (items.map fun item => (item.1, encode item.2))) items := by
  intro room fits
  obtain ⟨inner, rfl, fitting⟩ := fits_object fits
  have whole := @mapM_eq_some_of_forall (String × α) (String × α) items
    (fun item => (decode inner (encode item.2)).map fun value => (item.1, value)) id
    fun item member => by
      rw [each item member inner (fitting _ (List.mem_map_of_mem member))]
      rfl
  rw [List.map_id] at whole
  rw [Decoder.entries, List.mapM_map]
  exact whole

theorem decodes_orNull {decode : Decoder α} {json : Json} {value : α}
    (decodes : Decodes decode json value) (visible : json ≠ null) :
    Decodes decode.orNull json (some value) := by
  intro room fits
  unfold Decoder.orNull
  split
  · exact absurd rfl visible
  · rw [decodes room fits]
    rfl

/-! ## Records -/

theorem bind_eq_some_of {β : Type} {first : Option α} {next : α → Option β} {value : α}
    {result : β} (found : first = some value) (rest : next value = some result) :
    first >>= next = some result := by
  rw [found]
  exact rest

def recordOf (fields : List (String × Json)) (room : Nat) : JsonRecord :=
  { fields, inOrder := false, room }

/-- Fields that are written in the order of their names, some of them perhaps left out. -/
theorem decodes_record {names : List String} {fields : List (String × Json)}
    {body : JsonRecord → Option α} {value : α} (distinct : names.Nodup)
    (written : (fields.map Prod.fst).Sublist names)
    (filled : ∀ room : Nat, (∀ field ∈ fields, field.2.Fits room) →
      body (recordOf fields room) = some value) :
    Decodes (fun room json => JsonRecord.ofJson? names room json >>= body) (object fields)
      value := by
  intro room fits
  obtain ⟨inner, rfl, fitting⟩ := fits_object fits
  have own : fields.filter (fun field => names.contains field.1) = fields := by
    rw [List.filter_eq_self]
    intro field member
    exact List.contains_iff_mem.mpr (written.subset (List.mem_map_of_mem member))
  have record : JsonRecord.ofJson? names (inner + 1) (object fields) =
      some (recordOf fields inner) := by
    simp only [JsonRecord.ofJson?, own, if_pos (distinct.sublist written)]
    rfl
  simp only [record]
  exact filled inner fitting

section Fields

variable {fields : List (String × Json)} {name : String} {room : Nat} {decode : Decoder α}
  {json : Json} {value : α} {β : Type} {next : α → Option β} {result : β}

theorem decode_field (fitting : ∀ field ∈ fields, field.2.Fits room)
    (decodes : Decodes decode json value) (found : (object fields).field? name = some json) :
    decode room json = some value := by
  obtain ⟨key, member⟩ := mem_of_field? found
  exact decodes room (fitting _ member)

theorem withDefault_absent (decode : Decoder α) (default : α)
    (absent : (object fields).field? name = none) :
    (recordOf fields room).withDefault name decode default = some default := by
  have here : (recordOf fields room).find? name = none := absent
  rw [JsonRecord.withDefault, here]

theorem withDefault_present (fitting : ∀ field ∈ fields, field.2.Fits room)
    (decodes : Decodes decode json value) (default : α)
    (found : (object fields).field? name = some json) :
    (recordOf fields room).withDefault name decode default = some value := by
  have here : (recordOf fields room).find? name = some json := found
  rw [JsonRecord.withDefault, here]
  exact decode_field fitting decodes found

/-! Decoding goes on behind each field with the value of that field. -/

theorem bind_required (fitting : ∀ field ∈ fields, field.2.Fits room)
    (decodes : Decodes decode json value) (found : (object fields).field? name = some json)
    (rest : next value = some result) :
    (recordOf fields room).required name decode >>= next = some result := by
  have here : (recordOf fields room).find? name = some json := found
  rw [JsonRecord.required, here]
  exact bind_eq_some_of (decode_field fitting decodes found) rest

theorem bind_withDefault (fitting : ∀ field ∈ fields, field.2.Fits room)
    (decodes : Decodes decode json value) {default : α}
    (found : (object fields).field? name = some json) (rest : next value = some result) :
    (recordOf fields room).withDefault name decode default >>= next = some result :=
  bind_eq_some_of (withDefault_present fitting decodes default found) rest

/-- A list that is left out when it is empty. -/
theorem bind_fieldIfAny {next : List α → Option β} {encode : α → Json} {items : List α}
    (fitting : ∀ field ∈ fields, field.2.Fits room)
    (each : ∀ item ∈ items, Decodes decode (encode item) item)
    (found : (object fields).field? name = (object (fieldIfAny name encode items)).field? name)
    (rest : next items = some result) :
    (recordOf fields room).withDefault name (list decode) [] >>= next = some result := by
  refine bind_eq_some_of ?_ rest
  cases items with
  | nil => exact withDefault_absent _ _ found
  | cons item items =>
      refine withDefault_present fitting (decodes_list each) _ ?_
      rw [found]
      simp [fieldIfAny]

/-- A value that is left out when there is none. -/
theorem bind_fieldIfSome {next : Option α → Option β} {encode : α → Json} {chosen : Option α}
    (fitting : ∀ field ∈ fields, field.2.Fits room)
    (each : ∀ value ∈ chosen, Decodes decode (encode value) value ∧ encode value ≠ null)
    (found : (object fields).field? name = chosen.map encode) (rest : next chosen = some result) :
    (recordOf fields room).withDefault name decode.orNull none >>= next = some result := by
  refine bind_eq_some_of ?_ rest
  cases chosen with
  | none => exact withDefault_absent _ _ found
  | some value =>
      obtain ⟨decodes, visible⟩ := each value rfl
      exact withDefault_present fitting (decodes_orNull decodes visible) _ found

/-- A value that is written as `null` when there is none. -/
theorem bind_optional {next : Option α → Option β} {encode : α → Json} {chosen : Option α}
    (fitting : ∀ field ∈ fields, field.2.Fits room)
    (each : ∀ value ∈ chosen, Decodes decode (encode value) value ∧ encode value ≠ null)
    (found : (object fields).field? name = some (orNull encode chosen))
    (rest : next chosen = some result) :
    (recordOf fields room).optional name decode >>= next = some result := by
  have here : (recordOf fields room).find? name = some (orNull encode chosen) := found
  refine bind_eq_some_of ?_ rest
  rw [JsonRecord.optional, here]
  cases chosen with
  | none => rfl
  | some value =>
      obtain ⟨decodes, visible⟩ := each value rfl
      exact decode_field fitting (decodes_orNull decodes visible) found

end Fields

end

end ApiCompat
