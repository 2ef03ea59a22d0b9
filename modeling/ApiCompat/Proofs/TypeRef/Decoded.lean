import ApiCompat.Api.OfJson
import ApiCompat.Proofs.Json.Decoded

/-!
# Types from their JSON

A type is written as its fields, without those that are empty.  Decoding gives
it back, however deep it is nested in itself.
-/

set_option autoImplicit false

namespace ApiCompat

open Json Decoder

theorem Nullness.ofJsonWord?_jsonWord (nullness : Nullness) :
    Nullness.ofJsonWord? nullness.jsonWord = some nullness := by
  cases nullness <;> rfl

namespace TypeRef

theorem toJsons_eq (types : List TypeRef) : toJsons types = types.map toJson := by
  induction types with
  | nil => rfl
  | cons type types ih => rw [toJsons, ih, List.map_cons]

theorem argsFields_eq (args : List TypeRef) : argsFields args = fieldIfAny "args" toJson args := by
  cases args with
  | nil => rfl
  | cons type types =>
      rw [argsFields, toJsons_eq]
      rfl

def boundJson (kind : String) (type : TypeRef) : Json :=
  object [("kind", string kind), ("bound", type.toJson)]

def boundJson? : Bound TypeRef → Option Json
  | .unbounded => none
  | .upper type => some (boundJson "extends" type)
  | .lower type => some (boundJson "super" type)

theorem boundFields_eq (bound : Bound TypeRef) :
    boundFields bound = fieldIfSome "bound" id (boundJson? bound) := by
  cases bound <;> rfl

def jsonFields (type : TypeRef) : List (String × Json) :=
  [("name", string type.name)] ++ fieldIfAny "args" toJson type.args ++
    fieldIfSome "bound" id (boundJson? type.bound) ++
    [("array_dims", natural type.arrayDims), ("varargs", bool type.varargs),
      ("nullability", string type.nullness.jsonWord)]

theorem toJson_eq (type : TypeRef) : type.toJson = object type.jsonFields := by
  cases type
  rw [toJson, argsFields_eq, boundFields_eq]
  rfl

mutual

@[simp] theorem plain_toJson : (type : TypeRef) → Plain type.toJson
  | ⟨_, args, bound, _, _, _⟩ => by
      have inArgs := plain_argsFields args
      have inBound := plain_boundFields bound
      simp [toJson, inArgs, inBound]
termination_by structural type => type

theorem plain_argsFields : (args : List TypeRef) → PlainFields (argsFields args)
  | [] => plainFields_nil
  | type :: rest => by
      have first := plain_toJson type
      have later := plain_toJsons rest
      simp only [argsFields, plainFields_cons, plain_array, List.forall_mem_cons]
      exact ⟨⟨first, later⟩, plainFields_nil⟩
termination_by structural args => args

theorem plain_toJsons : (types : List TypeRef) → ∀ json ∈ toJsons types, Plain json
  | [] => nofun
  | type :: rest => List.forall_mem_cons.mpr ⟨plain_toJson type, plain_toJsons rest⟩
termination_by structural types => types

theorem plain_boundFields : (bound : Bound TypeRef) → PlainFields (boundFields bound)
  | .unbounded => plainFields_nil
  | .upper type => by
      have inner := plain_toJson type
      simp [boundFields, inner]
  | .lower type => by
      have inner := plain_toJson type
      simp [boundFields, inner]
termination_by structural bound => bound

end

theorem toJson_ne_null (type : TypeRef) : type.toJson ≠ null := by
  rw [toJson_eq]
  exact nofun

theorem jsonFields_names (type : TypeRef) : (type.jsonFields.map Prod.fst).Sublist
    ["name", "args", "bound", "array_dims", "varargs", "nullability"] := by
  have names := (List.Sublist.refl ["name"]).append
    ((sublist_fieldIfAny "args" toJson type.args).append
      ((sublist_fieldIfSome "bound" id (boundJson? type.bound)).append
        (List.Sublist.refl ["array_dims", "varargs", "nullability"])))
  simpa [jsonFields] using names

theorem depth_arg {type arg : TypeRef} (member : arg ∈ type.args) :
    arg.toJson.depth < type.toJson.depth := by
  have field : ("args", array (type.args.map toJson)) ∈ type.jsonFields := by
    cases args : type.args with
    | nil => simp [args] at member
    | cons first rest => simp [jsonFields, args, fieldIfAny]
  rw [toJson_eq type]
  exact Nat.lt_trans (depth_item_lt (List.mem_map_of_mem member)) (depth_field_lt field)

theorem depth_bound {type inner : TypeRef} {kind : String}
    (bounded : boundJson? type.bound = some (boundJson kind inner)) :
    inner.toJson.depth < type.toJson.depth := by
  have field : ("bound", boundJson kind inner) ∈ type.jsonFields := by
    simp [jsonFields, bounded, fieldIfSome]
  rw [toJson_eq type]
  exact Nat.lt_trans (@depth_field_lt _ ("bound", inner.toJson) (by simp)) (depth_field_lt field)

theorem decodes_boundJson {held : Bool} {decode : Decoder TypeRef} {kind : String}
    {type : TypeRef} {build : TypeRef → Bound TypeRef}
    (meaning : Bound.ofJsonWord? kind = some build) (decodes : Decodes decode type.toJson type) :
    Decodes (Bound.ofJson? held decode) (boundJson kind type) (build type) := by
  refine decodes_record (by decide) (List.Sublist.refl _) fun room fitting => ?_
  refine bind_required fitting (decodes_word held meaning) (by simp) ?_
  exact bind_required fitting decodes (by simp) rfl

theorem withDefault_bound {held : Bool} {decode : Decoder TypeRef} {bound : Bound TypeRef}
    {fields : List (String × Json)} {room : Nat}
    (fitting : ∀ field ∈ fields, field.2.Fits room)
    (inside : ∀ kind type, boundJson? bound = some (boundJson kind type) →
      Decodes decode type.toJson type)
    (found : (object fields).field? "bound" = boundJson? bound) :
    ∃ chosen, (recordOf fields room).withDefault "bound"
        (Bound.ofJson? held decode).orNull none = some chosen ∧
      chosen.getD .unbounded = bound := by
  cases bound with
  | unbounded => exact ⟨none, withDefault_absent _ _ found, rfl⟩
  | upper type =>
      have whole := @decodes_boundJson held decode "extends" type .upper rfl (inside _ _ rfl)
      exact ⟨_, withDefault_present fitting (decodes_orNull whole nofun) _ found, rfl⟩
  | lower type =>
      have whole := @decodes_boundJson held decode "super" type .lower rfl (inside _ _ rfl)
      exact ⟨_, withDefault_present fitting (decodes_orNull whole nofun) _ found, rfl⟩

/-- By induction on how deep a type may be nested in itself: what stands in a type takes two more
containers away from it. -/
theorem decodes_within (held : Bool) (fuel : Nat) (type : TypeRef)
    (deep : type.toJson.depth ≤ fuel) :
    Decodes (decodeWithin held fuel) type.toJson type := by
  induction fuel generalizing type with
  | zero =>
      rw [toJson_eq] at deep
      exact absurd deep (Nat.not_succ_le_zero _)
  | succ fuel ih =>
      have args : ∀ arg ∈ type.args, Decodes (decodeWithin held fuel) arg.toJson arg :=
        fun arg member =>
          ih arg (Nat.le_of_lt_succ (Nat.lt_of_lt_of_le (depth_arg member) deep))
      have inside : ∀ kind inner, boundJson? type.bound = some (boundJson kind inner) →
          Decodes (decodeWithin held fuel) inner.toJson inner :=
        fun kind inner bounded =>
          ih inner (Nat.le_of_lt_succ (Nat.lt_of_lt_of_le (depth_bound bounded) deep))
      rw [toJson_eq]
      refine decodes_record (by decide) type.jsonFields_names fun room fitting => ?_
      obtain ⟨bound, readBound, same⟩ := @withDefault_bound held _ type.bound _ room fitting inside
        (by simp [jsonFields])
      refine bind_required fitting (decodes_text type.name) (by simp [jsonFields]) ?_
      refine bind_fieldIfAny fitting args (by simp [jsonFields]) ?_
      refine bind_eq_some_of readBound ?_
      refine bind_withDefault fitting (decodes_count type.arrayDims) (by simp [jsonFields]) ?_
      refine bind_withDefault fitting (decodes_truth type.varargs) (by simp [jsonFields]) ?_
      refine bind_withDefault fitting (decodes_word held type.nullness.ofJsonWord?_jsonWord)
        (by simp [jsonFields]) ?_
      rw [same]
      cases type
      rfl

theorem decodes (held : Bool) (type : TypeRef) : Decodes (ofJson? held) type.toJson type :=
  fun room fits => decodes_within held room type fits.2 room fits

end TypeRef

end ApiCompat
