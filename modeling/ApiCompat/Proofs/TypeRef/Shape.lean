import ApiCompat.TypeRef

/-!
# Shapes of types

Two types have the same shape exactly when they are equal after every nullness
in them has been reset, so comparing shapes is an equivalence.  A type and its
shape are displayed alike (`display_shape`).
-/

set_option autoImplicit false

namespace ApiCompat.TypeRef

mutual

theorem sameShape_iff :
    (type other : TypeRef) → (sameShape type other = true ↔ shape type = shape other)
  | ⟨_, args, bound, _, _, _⟩, ⟨_, args', bound', _, _, _⟩ => by
      have inArgs := sameShapes_iff args args'
      have inBound := sameShapeBound_iff bound bound'
      simp only [sameShape, shape, Bool.and_eq_true, beq_iff_eq, inArgs, inBound, mk.injEq,
        and_true]
      constructor
      · rintro ⟨⟨⟨⟨name, dims⟩, varargs⟩, types⟩, limit⟩
        exact ⟨name, types, limit, dims, varargs⟩
      · rintro ⟨name, types, limit, dims, varargs⟩
        exact ⟨⟨⟨⟨name, dims⟩, varargs⟩, types⟩, limit⟩
termination_by structural type => type

theorem sameShapes_iff :
    (types others : List TypeRef) → (sameShapes types others = true ↔ shapes types = shapes others)
  | [], [] => by simp [sameShapes]
  | [], _ :: _ => by simp [sameShapes, shapes]
  | _ :: _, [] => by simp [sameShapes, shapes]
  | type :: rest, type' :: rest' => by
      have first := sameShape_iff type type'
      have later := sameShapes_iff rest rest'
      simp [sameShapes, shapes, first, later]
termination_by structural types => types

theorem sameShapeBound_iff :
    (bound other : Bound TypeRef) →
      (sameShapeBound bound other = true ↔ shapeBound bound = shapeBound other)
  | .unbounded, .unbounded => by simp [sameShapeBound]
  | .upper type, .upper type' => by
      have inner := sameShape_iff type type'
      simp [sameShapeBound, shapeBound, inner]
  | .lower type, .lower type' => by
      have inner := sameShape_iff type type'
      simp [sameShapeBound, shapeBound, inner]
  | .unbounded, .upper _ | .unbounded, .lower _ | .upper _, .unbounded
  | .upper _, .lower _ | .lower _, .unbounded | .lower _, .upper _ => by
      simp [sameShapeBound, shapeBound]
termination_by structural bound => bound

end

theorem sameShape_refl (type : TypeRef) : type.sameShape type = true :=
  (sameShape_iff type type).mpr rfl

theorem sameShape_comm (type other : TypeRef) : type.sameShape other = other.sameShape type := by
  rw [Bool.eq_iff_iff, sameShape_iff, sameShape_iff]
  exact eq_comm

theorem sameShape_trans {first second third : TypeRef} (earlier : first.sameShape second = true)
    (later : second.sameShape third = true) : first.sameShape third = true := by
  rw [sameShape_iff] at earlier later ⊢
  exact earlier.trans later

/-- Being plain `void` is a matter of shape. -/
theorem isVoid_of_sameShape {type other : TypeRef} (same : type.sameShape other = true) :
    type.isVoid = other.isVoid := by
  obtain ⟨_, _, _, _, _, _⟩ := type
  obtain ⟨_, _, _, _, _, _⟩ := other
  simp only [sameShape, Bool.and_eq_true, beq_iff_eq] at same
  obtain ⟨⟨⟨⟨rfl, rfl⟩, rfl⟩, _⟩, _⟩ := same
  rfl

/-! ## Resetting again and writing -/

mutual

theorem shape_shape : (type : TypeRef) → shape (shape type) = shape type
  | ⟨_, args, bound, _, _, _⟩ => by
      have inArgs := shapes_shapes args
      have inBound := shapeBound_shapeBound bound
      simp only [shape, inArgs, inBound]
termination_by structural type => type

theorem shapes_shapes : (types : List TypeRef) → shapes (shapes types) = shapes types
  | [] => rfl
  | type :: rest => by
      have first := shape_shape type
      have later := shapes_shapes rest
      simp only [shapes, first, later]
termination_by structural types => types

theorem shapeBound_shapeBound :
    (bound : Bound TypeRef) → shapeBound (shapeBound bound) = shapeBound bound
  | .unbounded => rfl
  | .upper type => by
      have inner := shape_shape type
      simp only [shapeBound, inner]
  | .lower type => by
      have inner := shape_shape type
      simp only [shapeBound, inner]
termination_by structural bound => bound

end

mutual

/-- A type is written without its nullness, at every depth. -/
theorem display_shape : (type : TypeRef) → display (shape type) = display type
  | ⟨_, args, bound, _, _, _⟩ => by
      have inArgs := displayArgs_shapes args
      have inBound := displayBound_shapeBound bound
      simp only [shape, display, inArgs, inBound]
termination_by structural type => type

theorem displayBound_shapeBound :
    (bound : Bound TypeRef) → displayBound (shapeBound bound) = displayBound bound
  | .unbounded => rfl
  | .upper type => by
      have inner := display_shape type
      simp only [shapeBound, displayBound, inner]
  | .lower type => by
      have inner := display_shape type
      simp only [shapeBound, displayBound, inner]
termination_by structural bound => bound

theorem displayArgs_shapes :
    (types : List TypeRef) → displayArgs (shapes types) = displayArgs types
  | [] => rfl
  | type :: rest => by
      have first := display_shape type
      have later := displayMore_shapes rest
      simp only [shapes, displayArgs, first, later]
termination_by structural types => types

theorem displayMore_shapes :
    (types : List TypeRef) → displayMore (shapes types) = displayMore types
  | [] => rfl
  | type :: rest => by
      have first := display_shape type
      have later := displayMore_shapes rest
      simp only [shapes, displayMore, first, later]
termination_by structural types => types

end

end ApiCompat.TypeRef
