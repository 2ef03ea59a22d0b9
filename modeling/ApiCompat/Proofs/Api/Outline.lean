import ApiCompat.Proofs.Api.Retells

/-!
# Outlines

Annotations, constant values and default values are kept as they are written.
The outline of a description leaves these verbatim texts empty and has no
lines.  What was left out are the texts and the lines: a description without
lines is told by its outline and its verbatim texts (`Api.unplaced_of_outline`).
-/

set_option autoImplicit false

namespace ApiCompat

/-! ## Outlines and verbatim texts -/

def blank (_ : String) : String := ""

def Modifiers.outline (modifiers : Modifiers) : Modifiers :=
  { modifiers with annotations := modifiers.annotations.map blank }

namespace Member

def outline : Member → Member
  | constructor item => .constructor { item with modifiers := item.modifiers.outline }
  | method item =>
      .method { item with
        modifiers := item.modifiers.outline
        defaultValue := item.defaultValue.map blank }
  | field item =>
      .field { item with modifiers := item.modifiers.outline, value := item.value.map blank }

def value? : Member → Option String
  | constructor _ => none
  | method item => item.defaultValue
  | field item => item.value

/-- The texts that the outline leaves out. -/
def verbatims (member : Member) : List String :=
  member.modifiers.annotations ++ member.value?.toList

end Member

def ClassDecl.outline (cls : ClassDecl) : ClassDecl :=
  { cls with
    modifiers := cls.modifiers.outline
    members := cls.members.mapValues (Located.plain Member.outline) }

def ClassDecl.verbatims (cls : ClassDecl) : List String :=
  cls.modifiers.annotations ++ cls.members.values.flatMap fun found => found.item.verbatims

def Package.outline (package : Package) : Package :=
  { package with classes := package.classes.mapValues (Located.plain ClassDecl.outline) }

def Package.verbatims (package : Package) : List String :=
  package.classes.values.flatMap fun found => found.item.verbatims

def Api.outline (api : Api) : Api :=
  { api with packages := api.packages.mapValues (Located.plain Package.outline) }

def Api.verbatims (api : Api) : List String :=
  api.packages.values.flatMap fun found => found.item.verbatims

/-! ## What an outline and the texts tell -/

/-- The outline of a thing and its verbatim texts tell all that `plain` keeps of it. -/
structure Outlined {α β γ : Type} (outline : α → β) (verbatims : α → List String) (plain : α → γ) :
    Prop where
  size : ∀ {thing other}, outline thing = outline other →
    (verbatims thing).length = (verbatims other).length
  equal : ∀ {thing other}, outline thing = outline other → verbatims thing = verbatims other →
    plain thing = plain other

namespace Outlined

variable {κ α β γ : Type} {outline : α → β} {verbatims : α → List String} {plain : α → γ}
  {things others : List α}

theorem size_list (outlined : Outlined outline verbatims plain)
    (same : things.map outline = others.map outline) :
    (things.flatMap verbatims).length = (others.flatMap verbatims).length := by
  induction things generalizing others with
  | nil =>
      obtain rfl := List.map_eq_nil_iff.mp same.symm
      rfl
  | cons thing things ih =>
      obtain ⟨other, others, rfl, first, later⟩ := List.map_eq_cons_iff.mp same.symm
      rw [List.flatMap_cons, List.flatMap_cons, List.length_append, List.length_append,
        outlined.size first.symm, ih later.symm]

/-- The outlines say how many of the texts belong to each thing. -/
theorem equal_list (outlined : Outlined outline verbatims plain)
    (same : things.map outline = others.map outline)
    (texts : things.flatMap verbatims = others.flatMap verbatims) :
    things.map plain = others.map plain := by
  induction things generalizing others with
  | nil =>
      obtain rfl := List.map_eq_nil_iff.mp same.symm
      rfl
  | cons thing things ih =>
      obtain ⟨other, others, rfl, first, later⟩ := List.map_eq_cons_iff.mp same.symm
      rw [List.flatMap_cons, List.flatMap_cons] at texts
      obtain ⟨own, texts⟩ := List.append_inj texts (outlined.size first.symm)
      rw [List.map_cons, List.map_cons, outlined.equal first.symm own, ih later.symm texts]

theorem entry (outlined : Outlined outline verbatims plain) :
    Outlined (fun entry : κ × Located α => (entry.1, entry.2.plain outline))
      (fun entry => verbatims entry.2.item) fun entry => (entry.1, entry.2.plain plain) where
  size same := outlined.size (congrArg (fun entry => entry.2.item) same)
  equal same texts := by
    have keys := congrArg Prod.fst same
    have plains := outlined.equal (congrArg (fun entry => entry.2.item) same) texts
    exact Prod.ext keys (congrArg (Located.mk 0) plains)

theorem map (outlined : Outlined outline verbatims plain) :
    Outlined (fun map : OrderedMap κ (Located α) => map.mapValues (Located.plain outline))
      (fun map => map.values.flatMap fun found => verbatims found.item)
      fun map => map.mapValues (Located.plain plain) where
  size same := by
    simp only [OrderedMap.values, List.flatMap_map]
    exact outlined.entry.size_list (congrArg OrderedMap.entries same)
  equal same texts := by
    simp only [OrderedMap.values, List.flatMap_map] at texts
    have entries := outlined.entry.equal_list (congrArg OrderedMap.entries same) texts
    exact OrderedMap.ext_entries entries

end Outlined

theorem Modifiers.outlined : Outlined outline annotations id where
  size same := by
    have blanks := congrArg (fun modifiers => modifiers.annotations.length) same
    simpa [outline] using blanks
  equal {modifiers other} same texts :=
    calc
      modifiers = { modifiers.outline with annotations := modifiers.annotations } := rfl
      _ = { other.outline with annotations := other.annotations } := by rw [same, texts]
      _ = other := rfl

namespace Member

theorem modifiers_outline (member : Member) :
    member.outline.modifiers = member.modifiers.outline := by
  cases member <;> rfl

theorem value?_outline (member : Member) : member.outline.value? = member.value?.map blank := by
  cases member <;> rfl

/-- The member with other modifiers and another value. -/
def refill (modifiers : Modifiers) (value : Option String) : Member → Member
  | constructor item => .constructor { item with modifiers }
  | method item => .method { item with modifiers, defaultValue := value }
  | field item => .field { item with modifiers, value }

theorem refill_outline (member : Member) :
    member.outline.refill member.modifiers member.value? = member := by
  cases member <;> rfl

theorem key_outline (member : Member) : member.outline.key = member.key := by
  cases member <;> rfl

theorem size_outline {member other : Member} (same : member.outline = other.outline) :
    member.modifiers.annotations.length = other.modifiers.annotations.length ∧
      member.value?.toList.length = other.value?.toList.length := by
  have inModifiers := congrArg modifiers same
  have inValue := congrArg value? same
  rw [modifiers_outline, modifiers_outline] at inModifiers
  rw [value?_outline, value?_outline] at inValue
  refine ⟨Modifiers.outlined.size inModifiers, ?_⟩
  have sizes := congrArg (fun value : Option String => value.toList.length) inValue
  simpa [Option.length_toList] using sizes

theorem outlined : Outlined outline verbatims id where
  size same := by
    obtain ⟨annotations, value⟩ := size_outline same
    rw [verbatims, verbatims, List.length_append, List.length_append, annotations, value]
  equal {member other} same texts := by
    obtain ⟨sameAnnotations, sameValue⟩ := List.append_inj texts (size_outline same).1
    have sameModifiers : member.modifiers = other.modifiers := by
      have inModifiers := congrArg modifiers same
      rw [modifiers_outline, modifiers_outline] at inModifiers
      exact Modifiers.outlined.equal inModifiers sameAnnotations
    have sameValue : member.value? = other.value? := by
      simpa using congrArg List.head? sameValue
    calc
      member = member.outline.refill member.modifiers member.value? := member.refill_outline.symm
      _ = other.outline.refill other.modifiers other.value? := by
        rw [same, sameModifiers, sameValue]
      _ = other := other.refill_outline

end Member

theorem ClassDecl.outlined : Outlined outline verbatims unplaced where
  size same := by
    have inAnnotations := Modifiers.outlined.size (congrArg modifiers same)
    have inMembers := Member.outlined.map.size (congrArg members same)
    rw [verbatims, verbatims, List.length_append, List.length_append, inAnnotations, inMembers]
  equal {cls other} same texts := by
    have sizes := Modifiers.outlined.size (congrArg modifiers same)
    obtain ⟨inAnnotations, inMembers⟩ := List.append_inj texts sizes
    have sameModifiers : cls.modifiers = other.modifiers :=
      Modifiers.outlined.equal (congrArg modifiers same) inAnnotations
    have sameMembers : cls.members.mapValues Located.unplaced =
        other.members.mapValues Located.unplaced :=
      Member.outlined.map.equal (congrArg members same) inMembers
    calc
      cls.unplaced = { cls.outline with
          modifiers := cls.modifiers, members := cls.members.mapValues Located.unplaced } := rfl
      _ = { other.outline with
          modifiers := other.modifiers, members := other.members.mapValues Located.unplaced } := by
        rw [same, sameModifiers, sameMembers]
      _ = other.unplaced := rfl

theorem Package.outlined : Outlined outline verbatims unplaced where
  size same := ClassDecl.outlined.map.size (congrArg classes same)
  equal {package other} same texts := by
    have sameClasses := ClassDecl.outlined.map.equal (congrArg classes same) texts
    calc
      package.unplaced = { package.outline with
          classes := package.classes.mapValues (Located.plain ClassDecl.unplaced) } := rfl
      _ = { other.outline with
          classes := other.classes.mapValues (Located.plain ClassDecl.unplaced) } := by
        rw [same, sameClasses]
      _ = other.unplaced := rfl

/-- Descriptions with one outline and the same verbatim texts differ at most in their lines. -/
theorem Api.unplaced_of_outline {api other : Api} (same : api.outline = other.outline)
    (texts : api.verbatims = other.verbatims) : api.unplaced = other.unplaced := by
  have samePackages := Package.outlined.map.equal (congrArg packages same) texts
  calc
    api.unplaced = { api.outline with
        source := "", packages := api.packages.mapValues (Located.plain Package.unplaced) } := rfl
    _ = { other.outline with
        source := "", packages := other.packages.mapValues (Located.plain Package.unplaced) } := by
      rw [same, samePackages]
    _ = other.unplaced := rfl

end ApiCompat
