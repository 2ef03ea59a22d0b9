import ApiCompat.Proofs.Grammar.Documented

/-!
# Types with all the marks about them

A site is a type where it stands, with every mark in front of the declaration
whose own type it is.  Of two marks directly behind each other only the second
one counts (`TypeTree.Overruled`).  In a `Consistent` tree all the marks that
count agree at every site, and no member is declared twice.
-/

set_option autoImplicit false

namespace ApiCompat.Grammar

open Signature

/-- A type in a text; `front` are the marks in front of the declaration, if it is the
declaration's own type. -/
structure Site where
  front : List Nullness
  type : TypeTree

namespace TypeTree

def IsNamed : TypeTree → Prop
  | named _ _ _ _ _ => True
  | wildcard _ _ _ => False

/-- The marks behind a type that speak about itself, not about the elements of an array. -/
def suffixes : TypeTree → List Mark
  | named _ _ _ inner ending =>
      (if ending.dims = 0 ∧ ending.varargs = false then inner.toList else []) ++ ending.mark.toList
  | wildcard _ _ ending => ending.mark.toList

/-- Different marks stand directly behind each other; the last one is taken. -/
def Overruled (type : TypeTree) : Prop :=
  ∃ first last, type.suffixes = [first, last] ∧ first ≠ last

theorem suffixes_short (type : TypeTree) :
    type.suffixes = [] ∨ (∃ mark, type.suffixes = [mark]) ∨
      ∃ first last, type.suffixes = [first, last] := by
  cases type with
  | named annotations name args inner ending =>
      simp only [suffixes]
      split <;> cases inner <;> cases ending.mark <;> simp
  | wildcard annotations bound ending =>
      simp only [suffixes]
      cases ending.mark <;> simp

theorem getLast?_suffixes (annotations : List AnnotationTree) (name : Name) (args : List TypeTree)
    (inner : Option Mark) (ending : Ending) :
    (named annotations name args inner ending).suffixes.getLast? =
      ending.mark.or (if ending.dims = 0 ∧ ending.varargs = false then inner else none) := by
  simp only [suffixes]
  split <;> cases inner <;> cases ending.mark <;> rfl

end TypeTree

namespace Site

/-- All marks that are written about the type itself. -/
def written (site : Site) : List Nullness :=
  site.front ++ (site.type.annotations.filterMap AnnotationTree.nullness? ++
    site.type.suffixes.map Mark.nullness)

/-- The marks that count: of those behind the type only the last one does. -/
def counted (site : Site) : List Nullness :=
  site.front ++ (site.type.annotations.filterMap AnnotationTree.nullness? ++
    (site.type.suffixes.getLast?.map Mark.nullness).toList)

def typeIn (mode : NullMode) (site : Site) : TypeRef := site.type.typeIn mode site.front.head?

def Consistent (site : Site) : Prop := Agree site.counted

end Site

theorem Mark.nullness_injective {mark other : Mark} (same : mark.nullness = other.nullness) :
    mark = other := by
  cases mark <;> cases other <;> simp_all [Mark.nullness]

namespace Site

theorem counted_subset (site : Site) : site.counted ⊆ site.written := by
  refine List.append_subset.mpr ⟨List.subset_append_left _ _, ?_⟩
  refine List.append_subset.mpr ⟨?_, ?_⟩
  · exact fun mark member => List.mem_append_right _ (List.mem_append_left _ member)
  · intro mark member
    simp only [Option.mem_toList, Option.map_eq_some_iff] at member
    obtain ⟨last, found, rfl⟩ := member
    exact List.mem_append_right _ (List.mem_append_right _
      (List.mem_map_of_mem (List.mem_of_getLast? found)))

/-- Where the marks that count agree, an overruled mark is the only one that can differ. -/
theorem Consistent.agree_written_iff {site : Site} (consistent : site.Consistent) :
    Agree site.written ↔ ¬site.type.Overruled := by
  constructor
  · rintro agree ⟨first, last, suffixes, differ⟩
    have both : first.nullness ∈ site.written ∧ last.nullness ∈ site.written := by
      simp [written, suffixes]
    exact differ (Mark.nullness_injective (agree _ both.1 _ both.2))
  · intro kept
    refine Agree.subset consistent ?_
    rcases site.type.suffixes_short with none | ⟨mark, one⟩ | ⟨first, last, two⟩
    · simp [written, counted, none]
    · simp [written, counted, one]
    · obtain rfl : first = last := by
        by_contra differ
        exact kept ⟨first, last, two, differ⟩
      intro mark member
      simpa [written, counted, two] using member

/-- A named type is what the first mark says, or what the null mode says without one. -/
theorem nullness_typeIn {site : Site} (named : site.type.IsNamed) (mode : NullMode) :
    (site.typeIn mode).nullness = site.counted.head?.getD mode.bare := by
  obtain ⟨front, type⟩ := site
  cases type with
  | wildcard annotations bound ending => exact absurd named id
  | named annotations name args inner ending =>
      simp only [typeIn, TypeTree.typeIn, counted, TypeTree.getLast?_suffixes, outerMarks,
        TypeTree.annotations, List.head?_append, Option.head?_toList]

theorem written_eq_nil_iff (site : Site) : site.written = [] ↔ site.counted = [] := by
  simp [written, counted]

theorem Consistent.eq_nullness {site : Site} (consistent : site.Consistent)
    (named : site.type.IsNamed) (mode : NullMode) :
    ∀ mark ∈ site.counted, mark = (site.typeIn mode).nullness := by
  intro mark member
  rw [nullness_typeIn named]
  cases counted : site.counted with
  | nil => simp [counted] at member
  | cons first later =>
      refine consistent mark member first ?_
      rw [counted]
      exact List.mem_cons_self

/-- A named type is what all marks about it say, unless one of them is overruled. -/
theorem Consistent.eq_nullness_iff {site : Site} (consistent : site.Consistent)
    (named : site.type.IsNamed) (mode : NullMode) :
    (∀ mark ∈ site.written, mark = (site.typeIn mode).nullness) ↔ ¬site.type.Overruled := by
  rw [← consistent.agree_written_iff]
  constructor
  · intro same mark member other member'
    exact (same mark member).trans (same other member').symm
  · intro agree mark member
    have some : site.counted ≠ [] := fun none =>
      List.ne_nil_of_mem member (site.written_eq_nil_iff.mpr none)
    obtain ⟨first, counts⟩ := List.exists_mem_of_ne_nil _ some
    rw [← consistent.eq_nullness named mode first counts]
    exact agree mark member first (site.counted_subset counts)

end Site

/-! ## The sites of a text -/

mutual

def TypeTree.sites (front : List Nullness) : TypeTree → List Site
  | .named annotations name args inner ending =>
      ⟨front, .named annotations name args inner ending⟩ :: TypeTree.argSites args
  | .wildcard annotations bound ending =>
      ⟨front, .wildcard annotations bound ending⟩ :: TypeTree.boundSites bound
termination_by structural type => type

def TypeTree.argSites : List TypeTree → List Site
  | [] => []
  | type :: rest => TypeTree.sites [] type ++ TypeTree.argSites rest
termination_by structural types => types

def TypeTree.boundSites : Bound TypeTree → List Site
  | .unbounded => []
  | .upper type => TypeTree.sites [] type
  | .lower type => TypeTree.sites [] type
termination_by structural bound => bound

end

def plainSites (types : List TypeTree) : List Site := types.flatMap (TypeTree.sites [])

theorem TypeTree.argSites_eq (types : List TypeTree) : argSites types = plainSites types := by
  induction types with
  | nil => rfl
  | cons type types ih => simp [argSites, plainSites, ih]

def TypeParamTree.sites (param : TypeParamTree) : List Site := plainSites param.bounds

def ParameterTree.sites (parameter : ParameterTree) : List Site := parameter.type.sites []

def MemberTree.sites : MemberTree → List Site
  | .constructor item =>
      item.typeParams.flatMap TypeParamTree.sites ++
        (item.parameters.flatMap ParameterTree.sites ++ plainSites item.throws)
  | .method item =>
      item.typeParams.flatMap TypeParamTree.sites ++
        (item.returnType.sites (frontMarks item.front) ++
          (item.parameters.flatMap ParameterTree.sites ++ plainSites item.throws))
  | .field item => item.type.sites (frontMarks item.front)

def SupertypesTree.sites (supertypes : SupertypesTree) : List Site :=
  plainSites supertypes.superclass.toList ++ plainSites supertypes.interfaces

def ClassTree.sites (cls : ClassTree) : List Site :=
  cls.typeParams.flatMap TypeParamTree.sites ++ (cls.supertypes.sites ++
    cls.members.flatMap fun found => found.item.sites)

def fileSites (blocks : List (Located PackageTree)) : List Site :=
  blocks.flatMap fun block => block.item.classes.flatMap fun cls => cls.item.sites

/-! ## Consistent trees -/

/-- The marks that count agree at every one of the sites. -/
def AllConsistent (sites : List Site) : Prop := ∀ site ∈ sites, site.Consistent

theorem allConsistent_append {first second : List Site} :
    AllConsistent (first ++ second) ↔ AllConsistent first ∧ AllConsistent second :=
  List.forall_mem_append

theorem allConsistent_flatMap {α : Type} {items : List α} {sites : α → List Site} :
    AllConsistent (items.flatMap sites) ↔ ∀ item ∈ items, AllConsistent (sites item) := by
  simp only [AllConsistent, List.mem_flatMap, forall_exists_index, and_imp]
  exact ⟨fun all item member site stored => all site item member stored,
    fun all site item member stored => all item member site stored⟩

/-- A type that is told the first of agreeing marks is told all of them. -/
theorem TypeTree.consistent_front {front : List Nullness} (agree : Agree front) {type : TypeTree}
    (told : AllConsistent (type.sites front.head?.toList)) : AllConsistent (type.sites front) := by
  intro site member
  cases type <;> rcases List.mem_cons.mp member with rfl | inside
  all_goals first
    | exact agree.append (told _ List.mem_cons_self)
    | exact told site (List.mem_cons_of_mem _ inside)

/-- What a reader has seen to when it has read a member. -/
structure MemberTree.Consistent (member : MemberTree) : Prop where
  front : Agree (frontMarks member.front)
  sites : AllConsistent member.sites

structure ClassTree.Consistent (cls : ClassTree) : Prop where
  front : Agree (frontMarks cls.front)
  sites : AllConsistent cls.sites
  distinct : (cls.members.map fun found => found.item.key).Nodup

def PackageTree.Consistent (package : PackageTree) : Prop :=
  ∀ cls ∈ package.classes, cls.item.Consistent

theorem allConsistent_fileSites {blocks : List (Located PackageTree)}
    (consistent : ∀ block ∈ blocks, block.item.Consistent) : AllConsistent (fileSites blocks) :=
  allConsistent_flatMap.mpr fun block member =>
    allConsistent_flatMap.mpr fun cls stored => (consistent block member cls stored).sites

end ApiCompat.Grammar
