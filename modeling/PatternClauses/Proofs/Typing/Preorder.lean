import Mathlib.Data.List.Infix
import PatternClauses.Proofs.Typing.Membership

/-!
# Supertypes of supertypes

Every type is a subtype of itself.  A supertype of a supertype is a supertype as long as the first
step loses nothing.  What a step can lose is the type of the value in an optional, since the type
of an empty optional is a supertype of all optionals and fits all of them too, the form of an
optional, when it is taken for a type of that name, and the path of a qualified name.
-/

namespace PatternClauses

/-- The step from a type to a supertype loses what some supertypes of the second type need. -/
inductive Loses : RuntimeType → RuntimeType → Prop
  /-- The type of an empty optional tells nothing of the value, and fits every optional. -/
  | content (filled : wrapped ≠ .any) : Loses (.optional wrapped) (.optional .any)
  /-- The bare name of the enum is a name like any other. -/
  | form : Loses (.optional wrapped) (.custom name)
  /-- Without its path a name fits behind other paths. -/
  | path : Loses (.custom (path ++ "." ++ name)) (.custom name)
  | range : Loses sub super → Loses (.range sub) (.range super)
  | wrapped : Loses sub super → Loses (.optional sub) (.optional super)
  | first : Loses sub super → Loses (.tuple (sub :: subs)) (.tuple (super :: supers))
  | later : Loses (.tuple subs) (.tuple supers) →
      Loses (.tuple (sub :: subs)) (.tuple (super :: supers))

theorem loses_custom_iff {sub super : String} :
    Loses (.custom sub) (.custom super) ↔ isQualifiedBy sub super = true := by
  rw [isQualifiedBy_iff]
  constructor
  · intro loses
    generalize named : RuntimeType.custom sub = type at loses
    cases loses with
    | form => cases named
    | path => exact ⟨_, RuntimeType.custom.inj named⟩
  · rintro ⟨path, rfl⟩
    exact .path

/-! ## Names -/

theorem sameType_of_ends {whole left right leftPath rightPath : String}
    (endsLeft : whole = leftPath ++ "." ++ left) (endsRight : whole = rightPath ++ "." ++ right) :
    SameType left right := by
  have split : leftPath.toList ++ '.' :: left.toList = rightPath.toList ++ '.' :: right.toList := by
    simpa using congrArg String.toList (endsLeft.symm.trans endsRight)
  have leftBehind : '.' :: left.toList <:+ leftPath.toList ++ '.' :: left.toList :=
    List.suffix_append _ _
  have rightBehind : '.' :: right.toList <:+ leftPath.toList ++ '.' :: left.toList :=
    split ▸ List.suffix_append _ _
  have qualified {short long : String} (behind : '.' :: short.toList <:+ '.' :: long.toList) :
      long = short ∨ ∃ path : String, long = path ++ "." ++ short := by
    rcases List.suffix_cons_iff.mp behind with same | inside
    · exact .inl (String.toList_inj.mp (List.cons.inj same).2.symm)
    · apply Or.inr
      rw [← isQualifiedBy_iff, isQualifiedBy, List.isSuffixOf_iff_suffix]
      exact inside
  rcases List.suffix_or_suffix_of_suffix leftBehind rightBehind with shorter | longer
  · rcases qualified shorter with same | ⟨path, same⟩
    · exact .inl same.symm
    · exact .inr ⟨path, .inr same⟩
  · rcases qualified longer with same | ⟨path, same⟩
    · exact .inl same
    · exact .inr ⟨path, .inl same⟩

theorem SameType.getLast?_eq {left right : String} (same : SameType left right) :
    ('.' :: left.toList).getLast? = ('.' :: right.toList).getLast? := by
  have behind (path short : String) :
      ('.' :: (path ++ "." ++ short).toList).getLast? = ('.' :: short.toList).getLast? := by
    simp [List.getLast?_cons, List.getLast?_append]
  rcases same with rfl | ⟨path, rfl | rfl⟩
  · rfl
  · exact behind path right
  · exact (behind path left).symm

theorem SameType.of_behind {left right name : String}
    (same : SameType (left ++ "." ++ name) (right ++ "." ++ name)) : SameType left right := by
  have front {one other : String} (equal : one ++ "." ++ name = other ++ "." ++ name) :
      one = other := by
    simpa using equal
  rcases same with equal | ⟨path, equal | equal⟩
  · exact .inl (front equal)
  · refine .inr ⟨path, .inl (front ?_)⟩
    rw [equal]
    simp [String.append_assoc]
  · refine .inr ⟨path, .inr (front ?_)⟩
    rw [equal]
    simp [String.append_assoc]

theorem exists_not_sameType (path : String) : ∃ other : String, ¬ SameType path other := by
  by_cases last : ('.' :: path.toList).getLast? = some 'a'
  · refine ⟨"b", fun same => ?_⟩
    rw [same.getLast?_eq] at last
    simp at last
  · exact ⟨"a", fun same => last same.getLast?_eq⟩

namespace NominalTypes

variable {types : NominalTypes}

/-- Supertypes are registered between names without a path. -/
def Pathless (types : NominalTypes) : Prop :=
  ∀ sub super, types.Extends sub super → '.' ∉ sub.toList ∧ '.' ∉ super.toList

theorem Pathless.eq_of_path (pathless : types.Pathless) {path name super : String}
    (leads : Relation.ReflTransGen types.Extends (path ++ "." ++ name) super) :
    super = path ++ "." ++ name := by
  rcases leads.cases_head with same | ⟨next, extension, -⟩
  · exact same.symm
  · exact absurd (by simp) (pathless _ _ extension).1

theorem Pathless.eq_of_to_path (pathless : types.Pathless) {sub path name : String}
    (leads : Relation.ReflTransGen types.Extends sub (path ++ "." ++ name)) :
    sub = path ++ "." ++ name := by
  rcases leads.cases_tail with same | ⟨previous, -, extension⟩
  · exact same.symm
  · exact absurd (by simp) (pathless _ _ extension).2

/-- The supertypes of a name are those of its subtypes, unless the step up drops a path. -/
theorem Pathless.leads_trans (pathless : types.Pathless) {sub middle super : String}
    (kept : ∀ path, sub ≠ path ++ "." ++ middle) (below : types.Leads sub middle)
    (above : types.Leads middle super) : types.Leads sub super := by
  rcases below with ⟨reached, steps, same⟩
  rcases above with ⟨last, more, behind⟩
  rcases same with rfl | ⟨path, rfl | rfl⟩
  · exact ⟨last, steps.trans more, behind⟩
  · exact absurd (pathless.eq_of_to_path steps) (kept path)
  · -- Nothing is registered above the name in the middle, which has a path.
    cases pathless.eq_of_path more
    refine ⟨reached, steps, ?_⟩
    rcases behind with rfl | ⟨front, same | rfl⟩
    · exact .inr ⟨path, .inr rfl⟩
    · exact sameType_of_ends rfl same
    · exact .inr ⟨front ++ "." ++ path, .inr (by simp [String.append_assoc])⟩

theorem Pathless.exists_not_leads (pathless : types.Pathless) (path name : String) :
    ∃ super, types.Leads name super ∧ ¬ types.Leads (path ++ "." ++ name) super := by
  rcases exists_not_sameType path with ⟨other, differs⟩
  refine ⟨other ++ "." ++ name, ⟨name, .refl, .inr ⟨other, .inr rfl⟩⟩, ?_⟩
  rintro ⟨last, steps, same⟩
  rw [pathless.eq_of_path steps] at same
  exact differs same.of_behind

/-! ## Supertypes by the form of a type -/

theorem any_isSubtypeOf_iff {super : RuntimeType} :
    types.isSubtypeOf .any super = true ↔ super = .any := by
  cases super <;> simp [isSubtypeOf]

theorem isSubtypeOf_of_any (sub : RuntimeType) {super : RuntimeType}
    (above : types.isSubtypeOf .any super = true) : types.isSubtypeOf sub super = true := by
  rw [any_isSubtypeOf_iff.mp above]
  exact isSubtypeOf_any types sub

theorem range_isSubtypeOf_iff {bound super : RuntimeType} :
    types.isSubtypeOf (.range bound) super = true ↔
      super = .any ∨ ∃ upper, super = .range upper ∧ types.isSubtypeOf bound upper = true := by
  cases super <;> simp [isSubtypeOf]

theorem tuple_isSubtypeOf_iff {items : List RuntimeType} {super : RuntimeType} :
    types.isSubtypeOf (.tuple items) super = true ↔
      super = .any ∨ ∃ others, super = .tuple others ∧
        List.Forall₂ (fun item other => types.isSubtypeOf item other = true) items others := by
  cases super <;> simp [isSubtypeOf, areSubtypesOf_iff]

theorem tuple_cons_isSubtypeOf_iff {item other : RuntimeType} {items others : List RuntimeType} :
    types.isSubtypeOf (.tuple (item :: items)) (.tuple (other :: others)) = true ↔
      types.isSubtypeOf item other = true ∧
        types.isSubtypeOf (.tuple items) (.tuple others) = true := by
  simp [isSubtypeOf, areSubtypesOf]

theorem optional_isSubtypeOf_iff {wrapped super : RuntimeType} :
    types.isSubtypeOf (.optional wrapped) super = true ↔
      super = .any ∨ super = .custom optionalName ∨ ∃ upper, super = .optional upper ∧
        (wrapped = .any ∨ types.isSubtypeOf wrapped upper = true) := by
  cases super with
  | optional upper => simp [isSubtypeOf_optional]
  | _ => simp [isSubtypeOf]

theorem custom_isSubtypeOf_iff {name : String} {super : RuntimeType} :
    types.isSubtypeOf (.custom name) super = true ↔
      super = .any ∨ ∃ upper, super = .custom upper ∧ types.Leads name upper := by
  cases super <;> simp [isSubtypeOf, isSubtype_iff_leads]

/-! ## Two steps -/

theorem forall₂_trans_of_keeps {subs middles supers : List RuntimeType}
    (each : ∀ sub ∈ subs, ∀ middle super, ¬ Loses sub middle →
      types.isSubtypeOf sub middle = true → types.isSubtypeOf middle super = true →
        types.isSubtypeOf sub super = true)
    (kept : ¬ Loses (.tuple subs) (.tuple middles))
    (below : List.Forall₂ (fun sub middle => types.isSubtypeOf sub middle = true) subs middles)
    (above : List.Forall₂ (fun middle super => types.isSubtypeOf middle super = true)
      middles supers) :
    List.Forall₂ (fun sub super => types.isSubtypeOf sub super = true) subs supers := by
  induction below generalizing supers with
  | nil => exact above
  | @cons sub middle subs middles here _ induction =>
    cases above with
    | @cons _ super _ supers up later =>
      refine .cons (each sub (.head _) middle super (fun loses => kept loses.first) here up) ?_
      exact induction (fun item member => each item (.tail _ member))
        (fun loses => kept loses.later) later

theorem Pathless.isSubtypeOf_trans (pathless : types.Pathless) {sub middle super : RuntimeType}
    (kept : ¬ Loses sub middle) (below : types.isSubtypeOf sub middle = true)
    (above : types.isSubtypeOf middle super = true) : types.isSubtypeOf sub super = true := by
  induction sub generalizing middle super with
  | integer | float | boolean | string =>
    rcases (scalar_isSubtypeOf_iff (by simp)).mp below with rfl | rfl
    · exact isSubtypeOf_of_any _ above
    · exact above
  | any =>
    rw [any_isSubtypeOf_iff.mp below] at above
    exact above
  | range bound induction =>
    rcases range_isSubtypeOf_iff.mp below with rfl | ⟨upper, rfl, inside⟩
    · exact isSubtypeOf_of_any _ above
    · rcases range_isSubtypeOf_iff.mp above with rfl | ⟨last, rfl, outside⟩
      · exact isSubtypeOf_any types _
      · refine range_isSubtypeOf_iff.mpr (.inr ⟨last, rfl, ?_⟩)
        exact induction (fun loses => kept loses.range) inside outside
  | tuple items induction =>
    rcases tuple_isSubtypeOf_iff.mp below with rfl | ⟨middles, rfl, inside⟩
    · exact isSubtypeOf_of_any _ above
    · rcases tuple_isSubtypeOf_iff.mp above with rfl | ⟨supers, rfl, outside⟩
      · exact isSubtypeOf_any types _
      · refine tuple_isSubtypeOf_iff.mpr (.inr ⟨supers, rfl, ?_⟩)
        exact forall₂_trans_of_keeps (fun item member _ _ => induction item member) kept inside
          outside
  | optional wrapped induction =>
    rcases optional_isSubtypeOf_iff.mp below with rfl | rfl | ⟨middle, rfl, inside⟩
    · exact isSubtypeOf_of_any _ above
    · exact absurd .form kept
    · rcases optional_isSubtypeOf_iff.mp above with rfl | rfl | ⟨upper, rfl, outside⟩
      · exact isSubtypeOf_any types _
      · exact optional_isSubtypeOf_iff.mpr (.inr (.inl rfl))
      · refine optional_isSubtypeOf_iff.mpr (.inr (.inr ⟨upper, rfl, ?_⟩))
        by_cases empty : wrapped = .any
        · exact .inl empty
        -- An empty optional in the middle would have lost what is wrapped.
        · have filled : middle ≠ .any := fun same => kept (same ▸ .content empty)
          exact .inr (induction (fun loses => kept loses.wrapped) (inside.resolve_left empty)
            (outside.resolve_left filled))
  | custom name =>
    rcases custom_isSubtypeOf_iff.mp below with rfl | ⟨middle, rfl, inside⟩
    · exact isSubtypeOf_of_any _ above
    · rcases custom_isSubtypeOf_iff.mp above with rfl | ⟨upper, rfl, outside⟩
      · exact isSubtypeOf_any types _
      · refine custom_isSubtypeOf_iff.mpr (.inr ⟨upper, rfl, ?_⟩)
        refine pathless.leads_trans (fun path same => ?_) inside outside
        exact kept (same ▸ .path)

theorem Pathless.exists_not_isSubtypeOf (pathless : types.Pathless) {sub middle : RuntimeType}
    (loses : Loses sub middle) (below : types.isSubtypeOf sub middle = true) :
    ∃ super, types.isSubtypeOf middle super = true ∧ ¬ types.isSubtypeOf sub super = true := by
  induction loses with
  | @content wrapped filled =>
    by_cases integer : wrapped = .integer
    · subst integer
      exact ⟨.optional .string, by simp [isSubtypeOf], by simp [isSubtypeOf]⟩
    · refine ⟨.optional .integer, by simp [isSubtypeOf], ?_⟩
      cases wrapped <;> simp_all [isSubtypeOf]
  | @form wrapped name =>
    have optional : name = optionalName := by
      simpa using optional_isSubtypeOf_iff.mp below
    subst optional
    refine ⟨.custom ("Standard." ++ optionalName), ?_, ?_⟩
    · refine custom_isSubtypeOf_iff.mpr (.inr ⟨_, rfl, optionalName, .refl, ?_⟩)
      exact .inr ⟨"Standard", .inr rfl⟩
    · rw [isSubtypeOf]
      decide
  | @path path name =>
    rcases pathless.exists_not_leads path name with ⟨super, leads, apart⟩
    refine ⟨.custom super, custom_isSubtypeOf_iff.mpr (.inr ⟨super, rfl, leads⟩), ?_⟩
    rw [custom_isSubtypeOf_iff]
    simpa using apart
  | @range bound upper _ induction =>
    have inside : types.isSubtypeOf bound upper = true := by simpa [isSubtypeOf] using below
    rcases induction inside with ⟨super, above, apart⟩
    exact ⟨.range super, by rwa [isSubtypeOf], by rwa [isSubtypeOf]⟩
  | @wrapped inner upper loses induction =>
    have filled : inner ≠ .any := by
      rintro rfl
      cases loses
    have inside := ((isSubtypeOf_optional types _ _).mp below).resolve_left filled
    rcases induction inside with ⟨super, above, apart⟩
    refine ⟨.optional super, (isSubtypeOf_optional types _ _).mpr (.inr above), ?_⟩
    rw [isSubtypeOf_optional, not_or]
    exact ⟨filled, apart⟩
  | @first item upper items uppers _ induction =>
    rcases induction (tuple_cons_isSubtypeOf_iff.mp below).1 with ⟨super, above, apart⟩
    refine ⟨.tuple (super :: uppers), ?_, fun both => apart ?_⟩
    · exact tuple_cons_isSubtypeOf_iff.mpr ⟨above, isSubtypeOf_self types _⟩
    · exact (tuple_cons_isSubtypeOf_iff.mp both).1
  | @later items uppers item upper _ induction =>
    rcases induction (tuple_cons_isSubtypeOf_iff.mp below).2 with ⟨super, above, apart⟩
    rcases tuple_isSubtypeOf_iff.mp above with rfl | ⟨supers, rfl, -⟩
    · exact absurd (isSubtypeOf_any types _) apart
    · refine ⟨.tuple (upper :: supers), ?_, fun both => apart ?_⟩
      · exact tuple_cons_isSubtypeOf_iff.mpr ⟨isSubtypeOf_self types _, above⟩
      · exact (tuple_cons_isSubtypeOf_iff.mp both).2

/-- Subtypes are not a preorder: an optional number is of the type of the empty optional, and that
fits every optional. -/
theorem not_isSubtypeOf_preorder :
    ¬ ∀ types : NominalTypes, types.Pathless →
      (∀ type, types.isSubtypeOf type type = true) ∧
      ∀ sub middle super, types.isSubtypeOf sub middle = true →
        types.isSubtypeOf middle super = true → types.isSubtypeOf sub super = true := by
  intro preorder
  have widened : initial.isSubtypeOf (.optional .integer) (.optional .any) = true := by rfl
  have narrowed : initial.isSubtypeOf (.optional .any) (.optional .string) = true := by rfl
  have both := (preorder initial (fun _ _ => nofun)).2 _ _ _ widened narrowed
  have apart : initial.isSubtypeOf (.optional .integer) (.optional .string) = false := by rfl
  rw [apart] at both
  cases both

/-- Subtypes are a preorder as far as steps lose nothing: every type is a subtype of itself, and
the supertypes of a supertype are supertypes exactly if the step to it loses nothing. -/
theorem supertypes_inherited_iff_nothing_lost (types : NominalTypes) (pathless : types.Pathless) :
    (∀ type, types.isSubtypeOf type type = true) ∧
    ∀ sub middle, types.isSubtypeOf sub middle = true →
      ((∀ super, types.isSubtypeOf middle super = true → types.isSubtypeOf sub super = true) ↔
        ¬ Loses sub middle) := by
  refine ⟨isSubtypeOf_self types, fun sub middle below => ⟨fun inherited loses => ?_,
    fun kept super above => pathless.isSubtypeOf_trans kept below above⟩⟩
  rcases pathless.exists_not_isSubtypeOf loses below with ⟨super, above, apart⟩
  exact apart (inherited super above)

/-- A circle has the supertypes of a shape, inside a pair too, where the other part goes from an
empty optional to an optional number; from there to an empty optional something is lost. -/
theorem circle_inherits_from_shape :
    let types := (initial.registerSupertype "Circle" "Shape").registerSupertype "Shape" "Drawable"
    types.Pathless ∧
      types.isSubtypeOf (.tuple [.custom "Circle", .optional .any])
        (.tuple [.custom "Drawable", .optional (.optional .string)]) = true ∧
      ¬ ∀ super, types.isSubtypeOf (.optional .any) super = true →
        types.isSubtypeOf (.optional .integer) super = true := by
  intro types
  have pathless : types.Pathless := by
    intro sub super extension
    simp only [types, Extends, registerSupertype, initial, List.nil_append, List.cons_append,
      List.mem_cons, Prod.mk.injEq, List.not_mem_nil, or_false] at extension
    rcases extension with ⟨rfl, rfl⟩ | ⟨rfl, rfl⟩ <;> decide
  have kept : ¬ Loses (.tuple [.custom "Circle", .optional .any])
      (.tuple [.custom "Shape", .optional (.optional .any)]) := by
    intro loses
    cases loses with
    | first names => exact absurd (loses_custom_iff.mp names) (by decide)
    | later behind =>
      cases behind with
      | first inside => cases inside with
        | wrapped impossible => cases impossible
      | later none => cases none
  have inherits := (supertypes_inherited_iff_nothing_lost types pathless).2
  refine ⟨pathless, (inherits _ _ (by rfl)).mpr kept _ (by rfl), fun inherited => ?_⟩
  exact (inherits (.optional .integer) (.optional .any) (by rfl)).mp inherited (.content (by simp))

end NominalTypes

end PatternClauses
