import PatternClauses.Proofs.Typing.Preorder

/-!
# Spellings of a type

A name and the same name behind a path are two spellings of one type.  They have the same subtypes
and supertypes, as far as supertypes were registered under both, but for the types that have the
name behind another path: the bare name fits those too.
-/

namespace PatternClauses

/-- The name stands behind a path that is not a spelling of this one. -/
def Elsewhere (path name other : String) : Prop :=
  ∃ before : String, other = before ++ "." ++ name ∧ ¬ SameType before path

theorem sameType_comm {left right : String} : SameType left right ↔ SameType right left := by
  rw [← sameNominal_iff, ← sameNominal_iff, sameNominal_comm]

theorem SameType.behind {left right : String} (same : SameType left right) (name : String) :
    SameType (left ++ "." ++ name) (right ++ "." ++ name) := by
  rcases same with rfl | ⟨before, rfl | rfl⟩
  · exact .inl rfl
  · exact .inr ⟨before, .inl (by simp only [String.append_assoc])⟩
  · exact .inr ⟨before, .inr (by simp only [String.append_assoc])⟩

theorem sameType_qualified_iff {path name other : String} :
    SameType other (path ++ "." ++ name) ↔ SameType other name ∧ ¬ Elsewhere path name other := by
  constructor
  · intro same
    refine ⟨?_, ?_⟩
    · rcases same with rfl | ⟨before, rfl | whole⟩
      · exact .inr ⟨path, .inl rfl⟩
      · exact .inr ⟨before ++ "." ++ path, .inl (by simp only [String.append_assoc])⟩
      · exact sameType_of_ends whole rfl
    · rintro ⟨before, rfl, different⟩
      exact different same.of_behind
  · rintro ⟨same, here⟩
    rcases same with rfl | ⟨before, rfl | rfl⟩
    · exact .inr ⟨path, .inr rfl⟩
    · have alike : SameType before path := by
        by_contra different
        exact here ⟨before, rfl, different⟩
      exact alike.behind name
    · exact .inr ⟨path ++ "." ++ before, .inr (by simp only [String.append_assoc])⟩

/-- What the bare name fits and the qualified one does not stands behind another path. -/
theorem elsewhere_iff {path name other : String} (apart : ¬ SameType (path ++ "." ++ name) other) :
    Elsewhere path name other ↔ SameType name other := by
  constructor
  · rintro ⟨before, rfl, -⟩
    exact .inr ⟨before, .inr rfl⟩
  · intro named
    by_contra here
    exact apart (sameType_comm.mp (sameType_qualified_iff.mpr ⟨sameType_comm.mp named, here⟩))

namespace NominalTypes

variable {types : NominalTypes} {path name other : String}

theorem leads_iff : types.Leads name other ↔
    SameType name other ∨ ∃ super, types.Extends name super ∧ types.Leads super other := by
  constructor
  · rintro ⟨last, way, same⟩
    rcases way.cases_head with rfl | ⟨super, extension, rest⟩
    · exact .inl same
    · exact .inr ⟨super, extension, last, rest, same⟩
  · rintro (same | ⟨super, extension, leads⟩)
    · exact ⟨name, .refl, same⟩
    · exact leads.step extension

theorem custom_isSubtypeOf_iff_leads :
    types.isSubtypeOf (.custom name) (.custom other) = true ↔ types.Leads name other := by
  rw [isSubtypeOf, isSubtype_iff_leads]

/-- A supertype that is registered under this spelling is a subtype of the other type. -/
def Inherits (types : NominalTypes) (name other : String) : Prop :=
  ∃ super, types.Extends name super ∧ types.isSubtypeOf (.custom super) (.custom other) = true

theorem custom_isSubtypeOf_iff_inherits :
    types.isSubtypeOf (.custom name) (.custom other) = true ↔
      SameType name other ∨ types.Inherits name other := by
  simp only [Inherits, custom_isSubtypeOf_iff_leads]
  exact leads_iff

/-- A name and the same name behind a path are spellings of one type, so the one is a subtype of
another type if and only if the other is, and likewise a supertype.  The first holds of the spellings
themselves, and of the types to which the supertypes registered under either spelling lead, or those
under neither; and both except for names behind another path, which fit the bare name and not the
qualified one. -/
theorem spellings_interchangeable (types : NominalTypes) (path name other : String) :
    ((¬ SameType (path ++ "." ++ name) other →
        (types.Inherits (path ++ "." ++ name) other ↔ types.Inherits name other)) →
      (types.isSubtypeOf (.custom (path ++ "." ++ name)) (.custom other) = true ↔
        types.isSubtypeOf (.custom name) (.custom other) = true ∧
          ¬ (Elsewhere path name other ∧ ¬ types.Inherits name other))) ∧
    (types.isSubtypeOf (.custom other) (.custom (path ++ "." ++ name)) = true ↔
      types.isSubtypeOf (.custom other) (.custom name) = true ∧
        ¬ ∀ last, Relation.ReflTransGen types.Extends other last → SameType last name →
          Elsewhere path name last) := by
  constructor
  · intro alike
    rw [custom_isSubtypeOf_iff_inherits, custom_isSubtypeOf_iff_inherits]
    by_cases same : SameType (path ++ "." ++ name) other
    · rcases sameType_qualified_iff.mp (sameType_comm.mp same) with ⟨named, here⟩
      exact iff_of_true (.inl same) ⟨.inl (sameType_comm.mp named), fun away => here away.1⟩
    · rw [alike same, elsewhere_iff same]
      tauto
  · rw [custom_isSubtypeOf_iff_leads, custom_isSubtypeOf_iff_leads]
    constructor
    · rintro ⟨last, way, same⟩
      rcases sameType_qualified_iff.mp same with ⟨named, here⟩
      exact ⟨⟨last, way, named⟩, fun away => here (away last way named)⟩
    · rintro ⟨-, somewhere⟩
      by_contra apart
      refine somewhere fun last way named => ?_
      by_contra here
      exact apart ⟨last, way, sameType_qualified_iff.mpr ⟨named, here⟩⟩

theorem spellings_of_shape_drawable :
    let types := (initial.registerSupertype "Shape" "Drawable").registerSupertype
      ("Geometry" ++ "." ++ "Shape") "Drawable"
    (¬ SameType ("Geometry" ++ "." ++ "Shape") "Drawable" →
        (types.Inherits ("Geometry" ++ "." ++ "Shape") "Drawable" ↔
          types.Inherits "Shape" "Drawable")) ∧
      types.isSubtypeOf (.custom ("Geometry" ++ "." ++ "Shape")) (.custom "Drawable") = true := by
  intro types
  have bare : types.Inherits "Shape" "Drawable" := ⟨"Drawable", .head _, by rfl⟩
  have qualified : types.Inherits ("Geometry" ++ "." ++ "Shape") "Drawable" :=
    ⟨"Drawable", .tail _ (.head _), by rfl⟩
  have alike : ¬ SameType ("Geometry" ++ "." ++ "Shape") "Drawable" →
      (types.Inherits ("Geometry" ++ "." ++ "Shape") "Drawable" ↔
        types.Inherits "Shape" "Drawable") := fun _ => iff_of_true qualified bare
  have spellings := (spellings_interchangeable types "Geometry" "Shape" "Drawable").1 alike
  exact ⟨alike, spellings.mpr ⟨by rfl, fun away => away.2 bare⟩⟩

/-- The bare name of a shape fits a shape behind another path, and a qualified one does not. -/
theorem spellings_of_shape_differ :
    ¬ ∀ (types : NominalTypes) (path name other : String),
      (types.isSubtypeOf (.custom name) (.custom other) = true ↔
        types.isSubtypeOf (.custom (path ++ "." ++ name)) (.custom other) = true) ∧
      (types.isSubtypeOf (.custom other) (.custom name) = true ↔
        types.isSubtypeOf (.custom other) (.custom (path ++ "." ++ name)) = true) := by
  intro interchangeable
  have bare : initial.isSubtypeOf (.custom "Shape") (.custom "Other.Shape") = true := by
    decide +kernel
  have qualified : initial.isSubtypeOf (.custom ("Geometry" ++ "." ++ "Shape"))
      (.custom "Other.Shape") = false := by decide +kernel
  rw [(interchangeable initial "Geometry" "Shape" "Other.Shape").1, qualified] at bare
  cases bare

end NominalTypes

end PatternClauses
