import Mathlib.Data.List.Induction
import PatternClauses.Proofs.Equivalence.Nearest

/-!
# Ties between resolvers

Several of the registered pairs for supertypes of a pair may be most specific, and then the one
registered first is meant.  A scan compares each pair only with the one that it holds.  So it takes
the pair that is meant just if that is below the one held when it is reached; a pair that is passed
over is not looked at again, and the answer belongs to one registered later.
-/

namespace PatternClauses

namespace TypeOracle

structure Ordered (oracle : TypeOracle) : Prop extends oracle.Preordered where
  antisymmetric : ∀ lower upper, oracle.isSubtype lower upper = true →
    oracle.isSubtype upper lower = true → lower = upper

theorem Ordered.isSubpair_antisymm {oracle : TypeOracle} (ordered : oracle.Ordered)
    {lower upper : TypePair} (below : oracle.isSubpair lower upper = true)
    (above : oracle.isSubpair upper lower = true) : lower = upper := by
  rw [isSubpair_iff] at below above
  have patterns := ordered.antisymmetric _ _ below.1 above.1
  have candidates := ordered.antisymmetric _ _ below.2 above.2
  calc lower = ⟨lower.pattern, lower.candidate⟩ := rfl
    _ = upper := by rw [patterns, candidates]

end TypeOracle

namespace ResolverRegistry

/-! ## The order of registration -/

theorem eraseDups_concat [BEq α] [LawfulBEq α] (items : List α) (last : α) :
    (items ++ [last]).eraseDups =
      if last ∈ items then items.eraseDups else items.eraseDups ++ [last] := by
  rw [List.eraseDups_append]
  by_cases known : last ∈ items
  · simp [known, List.removeAll]
  · simp [known, List.removeAll, List.eraseDups_cons]

theorem types_slots (registrations : List Registered) :
    (ofRegistrations registrations).slots.map (·.types) =
      (registrations.map (·.types)).eraseDups := by
  induction registrations using List.reverseRecOn with
  | nil => rfl
  | append_singleton earlier slot induction =>
    have last : (ofRegistrations (earlier ++ [slot])).slots =
        put Registered.types (ofRegistrations earlier).slots slot := by
      rw [ofRegistrations, registerEach, List.foldl_append]
      exact (indexed_ofRegistrations.register slot).2
    rw [last, map_put, induction, List.map_append, List.map_singleton, eraseDups_concat]
    simp only [List.mem_eraseDups]

/-! ## The pair that is held -/

variable {oracle : TypeOracle} {types : TypePair}

/-- The slot that a scan for a pair holds when it has passed these. -/
def held? (oracle : TypeOracle) (types : TypePair) (slots : List Registered) : Option Registered :=
  (slots.filter fun slot => oracle.isSubpair types slot.types).foldl (lower oracle) none

theorem mem_of_foldl_lower {slots : List Registered} {best last : Registered}
    (scan : slots.foldl (lower oracle) (some best) = some last) : last = best ∨ last ∈ slots := by
  induction slots generalizing best with
  | nil =>
    cases scan
    exact .inl rfl
  | cons slot rest induction =>
    rw [List.foldl_cons, lower] at scan
    split at scan
    · rcases induction scan with rfl | later
      · exact .inr (.head _)
      · exact .inr (.tail _ later)
    · rcases induction scan with same | later
      · exact .inl same
      · exact .inr (.tail _ later)

theorem mem_of_held? {slots : List Registered} {held : Registered}
    (holds : held? oracle types slots = some held) : held ∈ slots := by
  unfold held? at holds
  cases conforming : slots.filter fun slot => oracle.isSubpair types slot.types with
  | nil =>
    rw [conforming] at holds
    cases holds
  | cons first rest =>
    rw [conforming] at holds
    have inside : held ∈ first :: rest := by
      rcases mem_of_foldl_lower holds with rfl | later
      · exact .head _
      · exact .tail _ later
    rw [← conforming] at inside
    exact (List.mem_filter.mp inside).1

theorem foldl_lower_eq_self {slots : List Registered} {best : Registered}
    (lowest : ∀ slot ∈ slots, oracle.isSubpair slot.types best.types = false) :
    slots.foldl (lower oracle) (some best) = some best := by
  induction slots with
  | nil => rfl
  | cons slot rest induction =>
    rw [List.foldl_cons, lower, if_neg (Bool.eq_false_iff.mp (lowest slot (.head _)))]
    exact induction fun other member => lowest other (.tail _ member)

theorem held?_append_cons {best : Registered} (conforms : oracle.isSubpair types best.types = true)
    (before behind : List Registered) :
    held? oracle types (before ++ best :: behind) =
      (behind.filter fun slot => oracle.isSubpair types slot.types).foldl (lower oracle)
        (lower oracle (held? oracle types before) best) := by
  have first : (best :: behind).filter (fun slot => oracle.isSubpair types slot.types) =
      best :: behind.filter fun slot => oracle.isSubpair types slot.types :=
    List.filter_cons_of_pos conforms
  rw [held?, List.filter_append, first, List.foldl_append, List.foldl_cons]
  rfl

theorem nearest?_of_unregistered {registry : ResolverRegistry} (indexed : registry.Indexed)
    (unregistered : ∀ slot ∈ registry.slots, slot.types ≠ types) :
    registry.nearest? oracle types = (held? oracle types registry.slots).map (·.resolver) := by
  have free : registry.places[types]? = none := by
    rw [indexed.getElem?_eq_none_iff]
    intro member
    rcases List.mem_map.mp member with ⟨slot, inside, same⟩
    exact unregistered slot inside same
  rw [nearest?, free]
  rfl

theorem nearest_of_held? (ordered : oracle.Preordered) {registry : ResolverRegistry}
    {slot : Registered} (holds : held? oracle types registry.slots = some slot) :
    Nearest oracle registry.slots types slot := by
  have scan : (registry.conforming oracle types).foldl (lower oracle) none = some slot := holds
  have nonempty : registry.conforming oracle types ≠ [] := by
    intro empty
    rw [empty] at scan
    cases scan
  rcases exists_lowest ordered nonempty with ⟨best, same, lowest⟩
  rw [scan] at same
  cases same
  exact lowest.nearest

theorem exists_held? (ordered : oracle.Preordered) {registry : ResolverRegistry} {best : Registered}
    (nearest : Nearest oracle registry.slots types best) :
    ∃ slot, held? oracle types registry.slots = some slot := by
  have inside := mem_conforming_iff.mpr ⟨nearest.member, nearest.conforms⟩
  rcases exists_lowest ordered (List.ne_nil_of_mem inside) with ⟨slot, scan, -⟩
  exact ⟨slot, scan⟩

/-! ## The slot that is meant -/

section

variable {registry : ResolverRegistry} {before behind : List Registered} {best : Registered}

/-- A most specific slot that is below the one held before it is held to the end. -/
theorem held?_of_below (ordered : oracle.Ordered) (indexed : registry.Indexed)
    (slots : registry.slots = before ++ best :: behind)
    (nearest : Nearest oracle registry.slots types best)
    (below : ∀ held, held? oracle types before = some held →
      oracle.isSubpair best.types held.types = true) :
    held? oracle types registry.slots = some best := by
  have taken : lower oracle (held? oracle types before) best = some best := by
    cases holds : held? oracle types before with
    | none => rfl
    | some held => exact if_pos (below held holds)
  have distinct := indexed.nodup
  rw [slots, List.map_append, List.map_cons, List.nodup_append] at distinct
  rw [slots, held?_append_cons nearest.conforms, taken]
  apply foldl_lower_eq_self
  intro slot member
  rcases List.mem_filter.mp member with ⟨later, conforms⟩
  rw [Bool.eq_false_iff]
  intro under
  have inside : slot ∈ registry.slots := slots ▸ List.mem_append_right _ (.tail _ later)
  have above := TypeOracle.isMoreSpecific_eq_false_iff.mp (nearest.lowest slot inside conforms) under
  -- A slot below a most specific one has its pair, and no two slots share one.
  have same := ordered.isSubpair_antisymm under above
  exact (List.nodup_cons.mp distinct.2.1).1 (same ▸ List.mem_map_of_mem later)

/-- A slot that is not below the one held before it is passed over.  If no earlier one is most
specific, the scan ends with a later one. -/
theorem held?_of_not_below (ordered : oracle.Preordered)
    (slots : registry.slots = before ++ best :: behind)
    (nearest : Nearest oracle registry.slots types best)
    (first : ∀ slot ∈ before, ¬ Nearest oracle registry.slots types slot)
    {held : Registered} (holds : held? oracle types before = some held)
    (apart : oracle.isSubpair best.types held.types = false) :
    ∃ slot ∈ behind, Nearest oracle registry.slots types slot ∧
      held? oracle types registry.slots = some slot := by
  rcases exists_held? ordered nearest with ⟨slot, last⟩
  have found := nearest_of_held? ordered last
  have scan := last
  rw [slots, held?_append_cons nearest.conforms, holds, lower,
    if_neg (Bool.eq_false_iff.mp apart)] at scan
  rcases mem_of_foldl_lower scan with rfl | later
  · exact absurd found (first slot (mem_of_held? holds))
  · exact ⟨slot, (List.mem_filter.mp later).1, found, last⟩

end

/-! ## Looking for a resolver -/

def circleOrder : TypeOracle :=
  { NominalTypes.initial.oracle with
    isSubtype := fun lower upper => upper = .any || lower = upper ||
      (lower = .custom "Circle" && upper = .custom "Shape") }

theorem isSubtype_circleOrder {lower upper : RuntimeType} :
    circleOrder.isSubtype lower upper = true ↔
      upper = .any ∨ lower = upper ∨ lower = .custom "Circle" ∧ upper = .custom "Shape" := by
  simp [circleOrder, or_assoc]

theorem ordered_circleOrder : circleOrder.Ordered where
  reflexive type := isSubtype_circleOrder.mpr (.inr (.inl rfl))
  transitive lower middle upper below above := by
    rw [isSubtype_circleOrder] at below above ⊢
    rcases above with top | rfl | ⟨rfl, rfl⟩
    · exact .inl top
    · exact below
    · rcases below with impossible | rfl | ⟨-, impossible⟩
      · cases impossible
      · exact .inr (.inr ⟨rfl, rfl⟩)
      · simp at impossible
  antisymmetric lower upper below above := by
    rw [isSubtype_circleOrder] at below above
    rcases below with rfl | same | ⟨rfl, rfl⟩
    · rcases above with top | same | ⟨impossible, -⟩
      · exact top
      · exact same.symm
      · cases impossible
    · exact same
    · simp at above

/-- A registry of partially ordered types looks for a pair that was not registered.  Its slots stand
in the order in which their pairs were registered first, and it finds nothing only where no slot is
most specific.  The first of the most specific slots is found if its pair is below the one that is
held of those registered before it.  Otherwise one of those behind it is found. -/
theorem nearest_is_first_registered (ordered : oracle.Ordered) (registrations : List Registered)
    (types : TypePair) (unregistered : ∀ registered ∈ registrations, registered.types ≠ types) :
    let registry := ofRegistrations registrations
    registry.slots.map (·.types) = (registrations.map (·.types)).eraseDups ∧
    (registry.nearest? oracle types = none ↔
      ∀ slot, ¬ Nearest oracle registry.slots types slot) ∧
    ∀ before best behind, registry.slots = before ++ best :: behind →
      Nearest oracle registry.slots types best →
      (∀ slot ∈ before, ¬ Nearest oracle registry.slots types slot) →
      ((∀ held, held? oracle types before = some held →
          oracle.isSubpair best.types held.types = true) →
        registry.nearest? oracle types = some best.resolver) ∧
      (∀ held, held? oracle types before = some held →
        oracle.isSubpair best.types held.types = false →
        ∃ slot ∈ behind, Nearest oracle registry.slots types slot ∧
          registry.nearest? oracle types = some slot.resolver) := by
  intro registry
  have indexed : registry.Indexed := indexed_ofRegistrations
  have scan : registry.nearest? oracle types =
      (held? oracle types registry.slots).map (·.resolver) :=
    nearest?_of_unregistered indexed fun slot inside =>
      unregistered slot (mem_registrations_of_mem_slots inside)
  refine ⟨types_slots registrations, ?_, ?_⟩
  · rw [scan, Option.map_eq_none_iff]
    constructor
    · intro nothing slot nearest
      rcases exists_held? ordered.toPreordered nearest with ⟨held, holds⟩
      rw [nothing] at holds
      cases holds
    · intro none
      rw [Option.eq_none_iff_forall_ne_some]
      intro held holds
      exact none held (nearest_of_held? ordered.toPreordered holds)
  · intro before best behind slots nearest first
    constructor
    · intro below
      rw [scan, held?_of_below ordered indexed slots nearest below, Option.map_some]
    · intro held holds apart
      rcases held?_of_not_below ordered.toPreordered slots nearest first holds apart with
        ⟨slot, later, found, last⟩
      exact ⟨slot, later, found, by rw [scan, last, Option.map_some]⟩

/-- Two resolvers for circles are most specific.  The first of them is below the one for everything,
which is held when the scan comes to it. -/
theorem nearest_left_of_circles :
    let circle : RuntimeType := .custom "Circle"
    let named (name : String) : Resolver := ⟨name, fun _ _ => .ok true⟩
    let left : Registered := ⟨⟨circle, .any⟩, named "left"⟩
    let right : Registered := ⟨⟨.any, circle⟩, named "right"⟩
    let registrations : List Registered := [⟨⟨.any, .any⟩, named "top"⟩, left, right]
    let registry := ofRegistrations registrations
    circleOrder.Ordered ∧ (∀ registered ∈ registrations, registered.types ≠ ⟨circle, circle⟩) ∧
      Nearest circleOrder registry.slots ⟨circle, circle⟩ left ∧
      Nearest circleOrder registry.slots ⟨circle, circle⟩ right ∧
      registry.nearest? circleOrder ⟨circle, circle⟩ = some left.resolver := by
  intro circle named left right registrations registry
  have unregistered : ∀ registered ∈ registrations, registered.types ≠ ⟨circle, circle⟩ := by
    decide
  have slots : registry.slots = registrations := by rfl
  have leftNearest : Nearest circleOrder registry.slots ⟨circle, circle⟩ left :=
    slots ▸ ⟨.tail _ (.head _), by decide, by decide⟩
  have rightNearest : Nearest circleOrder registry.slots ⟨circle, circle⟩ right :=
    slots ▸ ⟨.tail _ (.tail _ (.head _)), by decide, by decide⟩
  have first : ∀ slot ∈ registrations.take 1,
      ¬ Nearest circleOrder registry.slots ⟨circle, circle⟩ slot := by
    intro slot member nearest
    cases List.mem_singleton.mp member
    have lowest := nearest.lowest left leftNearest.member leftNearest.conforms
    revert lowest
    decide
  have below : ∀ held, held? circleOrder ⟨circle, circle⟩ (registrations.take 1) = some held →
      circleOrder.isSubpair left.types held.types = true := by
    intro held holds
    cases List.mem_singleton.mp (mem_of_held? holds)
    decide
  have general := nearest_is_first_registered ordered_circleOrder registrations ⟨circle, circle⟩
    unregistered
  exact ⟨ordered_circleOrder, unregistered, leftNearest, rightNearest,
    (general.2.2 _ left [right] slots leftNearest first).1 below⟩

/-- Behind a resolver for shapes on the right, the first of the two is passed over: it is not below
that, and the second is.  On these types the order is the builtin one. -/
theorem left_of_circles_passed_over :
    let circle : RuntimeType := .custom "Circle"
    let shape : RuntimeType := .custom "Shape"
    let named (name : String) : Resolver := ⟨name, fun _ _ => .ok true⟩
    let left : Registered := ⟨⟨circle, .any⟩, named "left"⟩
    let right : Registered := ⟨⟨.any, circle⟩, named "right"⟩
    let registrations : List Registered := [⟨⟨.any, shape⟩, named "shapes"⟩, left, right]
    let registry := ofRegistrations registrations
    let builtin := (NominalTypes.initial.registerSupertype "Circle" "Shape").oracle
    circleOrder.Ordered ∧ (∀ registered ∈ registrations, registered.types ≠ ⟨circle, circle⟩) ∧
      (∀ lower ∈ [.any, shape, circle], ∀ upper ∈ [.any, shape, circle],
        circleOrder.isSubtype lower upper = builtin.isSubtype lower upper) ∧
      registry.slots = registrations ∧
      (∀ slot ∈ registrations, Nearest circleOrder registry.slots ⟨circle, circle⟩ slot ↔
        slot.resolver.name ∈ ["left", "right"]) ∧
      (registry.nearest? circleOrder ⟨circle, circle⟩).map (·.name) = some "right" := by
  intro circle shape named left right registrations registry builtin
  have slots : registry.slots = registrations := by rfl
  refine ⟨ordered_circleOrder, by decide, by decide +kernel, slots, ?_, by rfl⟩
  rw [slots]
  have leftNearest : Nearest circleOrder registrations ⟨circle, circle⟩ left :=
    ⟨.tail _ (.head _), by decide, by decide⟩
  have rightNearest : Nearest circleOrder registrations ⟨circle, circle⟩ right :=
    ⟨.tail _ (.tail _ (.head _)), by decide, by decide⟩
  have shapes : ¬ Nearest circleOrder registrations ⟨circle, circle⟩
      ⟨⟨.any, shape⟩, named "shapes"⟩ := by
    intro nearest
    have lowest := nearest.lowest right rightNearest.member rightNearest.conforms
    revert lowest
    decide
  simp [registrations, leftNearest, rightNearest, shapes, left, right, named]

end ResolverRegistry

end PatternClauses
