import PatternClauses.Equivalence
import PatternClauses.Indexing
import PatternClauses.Typing.Builtin

/-!
# The nearest resolver

Subtypes order the pairs of types.  A registry looks for a resolver in one pass over its slots and
keeps a single best one, although two pairs need not be comparable.  That is enough: a slot that was
passed over is not below the best one of its time, so it is not below a later one either, which is
below that.
-/

namespace PatternClauses

namespace TypeOracle

structure Preordered (oracle : TypeOracle) : Prop where
  reflexive : ∀ type, oracle.isSubtype type type = true
  transitive : ∀ lower middle upper, oracle.isSubtype lower middle = true →
    oracle.isSubtype middle upper = true → oracle.isSubtype lower upper = true

def isMoreSpecific (oracle : TypeOracle) (lower upper : TypePair) : Bool :=
  oracle.isSubpair lower upper && !oracle.isSubpair upper lower

variable {oracle : TypeOracle}

theorem isSubpair_iff {lower upper : TypePair} :
    oracle.isSubpair lower upper = true ↔ oracle.isSubtype lower.pattern upper.pattern = true ∧
      oracle.isSubtype lower.candidate upper.candidate = true :=
  Bool.and_eq_true_iff

theorem Preordered.isSubpair_self (ordered : oracle.Preordered) (types : TypePair) :
    oracle.isSubpair types types = true :=
  isSubpair_iff.mpr ⟨ordered.reflexive _, ordered.reflexive _⟩

theorem Preordered.isSubpair_trans (ordered : oracle.Preordered) {lower middle upper : TypePair}
    (below : oracle.isSubpair lower middle = true) (above : oracle.isSubpair middle upper = true) :
    oracle.isSubpair lower upper = true := by
  rw [isSubpair_iff] at below above ⊢
  exact ⟨ordered.transitive _ _ _ below.1 above.1, ordered.transitive _ _ _ below.2 above.2⟩

theorem isMoreSpecific_eq_false_iff {lower upper : TypePair} :
    oracle.isMoreSpecific lower upper = false ↔
      (oracle.isSubpair lower upper = true → oracle.isSubpair upper lower = true) := by
  unfold isMoreSpecific
  cases oracle.isSubpair lower upper <;> simp

end TypeOracle

namespace ResolverRegistry

/-! ## Registration -/

def registerEach (registry : ResolverRegistry) (added : List Registered) : ResolverRegistry :=
  added.foldl (fun registry slot => registry.register slot.types slot.resolver) registry

def ofRegistrations (registrations : List Registered) : ResolverRegistry :=
  empty.registerEach registrations

def lastFor? (registrations : List Registered) (types : TypePair) : Option Registered :=
  registrations.reverse.find? fun slot => slot.types = types

def Indexed (registry : ResolverRegistry) : Prop :=
  Indexes Registered.types registry.places registry.slots

theorem indexed_empty : empty.Indexed := Indexes.nil

theorem Indexed.register {registry : ResolverRegistry} (indexed : registry.Indexed)
    (slot : Registered) :
    (registry.register slot.types slot.resolver).Indexed ∧
      (registry.register slot.types slot.resolver).slots =
        put Registered.types registry.slots slot := by
  unfold ResolverRegistry.register
  split
  · rename_i place found
    exact ⟨indexed.set found, (indexed.put_eq_set found).symm⟩
  · rename_i free
    exact ⟨indexed.append (indexed.getElem?_eq_none_iff.mp free), (indexed.put_eq_append free).symm⟩

theorem Indexed.registerEach {registry : ResolverRegistry} (indexed : registry.Indexed)
    (added : List Registered) :
    (registry.registerEach added).Indexed ∧
      (registry.registerEach added).slots = added.foldl (put Registered.types) registry.slots := by
  induction added generalizing registry with
  | nil => exact ⟨indexed, rfl⟩
  | cons slot rest induction =>
    rcases indexed.register slot with ⟨next, slots⟩
    rcases induction next with ⟨after, same⟩
    rw [slots] at same
    exact ⟨after, same⟩

variable {registrations : List Registered} {types : TypePair}

theorem indexed_ofRegistrations : (ofRegistrations registrations).Indexed :=
  (indexed_empty.registerEach registrations).1

theorem mem_slots_iff {slot : Registered} :
    slot ∈ (ofRegistrations registrations).slots ↔
      lastFor? registrations slot.types = some slot := by
  have last : (ofRegistrations registrations).slots.find? (fun other => other.types = slot.types) =
      lastFor? registrations slot.types := by
    rw [ofRegistrations, (indexed_empty.registerEach registrations).2, find?_foldl_put]
    exact Option.or_none
  rw [← last, indexed_ofRegistrations.find?_eq_some_iff]
  exact (and_iff_left rfl).symm

theorem mem_registrations_of_mem_slots {slot : Registered}
    (member : slot ∈ (ofRegistrations registrations).slots) : slot ∈ registrations :=
  List.mem_reverse.mp (List.mem_of_find?_eq_some (mem_slots_iff.mp member))

theorem exists_slot_of_registered {registered : Registered} (member : registered ∈ registrations) :
    ∃ slot ∈ (ofRegistrations registrations).slots, slot.types = registered.types := by
  cases last : lastFor? registrations registered.types with
  | none =>
    have missing := List.find?_eq_none.mp last registered (List.mem_reverse.mpr member)
    simp at missing
  | some slot =>
    have same : slot.types = registered.types := by simpa using List.find?_some last
    exact ⟨slot, mem_slots_iff.mpr (same ▸ last), same⟩

/-! ## The scan -/

variable {oracle : TypeOracle}

/-- No slot is for a more specific pair. -/
structure Lowest (oracle : TypeOracle) (slots : List Registered) (best : Registered) : Prop where
  member : best ∈ slots
  below : ∀ slot ∈ slots, oracle.isSubpair slot.types best.types = true →
    oracle.isSubpair best.types slot.types = true

theorem Lowest.lower (ordered : oracle.Preordered) {slots : List Registered} {best : Registered}
    (lowest : Lowest oracle slots best) (slot : Registered) :
    ∃ next, ResolverRegistry.lower oracle (some best) slot = some next ∧
      Lowest oracle (slots ++ [slot]) next := by
  unfold ResolverRegistry.lower
  by_cases under : oracle.isSubpair slot.types best.types = true
  · refine ⟨slot, if_pos under, List.mem_append_right _ (.head _), ?_⟩
    intro other member lower
    rcases List.mem_append.mp member with earlier | last
    -- What is below the new best is below the old one, so the old one is below it in turn.
    · have reached := lowest.below other earlier (ordered.isSubpair_trans lower under)
      exact ordered.isSubpair_trans under reached
    · cases List.mem_singleton.mp last
      exact lower
  · refine ⟨best, if_neg under, List.mem_append_left _ lowest.member, ?_⟩
    intro other member lower
    rcases List.mem_append.mp member with earlier | last
    · exact lowest.below other earlier lower
    · cases List.mem_singleton.mp last
      exact absurd lower under

theorem Lowest.scan (ordered : oracle.Preordered) {slots : List Registered} {best : Registered}
    (lowest : Lowest oracle slots best) (rest : List Registered) :
    ∃ last, rest.foldl (ResolverRegistry.lower oracle) (some best) = some last ∧
      Lowest oracle (slots ++ rest) last := by
  induction rest generalizing slots best with
  | nil => exact ⟨best, rfl, (List.append_nil slots).symm ▸ lowest⟩
  | cons slot rest induction =>
    rcases lowest.lower ordered slot with ⟨next, step, lower⟩
    rcases induction lower with ⟨last, scan, final⟩
    refine ⟨last, ?_, ?_⟩
    · rw [List.foldl_cons, step, scan]
    · rw [List.append_assoc] at final
      exact final

theorem exists_lowest (ordered : oracle.Preordered) {slots : List Registered}
    (nonempty : slots ≠ []) :
    ∃ best, slots.foldl (lower oracle) none = some best ∧ Lowest oracle slots best := by
  cases slots with
  | nil => exact absurd rfl nonempty
  | cons slot rest =>
    have first : Lowest oracle [slot] slot := by
      refine ⟨.head _, fun other member lower => ?_⟩
      cases List.mem_singleton.mp member
      exact lower
    exact first.scan ordered rest

/-! ## Looking for a resolver -/

structure Nearest (oracle : TypeOracle) (slots : List Registered) (types : TypePair)
    (best : Registered) : Prop where
  member : best ∈ slots
  conforms : oracle.isSubpair types best.types = true
  lowest : ∀ slot ∈ slots, oracle.isSubpair types slot.types = true →
    oracle.isMoreSpecific slot.types best.types = false

theorem mem_conforming_iff {registry : ResolverRegistry} {slot : Registered} :
    slot ∈ registry.conforming oracle types ↔
      slot ∈ registry.slots ∧ oracle.isSubpair types slot.types = true :=
  List.mem_filter

theorem nearest_of_exact (ordered : oracle.Preordered) {slots : List Registered} {slot : Registered}
    (member : slot ∈ slots) : Nearest oracle slots slot.types slot where
  member := member
  conforms := ordered.isSubpair_self _
  lowest _ _ conforms := TypeOracle.isMoreSpecific_eq_false_iff.mpr fun _ => conforms

theorem Lowest.nearest {registry : ResolverRegistry} {best : Registered}
    (lowest : Lowest oracle (registry.conforming oracle types) best) :
    Nearest oracle registry.slots types best where
  member := (mem_conforming_iff.mp lowest.member).1
  conforms := (mem_conforming_iff.mp lowest.member).2
  lowest slot member conforms := TypeOracle.isMoreSpecific_eq_false_iff.mpr
    (lowest.below slot (mem_conforming_iff.mpr ⟨member, conforms⟩))

theorem nearest?_cases (ordered : oracle.Preordered) {registry : ResolverRegistry}
    (indexed : registry.Indexed) (types : TypePair) :
    (registry.nearest? oracle types = none ∧
      ∀ slot ∈ registry.slots, oracle.isSubpair types slot.types = false) ∨
    ∃ slot, registry.nearest? oracle types = some slot.resolver ∧
      Nearest oracle registry.slots types slot := by
  unfold nearest?
  split
  · rename_i place found
    rcases indexed.exists_item found with ⟨slot, here, rfl⟩
    refine .inr ⟨slot, ?_, nearest_of_exact ordered (List.mem_of_getElem? here)⟩
    rw [here, Option.map_some]
  · by_cases empty : registry.conforming oracle types = []
    · refine .inl ⟨by rw [empty]; rfl, fun slot member => ?_⟩
      rw [← Bool.not_eq_true]
      intro conforms
      have conforming := mem_conforming_iff.mpr ⟨member, conforms⟩
      rw [empty] at conforming
      cases conforming
    · rcases exists_lowest ordered empty with ⟨best, scan, lowest⟩
      refine .inr ⟨best, ?_, lowest.nearest⟩
      rw [scan, Option.map_some]

/-- A registry finds no resolver exactly if none was registered for supertypes of the pair.  What it
finds otherwise is the last resolver for such a pair, and no other such pair is more specific. -/
theorem nearest_is_most_specific (ordered : oracle.Preordered) (registrations : List Registered)
    (types : TypePair) :
    let registry := ofRegistrations registrations
    (registry.nearest? oracle types = none ↔
      ∀ slot ∈ registrations, oracle.isSubpair types slot.types = false) ∧
    ∀ resolver, registry.nearest? oracle types = some resolver →
      ∃ slot, lastFor? registrations slot.types = some slot ∧ slot.resolver = resolver ∧
        oracle.isSubpair types slot.types = true ∧
        ∀ other ∈ registrations, oracle.isSubpair types other.types = true →
          oracle.isMoreSpecific other.types slot.types = false := by
  intro registry
  rcases nearest?_cases ordered indexed_ofRegistrations types with
    ⟨nothing, none⟩ | ⟨slot, found, nearest⟩
  · refine ⟨iff_of_true nothing fun registered member => ?_, ?_⟩
    · rcases exists_slot_of_registered member with ⟨slot, inside, same⟩
      rw [← same]
      exact none slot inside
    · intro resolver found
      rw [nothing] at found
      cases found
  · have registered := mem_registrations_of_mem_slots nearest.member
    constructor
    · rw [found]
      refine iff_of_false nofun fun none => ?_
      have conforms := nearest.conforms
      rw [none slot registered] at conforms
      cases conforms
    · intro resolver same
      rw [found] at same
      cases same
      refine ⟨slot, mem_slots_iff.mp nearest.member, rfl, nearest.conforms, ?_⟩
      intro other member conforms
      rcases exists_slot_of_registered member with ⟨otherSlot, inside, equal⟩
      rw [← equal] at conforms ⊢
      exact nearest.lowest otherSlot inside conforms

/-- The pairs of `Any` and `Int` and of `String` and `Any` are not comparable.  Both are below the
pair of `Any` and `Any`, which is registered first, and of the two the one that comes first
stays. -/
theorem nearest_of_incomparable_pairs :
    let oracle : TypeOracle :=
      { NominalTypes.initial.oracle with
        isSubtype := fun lower upper => upper = .any || lower = upper }
    let named (name : String) : Resolver := ⟨name, fun _ _ => .ok true⟩
    let registrations : List Registered :=
      [⟨⟨.any, .any⟩, named "top"⟩, ⟨⟨.string, .any⟩, named "replaced"⟩,
        ⟨⟨.any, .integer⟩, named "right"⟩, ⟨⟨.string, .any⟩, named "left"⟩]
    oracle.Preordered ∧
      ∃ slot, lastFor? registrations slot.types = some slot ∧ slot.resolver.name = "left" ∧
        oracle.isSubpair ⟨.string, .integer⟩ slot.types = true ∧
        ∀ other ∈ registrations, oracle.isSubpair ⟨.string, .integer⟩ other.types = true →
          oracle.isMoreSpecific other.types slot.types = false := by
  intro oracle named registrations
  have ordered : oracle.Preordered := by
    constructor
    · intro type
      exact Bool.or_eq_true_iff.mpr (.inr (decide_eq_true rfl))
    · intro lower middle upper below above
      simp only [oracle, Bool.or_eq_true, decide_eq_true_eq] at below above ⊢
      rcases above with top | rfl
      · exact .inl top
      · exact below
  have found : (ofRegistrations registrations).nearest? oracle ⟨.string, .integer⟩ =
      some (named "left") := by rfl
  rcases (nearest_is_most_specific ordered registrations ⟨.string, .integer⟩).2 _ found with
    ⟨slot, last, same, conforms, lowest⟩
  exact ⟨ordered, slot, last, congrArg Resolver.name same, conforms, lowest⟩

end ResolverRegistry

end PatternClauses
