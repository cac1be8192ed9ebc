import Mathlib.Data.List.Basic
import PatternClauses.Proofs.Equivalence.TieBreak

/-!
# The slots of a registry and their index

A registration changes one slot, or adds one together with an entry of the index.  So the slots and
the index never disagree, and both tell the history: which pairs were registered, in which order
they came, and what was registered for each of them at last.
-/

namespace PatternClauses

namespace ResolverRegistry

/-! ## The order of slots -/

theorem pairwise_idxOf_eraseDups [BEq α] [LawfulBEq α] (history : List α) :
    history.eraseDups.Pairwise fun earlier later =>
      history.idxOf earlier < history.idxOf later := by
  induction history using List.reverseRecOn with
  | nil => exact .nil
  | append_singleton history last induction =>
    -- What is added behind does not change where the others came first.
    have before : history.eraseDups.Pairwise fun earlier later =>
        (history ++ [last]).idxOf earlier < (history ++ [last]).idxOf later := by
      apply induction.imp_of_mem
      intro earlier later first second less
      rw [List.mem_eraseDups] at first second
      rwa [List.idxOf_append_of_mem first, List.idxOf_append_of_mem second]
    rw [eraseDups_concat]
    split
    · exact before
    · rename_i fresh
      refine List.pairwise_append.mpr ⟨before, List.pairwise_singleton _ _, ?_⟩
      intro earlier member later added
      rw [List.mem_eraseDups] at member
      cases List.mem_singleton.mp added
      rw [List.idxOf_append_of_mem member, List.idxOf_append_of_notMem fresh]
      exact Nat.lt_add_right _ (List.idxOf_lt_length_of_mem member)

/-! ## The history in a registry -/

variable {registrations : List Registered}

theorem mem_types_slots_iff {types : TypePair} :
    types ∈ (ofRegistrations registrations).slots.map (·.types) ↔
      types ∈ registrations.map (·.types) := by
  rw [types_slots, List.mem_eraseDups]

theorem exists_place_iff {types : TypePair} :
    (∃ place, (ofRegistrations registrations).places[types]? = some place) ↔
      types ∈ registrations.map (·.types) := by
  rw [← mem_types_slots_iff, ← Option.ne_none_iff_exists', ne_eq,
    indexed_ofRegistrations.getElem?_eq_none_iff]
  exact Decidable.not_not

theorem Indexed.nearest?_types {registry : ResolverRegistry} (indexed : registry.Indexed)
    {slot : Registered} (member : slot ∈ registry.slots) (oracle : TypeOracle) :
    registry.nearest? oracle slot.types = some slot.resolver := by
  rcases List.getElem?_of_mem member with ⟨place, here⟩
  rw [nearest?, indexed.place_of_getElem? here]
  simp only [here, Option.map_some]

theorem nearest?_of_registered (oracle : TypeOracle) {registered : Registered}
    (member : registered ∈ registrations) :
    ∃ last, lastFor? registrations registered.types = some last ∧
      (ofRegistrations registrations).nearest? oracle registered.types = some last.resolver := by
  rcases exists_slot_of_registered member with ⟨last, inside, same⟩
  rw [← same]
  exact ⟨last, mem_slots_iff.mp inside, indexed_ofRegistrations.nearest?_types inside oracle⟩

/-- After any registrations a registry has one slot for each pair that was registered and no other,
in the order in which the pairs came first.  A slot holds what was registered for its pair at last.
The index leads from these pairs to the places of their slots, and from no other pair anywhere.  So
the last resolver for a pair is found, whatever the subtypes are. -/
theorem slots_agree_with_places (registrations : List Registered) :
    let registry := ofRegistrations registrations
    let history := registrations.map (·.types)
    (registry.slots.map (·.types)).Nodup ∧
    (∀ types : TypePair, types ∈ registry.slots.map (·.types) ↔ types ∈ history) ∧
    ((registry.slots.map (·.types)).Pairwise fun earlier later =>
      history.idxOf earlier < history.idxOf later) ∧
    (∀ slot : Registered, slot ∈ registry.slots ↔ lastFor? registrations slot.types = some slot) ∧
    (∀ (types : TypePair) (place : Nat), registry.places[types]? = some place ↔
      (registry.slots[place]?).map (·.types) = some types) ∧
    (∀ types : TypePair, (∃ place, registry.places[types]? = some place) ↔ types ∈ history) ∧
    ∀ oracle, ∀ registered ∈ registrations,
      ∃ last, lastFor? registrations registered.types = some last ∧
        registry.nearest? oracle registered.types = some last.resolver := by
  intro registry history
  have indexed : registry.Indexed := indexed_ofRegistrations
  refine ⟨indexed.nodup, fun _ => mem_types_slots_iff, ?_, fun _ => mem_slots_iff, indexed,
    fun _ => exists_place_iff, fun oracle _ => nearest?_of_registered oracle⟩
  rw [types_slots registrations]
  exact pairwise_idxOf_eraseDups history

theorem integers_found_in_first_place :
    let named (name : String) : Resolver := ⟨name, fun _ _ => .ok true⟩
    let integers : TypePair := ⟨.integer, .integer⟩
    let registrations : List Registered :=
      [⟨integers, named "first"⟩, ⟨⟨.any, .string⟩, named "other"⟩, ⟨integers, named "second"⟩]
    let registry := ofRegistrations registrations
    ⟨integers, named "second"⟩ ∈ registrations ∧
      registry.slots.map (·.resolver.name) = ["second", "other"] ∧
      registry.places[integers]? = some 0 ∧
      ∀ oracle, (registry.nearest? oracle integers).map (·.name) = some "second" := by
  intro named integers registrations registry
  have member : ⟨integers, named "second"⟩ ∈ registrations := .tail _ (.tail _ (.head _))
  have general := slots_agree_with_places registrations
  have place : registry.places[integers]? = some 0 := (general.2.2.2.2.1 integers 0).mpr rfl
  refine ⟨member, rfl, place, fun oracle => ?_⟩
  rcases general.2.2.2.2.2.2 oracle _ member with ⟨last, latest, found⟩
  have name : last.resolver.name = "second" := by
    cases latest
    rfl
  rw [found, Option.map_some, name]

end ResolverRegistry

end PatternClauses
