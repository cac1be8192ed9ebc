import Mathlib.Logic.Relation
import PatternClauses.Typing.Nominal

/-!
# Nominal subtypes

One nominal type is a subtype of another exactly when registered supertypes lead from its name, in
any number of steps, to a name of the other.  The search for such a name ends and finds it whatever
the registered types are and in whatever order it takes them: its budget is enough, and what it has
passed over leads to no name that it does not see.
-/

namespace PatternClauses

/-- Names of one type: they are equal, or one is the other behind a path that ends in a dot. -/
def SameType (left right : String) : Prop :=
  left = right ∨ ∃ path : String, left = path ++ "." ++ right ∨ right = path ++ "." ++ left

theorem isQualifiedBy_iff (path name : String) :
    isQualifiedBy path name = true ↔ ∃ before : String, path = before ++ "." ++ name := by
  rw [isQualifiedBy, List.isSuffixOf_iff_suffix]
  constructor
  · rintro ⟨before, same⟩
    refine ⟨.ofList before, String.toList_inj.mp ?_⟩
    rw [← same]
    simp
  · rintro ⟨before, rfl⟩
    exact ⟨before.toList, by simp⟩

theorem sameNominal_iff (left right : String) :
    sameNominal left right = true ↔ SameType left right := by
  rw [sameNominal, Bool.or_eq_true, Bool.or_eq_true, beq_iff_eq, isQualifiedBy_iff,
    isQualifiedBy_iff, or_assoc, ← exists_or]
  rfl

namespace NominalTypes

variable {types : NominalTypes} {target : String}

def Extends (types : NominalTypes) (sub super : String) : Prop := (sub, super) ∈ types.supertypes

/-- Registered supertypes lead from a name, in any number of steps, to a name of the target. -/
def Leads (types : NominalTypes) (name target : String) : Prop :=
  ∃ super, Relation.ReflTransGen types.Extends name super ∧ SameType super target

theorem mem_supertypesOf {name super : String} :
    super ∈ types.supertypesOf name ↔ types.Extends name super := by
  simp [supertypesOf, Extends]

theorem Leads.step {name super : String} (extension : types.Extends name super)
    (leads : types.Leads super target) : types.Leads name target := by
  rcases leads with ⟨last, path, same⟩
  exact ⟨last, .head extension path, same⟩

/-! ## Rounds of the search -/

/-- The search ends within a number of rounds with an answer.  In every round it takes the first
pending name, and when it visits that name, its supertypes become pending in any order. -/
inductive SettlesWithin (types : NominalTypes) (target : String) :
    (rounds : Nat) → (visited pending : List String) → (answer : Bool) → Prop
  | exhausted : SettlesWithin types target rounds visited [] false
  | found (same : SameType name target) :
      SettlesWithin types target (rounds + 1) visited (name :: rest) true
  | seen (apart : ¬ SameType name target) (member : name ∈ visited)
      (later : SettlesWithin types target rounds visited rest answer) :
      SettlesWithin types target (rounds + 1) visited (name :: rest) answer
  | visit (apart : ¬ SameType name target) (fresh : name ∉ visited)
      (later : ∀ supers : List String, supers.Perm (types.supertypesOf name) →
        SettlesWithin types target rounds (name :: visited) (supers ++ rest) answer) :
      SettlesWithin types target (rounds + 1) visited (name :: rest) answer

theorem SettlesWithin.search_eq {budget : Nat} {visited pending : List String} {answer : Bool}
    (settles : types.SettlesWithin target budget visited pending answer) :
    types.search target budget visited pending = answer := by
  induction settles with
  | @exhausted budget visited => cases budget <;> rfl
  | found same => rw [search, if_pos ((sameNominal_iff _ _).mpr same)]
  | seen apart member _ induction =>
    rw [search, if_neg (mt (sameNominal_iff _ _).mp apart), if_pos member, induction]
  | visit apart fresh _ induction =>
    rw [search, if_neg (mt (sameNominal_iff _ _).mp apart), if_neg fresh, induction _ (.refl _)]

/-! ## What the search passes over -/

/-- Nothing visited is a name of the target, and from there one gets only to what is visited or
pending. -/
structure Explored (types : NominalTypes) (target : String) (visited pending : List String) :
    Prop where
  apart : ∀ name ∈ visited, ¬ SameType name target
  within : ∀ name ∈ visited, ∀ super, types.Extends name super → super ∈ visited ∨ super ∈ pending

theorem explored_start (types : NominalTypes) (target : String) (pending : List String) :
    types.Explored target [] pending := ⟨nofun, nofun⟩

theorem Explored.skip {visited rest : List String} {name : String}
    (explored : types.Explored target visited (name :: rest)) (seen : name ∈ visited) :
    types.Explored target visited rest where
  apart := explored.apart
  within other member super extension := by
    rcases explored.within other member super extension with inside | pending
    · exact .inl inside
    · rcases List.mem_cons.mp pending with rfl | later
      · exact .inl seen
      · exact .inr later

theorem Explored.visit {visited rest supers : List String} {name : String}
    (explored : types.Explored target visited (name :: rest)) (apart : ¬ SameType name target)
    (all : supers.Perm (types.supertypesOf name)) :
    types.Explored target (name :: visited) (supers ++ rest) where
  apart := List.forall_mem_cons.mpr ⟨apart, explored.apart⟩
  within other member super extension := by
    rcases List.mem_cons.mp member with rfl | earlier
    · exact .inr (List.mem_append_left _ (all.mem_iff.mpr (mem_supertypesOf.mpr extension)))
    · rcases explored.within other earlier super extension with inside | pending
      · exact .inl (.tail _ inside)
      · rcases List.mem_cons.mp pending with rfl | later
        · exact .inl (.head _)
        · exact .inr (List.mem_append_right _ later)

/-- What a visited name leads to, a pending one leads to: the way there leaves the visited names at
a pending one. -/
theorem Explored.exists_pending {visited pending : List String} {name : String}
    (explored : types.Explored target visited pending) (member : name ∈ visited)
    (leads : types.Leads name target) : ∃ other ∈ pending, types.Leads other target := by
  rcases leads with ⟨last, way, same⟩
  induction way using Relation.ReflTransGen.head_induction_on with
  | refl => exact absurd same (explored.apart _ member)
  | head extension rest induction =>
    rcases explored.within _ member _ extension with inside | pending
    · exact induction inside
    · exact ⟨_, pending, last, rest, same⟩

def unexplored (types : NominalTypes) (visited : List String) : Nat :=
  types.supertypes.countP fun step => step.1 ∉ visited

theorem unexplored_cons {name : String} {visited : List String} (fresh : name ∉ visited) :
    types.unexplored visited =
      (types.supertypesOf name).length + types.unexplored (name :: visited) := by
  unfold unexplored supertypesOf
  rw [List.length_map, ← List.countP_eq_length_filter]
  induction types.supertypes with
  | nil => rfl
  | cons step rest induction =>
    rw [List.countP_cons, List.countP_cons, List.countP_cons, induction]
    by_cases here : step.1 = name
    · simp [here, fresh]
      omega
    · by_cases seen : step.1 ∈ visited <;> simp [here, seen]
      omega

/-! ## What the search finds -/

/-- A round changes nothing in whether a pending name leads to the target: the name that it takes
is visited, the others stay, and what it adds are supertypes of that name. -/
theorem Explored.exists_leads_iff {visited rest next : List String} {name : String}
    (explored : types.Explored target visited next) (member : name ∈ visited)
    (kept : ∀ other ∈ rest, other ∈ next)
    (added : ∀ other ∈ next, other ∈ rest ∨ types.Extends name other) :
    (∃ other ∈ name :: rest, types.Leads other target) ↔
      ∃ other ∈ next, types.Leads other target := by
  constructor
  · rintro ⟨other, pending, leads⟩
    rcases List.mem_cons.mp pending with rfl | later
    · exact explored.exists_pending member leads
    · exact ⟨other, kept other later, leads⟩
  · rintro ⟨other, pending, leads⟩
    rcases added other pending with later | extension
    · exact ⟨other, .tail _ later, leads⟩
    · exact ⟨name, .head _, leads.step extension⟩

theorem settlesWithin_of_nil {rounds : Nat} {visited pending : List String} {answer : Bool}
    (none : pending = [])
    (means : answer = true ↔ ∃ name ∈ pending, types.Leads name target) :
    types.SettlesWithin target rounds visited pending answer := by
  subst none
  have no : answer = false := by simpa using means
  exact no ▸ .exhausted

/-- The search ends with the answer whether one of the pending names leads to the target.  Every
round takes one name from those, and the names that it adds are steps no longer unexplored, so the
rounds do not run out. -/
theorem Explored.settlesWithin {rounds : Nat} {visited pending : List String} {answer : Bool}
    (explored : types.Explored target visited pending)
    (enough : pending.length + types.unexplored visited ≤ rounds)
    (means : answer = true ↔ ∃ name ∈ pending, types.Leads name target) :
    types.SettlesWithin target rounds visited pending answer := by
  induction rounds generalizing visited pending with
  | zero =>
    have none : pending = [] := List.eq_nil_of_length_eq_zero (by omega)
    exact settlesWithin_of_nil none means
  | succ rounds induction =>
    cases pending with
    | nil => exact settlesWithin_of_nil rfl means
    | cons name rest =>
      rw [List.length_cons] at enough
      by_cases same : SameType name target
      · have yes : answer = true := means.mpr ⟨name, .head _, name, .refl, same⟩
        exact yes ▸ .found same
      · by_cases member : name ∈ visited
        · have skipped := explored.skip member
          refine .seen same member (induction skipped (by omega) (means.trans ?_))
          exact skipped.exists_leads_iff member (fun _ => id) fun _ => .inl
        · refine .visit same member fun supers all => ?_
          have extended := explored.visit same all
          -- The names that are added are steps from the one that is visited.
          have fewer := types.unexplored_cons member
          have length : (supers ++ rest).length + types.unexplored (name :: visited) ≤ rounds := by
            rw [List.length_append, all.length_eq]
            omega
          refine induction extended length (means.trans (extended.exists_leads_iff (.head _) ?_ ?_))
          · exact fun other later => List.mem_append_right _ later
          · intro other pending
            rcases List.mem_append.mp pending with super | later
            · exact .inr (mem_supertypesOf.mp (all.mem_iff.mp super))
            · exact .inl later

theorem settlesWithin_of_leads_iff {sub super : String} {answer : Bool}
    (means : answer = true ↔ types.Leads sub super) (spare : Nat) :
    types.SettlesWithin super (types.supertypes.length + 1 + spare) [] [sub] answer := by
  have steps : types.unexplored [] ≤ types.supertypes.length := List.countP_le_length
  apply (explored_start types super [sub]).settlesWithin
  · rw [List.length_singleton]
    omega
  · simpa using means

theorem isSubtype_iff_leads (types : NominalTypes) (sub super : String) :
    types.isSubtype sub super = true ↔ types.Leads sub super := by
  classical
  have means : decide (types.Leads sub super) = true ↔ types.Leads sub super := decide_eq_true_iff
  have answered := (settlesWithin_of_leads_iff means 0).search_eq
  rw [isSubtype, ← means]
  exact iff_of_eq (congrArg (· = true) answered)

/-- Whatever supertypes are registered, the search ends, in whatever order it takes those of a name,
after at most as many rounds as steps are registered and one more, so that no larger budget changes
its answer.  It finds the target exactly when registered steps lead from the one name to a name of
the other type. -/
theorem search_ends_with_reachability (types : NominalTypes) (sub super : String) :
    types.SettlesWithin super (types.supertypes.length + 1) [] [sub] (types.isSubtype sub super) ∧
    (∀ spare, types.search super (types.supertypes.length + 1 + spare) [] [sub] =
      types.isSubtype sub super) ∧
    (types.isSubtype sub super = true ↔
      ∃ last, Relation.ReflTransGen types.Extends sub last ∧
        (last = super ∨
          ∃ path : String, last = path ++ "." ++ super ∨ super = path ++ "." ++ last)) := by
  have settles := settlesWithin_of_leads_iff (isSubtype_iff_leads types sub super)
  exact ⟨settles 0, fun spare => (settles spare).search_eq, isSubtype_iff_leads types sub super⟩

end NominalTypes

end PatternClauses
