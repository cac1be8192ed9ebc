import PatternClauses.Proofs.Environment.Refinement

/-!
# Merging several environments

Merging is associative: of three environments, the innermost may be merged into the middle one
first, or the middle one into the outer one.  The order of the bindings is that of the outer
environment, then that of the middle one, then that of the innermost, and of the bindings of one
name the innermost stays.
-/

namespace PatternClauses.Environment

/-! ## Merged lists -/

theorem inherited_merged (middle inner : List Binding) (old : Binding) :
    inherited (merged middle inner) old = inherited inner (inherited middle old) := by
  rw [inherited, named?_merged, inherited, name_inherited, inherited]
  cases named? inner old.name <;> rfl

/-- Whether a binding is appended rests on its name, which it keeps when it is replaced. -/
theorem appended_inherited (outer middle inner : List Binding) :
    (middle.filter fun binding => binding.name ∉ outer.map (·.name)).map (inherited inner) =
      (middle.map (inherited inner)).filter fun binding => binding.name ∉ outer.map (·.name) := by
  rw [List.filter_map]
  congr 2
  funext old
  rw [Function.comp_apply, name_inherited]

theorem not_mem_names_merged {outer middle : List Binding} {name : String} :
    name ∉ (merged outer middle).map (·.name) ↔
      name ∉ middle.map (·.name) ∧ name ∉ outer.map (·.name) := by
  rw [← named?_eq_none_iff, ← named?_eq_none_iff, ← named?_eq_none_iff, named?_merged,
    Option.or_eq_none_iff]

theorem merged_assoc (outer middle inner : List Binding) :
    merged (merged outer middle) inner = merged outer (merged middle inner) := by
  have kept : (outer.map (inherited middle)).map (inherited inner) =
      outer.map (inherited (merged middle inner)) := by
    rw [List.map_map]
    exact List.map_congr_left fun old _ => (inherited_merged middle inner old).symm
  have added : inner.filter (fun binding => binding.name ∉ (merged outer middle).map (·.name)) =
      (inner.filter fun binding => binding.name ∉ middle.map (·.name)).filter
        fun binding => binding.name ∉ outer.map (·.name) := by
    rw [List.filter_filter]
    apply List.filter_congr
    intro binding _
    rw [← Bool.decide_and, decide_eq_decide, not_mem_names_merged, and_comm]
  rw [merged_eq (merged outer middle), added, merged_eq outer middle, List.map_append, kept,
    appended_inherited, List.append_assoc, ← List.filter_append, ← merged_eq, ← merged_eq]

/-! ## Merged environments -/

variable {env inner middle outer : Environment}

theorem Indexed.merged_self (indexed : env.Indexed) :
    merged env.bindings env.bindings = env.bindings := by
  have own : ∀ old ∈ env.bindings, inherited env.bindings old = id old := by
    intro old member
    have found : named? env.bindings old.name = some old :=
      indexed.indexes.find?_eq_some_iff.mpr ⟨member, rfl⟩
    rw [inherited, found]
    rfl
  have none : env.bindings.filter (fun binding => binding.name ∉ env.bindings.map (·.name)) =
      [] := by
    apply List.filter_eq_nil_iff.mpr
    intro old member absent
    exact of_decide_eq_true absent (List.mem_map_of_mem member)
  rw [merged_eq, none, List.append_nil, List.map_congr_left own, List.map_id]

theorem Indexed.commitInto_assoc (inside : inner.Indexed) (between : middle.Indexed)
    (outside : outer.Indexed) :
    inner.commitInto (middle.commitInto outer) = (inner.commitInto middle).commitInto outer := by
  have first := between.commitInto outside
  have second := inside.commitInto between
  have left := inside.commitInto first.1
  have right := second.1.commitInto outside
  apply left.1.ext right.1
  rw [left.2, right.2, first.2, second.2, merged_assoc]

theorem Indexed.commitInto_self (indexed : env.Indexed) : env.commitInto env = env := by
  have merges := indexed.commitInto indexed
  apply merges.1.ext indexed
  rw [merges.2, indexed.merged_self]

/-- The environments that a program has made merge associatively, the empty one changes nothing on
either side, and merging one of them a second time changes nothing. -/
theorem commits_associate (program : List Operation) (inner middle outer : Nat) :
    let memory := keeping.run program
    let innermost := memory.environments inner
    let between := memory.environments middle
    let scope := memory.environments outer
    innermost.commitInto (between.commitInto scope) =
        (innermost.commitInto between).commitInto scope ∧
      empty.commitInto scope = scope ∧ scope.commitInto empty = scope ∧
      innermost.commitInto (innermost.commitInto scope) = innermost.commitInto scope := by
  intro memory innermost between scope
  have indexed (number : Nat) : (memory.environments number).Indexed :=
    ((agree_start.steps program).answers number).indexed
  have twice := (indexed inner).commitInto_assoc (indexed inner) (indexed outer)
  refine ⟨(indexed inner).commitInto_assoc (indexed middle) (indexed outer), rfl,
    (indexed outer).commitInto_empty, ?_⟩
  rw [twice, (indexed inner).commitInto_self]

/-- The names stand in the order of the outer environment, then the middle, then the innermost. -/
example :
    let inner := (empty.push ⟨"z", .integer 1, false⟩).push ⟨"x", .integer 2, false⟩
    let middle := (empty.push ⟨"y", .integer 3, true⟩).push ⟨"z", .integer 4, true⟩
    let outer := empty.push ⟨"x", .integer 5, true⟩
    let merged := inner.commitInto (middle.commitInto outer)
    merged.names = ["x", "y", "z"] ∧ merged.isMutable? "x" = some false ∧
      merged.isMutable? "z" = some false := by
  decide +kernel

end PatternClauses.Environment
