import PatternClauses.Proofs.Environment.Extension

/-!
# Merging an environment into a scope

An indexed environment answers as a search through its list would, and its list determines it.
Merging bindings of distinct names into an indexed scope replaces those that the scope has in their
places and appends the others in order.
-/

namespace PatternClauses.Environment

def named? (bindings : List Binding) (name : String) : Option Binding :=
  bindings.find? fun binding => binding.name = name

theorem named?_cons (binding : Binding) (rest : List Binding) (name : String) :
    named? (binding :: rest) name =
      if binding.name = name then some binding else named? rest name := by
  by_cases same : binding.name = name <;> simp [named?, same]

theorem name_of_named? {bindings : List Binding} {name : String} {binding : Binding}
    (found : named? bindings name = some binding) : binding.name = name := by
  simpa using List.find?_some found

theorem named?_eq_none_iff {bindings : List Binding} {name : String} :
    named? bindings name = none ↔ name ∉ bindings.map (·.name) := by
  simp [named?]

/-! ## Searching -/

theorem Indexed.binding?_eq {env : Environment} (indexed : env.Indexed) (name : String) :
    env.binding? name = named? env.bindings name :=
  indexed.indexes.bind_getElem?_eq_find? name

theorem Indexed.places_congr {env other : Environment} (indexed : env.Indexed)
    (otherIndexed : other.Indexed) (same : env.names = other.names) :
    env.places = other.places := by
  apply Std.ExtTreeMap.ext_getElem?
  intro name
  apply Option.ext
  intro place
  rw [indexed.places_eq, otherIndexed.places_eq, ← List.getElem?_map, ← List.getElem?_map]
  exact iff_of_eq (congrArg (fun names => names[place]? = some name) same)

theorem Indexed.ext {env other : Environment} (indexed : env.Indexed) (otherIndexed : other.Indexed)
    (same : env.bindings = other.bindings) : env = other := by
  have places := indexed.places_congr otherIndexed (congrArg (List.map Binding.name) same)
  calc env = ⟨env.bindings, env.places⟩ := rfl
    _ = other := by rw [same, places]

/-! ## Shadowing -/

def replacing (binding old : Binding) : Binding := if old.name = binding.name then binding else old

@[simp] theorem name_replacing (binding old : Binding) :
    (replacing binding old).name = old.name := by
  unfold replacing
  split
  · rename_i same
    exact same.symm
  · rfl

theorem Indexed.shadow_of_bound {env : Environment} (indexed : env.Indexed) {binding : Binding}
    (bound : binding.name ∈ env.names) :
    (env.shadow binding).bindings = env.bindings.map (replacing binding) ∧
      (env.shadow binding).places = env.places := by
  rcases List.mem_map.mp bound with ⟨old, member, same⟩
  rcases List.getElem?_of_mem member with ⟨place, here⟩
  have placed := indexed.indexes.place_of_getElem? here
  rw [same] at placed
  unfold Environment.shadow
  rw [placed]
  refine ⟨List.ext_getElem? fun index => ?_, rfl⟩
  rw [List.getElem?_set, List.getElem?_map]
  by_cases atPlace : place = index
  · subst atPlace
    have inside : place < env.bindings.length := (List.getElem?_eq_some_iff.mp here).1
    rw [if_pos rfl, if_pos inside, here, Option.map_some, replacing, if_pos same]
  · rw [if_neg atPlace]
    cases there : env.bindings[index]? with
    | none => rfl
    | some other =>
      -- The index has one place for a name, so the binding at another place has another name.
      have different : other.name ≠ binding.name := by
        intro equal
        have twice := indexed.indexes.place_of_getElem? there
        rw [equal, placed] at twice
        exact atPlace (Option.some.inj twice)
      rw [Option.map_some, replacing, if_neg different]

theorem shadow_of_free {env : Environment} (indexed : env.Indexed) {binding : Binding}
    (free : binding.name ∉ env.names) : env.shadow binding = env.push binding := by
  have absent : env.places[binding.name]? = none := by
    rw [← contains_eq_false_iff, ← Bool.not_eq_true, indexed.contains_iff]
    exact free
  rw [shadow, absent]

theorem Indexed.shadow {env : Environment} (indexed : env.Indexed) (binding : Binding) :
    (env.shadow binding).Indexed := by
  unfold Environment.shadow
  split
  · rename_i place found
    exact indexed_of_indexes (indexed.indexes.set found)
  · rename_i free
    exact indexed.push (indexed.indexes.getElem?_eq_none_iff.mp free)

/-! ## Merging -/

/-- The bindings of a scope, each replaced by the added one of the same name if there is one, and
behind them the other added ones. -/
def merged (scope added : List Binding) : List Binding :=
  scope.map (fun old => (named? added old.name).getD old) ++
    added.filter fun binding => binding.name ∉ scope.map (·.name)

/-- The added binding of the same name if there is one, or else the old binding. -/
def inherited (added : List Binding) (old : Binding) : Binding :=
  (named? added old.name).getD old

@[simp] theorem name_inherited (added : List Binding) (old : Binding) :
    (inherited added old).name = old.name := by
  unfold inherited
  cases found : named? added old.name with
  | none => rfl
  | some binding => exact name_of_named? found

theorem merged_eq (scope added : List Binding) :
    merged scope added = scope.map (inherited added) ++
      added.filter fun binding => binding.name ∉ scope.map (·.name) := rfl

theorem merged_replacing {scope rest : List Binding} {binding : Binding}
    (bound : binding.name ∈ scope.map (·.name)) (last : binding.name ∉ rest.map (·.name)) :
    merged (scope.map (replacing binding)) rest = merged scope (binding :: rest) := by
  have names : (scope.map (replacing binding)).map (·.name) = scope.map (·.name) := by
    simp [Function.comp_def]
  unfold merged
  rw [names, List.map_map, List.filter_cons_of_neg (by simpa using bound)]
  congr 1
  apply List.map_congr_left
  intro old _
  rw [Function.comp_apply, name_replacing, named?_cons]
  by_cases same : old.name = binding.name
  · rw [if_pos same.symm, same, named?_eq_none_iff.mpr last, replacing, if_pos same]
    rfl
  · rw [if_neg (Ne.symm same), replacing, if_neg same]

theorem merged_append {scope rest : List Binding} {binding : Binding}
    (free : binding.name ∉ scope.map (·.name)) (last : binding.name ∉ rest.map (·.name)) :
    merged (scope ++ [binding]) rest = merged scope (binding :: rest) := by
  have kept : scope.map (fun old => (named? rest old.name).getD old) =
      scope.map fun old => (named? (binding :: rest) old.name).getD old := by
    apply List.map_congr_left
    intro old member
    have different : binding.name ≠ old.name := fun same =>
      free (List.mem_map.mpr ⟨old, member, same.symm⟩)
    rw [named?_cons, if_neg different]
  have others : rest.filter (fun other => other.name ∉ (scope ++ [binding]).map (·.name)) =
      rest.filter fun other => other.name ∉ scope.map (·.name) := by
    apply List.filter_congr
    intro other member
    have different : other.name ≠ binding.name := fun same =>
      last (List.mem_map.mpr ⟨other, member, same⟩)
    simp [different]
  unfold merged
  rw [others, List.map_append, List.map_singleton, named?_eq_none_iff.mpr last, kept,
    List.filter_cons_of_pos (by simpa using free), List.append_assoc]
  rfl

/-- Bindings of distinct names that are shadowed one after another are merged. -/
theorem Indexed.shadowEach {scope : Environment} (indexed : scope.Indexed) {added : List Binding}
    (distinct : (added.map (·.name)).Nodup) :
    (added.foldl Environment.shadow scope).Indexed ∧
      (added.foldl Environment.shadow scope).bindings = merged scope.bindings added := by
  induction added generalizing scope with
  | nil => exact ⟨indexed, by simp [merged, named?]⟩
  | cons binding rest induction =>
    rw [List.map_cons, List.nodup_cons] at distinct
    rcases induction (indexed.shadow binding) distinct.2 with ⟨later, same⟩
    refine ⟨later, ?_⟩
    rw [List.foldl_cons, same]
    by_cases bound : binding.name ∈ scope.names
    · rw [(indexed.shadow_of_bound bound).1]
      exact merged_replacing bound distinct.1
    · rw [shadow_of_free indexed bound]
      exact merged_append bound distinct.1

theorem Indexed.commitInto {env scope : Environment} (indexed : env.Indexed)
    (scopeIndexed : scope.Indexed) :
    (env.commitInto scope).Indexed ∧
      (env.commitInto scope).bindings = merged scope.bindings env.bindings :=
  scopeIndexed.shadowEach indexed.distinct

theorem Indexed.commitInto_empty {env : Environment} (indexed : env.Indexed) :
    env.commitInto .empty = env := by
  rcases indexed.commitInto indexed_empty with ⟨merges, bindings⟩
  apply merges.ext indexed
  rw [bindings]
  simp [merged, empty]

/-! ## Looking up after a merge -/

theorem named?_inherited (scope added : List Binding) (name : String) :
    named? (scope.map (inherited added)) name = (named? scope name).map (inherited added) := by
  unfold named?
  rw [List.find?_map]
  congr 2
  funext old
  exact congrArg (fun other => decide (other = name)) (name_inherited added old)

theorem named?_appended {scope : List Binding} (added : List Binding) {name : String}
    (absent : name ∉ scope.map (·.name)) :
    named? (added.filter fun binding => binding.name ∉ scope.map (·.name)) name =
      named? added name := by
  unfold named?
  rw [List.find?_filter]
  congr 1
  funext binding
  by_cases same : binding.name = name
  · subst same
    simpa using absent
  · simp [same]

theorem named?_merged (scope added : List Binding) (name : String) :
    named? (merged scope added) name = (named? added name).or (named? scope name) := by
  have parts : named? (merged scope added) name =
      ((named? scope name).map (inherited added)).or
        (named? (added.filter fun binding => binding.name ∉ scope.map (·.name)) name) := by
    rw [← named?_inherited]
    exact List.find?_append
  rw [parts]
  cases found : named? scope name with
  | some old =>
    rw [Option.map_some, Option.some_or, inherited, name_of_named? found]
    cases named? added name <;> rfl
  | none =>
    rw [named?_appended added (named?_eq_none_iff.mp found), Option.or_none]
    rfl

theorem Indexed.binding?_commitInto {env scope : Environment} (indexed : env.Indexed)
    (scopeIndexed : scope.Indexed) (name : String) :
    (env.commitInto scope).binding? name = (env.binding? name).or (scope.binding? name) := by
  rcases indexed.commitInto scopeIndexed with ⟨outIndexed, bindings⟩
  rw [outIndexed.binding?_eq, bindings, named?_merged, indexed.binding?_eq, scopeIndexed.binding?_eq]

theorem Indexed.get?_commitInto {env scope : Environment} (indexed : env.Indexed)
    (scopeIndexed : scope.Indexed) (name : String) :
    (env.commitInto scope).get? name =
      if name ∈ env.names then env.get? name else scope.get? name := by
  unfold get?
  rw [indexed.binding?_commitInto scopeIndexed, indexed.binding?_eq]
  cases found : named? env.bindings name with
  | none =>
    have absent : name ∉ env.names := named?_eq_none_iff.mp found
    rw [if_neg absent, Option.none_or]
  | some binding =>
    have member : name ∈ env.names :=
      List.mem_map.mpr ⟨binding, List.mem_of_find?_eq_some found, name_of_named? found⟩
    rw [if_pos member, Option.some_or]

end PatternClauses.Environment
