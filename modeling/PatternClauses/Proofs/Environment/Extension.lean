import PatternClauses.Environment

/-!
# Extending an environment and going back

An environment that is extended by bindings of names it does not have, and then rolled back to
where it was, is the environment from before: the list and the index are both restored.
-/

namespace PatternClauses.Environment

@[simp] theorem names_push (env : Environment) (binding : Binding) :
    (env.push binding).names = env.names ++ [binding.name] := by
  simp [names, push]

def extend (env : Environment) (added : List Binding) : Environment := added.foldl push env

@[simp] theorem extend_nil (env : Environment) : env.extend [] = env := rfl

@[simp] theorem extend_cons (env : Environment) (binding : Binding) (rest : List Binding) :
    env.extend (binding :: rest) = (env.push binding).extend rest := rfl

theorem extend_append (env : Environment) (first second : List Binding) :
    env.extend (first ++ second) = (env.extend first).extend second :=
  List.foldl_append

@[simp] theorem bindings_extend (env : Environment) (added : List Binding) :
    (env.extend added).bindings = env.bindings ++ added := by
  induction added generalizing env with
  | nil => simp
  | cons binding rest induction => simp [induction, push]

/-! ## The index of an extension -/

theorem places_push (env : Environment) (binding : Binding) (name : String) :
    (env.push binding).places[name]? =
      if binding.name = name then some env.size else env.places[name]? := by
  rw [push, Std.ExtTreeMap.getElem?_insert]
  simp only [Std.LawfulEqOrd.compare_eq_iff_eq]

theorem places_extend_of_not_mem {env : Environment} {added : List Binding} {name : String}
    (absent : name ∉ added.map (·.name)) :
    (env.extend added).places[name]? = env.places[name]? := by
  induction added generalizing env with
  | nil => rfl
  | cons binding rest induction =>
    rw [List.map_cons, List.mem_cons, not_or] at absent
    rw [extend_cons, induction absent.2, places_push, if_neg (Ne.symm absent.1)]

theorem contains_eq_false_iff (env : Environment) (name : String) :
    env.contains name = false ↔ env.places[name]? = none := by
  rw [contains, Std.ExtTreeMap.contains_eq_isSome_getElem?, Option.isSome_eq_false_iff,
    Option.isNone_iff_eq_none]

theorem contains_extend_of_not_mem {env : Environment} {added : List Binding} {name : String}
    (absent : name ∉ added.map (·.name)) (free : env.contains name = false) :
    (env.extend added).contains name = false := by
  rw [contains_eq_false_iff] at free ⊢
  rw [places_extend_of_not_mem absent, free]

theorem Indexed.extend {env : Environment} (indexed : env.Indexed) {added : List Binding}
    (distinct : (added.map (·.name)).Nodup)
    (fresh : ∀ name ∈ added.map (·.name), name ∉ env.names) : (env.extend added).Indexed := by
  induction added generalizing env with
  | nil => exact indexed
  | cons binding rest induction =>
    rw [List.map_cons, List.nodup_cons] at distinct
    apply induction (indexed.push (fresh _ (.head _))) distinct.2
    intro name member
    have different : name ≠ binding.name := fun equal => distinct.1 (equal ▸ member)
    rw [names_push, List.mem_append, List.mem_singleton, not_or]
    exact ⟨fresh name (.tail _ member), different⟩

def Lacks (env : Environment) (names : List String) : Prop :=
  ∀ name ∈ names, env.contains name = false

theorem Lacks.extend {env : Environment} {names : List String} (lacks : env.Lacks names)
    {added : List Binding} (disjoint : ∀ name ∈ added.map (·.name), name ∉ names) :
    (env.extend added).Lacks names := fun name member =>
  contains_extend_of_not_mem (fun bound => disjoint name bound member) (lacks name member)

/-! ## Going back -/

theorem places_eraseEach (dropped : List Binding) (places : Std.ExtTreeMap String Nat)
    (name : String) :
    (dropped.foldl (fun places binding => places.erase binding.name) places)[name]? =
      if name ∈ dropped.map (·.name) then none else places[name]? := by
  induction dropped generalizing places with
  | nil => simp
  | cons binding rest induction =>
    rw [List.foldl_cons, induction, Std.ExtTreeMap.getElem?_erase]
    simp only [Std.LawfulEqOrd.compare_eq_iff_eq, List.map_cons, List.mem_cons]
    by_cases later : name ∈ rest.map (·.name)
    · simp [later]
    · simp [later, eq_comm]

theorem rollback_extend {env : Environment} {added : List Binding}
    (lacks : env.Lacks (added.map (·.name))) :
    (env.extend added).rollback env.checkpoint = env := by
  have dropped : (env.extend added).bindings.drop env.checkpoint.size = added := by
    simp [checkpoint, size]
  have kept : (env.extend added).bindings.take env.checkpoint.size = env.bindings := by
    simp [checkpoint, size]
  have places : ((env.extend added).rollback env.checkpoint).places = env.places := by
    apply Std.ExtTreeMap.ext_getElem?
    intro name
    rw [rollback, dropped, places_eraseEach]
    split
    · rename_i member
      exact ((contains_eq_false_iff env name).mp (lacks name member)).symm
    · rename_i absent
      exact places_extend_of_not_mem absent
  calc (env.extend added).rollback env.checkpoint
      = ⟨(env.extend added).bindings.take env.checkpoint.size,
          ((env.extend added).rollback env.checkpoint).places⟩ := rfl
    _ = env := by rw [kept, places]

end PatternClauses.Environment
