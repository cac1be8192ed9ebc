import PatternClauses.Proofs.Environment.Refinement

/-!
# Going back to a checkpoint

Between taking a checkpoint and going back to it, an environment may bind names, have others merged
into it, take later checkpoints and go back to those.  Going back restores the names, their order
and the index.  The bindings are restored as far as no merge has put another one in their place: a
checkpoint only counts bindings, so where one has, the last one that was merged stays.
-/

namespace PatternClauses

/-! ## Changes to an environment -/

/-- What is done to an environment after a checkpoint was taken on it. -/
inductive Change where
  | bind (binding : Binding)
  | commit (other : Environment)
  | checkpoint
  /-- Go back to one of the later checkpoints, by its number among them. -/
  | rollback (mark : Nat)

structure Session where
  env : Environment
  later : List Checkpoint

namespace Session

/-- A name that is bound already and a checkpoint that was not taken leave everything as it is. -/
def step (session : Session) : Change → Session
  | .bind binding =>
    match session.env.bind binding with
    | .ok env => { session with env }
    | .error _ => session
  | .commit other => { session with env := other.commitInto session.env }
  | .checkpoint => { session with later := session.later ++ [session.env.checkpoint] }
  | .rollback mark =>
    match session.later[mark]? with
    | some checkpoint => { session with env := session.env.rollback checkpoint }
    | none => session

def run (env : Environment) (changes : List Change) : Session :=
  changes.foldl step ⟨env, []⟩

end Session

def Change.committed : Change → List Binding
  | .commit other => other.bindings
  | .bind _ | .checkpoint | .rollback _ => []

/-- The last of the added bindings that has the name of an old one, or else the old one. -/
def overlaid (added : List Binding) (old : Binding) : Binding :=
  Environment.inherited added.reverse old

@[simp] theorem name_overlaid (added : List Binding) (old : Binding) :
    (overlaid added old).name = old.name :=
  Environment.name_inherited added.reverse old

theorem map_name_overlaid (added bindings : List Binding) :
    (bindings.map (overlaid added)).map (·.name) = bindings.map (·.name) := by
  rw [List.map_map]
  exact List.map_congr_left fun old _ => name_overlaid added old

theorem overlaid_concat (added : List Binding) (binding old : Binding) :
    overlaid (added ++ [binding]) old = Environment.replacing binding (overlaid added old) := by
  rw [Environment.replacing, name_overlaid, overlaid, List.reverse_concat, Environment.inherited,
    Environment.named?_cons]
  by_cases same : binding.name = old.name
  · rw [if_pos same, if_pos same.symm]
    rfl
  · rw [if_neg same, if_neg (Ne.symm same)]
    rfl

theorem overlaid_eq_self_iff {added : List Binding} {old : Binding} :
    overlaid added old = old ↔
      ∀ binding, Environment.named? added.reverse old.name = some binding → binding = old := by
  unfold overlaid Environment.inherited
  cases Environment.named? added.reverse old.name <;> simp

theorem map_overlaid_eq_self_iff {added bindings : List Binding} :
    bindings.map (overlaid added) = bindings ↔ ∀ old ∈ bindings, ∀ binding,
      Environment.named? added.reverse old.name = some binding → binding = old := by
  have each := List.map_inj_left (l := bindings) (f := overlaid added) (g := id)
  rw [List.map_id] at each
  exact each.trans (forall₂_congr fun old _ => overlaid_eq_self_iff)

namespace Environment

theorem Indexed.eq_push_of_bind {env after : Environment} (indexed : env.Indexed)
    {binding : Binding} (bound : env.bind binding = .ok after) :
    binding.name ∉ env.names ∧ after = env.push binding := by
  rw [Environment.bind] at bound
  split at bound
  · cases bound
  · rename_i free
    cases bound
    exact ⟨mt (indexed.contains_iff binding.name).mpr free, rfl⟩

/-! ## The bindings in front -/

theorem Indexed.take_shadow {env : Environment} (indexed : env.Indexed) (binding : Binding)
    {count : Nat} (inside : count ≤ env.size) :
    (env.shadow binding).bindings.take count =
      (env.bindings.take count).map (replacing binding) := by
  by_cases bound : binding.name ∈ env.names
  · rw [(indexed.shadow_of_bound bound).1, List.map_take]
  · have others : ∀ old ∈ env.bindings.take count, replacing binding old = id old := by
      intro old member
      have different : old.name ≠ binding.name := fun same =>
        bound (same ▸ List.mem_map_of_mem (List.mem_of_mem_take member))
      exact if_neg different
    rw [shadow_of_free indexed bound, Environment.push, List.take_append_of_le_length inside,
      List.map_congr_left others, List.map_id]

/-- An environment has the bindings of an earlier one in front, overlaid with what was merged in
the meantime. -/
structure Overlays (start : Environment) (added : List Binding) (env : Environment) : Prop where
  indexed : env.Indexed
  front : env.bindings.take start.size = start.bindings.map (overlaid added)

section

variable {start env : Environment} {added : List Binding}

theorem Indexed.overlays_self (indexed : start.Indexed) : Overlays start [] start where
  indexed := indexed
  front := by
    rw [size, List.take_length]
    exact (List.map_id _).symm

theorem Overlays.inside (overlays : Overlays start added env) : start.size ≤ env.size := by
  have lengths := congrArg List.length overlays.front
  rw [List.length_take, List.length_map] at lengths
  unfold size at lengths ⊢
  omega

theorem Overlays.push (overlays : Overlays start added env) {binding : Binding}
    (fresh : binding.name ∉ env.names) : Overlays start added (env.push binding) where
  indexed := overlays.indexed.push fresh
  front := by
    rw [Environment.push, List.take_append_of_le_length overlays.inside, overlays.front]

theorem Overlays.shadow (overlays : Overlays start added env) (binding : Binding) :
    Overlays start (added ++ [binding]) (env.shadow binding) where
  indexed := overlays.indexed.shadow binding
  front := by
    rw [overlays.indexed.take_shadow binding overlays.inside, overlays.front, List.map_map]
    exact List.map_congr_left fun old _ => (overlaid_concat added binding old).symm

theorem Overlays.shadowEach (overlays : Overlays start added env) (merged : List Binding) :
    Overlays start (added ++ merged) (merged.foldl Environment.shadow env) := by
  induction merged generalizing env added with
  | nil => rwa [List.append_nil]
  | cons binding rest induction =>
    have later := induction (overlays.shadow binding)
    rwa [List.append_assoc] at later

theorem Overlays.rollback (overlays : Overlays start added env) {checkpoint : Checkpoint}
    (later : start.size ≤ checkpoint.size) : Overlays start added (env.rollback checkpoint) where
  indexed := overlays.indexed.rollback checkpoint
  front := by
    rw [Environment.rollback, List.take_take, Nat.min_eq_left later, overlays.front]

theorem Overlays.back (overlays : Overlays start added env) (indexed : start.Indexed) :
    env.rollback start.checkpoint =
      { start with bindings := start.bindings.map (overlaid added) } := by
  have bindings : (env.rollback start.checkpoint).bindings = start.bindings.map (overlaid added) :=
    overlays.front
  have names : (env.rollback start.checkpoint).names = start.names := by
    rw [names, bindings, map_name_overlaid]
    rfl
  have places := (overlays.indexed.rollback start.checkpoint).places_congr indexed names
  calc env.rollback start.checkpoint
      = ⟨(env.rollback start.checkpoint).bindings, (env.rollback start.checkpoint).places⟩ := rfl
    _ = { start with bindings := start.bindings.map (overlaid added) } := by
        rw [bindings, places]

end

end Environment

/-! ## Sequences of changes -/

namespace Session

/-- The environment of a session has the bindings of the one that it started from in front, and no
later checkpoint goes back behind them. -/
structure Since (start : Environment) (added : List Binding) (session : Session) : Prop where
  overlays : Environment.Overlays start added session.env
  later : ∀ checkpoint ∈ session.later, start.size ≤ checkpoint.size

variable {start : Environment} {added : List Binding} {session : Session}

theorem Since.step (since : Since start added session) (change : Change) :
    Since start (added ++ change.committed) (session.step change) := by
  cases change with
  | bind binding =>
    rw [Change.committed, List.append_nil, Session.step]
    split
    · rename_i env bound
      rcases since.overlays.indexed.eq_push_of_bind bound with ⟨fresh, rfl⟩
      exact ⟨since.overlays.push fresh, since.later⟩
    · exact since
  | commit other => exact ⟨since.overlays.shadowEach other.bindings, since.later⟩
  | checkpoint =>
    rw [Change.committed, List.append_nil]
    refine ⟨since.overlays, fun checkpoint member => ?_⟩
    rcases List.mem_append.mp member with earlier | last
    · exact since.later checkpoint earlier
    -- The new checkpoint counts the bindings in front too.
    · rw [List.mem_singleton.mp last]
      exact since.overlays.inside
  | rollback mark =>
    rw [Change.committed, List.append_nil, Session.step]
    split
    · rename_i checkpoint found
      have later := since.later checkpoint (List.mem_of_getElem? found)
      exact ⟨since.overlays.rollback later, since.later⟩
    · exact since

theorem Since.steps (since : Since start added session) (changes : List Change) :
    Since start (added ++ changes.flatMap Change.committed)
      (changes.foldl Session.step session) := by
  induction changes generalizing added session with
  | nil => rwa [List.flatMap_nil, List.append_nil]
  | cons change rest induction =>
    rw [List.flatMap_cons, ← List.append_assoc]
    exact induction (since.step change)

theorem since_run (indexed : start.Indexed) (changes : List Change) :
    Since start (changes.flatMap Change.committed) (run start changes) := by
  have started : Since start [] ⟨start, []⟩ := ⟨indexed.overlays_self, nofun⟩
  exact started.steps changes

end Session

namespace Environment

/-- Let a program make an environment, and let changes follow a checkpoint that is taken on it.  To
go back then restores the names, their order and the index; of each name it leaves the binding that
was merged last, or the one from before if none was.  So everything is as it was if and only if no
bound name had another binding merged last. -/
theorem rollback_restores_iff (program : List Operation) (target : Nat) (changes : List Change) :
    let env := (keeping.run program).environments target
    let back := (Session.run env changes).env.rollback env.checkpoint
    let merged := changes.flatMap Change.committed
    back.names = env.names ∧ back.places = env.places ∧
    (∀ name, back.binding? name = (env.binding? name).map (overlaid merged)) ∧
    back.bindings = env.bindings.map (overlaid merged) ∧
    (back = env ↔ ∀ old ∈ env.bindings, ∀ binding,
      named? merged.reverse old.name = some binding → binding = old) := by
  intro env back merged
  have indexed : env.Indexed := ((agree_start.steps program).answers target).indexed
  have same : back = { env with bindings := env.bindings.map (overlaid merged) } :=
    (Session.since_run indexed changes).overlays.back indexed
  rw [same]
  refine ⟨map_name_overlaid merged env.bindings, rfl, fun name => ?_, rfl, ?_⟩
  · simp only [binding?, Option.map_bind, List.getElem?_map, Function.comp_def]
  · rw [← map_overlaid_eq_self_iff]
    constructor
    · exact congrArg bindings
    · intro kept
      rw [kept]

theorem rollback_keeps_shadowing_binding :
    ¬ ∀ (program : List Operation) (target : Nat) (changes : List Change),
      let env := (keeping.run program).environments target
      (Session.run env changes).env.rollback env.checkpoint = env := by
  intro restores
  let program : List Operation := [.bind 0 ⟨"x", .integer 1, true⟩]
  let changes : List Change := [.commit (empty.push ⟨"x", .integer 10, false⟩)]
  let env := (keeping.run program).environments 0
  have before : env.isMutable? "x" = some true := by decide +kernel
  have after : ((Session.run env changes).env.rollback env.checkpoint).isMutable? "x" =
      some false := by decide +kernel
  rw [restores program 0 changes, before] at after
  cases after

end Environment

end PatternClauses
