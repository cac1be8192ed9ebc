import PatternClauses.Proofs.Environment.Merge

/-!
# Environments as association lists

A program over any number of environments binds names, takes checkpoints and goes back to them,
merges environments and copies them.  Whatever it has done, each of its environments answers as the
list that the same program makes of plain lists of bindings, which are searched from the front.
-/

namespace PatternClauses

/-! ## Programs -/

/-- One step of a program over numbered environments and numbered checkpoints. -/
inductive Operation where
  | bind (target : Nat) (binding : Binding)
  | checkpoint (source mark : Nat)
  /-- Go back to a checkpoint, no matter on which environment it was taken. -/
  | rollback (target mark : Nat)
  /-- Merge an environment into another one, which uses it up. -/
  | commit (source scope : Nat)
  | copy (source target : Nat)

/-- A way to keep bindings. -/
structure Keeping (α : Type) where
  empty : α
  bind : α → Binding → Except DuplicateBinding α
  checkpoint : α → Checkpoint
  rollback : α → Checkpoint → α
  commitInto : α → α → α

structure Memory (α : Type) where
  environments : Nat → α
  checkpoints : Nat → Checkpoint

def Memory.set (memory : Memory α) (target : Nat) (env : α) : Memory α :=
  { memory with
    environments := fun number => if number = target then env else memory.environments number }

def Memory.mark (memory : Memory α) (mark : Nat) (checkpoint : Checkpoint) : Memory α :=
  { memory with
    checkpoints := fun number => if number = mark then checkpoint else memory.checkpoints number }

namespace Keeping

/-- A name that is bound already leaves everything as it is. -/
def step (keeping : Keeping α) (memory : Memory α) : Operation → Memory α
  | .bind target binding =>
    match keeping.bind (memory.environments target) binding with
    | .ok env => memory.set target env
    | .error _ => memory
  | .checkpoint source mark => memory.mark mark (keeping.checkpoint (memory.environments source))
  | .rollback target mark =>
    memory.set target (keeping.rollback (memory.environments target) (memory.checkpoints mark))
  | .commit source scope =>
    let rest := memory.set source keeping.empty
    rest.set scope (keeping.commitInto (memory.environments source) (rest.environments scope))
  | .copy source target => memory.set target (memory.environments source)

def start (keeping : Keeping α) : Memory α where
  environments _ := keeping.empty
  checkpoints _ := keeping.checkpoint keeping.empty

def run (keeping : Keeping α) (program : List Operation) : Memory α :=
  program.foldl keeping.step keeping.start

section

variable {keeping : Keeping α} {memory : Memory α} {target : Nat} {binding : Binding}

theorem step_bind_of_ok {env : α}
    (bound : keeping.bind (memory.environments target) binding = .ok env) :
    keeping.step memory (.bind target binding) = memory.set target env := by
  rw [step, bound]

theorem step_bind_of_error {duplicate : DuplicateBinding}
    (refused : keeping.bind (memory.environments target) binding = .error duplicate) :
    keeping.step memory (.bind target binding) = memory := by
  rw [step, refused]

end

end Keeping

namespace Environment

def keeping : Keeping Environment where
  empty := empty
  bind := bind
  checkpoint := checkpoint
  rollback := rollback
  commitInto := commitInto

end Environment

/-! ## Association lists -/

namespace AssociationList

def bind (bindings : List Binding) (binding : Binding) : Except DuplicateBinding (List Binding) :=
  if binding.name ∈ bindings.map (·.name) then .error ⟨binding.name, none⟩
  else .ok (bindings ++ [binding])

def rollback (bindings : List Binding) (checkpoint : Checkpoint) : List Binding :=
  bindings.take (min checkpoint.size bindings.length)

/-- One after another, each binding takes the place of the one of its name or goes to the end. -/
def commitInto (bindings scope : List Binding) : List Binding :=
  bindings.foldl (put Binding.name) scope

def keeping : Keeping (List Binding) where
  empty := []
  bind := bind
  checkpoint bindings := ⟨bindings.length⟩
  rollback := rollback
  commitInto := commitInto

end AssociationList

namespace Environment

/-- The environment holds the bindings of a list with distinct names, its index holds exactly their
places, and its answers are those of a search through the list. -/
structure AnswersAs (env : Environment) (bindings : List Binding) : Prop where
  bindings_eq : env.bindings = bindings
  distinct : (bindings.map (·.name)).Nodup
  places_eq : ∀ (name : String) (place : Nat),
    env.places[name]? = some place ↔ (bindings[place]?).map (·.name) = some name
  binding?_eq : ∀ name, env.binding? name = named? bindings name
  get?_eq : ∀ name, env.get? name = (named? bindings name).map (·.value)
  isMutable?_eq : ∀ name, env.isMutable? name = (named? bindings name).map (·.mutable)
  contains_eq : ∀ name, env.contains name = (named? bindings name).isSome

theorem AnswersAs.indexed {env : Environment} {bindings : List Binding}
    (answers : env.AnswersAs bindings) : env.Indexed := by
  rcases answers.bindings_eq with rfl
  exact ⟨answers.distinct, answers.places_eq⟩

theorem Indexed.answersAs {env : Environment} (indexed : env.Indexed) {bindings : List Binding}
    (same : env.bindings = bindings) : env.AnswersAs bindings := by
  subst same
  refine ⟨rfl, indexed.distinct, indexed.places_eq, indexed.binding?_eq, ?_, ?_, ?_⟩
  · intro name
    rw [get?, indexed.binding?_eq]
  · intro name
    rw [isMutable?, indexed.binding?_eq]
  · intro name
    rw [Bool.eq_iff_iff, indexed.contains_iff, Option.isSome_iff_ne_none, ne_eq,
      named?_eq_none_iff]
    exact Decidable.not_not.symm

/-! ## Operations -/

section

variable {env scope : Environment} {bindings scopeBindings : List Binding}

theorem answersAs_empty : empty.AnswersAs [] := indexed_empty.answersAs rfl

theorem AnswersAs.contains_iff (answers : env.AnswersAs bindings) (name : String) :
    env.contains name = true ↔ name ∈ bindings.map (·.name) := by
  rw [answers.indexed.contains_iff, Environment.names, answers.bindings_eq]

theorem AnswersAs.push (answers : env.AnswersAs bindings) {binding : Binding}
    (fresh : binding.name ∉ bindings.map (·.name)) :
    (env.push binding).AnswersAs (bindings ++ [binding]) := by
  rcases answers.bindings_eq with rfl
  exact (answers.indexed.push fresh).answersAs rfl

theorem AnswersAs.bind (answers : env.AnswersAs bindings) (binding : Binding) :
    (binding.name ∈ bindings.map (·.name) ∧ env.bind binding = .error ⟨binding.name, none⟩) ∨
      (binding.name ∉ bindings.map (·.name) ∧
        ∃ after, env.bind binding = .ok after ∧ after.AnswersAs (bindings ++ [binding])) := by
  unfold Environment.bind
  by_cases bound : binding.name ∈ bindings.map (·.name)
  · exact .inl ⟨bound, if_pos ((answers.contains_iff _).mpr bound)⟩
  · have free := mt (answers.contains_iff binding.name).mp bound
    exact .inr ⟨bound, _, if_neg free, answers.push bound⟩

theorem Indexed.rollback (indexed : env.Indexed) (checkpoint : Checkpoint) :
    (env.rollback checkpoint).Indexed :=
  indexed_of_indexes (indexed.indexes.take checkpoint.size
    fun name => places_eraseEach (env.bindings.drop checkpoint.size) env.places name)

theorem AnswersAs.rollback (answers : env.AnswersAs bindings) (checkpoint : Checkpoint) :
    (env.rollback checkpoint).AnswersAs (AssociationList.rollback bindings checkpoint) := by
  apply (answers.indexed.rollback checkpoint).answersAs
  rw [AssociationList.rollback, ← List.take_eq_take_min, ← answers.bindings_eq]
  rfl

theorem AnswersAs.shadow (answers : env.AnswersAs bindings) (binding : Binding) :
    (env.shadow binding).AnswersAs (put Binding.name bindings binding) := by
  rcases answers.bindings_eq with rfl
  apply (answers.indexed.shadow binding).answersAs
  unfold Environment.shadow
  split
  · rename_i place found
    exact (answers.indexed.indexes.put_eq_set found).symm
  · rename_i free
    exact (answers.indexed.indexes.put_eq_append free).symm

theorem AnswersAs.shadowEach (answers : scope.AnswersAs scopeBindings) (added : List Binding) :
    (added.foldl Environment.shadow scope).AnswersAs
      (added.foldl (put Binding.name) scopeBindings) := by
  induction added generalizing scope scopeBindings with
  | nil => exact answers
  | cons binding rest induction => exact induction (answers.shadow binding)

theorem AnswersAs.commitInto (answers : env.AnswersAs bindings)
    (scopeAnswers : scope.AnswersAs scopeBindings) :
    (env.commitInto scope).AnswersAs (AssociationList.commitInto bindings scopeBindings) := by
  rw [Environment.commitInto, answers.bindings_eq]
  exact scopeAnswers.shadowEach bindings

end

/-! ## Runs -/

/-- A program has the same checkpoints with environments as with lists, and each environment
answers as the list of its number. -/
structure Agree (memory : Memory Environment) (plain : Memory (List Binding)) : Prop where
  answers : ∀ number, (memory.environments number).AnswersAs (plain.environments number)
  checkpoints : memory.checkpoints = plain.checkpoints

variable {memory : Memory Environment} {plain : Memory (List Binding)}

theorem Agree.set (agree : Agree memory plain) (target : Nat) {env : Environment}
    {bindings : List Binding} (answers : env.AnswersAs bindings) :
    Agree (memory.set target env) (plain.set target bindings) where
  answers number := by
    unfold Memory.set
    by_cases here : number = target
    · simpa only [if_pos here] using answers
    · simpa only [if_neg here] using agree.answers number
  checkpoints := agree.checkpoints

theorem Agree.mark (agree : Agree memory plain) (mark : Nat) (checkpoint : Checkpoint) :
    Agree (memory.mark mark checkpoint) (plain.mark mark checkpoint) where
  answers := agree.answers
  checkpoints := by
    unfold Memory.mark
    rw [agree.checkpoints]

theorem Agree.step (agree : Agree memory plain) (operation : Operation) :
    Agree (keeping.step memory operation) (AssociationList.keeping.step plain operation) := by
  cases operation with
  | bind target binding =>
    rcases (agree.answers target).bind binding with ⟨bound, refused⟩ | ⟨free, env, added, answers⟩
    · rw [Keeping.step_bind_of_error refused, Keeping.step_bind_of_error (if_pos bound)]
      exact agree
    · rw [Keeping.step_bind_of_ok added, Keeping.step_bind_of_ok (if_neg free)]
      exact agree.set target answers
  | checkpoint source mark =>
    have size : keeping.checkpoint (memory.environments source) =
        AssociationList.keeping.checkpoint (plain.environments source) :=
      congrArg (fun bindings => Checkpoint.mk bindings.length) (agree.answers source).bindings_eq
    rw [Keeping.step, Keeping.step, size]
    exact agree.mark mark _
  | rollback target mark =>
    rw [Keeping.step, Keeping.step, agree.checkpoints]
    exact agree.set target ((agree.answers target).rollback (plain.checkpoints mark))
  | commit source scope =>
    -- The source is emptied before the scope is looked up, so the two may be the same.
    have rest := agree.set source answersAs_empty
    exact rest.set scope ((agree.answers source).commitInto (rest.answers scope))
  | copy source target => exact agree.set target (agree.answers source)

theorem agree_start : Agree keeping.start AssociationList.keeping.start :=
  ⟨fun _ => answersAs_empty, rfl⟩

theorem Agree.steps (agree : Agree memory plain) (program : List Operation) :
    Agree (program.foldl keeping.step memory)
      (program.foldl AssociationList.keeping.step plain) := by
  induction program generalizing memory plain with
  | nil => exact agree
  | cons operation rest induction => exact induction (agree.step operation)

/-- Whatever a program has done with its environments, each of them answers as the list of bindings
that the same program makes of plain lists.  A name that the list has cannot be bound again, and
the attempt changes nothing; going back keeps the bindings that the checkpoint counts; and merging
puts one binding after another in the place of its name or at the end. -/
theorem refines_association_list (program : List Operation) :
    let memory := keeping.run program
    let plain := AssociationList.keeping.run program
    memory.checkpoints = plain.checkpoints ∧
    ∀ target,
      let env := memory.environments target
      let bindings := plain.environments target
      env.AnswersAs bindings ∧
      (∀ binding, binding.name ∈ bindings.map (·.name) →
        env.bind binding = .error ⟨binding.name, none⟩ ∧
          keeping.step memory (.bind target binding) = memory) ∧
      (∀ binding, binding.name ∉ bindings.map (·.name) →
        ∃ after, env.bind binding = .ok after ∧ after.AnswersAs (bindings ++ [binding])) ∧
      (∀ checkpoint, (env.rollback checkpoint).AnswersAs
        (bindings.take (min checkpoint.size bindings.length))) ∧
      ∀ scope, (env.commitInto (memory.environments scope)).AnswersAs
        (bindings.foldl (put Binding.name) (plain.environments scope)) := by
  intro memory plain
  have agree : Agree memory plain := agree_start.steps program
  refine ⟨agree.checkpoints, fun target => ?_⟩
  have answers := agree.answers target
  refine ⟨answers, ?_, ?_, answers.rollback, fun scope => answers.commitInto (agree.answers scope)⟩
  · intro binding bound
    rcases answers.bind binding with ⟨-, refused⟩ | ⟨free, -⟩
    · exact ⟨refused, Keeping.step_bind_of_error refused⟩
    · exact absurd bound free
  · intro binding free
    rcases answers.bind binding with ⟨bound, -⟩ | ⟨-, added⟩
    · exact absurd bound free
    · exact added

/-- A checkpoint of one environment cuts another one short, and a merge puts the rest behind. -/
example :
    let program : List Operation :=
      [.bind 0 ⟨"x", .integer 1, false⟩, .checkpoint 0 0, .bind 1 ⟨"y", .integer 2, true⟩,
        .bind 1 ⟨"z", .integer 3, true⟩, .rollback 1 0, .copy 0 2, .commit 2 1]
    ((keeping.run program).environments 1).names = ["y", "x"] := by
  decide +kernel

end Environment

end PatternClauses
