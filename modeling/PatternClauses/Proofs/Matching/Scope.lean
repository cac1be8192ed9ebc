import PatternClauses.Proofs.Environment.Merge
import PatternClauses.Proofs.Matching.Atomicity

/-!
# The scope around a match

A pattern is matched as if there were no scope around it.  When it has matched, its bindings are
merged into the scope: a name that the scope has keeps its place there and gets the new binding, the
other names follow in the order in which the pattern bound them.
-/

namespace PatternClauses.Collaborators

variable {host : Collaborators} {pattern : Pattern} {value : Value} {scope : Environment}

theorem indexed_of_matched (distinct : pattern.checkBindings = .ok ()) {env : Environment}
    (matched : (host.matchInto false pattern (.value value) .empty).answer = .ok (true, env)) :
    env.Indexed ∧ env.names = pattern.bindings := by
  have unique := (Pattern.checkBindings_eq_ok_iff pattern).mp distinct
  have lacks : Environment.empty.Lacks pattern.bindings := fun name _ => rfl
  have atomic := atomic_matchInto host pattern false (.value value) .empty unique lacks
  rcases atomic.matched env matched with ⟨added, names, rfl⟩
  constructor
  · exact Environment.indexed_empty.extend (names ▸ unique) fun name _ => List.not_mem_nil
  · rw [← names, Environment.names, Environment.bindings_extend]
    rfl

theorem matchPattern_empty_eq_some_iff (distinct : pattern.checkBindings = .ok ())
    {bound : Environment} :
    (host.matchPattern pattern value .empty).answer = .ok (some bound) ↔
      (host.matchInto false pattern (.value value) .empty).answer = .ok (true, bound) := by
  rw [matchPattern_eq_some_iff]
  constructor
  · rintro ⟨env, matched, rfl⟩
    rwa [(indexed_of_matched distinct matched).1.commitInto_empty]
  · intro matched
    exact ⟨bound, matched, (indexed_of_matched distinct matched).1.commitInto_empty⟩

/-- In a scope, a match makes the environment that it makes without one and merges it in. -/
theorem matchPattern_eq_merged_iff (distinct : pattern.checkBindings = .ok ())
    (indexed : scope.Indexed) {out : Environment} :
    (host.matchPattern pattern value scope).answer = .ok (some out) ↔
      ∃ bound, (host.matchPattern pattern value .empty).answer = .ok (some bound) ∧
        out.Indexed ∧ out.bindings = Environment.merged scope.bindings bound.bindings := by
  rw [matchPattern_eq_some_iff]
  constructor
  · rintro ⟨env, matched, rfl⟩
    rcases indexed_of_matched distinct matched with ⟨envIndexed, -⟩
    exact ⟨env, (matchPattern_empty_eq_some_iff distinct).mpr matched,
      envIndexed.commitInto indexed⟩
  · rintro ⟨bound, apart, outIndexed, bindings⟩
    have matched := (matchPattern_empty_eq_some_iff distinct).mp apart
    rcases indexed_of_matched distinct matched with ⟨boundIndexed, -⟩
    rcases boundIndexed.commitInto indexed with ⟨merged, same⟩
    exact ⟨bound, matched, merged.ext outIndexed (same.trans bindings.symm)⟩

theorem get?_of_bound (distinct : pattern.checkBindings = .ok ()) (indexed : scope.Indexed)
    {out bound : Environment}
    (within : (host.matchPattern pattern value scope).answer = .ok (some out))
    (apart : (host.matchPattern pattern value .empty).answer = .ok (some bound)) (name : String) :
    out.get? name = if name ∈ pattern.bindings then bound.get? name else scope.get? name := by
  rcases matchPattern_eq_some_iff.mp within with ⟨env, matched, rfl⟩
  have same := (matchPattern_empty_eq_some_iff distinct).mp apart
  rw [matched] at same
  cases same
  rcases indexed_of_matched distinct matched with ⟨envIndexed, names⟩
  rw [← names]
  exact envIndexed.get?_commitInto indexed name

/-- No scope has a part in whether a pattern matches, in a fault or in the queries.  The scope after
a match is the one before with the bindings that the pattern makes without a scope merged in: each
takes the place of the one of its name, and the others stand behind in order.  So the names of the
pattern have the values that it bound, and all others those of the scope. -/
theorem matches_apart_from_scope (host : Collaborators) (pattern : Pattern)
    (distinct : pattern.checkBindings = .ok ()) (value : Value) (scope : Environment)
    (indexed : scope.Indexed) :
    let within := host.matchPattern pattern value scope
    let apart := host.matchPattern pattern value .empty
    within.queries = apart.queries ∧
    (within.answer = .ok none ↔ apart.answer = .ok none) ∧
    (∀ fault, within.answer = .error fault ↔ apart.answer = .error fault) ∧
    (∀ out, within.answer = .ok (some out) ↔
      ∃ bound, apart.answer = .ok (some bound) ∧ out.Indexed ∧
        out.bindings = Environment.merged scope.bindings bound.bindings) ∧
    ∀ out bound, within.answer = .ok (some out) → apart.answer = .ok (some bound) →
      ∀ name, out.get? name =
        if name ∈ pattern.bindings then bound.get? name else scope.get? name :=
  ⟨by rw [matchPattern_eq, matchPattern_eq],
    matchPattern_eq_none_iff.trans matchPattern_eq_none_iff.symm,
    fun _ => matchPattern_eq_error_iff.trans matchPattern_eq_error_iff.symm,
    fun _ => matchPattern_eq_merged_iff distinct indexed,
    fun _ _ => get?_of_bound distinct indexed⟩

/-- The scope binds `x` before `y`; the pattern `(let z, x)` binds `z` before `x`.  Afterwards `x`
has its new value in its old place, and `z` stands last. -/
theorem bound_in_place_of_scope :
    let host : Collaborators := ⟨NominalTypes.initial.oracle, evaluateLiteral, .empty⟩
    let pattern : Pattern := .tuple [.binding (.identifier "z") false, .identifier "x"]
    let value : Value := .tuple [.integer 5, .integer 7]
    let scope := (Environment.empty.push ⟨"x", .integer 1, true⟩).push ⟨"y", .integer 2, false⟩
    let bound := (Environment.empty.push ⟨"z", .integer 5, false⟩).push ⟨"x", .integer 7, false⟩
    pattern.checkBindings = .ok () ∧ scope.Indexed ∧
      (host.matchPattern pattern value .empty).answer = .ok (some bound) ∧
      ∃ out, (host.matchPattern pattern value scope).answer = .ok (some out) ∧
        out.bindings =
          [⟨"x", .integer 7, false⟩, ⟨"y", .integer 2, false⟩, ⟨"z", .integer 5, false⟩] ∧
        out.get? "x" = bound.get? "x" ∧ out.get? "y" = scope.get? "y" := by
  intro host pattern value scope bound
  have distinct : pattern.checkBindings = .ok () := by rfl
  have indexed : scope.Indexed :=
    (Environment.indexed_empty.push List.not_mem_nil).push (by decide)
  have apart : (host.matchPattern pattern value .empty).answer = .ok (some bound) := by rfl
  have general := matches_apart_from_scope host pattern distinct value scope indexed
  have within : (host.matchPattern pattern value scope).answer =
      .ok (some (bound.commitInto scope)) := by rfl
  rcases (general.2.2.2.1 _).mp within with ⟨other, alone, -, bindings⟩
  have same : other = bound := by
    rw [apart] at alone
    cases alone
    rfl
  refine ⟨distinct, indexed, apart, _, within, ?_, ?_, ?_⟩
  · rw [bindings, same]
    rfl
  · exact general.2.2.2.2 _ _ within apart "x"
  · exact general.2.2.2.2 _ _ within apart "y"

end PatternClauses.Collaborators
