import PatternClauses.Proofs.Matching.Payload

/-!
# Patterns that are matched alike

A change of patterns that makes no difference to a match of the parts makes none to a match of the
whole: to a tuple, a payload, a cast or an annotation.  The flag for names may change with it.
-/

namespace PatternClauses.Collaborators

variable {host : Collaborators} {mutable other : Bool}

/-! ## Tuples -/

theorem inTuple_congr {count : Nat} {value : Value} {env : Environment}
    {items others : List Value → Progress}
    (same : ∀ values, host.oracle.components? value = some values → items values = others values) :
    host.inTuple count value env items = host.inTuple count value env others := by
  unfold inTuple
  cases components : host.oracle.components? value with
  | none => rfl
  | some values => simp only [same values components]

theorem matchEach_map_congr {change : Pattern → Pattern} {items : List Pattern}
    {values : List Value}
    (same : ∀ pair ∈ items.zip values, ∀ env, host.matchInto mutable pair.1 (.value pair.2) env =
      host.matchInto other (change pair.1) (.value pair.2) env) (env : Environment) :
    host.matchEach mutable items values env =
      host.matchEach other (items.map change) values env := by
  induction items generalizing values env with
  | nil => rfl
  | cons item rest induction =>
    cases values with
    | nil => rfl
    | cons value values =>
      rw [List.zip_cons_cons, List.forall_mem_cons] at same
      rw [List.map_cons, matchEach, matchEach, same.1]
      refine bind_congr fun (matched, after) => ?_
      cases matched with
      | false => rfl
      | true => exact induction same.2 after

theorem matchInto_tuple_congr {change : Pattern → Pattern} {items : List Pattern} {value : Value}
    (several : items.length ≠ 1)
    (same : ∀ values, host.oracle.components? value = some values →
      ∀ pair ∈ items.zip values, ∀ env, host.matchInto mutable pair.1 (.value pair.2) env =
        host.matchInto other (change pair.1) (.value pair.2) env) (env : Environment) :
    host.matchInto mutable (.tuple items) (.value value) env =
      host.matchInto other (.tuple (items.map change)) (.value value) env := by
  have apart : ∀ item, items ≠ [item] := fun item equal => several (equal ▸ rfl)
  have changedApart : ∀ item, items.map change ≠ [item] := fun item equal =>
    several ((List.length_map change).symm.trans (congrArg List.length equal))
  rw [matchInto, matchInto, List.length_map]
  · exact inTuple_congr fun values components => matchEach_map_congr (same values components) env
  · exact changedApart
  · exact apart

/-! ## Payloads, casts and annotations -/

theorem matchInto_annotated_congr {inner changed : Pattern} {value : Value} {env : Environment}
    (same : host.matchInto mutable inner (.value value) env =
      host.matchInto other changed (.value value) env) (type : TypeExpr) :
    host.matchInto mutable (.annotated inner type) (.value value) env =
      host.matchInto other (.annotated changed type) (.value value) env := by
  rw [matchInto, matchInto]
  refine bind_congr fun passed => ?_
  cases passed with
  | false => rfl
  | true => exact same

section

variable {types : NominalTypes} {evaluate : Evaluator} {resolvers : ResolverRegistry}

theorem matchInto_cast_congr {inner changed : Pattern} {value : Value} {env : Environment}
    (same : (overNominal types evaluate resolvers).matchInto mutable inner (.value value) env =
      (overNominal types evaluate resolvers).matchInto other changed (.value value) env)
    (type : TypeExpr) :
    (overNominal types evaluate resolvers).matchInto mutable (.cast inner type) (.value value) env =
      (overNominal types evaluate resolvers).matchInto other (.cast changed type) (.value value)
        env := by
  rw [matchInto, matchInto]
  refine bind_congr fun passed => ?_
  cases passed with
  | false => rfl
  -- The view of the value as the target is the value itself.
  | true => exact bind_congr fun target => same

theorem matchInto_ofPayload_congr {payload changed : Pattern} {values : List Value}
    {env : Environment} (fits : payload.isGroup → values.length = 1)
    (alone : changed.isGroup = false)
    (same : (overNominal types evaluate resolvers).matchInto mutable payload
        (.value (.ofItems values)) env =
      (overNominal types evaluate resolvers).matchInto other changed (.value (.ofItems values))
        env) :
    (overNominal types evaluate resolvers).matchInto mutable payload (.ofPayload values) env =
      (overNominal types evaluate resolvers).matchInto other changed (.ofPayload values) env := by
  rw [matchInto_ofPayload fits, matchInto_ofPayload (by simp [alone]), same]

end

end PatternClauses.Collaborators
