import PatternClauses.Literal
import PatternClauses.Proofs.Environment.Merge
import PatternClauses.Proofs.Matching.Payload
import PatternClauses.Proofs.Printing.RoundTrip
import PatternClauses.Proofs.Typing.Membership

/-!
# Narrowing an optional

The pattern `let x? as T?` asks for an optional of a type and binds what it holds.  That is a value
of the type if the optional holds one value.  A `some` with another number of values passes for
empty in the type test but not in the match, and the tuple of its values is bound unseen.
-/

namespace PatternClauses

open Grammar

namespace Pattern

/-- The pattern `let name? as type?`. -/
def narrowing (name : String) (type : TypeExpr) : Pattern :=
  .cast (.optional (.binding (.identifier name) false)) (.optional type)

theorem text_narrowing (name : String) (type : TypeExpr) :
    (narrowing name type).text = "let " ++ name ++ "? as " ++ type.text ++ "?" := by
  have mark : "?" ++ " as " = "? as " := by decide
  simp only [narrowing, text, TypeExpr.text, ← mark, String.append_assoc]
  rfl

theorem parse_narrowing {name : String} (word : (Token.identifier name).Lexical)
    {tokens : List Token} {type : TypeExpr} (derives : DerivesType tokens type)
    (lexical : ∀ token ∈ tokens, token.Lexical) :
    parse .full ("let " ++ name ++ "? as " ++ type.text ++ "?") = .ok (narrowing name type) := by
  have marked : ∀ token ∈ tokens ++ [.questionMark], token.Lexical :=
    List.forall_mem_append.mpr ⟨lexical, List.forall_mem_singleton.mpr trivial⟩
  rcases readsAs_typeText derives.optional marked with ⟨printed, reads, typed⟩
  have prints := prints_cast (prints_optional (some false) word) reads typed
  rw [← text_narrowing]
  exact parse_of_reads prints.reads prints.derives (List.nodup_singleton name)

end Pattern

theorem Subject.toValue_ofPayload (values : List Value) :
    (Subject.ofPayload values).toValue = .ofItems values := by
  match values with
  | [] | [_] | _ :: _ :: _ => rfl

namespace Collaborators

variable {types : NominalTypes} {evaluate : Evaluator} {resolvers : ResolverRegistry}
  {mutable : Bool} {inner : Pattern} {value : Value} {env out : Environment}

theorem conforms_of_cast {type : TypeExpr}
    (matched : ((overNominal types evaluate resolvers).matchInto mutable (.cast inner type)
      (.value value) env).answer = .ok (true, out)) :
    types.oracle.conforms value type = .ok true ∧
      ((overNominal types evaluate resolvers).matchInto mutable inner (.value value)
        env).answer = .ok (true, out) := by
  rw [matchInto] at matched
  rcases Consult.bind_answer_eq_ok_iff.mp matched with ⟨passed, conforms, behind⟩
  cases passed with
  | false => cases behind
  | true =>
    rcases Consult.bind_answer_eq_ok_iff.mp behind with ⟨target, -, behind⟩
    rcases Consult.bind_answer_eq_ok_iff.mp behind with ⟨view, viewed, behind⟩
    cases viewed
    exact ⟨conforms, behind⟩

theorem payload_of_optional
    (matched : ((overNominal types evaluate resolvers).matchInto mutable (.optional inner)
      (.value value) env).answer = .ok (true, out)) :
    ∃ enum values, value = .enumCase enum someName values ∧
      ((overNominal types evaluate resolvers).matchInto mutable inner (.ofPayload values)
        env).answer = .ok (true, out) := by
  rw [matchInto, inCase] at matched
  rcases Consult.bind_answer_eq_ok_iff.mp matched with ⟨qualified, -, behind⟩
  cases qualified with
  | false => cases behind
  | true =>
    cases value with
    | enumCase enum name values =>
      change (if name = someName then (overNominal types evaluate resolvers).matchInto mutable
        inner (.ofPayload values) env else pure (false, env)).answer = _ at behind
      split at behind
      · rename_i named
        cases named
        exact ⟨enum, values, rfl, behind⟩
      · cases behind
    | _ => cases behind

end Collaborators

namespace NominalTypes

variable {types : NominalTypes}

theorem member_optional_iff {enum : String} {values : List Value} {target : RuntimeType} :
    types.Member (.enumCase enum someName values) (.optional target) ↔
      enum = optionalName ∧ (values.length = 1 → types.Member (.ofItems values) target) := by
  constructor
  · intro member
    cases member with
    | present inside => exact ⟨rfl, fun _ => inside⟩
    | absent other => exact ⟨rfl, fun single => absurd ⟨rfl, single⟩ other⟩
  · rintro ⟨rfl, single⟩
    by_cases length : values.length = 1
    · rcases List.length_eq_one_iff.mp length with ⟨item, rfl⟩
      exact .present (single rfl)
    · exact .absent fun both => length both.2

theorem conforms_iff_member {type : TypeExpr} {target : RuntimeType}
    (resolved : types.resolve type = .ok target) (value : Value) :
    types.oracle.conforms value type = .ok true ↔ types.Member value target := by
  rw [conforms_eq_true_iff]
  constructor
  · rintro ⟨other, meant, member⟩
    cases resolved.symm.trans meant
    exact member
  · exact fun member => ⟨target, resolved, member⟩

theorem conforms_optional_iff_member {type : TypeExpr} {target : RuntimeType}
    (resolved : types.resolve type = .ok target) (value : Value) :
    types.oracle.conforms value (.optional type) = .ok true ↔
      types.Member value (.optional target) := by
  apply conforms_iff_member
  rw [resolve, resolved]
  rfl

end NominalTypes

theorem Environment.get?_push_commitInto {scope : Environment} (indexed : scope.Indexed)
    (binding : Binding) :
    ((Environment.empty.push binding).commitInto scope).get? binding.name =
      some binding.value := by
  have bound : (Environment.empty.push binding).Indexed := indexed_empty.push List.not_mem_nil
  have named : binding.name ∈ (Environment.empty.push binding).names := List.mem_singleton.mpr rfl
  rw [bound.get?_commitInto indexed, if_pos named, get?, bound.binding?_eq]
  change (named? [binding] binding.name).map _ = _
  rw [named?_cons, if_pos rfl]
  rfl

namespace Collaborators

/-- What a match narrows is a `some`, and the name gets its values as one value.  That conforms to
the type if it is a single value; if the `some` holds another number of values, the type test has
not looked at them, and the tuple of them conforms only if it happens to. -/
theorem narrowed_conforms_iff (types : NominalTypes) (evaluate : Evaluator)
    (resolvers : ResolverRegistry) (name : String) (type : TypeExpr) (target : RuntimeType)
    (resolved : types.resolve type = .ok target) (value : Value) (scope out : Environment)
    (indexed : scope.Indexed)
    (matched : ((overNominal types evaluate resolvers).matchPattern (.narrowing name type) value
      scope).answer = .ok (some out)) :
    ∃ values, value = .enumCase optionalName someName values ∧
      out.get? name = some (.ofItems values) ∧
      (types.oracle.conforms (.ofItems values) type = .ok true ↔
        values.length = 1 ∨ types.Member (.tuple values) target) := by
  rcases matchPattern_eq_some_iff.mp matched with ⟨env, ran, rfl⟩
  rcases conforms_of_cast ran with ⟨tested, inside⟩
  rcases payload_of_optional inside with ⟨enum, values, rfl, bound⟩
  have member := (NominalTypes.conforms_optional_iff_member resolved _).mp tested
  rcases NominalTypes.member_optional_iff.mp member with ⟨rfl, single⟩
  rw [matchInto, matchInto, Subject.toValue, Subject.toValue_ofPayload] at bound
  cases bound
  refine ⟨values, rfl, Environment.get?_push_commitInto indexed _, ?_⟩
  rw [NominalTypes.conforms_iff_member resolved]
  by_cases length : values.length = 1
  · exact iff_of_true (single length) (.inl length)
  · rw [Value.ofItems_of_length_ne_one length, or_iff_right length]

theorem narrowed_number :
    let host := overNominal .initial evaluateLiteral .empty
    Pattern.parse .full "let x? as Int?" = .ok (.narrowing "x" (.named "Int")) ∧
      ∃ out, (host.matchPattern (.narrowing "x" (.named "Int")) (.present (.integer 5))
          .empty).answer = .ok (some out) ∧
        out.get? "x" = some (.integer 5) ∧
        NominalTypes.initial.oracle.conforms (.integer 5) (.named "Int") = .ok true := by
  intro host
  have name : (Token.identifier "x").Lexical := ⟨by decide, by decide⟩
  have type : (Token.identifier "Int").Lexical := ⟨by decide, by decide⟩
  have parsed := Pattern.parse_narrowing name (.named "Int" []) (List.forall_mem_singleton.mpr type)
  have text : "let " ++ "x" ++ "? as " ++ (TypeExpr.named "Int").text ++ "?" =
      "let x? as Int?" := by decide
  rw [String.intercalate_singleton, text] at parsed
  have matched : (host.matchPattern (.narrowing "x" (.named "Int")) (.present (.integer 5))
      .empty).answer =
        .ok (some ((Environment.empty.push ⟨"x", .integer 5, false⟩).commitInto .empty)) := by
    rfl
  rcases narrowed_conforms_iff .initial evaluateLiteral .empty "x" (.named "Int") .integer rfl _ _ _
    Environment.indexed_empty matched with ⟨values, same, bound, conforms⟩
  cases same
  exact ⟨parsed, _, matched, bound, conforms.mpr (.inl rfl)⟩

theorem pair_narrowed_to_number :
    let host := overNominal .initial evaluateLiteral .empty
    ∃ value out, Value.parse "some(1, 2)" = .ok value ∧
      Pattern.parse .full "let x? as Int?" = .ok (.narrowing "x" (.named "Int")) ∧
      (host.matchPattern (.narrowing "x" (.named "Int")) value .empty).answer = .ok (some out) ∧
      out.get? "x" = some (.tuple [.integer 1, .integer 2]) ∧
      NominalTypes.initial.oracle.conforms (.tuple [.integer 1, .integer 2]) (.named "Int") =
        .ok false := by
  intro host
  let value : Value := .enumCase optionalName someName [.integer 1, .integer 2]
  let pair : Pattern := .tuple [.expression (.integer 1), .expression (.integer 2)]
  have parsed : Pattern.parse .full "some(1, 2)" = .ok (.enumCase none "some" (some pair)) :=
    ok_of_toOption (by decide +kernel)
  have read : Value.parse "some(1, 2)" = .ok value := Value.parse_eq_ofPattern parsed
  have pattern : Pattern.parse .full "let x? as Int?" = .ok (.narrowing "x" (.named "Int")) :=
    ok_of_toOption (by decide +kernel)
  have bound := Environment.get?_push_commitInto Environment.indexed_empty
    ⟨"x", .tuple [.integer 1, .integer 2], false⟩
  exact ⟨value, _, read, pattern, rfl, bound, rfl⟩

end Collaborators

end PatternClauses
