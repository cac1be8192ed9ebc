import PatternClauses.Fault

/-!
# Consultations

A match consults an evaluator and resolvers that belong to its host, and the host can see in what
order.  A computation in `Consult` answers a value or a fault and records every expression that it
had evaluated and every comparison that a registered resolver made; the record of a fault ends
with the query that faulted.
-/

namespace PatternClauses

inductive Query where
  | evaluated (expression : Expression)
  | compared (resolver : String) (pattern candidate : Value)

def Query.line : Query → String
  | .evaluated expression => "eval " ++ expression.text
  | .compared resolver pattern candidate =>
    resolver ++ ": " ++ pattern.text ++ " ~ " ++ candidate.text

structure Consult (α : Type) where
  queries : List Query
  answer : Except Fault α

namespace Consult

def pure (value : α) : Consult α := ⟨[], .ok value⟩

def bind (first : Consult α) (next : α → Consult β) : Consult β :=
  match first.answer with
  | .ok value => ⟨first.queries ++ (next value).queries, (next value).answer⟩
  | .error fault => ⟨first.queries, .error fault⟩

instance : Monad Consult where
  pure := pure
  bind := bind

def ofAnswer (answer : Except Fault α) : Consult α := ⟨[], answer⟩

instance : MonadLift (Except Fault) Consult := ⟨ofAnswer⟩

def ask (query : Query) (answer : Except Fault α) : Consult α := ⟨[query], answer⟩

theorem bind_of_ok {first : Consult α} {value : α} (next : α → Consult β)
    (answered : first.answer = .ok value) :
    first >>= next = ⟨first.queries ++ (next value).queries, (next value).answer⟩ := by
  simp [Bind.bind, bind, answered]

theorem bind_of_error {first : Consult α} {fault : Fault} (next : α → Consult β)
    (faulted : first.answer = .error fault) :
    first >>= next = ⟨first.queries, .error fault⟩ := by
  simp [Bind.bind, bind, faulted]

theorem bind_answer_eq_ok_iff {first : Consult α} {next : α → Consult β} {result : β} :
    (first >>= next).answer = .ok result ↔
      ∃ value, first.answer = .ok value ∧ (next value).answer = .ok result := by
  cases answered : first.answer with
  | ok value => simp [bind_of_ok next answered]
  | error fault => simp [bind_of_error next answered]

theorem bind_pure_eq (first : Consult α) (finish : α → β) :
    (first >>= fun value => (Pure.pure (finish value) : Consult β)) =
      ⟨first.queries, first.answer.map finish⟩ := by
  rcases first with ⟨queries, answer⟩
  cases answer <;> simp [Bind.bind, bind, Pure.pure, pure, Except.map]

instance : LawfulMonad Consult := by
  refine LawfulMonad.mk' _ ?_ ?_ ?_
  · rintro α ⟨queries, answer⟩
    cases answer <;> simp [Functor.map, bind, pure]
  · intro α β value next
    simp [Pure.pure, pure, Bind.bind, bind]
  · rintro α β γ ⟨queries, answer⟩ next after
    cases answer with
    | error fault => simp [Bind.bind, bind]
    | ok value => cases same : (next value).answer <;> simp [Bind.bind, bind, same]

end Consult

end PatternClauses
