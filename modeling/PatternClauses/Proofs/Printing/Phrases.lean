import PatternClauses.Proofs.Lexing.Spelling

/-!
# Printed types and expressions

The text of a type or an expression is read as tokens that derive it, provided that it was read
from tokens in the first place and that its literals are legible.
-/

namespace PatternClauses

open Grammar

/-! ## Lists -/

theorem standsFor_comma : StandsFor ", " [.comma] := by
  have comma : StandsFor "," [.comma] := standsFor_mark (by decide) rfl
  exact comma.followed standsFor_blank

theorem readsAs_commaSeparated (text : α → String) (parts : List (List Token × α))
    (each : ∀ part ∈ parts, ReadsAs (text part.2) part.1) :
    ReadsAs (commaSeparated (parts.map (text ·.2)))
      ([Token.comma].intercalate (parts.map (·.1))) := by
  induction parts with
  | nil => exact readsAs_empty
  | cons first parts induction =>
    have reads := each first List.mem_cons_self
    cases parts with
    | nil => simpa [commaSeparated] using reads
    | cons second parts =>
      have others := induction fun part member => each part (.tail _ member)
      have behind := standsFor_comma.append others
      have marked : Marked ", " := by decide
      have all := reads.append behind (marked.append _).apart
      simpa [commaSeparated, String.append_assoc] using all

theorem readsAs_enclosed (text : α → String) (parts : List (List Token × α))
    (each : ∀ part ∈ parts, ReadsAs (text part.2) part.1) :
    ReadsAs ("(" ++ commaSeparated (parts.map (text ·.2)) ++ ")") (enclosed (parts.map (·.1))) := by
  have opening : StandsFor "(" [.leftParen] := standsFor_mark (by decide) rfl
  have closing : StandsFor ")" [.rightParen] := standsFor_mark (by decide) rfl
  have marked : Marked ")" := by decide
  have front := opening.append (readsAs_commaSeparated text parts each)
  exact front.append closing.readsAs marked.apart

theorem exists_parts (property : List Token → α → Prop) {items : List (List Token × α)}
    (each : ∀ item ∈ items, ∃ printed, property printed item.2) :
    ∃ parts : List (List Token × α), parts.map (·.2) = items.map (·.2) ∧
      ∀ part ∈ parts, property part.1 part.2 := by
  have made : ∀ value ∈ items.map (·.2), ∃ part : List Token × α,
      property part.1 part.2 ∧ part.2 = value := by
    intro value member
    rcases List.mem_map.mp member with ⟨item, inside, rfl⟩
    rcases each item inside with ⟨printed, holds⟩
    exact ⟨(printed, item.2), holds, rfl⟩
  rcases exists_map_eq made with ⟨parts, holds, same⟩
  exact ⟨parts, same, holds⟩

/-! ## Types -/

theorem readsAs_name {name : String} (lexical : (Token.identifier name).Lexical) :
    ReadsAs name [.identifier name] := by
  have reads := readsAs_word lexical.1
  rwa [lexical.2] at reads

theorem readsAs_path (first : String) (rest : List String)
    (lexical : ∀ token ∈ path first rest, token.Lexical) :
    ReadsAs (".".intercalate (first :: rest)) (path first rest) ∧
      StartsWord (".".intercalate (first :: rest)) := by
  induction rest generalizing first with
  | nil =>
    have name := lexical (.identifier first) List.mem_cons_self
    simpa [path, dotted] using ⟨readsAs_name name, name.1.startsWord⟩
  | cons second rest induction =>
    have name := lexical (.identifier first) List.mem_cons_self
    have later : ∀ token ∈ path second rest, token.Lexical :=
      fun token member => lexical token (.tail _ (.tail _ member))
    rcases induction second later with ⟨reads, starts⟩
    have all := (readsAs_name name).append (reads.dot starts) (apart_dot starts)
    rw [String.intercalate_cons_cons, String.append_assoc]
    exact ⟨all, name.1.startsWord.append _⟩

theorem readsAs_typeText (derives : DerivesType tokens type)
    (lexical : ∀ token ∈ tokens, token.Lexical) :
    ∃ printed, ReadsAs type.text printed ∧ DerivesType printed type := by
  induction derives with
  | named first rest => exact ⟨_, (readsAs_path first rest lexical).1, .named first rest⟩
  | tuple items each induction =>
    have printed := exists_parts (fun printed type => ReadsAs type.text printed ∧
      DerivesType printed type) fun item member =>
        induction item member fun token inside => lexical token (mem_enclosed member inside)
    rcases printed with ⟨parts, same, holds⟩
    have grouped := readsAs_enclosed TypeExpr.text parts fun part member => (holds part member).1
    have derives := DerivesType.tuple parts fun part member => (holds part member).2
    rw [← same]
    match parts with
    | [] => exact ⟨_, grouped, derives⟩
    | [part] => exact ⟨part.1, holds part List.mem_cons_self⟩
    | first :: second :: rest =>
      refine ⟨_, ?_, derives⟩
      simpa [TypeExpr.ofItems, TypeExpr.text, Function.comp_def] using grouped
  | optional _ induction =>
    rcases induction fun token member => lexical token (List.mem_append_left _ member) with
      ⟨printed, reads, derives⟩
    have mark : StandsFor "?" [.questionMark] := standsFor_mark (by decide) rfl
    have marked : Marked "?" := by decide
    exact ⟨_, reads.append mark.readsAs marked.apart, derives.optional⟩

/-! ## Expressions -/

def Expression.literals : Expression → List Expression
  | .negate operand => operand.literals
  | .range lower upper _ => lower.literals ++ upper.literals
  | literal => [literal]

/-- A string is legible if it is written without escapes, and a float if its text is read as that
float alone. -/
def Expression.Legible : Expression → Prop
  | .string text => quoted text = "\"" ++ text ++ "\""
  | .float value => ∃ span, lex value.text = .ok [⟨.float value, span⟩]
  | _ => True

theorem readsAs_unaryText (derives : DerivesUnary tokens value)
    (lexical : ∀ token ∈ tokens, token.Lexical)
    (legible : ∀ literal ∈ value.literals, literal.Legible) : ReadsAs value.text tokens := by
  induction derives with
  | integer value => exact readsAs_integer (lexical _ List.mem_cons_self)
  | float value => exact readsAs_float (legible _ List.mem_cons_self)
  | string value =>
    exact (standsFor_string (legible _ List.mem_cons_self) (lexical _ List.mem_cons_self)).readsAs
  | boolean value => cases value <;> exact readsAs_word (by decide)
  | nil => exact readsAs_word (by decide)
  | negate _ induction =>
    have minus : StandsFor "-" [.minus] := standsFor_mark (by decide) rfl
    exact minus.append (induction (fun token member => lexical token (.tail _ member)) legible)

theorem readsAs_expressionText (derives : DerivesExpression tokens value)
    (lexical : ∀ token ∈ tokens, token.Lexical)
    (legible : ∀ literal ∈ value.literals, literal.Legible) : ReadsAs value.text tokens := by
  cases derives with
  | unary derives => exact readsAs_unaryText derives lexical legible
  | range closed lower upper =>
    rw [Expression.literals, List.forall_mem_append] at legible
    rw [List.forall_mem_append, List.forall_mem_cons] at lexical
    have first := readsAs_unaryText lower lexical.1 legible.1
    have second := readsAs_unaryText upper lexical.2.2 legible.2
    rw [Expression.text, String.append_assoc]
    exact first.append ((standsFor_range closed).append second) (apart_range closed _)

end PatternClauses
