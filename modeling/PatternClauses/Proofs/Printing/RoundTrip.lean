import PatternClauses.Proofs.Parsing.Irrefutable
import PatternClauses.Proofs.Parsing.Language
import PatternClauses.Proofs.Printing.Phrases

/-!
# Printed patterns

The text of a pattern that was read is read as the same pattern.  The text is not the source: each
name carries its own `let` or `var`, grouping parentheses are gone and a case without a path begins
with a dot.  So the tokens of the text derive the pattern anew.
-/

namespace PatternClauses

open Grammar

namespace Pattern

def Legible (pattern : Pattern) : Prop :=
  ∀ value ∈ pattern.expressions, ∀ literal ∈ value.literals, literal.Legible

theorem expressions_ofItems (items : List Pattern) :
    (ofItems items).expressions = items.flatMap expressions := by
  match items with
  | [] => rfl
  | [item] => simp [ofItems]
  | first :: second :: rest => simp [ofItems, expressions]

theorem Legible.item {items : List Pattern} (legible : Legible (ofItems items)) {item : Pattern}
    (member : item ∈ items) : Legible item := by
  intro value inside
  apply legible
  rw [expressions_ofItems]
  exact List.mem_flatMap.mpr ⟨item, member, inside⟩

/-- Tokens that the text of a pattern is read as and that derive the pattern.  What may be
annotated must not be taken for a cast, and a tuple may become the payload of a case. -/
structure Prints (pattern : Pattern) (printed : List Token) : Prop where
  reads : ReadsAs pattern.text printed
  derives : Derives .cast none printed pattern
  primary : Annotatable pattern → Derives .primary none printed pattern
  tuple : ∀ items, pattern = .tuple items → Derives .tuple none printed pattern

theorem prints_of_primary {pattern : Pattern} {printed : List Token}
    (reads : ReadsAs pattern.text printed) (derives : Derives .primary none printed pattern)
    (noTuple : ∀ items, pattern ≠ .tuple items) : Prints pattern printed where
  reads := reads
  derives := .annotated (.primary derives)
  primary _ := derives
  tuple items same := absurd same (noTuple items)

/-! ## Names -/

theorem derives_keyword {mutability : Option Bool} {rest : List Token} {pattern : Pattern}
    (derives : Derives .primary mutability rest pattern) :
    Derives .primary none (mutability.toList.map keyword ++ rest) pattern := by
  cases mutability with
  | none => exact derives
  | some mutable => exact .binding mutable (.annotated (.primary derives))

theorem standsFor_keyword (mutable : Bool) :
    StandsFor (if mutable then "var " else "let ") [keyword mutable] := by
  cases mutable with
  | false => exact standsFor_word "let" (by decide)
  | true => exact standsFor_word "var" (by decide)

theorem readsAs_leaf (mutability : Option Bool) {name : String}
    (lexical : (Token.identifier name).Lexical) :
    ReadsAs (leaf mutability name).text
      (mutability.toList.map keyword ++ [.identifier name]) := by
  cases mutability with
  | none => exact readsAs_name lexical
  | some mutable => exact (standsFor_keyword mutable).append (readsAs_name lexical)

theorem prints_leaf (mutability : Option Bool) {name : String}
    (lexical : (Token.identifier name).Lexical) :
    Prints (leaf mutability name) (mutability.toList.map keyword ++ [.identifier name]) :=
  prints_of_primary (readsAs_leaf mutability lexical) (derives_keyword (.name name))
    (by cases mutability <;> nofun)

theorem prints_optional (mutability : Option Bool) {name : String}
    (lexical : (Token.identifier name).Lexical) :
    Prints (.optional (leaf mutability name))
      (mutability.toList.map keyword ++ [.identifier name, .questionMark]) := by
  have mark : StandsFor "?" [.questionMark] := standsFor_mark (by decide) rfl
  have marked : Marked "?" := by decide
  have reads := (readsAs_leaf mutability lexical).append mark.readsAs marked.apart
  rw [List.append_assoc] at reads
  exact prints_of_primary reads (derives_keyword (.optional name)) nofun

/-! ## Tuples -/

theorem prints_ofItems (parts : List (List Token × Pattern))
    (each : ∀ part ∈ parts, Prints part.2 part.1) :
    ∃ printed, Prints (ofItems (parts.map (·.2))) printed := by
  have grouped := readsAs_enclosed text parts fun part member => (each part member).reads
  have derives := Derives.items parts fun part member => (each part member).derives
  match parts with
  | [] =>
    exact ⟨_, grouped, .annotated (.primary (.tuple derives)), fun _ => .tuple derives,
      fun _ _ => derives⟩
  | [part] => exact ⟨part.1, each part List.mem_cons_self⟩
  | first :: second :: rest =>
    refine ⟨_, ?_, .annotated (.primary (.tuple derives)), fun _ => .tuple derives,
      fun _ _ => derives⟩
    simpa [ofItems, text, Function.comp_def] using grouped

/-! ## Cases -/

/-- The text of the payload of a case: a tuple brings its own parentheses. -/
def payloadText : Pattern → String
  | .tuple items => (Pattern.tuple items).text
  | payload => "(" ++ payload.text ++ ")"

theorem text_enumCase (qualifier : Option String) (name : String) (payload : Pattern) :
    (enumCase qualifier name (some payload)).text =
      (enumCase qualifier name none).text ++ payload.payloadText := by
  cases payload <;> simp [text, payloadText, String.append_assoc]

theorem apart_payloadText (payload : Pattern) : Apart payload.payloadText := by
  have opening : Marked "(" := by decide
  cases payload <;> simp only [payloadText, text, String.append_assoc] <;>
    exact (opening.append _).apart

theorem Prints.payload {payload : Pattern} {printed : List Token}
    (prints : Prints payload printed) :
    ∃ more, ReadsAs payload.payloadText more ∧ Derives .tuple none more payload := by
  have reads : ReadsAs ("(" ++ payload.text ++ ")") (enclosed [printed]) := by
    have grouped := readsAs_enclosed text [(printed, payload)] (by simpa using prints.reads)
    simpa [commaSeparated] using grouped
  have derives : Derives .tuple none (enclosed [printed]) payload :=
    .items [(printed, payload)] (by simpa using prints.derives)
  cases payload with
  | tuple items => exact ⟨printed, prints.reads, prints.tuple items rfl⟩
  | _ => exact ⟨_, reads, derives⟩

theorem readsAs_caseText {tokens : List Token} {qualifier : Option String} {name : String}
    (derives : DerivesCase tokens qualifier name) (lexical : ∀ token ∈ tokens, token.Lexical) :
    ReadsAs (enumCase qualifier name none).text tokens := by
  cases derives with
  | unqualified =>
    have word := lexical (.identifier name) (by simp)
    simpa [text] using (readsAs_name word).dot word.1.startsWord
  | qualified first rest =>
    have reads := (readsAs_path first (rest ++ [name]) lexical).1
    rw [← List.cons_append, String.intercalate_append_of_ne_nil (by simp) (by simp),
      String.intercalate_singleton] at reads
    exact reads

theorem lexical_dottedName {name : String} (lexical : (Token.identifier name).Lexical) :
    ∀ token ∈ [Token.dot, .identifier name], token.Lexical :=
  List.forall_mem_cons.mpr ⟨trivial, List.forall_mem_singleton.mpr lexical⟩

theorem prints_payloadCase {tokens printed : List Token} {qualifier : Option String}
    {name : String} {payload : Pattern} (derives : DerivesCase tokens qualifier name)
    (lexical : ∀ token ∈ tokens, token.Lexical) (prints : Prints payload printed) :
    ∃ more, Prints (.enumCase qualifier name (some payload)) more := by
  rcases prints.payload with ⟨more, reads, inner⟩
  have all := (readsAs_caseText derives lexical).append reads (apart_payloadText payload)
  rw [← text_enumCase] at all
  exact ⟨_, prints_of_primary all (.payloadCase derives inner) nofun⟩

/-! ## Types behind a pattern -/

theorem prints_cast {inner : Pattern} {printed typePrinted : List Token} {type : TypeExpr}
    (prints : Prints inner printed) (reads : ReadsAs type.text typePrinted)
    (derives : DerivesType typePrinted type) :
    Prints (.cast inner type) (printed ++ .asKeyword :: typePrinted) where
  reads := by
    have word : StandsFor " as " [.asKeyword] :=
      standsFor_blank.followed (standsFor_word "as" (by decide))
    have marked : Marked " as " := by decide
    have all := prints.reads.append (word.append reads) (marked.append _).apart
    rwa [← String.append_assoc] at all
  derives := prints.derives.cast derives
  primary := nofun
  tuple := nofun

theorem prints_annotated {inner : Pattern} {printed typePrinted : List Token} {type : TypeExpr}
    (annotatable : Annotatable inner) (prints : Prints inner printed)
    (reads : ReadsAs type.text typePrinted) (derives : DerivesType typePrinted type) :
    Prints (.annotated inner type) (printed ++ .colon :: typePrinted) where
  reads := by
    have colon : StandsFor ":" [.colon] := standsFor_mark (by decide) rfl
    have marked : Marked ": " := by decide
    have mark : StandsFor ": " [.colon] := colon.followed standsFor_blank
    have all := prints.reads.append (mark.append reads) (marked.append _).apart
    rwa [← String.append_assoc] at all
  derives := .annotated (.ascription (prints.primary annotatable) annotatable derives)
  primary := nofun
  tuple := nofun

/-! ## All patterns -/

theorem exists_prints {phrase : Phrase} {mutability : Option Bool} {tokens : List Token}
    {pattern : Pattern} (derives : Derives phrase mutability tokens pattern)
    (lexical : ∀ token ∈ tokens, token.Lexical) (legible : Legible pattern) :
    ∃ printed, Prints pattern printed := by
  induction derives with
  | annotated _ induction | primary _ induction | tuple _ induction =>
    exact induction lexical legible
  | cast _ type induction =>
    rw [List.forall_mem_append, List.forall_mem_cons] at lexical
    rcases induction lexical.1 legible with ⟨printed, prints⟩
    rcases readsAs_typeText type lexical.2.2 with ⟨typePrinted, reads, derives⟩
    exact ⟨_, prints_cast prints reads derives⟩
  | ascription _ annotatable type induction =>
    rw [List.forall_mem_append, List.forall_mem_cons] at lexical
    rcases induction lexical.1 legible with ⟨printed, prints⟩
    rcases readsAs_typeText type lexical.2.2 with ⟨typePrinted, reads, derives⟩
    exact ⟨_, prints_annotated annotatable prints reads derives⟩
  | wildcard => exact ⟨_, prints_of_primary (readsAs_word (by decide)) .wildcard nofun⟩
  | name name => exact ⟨_, prints_leaf _ (lexical _ List.mem_cons_self)⟩
  | optional name => exact ⟨_, prints_optional _ (lexical _ List.mem_cons_self)⟩
  | binding mutable _ induction =>
    exact induction (fun token member => lexical token (.tail _ member)) legible
  | items items _ induction =>
    have printed := exists_parts (fun printed pattern => Prints pattern printed)
      fun item member => induction item member
        (fun token inside => lexical token (mem_enclosed member inside))
        (legible.item (List.mem_map.mpr ⟨item, member, rfl⟩))
    rcases printed with ⟨parts, same, each⟩
    rw [← same]
    exact prints_ofItems parts each
  | bareCase head =>
    exact ⟨_, prints_of_primary (readsAs_caseText head lexical) (.bareCase head) nofun⟩
  | payloadCase head _ induction =>
    rw [List.forall_mem_append] at lexical
    rcases induction lexical.2 legible with ⟨printed, prints⟩
    exact prints_payloadCase head lexical.1 prints
  | namedCase name _ induction =>
    rw [List.forall_mem_cons] at lexical
    rcases induction lexical.2 legible with ⟨printed, prints⟩
    exact prints_payloadCase (.unqualified name) (lexical_dottedName lexical.1) prints
  | isType type =>
    rw [List.forall_mem_cons] at lexical
    rcases readsAs_typeText type lexical.2 with ⟨printed, reads, derives⟩
    have word : StandsFor "is " [.isKeyword] := standsFor_word "is" (by decide)
    exact ⟨_, prints_of_primary (word.append reads) (.isType derives) nofun⟩
  | expression value =>
    have reads := readsAs_expressionText value lexical (legible _ List.mem_cons_self)
    exact ⟨_, prints_of_primary reads (.expression value) nofun⟩

theorem parse_of_reads {text : String} {printed : List Token} {pattern : Pattern}
    (reads : ReadsAs text printed) (derives : Derives .cast none printed pattern)
    (distinct : pattern.bindings.Nodup) : parse .full text = .ok pattern := by
  have lexes := (lex_iff_lexes text printed).mp reads.lex
  exact parse_full_eq_ok_iff.mpr ⟨⟨printed, lexes, derives⟩, distinct⟩

/-- Reading undoes printing, where everything may match and in the context in which the pattern was
read. -/
theorem parse_text {context : PatternContext} {source : String} {pattern : Pattern}
    (read : parse context source = .ok pattern) (legible : pattern.Legible) :
    parse .full pattern.text = .ok pattern ∧ parse context pattern.text = .ok pattern := by
  rcases parseIn_eq_ok_iff.mp read with ⟨lexemes, lexed, accepted⟩
  rcases Reader.derives_of_wholeIn accepted with ⟨derives, distinct⟩
  have lexical := ((lex_iff_lexes source _).mp ⟨lexemes, lexed, rfl⟩).lexical
  rcases exists_prints derives lexical legible with ⟨printed, prints⟩
  have again := parse_of_reads prints.reads prints.derives (distinct rfl)
  refine ⟨again, ?_⟩
  cases context with
  | full => exact again
  | bindingOnly =>
    have irrefutable := ((parse_bindingOnly_eq_ok_iff source pattern).mp read).2
    exact (parse_bindingOnly_eq_ok_iff pattern.text pattern).mpr ⟨again, irrefutable⟩

theorem parse_text_of_range :
    ∃ pattern, parse .full "f(\"a\"...1.5)" = .ok pattern ∧
      parse .full pattern.text = .ok pattern := by
  have read : parse .full "f(\"a\"...1.5)" = .ok (.enumCase none "f"
      (some (.expression (.range (.string "a") (.float (.ofDecimal false 15 (-1))) true)))) :=
    ok_of_toOption (by decide +kernel)
  have string : quoted "a" = "\"" ++ "a" ++ "\"" := by decide +kernel
  have float : (Expression.float (.ofDecimal false 15 (-1))).Legible :=
    ⟨⟨0, 3⟩, ok_of_toOption (by decide +kernel)⟩
  refine ⟨_, read, (parse_text read ?_).1⟩
  intro value member
  cases List.mem_singleton.mp member
  exact List.forall_mem_cons.mpr ⟨string, List.forall_mem_singleton.mpr float⟩

end Pattern

end PatternClauses
