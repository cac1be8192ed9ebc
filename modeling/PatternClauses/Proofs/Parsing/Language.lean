import Mathlib.Data.List.Nodup
import PatternClauses.Proofs.Lexing.Tokens
import PatternClauses.Proofs.Parsing.Completeness
import PatternClauses.Proofs.Parsing.Soundness

/-!
# The language of the parser

Where everything may match, the parser accepts a list of tokens for a pattern exactly if the
grammar derives the pattern from it and no name is bound twice.  The parser is a function, so the
grammar, ambiguous as it is, derives at most one pattern from a list of tokens.
-/

namespace PatternClauses

open TokenStream Grammar

namespace Reader

theorem wholeIn_run_eq_ok_iff {mode : Mode} {start stop : TokenStream} {pattern : Pattern} :
    (wholeIn mode).run start = .ok pattern stop ↔
      (patternIn mode).run start = .ok pattern stop ∧ stop.tokens = [] := by
  rw [wholeIn, bind_eq_ok_iff]
  constructor
  · rintro ⟨value, middle, run, rest⟩
    rw [next?_bind] at rest
    split at rest
    · rename_i none
      cases rest
      exact ⟨run, List.head?_eq_none_iff.mp none⟩
    · exact absurd rest (unexpected_ne_ok _ _ _ _)
  · rintro ⟨run, none⟩
    refine ⟨pattern, stop, run, ?_⟩
    rw [next?_bind, none]
    rfl

theorem patternIn_run (mode : Mode) (stream : TokenStream) :
    (patternIn mode).run stream =
      (patternWithin stream.tokens.length mode).run { stream with bound := [] } := by
  rw [patternIn, modify_bind, remaining_bind]
  rfl

theorem derives_of_wholeIn {mode : Mode} {lexemes : List Lexeme} {pattern : Pattern}
    (accepted : (wholeIn mode).answer (.ofLexemes lexemes) = .ok pattern) :
    Derives .cast mode.mutability (lexemes.map (·.token)) pattern ∧
      (mode.uniqueNames = true → pattern.bindings.Nodup) := by
  rcases answer_eq_ok_iff.mp accepted with ⟨stop, run⟩
  rcases wholeIn_run_eq_ok_iff.mp run with ⟨run, none⟩
  rw [patternIn_run] at run
  rcases reads_patternWithin _ mode _ _ _ run with ⟨taken, takes, derives, keeps⟩
  have all : lexemes.map (·.token) = taken := by
    have front := takes.tokens
    rwa [none, List.append_nil] at front
  have names : stop.boundNames = pattern.bindings.reverse := by
    rw [takes.names]
    exact List.append_nil _
  refine ⟨all ▸ derives, fun unique => ?_⟩
  have distinct := keeps (fun _ => List.nodup_nil) unique
  rw [names] at distinct
  exact List.nodup_reverse.mp distinct

theorem wholeIn_of_derives {mode : Mode} (full : mode.context = .full) {lexemes : List Lexeme}
    {pattern : Pattern}
    (derives : Derives .cast mode.mutability (lexemes.map (·.token)) pattern)
    (distinct : mode.uniqueNames = true → pattern.bindings.Nodup) :
    (wholeIn mode).answer (.ofLexemes lexemes) = .ok pattern := by
  have here : (ofLexemes lexemes).tokens = lexemes.map (·.token) ++ [] :=
    (List.append_nil _).symm
  have fits : Fits mode.uniqueNames pattern.bindings (.ofLexemes lexemes) := by
    intro unique
    exact (List.append_nil _).symm ▸ List.nodup_reverse.mpr (distinct unique)
  rcases nestedAccepts_patternWithin _ mode full _ pattern derives (Nat.le_refl _) _ _ here
    (fun _ => nofun) fits with ⟨stop, run, takes⟩
  rw [answer_eq_ok_iff]
  refine ⟨stop, wholeIn_run_eq_ok_iff.mpr ⟨?_, takes.tokens_eq here⟩⟩
  rw [patternIn_run]
  exact run

end Reader

theorem ok_of_toOption {result : Except ε α} {value : α} (some : result.toOption = some value) :
    result = .ok value := by
  cases result with
  | error => cases some
  | ok => exact congrArg Except.ok (Option.some.inj some)

theorem Pattern.parseIn_eq_ok_iff {mode : Reader.Mode} {source : String} {pattern : Pattern} :
    parseIn mode source = .ok pattern ↔ ∃ lexemes, lex source = .ok lexemes ∧
      (Reader.wholeIn mode).answer (.ofLexemes lexemes) = .ok pattern := by
  unfold parseIn
  cases lex source <;> simp

theorem Pattern.parse_full_eq_ok_iff {source : String} {pattern : Pattern} :
    parse .full source = .ok pattern ↔
      (∃ tokens, Lexes source.toList tokens ∧ Derives .cast none tokens pattern) ∧
        pattern.bindings.Nodup := by
  rw [parse, parseIn_eq_ok_iff]
  constructor
  · rintro ⟨lexemes, lexed, accepted⟩
    rcases Reader.derives_of_wholeIn accepted with ⟨derives, distinct⟩
    have lexes := (lex_iff_lexes source _).mp ⟨lexemes, lexed, rfl⟩
    exact ⟨⟨_, lexes, derives⟩, distinct rfl⟩
  · rintro ⟨⟨tokens, lexes, derives⟩, distinct⟩
    rcases (lex_iff_lexes source tokens).mpr lexes with ⟨lexemes, lexed, rfl⟩
    exact ⟨lexemes, lexed, Reader.wholeIn_of_derives rfl derives fun _ => distinct⟩

namespace Grammar

/-- The grammar derives at most one pattern from a list of tokens, although it may derive it in
several ways. -/
theorem Derives.unique {mutability : Option Bool} {tokens : List Token} {first second : Pattern}
    (one : Derives .cast mutability tokens first) (other : Derives .cast mutability tokens second) :
    first = second := by
  -- The reader takes either derivation, and it has one answer. Names may repeat for it.
  let mode : Reader.Mode := ⟨.full, mutability, false⟩
  let lexemes : List Lexeme := tokens.map fun token => ⟨token, ⟨0, 0⟩⟩
  have same : lexemes.map (·.token) = tokens := by
    rw [List.map_map]
    exact List.map_id tokens
  have left : (Reader.wholeIn mode).answer (.ofLexemes lexemes) = .ok first :=
    Reader.wholeIn_of_derives rfl (same.symm ▸ one) nofun
  have right : (Reader.wholeIn mode).answer (.ofLexemes lexemes) = .ok second :=
    Reader.wholeIn_of_derives rfl (same.symm ▸ other) nofun
  exact Except.ok.inj (left.symm.trans right)

end Grammar

/-- The parser accepts exactly the grammar: it answers a pattern if and only if the tokens derive
it and its names are distinct, and all derivations of one list of tokens agree. -/
theorem whole_eq_ok_iff_derives :
    (∀ (lexemes : List Lexeme) (pattern : Pattern),
      (Reader.whole .full).answer (.ofLexemes lexemes) = .ok pattern ↔
        Derives .cast none (lexemes.map (·.token)) pattern ∧ pattern.bindings.Nodup) ∧
    (∀ (mutability : Option Bool) (tokens : List Token) (first second : Pattern),
      Derives .cast mutability tokens first → Derives .cast mutability tokens second →
        first = second) := by
  refine ⟨fun lexemes pattern => ⟨fun accepted => ?_, fun derived => ?_⟩,
    fun _ _ _ _ => Derives.unique⟩
  · rcases Reader.derives_of_wholeIn accepted with ⟨derives, distinct⟩
    exact ⟨derives, distinct rfl⟩
  · exact Reader.wholeIn_of_derives rfl derived.1 fun _ => derived.2

/-- In `let x as T` the cast may stand around the binding or inside it. -/
theorem whole_cast_of_binding :
    (Reader.whole .full).answer (.ofLexemes
      [⟨.letKeyword, ⟨0, 3⟩⟩, ⟨.identifier "x", ⟨4, 5⟩⟩, ⟨.asKeyword, ⟨6, 8⟩⟩,
        ⟨.identifier "T", ⟨9, 10⟩⟩]) =
      .ok (.cast (.binding (.identifier "x") false) (.named "T")) := by
  have type : DerivesType [.identifier "T"] (.named "T") := .named "T" []
  have name : Derives .cast (some false) [.identifier "x"] (.binding (.identifier "x") false) :=
    .annotated (.primary (.name "x"))
  have around : Derives .cast none [.letKeyword, .identifier "x", .asKeyword, .identifier "T"]
      (.cast (.binding (.identifier "x") false) (.named "T")) :=
    .cast (.annotated (.primary (.binding false name))) type
  have inside : Derives .cast none [.letKeyword, .identifier "x", .asKeyword, .identifier "T"]
      (.cast (.binding (.identifier "x") false) (.named "T")) :=
    .annotated (.primary (.binding false (.cast name type)))
  have same := whole_eq_ok_iff_derives.2 _ _ _ _ around inside
  exact (whole_eq_ok_iff_derives.1 _ _).mpr ⟨same ▸ around, by decide⟩

end PatternClauses
