import PatternClauses.CommandLine.Arguments
import PatternClauses.Literal
import PatternClauses.Matching
import PatternClauses.Text.WhiteSpace
import PatternClauses.Typing.Builtin

/-!
# Commands

What the program answers: `parse` shows a pattern, `match` finds the first of several patterns
that matches a value.  The exit code is zero on success, one when nothing matched and two after a
failure; what was printed before a failure stays.
-/

namespace PatternClauses

inductive Failure where
  | usage
  | unreadable (error : ParseError)
  | literal (error : LiteralError)
  | malformedSubtype (text : String)
  | evaluation (fault : Fault)

def Failure.message : Failure → String
  | .usage => "usage"
  | .unreadable error => error.diagnostic.message
  | .literal error => error.message
  | .malformedSubtype text => "subtype " ++ quoted text ++ " should look like Sub:Super"
  | .evaluation fault => fault.diagnostic.message

structure Report where
  exitCode : Nat
  output : String
  failure : Option Failure

namespace Report

def lines (texts : List String) : String := String.join (texts.map (· ++ "\n"))

def success (texts : List String) : Report := ⟨0, lines texts, none⟩

def noMatch (texts : List String) : Report := ⟨1, lines texts, none⟩

def failed (texts : List String) (failure : Failure) : Report := ⟨2, lines texts, some failure⟩

/-! ## Showing a pattern -/

def tokenLines (lexemes : List Lexeme) : List String :=
  ["Tokens:", (Outline.list (lexemes.map (·.token.outline))).inline]

def patternLines (pattern : Pattern) : List String :=
  [pattern.text, "refutable: " ++ booleanText pattern.isRefutable,
    "bindings: [" ++ commaSeparated pattern.bindings ++ "]"]

def ofParse (source : String) (context : PatternContext) (debug : Bool) : Report :=
  match lex source with
  | .error error => failed [] (.unreadable (.lexical error))
  | .ok lexemes =>
    let tokens := if debug then tokenLines lexemes else []
    match (Reader.whole context).answer (.ofLexemes lexemes) with
    | .error error => failed tokens (.unreadable error)
    | .ok pattern =>
      let outline := if debug then ["Pattern:", pattern.outline.indented 0] else []
      success (tokens ++ outline ++ patternLines pattern)

/-! ## Matching a value -/

def parseEach (context : PatternContext) : List String → Except Failure (List Pattern)
  | [] => .ok []
  | source :: rest => do
    let first ← match Pattern.parse context source with
      | .ok pattern => .ok pattern
      | .error error => .error (.unreadable error)
    return first :: (← parseEach context rest)

mutual

/-- Make the enums of a value known, as far as it is built of tuples and cases. -/
def registerEnums (types : NominalTypes) : Value → NominalTypes
  | .tuple items => registerEnumsEach types items
  | .enumCase enum _ payload => registerEnumsEach (types.register enum) payload
  | _ => types

def registerEnumsEach (types : NominalTypes) : List Value → NominalTypes
  | [] => types
  | item :: rest => registerEnumsEach (registerEnums types item) rest

end

/-- Register supertypes written as `Sub:Super`, with optional space around the names. -/
def registerSubtypes (types : NominalTypes) : List String → Except Failure NominalTypes
  | [] => .ok types
  | text :: rest =>
    match text.toList.dropWhile (· != ':') with
    | [] => .error (.malformedSubtype text)
    | _ :: super =>
      let sub := text.toList.takeWhile (· != ':')
      registerSubtypes
        (types.registerSupertype (String.ofList (trimmed sub)) (String.ofList (trimmed super))) rest

/-- A host with literal expressions, the given types and no resolvers. -/
def hostOf (types : NominalTypes) : Collaborators where
  oracle := types.oracle
  evaluate := evaluateLiteral
  resolvers := .empty

def bindingLine (binding : Binding) : String :=
  (if binding.mutable then "  var " else "  let ") ++ binding.name ++ " = " ++ binding.value.text

def outcome (types : NominalTypes) (value : Value) (patterns : List Pattern) :
    Except Fault (Option (Nat × Environment)) :=
  ((hostOf types).firstMatch patterns value .empty).answer

def ofMatch (text : String) (sources subtypes : List String) (context : PatternContext)
    (debug : Bool) : Report :=
  match Value.parse text, parseEach context sources with
  | .error error, _ => failed [] (.literal error)
  | .ok _, .error failure => failed [] failure
  | .ok value, .ok patterns =>
    let shown := if debug then
        ["Value:", value.outline.indented 0,
          "Cases:", (Outline.list (patterns.map Pattern.outline)).indented 0]
      else []
    match registerSubtypes (registerEnums .initial value) subtypes with
    | .error failure => failed shown failure
    | .ok types =>
      match outcome types value patterns with
      | .error fault => failed shown (.evaluation fault)
      | .ok none => noMatch (shown ++ ["no case matched " ++ value.text])
      | .ok (some (index, env)) =>
        let pattern := (patterns[index]?.map Pattern.text).getD ""
        success (shown ++ ["case " ++ index.repr ++ ": " ++ pattern] ++
          env.bindings.map bindingLine)

/-! ## All commands -/

def versionText : String := "stoat-patterns 0.1.0"

def helpText : List String :=
  ["Parse and match pattern clauses", "",
    "  parse <PATTERN> [--binding] [-d | --debug]",
    "  match <VALUE> (-p | --pattern) <PATTERN>... [(-s | --subtype) <SUBTYPE>]...",
    "        [--binding] [-d | --debug]"]

def ofRequest : Request → Report
  | .parse source context debug => ofParse source context debug
  | .matching text sources subtypes context debug => ofMatch text sources subtypes context debug
  | .help => success helpText
  | .version => success [versionText]

def ofArguments (arguments : List String) : Report :=
  match Request.ofArguments arguments with
  | some request => ofRequest request
  | none => failed [] .usage

end Report

end PatternClauses
