import PatternClauses.Pattern.Parser

/-!
# Command line arguments

Reading the arguments of the program.  An argument is an option with two dashes, a cluster of
one-letter options behind a single dash, the mark `--` that makes everything after it positional,
or plain.  Where a positional argument that may begin with a dash is still missing, an option that
the command does not have is taken for it.
-/

namespace PatternClauses

/-! ## Single arguments -/

inductive Argument where
  | escape
  | long (name : String) (attached : Option String)
  | cluster (letters : List Char)
  | plain
  deriving DecidableEq

def splitAtEquals (characters : List Char) : String × Option String :=
  match characters.dropWhile (· != '=') with
  | _ :: attached => (String.ofList (characters.takeWhile (· != '=')), some (String.ofList attached))
  | [] => (String.ofList characters, none)

def Argument.ofText (text : String) : Argument :=
  match text.toList with
  | ['-', '-'] => .escape
  | '-' :: '-' :: rest =>
    let (name, attached) := splitAtEquals rest
    .long name attached
  | ['-'] => .plain
  | '-' :: letters => .cluster letters
  | _ => .plain

example : Argument.ofText "--pattern=x" = .long "pattern" (some "x") := by decide +kernel

/-! ## Options -/

/-- What an option does: it is set, takes a value, or ends the reading. -/
inductive OptionKind where
  | flag
  /-- With `anything`, whatever follows is the value, even if it begins with a dash. -/
  | value (anything : Bool)
  | help
  | version
  deriving DecidableEq

structure CommandOption where
  name : String
  letter : Option Char
  kind : OptionKind
  deriving DecidableEq

/-- The options of a command, and whether its positional argument may begin with a dash. -/
structure CommandShape where
  options : List CommandOption
  dashedPositional : Bool

/-- The arguments read so far. -/
structure Given where
  positional : Option String
  flags : List String
  values : List (String × String)

namespace Given

def empty : Given := ⟨none, [], []⟩

def addValue (given : Given) (option : CommandOption) (value : String) : Given :=
  { given with values := given.values ++ [(option.name, value)] }

def valuesOf (given : Given) (name : String) : List String :=
  (given.values.filter (·.1 = name)).map (·.2)

end Given

inductive Reading where
  | given (given : Given)
  | awaiting (given : Given) (option : CommandOption)
  | help
  | version
  | refused

namespace CommandShape

def withName? (shape : CommandShape) (name : String) : Option CommandOption :=
  shape.options.find? (·.name = name)

def withLetter? (shape : CommandShape) (letter : Char) : Option CommandOption :=
  shape.options.find? (·.letter = some letter)

/-- Whether an unknown option would be taken for the positional argument. -/
def awaitsDashed (shape : CommandShape) (given : Given) : Bool :=
  shape.dashedPositional && given.positional.isNone

/-- An argument that begins with a dash but is taken for a positional one. -/
def isDashed (shape : CommandShape) (given : Given) : Argument → Bool
  | .escape | .plain => false
  | .long name _ => shape.awaitsDashed given && (shape.withName? name).isNone
  | .cluster letters =>
    shape.awaitsDashed given && letters.any fun letter => (shape.withLetter? letter).isNone

def takePositional (given : Given) (text : String) : Reading :=
  match given.positional with
  | none => .given { given with positional := some text }
  | some _ => .refused

/-- An option, with the value attached to it if there is one.  No flag may be set twice. -/
def takeOption (given : Given) (option : CommandOption) (attached : Option String) : Reading :=
  match option.kind, attached with
  | .value _, some value => .given (given.addValue option value)
  | .value _, none => .awaiting given option
  | _, some _ => .refused
  | .flag, none =>
    if option.name ∈ given.flags then .refused
    else .given { given with flags := option.name :: given.flags }
  | .help, none => .help
  | .version, none => .version

/-- The letters of a cluster one after another.  What stands behind the letter of an option with a
value is the value; an equals sign before it is left out. -/
def takeCluster (shape : CommandShape) (given : Given) : List Char → Reading
  | [] => .given given
  | letter :: rest =>
    match shape.withLetter? letter with
    | none => .refused
    | some option =>
      match option.kind with
      | .value _ =>
        takeOption given option <| match rest with
          | [] => none
          | '=' :: value => some (String.ofList value)
          | value => some (String.ofList value)
      | _ =>
        match takeOption given option none with
        | .given after => shape.takeCluster after rest
        | reading => reading

def take (shape : CommandShape) (given : Given) (text : String) : Reading :=
  let argument := Argument.ofText text
  if shape.isDashed given argument then takePositional given text
  else match argument with
    | .long name attached =>
      match shape.withName? name with
      | some option => takeOption given option attached
      | none => .refused
    | .cluster letters => shape.takeCluster given letters
    | .escape | .plain => takePositional given text

def canBeValue (shape : CommandShape) (given : Given) (option : CommandOption) (text : String) :
    Bool :=
  let argument := Argument.ofText text
  option.kind = .value true || argument = .plain || shape.isDashed given argument

def read (shape : CommandShape) (given : Given) : List String → Reading
  | [] => .given given
  | text :: rest =>
    if Argument.ofText text = .escape then
      match rest with
      | [] => .given given
      | [last] => takePositional given last
      | _ => .refused
    else match shape.take given text with
      | .given after => shape.read after rest
      | .awaiting after option =>
        match rest with
        | [] => .refused
        | value :: later =>
          if shape.canBeValue after option value then
            shape.read (after.addValue option value) later
          else .refused
      | reading => reading

end CommandShape

/-! ## The commands -/

inductive Request where
  | parse (pattern : String) (context : PatternContext) (debug : Bool)
  | matching (value : String) (patterns subtypes : List String) (context : PatternContext)
    (debug : Bool)
  | help
  | version
  deriving DecidableEq

namespace Request

def helpOption : CommandOption := ⟨"help", some 'h', .help⟩

def bindingOption : CommandOption := ⟨"binding", none, .flag⟩

def debugOption : CommandOption := ⟨"debug", some 'd', .flag⟩

def patternOption : CommandOption := ⟨"pattern", some 'p', .value true⟩

def subtypeOption : CommandOption := ⟨"subtype", some 's', .value false⟩

def topShape : CommandShape where
  options := [helpOption, ⟨"version", some 'V', .version⟩]
  dashedPositional := false

def parseShape : CommandShape where
  options := [bindingOption, debugOption, helpOption]
  dashedPositional := false

def matchShape : CommandShape where
  options := [patternOption, subtypeOption, bindingOption, debugOption, helpOption]
  dashedPositional := true

def contextOf (given : Given) : PatternContext :=
  if bindingOption.name ∈ given.flags then .bindingOnly else .full

def isDebug (given : Given) : Bool := decide (debugOption.name ∈ given.flags)

def ofParseArguments (arguments : List String) : Option Request :=
  match parseShape.read .empty arguments with
  | .given given =>
    given.positional.map fun pattern => .parse pattern (contextOf given) (isDebug given)
  | .help => some .help
  | _ => none

def ofMatchArguments (arguments : List String) : Option Request :=
  match matchShape.read .empty arguments with
  | .given given =>
    let patterns := given.valuesOf patternOption.name
    match given.positional, patterns with
    | some value, _ :: _ =>
      some (.matching value patterns (given.valuesOf subtypeOption.name) (contextOf given)
        (isDebug given))
    | _, _ => none
  | .help => some .help
  | _ => none

def topics : List String := ["parse", "match", "help"]

def ofArguments : List String → Option Request
  | "parse" :: arguments => ofParseArguments arguments
  | "match" :: arguments => ofMatchArguments arguments
  | ["help"] => some .help
  | ["help", topic] => if topic ∈ topics then some .help else none
  | arguments =>
    match topShape.read .empty (arguments.take 1) with
    | .help => some .help
    | .version => some .version
    | _ => none

example : ofArguments ["match", "-3", "-p", "-3"] =
    some (.matching "-3" ["-3"] [] .full false) := by
  decide +kernel

example : ofArguments ["parse", "-1"] = none := by decide +kernel

end Request

end PatternClauses
