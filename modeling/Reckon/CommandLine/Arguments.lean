import Reckon.Grammar.Levels

/-!
# Command line arguments

Flags and options come in any order around the one expression. Single letters may be joined behind
one dash; an option takes the rest of its argument, or the next argument if that does not look like
a flag. Behind `--` everything is an expression.

The value of an option counts only when the next argument is understood, so of two faults the later
one may be reported: an unknown flag wins over an option that lacks its value.
-/

namespace Reckon.CommandLine

/-- Why arguments are refused, or what they ask for instead of a run. -/
inductive UsageError where
  | unknownArgument
  | invalidValue
  | tooManyValues
  | argumentConflict
  | missingRequiredArgument
  | displayHelp
  | displayVersion
deriving DecidableEq, Repr

/-- The options that take a value. -/
inductive ValueOption where
  | parameter
  | precedence
deriving DecidableEq, Repr

/-- What an option name stands for. -/
inductive OptionName where
  | describe
  | file
  | functions
  | help
  | version
  | valued (option : ValueOption)
deriving DecidableEq, Repr

/-- What the arguments say. -/
structure Arguments where
  /-- Describe the expression instead of evaluating it. -/
  describe : Bool
  /-- The expression is the path of a file that holds it. -/
  file : Bool
  /-- List the functions. -/
  functions : Bool
  precedence : Option Precedence
  /-- Parameter values in the form `NAME=VALUE`. -/
  parameters : List String
  expression : Option String

/-- Arguments on their way: what is understood, and the option that was read last with its value, if
it has got it. -/
structure Reading where
  arguments : Arguments
  pending : Option (ValueOption × Option String)

namespace OptionName

/-- The option behind one dash. -/
def ofLetter? : Char → Option OptionName
  | 'f' => some .file
  | 'd' => some .describe
  | 'h' => some .help
  | 'V' => some .version
  | 'p' => some (.valued .parameter)
  | _ => none

/-- The option behind two dashes. -/
def ofWord? : String → Option OptionName
  | "file" => some .file
  | "describe" => some .describe
  | "functions" => some .functions
  | "help" => some .help
  | "version" => some .version
  | "param" => some (.valued .parameter)
  | "precedence" => some (.valued .precedence)
  | _ => none

end OptionName

namespace Arguments

/-- No arguments. -/
def empty : Arguments :=
  { describe := false
    file := false
    functions := false
    precedence := none
    parameters := []
    expression := none }

/-- The arguments with the value of an option. A parameter may be given more than once, the
precedence may not. -/
def setValue (arguments : Arguments) (option : ValueOption) (value : String) :
    Except UsageError Arguments :=
  match option with
  | .parameter => .ok { arguments with parameters := arguments.parameters ++ [value] }
  | .precedence =>
    if arguments.precedence.isSome then
      .error .argumentConflict
    else
      match value with
      | "lower" => .ok { arguments with precedence := some .lowerBindsTighter }
      | "higher" => .ok { arguments with precedence := some .higherBindsTighter }
      | _ => .error .invalidValue

/-- The arguments with a flag. A flag may not be given more than once. -/
def setFlag (arguments : Arguments) (name : OptionName) : Except UsageError Arguments :=
  let once (given : Bool) (result : Arguments) : Except UsageError Arguments :=
    if given then .error .argumentConflict else .ok result
  match name with
  | .describe => once arguments.describe { arguments with describe := true }
  | .file => once arguments.file { arguments with file := true }
  | .functions => once arguments.functions { arguments with functions := true }
  | .help => .error .displayHelp
  | .version => .error .displayVersion
  | .valued _ => .error .invalidValue

end Arguments

namespace Reading

/-- The pending option takes effect; by now it must have a value. -/
def settle (reading : Reading) : Except UsageError Arguments :=
  match reading.pending with
  | none => .ok reading.arguments
  | some (_, none) => .error .invalidValue
  | some (option, some value) => reading.arguments.setValue option value

/-- The reading with a flag. -/
def flag (reading : Reading) (name : OptionName) : Except UsageError Reading := do
  let arguments ← reading.settle
  return ⟨← arguments.setFlag name, none⟩

/-- The reading with an option and the value attached to it, or waiting for a value. -/
def valued (reading : Reading) (option : ValueOption) (attached : Option String) :
    Except UsageError Reading := do
  let arguments ← reading.settle
  match attached with
  | some value => return ⟨← arguments.setValue option value, none⟩
  | none => return ⟨arguments, some (option, none)⟩

/-- The value attached to a letter: what follows it, without an equals sign in front. -/
def attached? : List Char → Option String
  | [] => none
  | '=' :: rest => some (String.ofList rest)
  | rest => some (String.ofList rest)

/-- The reading with letters that stand behind one dash. -/
def letters (reading : Reading) : List Char → Except UsageError Reading
  | [] => .ok reading
  | c :: rest =>
    match OptionName.ofLetter? c with
    | none => .error .unknownArgument
    | some (.valued option) => reading.valued option (attached? rest)
    | some name => do
      let reading ← reading.flag name
      reading.letters rest

/-- The reading with a word that stands behind two dashes, and the value attached to it. -/
def word (reading : Reading) (text : List Char) : Except UsageError Reading :=
  let name := text.takeWhile (· != '=')
  let value := match text.dropWhile (· != '=') with
    | [] => none
    | _ :: value => some (String.ofList value)
  match OptionName.ofWord? (String.ofList name) with
  | none => .error .unknownArgument
  | some (.valued option) => reading.valued option value
  | some name => if value.isSome then .error .tooManyValues else reading.flag name

/-- The reading with an expression. There is only one. -/
def positional (reading : Reading) (text : String) : Except UsageError Reading :=
  if reading.arguments.expression.isSome then
    .error .unknownArgument
  else do
    let arguments ← reading.settle
    return ⟨{ arguments with expression := some text }, none⟩

/-- The reading with an argument that is no flag: the value that an option waits for, or an
expression. -/
def plain (reading : Reading) (text : String) : Except UsageError Reading :=
  match reading.pending with
  | some (option, none) => .ok { reading with pending := some (option, some text) }
  | _ => reading.positional text

/-- The reading with one argument. -/
def argument (reading : Reading) (text : String) : Except UsageError Reading :=
  match text.toList with
  | '-' :: '-' :: word => reading.word word
  | ['-'] => reading.plain text
  | '-' :: letters => reading.letters letters
  | _ => reading.plain text

/-- Read arguments in order; behind `--` they are expressions. -/
def all (reading : Reading) : List String → Except UsageError Reading
  | [] => .ok reading
  | text :: rest =>
    if text = "--" then
      rest.foldlM positional reading
    else do
      let reading ← reading.argument text
      reading.all rest

end Reading

/-- The arguments of a command line. An expression is needed unless the functions are to be listed.
-/
def Arguments.read (texts : List String) : Except UsageError Arguments := do
  let reading ← (⟨Arguments.empty, none⟩ : Reading).all texts
  let arguments ← reading.settle
  if arguments.expression.isNone && !arguments.functions then
    throw .missingRequiredArgument
  return arguments

end Reckon.CommandLine
