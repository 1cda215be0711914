import Reckon.CommandLine.Arguments
import Reckon.Compiler
import Reckon.Value.Reading

/-!
# Running a command line

One run lists the functions, describes an expression, or evaluates it for the parameter values
given. A failure is the text that tells of it.
-/

namespace Reckon.CommandLine

/-- Why a file that does not exist cannot be read. -/
def noSuchFile : String :=
  "No such file or directory (os error 2)"

/-- Lines of output. -/
def unlines (lines : List String) : String :=
  String.join (lines.map (· ++ "\n"))

/-- Each function name with the numbers of arguments that it takes. -/
def functionLines (registry : Registry) : List String :=
  registry.names.map fun name =>
    let arities := ", ".intercalate ((registry.arities name).map fun n => s!"{n}")
    s!"{name} ({arities})"

/-- The simplified tree, the kind of the result and the parameters. -/
def descriptionLines (expression : Formula) : List String :=
  [s!"tree:    {expression.display}", s!"returns: {expression.kind.name}"] ++
    expression.parameters.map fun parameter =>
      s!"param:   {parameter.name} : {parameter.kind.name}"

/-- The binding that a text `NAME=VALUE` gives to a parameter of an expression. -/
def readBinding (expression : Formula) (text : String) :
    Except String (String × Value) := do
  let some (name, value) := Text.splitFirst ['='] text.toList
    | throw s!"Parameter '{text}' is not of the form NAME=VALUE"
  let name := String.ofList (Text.trim name)
  let some parameter := expression.parameters.find? (·.name == name)
    | throw s!"The expression has no parameter '{name}'"
  let kind := parameter.kind
  match Value.read? kind value with
  | some value => return (name, value)
  | none => throw s!"'{String.ofList value}' is not a valid {kind.name} for '{name}'"

/-- The bindings that texts `NAME=VALUE` give; of two for one name the later counts. -/
def readBindings (expression : Formula) (texts : List String) :
    Except String Bindings := do
  let pairs ← texts.mapM (readBinding expression)
  return Bindings.ofList pairs

/-- The source that the arguments name: the expression itself, or the contents of the file that it
is the path of. -/
def readSource (arguments : Arguments) (contents : String → Except String String) :
    Except String String :=
  match arguments.expression with
  | none => .error "No expression given"
  | some expression =>
    if arguments.file then
      (contents expression).mapError fun reason =>
        s!"Failed to read the input file '{expression}': {reason}"
    else
      .ok expression

/-- The output of a run. `contents` gives the contents of files, and `draws` the random words. -/
def run (arguments : Arguments) (contents : String → Except String String) (draws : Draws) :
    Except String String := do
  if arguments.functions then
    return unlines (functionLines Registry.standard)
  let source ← readSource arguments contents
  let precedence := arguments.precedence.getD .lowerBindsTighter
  let grammar := { Grammar.standard with precedence }
  let source := String.ofList (Text.trim source.toList)
  let expression ← (compileIn grammar source).mapError (·.message)
  if arguments.describe then
    return unlines (descriptionLines expression)
  let bindings ← readBindings expression arguments.parameters
  let value ← ((expression.evaluate bindings).outcome draws).mapError (·.message)
  return unlines [value.display]

end Reckon.CommandLine
