import Reckon.Function.Bytewise
import Reckon.Function.Numeric
import Reckon.Function.Random
import Reckon.Function.Textual

/-!
# The functions of the language
-/

namespace Reckon.Callable

/-- A function that computes from its arguments alone. -/
def strict (names : List String) (signature : Signature) (compute : Strict) : Callable :=
  { names, signature, body := .deterministic compute, variadic := false }

/-- A function of two arguments that folds longer argument lists. -/
def folding (names : List String) (signature : Signature) (compute : Strict) : Callable :=
  { names, signature, body := .deterministic compute, variadic := true }

/-- A function that draws random words. -/
def drawing (names : List String) (signature : Signature) (compute : List Value → Eval Value) :
    Callable :=
  { names, signature, body := .volatile compute, variadic := false }

/-- Numbers in, and a number of their kind out. -/
def numericGroup (count : Nat) : Signature :=
  { arguments := List.replicate count .group, group := [.numeric], returns := .group }

/-- The signature of a conditional. -/
def conditionalSignature : Signature :=
  { arguments := [.kind .boolean, .group, .group], group := [], returns := .group }

/-- The signature of a function of the length of a string or a byte array. -/
def lengthSignature : Signature :=
  { arguments := [.group], group := [.string, .byteArray], returns := .kind .integer }

/-- The signature of concatenation. -/
def concatSignature : Signature :=
  { arguments := [.group, .group], group := [.string, .byteArray], returns := .group }

/-- The signature of a function that turns any value into a string. -/
def toTextSignature : Signature :=
  { arguments := [.group], group := [], returns := .kind .string }

/-- Constants and functions of reals. -/
def reals : List Callable :=
  let real (names : List String) (compute : Strict) : Callable :=
    strict names (.fixed [.float] .float) compute
  let pair (names : List String) (compute : Strict) : Callable :=
    strict names (.fixed [.float, .float] .float) compute
  [ strict ["pi"] (.fixed [] .float) (Numeric.constant Real.pi),
    strict ["e"] (.fixed [] .float) (Numeric.constant Real.e),
    strict ["tau"] (.fixed [] .float) (Numeric.constant Real.tau),
    real ["sin"] (Numeric.real Float.sin),
    real ["cos"] (Numeric.real Float.cos),
    real ["tan"] (Numeric.real Float.tan),
    real ["asin"] Numeric.arcsine,
    real ["acos"] Numeric.arccosine,
    real ["atan"] (Numeric.real Float.atan),
    real ["sinh"] (Numeric.real Float.sinh),
    real ["cosh"] (Numeric.real Float.cosh),
    real ["tanh"] (Numeric.real Float.tanh),
    real ["exp"] (Numeric.real Float.exp),
    real ["sqrt"] Numeric.squareRoot,
    real ["ln", "loge"] Numeric.naturalLogarithm,
    real ["log10"] Numeric.commonLogarithm,
    real ["log2"] Numeric.binaryLogarithm,
    pair ["log"] Numeric.logarithm,
    pair ["pow", "power"] (Numeric.real₂ Float.pow),
    pair ["atan2"] (Numeric.real₂ Float.atan2),
    pair ["hypot"] (Numeric.real₂ Real.hypotenuse),
    real ["radians"] (Numeric.real (· * (Real.pi / 180))),
    real ["degrees"] (Numeric.real (· * Real.degreesPerRadian)) ]

/-- Functions of numbers that keep or make integers. -/
def numbers : List Callable :=
  let whole (names : List String) (rounding : Numeric.Rounding) : Callable :=
    strict names (.fixed [.number] .integer) (Numeric.round rounding)
  [ strict ["abs"] (numericGroup 1) Numeric.absolute,
    strict ["sign"] (numericGroup 1) Numeric.sign,
    whole ["floor"] .down,
    whole ["ceil", "ceiling"] .up,
    whole ["round"] .nearest,
    whole ["trunc", "int"] .towardZero,
    strict ["round"] (.fixed [.number, .integer] .float) Numeric.roundToDigits,
    strict ["float"] (.fixed [.number] .float) Numeric.toFloat,
    folding ["min"] (numericGroup 2) (Numeric.extremum .least),
    folding ["max"] (numericGroup 2) (Numeric.extremum .greatest),
    strict ["clamp"] (numericGroup 3) Numeric.clamp ]

/-- Functions of strings. -/
def strings : List Callable :=
  let text (names : List String) (compute : Strict) : Callable :=
    strict names (.fixed [.string] .string) compute
  let test (names : List String) (compute : Strict) : Callable :=
    strict names (.fixed [.string, .string] .boolean) compute
  [ strict ["len", "length"] lengthSignature Textual.length,
    text ["upper", "toupper"] Textual.upper,
    text ["lower", "tolower"] Textual.lower,
    text ["trim"] Textual.trim,
    folding ["concat"] concatSignature Textual.concat,
    test ["contains"] Textual.contains,
    test ["startswith"] Textual.startsWith,
    test ["endswith"] Textual.endsWith,
    strict ["substring", "substr"] (.fixed [.string, .integer, .integer] .string)
      Textual.substring,
    strict ["replace"] (.fixed [.string, .string, .string] .string) Textual.replace,
    strict ["repeat"] (.fixed [.string, .integer] .string) Textual.repetition,
    strict ["str", "string"] toTextSignature Textual.toText,
    strict ["number"] (.fixed [.string] .number) Textual.toNumber ]

/-- Functions of byte arrays. -/
def byteArrays : List Callable :=
  [ strict ["hex"] (.fixed [.byteArray] .string) Bytewise.hex,
    strict ["bytes"] (.fixed [.string] .byteArray) Bytewise.ofString,
    strict ["utf8"] (.fixed [.byteArray] .string) Bytewise.toText,
    strict ["byteat"] (.fixed [.byteArray, .integer] .integer) Bytewise.byteAt ]

/-- Functions that draw. -/
def randoms : List Callable :=
  [ drawing ["random", "rand"] (.fixed [] .float) Random.fraction,
    drawing ["random", "rand"] (.fixed [.integer] .integer) Random.belowBound,
    drawing ["random", "rand"] (.fixed [.integer, .integer] .integer) Random.inRange ]

/-- The choice between two branches. -/
def conditional : Callable :=
  { names := ["if", "iif"]
    signature := conditionalSignature
    body := .conditional
    variadic := false }

/-- Every function of the language. -/
def standard : List Callable :=
  reals ++ numbers ++ strings ++ byteArrays ++ randoms ++ [conditional]

end Reckon.Callable
