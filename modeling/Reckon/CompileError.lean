import Reckon.Signature
import Reckon.Value.Basic

/-!
# Compile errors

Why a source does not compile, or why a grammar cannot be compiled against. Errors are kept as
causes; `CompileError.message` is the one place where they are put into words.
-/

namespace Reckon

/-- The punctuation of a grammar. -/
inductive Punctuation where
  | opening
  | closing
  | separator
  | quote

/-- What is wrong with a text or with a grammar. -/
inductive SyntaxFault where
  -- grammars
  | badPunctuation (role : Punctuation) (text : Text)
  | sameParentheses
  | emptyToken
  | mixedToken (token : Text)
  -- literals
  | integerOutOfRange (digits : Text)
  | oddHexDigits (digits : Text)
  | unknownEscape (c : Char)
  | endingBackslash
  | unterminatedString (rest : Text)
  | invalidString (literal : Text)
  -- parentheses and calls
  | unmatched (parenthesis : Text)
  | calledNoName
  | emptyArgument (function : Text)
  | emptyGroup (opening closing : Text)
  | emptyOperand (group : Text)
  | straySeparator (separator : Text)
  | emptyExpression
  -- operators and operands
  | missingOperator (operand : Text)
  | missingLeftOperand (token : Text)
  | cannotFollowOperand (token : Text)
  | missingRightOperand (token : Text)
  | missingOperand (operator : Text)
  | malformedExpression (text : Text)
  | unrecognizedOperand (operand : Text)
  | usedBeforeDefined (name : Text)
  | unresolvedArgument (function : Text)
  | unregisteredParameter (name : String)

/-- Usages that ask for incompatible kinds. -/
inductive TypeConflict where
  /-- Operands that an operation does not take. -/
  | operands (operation : String) (fault : SignatureFault)
  /-- A parameter that two usages disagree about. -/
  | parameter (name : String) (current required : Kind)
  /-- A constant where another kind is needed. -/
  | constant (value : Value) (required : Kind)

/-- Why a source does not compile. -/
inductive CompileError where
  | malformed (fault : SyntaxFault)
  /-- No function has this name, or no operator this token. -/
  | unknownSymbol (name : String) (arity : Nat)
  | typeConflict (conflict : TypeConflict)
  /-- The function takes other numbers of arguments. -/
  | wrongArity (name : String) (expected : List Nat) (found : Nat)

namespace Punctuation

/-- The punctuation in words. -/
def describe : Punctuation → String
  | .opening => "opening parenthesis"
  | .closing => "closing parenthesis"
  | .separator => "separator"
  | .quote => "string delimiter"

end Punctuation

namespace SyntaxFault

/-- The fault as a text. -/
def write : SyntaxFault → Text
  | .badPunctuation role text =>
    "invalid ".toList ++ role.describe.toList ++ " '".toList ++ text ++ "' in grammar".toList
  | .sameParentheses => "parentheses must differ".toList
  | .emptyToken => "empty operator token in grammar".toList
  | .mixedToken token =>
    "operator token '".toList ++ token ++ "' mixes names and symbols".toList
  | .integerOutOfRange digits =>
    "integer literal ".toList ++ digits ++ " is out of range".toList
  | .oddHexDigits digits =>
    "byte array literal 0x".toList ++ digits ++ " has an odd number of digits".toList
  | .unknownEscape c => "unknown escape '\\".toList ++ c :: "' in string literal".toList
  | .endingBackslash => "string literal ends with a backslash".toList
  | .unterminatedString rest => "unterminated string literal ".toList ++ rest
  | .invalidString literal => "invalid string literal ".toList ++ literal
  | .unmatched parenthesis => "unmatched '".toList ++ parenthesis ++ ['\'']
  | .calledNoName => "only names can be called".toList
  | .emptyArgument function => "empty argument in call of '".toList ++ function ++ ['\'']
  | .emptyGroup opening closing => "empty ".toList ++ opening ++ closing
  | .emptyOperand group => "empty operand in '".toList ++ group ++ ['\'']
  | .straySeparator separator => '\'' :: separator ++ "' outside of a function call".toList
  | .emptyExpression => "empty expression".toList
  | .missingOperator operand => "missing operator before '".toList ++ operand ++ ['\'']
  | .missingLeftOperand token => '\'' :: token ++ "' is missing its left operand".toList
  | .cannotFollowOperand token => '\'' :: token ++ "' cannot follow an operand".toList
  | .missingRightOperand token => '\'' :: token ++ "' is missing its right operand".toList
  | .missingOperand operator => '\'' :: operator ++ "' is missing an operand".toList
  | .malformedExpression text => "malformed expression '".toList ++ text ++ ['\'']
  | .unrecognizedOperand operand => "unrecognized operand '".toList ++ operand ++ ['\'']
  | .usedBeforeDefined name => '\'' :: name ++ "' is used before it is defined".toList
  | .unresolvedArgument function =>
    "call of '".toList ++ function ++ "' refers to an unresolved argument".toList
  | .unregisteredParameter name =>
    "parameter '".toList ++ name.toList ++ "' was never registered".toList

/-- The fault in words. -/
def describe (fault : SyntaxFault) : String :=
  String.ofList fault.write

end SyntaxFault

namespace TypeConflict

/-- The conflict in words. -/
def describe : TypeConflict → String
  | .operands operation fault => s!"'{operation}': {fault.describe}"
  | .parameter name current required =>
    s!"parameter '{name}' is used as {current.name} and as {required.name}"
  | .constant value required =>
    s!"{value.kind.name} constant {value.display} where {required.name} is required"

end TypeConflict

/-- Numbers of arguments as a choice: commas, and "or" before the last. -/
def choiceOf (arities : List Nat) : String :=
  match arities.reverse with
  | [] => "no"
  | [single] => s!"{single}"
  | last :: others => ", ".intercalate (others.reverse.map fun n => s!"{n}") ++ s!" or {last}"

namespace CompileError

/-- The error in words. -/
def message : CompileError → String
  | .malformed fault => s!"Syntax error: {fault.describe}."
  | .unknownSymbol name arity => s!"Unknown symbol '{name}' with {arity} argument(s)."
  | .typeConflict conflict => s!"Type conflict: {conflict.describe}."
  | .wrongArity name expected found =>
    s!"Function '{name}' takes {choiceOf expected} argument(s), but {found} were supplied."

end CompileError

end Reckon
