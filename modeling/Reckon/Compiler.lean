import Reckon.Formula
import Reckon.Expr.Build
import Reckon.Typing.Inference

/-!
# Compiling expressions

A compiler is a valid grammar and a registry of functions. It cuts a source into symbols, builds
their trees, infers the kinds of the parameters, checks the tree against the signatures of its
operations, and simplifies it.
-/

namespace Reckon

/-- What sources are compiled against. -/
structure Compiler where
  grammar : Grammar
  registry : Registry

namespace Compiler

/-- The compiler for a grammar, if the grammar is valid. -/
def ofGrammar (grammar : Grammar) (registry : Registry) : Except CompileError Compiler := do
  grammar.check
  return { grammar, registry }

/-- The typed tree of an untyped one, with the parameters that it has. -/
def elaborate (tree : Expr) : Except CompileError (Node × Parameters) := do
  let parameters := Parameters.empty.mentionAll tree.parameterNames
  let parameters := (← tree.inferKinds parameters).withDefaults
  let root ← tree.toNode parameters
  return (root, parameters)

/-- The compiled expression of a source. -/
def compile (compiler : Compiler) (source : String) : Except CompileError Formula := do
  let tree ← Expr.parse compiler.grammar compiler.registry source.toList
  let (root, parameters) ← elaborate tree
  return { source, root := root.simplify, parameters := parameters.manifest }

end Compiler

/-- The compiled expression of a source in a grammar, with the functions of the language. -/
def compileIn (grammar : Grammar) (source : String) : Except CompileError Formula := do
  let compiler ← Compiler.ofGrammar grammar Registry.standard
  compiler.compile source

/-- The compiled expression of a source in the standard grammar. -/
def compile (source : String) : Except CompileError Formula :=
  compileIn Grammar.standard source

end Reckon
