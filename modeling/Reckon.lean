import Reckon.Main
import Reckon.Proofs.Expr.Climbing
import Reckon.Proofs.Expr.Inertness
import Reckon.Proofs.Expr.Resolved
import Reckon.Proofs.Formula.Manifest
import Reckon.Proofs.Formula.Rechecking
import Reckon.Proofs.Formula.Soundness
import Reckon.Proofs.Formula.Specialization
import Reckon.Proofs.Tree.Printing
import Reckon.Proofs.Typing.Widest
import Reckon.Proofs.Tree.NormalForm
import Reckon.Proofs.Formula.Folding
import Reckon.Proofs.Source.Termination
import Reckon.Proofs.Signature.Completion
import Reckon.Proofs.Evaluation.Integers
import Reckon.Proofs.Typing.Registration
import Reckon.Proofs.Source.Locating
import Reckon.Proofs.Function.Chaining
import Reckon.Proofs.Function.Drawing
import Reckon.Proofs.Value.Classification
import Reckon.Proofs.Evaluation.Comparison
import Reckon.Proofs.Grammar.Levels
import Reckon.Proofs.Source.ConstantMaps
import Reckon.Proofs.CommandLine.Assignments
import Reckon.Proofs.Source.Numbering
