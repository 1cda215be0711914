import Reckon.Expr.Build
import Reckon.Proofs.Source.Constants
import Reckon.Proofs.Source.Operands

/-!
# How an operand fails

The leaves of a flat expression are the trees of its operands. `Expr.OperandFault` lists all ways in
which an operand has no tree: it names a symbol whose tree is not there yet, it is a literal that
stands for no value, or it is nothing that is known.
-/

namespace Reckon

/-- What is wrong with a literal that stands for no value. -/
inductive SyntaxFault.OfLiteral : SyntaxFault → Prop where
  | integerOutOfRange (digits : Text) : OfLiteral (.integerOutOfRange digits)
  | oddHexDigits (digits : Text) : OfLiteral (.oddHexDigits digits)
  | unknownEscape (c : Char) : OfLiteral (.unknownEscape c)
  | endingBackslash : OfLiteral .endingBackslash

variable {fault : SyntaxFault}

/-- Decoding a string literal fails at an escape. -/
theorem StringLiteral.decodeFrom_eq_error {quote text : Text} {skip : Nat}
    (h : decodeFrom quote skip text = .error fault) : fault.OfLiteral := by
  fun_induction decodeFrom quote skip text with
  | case1 => cases h
  | case2 skip c rest ih => exact ih h
  | case8 c rest =>
      cases h
      exact .unknownEscape c
  | case9 =>
      cases h
      exact .endingBackslash
  | case3 rest hquote ih | case4 rest hquote ih | case5 rest hquote ih | case6 rest hquote ih
  | case7 rest hquote ih => exact ih (map_eq_error.mp h)
  | case10 c rest hc ih => exact ih (map_eq_error.mp h)

/-- Reading a literal fails at digits. -/
theorem Literal.ofText_eq_error {text : Text} (h : ofText text = .error fault) :
    fault.OfLiteral := by
  rw [ofText_eq_ofWord] at h
  unfold ofWord at h
  split at h
  · split at h
    · cases h
    · cases h
      exact .integerOutOfRange _
  · split at h
    · split at h
      · cases h
      · cases h
        exact .oddHexDigits _
    · repeat' split at h
      all_goals cases h

/-- Entering a text fails as its literal does. -/
theorem ConstantTable.enter_eq_error {table : ConstantTable} {text : Text}
    (h : table.enter text = .error fault) : fault.OfLiteral := by
  have henters := table.enters text
  rw [h] at henters
  cases henters with
  | failed hnew hvalue =>
      unfold valueOf? at hvalue
      split at hvalue
      · exact StringLiteral.decodeFrom_eq_error (map_eq_error.mp hvalue)
      · exact Literal.ofText_eq_error (map_eq_error.mp hvalue)

namespace Expr

variable {symbols : SymbolTable} {trees : List Expr} {constants : ConstantTable}

/-- Why an operand has no tree. -/
inductive OperandFault (symbols : SymbolTable) (trees : List Expr) (operand : Text) :
    CompileError → Prop where
  | usedBeforeDefined {id : Nat} (hid : symbols.lookup? operand = some id)
      (hbehind : trees.length ≤ id) :
      OperandFault symbols trees operand (.malformed (.usedBeforeDefined operand))
  | literal {fault : SyntaxFault} (hfault : fault.OfLiteral) :
      OperandFault symbols trees operand (.malformed fault)
  | unrecognized : OperandFault symbols trees operand (.malformed (.unrecognizedOperand operand))

/-- An operand fails in one of these ways. -/
theorem operandFault_of_eq_error {operand : Text} {fault : CompileError}
    (h : ofOperand symbols trees operand constants = .error fault) :
    OperandFault symbols trees operand fault := by
  unfold ofOperand at h
  split at h
  · next id hid =>
      split at h
      · cases h
      · next hnone =>
          cases h
          exact .usedBeforeDefined hid (List.getElem?_eq_none_iff.mp hnone)
  · split at h
    · cases h
    · split at h
      · next henter =>
          cases h
          exact .literal (ConstantTable.enter_eq_error henter)
      · split at h
        · cases h
        · cases h
          exact .unrecognized
      · split at h
        · next hliteral =>
            cases h
            exact .literal (Literal.ofText_eq_error hliteral)
        · cases h
        · cases h
          exact .unrecognized

end Expr

end Reckon
