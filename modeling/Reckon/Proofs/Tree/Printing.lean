import Reckon.Node.Printer
import Reckon.Proofs.Expr.Operand
import Reckon.Proofs.Function.Standard
import Reckon.Proofs.Text.Quoting
import Reckon.Proofs.Tree.Typed
import Reckon.Proofs.Value.Literals

/-!
# Printing is undone by parsing

The text of a built tree is parsed to the tree without kinds (`Node.parse_display`), if its
parameters have names and its constants have values that a source can spell. Every subtree is
printed as an operand, so the proof follows the printer: leaves are words or string literals, and an
operation over operands is an operand.
-/

namespace Reckon

open Sketch (Operand Extracts Becomes)

/-- The text is an ASCII identifier: a letter or an underscore, and then letters, digits and
underscores. -/
def Text.isIdentifier : Text → Bool
  | [] => false
  | c :: rest => (c.isAlpha || c == '_') && rest.all fun c => c.isAlphanum || c == '_'

namespace Text

/-- The characters of identifiers are ASCII characters. -/
theorem toNat_lt_of_isAlphanum {c : Char} (h : (c.isAlphanum || c == '_') = true) :
    c.toNat < 128 := by
  have hranges : ((decide ('A'.val ≤ c.val ∧ c.val ≤ 'Z'.val) ||
      ('a'.val ≤ c.val && c.val ≤ 'z'.val) || ('0'.val ≤ c.val && c.val ≤ '9'.val)) ||
      c == '_') = true := h
  simp only [Bool.or_eq_true, Bool.and_eq_true, decide_eq_true_eq, beq_iff_eq,
    UInt32.le_iff_toNat_le] at hranges
  show c.val.toNat < 128
  rcases hranges with ((⟨-, h⟩ | ⟨-, h⟩) | ⟨-, h⟩) | rfl
  · exact Nat.lt_of_le_of_lt h (by decide)
  · exact Nat.lt_of_le_of_lt h (by decide)
  · exact Nat.lt_of_le_of_lt h (by decide)
  · decide

theorem classes_of_isAlphanum {c : Char} (h : (c.isAlphanum || c == '_') = true) :
    isWordChar c = true ∧ Literal.isNamePart c = true :=
  Unicode.forall_ascii (P := fun c => (c.isAlphanum || c == '_') = true →
    isWordChar c = true ∧ Literal.isNamePart c = true) (by decide)
    (toNat_lt_of_isAlphanum h) h

theorem isNameStart_of_isAlpha {c : Char} (h : (c.isAlpha || c == '_') = true) :
    (c.isAlphanum || c == '_') = true ∧ Literal.isNameStart c = true := by
  have hpart : (c.isAlphanum || c == '_') = true := by
    rw [Bool.or_eq_true] at h ⊢
    exact h.imp_left fun h => by rw [Char.isAlphanum, h, Bool.true_or]
  exact ⟨hpart, Unicode.forall_ascii (P := fun c => (c.isAlpha || c == '_') = true →
    Literal.isNameStart c = true) (by decide) (toNat_lt_of_isAlphanum hpart) h⟩

variable {text : Text}

/-- An identifier is a word. -/
theorem isWord_of_isIdentifier (h : isIdentifier text = true) : isWord text = true := by
  cases text with
  | nil => cases h
  | cons c rest =>
      rw [isIdentifier, Bool.and_eq_true, List.all_eq_true] at h
      rw [isWord, List.all_cons, Bool.and_eq_true, Bool.and_eq_true, List.all_eq_true]
      exact ⟨rfl, (classes_of_isAlphanum (isNameStart_of_isAlpha h.1).1).1,
        fun d hd => (classes_of_isAlphanum (h.2 d hd)).1⟩

theorem isName_of_isIdentifier (h : isIdentifier text = true) : Literal.isName text = true := by
  cases text with
  | nil => cases h
  | cons c rest =>
      rw [isIdentifier, Bool.and_eq_true, List.all_eq_true] at h
      rw [Literal.isName, Bool.and_eq_true, List.all_eq_true]
      exact ⟨(isNameStart_of_isAlpha h.1).2, fun d hd => (classes_of_isAlphanum (h.2 d hd)).2⟩

end Text

/-- The identifiers that stand for something other than a parameter. -/
def Text.reserved : List Text :=
  ["true".toList, "false".toList, "and".toList, "or".toList, "xor".toList, "not".toList]

/-- A source can spell the value: an integer that is not negative, a string of characters that
string literals can spell, a truth value, or bytes. -/
def Value.IsSpelled : Value → Prop
  | .integer i => 0 ≤ i.toInt
  | .float _ => False
  | .string s => ∀ c ∈ s.toList, Text.isSpelled c = true
  | .boolean _ => True
  | .byteArray _ => True

namespace Node

mutual
/-- The tree without kinds and slots, its constants with the texts that they are written as. -/
def untyped : Node → Expr
  | constant c => .constant ⟨c.value, some (writeConstant c)⟩
  | parameter p => .parameter p.name
  | operation op children _ => .operation op (untypedAll children)

/-- The trees of a list without kinds. -/
def untypedAll : List Node → List Expr
  | [] => []
  | child :: children => untyped child :: untypedAll children
end

theorem untypedAll_eq_map (children : List Node) : untypedAll children = children.map untyped := by
  induction children with
  | nil => rfl
  | cons child children ih => rw [untypedAll, ih, List.map_cons]

/-- Trees are written one by one, with commas between them. -/
theorem writeAll_eq_intercalate (children : List Node) :
    writeAll children = List.intercalate [',', ' '] (children.map write) := by
  induction children with
  | nil => rfl
  | cons child children ih =>
      cases children with
      | nil => simp [writeAll]
      | cons second children =>
          rw [writeAll, ih, List.map_cons, List.map_cons, List.map_cons, List.intercalate_cons_cons]
          · simp
          · simp

theorem length_of_build {op : Operation} {children : List Node} {node : Node}
    (h : build op children = .ok node) : children.length = op.arity := by
  unfold build at h
  split at h
  · cases h
  · next hcount => exact not_not.mp hcount

/-- A call is written as the name and the arguments in parentheses. -/
theorem write_call (function : Callable) (children : List Node) (kind : Kind) :
    write (.operation (.call function) children kind) =
      function.name.toList ++
        '(' :: (List.intercalate [',', ' '] (children.map write) ++ [')']) := by
  rw [← writeAll_eq_intercalate, write]
  · simp [Operation.name]
  · nofun
  · nofun

end Node

theorem token_ne_of_word {word : Text} (hword : Text.isWord word = true)
    (h : word ∉ Grammar.standard.wordTokens) :
    ∀ operator ∈ Grammar.standard.operatorTokens, operator.token ≠ word := by
  have htokens : ∀ operator ∈ Grammar.standard.operatorTokens,
      operator.token ∈ Grammar.standard.tokens := by decide
  rintro operator hoperator rfl
  exact h (List.mem_filter.mpr ⟨htokens operator hoperator, hword⟩)

/-- The name of a function of the language can be called. -/
theorem functionName_of_standard {function : Callable} (h : function ∈ Callable.standard) :
    FunctionName function.name.toList := by
  have hnames : ∀ function ∈ Callable.standard,
      function.name.toList.all Text.isWordChar = true ∧
        function.name.toList.head?.any Unicode.isAlphabetic = true ∧
        function.name.toList ∉ Grammar.standard.wordTokens := by decide
  obtain ⟨hword, hhead, hoperator⟩ := hnames function h
  exact ⟨List.all_eq_true.mp hword, hhead, hoperator⟩

namespace Sketch.Operand

variable {registry : Registry} {word : Text}

/-- A word that is a literal, and no operator, is an operand. -/
theorem of_literal (registry : Registry) (hword : Text.isWord word = true)
    (hoperator : word ∉ Grammar.standard.wordTokens) {literal : Literal} {value : Value}
    (hliteral : Literal.ofWord word = .ok (some literal)) (hvalue : literal.value? = some value) :
    Operand registry word (.constant ⟨value, some word⟩) := by
  refine .of_word registry hword (token_ne_of_word hword hoperator) ?_
  rw [Text.isWord, Bool.and_eq_true, List.all_eq_true] at hword
  rw [Expr.ofLeaf?, Literal.ofText_of_word hword.2, hliteral]
  cases literal with
  | name => cases hvalue
  | _ => simp only [hvalue, Option.map_some]

/-- A literal that starts with a digit is an operand. -/
theorem of_number (registry : Registry) (hword : Text.isWord word = true)
    (hdigit : word.head?.any Decimal.isDigit = true) {literal : Literal} {value : Value}
    (hliteral : Literal.ofWord word = .ok (some literal)) (hvalue : literal.value? = some value) :
    Operand registry word (.constant ⟨value, some word⟩) := by
  refine of_literal registry hword (fun hmem => ?_) hliteral hvalue
  have hwords : ∀ token ∈ Grammar.standard.wordTokens,
      token.head?.any Decimal.isDigit = false := by decide
  rw [hwords word hmem] at hdigit
  cases hdigit

/-- An identifier that is not reserved is an operand: the parameter of that name. -/
theorem of_identifier (registry : Registry) (hname : Text.isIdentifier word = true)
    (hreserved : word ∉ Text.reserved) :
    Operand registry word (.parameter (String.ofList word)) := by
  have hnone : word ∉ Grammar.standard.wordTokens := by
    have hwords : ∀ token ∈ Grammar.standard.wordTokens, token ∈ Text.reserved := by
      decide
    exact fun hmem => hreserved (hwords word hmem)
  have hword := Text.isWord_of_isIdentifier hname
  have hliteral : Literal.ofWord word = .ok (some (.name word)) := by
    refine Literal.ofWord_name (Text.isName_of_isIdentifier hname) ?_ ?_
    · rintro rfl
      exact hreserved (.head _)
    · rintro rfl
      exact hreserved (.tail _ (.head _))
  refine .of_word registry hword (token_ne_of_word hword hnone) ?_
  have hchars : ∀ c ∈ word, Text.isWordChar c = true := by
    rw [Text.isWord, Bool.and_eq_true, List.all_eq_true] at hword
    exact hword.2
  rw [Expr.ofLeaf?, Literal.ofText_of_word hchars, hliteral]

/-- A quoted text is an operand: the constant of the text. -/
theorem of_quoted (registry : Registry) {text : Text} (h : ∀ c ∈ text, Text.isSpelled c = true) :
    Operand registry (Text.quoted text)
      (.constant ⟨.string (String.ofList text), some (Text.quoted text)⟩) := by
  have hbefore : '"' ∉ ([] : Text) := List.not_mem_nil
  have hextracts := Extracts.literal hbefore (StringLiteral.split_escaped h [])
    (StringLiteral.decode_escaped h) (.plain [] hbefore)
  exact Becomes.operand ⟨_, hextracts, .refl⟩

/-- A call of a function of the language over operands, as many as it takes, is an operand. -/
theorem call {sources : List Text} {trees : List Expr}
    (harguments : List.Forall₂ (Operand Registry.standard) sources trees) {function : Callable}
    (h : function ∈ Callable.standard) (hcount : trees.length = function.arity) :
    Operand Registry.standard
      (function.name.toList ++ '(' :: (List.intercalate [',', ' '] sources ++ [')']))
      (.operation (.call function) trees) := by
  have hname := functionName_of_standard h
  have hresolve : Registry.standard.resolve (String.ofList function.name.toList) trees.length =
      .ok ⟨function, function.arity, .inl rfl⟩ := by
    rw [String.ofList_toList, hcount]
    exact Registry.resolve_standard h
  have hbuild : ResolvedCall.build ⟨function, function.arity, .inl rfl⟩ trees
      (fun op arguments => .ok (.operation op arguments)) =
        .ok (.operation (.call function) trees) :=
    ResolvedCall.buildM_of_arity hcount rfl
  have hderives := harguments.imp fun _ _ hargument => hargument.derives
  exact (Derives.becomes_call hderives hname hresolve hbuild).operand

end Sketch.Operand

namespace Node

variable {node : Node}

/-- A constant that a source can spell is written as an operand. -/
theorem operand_constant {c : Constant} (h : c.value.IsSpelled) :
    Operand Registry.standard (write (.constant c)) (untyped (.constant c)) := by
  obtain ⟨value, literal⟩ := c
  rw [untyped, write, writeConstant]
  cases value with
  | float x => exact absurd h id
  | string s =>
      have hquoted := Operand.of_quoted Registry.standard h
      rwa [String.ofList_toList] at hquoted
  | integer i =>
      have hwrite : (Value.integer i).write = Nat.toDigits 10 i.toInt.natAbs :=
        if_neg (Int.not_lt.mpr h)
      have hdigits := Decimal.isDigits_toDigits i.toInt.natAbs
      show Operand _ (Value.integer i).write (.constant ⟨_, some (Value.integer i).write⟩)
      rw [hwrite]
      refine .of_number _ (Decimal.isWord_of_isDigits hdigits) (Decimal.head_of_isDigits hdigits)
        (Literal.ofWord_integer h) ?_
      rw [Literal.value?, Decimal.readInt64_toDigits h, Option.map_some]
  | boolean b =>
      show Operand _ (Value.boolean b).write (.constant ⟨_, some (Value.boolean b).write⟩)
      refine .of_literal _ ?_ ?_ (Literal.ofWord_boolean b) rfl
      · cases b <;> decide
      · cases b <;> decide
  | byteArray bytes =>
      refine .of_number _ (Hex.isWord_encode bytes) rfl (Literal.ofWord_bytes bytes) ?_
      rw [Literal.value?, Hex.decode_encode, Option.map_some]

/-- A built tree is written as an operand. -/
theorem operand_write (hbuilt : node.Built (Operation.From Registry.standard))
    (hnames : ∀ p, .parameter p ∈ node.nodes →
      Text.isIdentifier p.name.toList = true ∧ p.name.toList ∉ Text.reserved)
    (hconstants : ∀ c, .constant c ∈ node.nodes → c.value.IsSpelled) :
    Operand Registry.standard node.write node.untyped := by
  induction hbuilt with
  | constant c => exact operand_constant (hconstants c (.head _))
  | parameter p =>
      obtain ⟨hname, hreserved⟩ := hnames p (.head _)
      have hoperand := Operand.of_identifier Registry.standard hname hreserved
      rwa [String.ofList_toList] at hoperand
  | @operation op children node hop hchildren hbuild ih =>
      have hcount := length_of_build hbuild
      obtain ⟨result, -, rfl⟩ := build_eq_ok hbuild
      have hoperands : ∀ child ∈ children, Operand Registry.standard child.write child.untyped := by
        intro child hchild
        refine ih child hchild (fun p hp => hnames p ?_) (fun c hc => hconstants c ?_)
        · exact .tail _ (mem_nodesOfAll.mpr ⟨child, hchild, hp⟩)
        · exact .tail _ (mem_nodesOfAll.mpr ⟨child, hchild, hc⟩)
      cases hop with
      | unary operator =>
          have hone : children.length = 1 := by
            rw [hcount]
            cases operator <;> rfl
          obtain ⟨operand, rfl⟩ := List.length_eq_one_iff.mp hone
          exact (hoperands operand (.head _)).unary operator
      | binary operator =>
          have htwo : children.length = 2 := by
            rw [hcount]
            cases operator <;> rfl
          obtain ⟨left, right, rfl⟩ := List.length_eq_two.mp htwo
          have htoken : ∃ entry ∈ Grammar.standard.operators.tokens, entry.2 = operator.token := by
            cases operator <;> decide
          have hop : BinaryOperator.ofToken? operator.token = some operator := by
            cases operator <;> rfl
          obtain ⟨⟨level, token⟩, hmem, rfl⟩ := htoken
          have hoperand := (hoperands left (.head _)).binary (hoperands right (.tail _ (.head _)))
            hmem hop
          simpa [write, untyped, untypedAll] using hoperand
      | @call key function h =>
          have harguments : List.Forall₂ (Operand Registry.standard) (children.map write)
              (children.map untyped) := by
            rw [List.forall₂_map_left_iff, List.forall₂_map_right_iff, List.forall₂_same]
            exact hoperands
          rw [write_call, untyped, untypedAll_eq_map]
          exact Operand.call harguments (Registry.mem_standard h)
            (by rw [List.length_map, hcount]; rfl)

/-- Printing is undone by parsing: the text of a tree built from the operators and the functions of
the language is parsed to that tree without its kinds, if its parameters are ASCII identifiers that
are not reserved and a source can spell its constants. -/
theorem parse_display {node : Node} (hbuilt : node.Built (Operation.From Registry.standard))
    (hnames : ∀ p, .parameter p ∈ node.nodes →
      Text.isIdentifier p.name.toList = true ∧ p.name.toList ∉ Text.reserved)
    (hconstants : ∀ c, .constant c ∈ node.nodes → c.value.IsSpelled) :
    Expr.parse Grammar.standard Registry.standard node.display.toList = .ok node.untyped := by
  rw [display, String.toList_ofList]
  exact Expr.parse_iff.mpr (operand_write hbuilt hnames hconstants).derives

/-- The law at a tree with prefix operators in a row, a call and a quoted string. -/
theorem parse_display_comparison :
    ∃ node : Node, node.display = "not (--x < len(\"\\\"a\\n\"))" ∧
      Expr.parse Grammar.standard Registry.standard node.display.toList = .ok node.untyped := by
  have hfunction : Callable.strict ["len", "length"] Callable.lengthSignature Textual.length ∈
      Callable.standard := by simp [Callable.standard, Callable.strings]
  have hx : (parameter ⟨"x", none, 0⟩).Built (Operation.From Registry.standard) := .parameter _
  have htext : (constant (.computed (.string "\"a\n"))).Built (Operation.From Registry.standard) :=
    .constant _
  have hlisted := Registry.name_mem_standard hfunction
  have hlength := Built.operation (.call hlisted) (List.forall_mem_singleton.mpr htext) rfl
  have hnegated := Built.operation (.unary .negate) (List.forall_mem_singleton.mpr hx) rfl
  have htwice := Built.operation (.unary .negate) (List.forall_mem_singleton.mpr hnegated) rfl
  have hless := Built.operation (.binary .less)
    (List.forall_mem_cons.mpr ⟨htwice, List.forall_mem_singleton.mpr hlength⟩) rfl
  have hnot := Built.operation (.unary .not) (List.forall_mem_singleton.mpr hless) rfl
  refine ⟨_, ?_, parse_display hnot ?_ ?_⟩
  · decide +kernel
  · intro p hp
    have hp : p = ⟨"x", none, 0⟩ := by simpa [nodes, nodesOfAll] using hp
    rw [hp]
    decide
  · intro c hc
    have hc : c = .computed (.string "\"a\n") := by simpa [nodes, nodesOfAll] using hc
    rw [hc]
    exact List.all_eq_true.mp (by decide)

end Node

end Reckon
