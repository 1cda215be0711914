import Reckon.Proofs.Expr.Operations
import Reckon.Proofs.Expr.Tokens

/-!
# Parsing is compositional

Sources with trees can be put into groups, between operators and into calls, and the tree of the
whole is made of their trees (`parse_composed`). Each source is rewritten behind the fence that its
opening parenthesis or its separator is, so it makes the steps that it makes on its own; what its
names are in the larger source makes no difference.
-/

namespace Reckon

open Sketch (Extracts Steps Step Flat Fence Head Innermost)

/-- A word that can be called: it starts with a letter and is no operator. -/
structure FunctionName (name : Text) : Prop where
  word : ∀ c ∈ name, Text.isWordChar c = true
  head : name.head?.any Unicode.isAlphabetic = true
  operator : name ∉ Grammar.standard.wordTokens

namespace Sketch

variable {registry : Registry} {sketch last front before : Sketch} {name : Text} {tree : Expr}

theorem isChar_of_flat (h : Flat sketch) : ∀ atom ∈ sketch, atom.isChar ',' = false := by
  intro atom hatom
  cases hcomma : atom.isChar ',' with
  | false => rfl
  | true => exact absurd (Atom.eq_of_isChar hcomma ▸ hatom) h.separator

theorem operands_of_flat (h : Flat sketch) : sketch.operands = [sketch] :=
  List.splitOnP_eq_singleton (isChar_of_flat h)

theorem fence_opening (h : .char ')' ∉ front) : Fence (front ++ [.char '(']) := by
  refine ⟨⟨front, '(', [], rfl, by decide, by decide, rfl⟩, ?_⟩
  rw [List.mem_append, List.mem_singleton]
  rintro (hmem | heq)
  · exact h hmem
  · cases heq

/-- A group that nothing calls becomes its tree. -/
theorem Steps.group (hhead : Head front before name) (hname : isCallable name = false)
    (hfront : .char ')' ∉ front) (hsteps : Steps registry sketch last) (hflat : Flat last)
    (hread : last.read Grammar.standard = some tree) (behind : Sketch) :
    Steps registry (front ++ .char '(' :: (sketch ++ .char ')' :: behind))
      (front ++ .char ' ' :: .tree (some tree) :: .char ' ' :: behind) := by
  have hinside := hsteps.frame (fence_opening hfront).guard (.char ')' :: behind)
  rw [List.append_assoc, List.append_assoc] at hinside
  have hoperands := operands_of_flat hflat
  have hblank : ∀ piece ∈ last.operands, piece.isBlank = false := by
    rw [hoperands]
    exact List.forall_mem_singleton.mpr (isBlank_of_read hread)
  have hstep : Step registry _ _ :=
    .group behind ⟨hfront, hflat.closing, hflat.opening⟩ hhead hname hblank
  rw [hoperands, List.map_singleton, hread] at hstep
  exact hinside.tail hstep

/-- Rewriting leaves nothing of the source but its tree. -/
def Becomes (registry : Registry) (source : Text) (tree : Expr) : Prop :=
  ∃ sketch, Extracts source sketch ∧
    Steps registry sketch [.char ' ', .tree (some tree), .char ' ']

theorem flat_tree (tree : Expr) : Flat [.char ' ', .tree (some tree), .char ' '] :=
  ⟨by simp, by simp, by simp⟩

theorem Becomes.derives {source : Text} (h : Becomes registry source tree) :
    Derives registry source tree := by
  obtain ⟨sketch, hextracts, hsteps⟩ := h
  exact ⟨sketch, _, hextracts, hsteps, flat_tree tree, read_tree tree⟩

namespace Derives

variable {source other : Text} {left right : Expr}

theorem becomes_group (h : Derives registry source tree) :
    Becomes registry ('(' :: (source ++ [')'])) tree := by
  obtain ⟨sketch, last, hextracts, hsteps, hflat, hread⟩ := h
  have hwhole := (Extracts.plain ['('] (by decide)).append
    (hextracts.append (Extracts.plain [')'] (by decide)))
  exact ⟨_, hwhole, hsteps.group head_nil rfl (by simp) hflat hread []⟩

theorem group (h : Derives registry source tree) :
    Derives registry ('(' :: (source ++ [')'])) tree :=
  h.becomes_group.derives

/-- Two sources in parentheses around a binary operator have the tree of the operation. -/
theorem binary (h : Derives registry source left) (hother : Derives registry other right)
    {token : Text} {level : Nat} (htoken : (level, token) ∈ Grammar.standard.operators.tokens)
    {op : BinaryOperator} (hop : BinaryOperator.ofToken? token = some op) :
    Derives registry
      ('(' :: (source ++ ')' :: ' ' :: (token ++ ' ' :: '(' :: (other ++ [')']))))
      (.operation (.binary op) [left, right]) := by
  obtain ⟨first, firstLast, hfirst, hfirstSteps, hfirstFlat, hfirstRead⟩ := h
  obtain ⟨second, secondLast, hsecond, hsecondSteps, hsecondFlat, hsecondRead⟩ := hother
  have hmem : token ∈ Grammar.standard.tokens :=
    List.mem_append_left _ (List.mem_map.mpr ⟨_, htoken, rfl⟩)
  obtain ⟨hopening, hclosing, hseparator, hquote⟩ := plain_of_token hmem
  have hwhole := (Extracts.plain ['('] (by decide)).append (hfirst.append
    ((Extracts.plain [')', ' '] (by decide)).append
      ((Extracts.plain token hquote).append ((Extracts.plain [' ', '('] (by decide)).append
        (hsecond.append (Extracts.plain [')'] (by decide)))))))
  -- The groups become trees from left to right, since the first one closes first.
  have hleft := hfirstSteps.group head_nil rfl (by simp) hfirstFlat hfirstRead
    (.char ' ' :: (ofText token ++ .char ' ' :: .char '(' :: (second ++ [.char ')'])))
  obtain ⟨stem, name, htokenHead, hname⟩ := head_token hmem
    [.char ' ', .tree (some left), .char ' ', .char ' '] isWordChar_space
  have hright := hsecondSteps.group htokenHead hname (by simpa [mem_ofText] using hclosing)
    hsecondFlat hsecondRead []
  have hsteps := hleft.trans (by simpa using hright)
  have hoperator : ⟨token, some level⟩ ∈ Grammar.standard.operatorTokens :=
    List.mem_append_left _ (List.mem_map.mpr ⟨_, htoken, rfl⟩)
  refine ⟨_, _, hwhole, hsteps, ⟨?_, ?_, ?_⟩, ?_⟩
  · simpa [mem_ofText] using hopening
  · simpa [mem_ofText] using hclosing
  · simpa [mem_ofText] using hseparator
  · exact read_binary hoperator hop left right

/-- A source in parentheses behind a prefix operator has the tree of the operation. -/
theorem unary (h : Derives registry source tree) {token : Text}
    (htoken : token ∈ Grammar.standard.prefixes) {op : UnaryOperator}
    (hop : UnaryOperator.ofToken? token = some op) :
    Derives registry (token ++ ' ' :: '(' :: (source ++ [')']))
      (.operation (.unary op) [tree]) := by
  obtain ⟨sketch, last, hextracts, hsteps, hflat, hread⟩ := h
  have hmem : token ∈ Grammar.standard.tokens := List.mem_append_right _ htoken
  obtain ⟨hopening, hclosing, hseparator, hquote⟩ := plain_of_token hmem
  have hwhole := (Extracts.plain token hquote).append
    ((Extracts.plain [' ', '('] (by decide)).append
      (hextracts.append (Extracts.plain [')'] (by decide))))
  obtain ⟨stem, name, hhead, hname⟩ := head_token hmem [] rfl
  have hgroup := hsteps.group hhead hname (by simpa [mem_ofText] using hclosing) hflat hread []
  obtain ⟨level, hoperator⟩ := exists_level htoken
  refine ⟨_, _, hwhole, by simpa [ofText] using hgroup, ⟨?_, ?_, ?_⟩, ?_⟩
  · simpa [mem_ofText] using hopening
  · simpa [mem_ofText] using hclosing
  · simpa [mem_ofText] using hseparator
  · exact read_unary hoperator htoken hop tree

end Derives

section Arguments

variable {sources : List Text} {sketches lasts : List Sketch} {trees : List Expr}

/-- Sketches as arguments: between separators, each with a blank behind it. -/
def joined (sketches : List Sketch) : Sketch :=
  List.intercalate [.char ',', .char ' '] sketches

/-- Sources as arguments have their sketches as arguments. -/
theorem Extracts.joined (h : List.Forall₂ Extracts sources sketches) :
    Extracts (List.intercalate [',', ' '] sources) (joined sketches) := by
  induction h with
  | nil => exact .plain [] List.not_mem_nil
  | cons hfirst hrest ih =>
      cases hrest with
      | nil =>
          rw [Sketch.joined, List.intercalate_singleton, List.intercalate_singleton]
          exact hfirst
      | cons =>
          rw [Sketch.joined, List.intercalate_cons_cons, List.intercalate_cons_cons]
          exact (hfirst.append (Extracts.plain [',', ' '] (by decide))).append ih

/-- Arguments are rewritten one after the other, each behind the separator before it. -/
theorem Steps.joined
    (h : List.Forall₂ (fun sketch last => Steps registry sketch last ∧ Flat last) sketches lasts)
    (hfront : Fence front) (behind : Sketch) :
    Steps registry (front ++ (joined sketches ++ behind)) (front ++ (joined lasts ++ behind)) := by
  induction h generalizing front with
  | nil => exact .refl
  | @cons sketch last sketches lasts hfirst hrest ih =>
      cases hrest with
      | nil =>
          rw [Sketch.joined, Sketch.joined, List.intercalate_singleton, List.intercalate_singleton]
          exact hfirst.1.frame hfront.guard behind
      -- The separator behind the first argument is the fence of the others.
      | @cons second secondLast sketches lasts =>
          have hnext : Fence (front ++ last ++ [.char ',', .char ' ']) := by
            refine ⟨⟨front ++ last, ',', [.char ' '], rfl, by decide, by decide, by decide⟩,
              ?_⟩
            have hclosing := hfirst.2.closing
            simpa using ⟨hfront.closing, hclosing⟩
          have hhead := hfirst.1.frame hfront.guard
            ([.char ',', .char ' '] ++ (Sketch.joined (second :: sketches) ++ behind))
          have htail := ih hnext
          rw [Sketch.joined, Sketch.joined, List.intercalate_cons_cons,
            List.intercalate_cons_cons, ← Sketch.joined, ← Sketch.joined]
          simp only [List.append_assoc] at hhead htail ⊢
          exact hhead.trans htail

/-- The pieces of arguments between separators are read as their trees. -/
theorem read_operands (h : List.Forall₂
      (fun last tree => Flat last ∧ last.read Grammar.standard = some tree) lasts trees)
    (hne : lasts ≠ []) :
    List.Forall₂ (fun piece tree => read Grammar.standard piece = some tree)
      (joined lasts).operands trees := by
  induction h with
  | nil => exact absurd rfl hne
  | @cons last tree lasts trees hfirst hrest ih =>
      cases hrest with
      | nil =>
          rw [joined, List.intercalate_singleton, operands_of_flat hfirst.1]
          exact .cons hfirst.2 .nil
      | @cons second _ lasts trees hsecond hothers =>
          have hpieces := ih (List.cons_ne_nil second lasts)
          have hsplit : (joined (last :: second :: lasts)).operands =
              last :: (joined (second :: lasts)).operands.modifyHead (.char ' ' :: ·) := by
            rw [joined, List.intercalate_cons_cons, ← joined, operands, List.append_assoc]
            have hrest := List.splitOnP_append_cons_of_forall_mem (isChar_of_flat hfirst.1)
              (.char ',') (by decide) (.char ' ' :: joined (second :: lasts))
            rw [List.splitOnP_cons_eq_if_modifyHead (Atom.char ' ')] at hrest
            exact hrest
          have hblank := forall₂_modifyHead (f := (Atom.char ' ' :: ·)) (g := id)
            (R := fun piece tree => read Grammar.standard piece = some tree)
            (fun piece tree hread => (read_blank (by decide) piece).trans hread) hpieces
          rw [List.modifyHead_id, id] at hblank
          rw [hsplit]
          exact .cons hfirst.2 hblank

/-- Arguments are read as their trees. -/
theorem read_arguments (h : List.Forall₂
      (fun last tree => Flat last ∧ last.read Grammar.standard = some tree) lasts trees) :
    List.Forall₂ (fun piece tree => read Grammar.standard piece = some tree)
      (joined lasts).arguments trees := by
  by_cases hne : lasts = []
  · subst hne
    cases h
    exact .nil
  · have hpieces := read_operands h hne
    have hblank : (joined lasts).isBlank = false := by
      cases hblank : (joined lasts).isBlank with
      | false => rfl
      | true =>
          rw [operands_of_isBlank hblank] at hpieces
          cases hpieces with
          | cons hfirst hrest =>
              rw [isBlank_of_read hfirst] at hblank
              cases hblank
    rw [arguments, hblank]
    exact hpieces

/-- Sources with trees, what is left of them, and their trees. -/
theorem exists_lasts (h : List.Forall₂ (Derives registry) sources trees) :
    ∃ sketches lasts, List.Forall₂ Extracts sources sketches ∧
      List.Forall₂ (fun sketch last => Steps registry sketch last ∧ Flat last) sketches lasts ∧
      List.Forall₂ (fun last tree => Flat last ∧ last.read Grammar.standard = some tree)
        lasts trees := by
  induction h with
  | nil => exact ⟨[], [], .nil, .nil, .nil⟩
  | cons hfirst hrest ih =>
      obtain ⟨sketches, lasts, hextracts, hsteps, hread⟩ := ih
      obtain ⟨sketch, last, hsketch, hlast, hflat, htree⟩ := hfirst
      exact ⟨sketch :: sketches, last :: lasts, .cons hsketch hextracts,
        .cons ⟨hlast, hflat⟩ hsteps, .cons ⟨hflat, htree⟩ hread⟩

/-- Joined flat sketches have no parentheses. -/
theorem not_mem_joined (h : ∀ last ∈ lasts, Flat last) :
    .char '(' ∉ joined lasts ∧ .char ')' ∉ joined lasts := by
  induction lasts with
  | nil => simp [joined]
  | cons last lasts ih =>
      rw [List.forall_mem_cons] at h
      cases lasts with
      | nil =>
          rw [joined, List.intercalate_singleton]
          exact ⟨h.1.opening, h.1.closing⟩
      | cons second lasts =>
          rw [joined, List.intercalate_cons_cons, ← joined]
          have hrest := ih h.2
          simp [h.1.opening, h.1.closing, hrest.1, hrest.2]

end Arguments

/-- A letter is no digit. -/
theorem isDigit_of_isAlphabetic {c : Char} (h : Unicode.isAlphabetic c = true) :
    Decimal.isDigit c = false := by
  rw [← Bool.not_eq_true]
  intro hdigit
  have hnot := Unicode.forall_ascii
    (P := fun c => Decimal.isDigit c = true → Unicode.isAlphabetic c = false)
    (by decide) (toNat_lt_of_isDigit hdigit) hdigit
  rw [h] at hnot
  cases hnot

/-- The name of a function can be called. -/
theorem isCallable_of_functionName (h : FunctionName name) : isCallable name = true := by
  have hcontains : Grammar.standard.wordTokens.contains name = false := by
    simpa using h.operator
  cases name with
  | nil => cases h.head
  | cons c rest =>
      have hdigit := isDigit_of_isAlphabetic (c := c) h.head
      rw [isCallable, hcontains, List.isEmpty_cons, List.head?_cons, Option.any_some, hdigit]
      rfl

/-- A call over sources becomes the tree that the function builds over their trees. -/
theorem Derives.becomes_call {sources : List Text} {trees : List Expr}
    (h : List.Forall₂ (Derives registry) sources trees) (hname : FunctionName name)
    {call : ResolvedCall}
    (hcall : registry.resolve (String.ofList name) trees.length = .ok call)
    (hbuild : call.build trees (fun op arguments => .ok (.operation op arguments)) = .ok tree) :
    Becomes registry (name ++ '(' :: (List.intercalate [',', ' '] sources ++ [')'])) tree := by
  obtain ⟨sketches, lasts, hextracts, hsteps, hread⟩ := exists_lasts h
  have hnot (c : Char) (hc : Text.isWordChar c = false) : c ∉ name := by
    intro hmem
    rw [hname.word c hmem] at hc
    cases hc
  have hclosing : .char ')' ∉ ofText name := by
    rw [mem_ofText]
    exact hnot ')' (by decide)
  have hwhole := (Extracts.plain name (hnot '"' (by decide))).append
    ((Extracts.plain ['('] (by decide)).append
      ((Extracts.joined hextracts).append (Extracts.plain [')'] (by decide))))
  -- The arguments are rewritten where they stand, and then the call is the only group that is left.
  have hinside := Steps.joined hsteps (fence_opening hclosing) [.char ')']
  have hpieces := read_arguments hread
  have hhead : Head (ofText name) [] name := by
    refine ⟨⟨[], by simp, rfl⟩, hname.word, rfl, fun _ => rfl⟩
  have hflat : ∀ last ∈ lasts, Flat last := by
    intro last hlast
    obtain ⟨_, hflat, -⟩ := exists_of_forall₂ hread hlast
    exact hflat
  have hblank : ∀ piece ∈ (joined lasts).arguments, piece.isBlank = false := by
    intro piece hpiece
    obtain ⟨_, htree⟩ := exists_of_forall₂ hpieces hpiece
    exact isBlank_of_read htree
  obtain ⟨hopening, hclosed⟩ := not_mem_joined hflat
  have hstep : Step registry _ _ :=
    .call [] ⟨hclosing, hclosed, hopening⟩ hhead (isCallable_of_functionName hname) hblank
  have harguments : (joined lasts).arguments.map (read Grammar.standard) = trees.map some := by
    have hmapped : List.Forall₂ (· = ·) ((joined lasts).arguments.map (read Grammar.standard))
        (trees.map some) := by
      rw [List.forall₂_map_left_iff, List.forall₂_map_right_iff]
      exact hpieces
    rwa [List.forall₂_eq_eq_eq] at hmapped
  have htree : Expr.ofCall registry name (trees.map some) = some tree := by
    rw [Expr.ofCall, mapM_id_map]
    simp [hcall, hbuild, Except.toOption]
  rw [harguments, htree] at hstep
  refine ⟨_, hwhole, Relation.ReflTransGen.tail ?_ hstep⟩
  simpa [ofText] using hinside

/-- A call over sources has the tree that the function builds over their trees. -/
theorem Derives.call {sources : List Text} {trees : List Expr}
    (h : List.Forall₂ (Derives registry) sources trees) (hname : FunctionName name)
    {call : ResolvedCall}
    (hcall : registry.resolve (String.ofList name) trees.length = .ok call)
    (hbuild : call.build trees (fun op arguments => .ok (.operation op arguments)) = .ok tree) :
    Derives registry (name ++ '(' :: (List.intercalate [',', ' '] sources ++ [')'])) tree :=
  (becomes_call h hname hcall hbuild).derives

end Sketch

/-- Parsing is compositional. A source in parentheses has the tree of the source; two of them around
a binary operator, and one behind a prefix operator, have the tree of the operation over their
trees; and a call over sources has the tree that the function builds over their trees. -/
theorem Expr.parse_composed (registry : Registry) :
    (∀ source tree, Expr.parse Grammar.standard registry source = .ok tree →
      Expr.parse Grammar.standard registry ("(".toList ++ source ++ ")".toList) = .ok tree) ∧
    (∀ level token source other left right,
      (level, token) ∈ Grammar.standard.operators.tokens →
      Expr.parse Grammar.standard registry source = .ok left →
      Expr.parse Grammar.standard registry other = .ok right →
      ∃ op, BinaryOperator.ofToken? token = some op ∧
        Expr.parse Grammar.standard registry
            ("(".toList ++ source ++ ") ".toList ++ token ++ " (".toList ++ other ++ ")".toList) =
          .ok (.operation (.binary op) [left, right])) ∧
    (∀ token source tree, token ∈ Grammar.standard.prefixes →
      Expr.parse Grammar.standard registry source = .ok tree →
      ∃ op, UnaryOperator.ofToken? token = some op ∧
        Expr.parse Grammar.standard registry
            (token ++ " (".toList ++ source ++ ")".toList) =
          .ok (.operation (.unary op) [tree])) ∧
    ∀ name call sources trees, FunctionName name →
      List.Forall₂ (fun source tree => Expr.parse Grammar.standard registry source = .ok tree)
        sources trees →
      registry.resolve (String.ofList name) sources.length = .ok call →
      ∃ tree, call.build trees (fun op arguments => .ok (.operation op arguments)) = .ok tree ∧
        Expr.parse Grammar.standard registry
            (name ++ "(".toList ++ List.intercalate ", ".toList sources ++ ")".toList) =
          .ok tree := by
  refine ⟨fun source tree h => ?_, fun level token source other left right htoken h hother => ?_,
    fun token source tree htoken h => ?_, fun name call sources trees hname h hcall => ?_⟩
  · have hgroup := Expr.parse_iff.mpr (Sketch.Derives.group (Expr.parse_iff.mp h))
    simpa using hgroup
  · have hops : ∀ entry ∈ Grammar.standard.operators.tokens,
        (BinaryOperator.ofToken? entry.2).isSome = true := by decide
    obtain ⟨op, hop⟩ := Option.isSome_iff_exists.mp (hops _ htoken)
    have hbinary := Expr.parse_iff.mpr
      (Sketch.Derives.binary (Expr.parse_iff.mp h) (Expr.parse_iff.mp hother) htoken hop)
    exact ⟨op, hop, by simpa using hbinary⟩
  · have hops : ∀ token ∈ Grammar.standard.prefixes,
        (UnaryOperator.ofToken? token).isSome = true := by decide
    obtain ⟨op, hop⟩ := Option.isSome_iff_exists.mp (hops _ htoken)
    have hunary := Expr.parse_iff.mpr (Sketch.Derives.unary (Expr.parse_iff.mp h) htoken hop)
    exact ⟨op, hop, by simpa using hunary⟩
  · rw [h.length_eq] at hcall
    obtain ⟨tree, hbuild⟩ := ResolvedCall.exists_build hcall
      fun op arguments => ⟨Expr.operation op arguments, rfl⟩
    have hderives := h.imp fun _ _ htree => Expr.parse_iff.mp htree
    have hcallTree := Expr.parse_iff.mpr (Sketch.Derives.call hderives hname hcall hbuild)
    exact ⟨tree, hbuild, by simpa using hcallTree⟩

/-- A variable is read as a parameter. -/
theorem Expr.parse_x (registry : Registry) :
    Expr.parse Grammar.standard registry "x".toList = .ok (.parameter "x") := by
  have hlexemes : Grammar.standard.lexemes ['x'] = [.operand ['x']] :=
    Grammar.lexemes_word Grammar.lexical_standard (by decide) (by decide)
  refine Expr.parse_iff.mpr ⟨_, _, .plain ['x'] (by decide), .refl, ⟨?_, ?_, ?_⟩, ?_⟩
  · simp [Sketch.ofText]
  · simp [Sketch.ofText]
  · simp [Sketch.ofText]
  · show Sketch.readItems Grammar.standard (Sketch.textItems Grammar.standard ['x']) = _
    rw [Sketch.textItems, hlexemes]
    rfl

/-- The law at variables: a sum of groups, a negated group and a call. -/
theorem Expr.parse_composed_variables :
    Expr.parse Grammar.standard Registry.standard "((x)) + (x)".toList =
        .ok (.operation (.binary .add) [.parameter "x", .parameter "x"]) ∧
      Expr.parse Grammar.standard Registry.standard "- (x)".toList =
        .ok (.operation (.unary .negate) [.parameter "x"]) ∧
      ∃ call, Registry.standard.resolve "max" 3 = .ok call ∧
        Expr.parse Grammar.standard Registry.standard "max(x, x, x)".toList =
          call.build [.parameter "x", .parameter "x", .parameter "x"]
            fun op arguments => .ok (.operation op arguments) := by
  have hx := Expr.parse_x Registry.standard
  obtain ⟨hgroup, hbinary, hunary, hcall⟩ := Expr.parse_composed Registry.standard
  refine ⟨?_, ?_, ?_⟩
  · obtain ⟨op, hop, hparse⟩ := hbinary 2 ['+'] _ _ _ _ (by decide) (hgroup _ _ hx) hx
    cases hop
    exact hparse
  · obtain ⟨op, hop, hparse⟩ := hunary ['-'] _ _ (by decide) hx
    cases hop
    exact hparse
  · cases hresolve : Registry.standard.resolve "max" 3 with
    | error fault =>
        have hsome : (Registry.standard.resolve "max" 3).toOption.isSome = true := by
          decide +kernel
        rw [hresolve] at hsome
        cases hsome
    | ok call =>
        have hname : FunctionName ['m', 'a', 'x'] :=
          ⟨List.all_eq_true.mp (by decide), by decide, by decide⟩
        obtain ⟨tree, hbuild, hparse⟩ := hcall ['m', 'a', 'x'] call _ _ hname
          (.cons hx (.cons hx (.cons hx .nil))) hresolve
        exact ⟨call, rfl, hparse.trans hbuild.symm⟩

end Reckon
