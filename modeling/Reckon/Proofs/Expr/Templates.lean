import Reckon.Proofs.Function.Building
import Reckon.Proofs.Source.Rewriting

/-!
# Trees with open places

A tree with open places is a template of the trees that arise when a constant is put there. Nothing
that is done to sketches depends on what stands in the open places: reading (`Sketch.read_fill`) and
each step of cutting (`Step.fill`, `Step.exists_of_fill`) commute with filling them, in lockstep and
in both directions.
-/

namespace Reckon

namespace Expr

/-- The open place of a template stands there as a parameter. No source has a parameter of this
name. -/
def hole : String := "\""

mutual
/-- The tree with a constant in its open places. -/
def fill (constant : Constant) : Expr → Expr
  | .constant c => .constant c
  | .parameter name => if name = hole then .constant constant else .parameter name
  | .operation op arguments => .operation op (fillAll constant arguments)

/-- The trees with a constant in their open places. -/
def fillAll (constant : Constant) : List Expr → List Expr
  | [] => []
  | argument :: arguments => fill constant argument :: fillAll constant arguments
end

variable {constant : Constant}

theorem fillAll_eq_map (arguments : List Expr) :
    fillAll constant arguments = arguments.map (fill constant) := by
  induction arguments with
  | nil => rfl
  | cons argument arguments ih => rw [fillAll, ih, List.map_cons]

@[simp] theorem fill_operation (op : Operation) (arguments : List Expr) :
    fill constant (.operation op arguments) = .operation op (arguments.map (fill constant)) := by
  rw [fill, fillAll_eq_map]

@[simp] theorem fill_constant (c : Constant) : fill constant (.constant c) = .constant c := by
  rw [fill]

@[simp] theorem fill_hole : fill constant (.parameter hole) = .constant constant := by
  rw [fill, if_pos rfl]

end Expr

/-- No name that a source says is that of an open place. -/
theorem Expr.ofList_ne_hole {text name : Text} (h : Literal.ofText text = .ok (some (.name name))) :
    String.ofList name ≠ hole := by
  intro heq
  have hquote : name = ['"'] := by
    have hlist := congrArg String.toList heq
    rwa [String.toList_ofList] at hlist
  have hname := Literal.isName_of_ofText h
  rw [hquote] at hname
  exact absurd hname (by decide)

/-- An operand of a source has no open places to fill. -/
theorem Expr.fill_ofLeaf (constant : Constant) (text : Text) :
    (ofLeaf? text).map (fill constant) = ofLeaf? text := by
  unfold ofLeaf?
  split
  · next name hname => rw [Option.map_some, fill, if_neg (ofList_ne_hole hname)]
  · rw [Option.map_map]
    rfl
  · rfl

/-- The waiting operator with a constant in the open places of its left operand. -/
def Pending.fill (constant : Constant) (pending : Pending) : Pending :=
  ⟨pending.left.fill constant, pending.operator, pending.level⟩

/-- The piece with a constant in the open places of its operand. -/
def Item.fill (constant : Constant) : Item → Item
  | .operand tree => .operand (tree.fill constant)
  | .operator token level => .operator token level

/-- The atom with a constant in the open places of its tree. -/
def Atom.fill (constant : Constant) : Atom → Atom
  | .char c => .char c
  | .tree part => .tree (part.map (Expr.fill constant))

/-- The sketch with a constant in the open places of its trees. -/
def Sketch.fill (constant : Constant) (sketch : Sketch) : Sketch :=
  sketch.map (Atom.fill constant)

variable {constant : Constant} {grammar : Grammar} {registry : Registry}

theorem Pending.close_fill (pending : Pending) (right : Expr) :
    (pending.fill constant).close (right.fill constant) = (pending.close right).fill constant := by
  rw [close, close, Expr.fill_operation]
  rfl

/-- Waiting operators are complete when those of the template are. -/
theorem Pending.closeWhile_fill (precedence : Precedence) (operator : BinaryOperator) (level : Nat)
    (pending : List Pending) (right : Expr) :
    closeWhile precedence operator level (pending.map (fill constant)) (right.fill constant) =
      ((closeWhile precedence operator level pending right).1.map (fill constant),
        (closeWhile precedence operator level pending right).2.fill constant) := by
  induction pending generalizing right with
  | nil => rfl
  | cons first pending ih =>
      have hsame : (first.fill constant).level = first.level := rfl
      rw [List.map_cons, closeWhile, closeWhile, hsame]
      split
      · rw [close_fill, ih]
      · rfl

/-- The waiting operators at the end of a text are closed as those of the template are. -/
theorem Pending.foldl_fill (pending : List Pending) (operand : Expr) :
    (pending.map (fill constant)).foldl (fun right pending => pending.close right)
        (operand.fill constant) =
      (pending.foldl (fun right pending => pending.close right) operand).fill constant := by
  induction pending generalizing operand with
  | nil => rfl
  | cons first pending ih => rw [List.map_cons, List.foldl_cons, List.foldl_cons, close_fill, ih]

/-- Prefix operators stand before an operand as before its template. -/
theorem Expr.applyPrefixes_fill (prefixes : List UnaryOperator) (operand : Expr) :
    applyPrefixes prefixes (operand.fill constant) =
      (applyPrefixes prefixes operand).fill constant := by
  unfold applyPrefixes
  induction prefixes generalizing operand with
  | nil => rfl
  | cons op prefixes ih =>
      rw [List.foldl_cons, List.foldl_cons, ← ih, fill_operation]
      rfl

namespace Item

/-- Reading on gives the filled tree of what reading on gives for the template. -/
theorem readFrom_fill (items : List Item) :
    (∀ pending prefixes, readOperand grammar (pending.map (Pending.fill constant)) prefixes
        (items.map (fill constant)) =
      (readOperand grammar pending prefixes items).map (Expr.fill constant)) ∧
    ∀ pending operand, readOperator grammar (pending.map (Pending.fill constant))
        (operand.fill constant) (items.map (fill constant)) =
      (readOperator grammar pending operand items).map (Expr.fill constant) := by
  -- Each way of reading on calls the other, so both are shown in one induction.
  induction items with
  | nil =>
      refine ⟨fun pending prefixes => rfl, fun pending operand => ?_⟩
      rw [List.map_nil, readOperator, readOperator, Pending.foldl_fill, Option.map_some]
  | cons item items ih =>
      obtain ⟨hoperand, hoperator⟩ := ih
      cases item with
      | operand tree =>
          refine ⟨fun pending prefixes => ?_, fun pending operand => rfl⟩
          rw [List.map_cons, fill, readOperand, readOperand, Expr.applyPrefixes_fill, hoperator]
      | operator token level =>
          refine ⟨fun pending prefixes => ?_, fun pending operand => ?_⟩
          · rw [List.map_cons, fill, readOperand, readOperand]
            cases Expr.asPrefix? grammar token with
            | none => rfl
            | some op => exact hoperand pending (op :: prefixes)
          · rw [List.map_cons, fill, readOperator, readOperator]
            cases Expr.asBinary? ⟨level, 0, token⟩ with
            | none => rfl
            | some entry =>
                obtain ⟨op, level⟩ := entry
                simp only [Option.bind_eq_bind, Option.bind_some, Pending.closeWhile_fill]
                exact hoperand (⟨_, op, level⟩ :: _) []

/-- Items are read as those of the template are. -/
theorem read_fill (items : List Item) :
    read grammar (items.map (fill constant)) =
      (read grammar items).map (Expr.fill constant) :=
  (readFrom_fill items).1 [] []

end Item

namespace Expr

/-- Further calls are chained over filled arguments as over those of the template. -/
theorem chain_fill (constant : Constant) (op : Operation) {more : Nat} (hmore : 0 < more)
    (made : Expr) (arguments : List Expr) :
    ResolvedCall.chain (m := Except CompileError) (fun arguments => .ok (.operation op arguments))
        hmore (made.fill constant) (arguments.map (fill constant)) =
      (ResolvedCall.chain (m := Except CompileError)
        (fun arguments => .ok (.operation op arguments)) hmore made arguments).map
          (fill constant) := by
  induction hlength : arguments.length using Nat.strongRecOn generalizing made arguments with
  | ind length ih =>
      cases arguments with
      | nil =>
          rw [List.map_nil, ResolvedCall.chain, ResolvedCall.chain]
          rfl
      | cons argument rest =>
          have hdrop : ((argument :: rest).drop more).length < length := by
            rw [List.length_drop, ← hlength, List.length_cons]
            omega
          have hrest := ih _ hdrop (.operation op (made :: (argument :: rest).take more))
            ((argument :: rest).drop more) rfl
          rw [fill_operation, List.map_cons, List.map_take, List.map_drop, List.map_cons] at hrest
          rw [List.map_cons, ResolvedCall.chain, ResolvedCall.chain]
          exact hrest

/-- A call is built over filled arguments as over those of the template. -/
theorem build_fill (call : ResolvedCall) (arguments : List Expr) :
    call.build (arguments.map (fill constant)) (fun op arguments => .ok (.operation op arguments)) =
      (call.build arguments fun op arguments => .ok (.operation op arguments)).map
        (fill constant) := by
  unfold ResolvedCall.build
  by_cases hcount : arguments.length = call.count
  · have hfilled : (arguments.map (fill constant)).length = call.count := by
      rw [List.length_map, hcount]
    by_cases harity : call.count = call.function.arity
    · rw [ResolvedCall.buildM_of_arity hcount harity, ResolvedCall.buildM_of_arity hfilled harity,
        Except.map, fill_operation]
    · rw [ResolvedCall.buildM_of_ne hcount harity, ResolvedCall.buildM_of_ne hfilled harity,
        ← List.map_take, ← List.map_drop]
      have hchain := chain_fill constant (.call call.function) (call.more_pos harity)
        (.operation (.call call.function) (arguments.take call.function.arity))
        (arguments.drop call.function.arity)
      rw [fill_operation] at hchain
      exact hchain
  · rw [ResolvedCall.buildM_of_length_ne hcount,
      ResolvedCall.buildM_of_length_ne (by rwa [List.length_map]), List.length_map]
    rfl

/-- A call has a tree if that of the template has one. -/
theorem ofCall_fill (name : Text) (arguments : List (Option Expr)) :
    ofCall registry name (arguments.map (Option.map (fill constant))) =
      (ofCall registry name arguments).map (fill constant) := by
  rw [ofCall, ofCall, mapM_id_map_change]
  cases arguments.mapM id with
  | none => rfl
  | some arguments =>
      simp only [Option.map_some, Option.bind_eq_bind, Option.bind_some, List.length_map]
      cases registry.resolve (String.ofList name) arguments.length with
      | error fault => rfl
      | ok call =>
          show (call.build _ _).toOption = (call.build _ _).toOption.map _
          rw [build_fill]
          cases call.build arguments fun op arguments => .ok (.operation op arguments) with
          | error fault => rfl
          | ok tree => rfl

end Expr

namespace Sketch

/-- The items of a text have no open places. -/
theorem textItems_fill (text : Text) :
    (textItems grammar text).map (Option.map (Item.fill constant)) = textItems grammar text := by
  rw [textItems, List.map_map]
  refine List.map_congr_left fun lexeme _ => ?_
  cases lexeme with
  | operator => rfl
  | operand operand =>
      rw [Function.comp_apply, Lexeme.item?, Option.map_map]
      nth_rewrite 2 [← Expr.fill_ofLeaf constant operand]
      rw [Option.map_map]
      rfl

/-- The items of a sketch are the filled items of its template. -/
theorem itemsFrom_fill (run : Text) (sketch : Sketch) :
    itemsFrom grammar run (sketch.fill constant) =
      (itemsFrom grammar run sketch).map (Option.map (Item.fill constant)) := by
  induction sketch generalizing run with
  | nil => exact (textItems_fill run).symm
  | cons atom sketch ih =>
      rw [fill] at ih
      rw [fill, List.map_cons]
      cases atom with
      | char c =>
          rw [Atom.fill, itemsFrom, itemsFrom]
          split
          · rw [List.map_append, textItems_fill, ih]
          · exact ih _
      | tree tree =>
          rw [Atom.fill, itemsFrom, itemsFrom, List.map_append, textItems_fill, List.map_cons, ih,
            Option.map_map, Option.map_map]
          rfl

/-- A sketch is read as its template is. -/
theorem read_fill (sketch : Sketch) :
    (sketch.fill constant).read grammar = (sketch.read grammar).map (Expr.fill constant) := by
  rw [read, read, itemsFrom_fill, readItems, readItems, mapM_id_map_change, Option.bind_map,
    Option.map_bind]
  exact congrArg _ (funext Item.read_fill)

theorem isBlank_fill (sketch : Sketch) : (sketch.fill constant).isBlank = sketch.isBlank := by
  rw [isBlank, isBlank, fill, List.all_map]
  refine congrArg (sketch.all ·) (funext fun atom => ?_)
  cases atom <;> rfl

/-- A filled sketch falls into the filled pieces of its template. -/
theorem operands_fill (sketch : Sketch) :
    (sketch.fill constant).operands = sketch.operands.map (fill constant) := by
  unfold operands fill
  induction sketch with
  | nil => rfl
  | cons atom sketch ih =>
      have hsame : (atom.fill constant).isChar ',' = atom.isChar ',' := by cases atom <;> rfl
      rw [List.map_cons, List.splitOnP_cons_eq_if_modifyHead, List.splitOnP_cons_eq_if_modifyHead,
        hsame, ih]
      split
      · rfl
      · cases sketch.splitOnP (Atom.isChar ',') with
        | nil => rfl
        | cons piece pieces => rfl

theorem arguments_fill (sketch : Sketch) :
    (sketch.fill constant).arguments = sketch.arguments.map (fill constant) := by
  unfold arguments
  rw [isBlank_fill]
  split
  · rfl
  · exact operands_fill sketch

theorem map_read_fill (pieces : List Sketch) :
    (pieces.map (fill constant)).map (read grammar) =
      (pieces.map (read grammar)).map (Option.map (Expr.fill constant)) := by
  rw [List.map_map, List.map_map]
  exact List.map_congr_left fun piece _ => read_fill piece

/-- A row of filled trees. -/
theorem row_fill (trees : List (Option Expr)) :
    (row trees).fill constant = row (trees.map (Option.map (Expr.fill constant))) := by
  unfold row fill
  induction trees with
  | nil => rfl
  | cons tree trees ih =>
      cases trees with
      | nil => rfl
      | cons other trees =>
          exact congrArg (fun rest => Atom.tree (tree.map _) :: .char ',' :: rest) ih

end Sketch

/-- Filling gives a character only where one was. -/
@[simp] theorem Atom.fill_eq_char {atom : Atom} {c : Char} :
    atom.fill constant = .char c ↔ atom = .char c := by
  cases atom with
  | char d => rfl
  | tree tree => exact ⟨nofun, nofun⟩

theorem Atom.isWordChar_fill (atom : Atom) : (atom.fill constant).isWordChar = atom.isWordChar := by
  cases atom <;> rfl

theorem Atom.isBlank_fill (atom : Atom) : (atom.fill constant).isBlank = atom.isBlank := by
  cases atom <;> rfl

namespace Sketch

variable {sketch before head inner : Sketch} {name : Text}

theorem mem_fill {c : Char} : .char c ∈ sketch.fill constant ↔ .char c ∈ sketch := by
  rw [fill, List.mem_map]
  constructor
  · rintro ⟨atom, hatom, heq⟩
    rwa [Atom.fill_eq_char.mp heq] at hatom
  · exact fun h => ⟨.char c, h, rfl⟩

theorem fill_ofText (text : Text) : (ofText text).fill constant = ofText text := by
  rw [fill, ofText, List.map_map]
  rfl

/-- What is filled to characters are those characters. -/
theorem eq_ofText_of_fill {text : Text} (h : sketch.fill constant = ofText text) :
    sketch = ofText text := by
  induction sketch generalizing text with
  | nil =>
      rw [ofText, fill, List.map_nil, eq_comm, List.map_eq_nil_iff] at h
      rw [h]
      rfl
  | cons atom sketch ih =>
      obtain ⟨c, rest, rfl, hatom, hrest⟩ := List.map_eq_cons_iff.mp h.symm
      rw [Atom.fill_eq_char.mp hatom.symm, ih hrest.symm]
      rfl

theorem exists_append_of_fill {a b : Sketch} (h : sketch.fill constant = a ++ b) :
    ∃ front behind : Sketch, sketch = front ++ behind ∧ front.fill constant = a ∧
      behind.fill constant = b :=
  List.map_eq_append_iff.mp h

theorem exists_cons_of_fill {c : Char} {b : Sketch} (h : sketch.fill constant = .char c :: b) :
    ∃ behind : Sketch, sketch = .char c :: behind ∧ behind.fill constant = b := by
  obtain ⟨atom, behind, rfl, hatom, hbehind⟩ := List.map_eq_cons_iff.mp h
  rw [Atom.fill_eq_char.mp hatom]
  exact ⟨behind, rfl, hbehind⟩

theorem edge_fill : (before.fill constant).getLast?.any Atom.isWordChar =
    before.getLast?.any Atom.isWordChar := by
  rw [fill, List.getLast?_map, Option.any_map]
  exact congrArg (before.getLast?.any ·) (funext Atom.isWordChar_fill)

theorem mark_fill : (before.fill constant).getLast?.any Atom.isBlank =
    before.getLast?.any Atom.isBlank := by
  rw [fill, List.getLast?_map, Option.any_map]
  exact congrArg (before.getLast?.any ·) (funext Atom.isBlank_fill)

/-- A filled sketch ends in the word that its template ends in. -/
theorem Head.fill (h : Head sketch before name) (constant : Constant) :
    Head (sketch.fill constant) (before.fill constant) name := by
  obtain ⟨blanks, rfl, hblanks⟩ := h.split
  refine ⟨⟨blanks.fill constant, ?_, (isBlank_fill blanks).trans hblanks⟩, h.word,
    edge_fill.trans h.edge, fun hname => mark_fill.trans (h.mark hname)⟩
  rw [Sketch.fill, List.map_append, List.map_append, ← Sketch.fill, ← Sketch.fill, ← Sketch.fill,
    fill_ofText]

/-- The template ends in the word that the filled sketch ends in. -/
theorem Head.exists_of_fill {filled : Sketch} (h : Head (sketch.fill constant) filled name) :
    ∃ before, before.fill constant = filled ∧ Head sketch before name := by
  obtain ⟨blanks, hsketch, hblanks⟩ := h.split
  obtain ⟨before, rest, rfl, rfl, hrest⟩ := exists_append_of_fill hsketch
  obtain ⟨word, behind, rfl, hword, rfl⟩ := exists_append_of_fill hrest
  obtain rfl := eq_ofText_of_fill hword
  refine ⟨before, rfl, ⟨behind, rfl, (isBlank_fill behind).symm.trans hblanks⟩, h.word,
    edge_fill.symm.trans h.edge, fun hname => mark_fill.symm.trans (h.mark hname)⟩

theorem innermost_fill :
    Innermost (head.fill constant) (inner.fill constant) ↔ Innermost head inner := by
  constructor
  · rintro ⟨hbefore, hclosed, hinside⟩
    exact ⟨mt mem_fill.mpr hbefore, mt mem_fill.mpr hclosed, mt mem_fill.mpr hinside⟩
  · rintro ⟨hbefore, hclosed, hinside⟩
    exact ⟨mt mem_fill.mp hbefore, mt mem_fill.mp hclosed, mt mem_fill.mp hinside⟩

/-- Nothing is left to cut out of a filled sketch if nothing is left in its template. -/
theorem flat_fill : Flat (sketch.fill constant) ↔ Flat sketch := by
  constructor
  · rintro ⟨hopening, hclosing, hseparator⟩
    exact ⟨mt mem_fill.mpr hopening, mt mem_fill.mpr hclosing, mt mem_fill.mpr hseparator⟩
  · rintro ⟨hopening, hclosing, hseparator⟩
    exact ⟨mt mem_fill.mp hopening, mt mem_fill.mp hclosing, mt mem_fill.mp hseparator⟩

theorem forall_isBlank_fill {pieces : List Sketch} :
    (∀ piece ∈ pieces.map (fill constant), piece.isBlank = false) ↔
      ∀ piece ∈ pieces, piece.isBlank = false := by
  simp [isBlank_fill]

theorem fill_group (head inner after : Sketch) :
    (head ++ .char '(' :: (inner ++ .char ')' :: after)).fill constant =
      head.fill constant ++
        .char '(' :: (inner.fill constant ++ .char ')' :: after.fill constant) := by
  simp [fill, Atom.fill]

theorem fill_between (stem middle after : Sketch) :
    (stem ++ .char ' ' :: (middle ++ .char ' ' :: after)).fill constant =
      stem.fill constant ++
        .char ' ' :: (middle.fill constant ++ .char ' ' :: after.fill constant) := by
  simp [fill, Atom.fill]

theorem fill_tree (stem : Sketch) (tree : Option Expr) (after : Sketch) :
    (stem ++ .char ' ' :: .tree tree :: .char ' ' :: after).fill constant =
      stem.fill constant ++ .char ' ' :: .tree (tree.map (Expr.fill constant)) ::
        .char ' ' :: after.fill constant :=
  fill_between stem [.tree tree] after

theorem row_operands_fill (inner : Sketch) :
    row ((inner.fill constant).operands.map (read grammar)) =
      (row (inner.operands.map (read grammar))).fill constant := by
  rw [operands_fill, map_read_fill, row_fill]

theorem ofCall_arguments_fill (name : Text) (inner : Sketch) :
    Expr.ofCall registry name ((inner.fill constant).arguments.map (read grammar)) =
      (Expr.ofCall registry name (inner.arguments.map (read grammar))).map
        (Expr.fill constant) := by
  rw [arguments_fill, map_read_fill, Expr.ofCall_fill]

/-- A step of the template is one of the filled sketch. -/
theorem Step.fill {next : Sketch} (h : Step registry sketch next) (constant : Constant) :
    Step registry (sketch.fill constant) (next.fill constant) := by
  cases h with
  | @call head stem inner name after hfirst hhead hname hpieces =>
      have hstep : Step registry _ _ := .call (after.fill constant) (innermost_fill.mpr hfirst)
        (hhead.fill constant) hname (by
          rw [arguments_fill]
          exact forall_isBlank_fill.mpr hpieces)
      rw [ofCall_arguments_fill] at hstep
      rw [fill_group, fill_tree]
      exact hstep
  | @group head before inner name after hfirst hhead hname hpieces =>
      have hstep : Step registry _ _ := .group (after.fill constant) (innermost_fill.mpr hfirst)
        (hhead.fill constant) hname (by
          rw [operands_fill]
          exact forall_isBlank_fill.mpr hpieces)
      rw [row_operands_fill] at hstep
      rw [fill_group, fill_between]
      exact hstep

/-- A step of the filled sketch is one of the template. -/
theorem Step.exists_of_fill {filled : Sketch} (h : Step registry (sketch.fill constant) filled) :
    ∃ next, next.fill constant = filled ∧ Step registry sketch next := by
  -- Both kinds of steps take apart the sketch around a group.
  have hparts {head inner after : Sketch}
      (hsketch : sketch.fill constant = head ++ .char '(' :: (inner ++ .char ')' :: after)) :
      ∃ front middle behind : Sketch,
        sketch = front ++ .char '(' :: (middle ++ .char ')' :: behind) ∧
        front.fill constant = head ∧ middle.fill constant = inner ∧
        behind.fill constant = after := by
    obtain ⟨front, group, rfl, hfront, hgroup⟩ := exists_append_of_fill hsketch
    obtain ⟨rest, rfl, hrest⟩ := exists_cons_of_fill hgroup
    obtain ⟨middle, closing, rfl, hmiddle, hclosing⟩ := exists_append_of_fill hrest
    obtain ⟨behind, rfl, hbehind⟩ := exists_cons_of_fill hclosing
    exact ⟨front, middle, behind, rfl, hfront, hmiddle, hbehind⟩
  generalize hsketch : sketch.fill constant = source at h
  cases h with
  | call after hfirst hhead hname hpieces =>
      obtain ⟨front, middle, behind, rfl, rfl, rfl, rfl⟩ := hparts hsketch
      obtain ⟨stem, rfl, hword⟩ := hhead.exists_of_fill
      rw [arguments_fill, forall_isBlank_fill] at hpieces
      refine ⟨_, ?_, .call behind (innermost_fill.mp hfirst) hword hname hpieces⟩
      rw [fill_tree, ofCall_arguments_fill]
  | group after hfirst hhead hname hpieces =>
      obtain ⟨front, middle, behind, rfl, rfl, rfl, rfl⟩ := hparts hsketch
      obtain ⟨stem, rfl, hword⟩ := hhead.exists_of_fill
      rw [operands_fill, forall_isBlank_fill] at hpieces
      refine ⟨_, ?_, .group behind (innermost_fill.mp hfirst) hword hname hpieces⟩
      rw [fill_between, row_operands_fill]

/-- Steps of the template are steps of the filled sketch. -/
theorem Steps.fill {last : Sketch} (h : Steps registry sketch last) (constant : Constant) :
    Steps registry (sketch.fill constant) (last.fill constant) := by
  induction h with
  | refl => exact .refl
  | tail _ hstep ih => exact ih.tail (hstep.fill constant)

/-- Steps of the filled sketch are steps of the template. -/
theorem Steps.exists_of_fill {filled : Sketch}
    (h : Steps registry (sketch.fill constant) filled) :
    ∃ last, last.fill constant = filled ∧ Steps registry sketch last := by
  induction h with
  | refl => exact ⟨sketch, rfl, .refl⟩
  | tail _ hstep ih =>
      obtain ⟨last, rfl, hsteps⟩ := ih
      obtain ⟨next, rfl, hnext⟩ := hstep.exists_of_fill
      exact ⟨next, rfl, hsteps.tail hnext⟩

end Sketch

end Reckon
