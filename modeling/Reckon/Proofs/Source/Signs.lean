import Reckon.Proofs.Source.Lexemes

/-!
# Signs

A sign is one character that is a token and part of no other token. No decision about a token looks
across it, so a text behind a sign has the operators and operands that it has on its own, which is
`lexemes_sign`.
-/

namespace Reckon

/-- The character is a token of a grammar and part of no other token, word or number. -/
structure Grammar.IsSign (grammar : Grammar) (c : Char) (level : Option Nat) : Prop where
  breaks : Text.IsBreak c
  token : ⟨[c], level⟩ ∈ grammar.operatorTokens
  alone : ∀ operator ∈ grammar.operatorTokens, c ∈ operator.token → operator.token = [c]

/-- The signs of the standard grammar. -/
theorem Grammar.isSign_standard {c : Char} (h : c = '-' ∨ c = '+') :
    Grammar.standard.IsSign c (some 2) := by
  have hlevel : (2, [c]) ∈ Grammar.standard.operators.tokens := by
    rcases h with rfl | rfl <;> decide
  refine ⟨⟨?_, ?_⟩, List.mem_append_left _ (List.mem_map.mpr ⟨_, hlevel, rfl⟩), ?_⟩
  · rcases h with rfl | rfl <;> decide
  · rcases h with rfl | rfl <;> decide
  · rcases h with rfl | rfl <;> decide

namespace OperatorToken

variable {c : Char} (hc : Text.IsBreak c)
include hc

/-- A token that a break is no part of counts behind it where it counts in the text behind it. -/
theorem occurrences_cons_of_not_mem {operator : OperatorToken} (hnonempty : operator.token ≠ [])
    (htoken : c ∉ operator.token) (text : Text) :
    operator.occurrences (c :: text) = (operator.occurrences text).map (Occurrence.shift 1) := by
  have hsplit := occurrences_append_cons hc hnonempty htoken [] text
  have hempty : operator.occurrences [] = [] := by
    simp [occurrences, Text.occurrences, Text.occurrencesFrom]
  rwa [hempty, List.nil_append, List.nil_append] at hsplit

/-- A token that is a break counts at its start, and where it counts in the text behind it. -/
theorem occurrences_cons_self (level : Option Nat) (text : Text) :
    occurrences ⟨[c], level⟩ (c :: text) =
      ⟨level, 0, [c]⟩ :: (occurrences ⟨[c], level⟩ text).map (Occurrence.shift 1) := by
  have hword : Text.isWord [c] = false := by simp [Text.isWord, hc.word]
  have hstart : fits [c] [] text = true := by
    rw [fits, hword]
    split
    · next h => cases h
    · split <;> rfl
  have hfound : Text.occurrences [c] (c :: text) =
      0 :: (Text.occurrences [c] text).map (· + 1) := by
    have hself : [c].isPrefixOf (c :: text) = true := by simp [List.isPrefixOf]
    simp only [Text.occurrences, List.isEmpty_cons, Bool.false_eq_true, if_false,
      Text.occurrencesFrom, hself, if_true]
    rw [← Text.occurrencesFrom_add]
    rfl
  simp only [occurrences, hfound]
  rw [List.filter_cons_of_pos (by simpa using hstart), List.map_cons, List.filter_map, List.map_map,
    List.map_map]
  congr 2
  refine List.filter_congr ?_
  intro start _
  show fits [c] (c :: text.take start) (text.drop (start + 1)) = _
  exact fits_cons_append hc [c] [] _ _

end OperatorToken

namespace Grammar

variable {grammar : Grammar} (hgrammar : grammar.Lexical) {c : Char} {level : Option Nat}
  (hc : grammar.IsSign c level)
include hgrammar hc

/-- The places where tokens count behind a sign are, in some order, the sign and those in the text
behind it. -/
theorem found_sign (text : Text) :
    (grammar.found (c :: text)).Perm
      (⟨level, 0, [c]⟩ :: (grammar.found text).map (Occurrence.shift 1)) := by
  obtain ⟨before, behind, hsplit⟩ := List.append_of_mem hc.token
  have hdistinct := hgrammar.distinct
  rw [hsplit, List.map_append, List.map_cons, List.nodup_append, List.nodup_cons] at hdistinct
  -- No token but the sign itself contains it.
  have hothers (others : List OperatorToken) (hmem : ∀ o ∈ others, o ∈ grammar.operatorTokens)
      (hne : ∀ o ∈ others, o.token ≠ [c]) :
      others.flatMap (·.occurrences (c :: text)) =
        others.flatMap fun operator => (operator.occurrences text).map (Occurrence.shift 1) := by
    refine List.flatMap_congr ?_
    intro operator hoperator
    exact OperatorToken.occurrences_cons_of_not_mem hc.breaks
      (hgrammar.nonempty operator (hmem operator hoperator))
      (fun hin => hne operator hoperator (hc.alone operator (hmem operator hoperator) hin)) text
  have hbefore := hothers before (fun o ho => hsplit ▸ List.mem_append_left _ ho)
    (fun o ho heq => hdistinct.2.2 _ (List.mem_map_of_mem ho) _ (.head _) heq)
  have hbehind := hothers behind (fun o ho => hsplit ▸ List.mem_append_right _ (.tail _ ho))
    (fun o ho heq => hdistinct.2.1.1 (List.mem_map.mpr ⟨o, ho, heq⟩))
  simp only [found, hsplit, List.flatMap_append, List.flatMap_cons, hbefore, hbehind,
    OperatorToken.occurrences_cons_self hc.breaks, List.map_append, List.map_flatMap,
    List.cons_append]
  exact List.perm_middle

/-- In the order of reading, a sign at the start of a text comes first. -/
theorem ordered_sign (text : Text) :
    grammar.ordered (c :: text) =
      ⟨level, 0, [c]⟩ :: (grammar.ordered text).map (Occurrence.shift 1) := by
  have hperm := found_sign hgrammar hc text
  have hrest := ((List.mergeSort_perm (grammar.found text) Occurrence.reads).map
    (Occurrence.shift 1)).cons ⟨level, 0, [c]⟩
  refine List.Perm.eq_of_pairwise (fun x y hx hy hxy hyx => ?_) (pairwise_ordered grammar _) ?_ ?_
  · exact eq_of_reads hgrammar (mem_ordered.mp hx) (hperm.symm.subset (hrest.subset hy)) hxy hyx
  · refine List.pairwise_cons.mpr ⟨fun y hy => ?_, ?_⟩
    · obtain ⟨y, -, rfl⟩ := List.mem_map.mp hy
      simp [Occurrence.reads, Occurrence.shift]
    · rw [List.pairwise_map]
      exact (pairwise_ordered grammar text).imp fun h => (Occurrence.reads_shift _ _ _).trans h
  · exact (List.mergeSort_perm _ _).trans (hperm.trans hrest.symm)

theorem occurrences_sign (text : Text) :
    grammar.occurrences (c :: text) =
      ⟨level, 0, [c]⟩ :: (grammar.occurrences text).map (Occurrence.shift 1) := by
  have hshift := Occurrence.keepDisjoint_shift 1 0 (grammar.ordered text)
  rw [occurrences_eq, occurrences_eq, ordered_sign hgrammar hc, Occurrence.keepDisjoint,
    if_neg (Nat.not_lt_zero _)]
  exact congrArg _ hshift

/-- A text behind a sign has the lexemes that it has on its own. -/
theorem lexemes_sign (text : Text) :
    grammar.lexemes (c :: text) = .operator [c] level :: grammar.lexemes text := by
  have hrest := Piece.ofOccurrences_behind (b := c) [] text 0 (grammar.occurrences text)
  rw [lexemes, lexemes, occurrences_sign hgrammar hc, Piece.ofOccurrences]
  exact congrArg _ hrest

end Grammar

end Reckon
