import Reckon.Expr.Flat
import Reckon.Proofs.Source.Lexing
import Reckon.Proofs.Text.Trimming

/-!
# Lexemes of a flat expression

`Grammar.lexemes` are the operands and operators of a text without their places. A blank divides
them, except that an operand may reach across it (`joined_lexemes`).
-/

namespace Reckon

/-- A piece of a flat expression, wherever it stands. -/
inductive Lexeme where
  | operand (text : Text)
  | operator (token : Text) (level : Option Nat)

/-- The piece without its place. -/
def Piece.lexeme : Piece → Lexeme
  | .operand text => .operand text
  | .operator occurrence => .operator occurrence.token occurrence.level

/-- The pieces of a text, without their places. -/
def Grammar.lexemes (grammar : Grammar) (text : Text) : List Lexeme :=
  (Piece.ofOccurrences text 0 (grammar.occurrences text)).map Piece.lexeme

/-- The text has a blank inside. -/
structure Text.Divided (text : Text) : Prop where
  blank : ∃ c ∈ text, Unicode.isBlank c = true
  head : text.head?.any Unicode.isBlank = false
  last : text.getLast?.any Unicode.isBlank = false

theorem Text.Divided.ne_nil {text : Text} (h : text.Divided) : text ≠ [] := by
  rintro rfl
  obtain ⟨c, hc, -⟩ := h.blank
  cases hc

/-- Two texts that are not blank, beside a blank, are divided by it. -/
theorem Text.divided_trim {a rest : Text} {b : Char} (hb : Unicode.isBlank b = true)
    (ha : Text.trim a ≠ []) (hrest : Text.trim rest ≠ []) :
    (Text.trim (a ++ b :: rest)).Divided := by
  obtain ⟨l, r, hsplit, hl, -⟩ := Text.exists_trimWhile Unicode.isBlank a
  obtain ⟨l', r', hsplitRest, -, hr'⟩ := Text.exists_trimWhile Unicode.isBlank rest
  have hhead : (Text.trim a ++ (r ++ b :: l') ++ Text.trim rest).head?.any Unicode.isBlank =
      false := by
    rw [List.append_assoc, List.head?_append_of_ne_nil _ ha]
    exact Text.head_trimWhile _ a
  have hlast : (Text.trim a ++ (r ++ b :: l') ++ Text.trim rest).getLast?.any
      Unicode.isBlank = false := by
    rw [List.getLast?_append_of_ne_nil _ hrest]
    exact Text.getLast_trimWhile _ rest
  have htrim : Text.trim (a ++ b :: rest) = Text.trim a ++ (r ++ b :: l') ++ Text.trim rest := by
    have hwhole : a ++ b :: rest =
        l ++ (Text.trim a ++ (r ++ b :: l') ++ Text.trim rest) ++ r' := by
      conv_lhs => rw [hsplit, hsplitRest]
      simp [Text.trim]
    rw [hwhole, Text.trim, Text.trimWhile_append hl hr']
    exact Text.trimWhile_eq_self hhead hlast
  rw [htrim]
  exact ⟨⟨b, by simp, hb⟩, hhead, hlast⟩

/-- The lexemes of a text that a blank divides: those of its parts, except that an operand may reach
across the blank. -/
inductive Lexeme.Joined : List Lexeme → List Lexeme → List Lexeme → Prop where
  | apart (before behind : List Lexeme) : Joined before behind (before ++ behind)
  | across (before behind : List Lexeme) (x y : Text) {z : Text} (hz : z.Divided) :
      Joined (before ++ [.operand x]) (.operand y :: behind) (before ++ .operand z :: behind)

namespace Lexeme.Joined

variable {before behind joined : List Lexeme}

/-- More lexemes in front. -/
theorem append_left (h : Joined before behind joined) (more : List Lexeme) :
    Joined (more ++ before) behind (more ++ joined) := by
  cases h with
  | apart =>
      rw [← List.append_assoc]
      exact .apart _ _
  | across before behind x y hz =>
      rw [← List.append_assoc, ← List.append_assoc]
      exact .across _ _ x y hz

/-- More lexemes at the end. -/
theorem append_right (h : Joined before behind joined) (more : List Lexeme) :
    Joined before (behind ++ more) (joined ++ more) := by
  cases h with
  | apart =>
      rw [List.append_assoc]
      exact .apart _ _
  | across before behind x y hz =>
      rw [List.append_assoc]
      exact .across _ _ x y hz

end Lexeme.Joined

namespace Piece

variable {b : Char} (hb : Unicode.isBlank b = true)

include hb in
/-- The operand of a text that a blank divides. -/
theorem joined_operands (a rest : Text) :
    Lexeme.Joined ((operands a).map lexeme) ((operands rest).map lexeme)
      ((operands (a ++ b :: rest)).map lexeme) := by
  have hblank {text : Text} (h : ∀ c ∈ text, Unicode.isBlank c = true) : operands text = [] := by
    simp [operands, Text.trim, Text.trimWhile_eq_nil_iff.mpr h]
  have hoperand {text : Text} (h : Text.trim text ≠ []) :
      operands text = [.operand (Text.trim text)] := by
    simp [operands, h]
  by_cases ha : ∀ c ∈ a, Unicode.isBlank c = true
  · have htrim : Text.trim (a ++ b :: rest) = Text.trim rest := by
      have hblanks : ∀ c ∈ a ++ [b], Unicode.isBlank c = true := by
        rw [List.forall_mem_append, List.forall_mem_singleton]
        exact ⟨ha, hb⟩
      have h := Text.trimWhile_append hblanks (List.forall_mem_nil _) rest
      rwa [List.append_nil, List.append_assoc, List.singleton_append] at h
    have hwhole : operands (a ++ b :: rest) = operands rest := by rw [operands, htrim, operands]
    rw [hwhole, hblank ha]
    exact .apart [] _
  · by_cases hrest : ∀ c ∈ rest, Unicode.isBlank c = true
    · have htrim : Text.trim (a ++ b :: rest) = Text.trim a := by
        have hblanks : ∀ c ∈ b :: rest, Unicode.isBlank c = true :=
          List.forall_mem_cons.mpr ⟨hb, hrest⟩
        exact Text.trimWhile_append (List.forall_mem_nil _) hblanks a
      have hwhole : operands (a ++ b :: rest) = operands a := by rw [operands, htrim, operands]
      have hjoined := Lexeme.Joined.apart ((operands a).map lexeme) []
      rw [List.append_nil] at hjoined
      rw [hwhole, hblank hrest]
      exact hjoined
    · have hx : Text.trim a ≠ [] := fun h => ha (Text.trimWhile_eq_nil_iff.mp h)
      have hy : Text.trim rest ≠ [] := fun h => hrest (Text.trimWhile_eq_nil_iff.mp h)
      -- Neither side is blank, so one operand reaches from the first to the second.
      have hdivided := Text.divided_trim hb hx hy
      rw [hoperand hx, hoperand hy, hoperand hdivided.ne_nil]
      exact .across [] [] _ _ hdivided

/-- The pieces behind a place of a text are those of the rest of it. -/
theorem ofOccurrences_behind (a rest : Text) (place : Nat) (behind : List Occurrence) :
    (ofOccurrences (a ++ b :: rest) (place + (a.length + 1))
      (behind.map (Occurrence.shift (a.length + 1)))).map lexeme =
      (ofOccurrences rest place behind).map lexeme := by
  induction behind generalizing place with
  | nil => rw [List.map_nil, ofOccurrences, ofOccurrences, Text.drop_append_cons]
  | cons first more ih =>
      have hstart : (first.shift (a.length + 1)).start - (place + (a.length + 1)) =
          first.start - place := by
        show first.start + (a.length + 1) - (place + (a.length + 1)) = _
        omega
      rw [List.map_cons, ofOccurrences, ofOccurrences, Text.drop_append_cons, hstart,
        Occurrence.stop_shift, List.map_append, List.map_append, List.map_cons, List.map_cons, ih]
      rfl

include hb in
/-- The pieces of a text that a blank divides. -/
theorem joined_ofOccurrences (a rest : Text) (place : Nat) (before behind : List Occurrence)
    (hplace : place ≤ a.length) (hbefore : ∀ o ∈ before, o.stop ≤ a.length) :
    Lexeme.Joined ((ofOccurrences a place before).map lexeme)
      ((ofOccurrences rest 0 behind).map lexeme)
      ((ofOccurrences (a ++ b :: rest) place
        (before ++ behind.map (Occurrence.shift (a.length + 1)))).map lexeme) := by
  induction before generalizing place with
  | nil =>
      cases behind with
      | nil =>
          rw [List.map_nil, List.append_nil, ofOccurrences, ofOccurrences, ofOccurrences,
            List.drop_append_of_le_length hplace, List.drop_zero]
          exact joined_operands hb _ rest
      | cons first more =>
          have htake : ((a ++ b :: rest).drop place).take
              ((first.shift (a.length + 1)).start - place) =
              a.drop place ++ b :: rest.take first.start := by
            have hlength : (first.shift (a.length + 1)).start - place =
                (a.drop place).length + (first.start + 1) := by
              rw [List.length_drop]
              show first.start + (a.length + 1) - place = _
              omega
            rw [List.drop_append_of_le_length hplace, hlength, List.take_length_add_append,
              List.take_succ_cons]
          rw [List.nil_append, List.map_cons, ofOccurrences, ofOccurrences, ofOccurrences, htake,
            Occurrence.stop_shift, List.map_append, List.map_append, List.map_cons, List.map_cons,
            ofOccurrences_behind, List.drop_zero, Nat.sub_zero]
          exact (joined_operands hb _ _).append_right _
  | cons first more ih =>
      rw [List.forall_mem_cons] at hbefore
      have hstart : first.start ≤ a.length :=
        Nat.le_trans (Nat.le_add_right _ _) hbefore.1
      have htake : ((a ++ b :: rest).drop place).take (first.start - place) =
          (a.drop place).take (first.start - place) := by
        rw [List.drop_append_of_le_length hplace, List.take_append_of_le_length]
        rw [List.length_drop]
        omega
      rw [List.cons_append, ofOccurrences, ofOccurrences, htake, List.map_append, List.map_append,
        List.map_cons, List.map_cons]
      exact ((ih first.stop hbefore.1 hbefore.2).append_left [_]).append_left _

end Piece

namespace Grammar

variable {grammar : Grammar} (hgrammar : grammar.Lexical) {b : Char}
  (hb : Unicode.isBlank b = true)
include hgrammar hb

/-- The lexemes of a text that a blank divides. -/
theorem joined_lexemes (a rest : Text) :
    Lexeme.Joined (grammar.lexemes a) (grammar.lexemes rest)
      (grammar.lexemes (a ++ b :: rest)) := by
  unfold lexemes
  rw [occurrences_blank hgrammar hb]
  exact Piece.joined_ofOccurrences hb a rest 0 _ _ (Nat.zero_le _) fun o ho =>
    stop_le_of_found hgrammar (mem_found_of_mem ho)

end Grammar

namespace Lexeme.Joined

variable {before behind joined : List Lexeme}

/-- An operand of joined lexemes is one of a part, or has a blank inside. -/
theorem divided_or_mem (h : Joined before behind joined) {text : Text}
    (htext : .operand text ∈ joined) :
    text.Divided ∨ .operand text ∈ before ∨ .operand text ∈ behind := by
  cases h with
  | apart => exact .inr (List.mem_append.mp htext)
  | across before behind x y hz =>
      rcases List.mem_append.mp htext with htext | htext
      · exact .inr (.inl (List.mem_append_left _ htext))
      · rcases List.mem_cons.mp htext with htext | htext
        · cases htext
          exact .inl hz
        · exact .inr (.inr (.tail _ htext))

theorem eq_behind (h : Joined before behind joined) (hempty : before = []) : joined = behind := by
  cases h with
  | apart => rw [hempty, List.nil_append]
  | across before => cases before <;> cases hempty

theorem eq_before (h : Joined before behind joined) (hempty : behind = []) : joined = before := by
  cases h with
  | apart => rw [hempty, List.append_nil]
  | across => cases hempty

end Lexeme.Joined

/-- An operand is a trimmed part of the text, and not empty. -/
theorem Piece.operand_of_mem {text operand : Text} {place : Nat} {occurrences : List Occurrence}
    (h : .operand operand ∈ ofOccurrences text place occurrences) :
    operand ≠ [] ∧ Text.trim operand = operand ∧ operand <:+: text := by
  have hpart {part : Text} (hpart : part <:+: text) (h : .operand operand ∈ operands part) :
      operand ≠ [] ∧ Text.trim operand = operand ∧ operand <:+: text := by
    unfold operands at h
    by_cases hempty : Text.trim part = []
    · simp [hempty] at h
    · simp only [List.isEmpty_iff, if_neg hempty, List.mem_singleton,
        Piece.operand.injEq] at h
      obtain ⟨l, r, hsplit, -⟩ := Text.exists_trimWhile Unicode.isBlank part
      refine ⟨h ▸ hempty, h ▸ Text.trimWhile_trimWhile _ _, h ▸ List.IsInfix.trans ?_ hpart⟩
      exact ⟨l, r, hsplit.symm⟩
  induction occurrences generalizing place with
  | nil => exact hpart (List.drop_suffix place text).isInfix h
  | cons first rest ih =>
      rcases List.mem_append.mp h with h | h
      · refine hpart ?_ h
        exact (List.take_prefix _ _).isInfix.trans (List.drop_suffix place text).isInfix
      · rcases List.mem_cons.mp h with h | h
        · cases h
        · exact ih h

namespace Grammar

variable {grammar : Grammar}

/-- An operand of a text is a trimmed part of it, and not empty. -/
theorem operand_of_mem_lexemes {text operand : Text} (h : .operand operand ∈ grammar.lexemes text) :
    operand ≠ [] ∧ Text.trim operand = operand ∧ operand <:+: text := by
  obtain ⟨piece, hpiece, heq⟩ := List.mem_map.mp h
  cases piece with
  | operator occurrence => cases heq
  | operand other =>
      cases heq
      exact Piece.operand_of_mem hpiece

theorem lexemes_of_found_nil {text : Text} (h : grammar.found text = []) :
    grammar.lexemes text = (Piece.operands text).map Piece.lexeme := by
  rw [lexemes, occurrences_eq, ordered, h, List.mergeSort_nil]
  rfl

theorem lexemes_nil (grammar : Grammar) : grammar.lexemes [] = [] := by
  have hfound : grammar.found [] = [] := by
    refine List.flatMap_eq_nil_iff.mpr ?_
    intro operator _
    simp [OperatorToken.occurrences, Text.occurrences, Text.occurrencesFrom]
  rw [lexemes_of_found_nil hfound]
  rfl

variable (hgrammar : grammar.Lexical)
include hgrammar

/-- Blanks around a text make no difference to its lexemes. -/
theorem lexemes_between {l r : Text} (hl : ∀ c ∈ l, Unicode.isBlank c = true)
    (hr : ∀ c ∈ r, Unicode.isBlank c = true) (text : Text) :
    grammar.lexemes (l ++ text ++ r) = grammar.lexemes text := by
  have hbefore : grammar.lexemes (l ++ text) = grammar.lexemes text := by
    clear hr
    induction l with
    | nil => rfl
    | cons b l ih =>
        rw [List.forall_mem_cons] at hl
        have hjoined := joined_lexemes hgrammar hl.1 [] (l ++ text)
        exact (hjoined.eq_behind (lexemes_nil grammar)).trans (ih hl.2)
  rw [← hbefore]
  generalize l ++ text = text
  induction r generalizing text with
  | nil => rw [List.append_nil]
  | cons b r ih =>
      rw [List.forall_mem_cons] at hr
      have hjoined := joined_lexemes hgrammar hr.1 text []
      rw [List.append_cons, ih hr.2]
      exact hjoined.eq_before (lexemes_nil grammar)

theorem lexemes_trim (text : Text) : grammar.lexemes (Text.trim text) = grammar.lexemes text := by
  obtain ⟨l, r, hsplit, hl, hr⟩ := Text.exists_trimWhile Unicode.isBlank text
  conv_rhs => rw [hsplit]
  exact (lexemes_between hgrammar hl hr _).symm

/-- Nothing is found in a word that is no token: a word character stands next to any token inside
it. -/
theorem found_word {word : Text} (hword : Text.isWord word = true)
    (htoken : ∀ operator ∈ grammar.operatorTokens, operator.token ≠ word) :
    grammar.found word = [] := by
  simp only [Text.isWord, Bool.and_eq_true, Bool.not_eq_true', List.isEmpty_eq_false_iff,
    List.all_eq_true] at hword
  refine List.eq_nil_iff_forall_not_mem.mpr ?_
  intro o ho
  obtain ⟨hmem, hdrop, hfits⟩ := mem_found ho
  have htokenWord : Text.isWord o.token = true := by
    obtain ⟨c, hc⟩ := List.exists_mem_of_ne_nil o.token (hgrammar.nonempty _ hmem)
    have hany : o.token.any Text.isWordChar = true :=
      List.any_eq_true.mpr ⟨c, hc, hword.2 c (List.mem_of_mem_drop (hdrop.subset hc))⟩
    have hshaped := hgrammar.shaped _ hmem
    rw [Grammar.isToken, if_pos hany, Bool.and_eq_true] at hshaped
    rw [Text.isWord, hshaped.1, Bool.and_true]
    simpa using hgrammar.nonempty _ hmem
  rw [OperatorToken.fits, if_pos htokenWord, OperatorToken.standsAlone, Bool.and_eq_true,
    Bool.not_eq_true', Bool.not_eq_true'] at hfits
  have hbefore : word.take o.start = [] := by
    cases hlast : (word.take o.start).getLast? with
    | none => exact List.getLast?_eq_none_iff.mp hlast
    | some d =>
        rw [hlast, Option.any_some,
          hword.2 d (List.mem_of_mem_take (List.mem_of_getLast? hlast))] at hfits
        cases hfits.1
  have hbehind : word.drop o.stop = [] := by
    cases hrest : word.drop o.stop with
    | nil => rfl
    | cons d rest =>
        have hd : d ∈ word := List.mem_of_mem_drop (hrest ▸ List.mem_cons_self)
        rw [hrest, List.head?_cons, Option.any_some, hword.2 d hd] at hfits
        cases hfits.2
  -- With nothing before it and nothing behind it, the token is the whole word.
  have hstart : o.start = 0 := by
    rw [List.take_eq_nil_iff] at hbefore
    exact hbefore.resolve_right hword.1
  have heq : o.token = word := by
    rw [hstart, List.drop_zero] at hdrop
    have hlength : word.length ≤ o.stop := List.drop_eq_nil_iff.mp hbehind
    refine hdrop.eq_of_length_le ?_
    rwa [Occurrence.stop, hstart, Nat.zero_add] at hlength
  exact htoken _ hmem heq

/-- A word that is no token is an operand. -/
theorem lexemes_word {word : Text} (hword : Text.isWord word = true)
    (htoken : ∀ operator ∈ grammar.operatorTokens, operator.token ≠ word) :
    grammar.lexemes word = [.operand word] := by
  have hnone := found_word hgrammar hword htoken
  simp only [Text.isWord, Bool.and_eq_true, Bool.not_eq_true', List.isEmpty_eq_false_iff,
    List.all_eq_true] at hword
  have htrim : Text.trim word = word :=
    Text.trimWhile_of_forall fun c hc => isBlank_of_isWordChar (hword.2 c hc)
  rw [lexemes_of_found_nil hnone, Piece.operands, htrim]
  simp [hword.1, Piece.lexeme]

/-- A token is found at the start of itself. -/
theorem mem_found_token {operator : OperatorToken} (h : operator ∈ grammar.operatorTokens) :
    ⟨operator.level, 0, operator.token⟩ ∈ grammar.found operator.token := by
  refine List.mem_flatMap.mpr ⟨operator, h, List.mem_map.mpr ⟨0, ?_, rfl⟩⟩
  obtain ⟨c, rest, hcons⟩ := List.exists_cons_of_ne_nil (hgrammar.nonempty operator h)
  refine List.mem_filter.mpr ⟨?_, ?_⟩
  · rw [Text.occurrences, hcons, List.isEmpty_cons, if_neg (by simp), Text.occurrencesFrom,
      if_pos (List.isPrefixOf_iff_prefix.mpr (List.prefix_refl _))]
    exact .head _
  · rw [List.take_zero, Nat.zero_add, List.drop_length]
    unfold OperatorToken.fits
    split
    · rfl
    · split <;> rfl

/-- A token is one operator. -/
theorem occurrences_token {operator : OperatorToken} (h : operator ∈ grammar.operatorTokens) :
    grammar.occurrences operator.token = [⟨operator.level, 0, operator.token⟩] := by
  have hfirst : ⟨operator.level, 0, operator.token⟩ ∈ grammar.ordered operator.token :=
    mem_ordered.mpr (mem_found_token hgrammar h)
  have hsorted := pairwise_ordered grammar operator.token
  have hmem : ∀ o ∈ grammar.ordered operator.token, o ∈ grammar.found operator.token :=
    fun o ho => mem_ordered.mp ho
  rw [occurrences_eq]
  generalize grammar.ordered operator.token = sorted at *
  have hinside : ∀ o ∈ sorted, o.start < operator.token.length := by
    intro o ho
    have hstop := stop_le_of_found hgrammar (hmem o ho)
    have hpos := List.length_pos_iff.mpr (hgrammar.nonempty _ (mem_found (hmem o ho)).1)
    unfold Occurrence.stop at hstop
    simp only at hpos
    omega
  cases sorted with
  | nil => cases hfirst
  | cons first rest =>
      -- The token itself is read before anything else that is found in it.
      have heq : first = ⟨operator.level, 0, operator.token⟩ := by
        rcases List.mem_cons.mp hfirst with heq | hrest
        · exact heq.symm
        · have hbefore := (List.pairwise_cons.mp hsorted).1 _ hrest
          refine eq_of_reads hgrammar (hmem _ (.head _)) (hmem _ (.tail _ hrest)) hbefore ?_
          have hlength := (mem_found (hmem _ (.head _))).2.1.length_le
          rw [List.length_drop] at hlength
          simp only [Occurrence.reads, Bool.or_eq_true, Bool.and_eq_true, decide_eq_true_eq,
            beq_iff_eq]
          omega
      have hcovered : ∀ o ∈ rest, o.start < first.stop := by
        intro o ho
        rw [heq, Occurrence.stop, Nat.zero_add]
        exact hinside o (.tail _ ho)
      rw [Occurrence.keepDisjoint, if_neg (Nat.not_lt_zero _),
        Occurrence.keepDisjoint_of_lt hcovered, heq]

theorem lexemes_token {operator : OperatorToken} (h : operator ∈ grammar.operatorTokens) :
    grammar.lexemes operator.token = [.operator operator.token operator.level] := by
  rw [lexemes, occurrences_token hgrammar h, Piece.ofOccurrences, Piece.ofOccurrences,
    Occurrence.stop, Nat.zero_add, List.drop_length]
  rfl

end Grammar

end Reckon
