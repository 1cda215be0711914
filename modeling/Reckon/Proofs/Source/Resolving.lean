import Reckon.Proofs.Grammar.Checked
import Reckon.Proofs.Source.Closed

/-!
# Steps of cutting keep the table closed

Every step of `Grammar.cutGroups` takes a group out of the text and puts in names of symbols with
blanks and separators between them. So no word is ever joined to another or divided, and the text
goes on to consist of words of the source and of names that have been issued. Each step also makes
one character of the parentheses rarer (`step_sound`).
-/

namespace Reckon

namespace ConstantTable

/-- The names of the table are numbered names of constants. -/
structure Numbered (table : ConstantTable) : Prop where
  stem : table.names.stem = "__k".toList
  names : ∀ entry ∈ table.entries, ∃ n, entry.name = NameSupply.nameOf "__k".toList n

/-- What is entered gets a numbered name, and the quote of the table stays. -/
theorem Numbered.enter {table learned : ConstantTable} (h : table.Numbered) {text name : Text}
    (henter : table.enter text = .ok (some name, learned)) :
    learned.Numbered ∧ learned.quote = table.quote ∧
      ∃ n, name = NameSupply.nameOf "__k".toList n := by
  unfold ConstantTable.enter at henter
  simp only at henter
  split at henter
  · next entry hentry =>
      cases henter
      exact ⟨h, rfl, h.names entry (List.mem_of_find?_eq_some hentry)⟩
  · split at henter
    · cases henter
    · cases henter
    · cases henter
      have htaken : ∃ n, table.names.take.1 = NameSupply.nameOf "__k".toList n :=
        ⟨_, congrArg (NameSupply.nameOf · _) h.stem⟩
      refine ⟨⟨h.stem, ?_⟩, rfl, htaken⟩
      exact List.forall_mem_append.mpr ⟨h.names, List.forall_mem_singleton.mpr htaken⟩

end ConstantTable

namespace StringLiteral

/-- A literal and what stands behind it make up the text, whatever the quote is. -/
theorem append_of_split {quote text body after : Text} {escaped : Bool}
    (h : split? quote escaped text = some (body, after)) : text = body ++ quote ++ after := by
  induction text generalizing escaped body with
  | nil => cases escaped <;> cases h
  | cons c text ih =>
      have hrest {escaped : Bool}
          (h : (split? quote escaped text).map (fun parts => (c :: parts.1, parts.2)) =
            some (body, after)) : c :: text = body ++ quote ++ after := by
        obtain ⟨⟨rest, behind⟩, hsplit, heq⟩ := Option.map_eq_some_iff.mp h
        cases heq
        rw [ih hsplit]
        rfl
      cases escaped with
      | true => exact hrest h
      | false =>
          unfold split? at h
          split at h
          · exact hrest h
          · split at h
            · next hquote =>
                obtain ⟨rest, heq⟩ := List.isPrefixOf_iff_prefix.mp hquote
                cases h
                rw [← heq, List.drop_left, List.nil_append]
            · exact hrest h

/-- The text without its string literals has the words that it had outside of them, and names of
constants. -/
theorem speaks_extract {P : Text → Prop} (hconstant : ∀ n, P (NameSupply.nameOf "__k".toList n))
    {constants : ConstantTable} (hne : constants.quote ≠ [])
    (hmarks : ∀ c ∈ constants.quote, Text.isWordChar c = false) (hnumbered : constants.Numbered)
    {text result : Text} {learned : ConstantTable} (htext : text.Speaks P)
    (h : extract constants text = .ok (result, learned)) : result.Speaks P := by
  have hname (n : Nat) {before rest : Text} (hbefore : before.Speaks P) (hrest : rest.Speaks P) :
      (before ++ ' ' :: NameSupply.nameOf "__k".toList n ++ ' ' :: rest).Speaks P := by
    have hblank : Text.isWordChar ' ' = false := isWordChar_of_blank (by decide)
    rw [Text.speaks_append_cons hblank, Text.speaks_append_cons hblank]
    refine ⟨⟨hbefore, ?_⟩, hrest⟩
    have hword : Text.isWord (NameSupply.nameOf "__k".toList n) = true :=
      NameSupply.isWord_nameOf (by decide) n
    rw [Text.isWord, Bool.and_eq_true, List.all_eq_true] at hword
    intro word hmem _
    rw [Text.words_of_forall hword.2, List.mem_singleton] at hmem
    exact hmem ▸ hconstant n
  have hsides {quote before rest body after text : Text} (hne : quote ≠ [])
      (hmarks : ∀ c ∈ quote, Text.isWordChar c = false) (htext : text.Speaks P)
      (hfirst : Text.splitFirst quote text = some (before, rest))
      (hsplit : split? quote false rest = some (body, after)) :
      before.Speaks P ∧ after.Speaks P := by
    rw [Text.eq_of_splitFirst hfirst, Text.speaks_append_mark hmarks hne,
      append_of_split hsplit, Text.speaks_append_mark hmarks hne] at htext
    exact ⟨htext.1, htext.2.2⟩
  fun_induction extract constants text generalizing result learned with
  | case1 constants text quote hfirst =>
      cases h
      exact htext
  | case2 | case3 | case4 => cases h
  | case5 constants text quote before rest hfirst body after hsplit literal name entered henter
      hlt ih =>
      obtain ⟨hbefore, hafter⟩ := hsides hne hmarks htext hfirst hsplit
      obtain ⟨hentered, hquote, n, rfl⟩ := hnumbered.enter henter
      cases hrest : extract entered after with
      | error fault =>
          rw [hrest] at h
          cases h
      | ok parts =>
          rw [hrest] at h
          cases h
          exact hname n hbefore (ih (hquote ▸ hne) (hquote ▸ hmarks) hentered hafter hrest)
  | case6 constants text quote before rest hfirst body after hsplit literal name entered henter
      hlt =>
      obtain ⟨hbefore, hafter⟩ := hsides hne hmarks htext hfirst hsplit
      obtain ⟨-, -, n, rfl⟩ := hnumbered.enter henter
      cases h
      exact hname n hbefore hafter

end StringLiteral

/-- Where names without a character stand in place of pieces, the character is not more frequent. -/
theorem count_intercalate_le (separator : Text) {c : Char} {names pieces : List Text}
    (hlength : names.length = pieces.length) (hnames : ∀ name ∈ names, c ∉ name) :
    (separator.intercalate names).count c ≤ (separator.intercalate pieces).count c := by
  induction names generalizing pieces with
  | nil => simp
  | cons name names ih =>
      obtain ⟨piece, pieces, rfl⟩ : ∃ piece others, pieces = piece :: others :=
        List.exists_cons_of_length_eq_add_one hlength.symm
      rw [List.forall_mem_cons] at hnames
      have hname : name.count c = 0 := List.count_eq_zero.mpr hnames.1
      have hlength : names.length = pieces.length := by simpa using hlength
      cases names with
      | nil => simp [List.intercalate, hname]
      | cons next names =>
          obtain ⟨second, pieces, rfl⟩ : ∃ second others, pieces = second :: others :=
            List.exists_cons_of_length_eq_add_one hlength.symm
          have hrest := ih hlength hnames.2
          rw [List.intercalate_cons_cons, List.intercalate_cons_cons]
          simp only [List.count_append, hname]
          omega

namespace Grammar

open SymbolTable (Closed Extends Settled)

/-- What is put in place of a group: the words are settled, and no punctuation is new. -/
structure Replaces (grammar : Grammar) (source : Text) (table : SymbolTable) (inner : Text)
    (replacement : Text) (other : SymbolTable) : Prop where
  grown : Extends grammar source table other
  words : replacement.Speaks (Settled source other.symbols)
  count_le : ∀ c, Text.isWordChar c = false → replacement.count c ≤ inner.count c

variable {grammar : Grammar} {source : Text} {table other : SymbolTable}

/-- The name of a symbol is a settled word, and nothing else. -/
theorem speaks_nameOf (h : table.Closed grammar source) {id : Nat} (hid : id < table.size) :
    (table.nameOf id).Speaks (Settled source table.symbols) ∧
      ∀ c, Text.isWordChar c = false → c ∉ table.nameOf id := by
  have hmem := SymbolTable.nameOf_mem hid
  obtain ⟨symbol, hsymbol, hname⟩ := List.mem_map.mp hmem
  have hgenerated : Generated source (table.nameOf id) :=
    hname ▸ h.regular.generated symbol hsymbol
  refine ⟨fun word hword _ => ?_, fun c hc => hgenerated.not_mem hc⟩
  rw [Text.words_of_forall fun c hc => hgenerated.isWordChar_of_mem hc,
    List.mem_singleton] at hword
  exact hword ▸ SymbolTable.settled_of_mem hmem

/-- Flat texts of settled words are entered as symbols of the table. -/
theorem closed_pieceSymbols {fault : SyntaxFault} {pieces : List Text} {ids : List Nat}
    (h : table.Closed grammar source)
    (hpieces : ∀ piece ∈ pieces,
      grammar.IsFlat piece ∧ piece.Speaks (Settled source table.symbols))
    (hrun : pieceSymbols fault table pieces = .ok (ids, other)) :
    Extends grammar source table other ∧ ids.length = pieces.length ∧
      ∀ id ∈ ids, id < other.size := by
  induction pieces generalizing table ids with
  | nil =>
      cases hrun
      exact ⟨h.extends, rfl, List.forall_mem_nil _⟩
  | cons piece pieces ih =>
      rw [List.forall_mem_cons] at hpieces
      unfold pieceSymbols at hrun
      split at hrun
      · cases hrun
      · obtain ⟨⟨rest, last⟩, hrest, hrun⟩ := bind_eq_ok.mp hrun
        cases hrun
        obtain ⟨hgrown, hid⟩ := h.enterExpression hpieces.1.1 hpieces.1.2
        have hothers : ∀ other ∈ pieces, grammar.IsFlat other ∧
            other.Speaks (Settled source (table.enterExpression piece).2.symbols) :=
          fun other hother => ⟨(hpieces.2 other hother).1,
            (hpieces.2 other hother).2.mono fun _ => Settled.mono hgrown.grown⟩
        obtain ⟨hlast, hlength, hids⟩ := ih hgrown.closed hothers hrest
        exact ⟨hgrown.trans hlast, congrArg (· + 1) hlength,
          List.forall_mem_cons.mpr ⟨hlast.lt_size hid, hids⟩⟩

variable (hgrammar : grammar.Punctuated)
include hgrammar

/-- The pieces of an innermost group are flat texts of settled words. -/
theorem flat_splitOn {inner : Text} (hopening : ¬ grammar.opening <:+: inner)
    (hclosing : ¬ grammar.closing <:+: inner)
    (hwords : inner.Speaks (Settled source table.symbols)) :
    ∀ piece ∈ Text.splitOn grammar.separator inner,
      grammar.IsFlat piece ∧ piece.Speaks (Settled source table.symbols) := by
  have hseparator : (Punctuation.separator, grammar.separator) ∈ grammar.punctuation := by
    simp [punctuation]
  have hne := hgrammar.nonempty _ hseparator
  obtain ⟨hpieces, hjoin⟩ := Text.splitOn_spec hne inner
  intro piece hpiece
  obtain ⟨hpart, hseparated⟩ := hpieces piece hpiece
  rw [← hjoin, Text.speaks_intercalate (hgrammar.marks _ hseparator) hne] at hwords
  exact ⟨⟨fun h => hopening (h.trans hpart), fun h => hclosing (h.trans hpart),
    hseparated⟩, hwords piece hpiece⟩

/-- A call is replaced by the name of its symbol. -/
theorem replaces_callSymbol {name inner replacement : Text} (h : table.Closed grammar source)
    (hopening : ¬ grammar.opening <:+: inner) (hclosing : ¬ grammar.closing <:+: inner)
    (hwords : inner.Speaks (Settled source table.symbols))
    (hrun : grammar.callSymbol table name inner = .ok (replacement, other)) :
    Replaces grammar source table inner replacement other := by
  obtain ⟨⟨ids, entered⟩, hpieces, hrun⟩ := bind_eq_ok.mp hrun
  cases hrun
  obtain ⟨hgrown, -, hids⟩ := closed_pieceSymbols h (fun piece hpiece => by
    split at hpiece
    · cases hpiece
    · exact flat_splitOn hgrammar hopening hclosing hwords piece hpiece) hpieces
  obtain ⟨hcall, hid⟩ := hgrown.closed.enterCall name hids
  obtain ⟨hname, hmarks⟩ := speaks_nameOf hcall.closed hid
  exact ⟨hgrown.trans hcall, hname, fun c hc =>
    (List.count_eq_zero.mpr (hmarks c hc)).le.trans (Nat.zero_le _)⟩

/-- A group is replaced by the names of its symbols, with the separators between them. -/
theorem replaces_groupSymbols {inner replacement : Text} (h : table.Closed grammar source)
    (hopening : ¬ grammar.opening <:+: inner) (hclosing : ¬ grammar.closing <:+: inner)
    (hwords : inner.Speaks (Settled source table.symbols))
    (hrun : grammar.groupSymbols table inner = .ok (replacement, other)) :
    Replaces grammar source table inner replacement other := by
  have hseparator : (Punctuation.separator, grammar.separator) ∈ grammar.punctuation := by
    simp [punctuation]
  unfold groupSymbols at hrun
  split at hrun
  · cases hrun
  · obtain ⟨⟨ids, entered⟩, hpieces, hrun⟩ := bind_eq_ok.mp hrun
    cases hrun
    obtain ⟨hgrown, hlength, hids⟩ :=
      closed_pieceSymbols h (flat_splitOn hgrammar hopening hclosing hwords) hpieces
    have hnames : ∀ name ∈ ids.map other.nameOf,
        Text.Speaks (Settled source other.symbols) name ∧
          ∀ c, Text.isWordChar c = false → c ∉ name := by
      rw [List.forall_mem_map]
      exact fun id hid => speaks_nameOf hgrown.closed (hids id hid)
    have hne := hgrammar.nonempty _ hseparator
    refine ⟨hgrown, ?_, fun c hc => ?_⟩
    · rw [Text.speaks_intercalate (hgrammar.marks _ hseparator) hne]
      exact fun name hname => (hnames name hname).1
    · have hsame : (ids.map other.nameOf).length =
          (Text.splitOn grammar.separator inner).length := by simpa using hlength
      have hcount := count_intercalate_le grammar.separator hsame
        fun name hname => (hnames name hname).2 c hc
      rwa [(Text.splitOn_spec hne inner).2] at hcount

end Grammar

/-- The table is closed, and the words of the text are settled. -/
structure Working.Sound (grammar : Grammar) (source : Text) (working : Working) : Prop where
  closed : working.symbols.Closed grammar source
  words : working.text.Speaks (SymbolTable.Settled source working.symbols.symbols)

namespace Grammar

open SymbolTable (Extends Settled)

/-- The character is in no word, and is more frequent in a pair of parentheses than in two
spaces. -/
structure Wears (grammar : Grammar) (c : Char) : Prop where
  mark : Text.isWordChar c = false
  lt : [' ', ' '].count c < grammar.opening.count c + grammar.closing.count c

variable {grammar : Grammar} {source : Text} {constants : ConstantTable} {working next : Working}
  (hgrammar : grammar.Punctuated)
include hgrammar

/-- Some character wears: one that is no space, or else the space itself, because parentheses that
are made of spaces differ in their lengths. -/
theorem exists_wears : ∃ c, grammar.Wears c := by
  have hopening := hgrammar.nonempty (.opening, grammar.opening) (by simp [punctuation])
  have hclosing := hgrammar.nonempty (.closing, grammar.closing) (by simp [punctuation])
  have hmarks : ∀ c ∈ grammar.opening ++ grammar.closing, Text.isWordChar c = false :=
    List.forall_mem_append.mpr ⟨hgrammar.marks (.opening, _) (by simp [punctuation]),
      hgrammar.marks (.closing, _) (by simp [punctuation])⟩
  by_cases hspace : ∀ c ∈ grammar.opening ++ grammar.closing, c = ' '
  · rw [List.forall_mem_append] at hspace
    have hopening' := List.eq_replicate_iff.mpr ⟨rfl, hspace.1⟩
    have hclosing' := List.eq_replicate_iff.mpr ⟨rfl, hspace.2⟩
    have hlength : grammar.opening.length ≠ grammar.closing.length := fun hsame =>
      hgrammar.apart (by rw [hopening', hclosing', hsame])
    refine ⟨' ', isWordChar_of_blank (by decide), ?_⟩
    rw [hopening', hclosing', List.count_replicate_self, List.count_replicate_self]
    have hopening := List.length_pos_iff.mpr hopening
    have hclosing := List.length_pos_iff.mpr hclosing
    have htwo : [' ', ' '].count ' ' = 2 := by decide
    simp only at hopening hclosing
    omega
  · push Not at hspace
    obtain ⟨c, hc, hne⟩ := hspace
    refine ⟨c, hmarks c hc, ?_⟩
    have hpos := List.count_pos_iff.mpr hc
    rw [List.count_append] at hpos
    have hnone : [' ', ' '].count c = 0 := by
      rw [List.count_eq_zero]
      simp [hne]
    omega

/-- Parentheses divide a text, so its words are those of the parts. -/
theorem speaks_group {P : Text → Prop} {head inner after : Text}
    (h : (head ++ grammar.opening ++ (inner ++ grammar.closing ++ after)).Speaks P) :
    head.Speaks P ∧ inner.Speaks P ∧ after.Speaks P := by
  have hopening : (Punctuation.opening, grammar.opening) ∈ grammar.punctuation := by
    simp [punctuation]
  have hclosing : (Punctuation.closing, grammar.closing) ∈ grammar.punctuation := by
    simp [punctuation]
  rwa [Text.speaks_append_mark (hgrammar.marks _ hopening) (hgrammar.nonempty _ hopening),
    Text.speaks_append_mark (hgrammar.marks _ hclosing) (hgrammar.nonempty _ hclosing)] at h

omit hgrammar in
/-- Putting a replacement between the text before a group and the text behind it. -/
theorem sound_replace {front head inner after replacement : Text} {symbols : SymbolTable}
    (htext : working.text = head ++ grammar.opening ++ (inner ++ grammar.closing ++ after))
    (hfront : front.Speaks (Settled source working.symbols.symbols))
    (hafter : after.Speaks (Settled source working.symbols.symbols))
    (hcount : ∀ c, front.count c ≤ head.count c)
    (hreplaces : Replaces grammar source working.symbols inner replacement symbols) :
    Working.Sound grammar source ⟨front ++ ' ' :: replacement ++ ' ' :: after, symbols⟩ ∧
      ∀ c, grammar.Wears c →
        (front ++ ' ' :: replacement ++ ' ' :: after).count c < working.text.count c := by
  have hblank : Text.isWordChar ' ' = false := isWordChar_of_blank (by decide)
  refine ⟨⟨hreplaces.grown.closed, ?_⟩, fun c hc => ?_⟩
  · have hmono (word : Text) : Settled source working.symbols.symbols word →
        Settled source symbols.symbols word := Settled.mono hreplaces.grown.grown
    rw [Text.speaks_append_cons hblank, Text.speaks_append_cons hblank]
    exact ⟨⟨hfront.mono hmono, hreplaces.words⟩, hafter.mono hmono⟩
  · have hold : working.text.count c = head.count c + grammar.opening.count c +
        (inner.count c + grammar.closing.count c + after.count c) := by
      simp only [htext, List.count_append]
    have hnew : (front ++ ' ' :: replacement ++ ' ' :: after).count c =
        front.count c + replacement.count c + after.count c + [' ', ' '].count c := by
      simp only [List.count_append, List.count_cons, List.count_nil]
      omega
    have hlt := hc.lt
    have hhead := hcount c
    have hinner := hreplaces.count_le c hc.mark
    omega

omit hgrammar in
/-- What is called stands at the end of the text before the group, and is taken off it. -/
theorem stem_of_callee {symbols : SymbolTable} {head stem name : Text}
    (h : grammar.callee? symbols constants head = .ok (some (stem, name))) :
    stem = Text.dropEndWhile Text.isWordChar (Text.trimEnd head) := by
  unfold callee? at h
  simp only at h
  split at h
  · cases h
  · split at h
    · cases h
    · cases h
      rfl

/-- A step keeps the table closed and the words settled, and makes characters that wear rarer. -/
theorem step_sound (h : working.Sound grammar source)
    (hstep : grammar.cutStep constants working = .ok (some next)) :
    next.Sound grammar source ∧
      ∀ c, grammar.Wears c → next.text.count c < working.text.count c := by
  unfold cutStep at hstep
  split at hstep
  · cases hstep
  · next before after hfirst =>
      split at hstep
      · cases hstep
      · next head inner hlast =>
          obtain ⟨hbefore, hopening⟩ :=
            Text.splitLast_spec (hgrammar.nonempty (.opening, _) (by simp [punctuation])) hlast
          have hclosing : ¬ grammar.closing <:+: inner := fun hfound =>
            Text.not_isInfix_before (hgrammar.nonempty (.closing, _) (by simp [punctuation])) hfirst
              (hfound.trans ⟨head ++ grammar.opening, [], by simp [hbefore]⟩)
          have htext : working.text =
              head ++ grammar.opening ++ (inner ++ grammar.closing ++ after) := by
            rw [Text.eq_of_splitFirst hfirst, hbefore]
            simp
          obtain ⟨hhead, hinner, hafter⟩ := speaks_group hgrammar (htext ▸ h.words)
          obtain ⟨callee, hcallee, hstep⟩ := bind_eq_ok.mp hstep
          cases callee with
          | none =>
              obtain ⟨⟨replacement, symbols⟩, hgroup, hstep⟩ := bind_eq_ok.mp hstep
              cases hstep
              exact sound_replace htext hhead hafter (fun _ => Nat.le_refl _)
                (replaces_groupSymbols hgrammar h.closed hopening hclosing hinner hgroup)
          | some callee =>
              obtain ⟨stem, name⟩ := callee
              obtain ⟨⟨replacement, symbols⟩, hcall, hstep⟩ := bind_eq_ok.mp hstep
              cases hstep
              obtain rfl := stem_of_callee hcallee
              have hstem := (Text.dropEndWhile_isPrefix Text.isWordChar (Text.trimEnd head)).trans
                (Text.dropEndWhile_isPrefix Unicode.isBlank head)
              exact sound_replace htext (Text.speaks_trimEnd.mpr hhead).dropEndWord hafter
                (fun c => hstem.sublist.count_le c)
                (replaces_callSymbol hgrammar h.closed hopening hclosing hinner hcall)

omit hgrammar in
/-- Nothing is replaced exactly if no closing parenthesis is left. -/
theorem cutStep_eq_none :
    grammar.cutStep constants working = .ok none ↔ ¬ grammar.closing <:+: working.text := by
  unfold cutStep
  constructor
  · intro hstep
    refine Text.not_isInfix_of_splitFirst ?_
    split at hstep
    · next hnone => exact hnone
    · split at hstep
      · cases hstep
      · obtain ⟨callee, -, hstep⟩ := bind_eq_ok.mp hstep
        cases callee with
        | none =>
            obtain ⟨_, -, hstep⟩ := bind_eq_ok.mp hstep
            cases hstep
        | some callee =>
            obtain ⟨_, -, hstep⟩ := bind_eq_ok.mp hstep
            cases hstep
  · intro hclosing
    split
    · rfl
    · next before after hfirst =>
        exact absurd ⟨before, after, (Text.eq_of_splitFirst hfirst).symm⟩ hclosing

omit hgrammar in
/-- A text that is no longer cut is entered as the root of a closed table. -/
theorem closed_finish {symbols : SymbolTable} (h : working.Sound grammar source)
    (hclosing : ¬ grammar.closing <:+: working.text)
    (hfinish : grammar.finish working = .ok symbols) :
    symbols.Closed grammar source ∧ ∃ root < symbols.size, symbols.root = some root := by
  unfold finish at hfinish
  split at hfinish
  · cases hfinish
  · next hopening =>
      split at hfinish
      · cases hfinish
      · next hseparator =>
          split at hfinish
          · cases hfinish
          · cases hfinish
            rw [Text.contains_iff_isInfix] at hopening hseparator
            obtain ⟨hgrown, hid⟩ :=
              h.closed.enterExpression ⟨hopening, hclosing, hseparator⟩ h.words
            exact ⟨⟨⟨hgrown.closed.regular.stem, hgrown.closed.regular.source,
              hgrown.closed.regular.issued⟩, hgrown.closed.inOrder⟩, _, hid, rfl⟩

/-- Without string literals, a source says no name that could be issued. -/
theorem settled_extract {text : Text} {learned : ConstantTable}
    (h : StringLiteral.extract (.empty grammar.quote source) source = .ok (text, learned)) :
    text.Speaks (Settled source []) := by
  have hquote : (Punctuation.quote, grammar.quote) ∈ grammar.punctuation := by simp [punctuation]
  have hconstant (n : Nat) : Settled source [] (NameSupply.nameOf "__k".toList n) := by
    -- The stems differ in their third character.
    intro m hname
    have hstems := congrArg (·[2]?) hname
    cases hstems
  have hsource : source.Speaks (Settled source []) :=
    (Text.speaks_of_isInfix source).mono fun word hword n _ hhidden => absurd hword hhidden
  exact StringLiteral.speaks_extract hconstant (hgrammar.nonempty _ hquote)
    (hgrammar.marks _ hquote) ⟨rfl, List.forall_mem_nil _⟩ hsource h

/-- Cutting starts with an empty table and settled words. -/
theorem sound_extract {text : Text} {learned : ConstantTable}
    (h : StringLiteral.extract (.empty grammar.quote source) source = .ok (text, learned)) :
    Working.Sound grammar source ⟨text, .empty source⟩ :=
  ⟨SymbolTable.closed_empty grammar source, settled_extract hgrammar h⟩

end Grammar

end Reckon
