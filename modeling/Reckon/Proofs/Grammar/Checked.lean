import Reckon.Proofs.Fallible
import Reckon.Source.Occurrence

/-!
# Grammars that can be compiled against

What `Grammar.check` says of the parts of a grammar: its punctuation is never part of a word
(`punctuated_of_check`), its tokens have a shape that can be found in a text (`tokens_of_check`),
and each of them stands for an operator (`operators_of_check`).
-/

namespace Reckon.Grammar

variable {grammar : Grammar}

/-- A grammar that passes the check has parts that pass theirs, and its parentheses differ. -/
theorem check_eq_ok (h : grammar.check = .ok ()) :
    (∀ role text, (role, text) ∈ grammar.punctuation → checkPunctuation role text = .ok ()) ∧
      grammar.opening ≠ grammar.closing ∧
      (∀ entry ∈ grammar.operators.tokens, checkBinaryToken entry.2 = .ok ()) ∧
      ∀ token ∈ grammar.prefixes, checkPrefixToken token = .ok () := by
  obtain ⟨⟨⟩, hpunctuation, h⟩ := bind_eq_ok.mp h
  have hmarks (role : Punctuation) (text : Text) (hmem : (role, text) ∈ grammar.punctuation) :
      checkPunctuation role text = .ok () := forall_of_forM hpunctuation _ hmem
  by_cases hsame : grammar.opening = grammar.closing
  · rw [if_pos hsame] at h
    cases h
  · rw [if_neg hsame] at h
    obtain ⟨⟨⟩, hbinary, hfront⟩ := bind_eq_ok.mp h
    exact ⟨hmarks, hsame, forall_of_forM hbinary, forall_of_forM hfront⟩

/-- The punctuation of the grammar is not empty and is in no word, and the parentheses differ. -/
structure Punctuated (grammar : Grammar) : Prop where
  nonempty : ∀ entry ∈ grammar.punctuation, entry.2 ≠ []
  marks : ∀ entry ∈ grammar.punctuation, ∀ c ∈ entry.2, Text.isWordChar c = false
  apart : grammar.opening ≠ grammar.closing

/-- A grammar that can be compiled against is punctuated. -/
theorem punctuated_of_check (h : grammar.check = .ok ()) : grammar.Punctuated := by
  obtain ⟨hpunctuation, hapart, -⟩ := check_eq_ok h
  have hmarks (role : Punctuation) (text : Text) (hmem : (role, text) ∈ grammar.punctuation) :
      text ≠ [] ∧ ∀ c ∈ text, Text.isWordChar c = false := by
    have hcheck := hpunctuation role text hmem
    unfold checkPunctuation at hcheck
    split at hcheck
    · cases hcheck
    · next hshape => simpa [not_or] using hshape
  exact ⟨fun entry hentry => (hmarks entry.1 entry.2 hentry).1,
    fun entry hentry => (hmarks entry.1 entry.2 hentry).2, hapart⟩

/-- A token that passes the check is not empty, and is a word or free of word characters. -/
theorem checkToken_eq_ok {token : Text} (h : checkToken token = .ok ()) :
    token ≠ [] ∧ isToken token = true := by
  unfold checkToken at h
  split at h
  · cases h
  · next hne =>
      split at h
      · next hshape => exact ⟨by simpa using hne, hshape⟩
      · cases h

/-- Every token of a grammar that can be compiled against has a shape that can be found in a
text. -/
theorem tokens_of_check (h : grammar.check = .ok ()) :
    ∀ operator ∈ grammar.operatorTokens,
      operator.token ≠ [] ∧ isToken operator.token = true := by
  obtain ⟨-, -, hbinary, hfront⟩ := check_eq_ok h
  intro operator hoperator
  rcases List.mem_append.mp hoperator with hmem | hmem
  · obtain ⟨entry, hentry, rfl⟩ := List.mem_map.mp hmem
    obtain ⟨⟨⟩, htoken, -⟩ := bind_eq_ok.mp (hbinary entry hentry)
    exact checkToken_eq_ok htoken
  · obtain ⟨token, htoken, rfl⟩ := List.mem_map.mp hmem
    have hmem := List.mem_eraseDups.mp (List.mem_filter.mp htoken).1
    obtain ⟨⟨⟩, htoken, -⟩ := bind_eq_ok.mp (hfront token hmem)
    exact checkToken_eq_ok htoken

/-- In a grammar that can be compiled against, every token stands for an operator. -/
theorem operators_of_check (h : grammar.check = .ok ()) :
    (∀ entry ∈ grammar.operators.tokens, (BinaryOperator.ofToken? entry.2).isSome = true) ∧
      ∀ token ∈ grammar.prefixes, (UnaryOperator.ofToken? token).isSome = true := by
  obtain ⟨-, -, hbinary, hfront⟩ := check_eq_ok h
  constructor
  · intro entry hentry
    obtain ⟨⟨⟩, -, hentry⟩ := bind_eq_ok.mp (hbinary entry hentry)
    cases hoperator : BinaryOperator.ofToken? entry.2 with
    | some operator => rfl
    | none => simp [hoperator, throw, throwThe, MonadExceptOf.throw] at hentry
  · intro token htoken
    obtain ⟨⟨⟩, -, htoken⟩ := bind_eq_ok.mp (hfront token htoken)
    cases hoperator : UnaryOperator.ofToken? token with
    | some operator => rfl
    | none => simp [hoperator, throw, throwThe, MonadExceptOf.throw] at htoken

end Reckon.Grammar
