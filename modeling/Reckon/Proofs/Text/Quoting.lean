import Reckon.Proofs.Text.Classes
import Reckon.Source.Groups
import Reckon.Text.Quoted

/-!
# Quoted texts as string literals

A text whose characters are spelled one by one, each as itself or by a short escape, is one string
literal, and the literal stands for the text: nothing inside closes it early (`split_spelled`), and
every escape is undone (`decode_spelled`). A quoted text is spelled so if its characters are those
that string literals can spell. Quoting shows any other character by its code point, which is no
escape of string literals.
-/

namespace Reckon

namespace Text

/-- The character is a printable ASCII character, a line break or a tab. -/
def isSpelled (c : Char) : Bool :=
  (0x20 ≤ c.toNat && c.toNat ≤ 0x7E) || c == '\n' || c == '\r' || c == '\t'

/-- The characters with short escapes that string literals know, and the letters of the escapes. -/
def escapes : List (Char × Char) :=
  [('"', '"'), ('\\', '\\'), ('\n', 'n'), ('\r', 'r'), ('\t', 't')]

/-- Between quotes this stands for the character: the character itself or a short escape. -/
inductive Spells : Char → Text → Prop where
  | self {c : Char} (hquote : c ≠ '"') (hslash : c ≠ '\\') : Spells c [c]
  | escape {c letter : Char} (h : (c, letter) ∈ escapes) : Spells c ['\\', letter]

/-- A printable ASCII character is shown as it is, or has a short escape. -/
theorem isPrintable_of_ascii {c : Char} (hlow : 0x20 ≤ c.toNat) (hhigh : c.toNat ≤ 0x7E) :
    Unicode.isGraphemeExtend c = false ∧ Unicode.isPrintable c = true := by
  have hextend : ∀ range ∈ Unicode.graphemeExtendRanges, range.2 < 0x20 ∨ 0x7E < range.1 := by
    decide +kernel
  have hunprintable : ∀ range ∈ Unicode.unprintableRanges, range.2 < 0x20 ∨ 0x7E < range.1 := by
    decide +kernel
  rw [Unicode.isGraphemeExtend, Unicode.isPrintable,
    Unicode.inRanges_of_apart hextend hlow hhigh, Unicode.inRanges_of_apart hunprintable hlow hhigh]
  exact ⟨rfl, rfl⟩

/-- Quoting spells a character, if string literals can. -/
theorem spells_escapeChar {c : Char} (h : isSpelled c = true) : Spells c (escapeChar c) := by
  unfold escapeChar
  split
  · exact .escape (by decide)
  · exact .escape (by decide)
  · exact .escape (by decide)
  · exact .escape (by decide)
  · exact .escape (by decide)
  · exact absurd h (by decide)
  · next hquote hslash hline hreturn htab _ =>
      have hrange : 0x20 ≤ c.toNat ∧ c.toNat ≤ 0x7E := by
        simpa [isSpelled, show c ≠ '\n' from hline, show c ≠ '\r' from hreturn,
          show c ≠ '\t' from htab] using h
      obtain ⟨hextend, hprintable⟩ := isPrintable_of_ascii hrange.1 hrange.2
      rw [hextend, hprintable]
      exact .self hquote hslash

end Text

namespace StringLiteral

open Text (Spells escapeChar isSpelled spells_escapeChar)

theorem split_plain {c : Char} (hquote : c ≠ '"') (hslash : c ≠ '\\') (rest : Text) :
    split? ['"'] false (c :: rest) =
      (split? ['"'] false rest).map fun parts => (c :: parts.1, parts.2) := by
  have hnot : ['"'].isPrefixOf (c :: rest) = false := by simp [List.isPrefixOf, hquote.symm]
  rw [split?, if_neg hslash, hnot]
  rfl

/-- What stands behind a backslash does not end a literal, whatever it is. -/
theorem split_escape (letter : Char) (rest : Text) :
    split? ['"'] false ('\\' :: letter :: rest) =
      (split? ['"'] false rest).map fun parts => ('\\' :: letter :: parts.1, parts.2) := by
  rw [split?, if_pos rfl, split?, Option.map_map]
  rfl

/-- A text that is spelled between quotes ends at its closing quote. -/
theorem split_spelled {spell : Char → Text} {text : Text} (h : ∀ c ∈ text, Spells c (spell c))
    (after : Text) :
    split? ['"'] false (text.flatMap spell ++ '"' :: after) = some (text.flatMap spell, after) := by
  induction text with
  | nil => rfl
  | cons c text ih =>
      obtain ⟨hc, htext⟩ := List.forall_mem_cons.mp h
      rw [List.flatMap_cons, List.append_assoc]
      generalize spell c = spelling at hc ⊢
      cases hc with
      | self hquote hslash =>
          rw [List.singleton_append, List.singleton_append, split_plain hquote hslash, ih htext]
          rfl
      | escape =>
          rw [List.cons_append, List.singleton_append, split_escape, ih htext]
          rfl

theorem split_escaped {text : Text} (h : ∀ c ∈ text, isSpelled c = true) (after : Text) :
    split? ['"'] false (text.flatMap escapeChar ++ '"' :: after) =
      some (text.flatMap escapeChar, after) :=
  split_spelled (fun c hc => spells_escapeChar (h c hc)) after

theorem decodeFrom_plain {c : Char} (hslash : c ≠ '\\') (rest : Text) :
    decodeFrom ['"'] 0 (c :: rest) = (decodeFrom ['"'] 0 rest).map (c :: ·) := by
  rw [decodeFrom]
  exact fun heq => hslash heq

theorem decodeFrom_escape {c letter : Char} (h : (c, letter) ∈ Text.escapes) (rest : Text) :
    decodeFrom ['"'] 0 ('\\' :: letter :: rest) = (decodeFrom ['"'] 0 rest).map (c :: ·) := by
  simp only [Text.escapes, List.mem_cons, List.not_mem_nil, or_false, Prod.mk.injEq] at h
  rcases h with ⟨rfl, rfl⟩ | ⟨rfl, rfl⟩ | ⟨rfl, rfl⟩ | ⟨rfl, rfl⟩ | ⟨rfl, rfl⟩ <;>
    simp [decodeFrom, List.isPrefixOf]

/-- A text that is spelled between quotes is decoded to itself. -/
theorem decode_spelled {spell : Char → Text} {text : Text} (h : ∀ c ∈ text, Spells c (spell c)) :
    decode ['"'] (text.flatMap spell) = .ok text := by
  induction text with
  | nil => rfl
  | cons c text ih =>
      obtain ⟨hc, htext⟩ := List.forall_mem_cons.mp h
      have hrest := ih htext
      rw [decode] at hrest ⊢
      rw [List.flatMap_cons]
      generalize spell c = spelling at hc ⊢
      cases hc with
      | self hquote hslash =>
          rw [List.singleton_append, decodeFrom_plain hslash, hrest]
          rfl
      | escape hletter =>
          rw [List.cons_append, List.singleton_append, decodeFrom_escape hletter, hrest]
          rfl

theorem decode_escaped {text : Text} (h : ∀ c ∈ text, isSpelled c = true) :
    decode ['"'] (text.flatMap escapeChar) = .ok text :=
  decode_spelled fun c hc => spells_escapeChar (h c hc)

end StringLiteral

end Reckon
