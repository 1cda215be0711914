import Reckon.Proofs.Value.Literals
import Reckon.Value.Reading

/-!
# Bytes and the pairs that spell them

Two characters spell a byte. `Hex.decode_exact` says which texts spell bytes and what their bytes
are written as: on texts without a plus sign the hex digits in pairs, and nothing else. A plus sign
in the first place of a pair is taken too, and counts as a zero (`Hex.decode_plus`).
-/

namespace Reckon.Hex

/-- A hex digit of either case. -/
def HexDigit (c : Char) : Prop :=
  '0' ≤ c ∧ c ≤ '9' ∨ 'a' ≤ c ∧ c ≤ 'f' ∨ 'A' ≤ c ∧ c ≤ 'F'

/-- Hex digits are recognized. -/
theorem isDigit_iff {c : Char} : isDigit c = true ↔ HexDigit c := by
  simp only [isDigit, digitValue?, Bool.and_eq_true, decide_eq_true_eq]
  unfold HexDigit
  split
  · next h => exact iff_of_true rfl (.inl h)
  · next hdecimal =>
      split
      · next h => exact iff_of_true rfl (.inr (.inl h))
      · next hlower =>
          split
          · next h => exact iff_of_true rfl (.inr (.inr h))
          · next hupper =>
              refine iff_of_false Bool.false_ne_true ?_
              rintro (h | h | h)
              · exact hdecimal h
              · exact hlower h
              · exact hupper h

theorem toNat_lt_of_hexDigit {c : Char} (h : HexDigit c) : c.toNat < 128 := by
  have hbound {high : Char} (hle : c ≤ high) (hhigh : high.toNat < 128) : c.toNat < 128 :=
    Nat.lt_of_le_of_lt (UInt32.le_iff_toNat_le.mp hle) hhigh
  rcases h with ⟨-, h⟩ | ⟨-, h⟩ | ⟨-, h⟩ <;> exact hbound h (by decide)

/-- The value of a hex digit is below sixteen, and its digit is the same one in lower case. -/
theorem digitChar_digitValue {c : Char} (h : HexDigit c) :
    ∃ n < 16, digitValue? c = some n ∧ Nat.digitChar n = c.toLower ∧ c ≠ '+' := by
  have hall : (digitValue? c).all fun n => n < 16 ∧ Nat.digitChar n = c.toLower ∧ c ≠ '+' :=
    Unicode.forall_ascii
      (P := fun c => (digitValue? c).all fun n => n < 16 ∧ Nat.digitChar n = c.toLower ∧ c ≠ '+')
      (by decide) (toNat_lt_of_hexDigit h)
  obtain ⟨n, hn⟩ := Option.isSome_iff_exists.mp (isDigit_iff.mpr h)
  rw [hn, Option.all_some, decide_eq_true_eq] at hall
  exact ⟨n, hall.1, hn, hall.2⟩

theorem not_hexDigit_plus : ¬ HexDigit '+' := by
  rw [← isDigit_iff]
  decide

/-- The character may stand first in a pair: a hex digit, or a plus sign. -/
def Leads (c : Char) : Prop :=
  HexDigit c ∨ c = '+'

/-- The pairs of the text spell bytes: a hex digit stands behind another one or behind a plus
sign. -/
inductive Pairs : Text → Prop where
  | nil : Pairs []
  | cons {high low : Char} {rest : Text} (hhigh : Leads high) (hlow : HexDigit low)
      (hrest : Pairs rest) : Pairs (high :: low :: rest)

/-- The digit that a character of a pair counts as, in lower case. A plus sign counts as a zero. -/
def counted (c : Char) : Char :=
  if c = '+' then '0' else c.toLower

theorem counted_of_hexDigit {c : Char} (h : HexDigit c) : counted c = c.toLower := by
  obtain ⟨-, -, -, -, hplus⟩ := digitChar_digitValue h
  exact if_neg hplus

/-- The value of a character that stands first in a pair. -/
def leadingValue? (c : Char) : Option Nat :=
  if c = '+' then some 0 else digitValue? c

theorem byte_eq (high low : Char) :
    byte? high low = (leadingValue? high).bind fun a =>
      (digitValue? low).bind fun b => some (UInt8.ofNat (16 * a + b)) := by
  unfold byte? leadingValue?
  split <;> rfl

/-- What may stand first in a pair has the value of the digit that it counts as. -/
theorem exists_leadingValue {c : Char} (h : Leads c) :
    ∃ n < 16, leadingValue? c = some n ∧ Nat.digitChar n = counted c := by
  rcases h with hdigit | rfl
  · obtain ⟨n, hn, hvalue, hchar, hplus⟩ := digitChar_digitValue hdigit
    refine ⟨n, hn, ?_, ?_⟩
    · rw [leadingValue?, if_neg hplus, hvalue]
    · rw [counted_of_hexDigit hdigit, hchar]
  · exact ⟨0, by decide, rfl, rfl⟩

/-- A pair spells the byte that is written with the digits it counts as. -/
theorem exists_byte {high low : Char} (hhigh : Leads high) (hlow : HexDigit low) :
    ∃ byte, byte? high low = some byte ∧ encodeByte byte = [counted high, counted low] := by
  obtain ⟨a, ha, hvalueA, hcharA⟩ := exists_leadingValue hhigh
  obtain ⟨b, hb, hvalueB, hcharB, -⟩ := digitChar_digitValue hlow
  have hvalue : (UInt8.ofNat (16 * a + b)).toNat = 16 * a + b := by
    rw [UInt8.toNat_ofNat']
    exact Nat.mod_eq_of_lt (by omega)
  refine ⟨UInt8.ofNat (16 * a + b), ?_, ?_⟩
  · rw [byte_eq, hvalueA, hvalueB]
    rfl
  · rw [encodeByte, hvalue, show (16 * a + b) / 16 = a by omega,
      show (16 * a + b) % 16 = b by omega, hcharA, hcharB, counted_of_hexDigit hlow]

/-- What spells a byte is a pair. -/
theorem pair_of_byte {high low : Char} {byte : UInt8} (h : byte? high low = some byte) :
    Leads high ∧ HexDigit low := by
  rw [byte_eq] at h
  obtain ⟨a, hhigh, h⟩ := Option.bind_eq_some_iff.mp h
  obtain ⟨b, hlow, -⟩ := Option.bind_eq_some_iff.mp h
  have hdigit {c : Char} {n : Nat} (hc : digitValue? c = some n) : HexDigit c :=
    isDigit_iff.mp (Option.isSome_iff_exists.mpr ⟨n, hc⟩)
  refine ⟨?_, hdigit hlow⟩
  unfold leadingValue? at hhigh
  split at hhigh
  · next hplus => exact .inr hplus
  · exact .inl (hdigit hhigh)

/-- Pairs spell bytes, which are written with the digits that the pairs count as. -/
theorem Pairs.exists_decode {text : Text} (h : Pairs text) :
    ∃ bytes, decode text = some bytes ∧ encode bytes = text.map counted := by
  induction h with
  | nil => exact ⟨[], rfl, rfl⟩
  | cons hhigh hlow hrest ih =>
      obtain ⟨byte, hbyte, hdigits⟩ := exists_byte hhigh hlow
      obtain ⟨bytes, hdecode, hencode⟩ := ih
      refine ⟨byte :: bytes, ?_, ?_⟩
      · rw [decode, hbyte, hdecode]
        rfl
      · rw [encode, List.flatMap_cons, hdigits, ← encode, hencode]
        rfl

/-- What spells bytes consists of pairs. -/
theorem pairs_of_decode {text : Text} {bytes : List UInt8} (h : decode text = some bytes) :
    Pairs text := by
  fun_induction decode text generalizing bytes with
  | case1 => exact .nil
  | case2 => cases h
  | case3 high low rest ih =>
      obtain ⟨byte, hbyte, h⟩ := Option.bind_eq_some_iff.mp h
      obtain ⟨others, hothers, -⟩ := Option.bind_eq_some_iff.mp h
      obtain ⟨hhigh, hlow⟩ := pair_of_byte hbyte
      exact .cons hhigh hlow (ih hothers)

/-- An even number of hex digits consists of pairs. -/
theorem pairs_of_hexDigits {text : Text} (h : ∀ c ∈ text, HexDigit c)
    (heven : text.length % 2 = 0) : Pairs text := by
  fun_induction decode text with
  | case1 => exact .nil
  | case2 => cases heven
  | case3 high low rest ih =>
      obtain ⟨hhigh, hlow, hrest⟩ : HexDigit high ∧ HexDigit low ∧ ∀ c ∈ rest, HexDigit c := by
        simpa using h
      rw [List.length_cons, List.length_cons] at heven
      exact .cons (.inl hhigh) hlow (ih hrest (by omega))

/-- Pairs without a plus sign are an even number of hex digits. -/
theorem Pairs.hexDigits {text : Text} (h : Pairs text) (hplus : '+' ∉ text) :
    text.length % 2 = 0 ∧ ∀ c ∈ text, HexDigit c := by
  induction h with
  | nil => exact ⟨rfl, List.forall_mem_nil _⟩
  | @cons high low rest hhigh hlow hrest ih =>
      rw [List.mem_cons, List.mem_cons, not_or, not_or] at hplus
      obtain ⟨heven, hdigits⟩ := ih hplus.2.2
      refine ⟨?_, ?_⟩
      · show (rest.length + 1 + 1) % 2 = 0
        omega
      · rw [List.forall_mem_cons, List.forall_mem_cons]
        exact ⟨hhigh.resolve_right (Ne.symm hplus.1), hlow, hdigits⟩

theorem map_counted {text : Text} (h : ∀ c ∈ text, HexDigit c) :
    text.map counted = text.map Char.toLower :=
  List.map_congr_left fun c hc => counted_of_hexDigit (h c hc)

/-- An even number of hex digits spells bytes: their digits are these, in lower case. -/
theorem exists_decode {digits : Text} (h : ∀ c ∈ digits, HexDigit c)
    (heven : digits.length % 2 = 0) :
    ∃ bytes, decode digits = some bytes ∧ encode bytes = digits.map Char.toLower := by
  obtain ⟨bytes, hdecode, hencode⟩ := (pairs_of_hexDigits h heven).exists_decode
  exact ⟨bytes, hdecode, hencode.trans (map_counted h)⟩

/-- A text spells bytes if and only if it consists of pairs. -/
theorem exists_decode_iff {text : Text} : (∃ bytes, decode text = some bytes) ↔ Pairs text := by
  constructor
  · rintro ⟨bytes, h⟩
    exact pairs_of_decode h
  · intro h
    obtain ⟨bytes, hdecode, -⟩ := h.exists_decode
    exact ⟨bytes, hdecode⟩

theorem encode_of_decode {text : Text} {bytes : List UInt8} (h : decode text = some bytes) :
    encode bytes = text.map counted := by
  obtain ⟨others, hothers, hwritten⟩ := (pairs_of_decode h).exists_decode
  obtain rfl := Option.some.inj (h.symm.trans hothers)
  exact hwritten

/-- A text spells bytes if and only if it consists of pairs, in each of which a hex digit stands
behind a hex digit or a plus sign. The bytes are written with the digits of the pairs, in lower case
and with a zero for each plus sign, and what bytes are written with is read as those bytes. So a
text without a plus sign spells bytes if and only if it is an even number of hex digits, and its
bytes are written with the same digits in lower case. A parameter of bytes is refused if and only if
its text, behind an optional `0x` or `0X`, does not consist of pairs. -/
theorem decode_exact (text : Text) :
    ((∃ bytes, decode text = some bytes) ↔ Pairs text) ∧
      (∀ bytes, decode text = some bytes → encode bytes = text.map counted) ∧
      (∀ bytes, decode (encode bytes) = some bytes) ∧
      ('+' ∉ text →
        ((∃ bytes, decode text = some bytes) ↔
          text.length % 2 = 0 ∧ ∀ c ∈ text, HexDigit c) ∧
        ∀ bytes, decode text = some bytes → encode bytes = text.map Char.toLower) ∧
      (Value.read? .byteArray text = none ↔ ¬ Pairs (Value.dropHexMark text)) := by
  refine ⟨exists_decode_iff, fun bytes => encode_of_decode, decode_encode, ?_, ?_⟩
  · intro hplus
    refine ⟨?_, ?_⟩
    · rw [exists_decode_iff]
      exact ⟨fun h => h.hexDigits hplus, fun h => pairs_of_hexDigits h.2 h.1⟩
    · intro bytes h
      have hdigits := ((pairs_of_decode h).hexDigits hplus).2
      rw [encode_of_decode h, map_counted hdigits]
  · rw [Value.read?, Option.map_eq_none_iff, ← exists_decode_iff, Option.eq_none_iff_forall_ne_some,
      not_exists]

/-- Digits of both cases spell bytes, which are written in lower case. -/
theorem decode_exact_mixed : ∃ bytes, decode "0aFf".toList = some bytes ∧
    encode bytes = "0aff".toList :=
  ⟨[10, 255], rfl, ((decode_exact "0aFf".toList).2.2.2.1 (by decide)).2 [10, 255] rfl⟩

/-- A plus sign and a hex digit spell a byte, although a plus sign is no hex digit, and the byte is
written otherwise. -/
theorem decode_plus :
    decode "+f".toList = some [15] ∧ encode [15] = "0f".toList ∧
      ¬ (∀ c ∈ "+f".toList, HexDigit c) ∧
      Value.read? .byteArray "0x+f".toList = some (.byteArray [15]) := by
  refine ⟨rfl, rfl, ?_, rfl⟩
  intro h
  exact not_hexDigit_plus (h '+' (List.mem_cons_self ..))

end Reckon.Hex
