import Reckon.Text.Basic

/-!
# Reading UTF-8

Decoding stops at the first byte sequence that no character has. The fault says where the sequence
starts and how many of its bytes could begin a character, or that the input ends within one.
-/

namespace Reckon.Utf8

/-- Why bytes are not UTF-8. -/
inductive Fault where
  /-- The bytes from `start` begin no character; `length` of them are to blame. -/
  | invalid (start length : Nat)
  /-- The input ends inside the character that begins at `start`. -/
  | incomplete (start : Nat)

/-- The byte continues a character. -/
def isContinuation (byte : UInt8) : Bool :=
  0x80 ≤ byte && byte ≤ 0xBF

/-- The payload of a continuation byte. -/
def payload (byte : UInt8) : Nat :=
  byte.toNat % 0x40

/-- The second byte of a three-byte character is limited by the first, so that no character has two
spellings and none is a surrogate. -/
def isSecondOfThree (first second : UInt8) : Bool :=
  (if first == 0xE0 then 0xA0 else 0x80) ≤ second &&
    second ≤ (if first == 0xED then 0x9F else 0xBF)

/-- The second byte of a four-byte character is limited by the first, so that no character has two
spellings and none lies beyond the last code point. -/
def isSecondOfFour (first second : UInt8) : Bool :=
  (if first == 0xF0 then 0x90 else 0x80) ≤ second &&
    second ≤ (if first == 0xF4 then 0x8F else 0xBF)

/-- Number of bytes of the character that a byte begins; zero if it begins none. -/
def width (first : UInt8) : Nat :=
  if first < 0x80 then 1
  else if first < 0xC2 then 0
  else if first < 0xE0 then 2
  else if first < 0xF0 then 3
  else if first < 0xF5 then 4
  else 0

/-- The first character of the bytes, with its width, or the fault at `start`. -/
def firstChar (start : Nat) (first : UInt8) (rest : List UInt8) : Except Fault (Char × Nat) :=
  match width first with
  | 1 => .ok (Char.ofNat first.toNat, 1)
  | 2 =>
    match rest with
    | [] => .error (.incomplete start)
    | second :: _ =>
      if isContinuation second then
        .ok (Char.ofNat (first.toNat % 0x20 * 0x40 + payload second), 2)
      else
        .error (.invalid start 1)
  | 3 =>
    match rest with
    | [] => .error (.incomplete start)
    | second :: rest =>
      if isSecondOfThree first second then
        match rest with
        | [] => .error (.incomplete start)
        | third :: _ =>
          if isContinuation third then
            .ok (Char.ofNat
              ((first.toNat % 0x10 * 0x40 + payload second) * 0x40 + payload third), 3)
          else
            .error (.invalid start 2)
      else
        .error (.invalid start 1)
  | 4 =>
    match rest with
    | [] => .error (.incomplete start)
    | second :: rest =>
      if isSecondOfFour first second then
        match rest with
        | [] => .error (.incomplete start)
        | third :: rest =>
          if isContinuation third then
            match rest with
            | [] => .error (.incomplete start)
            | fourth :: _ =>
              if isContinuation fourth then
                .ok (Char.ofNat (((first.toNat % 0x08 * 0x40 + payload second) * 0x40 +
                  payload third) * 0x40 + payload fourth), 4)
              else
                .error (.invalid start 3)
          else
            .error (.invalid start 2)
      else
        .error (.invalid start 1)
  | _ => .error (.invalid start 1)

/-- The characters of the bytes from position `start` on. `skip` counts the bytes left of a
character that has been read. -/
def decodeFrom (start : Nat) : Nat → List UInt8 → Except Fault Text
  | _, [] => .ok []
  | skip + 1, _ :: rest => decodeFrom (start + 1) skip rest
  | 0, first :: rest => do
    let (c, width) ← firstChar start first rest
    let text ← decodeFrom (start + 1) (width - 1) rest
    return c :: text

/-- The text that bytes spell in UTF-8. -/
def decode (bytes : List UInt8) : Except Fault Text :=
  decodeFrom 0 0 bytes

end Reckon.Utf8
