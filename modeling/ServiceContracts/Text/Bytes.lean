/-!
# Texts and bytes

A text has bytes, in UTF-8, and bytes have a text even where they are not UTF-8: a byte that begins no character
is replaced, and so is a character that begins and is not finished (`lossy`). What is taken for one such
character ends before the first byte that cannot go on with it.
-/

namespace ServiceContracts.Text

/-- The bytes of a text in UTF-8. -/
def bytes (s : String) : List UInt8 := s.toUTF8.data.toList

/-- The character that stands for what is not UTF-8. -/
def replacement : Char := '\uFFFD'

/-- A character of several bytes that has begun. -/
structure Begun where
  /-- Its code point, as far as it is known. -/
  bits : Nat
  /-- The least and the greatest byte that can come next. -/
  low : Nat
  high : Nat
  /-- How many bytes come after that one. -/
  more : Nat

/-- What a byte begins, if it is the first of several. The bytes after some of them are restricted, so that no
character is written longer than it has to be, no surrogate is written, and nothing beyond the last code point. -/
def begun? (b : Nat) : Option Begun :=
  if b < 0xC2 then none
  else if b < 0xE0 then some ⟨b - 0xC0, 0x80, 0xBF, 0⟩
  else if b = 0xE0 then some ⟨b - 0xE0, 0xA0, 0xBF, 1⟩
  else if b = 0xED then some ⟨b - 0xE0, 0x80, 0x9F, 1⟩
  else if b < 0xF0 then some ⟨b - 0xE0, 0x80, 0xBF, 1⟩
  else if b = 0xF0 then some ⟨b - 0xF0, 0x90, 0xBF, 2⟩
  else if b < 0xF4 then some ⟨b - 0xF0, 0x80, 0xBF, 2⟩
  else if b = 0xF4 then some ⟨b - 0xF0, 0x80, 0x8F, 2⟩
  else none

/-- A byte where no character has begun: the characters that are read, and what has begun then. -/
def first (b : Nat) : List Char × Option Begun :=
  if b < 0x80 then ([Char.ofNat b], none)
  else match begun? b with
    | some begun => ([], some begun)
    | none => ([replacement], none)

/-- The next byte. -/
def next : Option Begun → Nat → List Char × Option Begun
  | none, b => first b
  | some begun, b =>
    if begun.low ≤ b ∧ b ≤ begun.high then
      let bits := begun.bits * 64 + b % 64
      match begun.more with
      | 0 => ([Char.ofNat bits], none)
      | more + 1 => ([], some ⟨bits, 0x80, 0xBF, more⟩)
    else (replacement :: (first b).1, (first b).2)

/-- The characters that bytes finish, after what has begun. -/
def lossyFrom : Option Begun → List UInt8 → List Char
  | none, [] => []
  | some _, [] => [replacement]
  | begun, b :: rest => (next begun b.toNat).1 ++ lossyFrom (next begun b.toNat).2 rest

/-- The text of bytes, with replacements for what is not UTF-8. -/
def lossy (bytes : List UInt8) : String := String.ofList (lossyFrom none bytes)

end ServiceContracts.Text
