import ServiceContracts.Binary64.Rounding
import ServiceContracts.Binary64.Shortest

/-!
# The text of a double

`Decimal.written` lays out a decimal: positionally while its leading exponent is within the bounds of the
layout, and with an explicit exponent beyond them. `Binary64.text` is the text of any double and
`Binary64.ofText?` the nearest double to a decimal text.
-/

namespace ServiceContracts

/-- The leading exponents that are written positionally. -/
structure Decimal.Layout where
  least : Int
  greatest : Int

namespace Decimal

/-- `count` zeros. -/
def zeros (count : Nat) : String := String.ofList (List.replicate count '0')

/-- The digits with the exponent written out: `d`, then the others after a point, then `e` and a signed
exponent. -/
def scientific (digits : List Char) (exponent : Int) : String :=
  let fraction := match digits.drop 1 with
    | [] => ""
    | rest => "." ++ String.ofList rest
  let sign := if exponent < 0 then "-" else "+"
  String.ofList (digits.take 1) ++ fraction ++ "e" ++ sign ++ toString exponent.natAbs

/-- The digits with a point in their place; an integral number ends in `.0`. -/
def positional (digits : List Char) (exponent : Int) : String :=
  if exponent < 0 then
    "0." ++ zeros ((-exponent).toNat - 1) ++ String.ofList digits
  else
    let whole := exponent.toNat + 1
    if digits.length ≤ whole then
      String.ofList digits ++ zeros (whole - digits.length) ++ ".0"
    else String.ofList (digits.take whole) ++ "." ++ String.ofList (digits.drop whole)

/-- The text of a decimal. -/
def written (layout : Layout) (d : Decimal) : String :=
  let digits := Nat.toDigits 10 d.digits
  let leading := d.exponent + digits.length - 1
  if layout.least ≤ leading ∧ leading ≤ layout.greatest then positional digits leading
  else scientific digits leading

end Decimal

namespace Binary64

-- Powers are those of the core library here, whichever others are in scope.
attribute [local instance (high)] instPowNat

/-- Numbers from `0.00001` up to, and without, ten to the sixteenth are written positionally. -/
def layout : Decimal.Layout := ⟨-5, 15⟩

/-- The text of a finite double: its sign, kept on zero too, and its shortest digits. -/
def Finite.text (x : Finite) : String :=
  (if x.negative then "-" else "") ++ x.shortest.written layout

/-- The text of a double. -/
def text : Binary64 → String
  | .finite x => x.text
  | .infinite negative => if negative then "-inf" else "inf"
  | .nan => "NaN"

/-- The double nearest to `digits * 10 ^ exponent`. Decimals far outside the range of doubles are decided by
their size, so that no huge power is computed. -/
def ofDecimal (negative : Bool) (d : Decimal) : Binary64 :=
  let leading := d.exponent + (Nat.toDigits 10 d.digits).length
  if d.digits = 0 ∨ leading < -330 then .finite { Finite.zero with negative }
  else if 330 < leading then .infinite negative
  else ofRatio negative (d.digits * 10 ^ d.exponent.toNat) (10 ^ (-d.exponent).toNat)

/-- The value of a run of decimal digits. -/
def digitsValue (digits : List Char) : Nat :=
  digits.foldl (fun n c => 10 * n + (c.toNat - '0'.toNat)) 0

/-- A signed decimal integer that takes up the whole text. -/
def exponentOf? : List Char → Option Int
  | '-' :: digits => if digits ≠ [] ∧ digits.all Char.isDigit then some (-digitsValue digits) else none
  | '+' :: digits => if digits ≠ [] ∧ digits.all Char.isDigit then some (digitsValue digits) else none
  | digits => if digits ≠ [] ∧ digits.all Char.isDigit then some (digitsValue digits) else none

/-- An unsigned decimal: digits, an optional fraction, an optional exponent. -/
def decimalOf? (s : List Char) : Option Decimal :=
  let whole := s.takeWhile Char.isDigit
  let rest := s.dropWhile Char.isDigit
  let (fraction, rest) := match rest with
    | '.' :: more => (more.takeWhile Char.isDigit, more.dropWhile Char.isDigit)
    | _ => ([], rest)
  let exponent := match rest with
    | [] => some 0
    | 'e' :: digits => exponentOf? digits
    | 'E' :: digits => exponentOf? digits
    | _ => none
  if whole.isEmpty && fraction.isEmpty then none
  else exponent.map fun e => ⟨digitsValue (whole ++ fraction), e - fraction.length⟩

/-- The double nearest to a decimal text, or one of the three that have names. -/
def ofText? (s : String) : Option Binary64 :=
  match s with
  | "NaN" => some .nan
  | "inf" => some (.infinite false)
  | "-inf" => some (.infinite true)
  | _ => match s.toList with
    | '-' :: rest => (decimalOf? rest).map (ofDecimal true)
    | '+' :: rest => (decimalOf? rest).map (ofDecimal false)
    | rest => (decimalOf? rest).map (ofDecimal false)

end Binary64

end ServiceContracts
