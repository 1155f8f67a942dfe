import ServiceContracts.Json.Basic

/-!
# Number literals

An integer literal is an integer if it fits 64 bits, unsigned or with a minus sign, and a double otherwise; a
literal with a fraction or an exponent is always a double. `-0` is the double `-0.0`.

Doubles are read by scaling. The leading digits that fit an unsigned 64-bit integer make up the significand,
further digits before the point count into the exponent and further digits after it are dropped. The
significand is rounded to a double and then multiplied or divided by a power of ten, with one more rounding. A
literal beyond the largest double is refused, and one below the smallest is zero.
-/

namespace ServiceContracts.Json.Number

-- Powers are those of the core library here, whichever others are in scope.
attribute [local instance (high)] instPowNat

/-- The value of a decimal digit. -/
def digitValue (c : Char) : Nat := c.toNat - '0'.toNat

/-- Appends decimal digits to a number while the result fits an unsigned 64-bit integer: the number, and the
digits that are left over. -/
def absorb (n : Nat) : List Char → Nat × List Char
  | [] => (n, [])
  | c :: cs =>
    let next := 10 * n + digitValue c
    if next < 2 ^ (64 : Nat) then absorb next cs else (n, c :: cs)

/-- The value of a run of decimal digits. -/
def natOf (digits : List Char) : Nat := digits.foldl (fun n c => 10 * n + digitValue c) 0

/-- The largest power of ten that is a double. -/
def maxPower : Nat := 308

/-- The rounded product of a double and a power of ten. -/
def timesTen (x : Binary64.Finite) (k : Nat) : Option Binary64.Finite :=
  (Binary64.powerOfTen k).finite?.bind fun p => (x.mul p).finite?

/-- The rounded quotient of a double and a power of ten. -/
def overTen (x : Binary64.Finite) (k : Nat) : Option Binary64.Finite :=
  (Binary64.powerOfTen k).finite?.bind fun p => (x.div p).finite?

/-- Divides by a power of ten of any size, in steps that are doubles themselves, until nothing is left. -/
def shrink (x : Binary64.Finite) (k : Nat) : Option Binary64.Finite :=
  if _h : k ≤ maxPower then overTen x k
  else if x.ticks = 0 then some x
  else (overTen x maxPower).bind fun y => shrink y (k - maxPower)
termination_by k
decreasing_by unfold maxPower at *; omega

/-- The significand times a power of ten, as a double, unless it is too large for one. -/
def scaled (significand : Nat) (exponent : Int) : Option Binary64.Finite :=
  (Binary64.ofRatio false significand 1).finite?.bind fun x =>
    if exponent < 0 then shrink x exponent.natAbs
    else if exponent.toNat ≤ maxPower then timesTen x exponent.toNat
    else if significand = 0 then some x
    else none

/-- The double of a literal with these digits before and after the point and this exponent. -/
def doubleOf? (negative : Bool) (whole fraction : List Char) (exponent : Int) :
    Option Binary64.Finite :=
  let (head, wholeLeft) := absorb 0 whole
  let (significand, fractionLeft) := absorb head fraction
  let places : Int := wholeLeft.length - (fraction.length - fractionLeft.length)
  (scaled significand (places + exponent)).map fun x => if negative then x.neg else x

/-- The number of an integer literal. -/
def ofInteger? (negative : Bool) (whole : List Char) : Option Number :=
  let n := natOf whole
  let value : Option Whole :=
    if negative then if n = 0 then none else Whole.ofInt? (-n) else Whole.ofInt? n
  match value with
  | some w => some (.whole w)
  | none => (doubleOf? negative whole [] 0).map .double

/-- Digits, at least one, and no zero in front of others. -/
def isWholePart (digits : List Char) : Bool :=
  match digits with
  | [] => false
  | ['0'] => true
  | c :: _ => c ≠ '0'

/-- The exponent of a literal, with what comes before it cut off: none, or a signed run of digits. -/
def exponentOf? : List Char → Option (Option Int)
  | [] => some none
  | e :: rest =>
    let signed : Int × List Char := match rest with
      | '+' :: digits => (1, digits)
      | '-' :: digits => (-1, digits)
      | digits => (1, digits)
    if (e = 'e' ∨ e = 'E') ∧ signed.2 ≠ [] ∧ signed.2.all Char.isDigit then
      some (some (signed.1 * natOf signed.2))
    else none

/-- The number of an unsigned literal and its sign. -/
def ofUnsigned? (negative : Bool) (s : List Char) : Option Number :=
  let whole := s.takeWhile Char.isDigit
  if isWholePart whole then
    match s.dropWhile Char.isDigit with
    | '.' :: more =>
      let fraction := more.takeWhile Char.isDigit
      if fraction.isEmpty then none
      else (exponentOf? (more.dropWhile Char.isDigit)).bind fun exponent =>
        (doubleOf? negative whole fraction (exponent.getD 0)).map .double
    | rest => (exponentOf? rest).bind fun exponent =>
      match exponent with
      | some e => (doubleOf? negative whole [] e).map .double
      | none => ofInteger? negative whole
  else none

/-- The number that a literal denotes. -/
def ofLiteral? : List Char → Option Number
  | '-' :: rest => ofUnsigned? true rest
  | s => ofUnsigned? false s

end ServiceContracts.Json.Number
