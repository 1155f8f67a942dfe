import ServiceContracts.Binary64.Basic

/-!
# The shortest decimal of a double

The decimals that read back to a double fill an interval around it, ends included exactly when its significand
is even. `Finite.shortest` lays decimal grids of falling step over that interval, coarsest first, and looks on
each at the two neighbours of the value: the first grid with a hit gives the fewest digits, and of two hits the
nearer is taken, the even one if neither is. All of it is arithmetic on naturals, in quarters of a tick.
-/

namespace ServiceContracts

/-- The number `digits * 10 ^ exponent`. -/
structure Decimal where
  digits : Nat
  exponent : Int
  deriving DecidableEq

namespace Binary64.Finite

-- Powers are those of the core library here, whichever others are in scope.
attribute [local instance (high)] instPowNat

/-- Quarter ticks to one. -/
def quartersPerUnit : Nat := 4 * ticksPerUnit

/-- The lower end of the interval that rounds to the double. Below a power of two the doubles lie twice as
close, so there the half step is half as long. -/
def lowerEnd (x : Finite) : Nat :=
  4 * x.ticks - (if x.significand = 2 ^ (52 : Nat) ∧ x.shift ≠ 0 then 2 ^ x.shift else 2 * 2 ^ x.shift)

/-- The upper end of the interval that rounds to the double. -/
def upperEnd (x : Finite) : Nat := 4 * x.ticks + 2 * 2 ^ x.shift

/-- Does `n / d` quarter ticks lie in the interval that rounds to the double? -/
def attracts (x : Finite) (n d : Nat) : Bool :=
  if x.significand % 2 = 0 then x.lowerEnd * d ≤ n && n ≤ x.upperEnd * d
  else x.lowerEnd * d < n && n < x.upperEnd * d

/-- The multiple of `step / scale` quarter ticks that is nearest to the double, among the two next to it that read
back to it. -/
def nearest (x : Finite) (step scale : Nat) : Option Nat :=
  let below := 4 * x.ticks * scale / step
  let rest := 4 * x.ticks * scale % step
  match x.attracts (below * step) scale, x.attracts ((below + 1) * step) scale with
  | false, false => none
  | true, false => some below
  | false, true => some (below + 1)
  | true, true =>
    if 2 * rest < step then some below
    else if step < 2 * rest then some (below + 1)
    else some (below + below % 2)

/-- The digits of the nearest point on the grid of step `10 ^ exponent`. -/
def nearestOn (x : Finite) (exponent : Int) : Option Nat :=
  x.nearest (10 ^ exponent.toNat * quartersPerUnit) (10 ^ (-exponent).toNat)

/-- A decimal exponent that no double of this size exceeds, and exceeds by at most two. -/
def leadingExponent (x : Finite) : Int :=
  ((x.ticks.log2 : Int) + 1 - 1074) * 30103 / 100000 + 1

/-- The decimal of fewest digits that reads back to the magnitude of the double, and of those the nearest.
Seventeen digits always read back, and the first grids may be too coarse for any, so twenty are enough. -/
def shortest (x : Finite) : Decimal :=
  if x.ticks = 0 then ⟨0, 0⟩
  else
    let found := (List.range 20).findSome? fun (i : Nat) =>
      (x.nearestOn (x.leadingExponent - i)).map fun digits => ⟨digits, x.leadingExponent - i⟩
    found.getD ⟨0, 0⟩

end Binary64.Finite

end ServiceContracts
