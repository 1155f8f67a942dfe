import ServiceContracts.Binary64.Rounding

/-!
# Doubles as 64-bit integers

A double is tested for being an integer, is compared with other doubles, and is cast. The bounds of 64-bit
integers enter these comparisons as the doubles nearest to them, and the cast cuts off what is after the point
and saturates. Which doubles the test and the comparisons admit, and that the cast is exact on those, is for
proofs to say.
-/

namespace ServiceContracts

namespace Binary64.Finite

/-- Is there nothing after the point? -/
def isWhole (x : Finite) : Bool := x.ticks % ticksPerUnit = 0

/-- Comparison with two doubles, of which the lower one is let in. -/
def isWithin (x : Finite) : Binary64 → Binary64 → Bool
  | .finite low, .finite high =>
    low.signedTicks ≤ x.signedTicks && x.signedTicks < high.signedTicks
  | _, _ => false

/-- Comparison with the bounds of 64-bit integers, each taken as the double nearest to it. -/
def fitsInt64 (x : Finite) : Bool :=
  x.isWithin (ofInt Int64.minValue.toInt) (ofInt Int64.maxValue.toInt)

/-- A double with what is after the point cut off. -/
def truncated (x : Finite) : Int := x.signedTicks.tdiv ticksPerUnit

/-- The cast of a double to a 64-bit integer: what is after the point is cut off, and out of range it
saturates. -/
def toInt64 (x : Finite) : Int64 :=
  .ofInt (max Int64.minValue.toInt (min x.truncated Int64.maxValue.toInt))

end Binary64.Finite

end ServiceContracts
