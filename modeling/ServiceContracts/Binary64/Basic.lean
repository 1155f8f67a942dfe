/-!
# Doubles, as exact numbers

A finite double is an integer multiple of the smallest one, `2 ^ -1074`; that unit is called a *tick* here.
A double keeps its sign, its significand and the power of two that scales it, in the one normal form of the
format, so two finite doubles are equal exactly when they are the same double, the two zeros apart:
`Finite.signedTicks` is the value they are compared by.

The infinities and the single value that is no number complete the type. They never come out of JSON text;
only instances put together by hand can hold them.
-/

namespace ServiceContracts

-- Powers are those of the core library here, whichever others are in scope.
attribute [local instance (high)] instPowNat

namespace Binary64

/-- How many significant bits a double has. -/
def precision : Nat := 53

/-- The largest shift: the largest finite double is `(2 ^ 53 - 1) * 2 ^ 2045` ticks. -/
def maxShift : Nat := 2045

/-- One is this many ticks. -/
def ticksPerUnit : Nat := 2 ^ (1074 : Nat)

theorem ticksPerUnit_ne_zero : (ticksPerUnit : Int) ≠ 0 := by
  obtain ⟨m, hticks⟩ : ∃ m, ticksPerUnit = 2 ^ m := ⟨1074, rfl⟩
  rw [hticks]
  exact Int.natCast_ne_zero.mpr (Nat.ne_of_gt (Nat.two_pow_pos m))

end Binary64

/-- A finite double: `± significand * 2 ^ shift` ticks of `2 ^ -1074`. A shifted significand fills all of its
53 bits, which makes the form unique. -/
structure Binary64.Finite where
  negative : Bool
  significand : Nat
  shift : Nat
  significand_lt : significand < 2 ^ (53 : Nat)
  shift_le : shift ≤ Binary64.maxShift
  normal : shift = 0 ∨ 2 ^ (52 : Nat) ≤ significand
  deriving DecidableEq

/-- A double: finite, infinite or not a number. -/
inductive Binary64 where
  | finite (x : Binary64.Finite)
  | infinite (negative : Bool)
  | nan
  deriving DecidableEq

namespace Binary64

namespace Finite

/-- The magnitude in ticks. -/
def ticks (x : Finite) : Nat := x.significand * 2 ^ x.shift

/-- The value in ticks, with its sign; the two zeros have the same one. -/
def signedTicks (x : Finite) : Int := if x.negative then -(x.ticks : Int) else x.ticks

/-- The same magnitude with the other sign. -/
def neg (x : Finite) : Finite := { x with negative := !x.negative }

/-- Positive zero. -/
def zero : Finite := ⟨false, 0, 0, by decide, by decide, .inl rfl⟩

/-- The integer that a double is, if it is one. -/
def toInt? (x : Finite) : Option Int :=
  if x.ticks % ticksPerUnit = 0 then some (x.signedTicks / ticksPerUnit) else none

/-- A double is an integer when it is that many units. -/
theorem toInt?_eq_some_iff {x : Finite} {k : Int} :
    x.toInt? = some k ↔ x.signedTicks = k * ticksPerUnit := by
  have hdvd : x.ticks % ticksPerUnit = 0 ↔ (ticksPerUnit : Int) ∣ x.signedTicks := by
    rw [← Nat.dvd_iff_mod_eq_zero, signedTicks]
    split
    · rw [Int.dvd_neg, Int.natCast_dvd_natCast]
    · rw [Int.natCast_dvd_natCast]
  unfold toInt?
  constructor
  · intro h
    split at h
    · rename_i hmod
      obtain rfl : x.signedTicks / ticksPerUnit = k := Option.some.inj h
      exact (Int.ediv_mul_cancel (hdvd.mp hmod)).symm
    · cases h
  · intro h
    have hmul : (ticksPerUnit : Int) ∣ x.signedTicks := ⟨k, by rw [h, Int.mul_comm]⟩
    rw [if_pos (hdvd.mpr hmul), h, Int.mul_ediv_cancel _ ticksPerUnit_ne_zero]

end Finite

/-- Comparison by value: the zeros are equal, and what is not a number equals nothing. -/
def same : Binary64 → Binary64 → Bool
  | .finite x, .finite y => x.signedTicks == y.signedTicks
  | .infinite a, .infinite b => a == b
  | _, _ => false

/-- The same magnitude with the other sign. -/
def neg : Binary64 → Binary64
  | .finite x => .finite x.neg
  | .infinite negative => .infinite (!negative)
  | .nan => .nan

/-- The finite double that this is. -/
def finite? : Binary64 → Option Finite
  | .finite x => some x
  | _ => none

end Binary64

end ServiceContracts
