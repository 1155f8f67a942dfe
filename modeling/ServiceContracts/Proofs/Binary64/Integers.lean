import ServiceContracts.Schema.Decode
import Mathlib.Algebra.Order.Ring.Int
import Mathlib.Tactic.Ring
/-!
# Doubles read as integers

Doubles are tested by comparisons of doubles and then cast. The bounds of
64-bit integers are not both doubles: the lower one is, and the upper one
rounds to the next integer, which is out of range already. So the lower
comparison has to take its bound in and the upper one has to leave it out
(`Binary64.Finite.fitsInt64_iff`), and then the cast, which cuts off and
saturates, has nothing left to do: what is read is the integer that the
double is (`Scalar.decodeInteger_double`).
-/


namespace ServiceContracts

-- Powers are those of the core library here, whichever others are in scope.
attribute [local instance (high)] instPowNat

namespace Binary64.Finite

/-- The double of `2 ^ 63`, with either sign. -/
def twoPow63 (negative : Bool) : Finite :=
  ⟨negative, 2 ^ 52, 1085, Nat.pow_lt_pow_succ Nat.one_lt_two, Nat.le_of_ble_eq_true rfl,
    .inr (Nat.le_refl _)⟩

theorem signedTicks_twoPow63 (negative : Bool) :
    (twoPow63 negative).signedTicks = (if negative then -2 ^ 63 else 2 ^ 63) * ticksPerUnit := by
  obtain ⟨m, hm, hunit⟩ : ∃ m, 1085 = m + 11 ∧ ticksPerUnit = 2 ^ m := ⟨1074, rfl, rfl⟩
  have hticks : (twoPow63 negative).ticks = 2 ^ 63 * 2 ^ m := by
    have hshift : (twoPow63 negative).ticks = 2 ^ 52 * 2 ^ (m + 11) := by rw [← hm]; rfl
    rw [hshift]
    ring
  have hsign : (twoPow63 negative).negative = negative := rfl
  rw [signedTicks, hticks, hunit, hsign]
  cases negative <;> simp

/-- The least integer is a double. -/
theorem ofInt_minValue : ofInt Int64.minValue.toInt = .finite (twoPow63 true) := by decide +kernel

/-- The greatest is not, and is rounded up. -/
theorem ofInt_maxValue : ofInt Int64.maxValue.toInt = .finite (twoPow63 false) := by decide +kernel

/-- **The comparisons admit what lies in the range of the integers**, though
the upper one is with a double out of it. -/
theorem fitsInt64_iff {x : Finite} :
    x.fitsInt64 = true ↔
      -2 ^ 63 * ticksPerUnit ≤ x.signedTicks ∧ x.signedTicks < 2 ^ 63 * ticksPerUnit := by
  rw [fitsInt64, ofInt_minValue, ofInt_maxValue, isWithin, signedTicks_twoPow63,
    signedTicks_twoPow63, if_pos rfl, Bool.and_eq_true, decide_eq_true_iff, decide_eq_true_iff]
  exact Iff.rfl

theorem isWhole_iff {x : Finite} : x.isWhole = true ↔ ∃ k, x.toInt? = some k := by
  rw [isWhole, decide_eq_true_iff, toInt?]
  split
  · rename_i hwhole
    exact iff_of_true hwhole ⟨_, rfl⟩
  · rename_i hpart
    exact iff_of_false hpart (by simp only [reduceCtorEq, exists_false, not_false_eq_true])

/-- Of a double that is an integer, nothing is cut off. -/
theorem truncated_of_toInt? {x : Finite} {k : ℤ} (h : x.toInt? = some k) : x.truncated = k := by
  rw [truncated, toInt?_eq_some_iff.mp h, Int.mul_tdiv_cancel _ ticksPerUnit_ne_zero]

/-- And where the integer is in range, the cast does not saturate. -/
theorem toInt_toInt64 {x : Finite} (hlower : -2 ^ 63 ≤ x.truncated)
    (hupper : x.truncated < 2 ^ 63) : x.toInt64.toInt = x.truncated := by
  have hmin : Int64.minValue.toInt = -2 ^ 63 := rfl
  have hmax : Int64.maxValue.toInt = 2 ^ 63 - 1 := rfl
  rw [toInt64, hmin, hmax, min_eq_left (by omega), max_eq_right hlower,
    Int64.toInt_ofInt_of_le hlower hupper]

end Binary64.Finite

/-- **A double is read as the integer that it is**, if it is one of 64 bits:
the comparisons and the cast are exact. -/
theorem Scalar.decodeInteger_double (x : Binary64.Finite) :
    decodeInteger (.double x) =
      match x.toInt? with
      | some k =>
        if -2 ^ 63 ≤ k ∧ k < 2 ^ 63 then .ok (.integer (Int64.ofInt k))
        else .error (.mismatch "integer" "number")
      | none => .error (.mismatch "integer" "number") := by
  rw [decodeInteger]
  cases hx : x.toInt? with
  | none =>
    have hwhole : x.isWhole = false := by
      rw [Bool.eq_false_iff, ne_eq, Binary64.Finite.isWhole_iff, hx]
      simp
    simp [hwhole]
  | some k =>
    have hunit : (0 : ℤ) < Binary64.ticksPerUnit :=
      lt_of_le_of_ne (Int.natCast_nonneg _) (Ne.symm Binary64.ticksPerUnit_ne_zero)
    have hwhole : x.isWhole = true := Binary64.Finite.isWhole_iff.mpr ⟨k, hx⟩
    have hfits : x.fitsInt64 = true ↔ -2 ^ 63 ≤ k ∧ k < 2 ^ 63 := by
      rw [Binary64.Finite.fitsInt64_iff, Binary64.Finite.toInt?_eq_some_iff.mp hx,
        mul_le_mul_iff_left₀ hunit, mul_lt_mul_iff_left₀ hunit]
    simp only [hwhole, Bool.true_and, hfits]
    split
    · rename_i hrange
      have hcut := Binary64.Finite.truncated_of_toInt? hx
      have hcast : x.toInt64.toInt = k := hcut ▸
        Binary64.Finite.toInt_toInt64 (hcut ▸ hrange.1) (hcut ▸ hrange.2)
      rw [← hcast, Int64.ofInt_toInt]
    · rfl

end ServiceContracts
