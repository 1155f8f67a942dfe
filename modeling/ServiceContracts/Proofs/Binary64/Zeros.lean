import ServiceContracts.Binary64.Basic
/-!
# The two zeros

Finite doubles are compared by value, and the form in which a double is
kept is the only one of its value. So equal doubles are one and the same,
the two zeros apart (`Finite.same_iff`), and dropping the sign of a zero
(`Finite.unsigned`) drops just what equality does not see.
-/


namespace ServiceContracts

-- Powers are those of the core library here, whichever others are in scope.
attribute [local instance (high)] instPowNat

namespace Binary64.Finite

variable {x y : Finite}

/-- The same double, or zero without its sign. -/
def unsigned (x : Finite) : Finite := if x.ticks = 0 then zero else x

/-! ## One form for each value -/

/-- What is shifted further is larger: its significand has all of its bits,
and there are no more of them on the other side. -/
theorem ticks_lt_of_shift_lt (h : x.shift < y.shift) : x.ticks < y.ticks := by
  have hfull : 2 ^ 52 ≤ y.significand := y.normal.resolve_left (by omega)
  have hshift : 2 ^ (x.shift + 1) ≤ 2 ^ y.shift := Nat.pow_le_pow_right (by decide) h
  calc x.significand * 2 ^ x.shift
      < 2 ^ 53 * 2 ^ x.shift := Nat.mul_lt_mul_of_pos_right x.significand_lt (Nat.two_pow_pos _)
    _ = 2 ^ 52 * 2 ^ (x.shift + 1) := by rw [Nat.pow_succ 2 x.shift]; omega
    _ ≤ y.significand * 2 ^ y.shift := Nat.mul_le_mul hfull hshift

/-- **The magnitude of a double determines its form.** -/
theorem eq_of_ticks_eq (hticks : x.ticks = y.ticks) (hnegative : x.negative = y.negative) :
    x = y := by
  have hshift : x.shift = y.shift := by
    rcases Nat.lt_trichotomy x.shift y.shift with h | h | h
    · exact absurd hticks (Nat.ne_of_lt (ticks_lt_of_shift_lt h))
    · exact h
    · exact absurd hticks (Nat.ne_of_gt (ticks_lt_of_shift_lt h))
  have hsignificand : x.significand = y.significand := by
    unfold ticks at hticks
    rw [hshift] at hticks
    exact Nat.eq_of_mul_eq_mul_right (Nat.two_pow_pos _) hticks
  obtain ⟨negative, significand, shift, _, _, _⟩ := x
  obtain ⟨negative', significand', shift', _, _, _⟩ := y
  obtain rfl : negative = negative' := hnegative
  obtain rfl : significand = significand' := hsignificand
  obtain rfl : shift = shift' := hshift
  rfl

/-- The value of a double is its magnitude and, unless it is zero, its
sign. -/
theorem signedTicks_eq_iff :
    x.signedTicks = y.signedTicks ↔
      x.ticks = y.ticks ∧ (x.ticks = 0 ∨ x.negative = y.negative) := by
  unfold signedTicks
  cases x.negative <;> cases y.negative <;> simp <;> omega

@[simp] theorem ticks_zero : zero.ticks = 0 := rfl

/-- **Equal doubles are the same but for the sign of zero.** -/
theorem same_iff : (Binary64.finite x).same (.finite y) = true ↔ x.unsigned = y.unsigned := by
  rw [Binary64.same, beq_iff_eq, signedTicks_eq_iff]
  unfold unsigned
  constructor
  · rintro ⟨hticks, hzero | hnegative⟩
    · rw [if_pos hzero, if_pos (hticks ▸ hzero)]
    · rw [eq_of_ticks_eq hticks hnegative]
  · intro h
    by_cases hx : x.ticks = 0 <;> by_cases hy : y.ticks = 0
    · exact ⟨hx.trans hy.symm, .inl hx⟩
    · rw [if_pos hx, if_neg hy] at h
      exact absurd (h ▸ ticks_zero) hy
    · rw [if_neg hx, if_pos hy] at h
      exact absurd (h ▸ ticks_zero) hx
    · rw [if_neg hx, if_neg hy] at h
      exact ⟨congrArg ticks h, .inr (congrArg negative h)⟩

end Binary64.Finite

end ServiceContracts
