import ServiceContracts.Binary64.Basic

/-!
# Rounding to the nearest double

Every conversion to a double goes through one function, `ofTicks`: it rounds an exact quotient of naturals,
in ticks, to the nearest double, a half going to the even neighbour. The quotient's size fixes the shift, the
shift the grid, and `roundQuotient` picks the grid point.
-/

namespace ServiceContracts

namespace Binary64

-- Powers are those of the core library here, whichever others are in scope.
attribute [local instance (high)] instPowNat

/-- The natural number nearest to `n / d`; a half goes to the even neighbour. -/
def roundQuotient (n d : Nat) : Nat :=
  if 2 * (n % d) < d then n / d
  else if d < 2 * (n % d) then n / d + 1
  else n / d + n / d % 2

theorem le_roundQuotient (n d : Nat) : n / d ≤ roundQuotient n d := by
  unfold roundQuotient
  split <;> try split
  all_goals omega

theorem roundQuotient_le (n d : Nat) : roundQuotient n d ≤ n / d + 1 := by
  unfold roundQuotient
  split <;> try split
  all_goals omega

/-- The shift at which a magnitude with this whole part has 53 significant bits, or none if it has fewer. -/
def shiftOf (whole : Nat) : Nat := whole.log2 + 1 - precision

/-- At its own shift a magnitude has at most 53 bits. -/
theorem div_shiftOf_lt (whole : Nat) : whole / 2 ^ shiftOf whole < 2 ^ (53 : Nat) := by
  rw [Nat.div_lt_iff_lt_mul (Nat.two_pow_pos _), ← Nat.pow_add]
  exact Nat.lt_of_lt_of_le Nat.lt_log2_self
    (Nat.pow_le_pow_right (by decide) (by unfold shiftOf precision; omega))

/-- And where it is shifted at all, it fills them. -/
theorem le_div_shiftOf {whole : Nat} (h : shiftOf whole ≠ 0) :
    2 ^ (52 : Nat) ≤ whole / 2 ^ shiftOf whole := by
  have hlog : 53 ≤ whole.log2 := by unfold shiftOf precision at h; omega
  have hne : whole ≠ 0 := by
    intro h0
    rw [h0] at hlog
    exact absurd hlog (by decide)
  rw [Nat.le_div_iff_mul_le (Nat.two_pow_pos _), ← Nat.pow_add]
  refine Nat.le_trans (Nat.pow_le_pow_right (by decide) ?_) (Nat.log2_self_le hne)
  unfold shiftOf precision
  omega

/-- The double nearest to `n / d` ticks, with the given sign. A magnitude past the largest double by half a
step or more is infinite. -/
def ofTicks (negative : Bool) (n d : Nat) : Binary64 :=
  let shift := shiftOf (n / d)
  let significand := roundQuotient n (d * 2 ^ shift)
  if hs : significand < 2 ^ (53 : Nat) then
    if hb : shift ≤ maxShift then
      .finite ⟨negative, significand, shift, hs, hb, by
        by_cases h : shift = 0
        · exact .inl h
        · refine .inr (Nat.le_trans (le_div_shiftOf h) ?_)
          rw [Nat.div_div_eq_div_mul]
          exact le_roundQuotient _ _⟩
    else .infinite negative
  else if hb : shift + 1 ≤ maxShift then
    .finite ⟨negative, 2 ^ (52 : Nat), shift + 1, by decide, hb, .inr (Nat.le_refl _)⟩
  else .infinite negative

/-- Rounding carries into one more bit only from the last grid point of the shift, so the significand that
`ofTicks` takes there is the right one. -/
theorem roundQuotient_shiftOf_le (n d : Nat) :
    roundQuotient n (d * 2 ^ shiftOf (n / d)) ≤ 2 ^ (53 : Nat) := by
  refine Nat.le_trans (roundQuotient_le _ _) ?_
  rw [← Nat.div_div_eq_div_mul]
  exact div_shiftOf_lt _

/-- A magnitude well below the largest double rounds to a finite one. -/
theorem exists_finite_ofTicks {n d k : Nat} (h : n / d < 2 ^ k) (hk : k ≤ 2097) (negative : Bool) :
    ∃ x, ofTicks negative n d = .finite x := by
  have hlog : (n / d).log2 < 2097 := by
    by_cases h0 : n / d = 0
    · rw [h0]; decide
    · exact Nat.lt_of_lt_of_le ((Nat.log2_lt h0).mpr h) hk
  have hshift : shiftOf (n / d) + 1 ≤ maxShift := by unfold shiftOf precision maxShift; omega
  unfold ofTicks
  by_cases hs : roundQuotient n (d * 2 ^ shiftOf (n / d)) < 2 ^ (53 : Nat)
  · exact ⟨_, by rw [dif_pos hs, dif_pos (Nat.le_of_succ_le hshift)]⟩
  · exact ⟨_, by rw [dif_neg hs, dif_pos hshift]⟩

/-- The double nearest to the quotient `n / d`. -/
def ofRatio (negative : Bool) (n d : Nat) : Binary64 := ofTicks negative (n * ticksPerUnit) d

/-- The double nearest to an integer. -/
def ofInt (n : Int) : Binary64 := ofRatio (decide (n < 0)) n.natAbs 1

/-- An integer of 64 bits has a finite double nearest to it. -/
theorem exists_finite_ofInt {n : Int} (h : n.natAbs < 2 ^ (65 : Nat)) : ∃ x, ofInt n = .finite x := by
  obtain ⟨m, hm, hticks⟩ : ∃ m, m = 1074 ∧ ticksPerUnit = 2 ^ m := ⟨1074, rfl, rfl⟩
  refine exists_finite_ofTicks (k := 65 + m) ?_ (by omega) _
  rw [Nat.div_one, hticks, Nat.pow_add]
  exact Nat.mul_lt_mul_of_pos_right h (Nat.two_pow_pos m)

/-- The rounded product of two doubles. -/
def Finite.mul (x y : Finite) : Binary64 :=
  ofTicks (x.negative != y.negative) (x.ticks * y.ticks) ticksPerUnit

/-- The rounded quotient of two doubles, for a divisor other than zero. -/
def Finite.div (x y : Finite) : Binary64 :=
  ofTicks (x.negative != y.negative) (x.ticks * ticksPerUnit) y.ticks

/-- The double nearest to a power of ten. -/
def powerOfTen (k : Nat) : Binary64 := ofRatio false (10 ^ k) 1

end Binary64

end ServiceContracts
