import ServiceContracts.Proofs.Binary64.Nearest
/-!
# Doubles of naturals

An integer of at most 53 significant bits is a double
(`Finite.exists_ticks_eq`), and rounding never passes a double, so what a
natural rounds to is bounded by such integers on either side. In the upper
half of the 64-bit range doubles lie 2048 apart, and `2 ^ 63` is what all
naturals up to `2 ^ 63 + 1024` round to.
-/


namespace ServiceContracts

-- Powers are those of the core library here, whichever others are in scope.
attribute [local instance (high)] instPowNat

namespace Binary64

/-! ## Rounding naturals -/

theorem ticksPerUnit_pos : 0 < ticksPerUnit :=
  Nat.pos_of_ne_zero (Int.natCast_ne_zero.mp ticksPerUnit_ne_zero)

/-- A common factor does not change what a quotient rounds to. -/
theorem roundQuotient_mul_right {k : Nat} (hk : 0 < k) (n d : Nat) :
    roundQuotient (n * k) (d * k) = roundQuotient n d := by
  have hlt : 2 * (n % d * k) < d * k ↔ 2 * (n % d) < d := by
    rw [← Nat.mul_assoc, Nat.mul_lt_mul_right hk]
  have hgt : d * k < 2 * (n % d * k) ↔ d < 2 * (n % d) := by
    rw [← Nat.mul_assoc, Nat.mul_lt_mul_right hk]
  unfold roundQuotient
  simp only [Nat.mul_div_mul_right _ _ hk, Nat.mul_mod_mul_right, hlt, hgt]

theorem finite?_eq_some_iff {q : Binary64} {x : Finite} : q.finite? = some x ↔ q = .finite x := by
  cases q <;> simp [finite?]

namespace Finite

variable {negative : Bool} {n d : Nat} {x z : Finite}

/-- A positive double, given a sign. -/
theorem signedTicks_signed (h : x.negative = false) (negative : Bool) :
    (if negative then x.neg else x).signedTicks =
      if negative then -(x.ticks : ℤ) else x.ticks := by
  have hneg : x.neg.ticks = x.ticks := rfl
  cases negative
  · simp [signedTicks, h]
  · rw [if_pos rfl, if_pos rfl, signedTicks, hneg, neg, h]
    rfl

/-- A quotient that is a double rounds to it. -/
theorem ticks_eq_of_ofTicks (hd : 0 < d) (h : ofTicks negative n d = .finite x)
    (hz : z.ticks * d = n) : x.ticks = z.ticks := by
  have hnear := (natAbs_sub_ticks_le hd h z).1
  exact Nat.eq_of_mul_eq_mul_right hd (by omega)

/-- Rounding does not pass a double, downward or upward. -/
theorem ticks_le_of_ofTicks (hd : 0 < d) (h : ofTicks negative n d = .finite x)
    (hz : z.ticks * d ≤ n) : z.ticks ≤ x.ticks := by
  have hnear := (natAbs_sub_ticks_le hd h z).1
  by_contra hlt
  have hless : x.ticks * d < z.ticks * d := Nat.mul_lt_mul_of_pos_right (by omega) hd
  omega

theorem le_ticks_of_ofTicks (hd : 0 < d) (h : ofTicks negative n d = .finite x)
    (hz : n ≤ z.ticks * d) : x.ticks ≤ z.ticks := by
  have hnear := (natAbs_sub_ticks_le hd h z).1
  by_contra hlt
  have hmore : z.ticks * d < x.ticks * d := Nat.mul_lt_mul_of_pos_right (by omega) hd
  omega

/-- Integers of 53 significant bits are doubles. -/
theorem exists_ticks_eq {m k : Nat} (hm : m < 2 ^ 53) (hk : k ≤ 900) :
    ∃ z : Finite, z.ticks = m * 2 ^ k * ticksPerUnit := by
  by_cases h0 : m = 0
  · exact ⟨zero, by simp [h0, ticks, zero]⟩
  obtain ⟨u, hu, hunit⟩ : ∃ u, u = 1074 ∧ ticksPerUnit = 2 ^ u := ⟨1074, rfl, rfl⟩
  have hlog : m.log2 < 53 := (Nat.log2_lt h0).mpr hm
  have hfull : m.log2 + (52 - m.log2) = 52 := by omega
  have hlow : 2 ^ 52 ≤ m * 2 ^ (52 - m.log2) := by
    rw [← hfull, Nat.pow_add, hfull]
    exact Nat.mul_le_mul_right _ (Nat.log2_self_le h0)
  have hhigh : m * 2 ^ (52 - m.log2) < 2 ^ 53 := by
    have hlt := Nat.mul_lt_mul_of_pos_right (Nat.lt_log2_self (n := m))
      (Nat.two_pow_pos (52 - m.log2))
    rwa [← Nat.pow_add, show m.log2 + 1 + (52 - m.log2) = 53 by omega] at hlt
  refine ⟨⟨false, m * 2 ^ (52 - m.log2), k + u - (52 - m.log2), hhigh, ?_, .inr hlow⟩, ?_⟩
  · unfold maxShift
    omega
  · have hsum : 52 - m.log2 + (k + u - (52 - m.log2)) = k + u := by omega
    rw [ticks, Nat.mul_assoc, ← Nat.pow_add, hsum, hunit, Nat.mul_assoc, ← Nat.pow_add]

end Finite

section Naturals

variable {m : Nat} {x z : Finite} {negative : Bool}

/-- A natural of 64 bits rounds to a finite double. -/
theorem exists_finite_ofRatio (h : m < 2 ^ 64) (negative : Bool) :
    ∃ x, ofRatio negative m 1 = .finite x := by
  obtain ⟨u, hu, hunit⟩ : ∃ u, u = 1074 ∧ ticksPerUnit = 2 ^ u := ⟨1074, rfl, rfl⟩
  refine exists_finite_ofTicks (k := 64 + u) ?_ (by omega) negative
  rw [Nat.div_one, hunit, Nat.pow_add]
  exact Nat.mul_lt_mul_of_pos_right h (Nat.two_pow_pos u)

theorem ticks_eq_of_ofRatio (h : ofRatio negative m 1 = .finite x)
    (hz : z.ticks = m * ticksPerUnit) : x.ticks = m * ticksPerUnit := by
  rw [← hz]
  exact Finite.ticks_eq_of_ofTicks Nat.one_pos h (by rw [hz, Nat.mul_one])

theorem ticks_le_of_ofRatio (h : ofRatio negative m 1 = .finite x)
    (hz : z.ticks ≤ m * ticksPerUnit) : z.ticks ≤ x.ticks :=
  Finite.ticks_le_of_ofTicks Nat.one_pos h (by rwa [Nat.mul_one])

theorem le_ticks_of_ofRatio (h : ofRatio negative m 1 = .finite x)
    (hz : m * ticksPerUnit ≤ z.ticks) : x.ticks ≤ z.ticks :=
  Finite.le_ticks_of_ofTicks Nat.one_pos h (by rwa [Nat.mul_one])

/-- In the upper half of the 64-bit range doubles lie 2048 apart. -/
theorem ticks_of_ofRatio (hlow : 2 ^ 63 ≤ m) (hhigh : m < 2 ^ 64)
    (h : ofRatio negative m 1 = .finite x) :
    x.ticks = roundQuotient m 2048 * (2048 * ticksPerUnit) := by
  obtain ⟨u, hunit⟩ : ∃ u, ticksPerUnit = 2 ^ u := ⟨1074, rfl⟩
  have hpos := Nat.two_pow_pos u
  have hlog : (m * 2 ^ u).log2 = 63 + u := by
    refine (Nat.log2_eq_iff (Nat.ne_of_gt (Nat.mul_pos (by omega) hpos))).mpr ⟨?_, ?_⟩
    · rw [Nat.pow_add]
      exact Nat.mul_le_mul_right _ hlow
    · rw [show 63 + u + 1 = 64 + u by omega, Nat.pow_add]
      exact Nat.mul_lt_mul_of_pos_right hhigh hpos
  have hshift : shiftOf (m * 2 ^ u / 1) = 11 + u := by
    rw [Nat.div_one, shiftOf, hlog, precision]
    omega
  rw [ofRatio, hunit] at h
  have hticks := (Finite.of_ofTicks h).2.1
  rw [hshift, Nat.one_mul, Nat.pow_add, roundQuotient_mul_right hpos] at hticks
  rw [hticks, hunit]

/-- The least multiple of 2048 there takes what is within half a step. -/
theorem ticks_of_ofRatio_of_le (hlow : 2 ^ 63 ≤ m) (hhigh : m ≤ 2 ^ 63 + 1024)
    (h : ofRatio negative m 1 = .finite x) : x.ticks = 2 ^ 63 * ticksPerUnit := by
  have hround : roundQuotient m 2048 = 2 ^ 52 := by
    unfold roundQuotient
    split_ifs <;> omega
  rw [ticks_of_ofRatio hlow (by omega) h, hround]
  ring

/-- And not what is further up. -/
theorem lt_ticks_of_ofRatio (hlow : 2 ^ 63 + 1024 < m) (hhigh : m < 2 ^ 64)
    (h : ofRatio negative m 1 = .finite x) : 2 ^ 63 * ticksPerUnit < x.ticks := by
  have hround : 2 ^ 52 < roundQuotient m 2048 := by
    unfold roundQuotient
    split_ifs <;> omega
  rw [ticks_of_ofRatio (by omega) hhigh h]
  calc 2 ^ 63 * ticksPerUnit = 2 ^ 52 * (2048 * ticksPerUnit) := by ring
    _ < roundQuotient m 2048 * (2048 * ticksPerUnit) :=
      Nat.mul_lt_mul_of_pos_right hround (Nat.mul_pos (by decide) ticksPerUnit_pos)

end Naturals

end Binary64

end ServiceContracts
