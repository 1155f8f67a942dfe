import ServiceContracts.Binary64.Rounding
import Mathlib.Data.Nat.Init
import Mathlib.Tactic.Ring
/-!
# Rounding gives the nearest double

`ofTicks` picks a grid by the size of a quotient and a point of the grid
by the remainder. No other double is nearer to the quotient, and where
another one is as near, the one picked has an even significand
(`Finite.isNearest_of_ofTicks`). The other doubles lie on the same grid or
below all of it that matters (`Finite.ticks_on_grid`), so a statement about
multiples of one step is enough.

Distances are taken in ticks and multiplied by the divisor, so everything
is about integers.
-/


namespace ServiceContracts.Binary64

/-! ## The nearest multiple -/

section Multiples

variable {n d : Nat}

/-- A multiple lies at or below the quotient, or a whole step above. -/
theorem mul_le_or_le_mul (k q d : Nat) : k * d ≤ q * d ∨ q * d + d ≤ k * d := by
  rcases Nat.lt_or_ge q k with hlt | hle
  · right
    have hsucc : (q + 1) * d ≤ k * d := Nat.mul_le_mul_right d hlt
    rwa [Nat.succ_mul] at hsucc
  · left
    exact Nat.mul_le_mul_right d hle

/-- The three outcomes of rounding a quotient. -/
theorem roundQuotient_cases (n d : Nat) :
    (roundQuotient n d = n / d ∧ 2 * (n % d) < d) ∨
      (roundQuotient n d = n / d + 1 ∧ d < 2 * (n % d)) ∨
      (2 * (n % d) = d ∧ roundQuotient n d % 2 = 0 ∧
        (roundQuotient n d = n / d ∨ roundQuotient n d = n / d + 1)) := by
  unfold roundQuotient
  split
  · exact .inl ⟨rfl, ‹_›⟩
  · split
    · exact .inr (.inl ⟨rfl, ‹_›⟩)
    · exact .inr (.inr (by omega))

/-- **No multiple is nearer** than the one that rounding gives. -/
theorem natAbs_sub_roundQuotient_le (hd : 0 < d) (k : Nat) :
    ((n : Int) - (roundQuotient n d * d : Nat)).natAbs ≤ ((n : Int) - (k * d : Nat)).natAbs := by
  have hmod := Nat.div_add_mod n d
  have hlt := Nat.mod_lt n hd
  have hside := mul_le_or_le_mul k (n / d) d
  rw [Nat.mul_comm] at hmod
  obtain ⟨hround, hrest⟩ | ⟨hround, hrest⟩ | ⟨hrest, -, hround | hround⟩ := roundQuotient_cases n d
  · rw [hround]
    omega
  · rw [hround, Nat.succ_mul]
    omega
  · rw [hround]
    omega
  · rw [hround, Nat.succ_mul]
    omega

/-- And where another is as near, the one given is even. -/
theorem even_roundQuotient (hd : 0 < d) {k : Nat} (hk : k ≠ roundQuotient n d)
    (htie : ((n : Int) - (roundQuotient n d * d : Nat)).natAbs =
      ((n : Int) - (k * d : Nat)).natAbs) : roundQuotient n d % 2 = 0 := by
  have hmod := Nat.div_add_mod n d
  have hlt := Nat.mod_lt n hd
  rw [Nat.mul_comm] at hmod
  have hother : k * d ≠ roundQuotient n d * d := fun heq => hk (Nat.eq_of_mul_eq_mul_right hd heq)
  have hside := mul_le_or_le_mul k (n / d) d
  obtain ⟨hround, hrest⟩ | ⟨hround, hrest⟩ | ⟨-, heven, -⟩ := roundQuotient_cases n d
  · rw [hround] at htie hother
    omega
  · rw [hround, Nat.succ_mul] at htie hother
    omega
  · exact heven

end Multiples

namespace Finite

/-! ## The grid -/

/-- A double lies on the grid of a shift, or below the numbers that need the
shift. -/
theorem ticks_on_grid (y : Finite) (shift : Nat) :
    (∃ k, y.ticks = k * 2 ^ shift) ∨ shift ≠ 0 ∧ y.ticks < 2 ^ 52 * 2 ^ shift := by
  rcases Nat.lt_or_ge y.shift shift with hlt | hle
  · right
    refine ⟨by omega, ?_⟩
    have hpow : 2 * 2 ^ y.shift ≤ 2 ^ shift := by
      rw [← Nat.pow_succ']
      exact Nat.pow_le_pow_right (by decide) hlt
    calc y.ticks < 2 ^ 53 * 2 ^ y.shift :=
          Nat.mul_lt_mul_of_pos_right y.significand_lt (Nat.two_pow_pos _)
      _ = 2 ^ 52 * (2 * 2 ^ y.shift) := by ring
      _ ≤ 2 ^ 52 * 2 ^ shift := Nat.mul_le_mul_left _ hpow
  · left
    refine ⟨y.significand * 2 ^ (y.shift - shift), ?_⟩
    rw [ticks, Nat.mul_assoc, ← Nat.pow_add, Nat.sub_add_cancel hle]

/-- What rounding to ticks gives, when it is finite. -/
theorem of_ofTicks {negative : Bool} {n d : Nat} {x : Finite}
    (h : ofTicks negative n d = .finite x) :
    x.negative = negative ∧
      x.ticks = roundQuotient n (d * 2 ^ shiftOf (n / d)) * 2 ^ shiftOf (n / d) ∧
      (roundQuotient n (d * 2 ^ shiftOf (n / d)) % 2 = 0 → x.significand % 2 = 0) := by
  have hle := roundQuotient_shiftOf_le n d
  unfold ofTicks at h
  dsimp only at h
  split at h
  · split at h
    · cases h
      exact ⟨rfl, rfl, id⟩
    · cases h
  · split at h
    · cases h
      have hsignificand : 2 ^ 52 % 2 = 0 := by norm_num
      refine ⟨rfl, ?_, fun _ => hsignificand⟩
      have hfull : roundQuotient n (d * 2 ^ shiftOf (n / d)) = 2 ^ 53 := by omega
      rw [hfull, ticks]
      ring
    · cases h

/-- No magnitude is nearer to the quotient than that of the double that
rounding gives. -/
theorem natAbs_sub_ticks_le {negative : Bool} {n d : Nat} (hd : 0 < d) {x : Finite}
    (h : ofTicks negative n d = .finite x) (y : Finite) :
    ((n : Int) - (x.ticks * d : Nat)).natAbs ≤ ((n : Int) - (y.ticks * d : Nat)).natAbs ∧
      (y.ticks ≠ x.ticks →
        ((n : Int) - (x.ticks * d : Nat)).natAbs = ((n : Int) - (y.ticks * d : Nat)).natAbs →
        x.significand % 2 = 0) := by
  obtain ⟨-, hticks, heven⟩ := of_ofTicks h
  generalize hs : shiftOf (n / d) = shift at hticks heven
  have hstep : 0 < d * 2 ^ shift := Nat.mul_pos hd (Nat.two_pow_pos _)
  have hscale : ∀ k, k * 2 ^ shift * d = k * (d * 2 ^ shift) := by
    intro k
    ring
  rw [hticks, hscale]
  obtain ⟨k, hk⟩ | ⟨hshift, hbelow⟩ := y.ticks_on_grid shift
  · rw [hk, hscale]
    refine ⟨natAbs_sub_roundQuotient_le hstep k, fun hne htie => heven ?_⟩
    exact even_roundQuotient hstep (fun heq => hne (heq ▸ rfl)) htie
  · -- the least multiple that needs the shift lies between the two
    have hleast := natAbs_sub_roundQuotient_le hstep (n := n) (2 ^ 52)
    have hfits : 2 ^ 52 * (d * 2 ^ shift) ≤ n := by
      have hfull : 2 ^ 52 ≤ n / d / 2 ^ shift := hs ▸ le_div_shiftOf (hs.symm ▸ hshift)
      rwa [Nat.div_div_eq_div_mul, Nat.le_div_iff_mul_le hstep] at hfull
    have hless : y.ticks * d < 2 ^ 52 * (d * 2 ^ shift) := by
      rw [← hscale]
      exact Nat.mul_lt_mul_of_pos_right hbelow hd
    constructor
    · omega
    · omega

/-! ## The nearest double -/

/-- **A double nearest to `n / d` ticks**, of even significand if another one
is as near. -/
structure IsNearest (x : Finite) (n : Int) (d : Nat) : Prop where
  le : ∀ y : Finite, (n - x.signedTicks * d).natAbs ≤ (n - y.signedTicks * d).natAbs
  even : ∀ y : Finite, y.signedTicks ≠ x.signedTicks →
    (n - x.signedTicks * d).natAbs = (n - y.signedTicks * d).natAbs → x.significand % 2 = 0

theorem signedTicks_mul (x : Finite) (d : Nat) :
    x.signedTicks * d =
      if x.negative then -((x.ticks * d : Nat) : Int) else (x.ticks * d : Nat) := by
  unfold signedTicks
  split <;> push_cast <;> ring

/-- **Rounding gives the nearest double**, if a finite one. -/
theorem isNearest_of_ofTicks {negative : Bool} {n d : Nat} (hd : 0 < d) {x : Finite}
    (h : ofTicks negative n d = .finite x) :
    x.IsNearest (if negative then -(n : Int) else n) d := by
  obtain ⟨rfl, -, -⟩ := of_ofTicks h
  have hnear := natAbs_sub_ticks_le hd h
  -- a double of the other sign is no nearer than zero
  have hzero := (hnear zero).1
  have hticks : zero.ticks = 0 := Nat.zero_mul _
  rw [hticks] at hzero
  constructor
  · intro y
    have hle := (hnear y).1
    rw [signedTicks_mul, signedTicks_mul]
    split <;> split <;> omega
  · intro y hne htie
    have heven := (hnear y).2
    rw [signedTicks_mul, signedTicks_mul] at htie
    by_cases hsign : y.negative = x.negative
    · have hother : y.ticks ≠ x.ticks := by
        intro heq
        exact hne (by rw [signedTicks, signedTicks, hsign, heq])
      refine heven hother ?_
      rw [hsign] at htie
      split at htie <;> omega
    · -- one of the other sign is as near only if it is zero itself
      have hflip : x.negative = !y.negative := Bool.eq_not_of_ne (Ne.symm hsign)
      have hnone : y.ticks * d = 0 := by
        cases hy : y.negative <;> simp only [hflip, hy, Bool.not_true, Bool.not_false, if_true,
          Bool.false_eq_true, if_false] at htie <;> omega
      have hy : y.ticks = 0 := (Nat.mul_eq_zero.mp hnone).resolve_right (Nat.ne_of_gt hd)
      have hother : y.ticks ≠ x.ticks := by
        intro heq
        have hx : x.ticks = 0 := heq ▸ hy
        exact hne (by simp [signedTicks, hx, hy])
      refine heven hother ?_
      split at htie <;> split at htie <;> omega

end Finite

/-- **The double of an integer is the nearest one.** -/
theorem exists_isNearest_ofInt {n : Int} (h : n.natAbs < 2 ^ 65) :
    ∃ x, ofInt n = .finite x ∧ x.IsNearest (n * ticksPerUnit) 1 := by
  obtain ⟨x, hx⟩ := exists_finite_ofInt h
  refine ⟨x, hx, ?_⟩
  have hround := Finite.isNearest_of_ofTicks Nat.one_pos hx
  have hsigned : (if decide (n < 0) then -((n.natAbs * ticksPerUnit : Nat) : Int)
      else (n.natAbs * ticksPerUnit : Nat)) = n * ticksPerUnit := by
    generalize ticksPerUnit = unit
    by_cases hneg : n < 0
    · rw [if_pos (decide_eq_true hneg), Int.natCast_mul, ← Int.neg_mul]
      congr 1
      omega
    · rw [if_neg (by simpa using hneg), Int.natCast_mul]
      congr 1
      omega
  rwa [hsigned] at hround

end ServiceContracts.Binary64
