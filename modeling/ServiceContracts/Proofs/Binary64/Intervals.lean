import ServiceContracts.Binary64.Text
import ServiceContracts.Proofs.Binary64.Naturals
import ServiceContracts.Proofs.Binary64.Zeros
import Mathlib.Data.Rat.Cast.Order
/-!
# The decimals of a double

A decimal reads back to the double in whose interval it lies. The
intervals of two doubles meet in an end at most, and an end belongs to
one of the two at most, so a decimal lies in the interval of one magnitude
only (`ticks_eq_of_attracts`).

The search for the shortest decimal finds one. On the last of its grids
the step is below half the distance to the next double, so the neighbour
under the value lies in the interval (`exists_nearestOn`), and whatever is
found lies in it (`attracts_shortest`). So the shortest decimal tells the
magnitude of a double (`ticks_eq_of_value_eq`).
-/


namespace ServiceContracts

-- Powers are those of the core library here, whichever others are in scope.
attribute [local instance (high)] instPowNat

namespace Binary64.Finite

variable {x y : Finite} {n d : Nat}

/-! ## Intervals -/

/-- The ends belong to the interval of an even significand only. -/
theorem attracts_iff : x.attracts n d = true ↔
    x.lowerEnd * d ≤ n ∧ n ≤ x.upperEnd * d ∧
      (x.significand % 2 = 1 → x.lowerEnd * d ≠ n ∧ n ≠ x.upperEnd * d) := by
  unfold attracts
  split <;> simp only [Bool.and_eq_true, decide_eq_true_iff] <;> omega

/-- Where the steps of a larger double are wider, it begins its binade at the
earliest, and the binade of the smaller one has ended there. -/
theorem exists_binade (h : x.shift < y.shift) : ∃ binade m, 2 ^ y.shift = 2 * 2 ^ x.shift + m ∧
    (x.significand + 1) * 2 ^ x.shift ≤ binade ∧
    (binade ≤ (x.significand + 1) * 2 ^ x.shift → x.significand % 2 = 1) ∧
    (y.significand = 2 ^ 52 ∧ y.shift ≠ 0 ∧ binade + m ≤ y.ticks ∨
      ¬ (y.significand = 2 ^ 52 ∧ y.shift ≠ 0) ∧ binade + m + 2 ^ y.shift ≤ y.ticks) := by
  have hfull : 2 ^ 52 ≤ y.significand := y.normal.resolve_left (by omega)
  have hlt := x.significand_lt
  have hstep : 2 * 2 ^ x.shift ≤ 2 ^ y.shift := by
    rw [Nat.mul_comm, ← Nat.pow_succ]
    exact Nat.pow_le_pow_right (by decide) h
  obtain ⟨m, hm⟩ := Nat.exists_eq_add_of_le hstep
  have hbegins : 2 ^ 53 * 2 ^ x.shift + m ≤ 2 ^ 52 * 2 ^ y.shift := by
    rw [hm, Nat.mul_add, ← Nat.mul_assoc]
    exact Nat.add_le_add_left (Nat.le_mul_of_pos_left m (by decide)) _
  refine ⟨2 ^ 53 * 2 ^ x.shift, m, hm, Nat.mul_le_mul_right _ hlt, fun hlast => ?_, ?_⟩
  · have hlast := Nat.le_of_mul_le_mul_right hlast (Nat.two_pow_pos _)
    omega
  · rcases Nat.eq_or_lt_of_le hfull with heq | hlater
    · refine .inl ⟨heq.symm, by omega, ?_⟩
      rw [ticks, ← heq]
      exact hbegins
    · refine .inr ⟨by omega, ?_⟩
      calc 2 ^ 53 * 2 ^ x.shift + m + 2 ^ y.shift
          ≤ 2 ^ 52 * 2 ^ y.shift + 2 ^ y.shift := Nat.add_le_add_right hbegins _
        _ = (2 ^ 52 + 1) * 2 ^ y.shift := by rw [Nat.add_mul, Nat.one_mul]
        _ ≤ y.ticks := Nat.mul_le_mul_right _ hlater

/-- **The interval of a smaller double ends where that of a larger one
begins**, if not before; and if there, then one of the significands is
odd. -/
theorem upperEnd_le_lowerEnd (h : x.ticks < y.ticks) :
    x.upperEnd ≤ y.lowerEnd ∧
      (x.upperEnd = y.lowerEnd → x.significand % 2 = 1 ∨ y.significand % 2 = 1) := by
  have hpos : 0 < 2 ^ x.shift := Nat.two_pow_pos _
  have hx : x.ticks = x.significand * 2 ^ x.shift := rfl
  rcases Nat.lt_trichotomy x.shift y.shift with hshift | hshift | hshift
  · obtain ⟨binade, m, hm, hlast, hodd, ⟨hfirst, hs, hbegins⟩ | ⟨hlater, hbegins⟩⟩ :=
      exists_binade hshift
    all_goals rw [Nat.add_mul, Nat.one_mul, ← hx] at hlast hodd
    · unfold upperEnd lowerEnd
      rw [if_pos ⟨hfirst, hs⟩]
      exact ⟨by omega, fun hends => .inl (hodd (by omega))⟩
    · unfold upperEnd lowerEnd
      rw [if_neg hlater]
      exact ⟨by omega, fun hends => absurd hends (by omega)⟩
  · have hy : y.ticks = y.significand * 2 ^ x.shift := by rw [ticks, hshift]
    have hlt : x.significand < y.significand := by
      rw [hx, hy] at h
      exact Nat.lt_of_mul_lt_mul_right h
    unfold upperEnd lowerEnd
    rw [← hshift]
    rcases Nat.eq_or_lt_of_le hlt with hnext | hfar
    · have hle : x.ticks + 2 ^ x.shift = y.ticks := by
        rw [hx, hy, ← hnext, Nat.succ_mul]
      refine ⟨by split <;> omega, fun _ => by omega⟩
    · have hle : x.ticks + 2 * 2 ^ x.shift ≤ y.ticks := by
        rw [hx, hy, ← Nat.add_mul]
        exact Nat.mul_le_mul_right _ hfar
      exact ⟨by split <;> omega, fun hends => absurd hends (by split <;> omega)⟩
  · exact absurd h (Nat.not_lt.mpr (ticks_lt_of_shift_lt hshift).le)

/-- **A number lies in the interval of one magnitude only.** -/
theorem ticks_eq_of_attracts (hd : 0 < d) (hx : x.attracts n d = true)
    (hy : y.attracts n d = true) : x.ticks = y.ticks := by
  have hle : ∀ {a b : Finite}, a.attracts n d = true → b.attracts n d = true →
      ¬ a.ticks < b.ticks := by
    intro a b ha hb hlt
    obtain ⟨-, hupper, ha⟩ := attracts_iff.mp ha
    obtain ⟨hlower, -, hb⟩ := attracts_iff.mp hb
    obtain ⟨hends, hodd⟩ := upperEnd_le_lowerEnd hlt
    have heq : a.upperEnd = b.lowerEnd :=
      Nat.le_antisymm hends (Nat.le_of_mul_le_mul_right (hlower.trans hupper) hd)
    rcases hodd heq with hodd | hodd
    · exact (ha hodd).2 (Nat.le_antisymm hupper (heq ▸ hlower))
    · exact (hb hodd).1 (Nat.le_antisymm hlower (heq ▸ hupper))
  exact Nat.le_antisymm (Nat.not_lt.mp (hle hy hx)) (Nat.not_lt.mp (hle hx hy))

/-- It does so as a fraction. -/
theorem attracts_congr {n' d' : Nat} (hd : 0 < d) (hd' : 0 < d') (h : n * d' = n' * d) :
    x.attracts n d = x.attracts n' d' := by
  have hlower : x.lowerEnd * d ≤ n ↔ x.lowerEnd * d' ≤ n' := by
    rw [← Nat.mul_le_mul_right_iff hd', h, Nat.mul_right_comm, Nat.mul_le_mul_right_iff hd]
  have hupper : n ≤ x.upperEnd * d ↔ n' ≤ x.upperEnd * d' := by
    rw [← Nat.mul_le_mul_right_iff hd', h, Nat.mul_right_comm, Nat.mul_le_mul_right_iff hd]
  have hlower' : x.lowerEnd * d < n ↔ x.lowerEnd * d' < n' := by
    rw [← Nat.mul_lt_mul_right hd', h, Nat.mul_right_comm, Nat.mul_lt_mul_right hd]
  have hupper' : n < x.upperEnd * d ↔ n' < x.upperEnd * d' := by
    rw [← Nat.mul_lt_mul_right hd', h, Nat.mul_right_comm, Nat.mul_lt_mul_right hd]
  unfold attracts
  simp only [hlower, hupper, hlower', hupper']

/-! ## The search -/

/-- What is found on a grid lies in the interval. -/
theorem attracts_of_nearest {step scale k : Nat} (h : x.nearest step scale = some k) :
    x.attracts (k * step) scale = true := by
  unfold nearest at h
  dsimp only at h
  split at h
  · cases h
  · next hbelow _ =>
    cases h
    exact hbelow
  · next _ habove =>
    cases h
    exact habove
  · next hbelow habove =>
    split at h
    · cases h
      exact hbelow
    · split at h
      · cases h
        exact habove
      · -- the even one of the two
        cases h
        obtain heven | hodd := Nat.mod_two_eq_zero_or_one (4 * x.ticks * scale / step)
        · rw [heven]
          exact hbelow
        · rw [hodd]
          exact habove

/-- Where the step is at most half the distance to the next double, the
neighbour under the value lies in the interval. -/
theorem attracts_below {step scale : Nat} (hstep : 0 < step) (hscale : 0 < scale)
    (hfine : step ≤ scale * 2 ^ x.shift) (hx : x.ticks ≠ 0) :
    x.attracts (4 * x.ticks * scale / step * step) scale = true := by
  have hdiv := Nat.div_add_mod' (4 * x.ticks * scale) step
  have hrest := Nat.mod_lt (4 * x.ticks * scale) hstep
  have hpos := Nat.two_pow_pos x.shift
  have hticks : 2 ^ x.shift ≤ x.ticks := by
    refine Nat.le_mul_of_pos_left _ (Nat.pos_of_ne_zero fun h => hx ?_)
    rw [ticks, h, Nat.zero_mul]
  have hlower : x.lowerEnd + 2 ^ x.shift ≤ 4 * x.ticks := by
    unfold lowerEnd
    split <;> omega
  have hupper : 4 * x.ticks < x.upperEnd := by
    unfold upperEnd
    omega
  have hlower := Nat.mul_le_mul_right scale hlower
  have hupper := Nat.mul_lt_mul_of_pos_right hupper hscale
  rw [Nat.add_mul, Nat.mul_comm (2 ^ x.shift)] at hlower
  exact attracts_iff.mpr ⟨by omega, by omega, fun _ => ⟨by omega, by omega⟩⟩

/-- And the search ends. -/
theorem exists_nearest {step scale : Nat} (hstep : 0 < step) (hscale : 0 < scale)
    (hfine : step ≤ scale * 2 ^ x.shift) (hx : x.ticks ≠ 0) : ∃ k, x.nearest step scale = some k := by
  have hbelow := attracts_below hstep hscale hfine hx
  unfold nearest
  dsimp only
  rw [hbelow]
  cases x.attracts ((4 * x.ticks * scale / step + 1) * step) scale with
  | false => exact ⟨_, rfl⟩
  | true =>
    dsimp only
    split
    · exact ⟨_, rfl⟩
    · split <;> exact ⟨_, rfl⟩

/-- The exponent of the last grid of the search, for a double of so many
bits. -/
def lastExponent (size : Nat) : Int := ((size : Int) + 1 - 1074) * 30103 / 100000 + 1 - 19

/-- **The last grid is fine enough**, in the first binade and in all others. -/
theorem step_lastExponent_le : (∀ size : Nat, size < 53 →
      10 ^ (lastExponent size).toNat * quartersPerUnit ≤ 10 ^ (-lastExponent size).toNat) ∧
    ∀ shift : Nat, shift < 2046 → 10 ^ (lastExponent (52 + shift)).toNat * quartersPerUnit ≤
      10 ^ (-lastExponent (52 + shift)).toNat * 2 ^ shift := by
  decide +kernel

theorem step_le {x : Finite} (hx : x.ticks ≠ 0) :
    10 ^ (x.leadingExponent - 19).toNat * quartersPerUnit ≤
      10 ^ (-(x.leadingExponent - 19)).toNat * 2 ^ x.shift := by
  have hlast : x.leadingExponent - 19 = lastExponent x.ticks.log2 := rfl
  rw [hlast]
  by_cases hshift : x.shift = 0
  · have hsize : x.ticks.log2 < 53 := by
      rw [Nat.log2_lt hx, ticks, hshift, Nat.pow_zero, Nat.mul_one]
      exact x.significand_lt
    rw [hshift, Nat.pow_zero, Nat.mul_one]
    exact step_lastExponent_le.1 _ hsize
  · have hfull : 2 ^ 52 ≤ x.significand := x.normal.resolve_left hshift
    have hsize : x.ticks.log2 = 52 + x.shift := by
      refine (Nat.log2_eq_iff hx).mpr ⟨?_, ?_⟩
      · rw [ticks, Nat.pow_add]
        exact Nat.mul_le_mul_right _ hfull
      · rw [ticks, Nat.add_right_comm, Nat.pow_add]
        exact Nat.mul_lt_mul_of_pos_right x.significand_lt (Nat.two_pow_pos _)
    rw [hsize]
    exact step_lastExponent_le.2 _ (Nat.lt_succ_of_le x.shift_le)

/-- Zero lies in the interval of zero. -/
theorem attracts_zero (h : x.ticks = 0) (d : Nat) : x.attracts 0 d = true := by
  have hlower : x.lowerEnd = 0 := by
    unfold lowerEnd
    omega
  have hsignificand : x.significand = 0 :=
    (Nat.mul_eq_zero.mp h).resolve_right (Nat.two_pow_pos _).ne'
  refine attracts_iff.mpr ⟨?_, Nat.zero_le _, by omega⟩
  rw [hlower, Nat.zero_mul]

/-- **The shortest decimal lies in the interval of its double.** -/
theorem attracts_shortest (x : Finite) :
    x.attracts (x.shortest.digits * (10 ^ x.shortest.exponent.toNat * quartersPerUnit))
      (10 ^ (-x.shortest.exponent).toNat) = true := by
  by_cases hx : x.ticks = 0
  · have hshortest : x.shortest = ⟨0, 0⟩ := by rw [shortest, if_pos hx]
    rw [hshortest, Nat.zero_mul]
    exact attracts_zero hx _
  · obtain ⟨found, hfound⟩ : ∃ found, (List.range 20).findSome? (fun (i : Nat) =>
        (x.nearestOn (x.leadingExponent - i)).map fun digits =>
          Decimal.mk digits (x.leadingExponent - i)) = some found := by
      obtain ⟨k, hk⟩ := exists_nearest (Nat.mul_pos (Nat.pow_pos (by decide))
        (Nat.mul_pos (by decide) ticksPerUnit_pos)) (Nat.pow_pos (by decide)) (step_le hx) hx
      refine Option.isSome_iff_exists.mp (List.findSome?_isSome_iff.mpr
        ⟨19, List.mem_range.mpr (by decide), ?_⟩)
      rw [Option.isSome_map, nearestOn]
      exact Option.isSome_iff_exists.mpr ⟨k, hk⟩
    obtain ⟨i, -, hi⟩ := List.exists_of_findSome?_eq_some hfound
    obtain ⟨k, hk, rfl⟩ := Option.map_eq_some_iff.mp hi
    have hshortest : x.shortest = ⟨k, x.leadingExponent - i⟩ := by
      rw [shortest, if_neg hx]
      dsimp only
      rw [hfound, Option.getD_some]
    rw [hshortest]
    exact attracts_of_nearest hk

end Binary64.Finite

/-- The number that a decimal is. -/
def Decimal.value (d : Decimal) : ℚ :=
  (d.digits * 10 ^ d.exponent.toNat : Nat) / (10 ^ (-d.exponent).toNat : Nat)

theorem Decimal.value_eq_iff {d e : Decimal} : d.value = e.value ↔
    d.digits * 10 ^ d.exponent.toNat * 10 ^ (-e.exponent).toNat =
      e.digits * 10 ^ e.exponent.toNat * 10 ^ (-d.exponent).toNat := by
  have hscale : ∀ k : Nat, ((10 ^ k : Nat) : ℚ) ≠ 0 := fun k =>
    Nat.cast_ne_zero.mpr (Nat.pow_pos (by decide)).ne'
  rw [value, value, div_eq_div_iff (hscale _) (hscale _)]
  norm_cast

/-- **Doubles with the same shortest decimal have the same magnitude.** -/
theorem Binary64.Finite.ticks_eq_of_value_eq {x y : Binary64.Finite}
    (h : x.shortest.value = y.shortest.value) : x.ticks = y.ticks := by
  have hx := x.attracts_shortest
  have hscale : ∀ e : Int, 0 < 10 ^ (-e).toNat := fun e => Nat.pow_pos (by decide)
  refine ticks_eq_of_attracts (hscale y.shortest.exponent) ?_ y.attracts_shortest
  rwa [attracts_congr (hscale _) (hscale y.shortest.exponent)] at hx
  rw [← Nat.mul_assoc, ← Nat.mul_assoc, Nat.mul_right_comm, Decimal.value_eq_iff.mp h,
    Nat.mul_right_comm]

end ServiceContracts
