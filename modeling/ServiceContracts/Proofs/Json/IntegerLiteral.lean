import ServiceContracts.Json.Reader
import ServiceContracts.Proofs.Binary64.Naturals
import Mathlib.Data.List.TakeWhile
/-!
# Integer literals

An integer literal is read as the integer that it denotes, if that fits 64
bits with its sign. Any other is read as a double, and of those the ones
just below the least 64-bit integer are rounded to it
(`Json.IntegerLiteral.ReadsAs`).

In a text a literal is no different from the number that it is read as: to
read the text is to read the literal, and then to go on with that number
in its place (`Json.parse?_literal`).
-/


namespace ServiceContracts

-- Powers are those of the core library here, whichever others are in scope.
attribute [local instance (high)] instPowNat

namespace Json.Number

open Binary64 (ticksPerUnit)

/-! ## Digits that are absorbed -/

theorem digitValue_le {c : Char} (h : c.isDigit = true) : digitValue c ≤ 9 := by
  have hrange : 48 ≤ c.toNat ∧ c.toNat ≤ 57 := by
    simpa [Char.isDigit, UInt32.le_iff_toNat_le] using h
  have hzero : '0'.toNat = 48 := rfl
  rw [digitValue, hzero]
  omega

/-- Appending a digit. -/
def appendDigit (n : Nat) (c : Char) : Nat := 10 * n + digitValue c

theorem le_foldl_appendDigit (n : Nat) (cs : List Char) : n ≤ cs.foldl appendDigit n := by
  induction cs generalizing n with
  | nil => exact le_rfl
  | cons c rest ih =>
    have hstep : n ≤ appendDigit n c := by
      rw [appendDigit]
      omega
    exact hstep.trans (ih _)

/-- Digits of a number that fits are absorbed, all of them. -/
theorem absorb_of_lt {n : Nat} {cs : List Char} (h : cs.foldl appendDigit n < 2 ^ 64) :
    absorb n cs = (cs.foldl appendDigit n, []) := by
  induction cs generalizing n with
  | nil => rfl
  | cons c rest ih =>
    have hnext : appendDigit n c < 2 ^ 64 := lt_of_le_of_lt (le_foldl_appendDigit _ rest) h
    rw [absorb]
    exact (if_pos hnext).trans (ih h)

/-- Of others some are left, and what is absorbed is nearly full. -/
theorem absorb_of_le {n : Nat} {cs : List Char} (hn : n < 2 ^ 64)
    (hdigits : ∀ c ∈ cs, c.isDigit = true) (h : 2 ^ 64 ≤ cs.foldl appendDigit n) :
    ∃ head left, absorb n cs = (head, left) ∧ left ≠ [] ∧ head < 2 ^ 64 ∧
      2 ^ 64 ≤ 10 * head + 9 := by
  induction cs generalizing n with
  | nil => exact absurd h (by simpa using hn)
  | cons c rest ih =>
    obtain ⟨hc, hrest⟩ := List.forall_mem_cons.mp hdigits
    rw [absorb]
    by_cases hnext : appendDigit n c < 2 ^ 64
    · obtain ⟨head, left, habsorb, hleft⟩ := ih hnext hrest h
      exact ⟨head, left, (if_pos hnext).trans habsorb, hleft⟩
    · have hle := digitValue_le hc
      have hfull : 2 ^ 64 ≤ 10 * n + digitValue c := Nat.not_lt.mp hnext
      exact ⟨n, c :: rest, if_neg hnext, List.cons_ne_nil c rest, hn, by omega⟩

/-! ## The double of an integer literal -/

theorem timesTen_eq {k : Nat} {p : Binary64.Finite} (h : Binary64.powerOfTen k = .finite p)
    (x : Binary64.Finite) : timesTen x k = (x.mul p).finite? := by
  rw [timesTen, h, Binary64.finite?, Option.bind_some]

theorem exists_of_timesTen {x y : Binary64.Finite} {k : Nat} (h : timesTen x k = some y) :
    ∃ p, Binary64.ofRatio false (10 ^ k) 1 = .finite p ∧ x.mul p = .finite y := by
  obtain ⟨p, hp, hy⟩ := Option.bind_eq_some_iff.mp h
  exact ⟨p, Binary64.finite?_eq_some_iff.mp hp, Binary64.finite?_eq_some_iff.mp hy⟩

theorem scaled_natCast {m : Nat} {x : Binary64.Finite} (hx : Binary64.ofRatio false m 1 = .finite x)
    (k : Nat) :
    scaled m k = if k ≤ maxPower then timesTen x k else if m = 0 then some x else none := by
  rw [scaled, hx, Binary64.finite?, Option.bind_some,
    if_neg (Int.not_lt.mpr (Int.natCast_nonneg k)), Int.toNat_natCast]

/-- Multiplying by one changes nothing. -/
theorem exists_timesTen_zero {x : Binary64.Finite} (hx : x.negative = false) {k : Nat}
    (h : x.ticks < 2 ^ k) (hk : k ≤ 2097) :
    ∃ y, timesTen x 0 = some y ∧ y.negative = false ∧ y.ticks = x.ticks := by
  obtain ⟨one, hone⟩ := Binary64.exists_finite_ofRatio (m := 1) (by decide) false
  have hsign : one.negative = false := (Binary64.Finite.of_ofTicks hone).1
  have hticks : one.ticks = ticksPerUnit := by
    obtain ⟨z, hz⟩ := Binary64.Finite.exists_ticks_eq (m := 1) (k := 0) (by decide) (by decide)
    rw [Nat.pow_zero, Nat.mul_one] at hz
    rw [Binary64.ticks_eq_of_ofRatio hone hz, Nat.one_mul]
  have hpower : Binary64.powerOfTen 0 = .finite one := by
    rw [Binary64.powerOfTen, Nat.pow_zero, hone]
  have hsmall : x.ticks * ticksPerUnit / ticksPerUnit < 2 ^ k := by
    rwa [Nat.mul_div_cancel _ Binary64.ticksPerUnit_pos]
  obtain ⟨y, hy⟩ := Binary64.exists_finite_ofTicks hsmall hk false
  have hmul : x.mul one = .finite y := by
    rw [Binary64.Finite.mul, hx, hsign, hticks]
    exact hy
  refine ⟨y, by rw [timesTen_eq hpower, hmul, Binary64.finite?],
    (Binary64.Finite.of_ofTicks hy).1, ?_⟩
  exact Binary64.Finite.ticks_eq_of_ofTicks Binary64.ticksPerUnit_pos hy rfl

/-- **An integer that fits 64 bits** is rounded once. -/
theorem exists_scaled_zero {m : Nat} (h : m < 2 ^ 64) :
    ∃ x y, Binary64.ofRatio false m 1 = .finite x ∧ scaled m 0 = some y ∧
      y.negative = false ∧ y.ticks = x.ticks := by
  obtain ⟨u, hu, hunit⟩ : ∃ u, u = 1074 ∧ ticksPerUnit = 2 ^ u := ⟨1074, rfl, rfl⟩
  obtain ⟨x, hx⟩ := Binary64.exists_finite_ofRatio h false
  obtain ⟨z, hz⟩ := Binary64.Finite.exists_ticks_eq (m := 1) (k := 64) (by decide) (by decide)
  have hsmall : x.ticks < 2 ^ (65 + u) := by
    have hle : x.ticks ≤ z.ticks := by
      refine Binary64.le_ticks_of_ofRatio hx ?_
      rw [hz, Nat.one_mul]
      exact Nat.mul_le_mul_right _ h.le
    rw [hz, Nat.one_mul, hunit, ← Nat.pow_add] at hle
    exact lt_of_le_of_lt hle (Nat.pow_lt_pow_right (by decide) (by omega))
  obtain ⟨y, hy, hsign, hticks⟩ :=
    exists_timesTen_zero (Binary64.Finite.of_ofTicks hx).1 hsmall (by omega)
  have hscaled := scaled_natCast hx 0
  rw [if_pos (Nat.zero_le _)] at hscaled
  exact ⟨x, y, hx, hscaled.trans hy, hsign, hticks⟩

/-- **An integer of more digits** stays above `2 ^ 63`, if it is a double at
all. -/
theorem lt_ticks_of_scaled {head k : Nat} (hhead : 2 ^ 64 ≤ 10 * head + 9) (hlt : head < 2 ^ 64)
    (hk : k ≠ 0) {y : Binary64.Finite} (h : scaled head k = some y) :
    y.negative = false ∧ 2 ^ 63 * ticksPerUnit < y.ticks := by
  obtain ⟨x, hx⟩ := Binary64.exists_finite_ofRatio hlt false
  rw [scaled_natCast hx] at h
  split at h
  · obtain ⟨p, hp, hmul⟩ := exists_of_timesTen h
    -- three halves of `2 ^ 60`, eight and their product are doubles
    obtain ⟨low, hlow⟩ := Binary64.Finite.exists_ticks_eq (m := 3) (k := 59) (by decide) (by decide)
    obtain ⟨eight, height⟩ :=
      Binary64.Finite.exists_ticks_eq (m := 8) (k := 0) (by decide) (by decide)
    obtain ⟨z, hz⟩ := Binary64.Finite.exists_ticks_eq (m := 3) (k := 62) (by decide) (by decide)
    rw [Nat.pow_zero, Nat.mul_one] at height
    have hx' : low.ticks ≤ x.ticks := by
      refine Binary64.ticks_le_of_ofRatio hx ?_
      rw [hlow]
      exact Nat.mul_le_mul_right _ (by omega)
    have hp' : eight.ticks ≤ p.ticks := by
      have hten : 10 ^ 1 ≤ 10 ^ k := Nat.pow_le_pow_right (by decide) (Nat.pos_of_ne_zero hk)
      refine Binary64.ticks_le_of_ofRatio hp ?_
      rw [height]
      exact Nat.mul_le_mul_right _ (by omega)
    have hy' : z.ticks ≤ y.ticks := by
      refine Binary64.Finite.ticks_le_of_ofTicks Binary64.ticksPerUnit_pos hmul ?_
      calc z.ticks * ticksPerUnit = low.ticks * eight.ticks := by
            rw [hz, hlow, height]
            ring
        _ ≤ x.ticks * p.ticks := Nat.mul_le_mul hx' hp'
    refine ⟨?_, lt_of_lt_of_le ?_ hy'⟩
    · rw [(Binary64.Finite.of_ofTicks hmul).1, (Binary64.Finite.of_ofTicks hx).1,
        (Binary64.Finite.of_ofTicks hp).1]
      rfl
    · rw [hz]
      exact Nat.mul_lt_mul_of_pos_right (by decide) Binary64.ticksPerUnit_pos
  · rw [if_neg (by omega)] at h
    cases h

theorem doubleOf?_eq (negative : Bool) (digits : List Char) :
    doubleOf? negative digits [] 0 =
      (scaled (absorb 0 digits).1 (absorb 0 digits).2.length).map
        fun x => if negative then x.neg else x := by
  simp [doubleOf?, absorb]

end Json.Number

/-! ## Integer literals -/

/-- The literal of an integer: digits after an optional minus sign, with no
zero in front of others. -/
structure Json.IntegerLiteral where
  negative : Bool
  digits : List Char
  isWholePart : Json.Number.isWholePart digits = true
  isDigit : ∀ c ∈ digits, c.isDigit = true

namespace Json.IntegerLiteral

open Number
open Binary64 (ticksPerUnit)

variable {l : IntegerLiteral} {r : Number}

/-- The characters of the literal. -/
def chars (l : IntegerLiteral) : List Char := (if l.negative then ['-'] else []) ++ l.digits

/-- The integer that it denotes. -/
def value (l : IntegerLiteral) : ℤ := if l.negative then -(natOf l.digits) else natOf l.digits

theorem value_of_negative (h : l.negative = true) : l.value = -(natOf l.digits) := by
  rw [value, if_pos h]

theorem value_of_not_negative (h : l.negative = false) : l.value = natOf l.digits := by
  rw [value, h, if_neg Bool.false_ne_true]

theorem ofUnsigned?_digits (negative : Bool) :
    ofUnsigned? negative l.digits = ofInteger? negative l.digits := by
  have htake : l.digits.takeWhile Char.isDigit = l.digits :=
    List.takeWhile_eq_self_iff.mpr l.isDigit
  have hdrop : l.digits.dropWhile Char.isDigit = [] := List.dropWhile_eq_nil_iff.mpr l.isDigit
  simp only [ofUnsigned?, htake, hdrop, l.isWholePart, if_true, exponentOf?, Option.bind_some]

/-- A literal of an integer is read as one. -/
theorem ofLiteral?_chars (l : IntegerLiteral) :
    ofLiteral? l.chars = ofInteger? l.negative l.digits := by
  cases hsign : l.negative with
  | true => rw [chars, hsign, if_pos rfl, List.singleton_append, ofLiteral?, ofUnsigned?_digits]
  | false =>
    have hchars : l.chars = l.digits := by simp [chars, hsign]
    rw [hchars, ← ofUnsigned?_digits]
    -- no digit is a minus sign
    have hplain : ∀ rest, l.digits ≠ '-' :: rest := by
      intro rest heq
      have hminus := l.isDigit '-' (by simp [heq])
      exact absurd hminus (by decide)
    unfold ofLiteral?
    split
    · rename_i rest heq
      exact absurd heq (hplain rest)
    · rfl

/-- **What integer literals are read as**: the integer itself if it fits 64
bits, and else a double. Next to the least integer that is this integer. -/
inductive ReadsAs (l : IntegerLiteral) : Number → Prop
  | whole {w : Whole} (h : w.val = l.value) : ReadsAs l (.whole w)
  /-- The literal is `-0`. -/
  | zero {x : Binary64.Finite} (h : l.value = 0) (hx : x.signedTicks = 0) : ReadsAs l (.double x)
  | rounded {x : Binary64.Finite} (hlow : -2 ^ 63 - 1024 ≤ l.value) (hhigh : l.value < -2 ^ 63)
      (hx : x.signedTicks = -2 ^ 63 * ticksPerUnit) : ReadsAs l (.double x)
  | below {x : Binary64.Finite} (h : l.value < -2 ^ 63 - 1024)
      (hx : x.signedTicks < -2 ^ 63 * ticksPerUnit) : ReadsAs l (.double x)
  | above {x : Binary64.Finite} (h : 2 ^ 64 ≤ l.value)
      (hx : 2 ^ 63 * ticksPerUnit < x.signedTicks) : ReadsAs l (.double x)

/-- The double of digits that fit 64 bits without a sign. -/
theorem exists_double_of_lt (h : natOf l.digits < 2 ^ 64) :
    ∃ x y, Binary64.ofRatio false (natOf l.digits) 1 = .finite x ∧
      doubleOf? l.negative l.digits [] 0 = some y ∧
      y.signedTicks = if l.negative then -(x.ticks : ℤ) else x.ticks := by
  obtain ⟨x, y, hx, hscaled, hsign, hticks⟩ := exists_scaled_zero h
  have habsorb : absorb 0 l.digits = (natOf l.digits, []) := absorb_of_lt h
  refine ⟨x, if l.negative then y.neg else y, hx, ?_, ?_⟩
  · rw [doubleOf?_eq, habsorb]
    exact congrArg _ hscaled
  · rw [Binary64.Finite.signedTicks_signed hsign, hticks]

/-- That of other digits is out of the range of all 64-bit integers with a
sign. -/
theorem signedTicks_of_double (h : 2 ^ 64 ≤ natOf l.digits) {y : Binary64.Finite}
    (hy : doubleOf? l.negative l.digits [] 0 = some y) :
    if l.negative then y.signedTicks < -2 ^ 63 * ticksPerUnit
    else 2 ^ 63 * ticksPerUnit < y.signedTicks := by
  obtain ⟨head, left, habsorb, hleft, hlt, hfull⟩ := absorb_of_le (by decide) l.isDigit h
  rw [doubleOf?_eq, habsorb] at hy
  obtain ⟨x, hx, rfl⟩ := Option.map_eq_some_iff.mp hy
  obtain ⟨hsign, hticks⟩ := lt_ticks_of_scaled hfull hlt (by simpa using hleft) hx
  have hcast : (2 ^ 63 : ℤ) * ticksPerUnit < x.ticks := by exact_mod_cast hticks
  rw [Binary64.Finite.signedTicks_signed hsign]
  cases l.negative
  · simp only [Bool.false_eq_true, if_false]
    exact hcast
  · simp only [if_true]
    rw [Int.neg_mul]
    exact neg_lt_neg hcast

theorem ofInt?_eq_none {n : ℤ} (h : Whole.ofInt? n = none) : ¬ (-2 ^ 63 ≤ n ∧ n < 2 ^ 64) := by
  unfold Whole.ofInt? at h
  split at h
  · cases h
  · assumption

/-- The integers that become doubles. -/
theorem ofInteger?_cases (h : ofInteger? l.negative l.digits = some r) :
    (∃ w : Whole, r = .whole w ∧ w.val = l.value) ∨
      ∃ y, r = .double y ∧ doubleOf? l.negative l.digits [] 0 = some y ∧
        (l.value = 0 ∨ l.value < -2 ^ 63 ∨ 2 ^ 64 ≤ l.value) := by
  unfold ofInteger? at h
  dsimp only at h
  unfold value
  split at h
  · rename_i w hw
    refine .inl ⟨w, (Option.some.inj h).symm, ?_⟩
    cases hsign : l.negative with
    | true =>
      rw [hsign, if_pos rfl] at hw
      split at hw
      · cases hw
      · exact Whole.ofInt?_eq_some hw
    | false =>
      rw [hsign, if_neg Bool.false_ne_true] at hw
      exact Whole.ofInt?_eq_some hw
  · rename_i hnone
    obtain ⟨y, hy, rfl⟩ := Option.map_eq_some_iff.mp h
    refine .inr ⟨y, rfl, hy, ?_⟩
    cases hsign : l.negative with
    | true =>
      rw [hsign, if_pos rfl] at hnone
      split at hnone
      · rename_i hzero
        simp [hzero]
      · have hout := ofInt?_eq_none hnone
        rw [if_pos rfl]
        omega
    | false =>
      rw [hsign, if_neg Bool.false_ne_true] at hnone
      have hout := ofInt?_eq_none hnone
      rw [if_neg Bool.false_ne_true]
      omega

/-- **Every integer literal is read in one of these ways**, or not at all. -/
theorem readsAs_of_ofInteger? (h : ofInteger? l.negative l.digits = some r) : l.ReadsAs r := by
  obtain ⟨w, rfl, hw⟩ | ⟨y, rfl, hy, hvalue⟩ := ofInteger?_cases h
  · exact .whole hw
  by_cases hbig : 2 ^ 64 ≤ natOf l.digits
  · have hrange := signedTicks_of_double hbig hy
    cases hsign : l.negative with
    | true =>
      rw [hsign, if_pos rfl] at hrange
      refine .below ?_ hrange
      rw [value_of_negative hsign]
      omega
    | false =>
      rw [hsign, if_neg Bool.false_ne_true] at hrange
      refine .above ?_ hrange
      rw [value_of_not_negative hsign]
      omega
  · obtain ⟨x, y', hx, hy', hticks⟩ := exists_double_of_lt (l := l) (by omega)
    obtain rfl := Option.some.inj (hy.symm.trans hy')
    by_cases hzero : natOf l.digits = 0
    · have hx0 : x.ticks = 0 := by
        rw [hzero] at hx
        rw [Binary64.ticks_eq_of_ofRatio hx (z := .zero), Nat.zero_mul]
        rw [Binary64.Finite.ticks, Binary64.Finite.zero, Nat.zero_mul, Nat.zero_mul]
      refine .zero ?_ (by simpa [hx0] using hticks)
      simp [value, hzero]
    · cases hsign : l.negative with
      | true =>
        rw [hsign, if_pos rfl] at hticks
        rw [value_of_negative hsign] at hvalue
        by_cases hnear : natOf l.digits ≤ 2 ^ 63 + 1024
        · have hx' := Binary64.ticks_of_ofRatio_of_le (by omega) hnear hx
          refine .rounded ?_ ?_ ?_
          · rw [value_of_negative hsign]
            omega
          · rw [value_of_negative hsign]
            omega
          · rw [hticks, hx']
            push_cast
            ring
        · have hx' := Binary64.lt_ticks_of_ofRatio (by omega) (by omega) hx
          refine .below ?_ ?_
          · rw [value_of_negative hsign]
            omega
          · rw [hticks, Int.neg_mul, neg_lt_neg_iff]
            exact_mod_cast hx'
      | false =>
        rw [value_of_not_negative hsign] at hvalue
        omega

/-- And it is read unless it is too large for 64 bits. -/
theorem exists_ofInteger? (h : natOf l.digits < 2 ^ 64) :
    ∃ r, ofInteger? l.negative l.digits = some r := by
  obtain ⟨-, y, -, hy, -⟩ := exists_double_of_lt h
  unfold ofInteger?
  dsimp only
  split
  · exact ⟨_, rfl⟩
  · rw [hy]
    exact ⟨_, rfl⟩

end Json.IntegerLiteral

/-! ## A literal in a text -/

namespace Json

namespace Reader

variable {frames : List Frame} {rest : List Char} {c : Char}

/-- A digit is none of the characters that stand for themselves. -/
theorem ne_of_isDigit {d : Char} (hc : c.isDigit = true) (hd : d.isDigit = false) : c ≠ d := by
  rintro rfl
  rw [hc] at hd
  cases hd

/-- A number starts with a minus sign or a digit. -/
theorem start_number (h : c = '-' ∨ c.isDigit = true) :
    start frames c = some ⟨frames, .number [c]⟩ := by
  obtain rfl | hdigit := h
  · rfl
  · have hne : ∀ d : Char, d.isDigit = false → c ≠ d := fun d => ne_of_isDigit hdigit
    simp [start, isGap, hdigit, hne ' ' rfl, hne '\t' rfl, hne '\n' rfl, hne '\r' rfl, hne '[' rfl,
      hne '\x7b' rfl, hne '\"' rfl, hne 'n' rfl, hne 't' rfl, hne 'f' rfl]

/-- And goes on while its characters do. -/
theorem foldlM_step_number (h : ∀ c ∈ rest, isNumeric c = true) (chars : List Char) :
    rest.foldlM step ⟨frames, .number chars⟩ = some ⟨frames, .number (rest.reverse ++ chars)⟩ := by
  induction rest generalizing chars with
  | nil => rfl
  | cons c rest ih =>
    obtain ⟨hc, hrest⟩ := List.forall_mem_cons.mp h
    have hstep : step ⟨frames, .number chars⟩ c = some ⟨frames, .number (c :: chars)⟩ := if_pos hc
    rw [List.foldlM_cons, hstep]
    simpa using ih hrest (c :: chars)

/-- The character after a value is read the same, whatever the value. -/
theorem step_finish (v : Json) (frames : List Frame) (c : Char) :
    step (finish v frames) c = afterValue (finish v frames) c := by
  cases frames with
  | nil => rfl
  | cons frame rest => cases frame <;> rfl

/-- A number ends where its characters do, and then it is a value like any
other. -/
theorem read_number (hends : ∀ c ∈ rest.head?, isNumeric c = false) (frames : List Frame)
    (chars : List Char) :
    (rest.foldlM step ⟨frames, .number chars⟩).bind result? =
      (Number.ofLiteral? chars.reverse).bind fun n =>
        (rest.foldlM step (finish (.number n) frames)).bind result? := by
  cases rest with
  | nil =>
    cases frames with
    | nil => exact Option.map_eq_bind
    | cons frame more =>
      cases Number.ofLiteral? chars.reverse with
      | none => rfl
      | some n => cases frame <;> rfl
  | cons c rest =>
    have hc : isNumeric c = false := hends c rfl
    have hstep : step ⟨frames, .number chars⟩ c =
        (Number.ofLiteral? chars.reverse).bind fun n => afterValue (finish (.number n) frames) c :=
      if_neg (by simp [hc])
    simp only [List.foldlM_cons, hstep, step_finish, Option.bind_eq_bind, Option.bind_assoc]

end Reader

/-- What a text denotes in which a value stands between two pieces. -/
def parseAround? (before after : String) (v : Json) : Option Json :=
  (before.toList.foldlM Reader.step ⟨[], .value⟩).bind fun state =>
    (after.toList.foldlM Reader.step (Reader.finish v state.frames)).bind Reader.result?

/-- **Between two pieces of a text the value of a key is missing**: a value
has to start after the first, the second does not start as a number goes
on, and whatever value stands in between is the one under the key. -/
structure MissesValue (before after : String) (key : String) : Prop where
  waits : ∃ frames, before.toList.foldlM Reader.step ⟨[], .value⟩ = some ⟨frames, .value⟩
  ends : ∀ c ∈ after.toList.head?, Reader.isNumeric c = false
  holds : ∀ v payload, parseAround? before after v = some payload → payload.member? key = some v

namespace IntegerLiteral

variable {l : IntegerLiteral}

/-- The text of the literal. -/
def text (l : IntegerLiteral) : String := String.ofList l.chars

/-- A literal starts as a number does, and is none but for its characters. -/
theorem exists_chars_eq (l : IntegerLiteral) :
    ∃ c rest, l.chars = c :: rest ∧ (c = '-' ∨ c.isDigit = true) ∧
      ∀ d ∈ rest, Reader.isNumeric d = true := by
  have hnumeric : ∀ d ∈ l.digits, Reader.isNumeric d = true := by
    intro d hd
    simp [Reader.isNumeric, l.isDigit d hd]
  cases hsign : l.negative with
  | true => exact ⟨'-', l.digits, by simp [chars, hsign], .inl rfl, hnumeric⟩
  | false =>
    have hchars : l.chars = l.digits := by simp [chars, hsign]
    have hwhole := l.isWholePart
    cases hdigits : l.digits with
    | nil =>
      rw [hdigits] at hwhole
      cases hwhole
    | cons c rest =>
      rw [hdigits] at hnumeric
      have hdigit := l.isDigit
      rw [hdigits] at hdigit
      exact ⟨c, rest, hchars.trans hdigits, .inr (hdigit c List.mem_cons_self),
        fun d hd => hnumeric d (List.mem_cons_of_mem _ hd)⟩

end IntegerLiteral

/-- **A text with an integer literal** denotes what it denotes with the
number of the literal in its place. -/
theorem parse?_literal {before after key : String} (h : MissesValue before after key)
    (l : IntegerLiteral) :
    parse? (before ++ l.text ++ after) =
      (Number.ofInteger? l.negative l.digits).bind fun n =>
        parseAround? before after (.number n) := by
  obtain ⟨frames, hframes⟩ := h.waits
  obtain ⟨c, rest, hchars, hstart, hrest⟩ := l.exists_chars_eq
  have hliteral : l.chars.foldlM Reader.step ⟨frames, .value⟩ =
      some ⟨frames, .number l.chars.reverse⟩ := by
    have hstep : Reader.step ⟨frames, .value⟩ c = some ⟨frames, .number [c]⟩ :=
      Reader.start_number hstart
    rw [hchars, List.foldlM_cons, hstep]
    simpa using Reader.foldlM_step_number hrest [c]
  have hend := Reader.read_number h.ends frames l.chars.reverse
  rw [List.reverse_reverse, IntegerLiteral.ofLiteral?_chars] at hend
  simp only [parse?, parseAround?, String.toList_append, IntegerLiteral.text, String.toList_ofList,
    List.foldlM_append, hframes, hliteral, Option.bind_eq_bind, Option.bind_some, hend]

end Json

end ServiceContracts
