import ServiceContracts.Proofs.Binary64.Intervals
/-!
# The text of a double

A decimal is written as a literal with a point or an exponent
(`IsLiteral`), and read back it is the same number
(`exists_isLiteral_written`). The decimal that is written for a double
tells the double, so its text does (`Finite.eq_of_text_eq`).
-/


namespace ServiceContracts.Binary64

variable {whole fraction digits s : List Char} {e : Int} {d : Decimal}

/-! ## Literals -/

/-- An exponent with its letter and sign, or none. -/
def exponentText : Option Int → List Char
  | none => []
  | some e => 'e' :: (if e < 0 then '-' else '+') :: Nat.toDigits 10 e.natAbs

/-- **A literal of a decimal**: digits with a point among or after them and
perhaps an exponent, or digits with an exponent. -/
inductive IsLiteral : List Char → Decimal → Prop
  | point {whole fraction : List Char} (exponent : Option Int) (hwhole : whole ≠ [])
      (hdigits : ∀ c ∈ whole ++ fraction, c.isDigit = true) :
      IsLiteral (whole ++ '.' :: (fraction ++ exponentText exponent))
        ⟨digitsValue (whole ++ fraction), exponent.getD 0 - fraction.length⟩
  | scientific {whole : List Char} (e : Int) (hwhole : whole ≠ [])
      (hdigits : ∀ c ∈ whole, c.isDigit = true) :
      IsLiteral (whole ++ exponentText (some e)) ⟨digitsValue whole, e⟩

theorem isDigit_of_mem_toDigits {n : Nat} {c : Char} (hc : c ∈ Nat.toDigits 10 n) :
    c.isDigit = true :=
  Nat.isDigit_of_mem_toDigits (by decide) (by decide) hc

@[simp] theorem digitsValue_toDigits (n : Nat) : digitsValue (Nat.toDigits 10 n) = n :=
  Nat.ofDigitChars_ten_toDigits

theorem exponentOf?_exponentText (e : Int) :
    exponentOf? ((if e < 0 then '-' else '+') :: Nat.toDigits 10 e.natAbs) = some e := by
  have hdigits : (Nat.toDigits 10 e.natAbs).all Char.isDigit = true :=
    List.all_eq_true.mpr fun c => isDigit_of_mem_toDigits
  split
  · simp only [exponentOf?, hdigits, digitsValue_toDigits]
    rw [if_pos ⟨Nat.toDigits_ne_nil, trivial⟩]
    exact congrArg some (by omega)
  · simp only [exponentOf?, hdigits, digitsValue_toDigits]
    rw [if_pos ⟨Nat.toDigits_ne_nil, trivial⟩]
    exact congrArg some (by omega)

/-- Characters of one sort end where something else follows. -/
theorem cut_append {p : Char → Bool} {rest : List Char} (hs : ∀ c ∈ s, p c = true)
    (hrest : ∀ c ∈ rest.head?, p c = false) :
    (s ++ rest).takeWhile p = s ∧ (s ++ rest).dropWhile p = rest := by
  rw [List.takeWhile_append_of_pos hs, List.dropWhile_append_of_pos hs]
  cases rest with
  | nil => exact ⟨List.append_nil _, rfl⟩
  | cons c rest =>
    have hc : ¬ p c = true := ne_true_of_eq_false (hrest c rfl)
    exact ⟨by rw [List.takeWhile_cons_of_neg hc, List.append_nil], List.dropWhile_cons_of_neg hc⟩

/-- **A literal reads back.** -/
theorem IsLiteral.decimalOf? (h : IsLiteral s d) : decimalOf? s = some d := by
  cases h with
  | @point whole fraction exponent hwhole hdigits =>
    obtain ⟨hw, hf⟩ := List.forall_mem_append.mp hdigits
    have hpoint : ∀ c ∈ ('.' :: (fraction ++ exponentText exponent)).head?, c.isDigit = false := by
      rintro _ ⟨⟩
      decide
    obtain ⟨htake, hdrop⟩ := cut_append hw hpoint
    have hrest : ∀ c ∈ (exponentText exponent).head?, c.isDigit = false := by
      cases exponent with
      | none => nofun
      | some e =>
        rintro _ ⟨⟩
        decide
    obtain ⟨htake', hdrop'⟩ := cut_append hf hrest
    unfold Binary64.decimalOf?
    simp only [htake, hdrop, htake', hdrop', List.isEmpty_eq_false_iff.mpr hwhole, Bool.false_and]
    cases exponent with
    | none => rfl
    | some e =>
      simp only [exponentText, exponentOf?_exponentText]
      rfl
  | @scientific whole e hwhole hdigits =>
    have hexponent : ∀ c ∈ (exponentText (some e)).head?, c.isDigit = false := by
      rintro _ ⟨⟩
      decide
    obtain ⟨htake, hdrop⟩ := cut_append hdigits hexponent
    rw [exponentText] at htake hdrop ⊢
    unfold Binary64.decimalOf?
    simp only [htake, hdrop, List.isEmpty_eq_false_iff.mpr hwhole, Bool.false_and]
    simpa using exponentOf?_exponentText e

/-- What is found in a literal: digits, signs, a point and the letter of an
exponent. -/
theorem IsLiteral.numeric (h : IsLiteral s d) :
    ∀ c ∈ s, c.isDigit = true ∨ c ∈ ['-', '+', '.', 'e'] := by
  have hexponent : ∀ exponent, ∀ c ∈ exponentText exponent,
      c.isDigit = true ∨ c ∈ ['-', '+', '.', 'e'] := by
    intro exponent c hc
    cases exponent with
    | none => cases hc
    | some e =>
      obtain rfl | hc := List.mem_cons.mp hc
      · exact .inr (by decide)
      · obtain rfl | hc := List.mem_cons.mp hc
        · split <;> exact .inr (by decide)
        · exact .inl (isDigit_of_mem_toDigits hc)
  cases h with
  | point exponent hwhole hdigits =>
    intro c hc
    simp only [List.mem_append, List.mem_cons] at hc hdigits
    obtain hc | rfl | hc | hc := hc
    · exact .inl (hdigits c (.inl hc))
    · exact .inr (by decide)
    · exact .inl (hdigits c (.inr hc))
    · exact hexponent _ c hc
  | scientific e hwhole hdigits =>
    intro c hc
    obtain hc | hc := List.mem_append.mp hc
    · exact .inl (hdigits c hc)
    · exact hexponent _ c hc

/-- A literal has a point or an exponent. -/
theorem IsLiteral.mem (h : IsLiteral s d) : '.' ∈ s ∨ 'e' ∈ s := by
  cases h with
  | point => exact .inl (by simp)
  | scientific => exact .inr (by simp [exponentText])

/-- It begins with a digit. -/
theorem IsLiteral.exists_cons (h : IsLiteral s d) : ∃ c rest, s = c :: rest ∧ c.isDigit = true := by
  cases h with
  | @point whole _ exponent hwhole hdigits =>
    obtain ⟨c, rest, rfl⟩ := List.exists_cons_of_ne_nil hwhole
    exact ⟨c, _, List.cons_append, hdigits c (by simp)⟩
  | @scientific whole e hwhole hdigits =>
    obtain ⟨c, rest, rfl⟩ := List.exists_cons_of_ne_nil hwhole
    exact ⟨c, _, List.cons_append, hdigits c (by simp)⟩

/-! ## What is written -/

theorem digitsValue_append_replicate (digits : List Char) (n : Nat) :
    digitsValue (digits ++ List.replicate n '0') = 10 ^ n * digitsValue digits :=
  (Nat.ofDigitChars_append 0).trans Nat.ofDigitChars_replicate_zero

theorem digitsValue_replicate_append (digits : List Char) (n : Nat) :
    digitsValue (List.replicate n '0' ++ digits) = digitsValue digits := by
  have hzeros : Nat.ofDigitChars 10 (List.replicate n '0') 0 = 0 :=
    Nat.ofDigitChars_replicate_zero.trans (Nat.mul_zero _)
  exact (Nat.ofDigitChars_append 0).trans (congrArg (Nat.ofDigitChars 10 digits) hzeros)

theorem forall_isDigit_zeros (n : Nat) : ∀ c ∈ List.replicate n '0', c.isDigit = true := by
  intro c hc
  obtain rfl := List.eq_of_mem_replicate hc
  decide

/-- A zero after the point changes nothing. -/
theorem value_shift (n k : Nat) : Decimal.value ⟨10 ^ (k + 1) * n, -1⟩ = Decimal.value ⟨n, k⟩ := by
  rw [Decimal.value_eq_iff]
  have hscale : (-(k : Int)).toNat = 0 := by omega
  have hone : (-1 : Int).toNat = 0 := rfl
  have hone' : (- -1 : Int).toNat = 1 := rfl
  simp only [hscale, hone, hone', Int.toNat_natCast, Nat.pow_zero, Nat.mul_one]
  rw [Nat.pow_succ, Nat.pow_one, Nat.mul_comm, Nat.mul_assoc]

/-- What digits are, with the exponent of the first one. -/
def digitsFrom (digits : List Char) (leading : Int) : Decimal :=
  ⟨digitsValue digits, leading + 1 - digits.length⟩

/-- **Digits with a point among or after them are a literal.** -/
theorem exists_isLiteral_positional (hne : digits ≠ [])
    (hdigits : ∀ c ∈ digits, c.isDigit = true) (leading : Int) :
    ∃ e, IsLiteral (Decimal.positional digits leading).toList e ∧
      e.value = (digitsFrom digits leading).value := by
  have hlength := List.length_pos_iff.mpr hne
  have hzeros := forall_isDigit_zeros
  unfold Decimal.positional digitsFrom
  dsimp only
  split
  · -- zeros between the point and the digits
    generalize hn : (-leading).toNat - 1 = n
    have htext : ("0." ++ Decimal.zeros n ++ String.ofList digits).toList =
        ['0'] ++ '.' :: (List.replicate n '0' ++ digits ++ exponentText none) := by
      simp [Decimal.zeros, exponentText]
    rw [htext]
    refine ⟨_, .point none (by simp)
      (List.forall_mem_append.mpr ⟨hzeros 1, List.forall_mem_append.mpr ⟨hzeros n, hdigits⟩⟩), ?_⟩
    refine congrArg Decimal.value (Decimal.mk.injEq .. ▸ ⟨?_, ?_⟩)
    · exact digitsValue_replicate_append digits (n + 1)
    · rw [List.length_append, List.length_replicate, Option.getD_none]
      omega
  · split
    · -- zeros between the digits and the point
      generalize hn : leading.toNat + 1 - digits.length = n
      have htext : (String.ofList digits ++ Decimal.zeros n ++ ".0").toList =
          digits ++ List.replicate n '0' ++ '.' :: (['0'] ++ exponentText none) := by
        simp [Decimal.zeros, exponentText]
      rw [htext]
      refine ⟨_, .point none (by simp [hne])
        (List.forall_mem_append.mpr ⟨List.forall_mem_append.mpr ⟨hdigits, hzeros n⟩, hzeros 1⟩), ?_⟩
      have hvalue : digitsValue (digits ++ List.replicate n '0' ++ ['0']) =
          10 ^ (n + 1) * digitsValue digits := by
        rw [List.append_assoc, ← digitsValue_append_replicate, List.replicate_succ']
      have hexponent : leading + 1 - digits.length = (n : Int) := by omega
      rw [hvalue, hexponent]
      exact value_shift _ n
    · -- the point among the digits
      generalize hn : leading.toNat + 1 = n at *
      have htext : (String.ofList (digits.take n) ++ "." ++ String.ofList (digits.drop n)).toList =
          digits.take n ++ '.' :: (digits.drop n ++ exponentText none) := by
        simp [exponentText]
      have htake : digits.take n ≠ [] := by
        rw [Ne, List.take_eq_nil_iff]
        exact not_or.mpr ⟨by omega, hne⟩
      rw [htext]
      refine ⟨_, .point none htake (by rwa [List.take_append_drop]), ?_⟩
      refine congrArg Decimal.value (Decimal.mk.injEq .. ▸ ⟨?_, ?_⟩)
      · rw [List.take_append_drop]
      · rw [List.length_drop, Option.getD_none]
        omega

/-- **So are digits with an exponent.** -/
theorem exists_isLiteral_scientific (hne : digits ≠ [])
    (hdigits : ∀ c ∈ digits, c.isDigit = true) (leading : Int) :
    ∃ e, IsLiteral (Decimal.scientific digits leading).toList e ∧
      e.value = (digitsFrom digits leading).value := by
  have hsign : (if leading < 0 then "-" else "+").toList = [if leading < 0 then '-' else '+'] := by
    split <;> rfl
  obtain ⟨c, rest, rfl⟩ := List.exists_cons_of_ne_nil hne
  cases rest with
  | nil =>
    have htext : (Decimal.scientific [c] leading).toList = [c] ++ exponentText (some leading) := by
      simp [Decimal.scientific, exponentText, hsign]
    rw [htext]
    refine ⟨_, .scientific leading hne hdigits, congrArg Decimal.value ?_⟩
    simp [digitsFrom]
  | cons d rest =>
    have htext : (Decimal.scientific (c :: d :: rest) leading).toList =
        [c] ++ '.' :: (d :: rest ++ exponentText (some leading)) := by
      simp [Decimal.scientific, exponentText, hsign]
    rw [htext]
    refine ⟨_, .point (some leading) (by simp) hdigits,
      congrArg Decimal.value (Decimal.mk.injEq .. ▸ ⟨rfl, ?_⟩)⟩
    simp only [Option.getD_some, List.length_cons]
    omega

/-- **A decimal is written as a literal of the same number.** -/
theorem exists_isLiteral_written (layout : Decimal.Layout) (d : Decimal) :
    ∃ e, IsLiteral (d.written layout).toList e ∧ e.value = d.value := by
  have hdigits : ∀ c ∈ Nat.toDigits 10 d.digits, c.isDigit = true := fun c =>
    isDigit_of_mem_toDigits
  have hne : Nat.toDigits 10 d.digits ≠ [] := Nat.toDigits_ne_nil
  have hd : d = digitsFrom (Nat.toDigits 10 d.digits)
      (d.exponent + (Nat.toDigits 10 d.digits).length - 1) := by
    refine Decimal.mk.injEq .. ▸ ⟨(digitsValue_toDigits _).symm, ?_⟩
    omega
  have hvalue := congrArg Decimal.value hd
  unfold Decimal.written
  dsimp only
  rw [hvalue]
  split
  · exact exists_isLiteral_positional hne hdigits _
  · exact exists_isLiteral_scientific hne hdigits _

/-! ## What a text tells -/

namespace Finite

variable {x y : Finite}

/-- **The text of a double** is a sign and a literal of its shortest decimal. -/
theorem exists_text (x : Finite) : ∃ s d, IsLiteral s d ∧ d.value = x.shortest.value ∧
    x.text.toList = (if x.negative then ['-'] else []) ++ s := by
  obtain ⟨d, hd, hvalue⟩ := exists_isLiteral_written layout x.shortest
  refine ⟨_, d, hd, hvalue, ?_⟩
  rw [text, String.toList_append]
  split <;> rfl

/-- What is found in it. -/
theorem numeric_of_mem_text (x : Finite) :
    ∀ c ∈ x.text.toList, c.isDigit = true ∨ c ∈ ['-', '+', '.', 'e'] := by
  obtain ⟨s, d, hs, -, htext⟩ := x.exists_text
  intro c hc
  rw [htext] at hc
  obtain hc | hc := List.mem_append.mp hc
  · split at hc
    · obtain rfl := List.mem_singleton.mp hc
      exact .inr (by decide)
    · cases hc
  · exact hs.numeric c hc

/-- No integer is written like it. -/
theorem mem_text (x : Finite) : '.' ∈ x.text.toList ∨ 'e' ∈ x.text.toList := by
  obtain ⟨s, d, hs, -, htext⟩ := x.exists_text
  rw [htext]
  exact hs.mem.imp (List.mem_append_right _) (List.mem_append_right _)

/-- **A double is told by its text.** -/
theorem eq_of_text_eq (h : x.text = y.text) : x = y := by
  obtain ⟨s, d, hs, hd, hx⟩ := x.exists_text
  obtain ⟨s', d', hs', hd', hy⟩ := y.exists_text
  rw [h, hy] at hx
  -- a literal does not begin with a minus
  have hminus : ∀ {t t' : List Char} {e : Decimal}, IsLiteral t e → t ≠ '-' :: t' := by
    rintro t t' e ht rfl
    obtain ⟨_, _, hcons, hdigit⟩ := ht.exists_cons
    rw [← (List.cons.inj hcons).1] at hdigit
    cases hdigit
  have hnegative : x.negative = y.negative := by
    cases hnx : x.negative <;> cases hny : y.negative <;> simp only [hnx, hny] at hx
    · rfl
    · exact absurd hx.symm (hminus hs)
    · exact absurd hx (hminus hs')
    · rfl
  rw [hnegative, List.append_right_inj] at hx
  subst hx
  obtain rfl : d' = d := Option.some.inj (hs'.decimalOf?.symm.trans hs.decimalOf?)
  exact eq_of_ticks_eq (ticks_eq_of_value_eq (hd.symm.trans hd')) hnegative

end Finite

end ServiceContracts.Binary64
