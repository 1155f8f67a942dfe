import ServiceContracts.Proofs.Schema.NormalForm
import ServiceContracts.Proofs.Schema.OneField
import ServiceContracts.Proofs.Json.IntegerLiteral
import Mathlib.Data.Rat.Cast.CharZero
import Mathlib.Tactic.FieldSimp
/-!
# Integers from JSON numbers

A JSON number denotes a rational (`Json.Number.value`), and an integer
field takes exactly those that denote an integer of 64 bits, at that
integer (`FieldType.decode_integer_exact`).

Doubles are tested and cast, and `Scalar.decodeInteger_double` has it that
this is exact: the cast of a double that passes the tests is the integer that
it is, with nothing cut off and within the bounds.

Text is another matter. A literal of an integer that does not fit comes as
the double nearest to it, and just below the least integer that is the
least integer itself. So there a field takes the literal of one integer
for another (`Schema.Built.validate_integerLiteral`).
-/


namespace ServiceContracts

-- Powers are those of the core library here, whichever others are in scope.
attribute [local instance (high)] instPowNat

/-! ## Rationals -/

/-- The rational that a double denotes. -/
def Binary64.Finite.value (x : Finite) : ℚ := x.signedTicks / ticksPerUnit

/-- The rational that a JSON number denotes. -/
def Json.Number.value : Json.Number → ℚ
  | .whole n => n.val
  | .double x => x.value

/-- Ticks are counted exactly. -/
theorem Json.Number.value_eq_intCast_iff {r : Json.Number} {k : ℤ} :
    r.value = k ↔ r.ticks = k * Binary64.ticksPerUnit := by
  have hunit : (Binary64.ticksPerUnit : ℚ) ≠ 0 := by
    exact_mod_cast Binary64.ticksPerUnit_ne_zero
  cases r with
  | whole n =>
    rw [value, ticks, Int.mul_eq_mul_right_iff Binary64.ticksPerUnit_ne_zero, Int.cast_inj]
  | double x =>
    rw [value, ticks, Binary64.Finite.value, div_eq_iff hunit]
    exact_mod_cast Iff.rfl

/-! ## Reading and writing integers -/

theorem FieldType.decode_integer_eq_ok_iff {strict : Bool} {r : Json.Number} {v : Value} :
    (FieldType.scalar .integer).decode strict (.number r) = .ok v ↔
      ∃ n : Int64, v = .integer n ∧ r.value = n.toInt := by
  rw [FieldType.decode_scalar_eq_ok_iff, Scalar.decode, Scalar.decodeInteger_eq_ok_iff]
  simp only [Json.Number.value_eq_intCast_iff]

/-- **An integer field reads exactly the numbers that denote an integer of 64
bits, at that integer.** Where the number is a double, the cast gives that
integer with nothing cut off and within the bounds. What was read is
written, and read back from what is written. -/
theorem FieldType.decode_integer_exact (r : Json.Number) (strict : Bool) :
    ((∃ v, (FieldType.scalar .integer).decode strict (.number r) = .ok v) ↔
      ∃ k : ℤ, r.value = k ∧ -2 ^ 63 ≤ k ∧ k ≤ 2 ^ 63 - 1) ∧
    ∀ v, (FieldType.scalar .integer).decode strict (.number r) = .ok v →
      ∃ n : Int64, v = .integer n ∧ r.value = n.toInt ∧
        (∀ x, r = .double x → n = x.toInt64 ∧ x.value = x.truncated ∧
          Int64.minValue.toInt ≤ x.truncated ∧ x.truncated ≤ Int64.maxValue.toInt) ∧
        ∀ compact strict', ∃ json, (FieldType.scalar .integer).encode compact v = .ok json ∧
          (FieldType.scalar .integer).decode strict' json = .ok v := by
  simp only [FieldType.decode_integer_eq_ok_iff]
  refine ⟨⟨?_, ?_⟩, ?_⟩
  · rintro ⟨-, n, -, hn⟩
    have hlower := n.le_toInt
    have hupper := n.toInt_lt
    exact ⟨n.toInt, hn, hlower, by omega⟩
  · rintro ⟨k, hk, hlower, hupper⟩
    have hfits : (Int64.ofInt k).toInt = k := Int64.toInt_ofInt_of_le hlower (by omega)
    exact ⟨_, .ofInt k, rfl, by rw [hk, hfits]⟩
  · rintro v ⟨n, rfl, hn⟩
    refine ⟨n, rfl, hn, ?_, fun compact strict' => ?_⟩
    · rintro x rfl
      have hlower := n.le_toInt
      have hupper := n.toInt_lt
      have hmin : Int64.minValue.toInt = -2 ^ 63 := rfl
      have hmax : Int64.maxValue.toInt = 2 ^ 63 - 1 := rfl
      have hwhole : x.toInt? = some n.toInt :=
        Binary64.Finite.toInt?_eq_some_iff.mpr (Json.Number.value_eq_intCast_iff.mp hn)
      have hcut : x.truncated = n.toInt := Binary64.Finite.truncated_of_toInt? hwhole
      have hcast : x.toInt64.toInt = x.truncated :=
        Binary64.Finite.toInt_toInt64 (by omega) (by omega)
      refine ⟨Int64.toInt_inj.mp (by rw [hcast, hcut]), by rw [hcut]; exact hn, ?_⟩
      omega
    · have hencode : Scalar.integer.encode (.integer n) = .ok (.number (.whole (.ofInt64 n))) := rfl
      refine ⟨_, FieldType.encode_scalar_eq_ok_iff.mpr hencode, ?_⟩
      exact FieldType.decode_scalar_eq_ok_iff.mpr (Scalar.decode_of_encode hencode)

/-! ## Integer literals -/

/-- What an integer field makes of the literal of an integer. Of those that
do not fit it takes the ones that round to the least that does. -/
def Scalar.readLiteral (n : ℤ) : Checked Value :=
  if -2 ^ 63 - 1024 ≤ n ∧ n < 2 ^ 63 then .ok (.integer (.ofInt (max (-2 ^ 63) n)))
  else if 2 ^ 63 ≤ n ∧ n < 2 ^ 64 then Checked.refuse .integerOutOfRange
  else Checked.refuse (.mismatch "integer" "number")

theorem Scalar.decodeInteger_double_of_not {x : Binary64.Finite}
    (h : ¬ (-2 ^ 63 * (Binary64.ticksPerUnit : ℤ) ≤ x.signedTicks ∧
      x.signedTicks < 2 ^ 63 * Binary64.ticksPerUnit)) :
    decodeInteger (.double x) = .error (.mismatch "integer" "number") := by
  rw [← Binary64.Finite.fitsInt64_iff, Bool.not_eq_true] at h
  rw [decodeInteger, h, Bool.and_false, if_neg Bool.false_ne_true]

/-- **In whichever way the literal is read**, the field makes that of it. -/
theorem FieldType.decode_of_readsAs {l : Json.IntegerLiteral} {r : Json.Number}
    (h : l.ReadsAs r) (strict : Bool) :
    (FieldType.scalar .integer).decode strict (.number r) = Scalar.readLiteral l.value := by
  have hok : ∀ {r : Json.Number} {k : Int64}, r.ticks = k.toInt * Binary64.ticksPerUnit →
      (FieldType.scalar .integer).decode strict (.number r) = .ok (.integer k) :=
    fun hticks => FieldType.decode_scalar_eq_ok_iff.mpr
      (Scalar.decodeInteger_eq_ok_iff.mpr ⟨_, rfl, hticks⟩)
  have herror : ∀ {r : Json.Number} {reason}, Scalar.decodeInteger r = .error reason →
      (FieldType.scalar .integer).decode strict (.number r) = Checked.refuse reason := by
    intro r reason hreason
    rw [FieldType.decode, Scalar.decode, hreason]
  unfold Scalar.readLiteral
  cases h with
  | @whole w hw =>
    have hlower := w.lower
    have hupper := w.upper
    by_cases hlt : l.value < 2 ^ 63
    · have hfits : (Int64.ofInt l.value).toInt = l.value :=
        Int64.toInt_ofInt_of_le (by omega) hlt
      rw [if_pos ⟨by omega, hlt⟩, max_eq_right (by omega)]
      exact hok (by rw [hfits, ← hw, Json.Number.ticks])
    · rw [if_neg (by omega), if_pos ⟨by omega, by omega⟩]
      exact herror (if_neg (by omega))
  | @zero x hvalue hx =>
    rw [hvalue, if_pos (by decide)]
    exact hok (hx.trans (Int.zero_mul _).symm)
  | @rounded x hlow hhigh hx =>
    rw [if_pos ⟨hlow, by omega⟩, max_eq_left hhigh.le]
    exact hok hx
  | below hvalue hx =>
    rw [if_neg (by omega), if_neg (by omega)]
    exact herror (Scalar.decodeInteger_double_of_not (by omega))
  | above hvalue hx =>
    rw [if_neg (by omega), if_neg (by omega)]
    exact herror (Scalar.decodeInteger_double_of_not (by omega))

/-- **An integer field with an integer literal.** Let a text have the literal
of an integer as the value of the field. An integer that fits 64 bits with
its sign is read as itself. One that falls short of the least by 1024 or
less is read as the least, and any other is refused. And no literal that is
taken keeps the text from being read. -/
theorem Schema.Built.validate_integerLiteral {s : Schema} (hs : s.Built) {f : Field}
    (hf : f ∈ s.fields) (htype : f.type = .scalar .integer) {before after : String}
    (hplace : Json.MissesValue before after f.name) (l : Json.IntegerLiteral) (config : Config) :
    (-2 ^ 63 - 1024 ≤ l.value → l.value < 2 ^ 63 → ∃ n,
      Json.parse? (before ++ l.text ++ after) = Json.parseAround? before after (.number n)) ∧
    ∀ payload, Json.parse? (before ++ l.text ++ after) = some payload →
      ∃ members, payload = .object members ∧
        s.ReadsAs config members f.name (Scalar.readLiteral l.value) := by
  rw [Json.parse?_literal hplace]
  constructor
  · intro hlow hhigh
    have hsmall : Json.Number.natOf l.digits < 2 ^ 64 := by
      cases hsign : l.negative with
      | true => rw [Json.IntegerLiteral.value_of_negative hsign] at hlow; omega
      | false => rw [Json.IntegerLiteral.value_of_not_negative hsign] at hhigh; omega
    obtain ⟨n, hn⟩ := Json.IntegerLiteral.exists_ofInteger? hsmall
    exact ⟨n, by rw [hn, Option.bind_some]⟩
  · intro payload hpayload
    obtain ⟨n, hn, haround⟩ := Option.bind_eq_some_iff.mp hpayload
    have hmember := hplace.holds _ _ haround
    obtain ⟨members, rfl⟩ : ∃ members, payload = .object members := by
      cases payload with
      | object members => exact ⟨members, rfl⟩
      | _ => cases hmember
    have hcheck : f.check config.strict (Entries.get? members f.name) =
        Scalar.readLiteral l.value := by
      have hget : Entries.get? members f.name = some (.number n) := hmember
      rw [hget, Field.check, htype,
        FieldType.decode_of_readsAs (Json.IntegerLiteral.readsAs_of_ofInteger? hn)]
    exact ⟨members, rfl, hcheck ▸ Schema.readsAs hs.fieldNames_nodup hf⟩

namespace Sample

/-- A counter that starts anywhere. -/
def counter : Schema := ⟨"Counter", "", [⟨"start", .scalar .integer, none, ""⟩]⟩

theorem counter_built : counter.Built := by
  have htypes : ∀ f ∈ counter.fields, f.type.Built := by
    simp only [counter, List.forall_mem_cons]
    exact ⟨.scalar .integer, nofun⟩
  exact Schema.Built.build htypes (rfl : Schema.build "Counter" "" counter.fields = .ok counter)

/-- The integer before the least of 64 bits. -/
def beforeLeast : Json.IntegerLiteral where
  negative := true
  digits := "9223372036854775809".toList
  isWholePart := by decide
  isDigit := List.all_eq_true.mp (by decide)

theorem counter_missesValue : Json.MissesValue "\x7b\"start\": " "\x7d" "start" where
  waits := ⟨_, rfl⟩
  ends := by
    rintro c ⟨⟩
    rfl
  holds v payload h := by
    obtain rfl := Option.some.inj h
    rfl

end Sample

/-- The integer before the least is taken, and the least comes out of it. -/
theorem Schema.Built.validate_integerLiteral_beforeLeast :
    Sample.beforeLeast.value = -2 ^ 63 - 1 ∧
    ∃ payload, Json.parse? "\x7b\"start\": -9223372036854775809\x7d" = some payload ∧
      Sample.counter.validate ⟨true, false⟩ payload =
        .ok ⟨"Counter", [("start", .integer Int64.minValue)]⟩ := by
  have htext : "\x7b\"start\": " ++ Sample.beforeLeast.text ++ "\x7d" =
      "\x7b\"start\": -9223372036854775809\x7d" := by decide +kernel
  have hvalue : Sample.beforeLeast.value = -2 ^ 63 - 1 := by decide
  have htaken : Scalar.readLiteral Sample.beforeLeast.value = .ok (.integer Int64.minValue) := by
    rw [hvalue]
    rfl
  obtain ⟨hparse, hread⟩ := Schema.Built.validate_integerLiteral Sample.counter_built
    List.mem_cons_self rfl Sample.counter_missesValue Sample.beforeLeast ⟨true, false⟩
  obtain ⟨n, hn⟩ := hparse (by decide) (by decide)
  have hpayload : Json.parseAround? "\x7b\"start\": " "\x7d" (.number n) =
      some (.object [("start", .number n)]) := rfl
  obtain ⟨members, hmembers, hreads⟩ := hread _ (hn.trans hpayload)
  refine ⟨hvalue, _, htext ▸ hn.trans hpayload, ?_⟩
  obtain ⟨f, hf, -, hdecode⟩ := hreads.field
  obtain rfl := List.mem_singleton.mp hf
  rw [htaken] at hdecode
  obtain rfl := Json.object.inj hmembers
  refine Schema.validate_eq_ok_iff.mpr (Schema.decode_eq_ok_iff.mpr ⟨_, rfl, rfl, rfl, ?_⟩)
  exact congrArg (fun result => [result]) hdecode

end ServiceContracts
