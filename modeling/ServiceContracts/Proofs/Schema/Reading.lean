import ServiceContracts.Proofs.Binary64.Integers
import ServiceContracts.Proofs.Schema.Built
/-!
# When a payload is read

Reading gathers offenses from every part at once. This file says the
opposite case, part by part: what there is when a list, a nested message,
an object or a field *is* read (the `decode_…_eq_ok_iff`), so that proofs
about accepted payloads see results only.
-/


namespace ServiceContracts

variable {strict : Bool}

/-- **An integer is read from what denotes it**, however it is written. -/
theorem Scalar.decodeInteger_eq_ok_iff {n : Json.Number} {v : Value} :
    decodeInteger n = .ok v ↔
      ∃ k : Int64, v = .integer k ∧ n.ticks = k.toInt * Binary64.ticksPerUnit := by
  cases n with
  | whole n =>
    have hlower := n.lower
    simp only [decodeInteger, Json.Number.ticks,
      Int.mul_eq_mul_right_iff Binary64.ticksPerUnit_ne_zero]
    constructor
    · intro h
      split at h
      · rename_i hlt
        exact ⟨.ofInt n.val, (Except.ok.inj h).symm, (Int64.toInt_ofInt_of_le hlower hlt).symm⟩
      · cases h
    · rintro ⟨k, rfl, hk⟩
      have hlt := k.toInt_lt
      rw [hk, if_pos hlt, Int64.ofInt_toInt]
  | double x =>
    simp only [decodeInteger_double, Json.Number.ticks, ← Binary64.Finite.toInt?_eq_some_iff]
    constructor
    · intro h
      split at h
      · rename_i j hj
        split at h
        · rename_i hrange
          have hfits : (Int64.ofInt j).toInt = j := Int64.toInt_ofInt_of_le hrange.1 hrange.2
          exact ⟨.ofInt j, (Except.ok.inj h).symm, by rw [hj, hfits]⟩
        · cases h
      · cases h
    · rintro ⟨k, rfl, hk⟩
      simp only [hk]
      rw [if_pos ⟨k.le_toInt, k.toInt_lt⟩, Int64.ofInt_toInt]

namespace FieldType

theorem decode_list_eq_ok_iff {element : FieldType} {p : Json} {v : Value} :
    (FieldType.list element).decode strict p = .ok v ↔
      ∃ items values, p = .array items ∧ v = .list values ∧
        items.map (element.decode strict) = values.map .ok := by
  cases p with
  | array items =>
    simp only [FieldType.decode, Checked.map_eq_ok_iff, Checked.all_mapIdx_eq_ok_iff]
    constructor
    · rintro ⟨values, hvalues, rfl⟩
      exact ⟨items, values, rfl, rfl, hvalues⟩
    · rintro ⟨items', values, ⟨⟩, rfl, hvalues⟩
      exact ⟨values, hvalues, rfl⟩
  | _ => simp [FieldType.decode]

theorem decode_message_eq_ok_iff {schema : Schema} {p : Json} {v : Value} :
    (FieldType.message schema).decode strict p = .ok v ↔
      ∃ m, schema.decode strict p = .ok m ∧ v = .message m := by
  rw [FieldType.decode, Checked.map_eq_ok_iff]

theorem decode_scalar_eq_ok_iff {s : Scalar} {p : Json} {v : Value} :
    (FieldType.scalar s).decode strict p = .ok v ↔ s.decode p = .ok v := by
  cases h : s.decode p <;> simp [FieldType.decode, h]

@[simp] theorem decode_optional_null {inner : FieldType} :
    (FieldType.optional inner).decode strict .null = .ok .null := rfl

theorem decode_optional {inner : FieldType} {p : Json} (hp : p ≠ .null) :
    (FieldType.optional inner).decode strict p = inner.decode strict p := by
  cases p with
  | null => exact absurd rfl hp
  | _ => rfl

/-- Null is read as itself or not at all. -/
theorem eq_null_of_decode_null {t : FieldType} {v : Value} (h : t.decode strict .null = .ok v) :
    v = .null := by
  induction t using FieldType.induction with
  | scalar s => cases s <;> simp [decode_scalar_eq_ok_iff, Scalar.decode] at h
  | list element _ => simp [FieldType.decode] at h
  | optional inner _ => exact (Except.ok.inj h).symm
  | message schema _ =>
    obtain ⟨name, doc, fields⟩ := schema
    obtain ⟨m, hm, -⟩ := decode_message_eq_ok_iff.mp h
    simp [Schema.decode] at hm

end FieldType

namespace Schema

theorem any_name_iff {fields : List Field} {name : String} :
    (fields.any fun f => f.name = name) = true ↔ name ∈ fields.map Field.name := by
  simp

/-- The names that no field has are unknown fields, in their own order. -/
theorem filterMap_unknown (s : Schema) (names : List String) :
    (names.filterMap fun name => if s.fields.any fun f => f.name = name then none
      else some (⟨[.field name], .unknownField⟩ : Offense)) =
      (names.filter fun name => name ∉ s.fieldNames).map fun name =>
        ⟨[.field name], .unknownField⟩ := by
  rw [← List.filterMap_eq_map, List.filterMap_filter]
  refine List.filterMap_congr fun name _ => ?_
  by_cases hname : name ∈ s.fieldNames
  · have hdeclared : (s.fields.any fun f => f.name = name) = true := any_name_iff.mpr hname
    simp [hdeclared, hname]
  · have hdeclared : ¬ (s.fields.any fun f => f.name = name) = true := mt any_name_iff.mp hname
    rw [if_neg hdeclared]
    simp [hname]

/-- Nothing is undeclared among the names of fields. -/
theorem undeclared_eq_nil {fields : List Field} {members : List (String × Json)}
    (h : ∀ key ∈ Entries.keys members, key ∈ fields.map Field.name) :
    undeclared strict fields members = [] := by
  unfold undeclared
  split
  · refine List.filterMap_eq_nil_iff.mpr fun key hkey => ?_
    rw [if_pos (any_name_iff.mpr (h key hkey))]
  · rfl

theorem decodeFields_eq_ok_iff {fields : List Field} {members : List (String × Json)}
    {held : List (String × Value)} :
    decodeFields strict fields members = .ok held ↔
      fields.map (fun f => f.decode strict members) = held.map .ok := by
  induction fields generalizing held with
  | nil => cases held <;> simp [decodeFields]
  | cons f rest ih =>
    simp only [decodeFields, Checked.map_eq_ok_iff, Checked.both_eq_ok_iff, ih]
    constructor
    · rintro ⟨⟨e, others⟩, ⟨he, hothers⟩, rfl⟩
      simp [he, hothers]
    · intro h
      cases held with
      | nil => simp at h
      | cons e others => exact ⟨(e, others), by simpa using h, rfl⟩

/-- **When an object is read as a message**: in strict mode it has no
undeclared keys, and every field is read. -/
theorem decode_eq_ok_iff {s : Schema} {p : Json} {m : Instance} :
    s.decode strict p = .ok m ↔
      ∃ members, p = .object members ∧ undeclared strict s.fields members = [] ∧
        m.schema = s.name ∧
        s.fields.map (fun f => f.decode strict members) = m.fields.map .ok := by
  obtain ⟨name, doc, fields⟩ := s
  obtain ⟨schema, held⟩ := m
  cases p with
  | object members =>
    simp only [Schema.decode, Checked.map_eq_ok_iff, Checked.both_eq_ok_iff,
      Checked.ofOffenses_eq_ok_iff, decodeFields_eq_ok_iff]
    constructor
    · rintro ⟨⟨read, u⟩, ⟨hread, hnone⟩, ⟨⟩⟩
      exact ⟨members, rfl, hnone, rfl, hread⟩
    · rintro ⟨members', ⟨⟩, hnone, rfl, hread⟩
      exact ⟨(held, ()), ⟨hread, hnone⟩, rfl⟩
  | _ => simp [Schema.decode]

end Schema

/-- A field is read from its member, or else takes its effective default. -/
theorem Field.decode_eq_ok_iff {f : Field} {members : List (String × Json)} {e : String × Value} :
    f.decode strict members = .ok e ↔
      e.1 = f.name ∧
        ((∃ p, Entries.get? members f.name = some p ∧ f.type.decode strict p = .ok e.2) ∨
          Entries.get? members f.name = none ∧ f.effectiveDefault = some e.2) := by
  obtain ⟨name, type, default, doc⟩ := f
  obtain ⟨key, v⟩ := e
  simp only [Field.decode, Checked.map_eq_ok_iff, Checked.under_eq_ok_iff, Prod.mk.injEq]
  cases hp : Entries.get? members name with
  | some p =>
    simp only [Option.some.injEq, exists_eq_left', reduceCtorEq, false_and, or_false]
    constructor
    · rintro ⟨w, hw, rfl, rfl⟩
      exact ⟨rfl, hw⟩
    · rintro ⟨rfl, hv⟩
      exact ⟨v, hv, rfl, rfl⟩
  | none =>
    simp only [reduceCtorEq, false_and, exists_false, true_and, false_or]
    cases hd : Field.effectiveDefault ⟨name, type, default, doc⟩ with
    | some d =>
      simp only [Except.ok.injEq, exists_eq_left', Option.some.injEq]
      exact and_congr_right fun _ => eq_comm
    | none => simp

/-! ## Between the calls -/

/-- Validation accepts what is read. -/
theorem Schema.validate_eq_ok_iff {s : Schema} {config : Config} {p : Json} {m : Instance} :
    s.validate config p = .ok m ↔ s.decode config.strict p = .ok m := by
  unfold Schema.validate Schema.read
  cases s.decode config.strict p <;> simp

theorem Schema.validate_eq_rejected_iff {s : Schema} {config : Config} {json : Json}
    {errors : FieldErrors} :
    s.validate config json = .error (.rejected s.name errors) ↔
      s.read config json = .error errors := by
  unfold Schema.validate
  cases s.read config json <;> simp

theorem Schema.validate_eq_ok_iff_read {s : Schema} {config : Config} {json : Json}
    {m : Instance} : s.validate config json = .ok m ↔ s.read config json = .ok m := by
  unfold Schema.validate
  cases s.read config json <;> simp

theorem FieldType.read_eq_ok_iff {t : FieldType} {raw : Json} {v : Value} :
    t.read raw = .ok v ↔ t.decode true raw = .ok v := by
  unfold FieldType.read
  cases t.decode true raw <;> simp

end ServiceContracts
