import ServiceContracts.Proofs.Schema.Reading
import ServiceContracts.Proofs.Json.Keyed
/-!
# When an instance is written

Writing gathers offenses from every part, as reading does. Here is the
opposite case, part by part: what there is when a list, a nested message,
a message or a field *is* written (the `encode_…_eq_ok_iff`). An object
that is written has its members under names of fields, in their order, so
with distinct field names no key comes twice
(`FieldType.Built.keyed_of_encode`).
-/


namespace ServiceContracts

variable {compact : Bool}

namespace FieldType

theorem encode_scalar_eq_ok_iff {s : Scalar} {v : Value} {json : Json} :
    (FieldType.scalar s).encode compact v = .ok json ↔ s.encode v = .ok json := by
  cases h : s.encode v <;> simp [FieldType.encode, h]

@[simp] theorem encode_optional_null {inner : FieldType} :
    (FieldType.optional inner).encode compact .null = .ok .null := rfl

theorem encode_optional {inner : FieldType} {v : Value} (hv : v ≠ .null) :
    (FieldType.optional inner).encode compact v = inner.encode compact v := by
  cases v with
  | null => exact absurd rfl hv
  | _ => rfl

theorem encode_list_eq_ok_iff {element : FieldType} {v : Value} {json : Json} :
    (FieldType.list element).encode compact v = .ok json ↔
      ∃ items jsons, v = .list items ∧ json = .array jsons ∧
        items.map (element.encode compact) = jsons.map .ok := by
  cases v with
  | list items =>
    simp only [FieldType.encode, Checked.map_eq_ok_iff, Checked.all_mapIdx_eq_ok_iff]
    constructor
    · rintro ⟨jsons, hjsons, rfl⟩
      exact ⟨items, jsons, rfl, rfl, hjsons⟩
    · rintro ⟨items', jsons, ⟨⟩, rfl, hjsons⟩
      exact ⟨jsons, hjsons, rfl⟩
  | _ => simp [FieldType.encode]

theorem encode_message_eq_ok_iff {schema : Schema} {v : Value} {json : Json} :
    (FieldType.message schema).encode compact v = .ok json ↔
      ∃ m, v = .message m ∧ m.schema = schema.name ∧ schema.encode compact m = .ok json := by
  cases v with
  | message m =>
    rw [FieldType.encode]
    split <;> simp_all
  | _ => simp [FieldType.encode]

end FieldType

namespace Schema

/-- Nothing is left over when all that is held is declared. -/
theorem surplus_eq_nil_iff {fields : List Field} {held : List (String × Value)} :
    surplus fields held = [] ↔ ∀ name ∈ Entries.keys held, name ∈ fields.map Field.name := by
  rw [surplus, List.filterMap_eq_nil_iff]
  refine forall₂_congr fun name _ => ?_
  rw [← any_name_iff]
  split <;> simp_all

theorem encodeFields_eq_ok_iff {fields : List Field} {m : Instance}
    {written : List (List (String × Json))} :
    encodeFields compact fields m = .ok written ↔
      fields.map (fun f => f.encode compact m) = written.map .ok := by
  induction fields generalizing written with
  | nil => cases written <;> simp [encodeFields]
  | cons f rest ih =>
    simp only [encodeFields, Checked.map_eq_ok_iff, Checked.both_eq_ok_iff, ih]
    constructor
    · rintro ⟨⟨members, others⟩, ⟨hmembers, hothers⟩, rfl⟩
      simp [hmembers, hothers]
    · intro h
      cases written with
      | nil => simp at h
      | cons members others => exact ⟨(members, others), by simpa using h, rfl⟩

/-- **When a message is written as an object**: it holds no undeclared
field, and every field is written. -/
theorem encode_eq_ok_iff {s : Schema} {m : Instance} {json : Json} :
    s.encode compact m = .ok json ↔
      ∃ written : List (List (String × Json)), json = .object written.flatten ∧
        (∀ name ∈ Entries.keys m.fields, name ∈ s.fieldNames) ∧
        s.fields.map (fun f => f.encode compact m) = written.map .ok := by
  obtain ⟨name, doc, fields⟩ := s
  simp only [Schema.encode, Checked.map_eq_ok_iff, Checked.both_eq_ok_iff,
    Checked.ofOffenses_eq_ok_iff, encodeFields_eq_ok_iff, surplus_eq_nil_iff]
  constructor
  · rintro ⟨⟨written, u⟩, ⟨hwritten, hdeclared⟩, rfl⟩
    exact ⟨written, rfl, hdeclared, hwritten⟩
  · rintro ⟨written, rfl, hdeclared, hwritten⟩
    exact ⟨(written, ()), ⟨hwritten, hdeclared⟩, rfl⟩

end Schema

/-- What a field of a message holds: its value, or else its effective
default. -/
def Field.held (f : Field) (m : Instance) : Option Value :=
  (m.get? f.name).or f.effectiveDefault

theorem Field.isDefault_eq_true_iff {f : Field} {v : Value} :
    f.isDefault v = true ↔ ∃ d, f.effectiveDefault = some d ∧ d.same v = true := by
  unfold isDefault
  cases f.effectiveDefault <;> simp

/-- How a field is written that an instance holds nothing for. -/
theorem Field.encode_of_held_none {f : Field} {m : Instance} (h : f.held m = none) :
    f.encode compact m = Checked.under (.field f.name) (Checked.refuse .missingField) := by
  obtain ⟨name, type, default, doc⟩ := f
  rw [held] at h
  rw [Field.encode, h]

/-- And how it is written otherwise. -/
theorem Field.encode_of_held {f : Field} {m : Instance} {v : Value} (h : f.held m = some v) :
    f.encode compact m = Checked.under (.field f.name)
      (if compact && f.isDefault v then .ok []
        else (f.type.encode compact v).map fun json => [(f.name, json)]) := by
  obtain ⟨name, type, default, doc⟩ := f
  rw [held] at h
  rw [Field.encode, h]

/-- A field that holds something is left out in compact form where that is
the default, and else written under its name. -/
theorem Field.encode_eq_ok_iff {f : Field} {m : Instance} {members : List (String × Json)} :
    f.encode compact m = .ok members ↔
      ∃ v, f.held m = some v ∧
        ((compact && f.isDefault v) = true ∧ members = [] ∨
          (compact && f.isDefault v) = false ∧
            ∃ json, f.type.encode compact v = .ok json ∧ members = [(f.name, json)]) := by
  obtain ⟨name, type, default, doc⟩ := f
  rw [held, Field.encode]
  cases (m.get? name).or (effectiveDefault ⟨name, type, default, doc⟩) with
  | none => simp
  | some v =>
    simp only [Checked.under_eq_ok_iff, Option.some.injEq, exists_eq_left']
    cases compact && isDefault ⟨name, type, default, doc⟩ v with
    | true => simp [eq_comm]
    | false => simp [Checked.map_eq_ok_iff]

/-- A field is written when its type writes what it holds. -/
theorem Field.exists_encode {f : Field} {m : Instance} {v : Value} {json : Json}
    (hheld : f.held m = some v) (hjson : f.type.encode compact v = .ok json) :
    ∃ written, f.encode compact m = .ok written := by
  cases hleft : compact && f.isDefault v with
  | true => exact ⟨[], encode_eq_ok_iff.mpr ⟨v, hheld, .inl ⟨hleft, rfl⟩⟩⟩
  | false =>
    exact ⟨[(f.name, json)], encode_eq_ok_iff.mpr ⟨v, hheld, .inr ⟨hleft, json, hjson, rfl⟩⟩⟩

/-! ## Keys of objects that are written -/

/-- A field is written under its own name or not at all. -/
theorem Field.keys_sublist {f : Field} {m : Instance} {members : List (String × Json)}
    (h : f.encode compact m = .ok members) : (Entries.keys members).Sublist [f.name] := by
  obtain ⟨v, -, ⟨-, rfl⟩ | ⟨-, json, -, rfl⟩⟩ := encode_eq_ok_iff.mp h
  · exact List.nil_sublist _
  · exact List.Sublist.refl _

/-- So fields are written in declared order. -/
theorem Schema.keys_flatten_sublist {fields : List Field} {m : Instance}
    {written : List (List (String × Json))}
    (h : fields.map (fun f => f.encode compact m) = written.map .ok) :
    (Entries.keys written.flatten).Sublist (fields.map Field.name) := by
  induction fields generalizing written with
  | nil =>
    obtain rfl : written = [] := by simpa [eq_comm] using h
    exact List.Sublist.refl _
  | cons f rest ih =>
    cases written with
    | nil => simp at h
    | cons members others =>
      obtain ⟨hmembers, hothers⟩ : f.encode compact m = .ok members ∧
          rest.map (fun f => f.encode compact m) = others.map .ok := by simpa using h
      rw [List.flatten_cons, Entries.keys, List.map_append, List.map_cons, ← List.singleton_append]
      exact (Field.keys_sublist hmembers).append (ih hothers)

theorem Scalar.keyed_of_encode {s : Scalar} {v : Value} {json : Json}
    (h : s.encode v = .ok json) : json.Keyed := by
  unfold Scalar.encode at h
  split at h <;> cases h
  · exact .string _
  · exact .number _
  · exact .number _
  · exact .number _
  · exact .boolean _

/-- **No key comes twice in what is written**, at any depth. -/
theorem FieldType.Built.keyed_of_encode {t : FieldType} (ht : t.Built) {v : Value} {json : Json}
    (h : t.encode compact v = .ok json) : json.Keyed := by
  induction ht using FieldType.Built.induction generalizing v json with
  | scalar s => exact Scalar.keyed_of_encode (FieldType.encode_scalar_eq_ok_iff.mp h)
  | list element _ ih =>
    obtain ⟨items, jsons, rfl, rfl, hjsons⟩ := FieldType.encode_list_eq_ok_iff.mp h
    refine .array fun json hjson => ?_
    obtain ⟨item, -, hitem⟩ := exists_of_map_eq_map_ok hjsons hjson
    exact ih hitem
  | optional inner _ ih =>
    by_cases hv : v = .null
    · subst hv
      rw [FieldType.encode_optional_null] at h
      exact Except.ok.inj h ▸ .null
    · rw [FieldType.encode_optional hv] at h
      exact ih h
  | message schema hs ih =>
    obtain ⟨m, rfl, -, hm⟩ := FieldType.encode_message_eq_ok_iff.mp h
    obtain ⟨written, rfl, -, hwritten⟩ := Schema.encode_eq_ok_iff.mp hm
    have hkeys := Schema.keys_flatten_sublist hwritten
    refine .object (hkeys.nodup hs.fieldNames_nodup) fun e he => ?_
    obtain ⟨members, hmembers, he⟩ := List.mem_flatten.mp he
    obtain ⟨f, hf, hwrites⟩ := exists_of_map_eq_map_ok hwritten hmembers
    obtain ⟨v, -, ⟨-, rfl⟩ | ⟨-, json, hjson, rfl⟩⟩ := Field.encode_eq_ok_iff.mp hwrites
    · cases he
    · obtain rfl := List.mem_singleton.mp he
      exact ih f hf hjson

/-! ## Between the calls -/

/-- Serializing writes an instance of the schema's own name. -/
theorem Schema.serialize_eq_ok_iff {s : Schema} {config : Config} {m : Instance} {json : Json} :
    s.serialize config m = .ok json ↔ m.schema = s.name ∧ s.encode config.compact m = .ok json := by
  unfold Schema.serialize
  split
  · cases s.encode config.compact m <;> simp_all
  · simp_all

theorem Schema.Built.keyed_of_encode {schema : Schema} (hs : schema.Built) {m : Instance}
    (hname : m.schema = schema.name) {json : Json} (h : schema.encode compact m = .ok json) :
    json.Keyed :=
  (FieldType.Built.message hs).keyed_of_encode
    (FieldType.encode_message_eq_ok_iff.mpr ⟨m, rfl, hname, h⟩)

end ServiceContracts
