import ServiceContracts.Proofs.Schema.NormalForm
/-!
# Writing and reading back

A value that conforms to a built type can always be written, and is its
own normal form. So reading what was written gives a value alike, whatever
the settings on either side (`FieldType.Built.decode_encode`), and in full
it is the very value.

What applications do, validating, serializing and validating again, is
the same between their calls.
-/


namespace ServiceContracts

/-! ## A conforming value -/

/-- A message of values holds declared fields only. -/
theorem Schema.declared_of_holding {s : Schema} {value : Field → Value} :
    ∀ name ∈ Entries.keys (s.holding value).fields, name ∈ s.fieldNames := by
  simp [Schema.holding, Schema.fieldNames]

/-- And it holds each of them. -/
theorem Schema.held_holding {s : Schema} (hnodup : s.fieldNames.Nodup) {value : Field → Value}
    {f : Field} (hf : f ∈ s.fields) : f.held (s.holding value) = some (value f) := by
  rw [Field.held, Schema.get?_holding hnodup hf, Option.some_or]

/-- **One conforming message**, from its fields. -/
theorem Schema.Built.exists_decode_encode {schema : Schema} (hs : schema.Built)
    (compact strict : Bool) {value : Field → Value}
    (hvalue : ∀ f ∈ schema.fields, f.type.Conforms (value f))
    (ih : ∀ f ∈ schema.fields, ∃ json w, f.type.encode compact (value f) = .ok json ∧
      f.type.decode strict json = .ok w ∧ w.Recovers compact (value f)) :
    ∃ json n, schema.encode compact (schema.holding value) = .ok json ∧
      schema.decode strict json = .ok n ∧ n.Alike (schema.holding value) ∧
      (compact = false → n = schema.holding value) := by
  have hnodup := hs.fieldNames_nodup
  refine Schema.exists_decode_encode hnodup compact strict Schema.declared_of_holding fun f hf => ?_
  refine Field.recovers (Schema.held_holding hnodup hf) (fun _ => ih f hf) fun d hd hsame => ?_
  have hdefault : f.type.Conforms d := hs.conforms_effectiveDefault hf hd
  exact (hs.fieldType hf).alike_of_same hdefault (hvalue f hf) hsame

/-- A conforming value is its own normal form. -/
theorem FieldType.Built.normal_of_conforms {t : FieldType} (ht : t.Built) {v : Value}
    (hv : t.Conforms v) : t.normal v = v := by
  induction ht using FieldType.Built.induction generalizing v with
  | scalar s => cases hv <;> rfl
  | list element _ ih =>
    obtain ⟨items, rfl, hitems⟩ := hv
    have hsame : items.map element.normal = items.map id :=
      List.map_congr_left fun item hmem => ih (hitems item hmem)
    rw [FieldType.normal, hsame, List.map_id]
  | optional inner _ ih =>
    obtain rfl | hv := hv
    · rw [FieldType.normal_null]
    · rw [FieldType.normal, ih hv]
  | message schema hs ih =>
    obtain ⟨m, rfl, hm⟩ := hv
    obtain ⟨value, rfl, hvalue⟩ := (Schema.conforms_iff hs.fieldNames_nodup).mp hm
    have hheld : ∀ f ∈ schema.fields, f.held (schema.holding value) = some (value f) :=
      fun f hf => Schema.held_holding hs.fieldNames_nodup hf
    rw [FieldType.normal, Schema.normal_of_held hheld]
    exact congrArg _ (Schema.holding_congr fun f hf => ih f hf (hvalue f hf))

/-- **A conforming value is written**, in either form. -/
theorem FieldType.Built.exists_encode {t : FieldType} (ht : t.Built) {v : Value}
    (hv : t.Conforms v) (compact : Bool) : ∃ json, t.encode compact v = .ok json := by
  induction ht using FieldType.Built.induction generalizing v with
  | scalar s =>
    simp only [FieldType.encode_scalar_eq_ok_iff]
    cases hv <;> exact ⟨_, rfl⟩
  | list element _ ih =>
    obtain ⟨items, rfl, hitems⟩ := hv
    have hitem : ∀ item ∈ items, ∃ json, element.encode compact item = .ok json :=
      fun item hmem => ih (hitems item hmem)
    choose! json hjson using hitem
    refine ⟨_, FieldType.encode_list_eq_ok_iff.mpr ⟨items, items.map json, rfl, rfl, ?_⟩⟩
    rw [List.map_map]
    exact List.map_congr_left hjson
  | optional inner _ ih =>
    by_cases hnull : v = .null
    · exact ⟨.null, by rw [hnull, FieldType.encode_optional_null]⟩
    · rw [FieldType.encode_optional hnull]
      exact ih (hv.resolve_left hnull)
  | message schema hs ih =>
    obtain ⟨m, rfl, hm⟩ := hv
    obtain ⟨value, rfl, hvalue⟩ := (Schema.conforms_iff hs.fieldNames_nodup).mp hm
    have hfield : ∀ f ∈ schema.fields, ∃ written,
        f.encode compact (schema.holding value) = .ok written := by
      intro f hf
      obtain ⟨json, hjson⟩ := ih f hf (hvalue f hf)
      exact Field.exists_encode (Schema.held_holding hs.fieldNames_nodup hf) hjson
    choose! written hwritten using hfield
    have hencode : schema.encode compact (schema.holding value) =
        .ok (.object (schema.fields.map written).flatten) := by
      refine Schema.encode_eq_ok_iff.mpr ⟨_, rfl, Schema.declared_of_holding, ?_⟩
      rw [List.map_map]
      exact List.map_congr_left hwritten
    exact ⟨_, FieldType.encode_message_eq_ok_iff.mpr ⟨_, rfl, rfl, hencode⟩⟩

/-- **A conforming value is written, and read back.** -/
theorem FieldType.Built.decode_encode {t : FieldType} (ht : t.Built) {v : Value}
    (hv : t.Conforms v) (compact strict : Bool) :
    ∃ json w, t.encode compact v = .ok json ∧ t.decode strict json = .ok w ∧
      w.Recovers compact v := by
  obtain ⟨json, hencode⟩ := ht.exists_encode hv compact
  obtain ⟨-, w, hdecode, hw⟩ := ht.decode_of_encode hencode strict
  rw [ht.normal_of_conforms hv] at hw
  exact ⟨json, w, hencode, hdecode, hw⟩

/-- So a value that has been read is in the form in which defaults are
kept. -/
theorem FieldType.Built.normalDefault_eq {t : FieldType} (ht : t.Built) {raw : Json} {v : Value}
    (hv : t.decode true raw = .ok v) : Field.normalDefault t v = .ok v := by
  obtain ⟨json, w, hencode, hdecode, hw⟩ := ht.decode_encode (ht.conforms_of_decode hv) false true
  obtain rfl := hw.eq_of_full rfl
  rw [Field.normalDefault, hencode]
  exact hdecode

/-! ## Equal to itself -/

/-- A conforming value equals itself: no number in it is anything but
finite. -/
theorem FieldType.Built.value_same_self {t : FieldType} (ht : t.Built) {v : Value}
    (hv : t.Conforms v) : v.same v = true := by
  obtain ⟨json, w, -, -, hw⟩ := ht.decode_encode hv false false
  obtain rfl := hw.eq_of_full rfl
  exact hw.alike.same

/-- Fields are compared with the field of their name on the other side. -/
theorem Schema.fieldsSame_iff {fields others : List Field} :
    Schema.fieldsSame fields others = true ↔
      ∀ f ∈ fields, ∃ g, (others.find? fun g => g.name = f.name) = some g ∧ f.same g = true := by
  induction fields with
  | nil => simp [Schema.fieldsSame]
  | cons f rest ih =>
    rw [Schema.fieldsSame, Bool.and_eq_true, ih, List.forall_mem_cons]
    refine and_congr_left fun _ => ?_
    cases others.find? fun g => g.name = f.name <;> simp

/-- A type over built schemas equals itself. -/
theorem FieldType.Built.same_self {t : FieldType} (ht : t.Built) : t.same t = true := by
  induction ht using FieldType.Built.induction with
  | scalar s => simp [FieldType.same]
  | list element _ ih => rw [FieldType.same, ih]
  | optional inner _ ih => rw [FieldType.same, ih]
  | message schema hs ih =>
    have hfield : ∀ f ∈ schema.fields, f.same f = true := by
      intro f hf
      have hdefault : Value.sameDefault f.default f.default = true := by
        cases hd : f.default with
        | none => rfl
        | some v =>
          have hv := hs.conforms_effectiveDefault hf (by rw [Field.effectiveDefault, hd])
          exact (hs.fieldType hf).value_same_self hv
      have htype := ih f hf
      obtain ⟨name, type, default, doc⟩ := f
      simp_all [Field.same]
    have hfields : Schema.fieldsSame schema.fields schema.fields = true :=
      Schema.fieldsSame_iff.mpr fun f hf =>
        ⟨f, find?_key_eq_some hs.fieldNames_nodup hf, hfield f hf⟩
    obtain ⟨name, doc, fields⟩ := schema
    rw [FieldType.same, Schema.same]
    simp [hfields]

/-- So does a built schema. -/
theorem Schema.Built.same_self {s : Schema} (hs : s.Built) : s.same s = true := by
  have hsame := (FieldType.Built.message hs).same_self
  rwa [FieldType.same] at hsame

/-! ## Between the calls -/

/-- **What is validated can be serialized, and validates again** to an equal
instance with its fields in the same order at every depth, whatever the
three configurations. -/
theorem Schema.Built.validate_serialize_validate {s : Schema} (hs : s.Built) (c₁ c₂ c₃ : Config)
    {p : Json} {x : Instance} (hx : s.validate c₁ p = .ok x) :
    ∃ json y, s.serialize c₂ x = .ok json ∧ s.validate c₃ json = .ok y ∧
      y.same x = true ∧ y.layout = x.layout := by
  have hconf := hs.conforms_of_decode (Schema.validate_eq_ok_iff.mp hx)
  obtain ⟨value, rfl, hvalue⟩ := (Schema.conforms_iff hs.fieldNames_nodup).mp hconf
  have hfields : ∀ f ∈ s.fields, ∃ json w, f.type.encode c₂.compact (value f) = .ok json ∧
      f.type.decode c₃.strict json = .ok w ∧ w.Recovers c₂.compact (value f) :=
    fun f hf => (hs.fieldType hf).decode_encode (hvalue f hf) c₂.compact c₃.strict
  obtain ⟨json, y, hencode, hdecode, halike, -⟩ :=
    hs.exists_decode_encode c₂.compact c₃.strict hvalue hfields
  exact ⟨json, y, Schema.serialize_eq_ok_iff.mpr ⟨rfl, hencode⟩,
    Schema.validate_eq_ok_iff.mpr hdecode, halike.same, halike.layout⟩

/-- Read leniently, written compactly, read strictly. -/
theorem Schema.Built.validate_serialize_validate_route :
    ∃ x, Sample.route.validate ⟨false, false⟩ Sample.delft = .ok x ∧
      ∃ json y, Sample.route.serialize ⟨false, true⟩ x = .ok json ∧
        Sample.route.validate ⟨true, false⟩ json = .ok y ∧ y.same x = true ∧
        y.layout = x.layout := by
  have hread : ∃ x, Sample.route.validate ⟨false, false⟩ Sample.delft = .ok x := ⟨_, rfl⟩
  obtain ⟨x, hx⟩ := hread
  exact ⟨x, hx, Schema.Built.validate_serialize_validate Sample.route_built _ _ _ hx⟩

end ServiceContracts
