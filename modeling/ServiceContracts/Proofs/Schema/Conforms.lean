import ServiceContracts.Proofs.Schema.Reading
/-!
# Values that conform to a type

`FieldType.Conforms` says which values a type holds, with no mention of
payloads: a number is finite and no integer stands for one, and a message
has exactly the fields of its schema, in declared order. Every value that
a reading gives conforms (`FieldType.Built.conforms_of_decode`), the
defaults it fills in included, since building had them read.
-/


namespace ServiceContracts

/-- The values of a scalar type. -/
inductive Scalar.Conforms : Scalar → Value → Prop
  | string (s : String) : Scalar.Conforms .string (.string s)
  | integer (n : Int64) : Scalar.Conforms .integer (.integer n)
  | number (x : Binary64.Finite) : Scalar.Conforms .number (.number (.finite x))
  | boolean (b : Bool) : Scalar.Conforms .boolean (.boolean b)

mutual

/-- The values of a type. -/
def FieldType.Conforms : FieldType → Value → Prop
  | .scalar s, v => s.Conforms v
  | .list element, v => ∃ items, v = .list items ∧ ∀ item ∈ items, element.Conforms item
  | .optional inner, v => v = .null ∨ inner.Conforms v
  | .message schema, v => ∃ m, v = .message m ∧ schema.Conforms m

/-- The messages of a schema: they carry its name, and its fields in
declared order. -/
def Schema.Conforms : Schema → Instance → Prop
  | ⟨name, _, fields⟩, m => m.schema = name ∧ Schema.FieldsConform fields m.fields

/-- The entries for a list of fields, one for each. -/
def Schema.FieldsConform : List Field → List (String × Value) → Prop
  | [], held => held = []
  | f :: rest, held => ∃ e others, held = e :: others ∧ f.Conforms e ∧
      Schema.FieldsConform rest others

/-- The entries for a field: its name, with a value of its type. -/
def Field.Conforms : Field → String × Value → Prop
  | ⟨name, type, _, _⟩, e => e.1 = name ∧ type.Conforms e.2

end

theorem Field.conforms_iff {f : Field} {e : String × Value} :
    f.Conforms e ↔ e.1 = f.name ∧ f.type.Conforms e.2 := by
  cases f
  rfl

theorem Schema.conforms_iff_fields {s : Schema} {m : Instance} :
    s.Conforms m ↔ m.schema = s.name ∧ FieldsConform s.fields m.fields := by
  cases s
  rfl

/-! ## Messages by their values -/

/-- The message of a schema that holds a given value for each field. -/
def Schema.holding (s : Schema) (value : Field → Value) : Instance :=
  ⟨s.name, s.fields.map fun f => (f.name, value f)⟩

/-- In a message so given each field is found. -/
theorem Schema.get?_holding {s : Schema} (hnodup : s.fieldNames.Nodup) {value : Field → Value}
    {f : Field} (hf : f ∈ s.fields) : (s.holding value).get? f.name = some (value f) :=
  Entries.get?_map hnodup value hf

theorem Schema.holding_congr {s : Schema} {value other : Field → Value}
    (h : ∀ f ∈ s.fields, value f = other f) : s.holding value = s.holding other :=
  congrArg (Instance.mk s.name) (List.map_congr_left fun f hf => by rw [h f hf])

theorem Schema.fieldsConform_map {fields : List Field} {value : Field → Value}
    (h : ∀ f ∈ fields, f.type.Conforms (value f)) :
    Schema.FieldsConform fields (fields.map fun f => (f.name, value f)) := by
  induction fields with
  | nil => simp [FieldsConform]
  | cons f rest ih =>
    simp only [List.map_cons, FieldsConform]
    exact ⟨_, _, rfl, Field.conforms_iff.mpr ⟨rfl, h f (by simp)⟩,
      ih fun g hg => h g (List.mem_cons_of_mem _ hg)⟩

theorem Schema.fieldsConform_of_map_eq_ok {fields : List Field} {held : List (String × Value)}
    {read : Field → Checked (String × Value)} (h : fields.map read = held.map .ok)
    (hread : ∀ f ∈ fields, ∀ e, read f = .ok e → f.Conforms e) : FieldsConform fields held := by
  induction fields generalizing held with
  | nil => simpa [FieldsConform, eq_comm] using h
  | cons f rest ih =>
    cases held with
    | nil => simp at h
    | cons e others =>
      obtain ⟨he, hothers⟩ : read f = .ok e ∧ rest.map read = others.map .ok := by simpa using h
      exact ⟨e, others, rfl, hread f (by simp) e he,
        ih hothers fun g hg => hread g (List.mem_cons_of_mem _ hg)⟩

/-- Entries for distinct fields are a value for each field. -/
theorem Schema.FieldsConform.exists_map {fields : List Field} {held : List (String × Value)}
    (hnodup : (fields.map Field.name).Nodup) (h : FieldsConform fields held) :
    ∃ value : Field → Value, held = fields.map (fun f => (f.name, value f)) ∧
      ∀ f ∈ fields, f.type.Conforms (value f) := by
  induction fields generalizing held with
  | nil => exact ⟨fun _ => .null, by simpa [FieldsConform] using h, by simp⟩
  | cons f rest ih =>
    obtain ⟨⟨name, v⟩, others, rfl, hf, hrest⟩ := h
    obtain ⟨rfl, hv⟩ := Field.conforms_iff.mp hf
    obtain ⟨hnew, hnodup⟩ : f.name ∉ rest.map Field.name ∧ _ := List.nodup_cons.mp hnodup
    obtain ⟨value, rfl, hvalue⟩ := ih hnodup hrest
    have hother : ∀ g ∈ rest, g.name ≠ f.name := fun g hg heq =>
      hnew (heq ▸ List.mem_map_of_mem hg)
    refine ⟨fun g => if g.name = f.name then v else value g, ?_, ?_⟩
    · have hrest : rest.map (fun g => (g.name, value g)) =
          rest.map fun g => (g.name, if g.name = f.name then v else value g) :=
        List.map_congr_left fun g hg => by rw [if_neg (hother g hg)]
      simp [hrest]
    · intro g hg
      rcases List.mem_cons.mp hg with rfl | hg
      · simpa using hv
      · simpa [hother g hg] using hvalue g hg

/-- **The messages of a schema are those given by a value for each field.** -/
theorem Schema.conforms_iff {s : Schema} (hnodup : s.fieldNames.Nodup) {m : Instance} :
    s.Conforms m ↔
      ∃ value : Field → Value, m = s.holding value ∧ ∀ f ∈ s.fields, f.type.Conforms (value f) := by
  rw [conforms_iff_fields]
  constructor
  · obtain ⟨schema, held⟩ := m
    rintro ⟨hname, hfields⟩
    obtain ⟨value, hheld, hvalue⟩ := hfields.exists_map hnodup
    exact ⟨value, congr (congrArg Instance.mk hname) hheld, hvalue⟩
  · rintro ⟨value, rfl, hvalue⟩
    exact ⟨rfl, fieldsConform_map hvalue⟩

/-! ## What a reading gives -/

/-- A scalar reading gives a value of the scalar type. -/
theorem Scalar.conforms_of_decode {s : Scalar} {p : Json} {v : Value} (h : s.decode p = .ok v) :
    s.Conforms v := by
  cases s <;> cases p <;> simp only [Scalar.decode, reduceCtorEq, Except.ok.injEq] at h
  case string.string text => exact h ▸ .string text
  case boolean.boolean b => exact h ▸ .boolean b
  case number.number n =>
    obtain ⟨x, hx⟩ := n.exists_finite_toDouble
    rw [hx] at h
    exact h ▸ .number x
  case integer.number n =>
    unfold Scalar.decodeInteger at h
    split at h <;> split at h
    · exact Except.ok.inj h ▸ .integer _
    · cases h
    · exact Except.ok.inj h ▸ .integer _
    · cases h

/-- An effective default conforms once everything read conforms. -/
theorem Schema.Built.conforms_effectiveDefault_of {schema : Schema} (h : schema.Built) {f : Field}
    (hf : f ∈ schema.fields)
    (hread : ∀ {strict p v}, f.type.decode strict p = .ok v → f.type.Conforms v) {v : Value}
    (hv : f.effectiveDefault = some v) : f.type.Conforms v := by
  unfold Field.effectiveDefault at hv
  cases hd : f.default with
  | some d =>
    obtain ⟨json, hjson⟩ := h.default_read hf hd
    obtain rfl : d = v := by simpa [hd] using hv
    exact hread hjson
  | none =>
    cases ht : f.type with
    | optional inner =>
      obtain rfl : v = .null := by simpa [hd, ht, FieldType.isNullable, eq_comm] using hv
      exact .inl rfl
    | _ => simp [hd, ht, FieldType.isNullable] at hv

/-- **Everything that is read conforms**, whether it stood in the payload or
was filled in. -/
theorem FieldType.Built.conforms_of_decode {t : FieldType} (ht : t.Built) {strict : Bool} {p : Json}
    {v : Value} (h : t.decode strict p = .ok v) : t.Conforms v := by
  induction ht using FieldType.Built.induction generalizing strict p v with
  | scalar s => exact Scalar.conforms_of_decode (FieldType.decode_scalar_eq_ok_iff.mp h)
  | list element _ ih =>
    obtain ⟨items, values, -, rfl, hvalues⟩ := FieldType.decode_list_eq_ok_iff.mp h
    refine ⟨values, rfl, fun w hw => ?_⟩
    obtain ⟨item, -, hitem⟩ := exists_of_map_eq_map_ok hvalues hw
    exact ih hitem
  | optional inner _ ih =>
    by_cases hp : p = .null
    · subst hp
      exact .inl (FieldType.eq_null_of_decode_null h)
    · rw [FieldType.decode_optional hp] at h
      exact .inr (ih h)
  | message schema hs ih =>
    obtain ⟨m, hm, rfl⟩ := FieldType.decode_message_eq_ok_iff.mp h
    obtain ⟨members, rfl, -, hname, hfields⟩ := Schema.decode_eq_ok_iff.mp hm
    refine ⟨m, rfl, Schema.conforms_iff_fields.mpr ⟨hname, ?_⟩⟩
    refine Schema.fieldsConform_of_map_eq_ok hfields fun f hf e he => ?_
    obtain ⟨hkey, ⟨p, -, hp⟩ | ⟨-, hdefault⟩⟩ := Field.decode_eq_ok_iff.mp he
    · exact Field.conforms_iff.mpr ⟨hkey, ih f hf hp⟩
    · exact Field.conforms_iff.mpr
        ⟨hkey, hs.conforms_effectiveDefault_of hf (fun h => ih f hf h) hdefault⟩

/-- Every effective default of a built schema conforms. -/
theorem Schema.Built.conforms_effectiveDefault {schema : Schema} (h : schema.Built) {f : Field}
    (hf : f ∈ schema.fields) {v : Value} (hv : f.effectiveDefault = some v) : f.type.Conforms v :=
  h.conforms_effectiveDefault_of hf (fun hp => (h.fieldType hf).conforms_of_decode hp) hv

/-- **Every message that is read conforms to its schema.** -/
theorem Schema.Built.conforms_of_decode {schema : Schema} (h : schema.Built) {strict : Bool}
    {p : Json} {m : Instance} (hm : schema.decode strict p = .ok m) : schema.Conforms m := by
  obtain ⟨m', heq, hconf⟩ := (FieldType.Built.message h).conforms_of_decode
    (FieldType.decode_message_eq_ok_iff.mpr ⟨m, hm, rfl⟩)
  exact Value.message.inj heq ▸ hconf

end ServiceContracts
