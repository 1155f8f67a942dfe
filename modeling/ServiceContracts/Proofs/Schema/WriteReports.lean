import ServiceContracts.Proofs.Schema.Compact
import ServiceContracts.Proofs.Schema.Offenses
/-!
# What a refused instance is told

The errors of an instance have a definition of their own, as those of a
payload have: a recursion on the type and the value that goes down with
the text of the path (`Schema.writeReports`). Serialization gives exactly
that list, in every configuration, and there is a JSON value exactly when
the list is empty.

The list knows nothing of configurations, and the writing does: in
compact form a field that equals its default is left out unlooked at. It
need not be looked at, since what equals a default can be written, so
both forms find the same wrong (`Schema.Built.offenses_encode`).
-/


namespace ServiceContracts

/-! ## The errors, from the type and the value -/

/-- A value is of the kind that a scalar type writes. A number has to be
finite, and an integer may stand for one. -/
def Scalar.Writes : Scalar → Value → Prop
  | .string, .string _ => True
  | .integer, .integer _ => True
  | .number, .integer _ => True
  | .number, .number x => ∃ y, x = .finite y
  | .boolean, .boolean _ => True
  | _, _ => False

/-- Why a value is not written. Only a number is ever not finite; whatever
else is wrong is the kind. -/
def Scalar.objection : Scalar → Value → Reason
  | .number, .number _ => .numberNotFinite
  | s, v => .mismatch s.text v.kind

/-- **A scalar is written exactly where it is of the kind.** -/
theorem Scalar.exists_encode_iff {s : Scalar} {v : Value} :
    (∃ json, s.encode v = .ok json) ↔ s.Writes v := by
  cases s with
  -- only here does it depend on what the value is, and not on its kind
  | number =>
    cases v with
    | number x => cases x <;> simp [encode, Writes]
    | _ => simp [encode, Writes]
  | _ => cases v <;> simp [encode, Writes]

/-- And what is not written is refused for its reason. -/
theorem Scalar.encode_eq_error {s : Scalar} {v : Value} (h : ¬ s.Writes v) :
    s.encode v = .error (s.objection v) := by
  cases s with
  | number =>
    cases v with
    | number x =>
      cases x with
      | finite y => exact absurd ⟨y, rfl⟩ h
      | _ => rfl
    | integer n => exact absurd trivial h
    | _ => rfl
  | _ =>
    cases v <;> first
      | rfl
      | exact absurd trivial h

instance (s : Scalar) (v : Value) : Decidable (s.Writes v) :=
  match h : s.encode v with
  | .ok json => isTrue (Scalar.exists_encode_iff.mp ⟨json, h⟩)
  | .error _ => isFalse fun hwrites => by
    obtain ⟨json, hjson⟩ := Scalar.exists_encode_iff.mpr hwrites
    rw [h] at hjson; cases hjson

/-- The errors of the fields of an instance that its schema does not
declare, in the order of the instance. -/
def Schema.surplusReports (s : Schema) (path : String) (m : Instance) : FieldErrors :=
  ((Entries.keys m.fields).filter fun name => name ∉ s.fieldNames).map fun name =>
    ⟨Step.addTo path (.field name), Reason.unknownField.message⟩

mutual

/-- The errors of a value at a path, against a type. -/
def FieldType.writeReports : FieldType → String → Value → FieldErrors
  | .scalar s, path, v => if s.Writes v then [] else errorAt path (s.objection v)
  | .optional inner, path, v =>
    match v with
    | .null => []
    | v => inner.writeReports path v
  | .list element, path, v =>
    match v with
    | .list items =>
      (items.mapIdx fun i item => element.writeReports (Step.addTo path (.index i)) item).flatten
    | v => errorAt path (.mismatch (FieldType.list element).text v.kind)
  | .message schema, path, v =>
    match v with
    | .message m =>
      if m.schema = schema.name then schema.writeReports path m
      else errorAt path (.mismatch (schema.name ++ " message") (m.schema ++ " message"))
    | v => errorAt path (.mismatch schema.name v.kind)

/-- The errors of an instance at a path, against a schema of its name: those
of the declared fields in declaration order, then those of what it holds
besides. -/
def Schema.writeReports : Schema → String → Instance → FieldErrors
  | ⟨name, doc, fields⟩, path, m =>
    Schema.fieldWriteReports fields path m ++ Schema.surplusReports ⟨name, doc, fields⟩ path m

/-- The errors of the declared fields of an instance, in declaration
order. -/
def Schema.fieldWriteReports : List Field → String → Instance → FieldErrors
  | [], _, _ => []
  | f :: rest, path, m =>
    f.writeReports path (f.held m) ++ Schema.fieldWriteReports rest path m

/-- The errors of one field, from what is held for it: the value of the
instance, or else the effective default, or neither. -/
def Field.writeReports : Field → String → Option Value → FieldErrors
  | ⟨name, type, _, _⟩, path, held =>
    match held with
    | some v => type.writeReports (Step.addTo path (.field name)) v
    | none => [⟨Step.addTo path (.field name), Reason.missingField.message⟩]

end

variable {compact : Bool} {path : String}

@[simp] theorem Field.writeReports_some (f : Field) (v : Value) :
    f.writeReports path (some v) = f.type.writeReports (Step.addTo path (.field f.name)) v := by
  cases f
  rfl

@[simp] theorem Field.writeReports_none (f : Field) :
    f.writeReports path none =
      [⟨Step.addTo path (.field f.name), Reason.missingField.message⟩] := by
  cases f
  rfl

theorem Schema.writeReports_eq {s : Schema} {m : Instance} :
    s.writeReports path m =
      (s.fields.flatMap fun f => f.writeReports path (f.held m)) ++ s.surplusReports path m := by
  have hfields : ∀ fields : List Field, fieldWriteReports fields path m =
      fields.flatMap fun f => f.writeReports path (f.held m) := by
    intro fields
    induction fields with
    | nil => rfl
    | cons f rest ih => rw [fieldWriteReports, ih, List.flatMap_cons]
  obtain ⟨name, doc, fields⟩ := s
  rw [Schema.writeReports, hfields]

/-! ## The writing finds these errors -/

theorem Schema.reportsFrom_surplus {s : Schema} {m : Instance} :
    (surplus s.fields m.fields).map (Offense.reportFrom path) = s.surplusReports path m := by
  rw [surplus, surplusReports, s.filterMap_unknown, List.map_map]
  rfl

/-- **One field**, of any instance. -/
theorem Field.reportsFrom_encode {f : Field} {m : Instance}
    (hname : Text.isBlank f.name = false)
    (htype : ∀ path v, Checked.reportsFrom path (f.type.encode false v) = f.type.writeReports path v) :
    Checked.reportsFrom path (f.encode false m) = f.writeReports path (f.held m) := by
  have hpath : Step.addTo path (.field f.name) ≠ "" := Step.addTo_field_ne_empty hname
  cases hheld : f.held m with
  | none =>
    rw [f.encode_of_held_none hheld, Checked.reportsFrom_under hpath, Checked.reportsFrom_refuse,
      errorAt, shownPath, if_neg (by simpa using hpath), Field.writeReports_none]
  | some v =>
    rw [f.encode_of_held hheld, Checked.reportsFrom_under hpath, Bool.false_and,
      if_neg Bool.false_ne_true, Checked.reportsFrom_map, htype, Field.writeReports_some]

/-- **One schema**, from its fields. -/
theorem Schema.reportsFrom_encode {s : Schema} {m : Instance}
    (h : ∀ f ∈ s.fields,
      Checked.reportsFrom path (f.encode false m) = f.writeReports path (f.held m)) :
    Checked.reportsFrom path (s.encode false m) = s.writeReports path m := by
  have hfields : (s.fields.flatMap fun f => Checked.offenses (f.encode false m)).map
      (Offense.reportFrom path) = s.fields.flatMap fun f => f.writeReports path (f.held m) := by
    rw [List.map_flatMap]
    exact List.flatMap_congr h
  rw [Checked.reportsFrom, Schema.offenses_encode, List.map_append, hfields,
    Schema.reportsFrom_surplus, Schema.writeReports_eq]

/-- **Every type**: the offenses of the writing, rendered, are the errors. -/
theorem FieldType.Built.reportsFrom_encode {t : FieldType} (ht : t.Built) (path : String)
    (v : Value) :
    Checked.reportsFrom path (t.encode false v) = t.writeReports path v := by
  -- the path grows on the way down, so the induction is for every path
  induction ht using FieldType.Built.induction generalizing path v with
  | scalar s =>
    rw [FieldType.encode, FieldType.writeReports]
    by_cases hwrites : s.Writes v
    · obtain ⟨json, hjson⟩ := Scalar.exists_encode_iff.mpr hwrites
      rw [hjson, if_pos hwrites]
      rfl
    · rw [Scalar.encode_eq_error hwrites, if_neg hwrites]
      rfl
  | list element _ ih =>
    cases v with
    | list items =>
      rw [FieldType.encode, Checked.reportsFrom_map, Checked.reportsFrom_items,
        FieldType.writeReports]
      simp only [ih]
    | _ => rfl
  | optional inner _ ih =>
    cases v with
    | null => rfl
    | _ => exact ih path _
  | message schema hs ih =>
    cases v with
    | message m =>
      rw [FieldType.encode, FieldType.writeReports]
      split
      · refine Schema.reportsFrom_encode fun f hf => ?_
        exact Field.reportsFrom_encode (hs.fieldName_visible hf) fun path v => ih f hf path v
      · rfl
    | _ => rfl

/-- **Both forms find the same wrong.** -/
theorem Schema.Built.offenses_encode {s : Schema} (hs : s.Built) (m : Instance) :
    Checked.offenses (s.encode compact m) = Checked.offenses (s.encode false m) := by
  cases compact with
  | false => rfl
  | true => rw [hs.encode_compact, Checked.offenses_map]

/-- And so for a schema, in both forms. -/
theorem Schema.Built.reportsFrom_encode {s : Schema} (hs : s.Built) (m : Instance) :
    Checked.reportsFrom path (s.encode compact m) = s.writeReports path m := by
  rw [Checked.reportsFrom, hs.offenses_encode]
  refine Schema.reportsFrom_encode fun f hf => ?_
  exact Field.reportsFrom_encode (hs.fieldName_visible hf) fun path v =>
    (hs.fieldType hf).reportsFrom_encode path v

/-! ## Serialization -/

/-- **Serialization reports every error, each once and in order**, in every
configuration, and gives a JSON value exactly when there is none. It looks
at the fields of an instance only where the instance has the name of the
schema; elsewhere that is the error. -/
theorem Schema.Built.serialize_reports {s : Schema} (hs : s.Built) (config : Config)
    (m : Instance) :
    (∀ expected found, s.serialize config m = .error (.otherSchema expected found) ↔
      m.schema ≠ s.name ∧ expected = s.name ∧ found = m.schema) ∧
    (m.schema = s.name →
      ((∃ json, s.serialize config m = .ok json) ↔ s.writeReports "" m = []) ∧
      ∀ e, s.serialize config m = .error e →
        e = .rejected s.name (s.writeReports "" m) ∧ s.writeReports "" m ≠ []) ∧
    ∀ path, s.writeReports path m =
      (s.fields.flatMap fun f => f.writeReports path (f.held m)) ++ s.surplusReports path m := by
  have hground : (s.encode config.compact m).Grounded :=
    Schema.encode_grounded fun f _ => f.type.encode_grounded
  have hreports : (Checked.offenses (s.encode config.compact m)).map Offense.report =
      s.writeReports "" m := by
    rw [← Offense.reportFrom_root]
    exact hs.reportsFrom_encode m
  have hnil : s.writeReports "" m = [] ↔ ∃ json, s.encode config.compact m = .ok json := by
    rw [← hreports, List.map_eq_nil_iff, hground.offenses_eq_nil_iff]
  refine ⟨fun expected found => ?_, fun hname => ⟨?_, fun e he => ?_⟩,
    fun path => Schema.writeReports_eq⟩
  · unfold Schema.serialize
    by_cases hname : m.schema = s.name
    · rw [if_pos hname]
      cases s.encode config.compact m <;> simp [hname]
    · simp [hname, eq_comm]
  · rw [hnil]
    simp only [Schema.serialize_eq_ok_iff, hname, true_and]
  · rw [Schema.serialize, if_pos hname] at he
    cases hencode : s.encode config.compact m with
    | ok json => simp [hencode] at he
    | error offenses =>
      rw [hencode] at he hreports
      refine ⟨?_, fun hempty => ?_⟩
      · rw [← hreports]
        exact (Except.error.inj he).symm
      · obtain ⟨json, hjson⟩ := hnil.mp hempty
        rw [hencode] at hjson
        cases hjson

namespace Sample

/-- A route put together by hand with much wrong: a stop of another schema,
one without a name that waits for no number, one that is null, as it may
be, and two fields nobody declared around them. -/
def misbuilt : Instance :=
  ⟨"Route", [("kind", .string "night"), ("stops", .list [.message ⟨"Halt", []⟩,
    .message ⟨"Stop", [("wait", .number .nan), ("platform", .integer 2)]⟩, .null]),
    ("length", .integer 12), ("note", .boolean true)]⟩

/-- What is said about it. -/
def misbuiltErrors : FieldErrors :=
  [⟨"stops[0]", "expected Stop message, found Halt message"⟩,
    ⟨"stops[1].name", "missing required field"⟩, ⟨"stops[1].wait", "number must be finite"⟩,
    ⟨"stops[1].platform", "unknown field"⟩, ⟨"note", "expected string, found boolean"⟩,
    ⟨"kind", "unknown field"⟩, ⟨"length", "unknown field"⟩]

end Sample

theorem Schema.Built.serialize_reports_misbuilt :
    Sample.route.serialize ⟨true, true⟩ Sample.misbuilt =
      .error (.rejected "Route" Sample.misbuiltErrors) ∧
    Sample.stop.serialize ⟨true, true⟩ Sample.misbuilt =
      .error (.otherSchema "Stop" "Route") := by
  obtain ⟨-, hroute, -⟩ :=
    Schema.Built.serialize_reports Sample.route_built ⟨true, true⟩ Sample.misbuilt
  obtain ⟨hstop, -⟩ :=
    Schema.Built.serialize_reports Sample.stop_built ⟨true, true⟩ Sample.misbuilt
  have hreports : Sample.route.writeReports "" Sample.misbuilt = Sample.misbuiltErrors := rfl
  obtain ⟨haccepts, hrejects⟩ := hroute rfl
  rw [hreports] at haccepts hrejects
  refine ⟨?_, (hstop "Stop" "Route").mpr ⟨by decide, rfl, rfl⟩⟩
  cases hresult : Sample.route.serialize ⟨true, true⟩ Sample.misbuilt with
  | ok json => exact absurd (haccepts.mp ⟨json, hresult⟩) (List.cons_ne_nil _ _)
  | error e => rw [(hrejects e hresult).1]; rfl

end ServiceContracts
