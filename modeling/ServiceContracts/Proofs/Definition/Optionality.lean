import ServiceContracts.Proofs.Definition.Loaded
import ServiceContracts.Proofs.Schema.OneField
/-!
# Required, default and nullable

Three marks of a property say what becomes of a payload without it, or
with null in its place: whether it is required, whether it has a default,
and whether it allows null. Resolving turns them into a field's type and
default, and reading knows only those. A property that is neither
required nor defaulted gets a type with null, so that it can be left out;
and one that allows null can be left out, too, even where it is required.

This file follows the marks all the way (`Property.Governs`). Of the type
of a property they leave the part that has no null in it
(`Property.withoutNull`), and any other value is read as that.
-/


namespace ServiceContracts

/-- Only a type with null in front reads null. -/
theorem FieldType.isNullable_of_decode_null {strict : Bool} {t : FieldType} {v : Value}
    (h : t.decode strict .null = .ok v) : t.isNullable = true := by
  cases t with
  | scalar s => cases s <;> simp [decode_scalar_eq_ok_iff, Scalar.decode] at h
  | list element => simp [FieldType.decode] at h
  | optional inner => rfl
  | message schema =>
    obtain ⟨m, hm, -⟩ := decode_message_eq_ok_iff.mp h
    obtain ⟨members, hobject, -⟩ := Schema.decode_eq_ok_iff.mp hm
    cases hobject

namespace Definition

/-! ## Types without null -/

namespace Property

/-- The property with null taken out of its kinds, and not nullable. -/
def withoutNull (p : Property) : Property :=
  { p with
    kinds := p.kinds.map fun k => .many (k.toList.filter fun kind => kind ≠ "null")
    nullable := false }

variable {p : Property}

theorem allowsNull_withoutNull : p.withoutNull.allowsNull = false := by
  obtain ⟨kinds, items, reference, description, default, nullable⟩ := p
  cases kinds <;> simp [allowsNull, withoutNull, Kinds.listsNull, Kinds.toList]

theorem listsUnion_withoutNull : p.withoutNull.listsUnion = p.listsUnion := by
  obtain ⟨kinds, items, reference, description, default, nullable⟩ := p
  cases kinds <;> simp [listsUnion, withoutNull, Kinds.isUnion, Kinds.toList]

theorem kind?_withoutNull : p.withoutNull.kind? = p.kind? := by
  obtain ⟨kinds, items, reference, description, default, nullable⟩ := p
  cases kinds <;> simp [kind?, withoutNull, Kinds.kind?, Kinds.toList]

theorem admitting_withoutNull (inner : FieldType) : p.withoutNull.admitting inner = inner := by
  rw [admitting, allowsNull_withoutNull, if_neg Bool.false_ne_true]

/-- **The type of a property is its type without null**, with null added if
the property allows it. -/
theorem HasType.exists_withoutNull {known : String → Schema → Prop} {t : FieldType}
    (h : p.HasType known t) : ∃ declared, p.withoutNull.HasType known declared ∧
      declared.isNullable = false ∧ t = p.admitting declared := by
  cases h with
  | @reference _ _ _ schema hunion hreference hname hknown =>
    refine ⟨.message schema, ?_, rfl, rfl⟩
    rw [← admitting_withoutNull (p := p) (.message schema)]
    exact .reference (listsUnion_withoutNull.trans hunion) hreference hname hknown
  | @scalar _ _ s hunion hreference hkind hscalar =>
    refine ⟨.scalar s, ?_, rfl, rfl⟩
    rw [← admitting_withoutNull (p := p) (.scalar s)]
    exact .scalar (listsUnion_withoutNull.trans hunion) hreference
      (kind?_withoutNull.trans hkind) hscalar
  | @array _ _ element hunion hreference hkind hitems helement =>
    refine ⟨.list element, ?_, rfl, rfl⟩
    rw [← admitting_withoutNull (p := p) (.list element)]
    exact .array (listsUnion_withoutNull.trans hunion) hreference
      (kind?_withoutNull.trans hkind) hitems helement

/-! ## The marks of a property -/

/-- An object without the property is refused. -/
def MustBeGiven (p : Property) (required : List String) (name : String) : Prop :=
  name ∈ required ∧ p.default = none ∧ p.allowsNull = false

/-- The property may be null in an object. -/
def MayBeNull (p : Property) (required : List String) (name : String) : Prop :=
  p.allowsNull = true ∨ name ∉ required ∧ p.default = none

/-- **What the marks of a property make of its member in an object**, where
`declared` is the property's type without null. -/
structure Governs (p : Property) (required : List String) (name : String) (declared : FieldType)
    (strict : Bool) (member : Option Json) (check : Checked Value) : Prop where
  missing : member = none → (check = Checked.refuse .missingField ↔ p.MustBeGiven required name)
  default : member = none → ∀ raw, p.default = some raw →
    ∃ v, (p.admitting declared).read raw = .ok v ∧ check = .ok v
  noDefault : member = none → p.default = none → ¬ p.MustBeGiven required name → check = .ok .null
  null : member = some .null → ((∃ v, check = .ok v) ↔ p.MayBeNull required name)
  nullValue : member = some .null → ∀ v, check = .ok v → v = .null
  other : ∀ payload, member = some payload → payload ≠ .null → check = declared.decode strict payload

/-- **The field that a property becomes**: its type has null in front where
the property may be null, and its default is the property's. -/
structure Shapes (p : Property) (required : List String) (name : String) (declared : FieldType)
    (f : Field) : Prop where
  notNullable : declared.isNullable = false
  nullable : p.MayBeNull required name → f.type = .optional declared
  plain : ¬ p.MayBeNull required name → f.type = declared
  default : ∀ raw, p.default = some raw →
    ∃ v, (p.admitting declared).read raw = .ok v ∧ f.default = some v
  noDefault : p.default = none → f.default = none

variable {required : List String} {name : String} {declared : FieldType} {f : Field}

theorem admitting_of_allowsNull (h : p.allowsNull = true) (hd : declared.isNullable = false) :
    p.admitting declared = .optional declared := by
  simp [admitting, FieldType.orNull, h, hd]

theorem admitting_of_not_allowsNull (h : ¬ p.allowsNull = true) :
    p.admitting declared = declared := by
  simp [admitting, h]

theorem orNull_admitting (hd : declared.isNullable = false) :
    (p.admitting declared).orNull = .optional declared := by
  by_cases hallows : p.allowsNull = true
  · rw [admitting_of_allowsNull hallows hd]
    rfl
  · rw [admitting_of_not_allowsNull hallows]
    simp [FieldType.orNull, hd]

/-- **The field of a property is as its marks say.** -/
theorem HasField.exists_shapes {known : String → Schema → Prop}
    (h : p.HasField known required name f) :
    ∃ declared, p.withoutNull.HasType known declared ∧ p.Shapes required name declared f := by
  cases h with
  | plain htype hdefault =>
    obtain ⟨declared, hdeclared, hd, rfl⟩ := htype.exists_withoutNull
    refine ⟨declared, hdeclared, hd, fun hnull => ?_, fun hnull => ?_, fun raw hraw => ?_,
      fun _ => rfl⟩
    · obtain hallows | ⟨hoptional, -⟩ := hnull
      · have hbase := admitting_of_allowsNull hallows hd
        by_cases hrequired : name ∈ required
        · exact (if_pos hrequired).trans hbase
        · exact (if_neg hrequired).trans (orNull_admitting hd)
      · exact (if_neg hoptional).trans (orNull_admitting hd)
    · obtain ⟨hallows, hoptional⟩ := not_or.mp hnull
      have hrequired : name ∈ required := by
        by_contra hmem
        exact hoptional ⟨hmem, hdefault⟩
      exact (if_pos hrequired).trans (admitting_of_not_allowsNull hallows)
    · simp [hdefault] at hraw
  | withDefault htype hdefault hread =>
    obtain ⟨declared, hdeclared, hd, rfl⟩ := htype.exists_withoutNull
    refine ⟨declared, hdeclared, hd, fun hnull => ?_, fun hnull => ?_, fun raw hraw => ?_,
      fun hnone => ?_⟩
    · obtain hallows | ⟨-, hnone⟩ := hnull
      · exact admitting_of_allowsNull hallows hd
      · simp [hdefault] at hnone
    · exact admitting_of_not_allowsNull fun hallows => hnull (.inl hallows)
    · obtain rfl := Option.some.inj (hdefault.symm.trans hraw)
      exact ⟨_, hread, rfl⟩
    · simp [hdefault] at hnone

/-- Without a default, a property that is not null has to be given. -/
theorem mustBeGiven_iff (hdefault : p.default = none) :
    p.MustBeGiven required name ↔ ¬ p.MayBeNull required name := by
  simp [MustBeGiven, MayBeNull, hdefault, and_comm]

/-- **So is its check**, in every object. -/
theorem Shapes.governs (h : p.Shapes required name declared f) (strict : Bool)
    (member : Option Json) :
    p.Governs required name declared strict member (f.check strict member) := by
  have hnullable : f.type.isNullable = true ↔ p.MayBeNull required name := by
    constructor
    · intro hf
      by_contra hnull
      rw [h.plain hnull, h.notNullable] at hf
      cases hf
    · intro hnull
      rw [h.nullable hnull]
      rfl
  -- the absent member, without a default and with one
  have habsent : p.default = none → f.check strict none =
      if f.type.isNullable then .ok .null else Checked.refuse .missingField := by
    intro hdefault
    unfold Field.check Field.effectiveDefault
    rw [h.noDefault hdefault]
    cases f.type.isNullable <;> rfl
  have hfilled : ∀ raw, p.default = some raw →
      ∃ v, (p.admitting declared).read raw = .ok v ∧ f.check strict none = .ok v := by
    intro raw hraw
    obtain ⟨v, hread, hv⟩ := h.default raw hraw
    refine ⟨v, hread, ?_⟩
    unfold Field.check Field.effectiveDefault
    rw [hv]
  refine ⟨?_, ?_, ?_, ?_, ?_, ?_⟩
  · rintro rfl
    cases hdefault : p.default with
    | none =>
      rw [habsent hdefault, mustBeGiven_iff hdefault, ← hnullable]
      cases f.type.isNullable <;> simp [Checked.refuse]
    | some raw =>
      obtain ⟨v, -, hv⟩ := hfilled raw hdefault
      simp [hv, Checked.refuse, MustBeGiven, hdefault]
  · rintro rfl
    exact hfilled
  · rintro rfl hdefault hgiven
    have hnull := not_not.mp (mt (mustBeGiven_iff hdefault).mpr hgiven)
    rw [habsent hdefault, if_pos (hnullable.mpr hnull)]
  · rintro rfl
    constructor
    · rintro ⟨v, hv⟩
      exact hnullable.mp (FieldType.isNullable_of_decode_null hv)
    · intro hnull
      refine ⟨.null, ?_⟩
      rw [Field.check, h.nullable hnull, FieldType.decode_optional_null]
  · rintro rfl v hv
    exact FieldType.eq_null_of_decode_null hv
  · rintro payload rfl hpayload
    rw [Field.check]
    by_cases hnull : p.MayBeNull required name
    · rw [h.nullable hnull, FieldType.decode_optional hpayload]
    · rw [h.plain hnull]

end Property

/-! ## From documents to payloads -/

/-- Building keeps the fields of properties as they are. -/
theorem TypeDefinition.HasSchema.forall₂_fields {known : String → Schema → Prop}
    (hknown : ∀ ref s, known ref s → s.Built) {name : String} {d : TypeDefinition} {schema : Schema}
    (h : d.HasSchema known name schema) :
    List.Forall₂ (fun e f => Property.HasField known d.required e.1 e.2 f) d.properties
      schema.fields := by
  obtain ⟨-, fields, hfields, hbuild⟩ := h
  obtain ⟨-, -, -, checked, hchecked, rfl⟩ := Schema.build_eq_ok_iff.mp hbuild
  have hkept : fields.map Field.normalize = fields.map .ok := by
    refine List.map_congr_left fun f hf => ?_
    obtain ⟨e, -, hef⟩ := exists_of_forall₂_right hfields hf
    exact hef.normalize_eq hknown
  obtain rfl : fields = checked :=
    (List.map_inj_right fun _ _ h => Except.ok.inj h).mp (hkept.symm.trans hchecked)
  exact hfields

/-- **Required, default and nullable mean the same in a document as in a
payload.** For a property of a declared type there is one way in which an
object is read there, and it is the one that the property's marks say. An
object that has to give it and does not is told so. -/
theorem Loader.build_optionality {l : Loader} {r : Registry} (h : l.build = .ok r)
    {type name : String} {d : TypeDefinition} {p : Property}
    (hd : Entries.get? (declarations l.sources) type = some d) (hp : (name, p) ∈ d.properties) :
    ∃ table schema declared, load l.sources = .ok (r, table) ∧
      Entries.get? table type = some schema ∧
      p.withoutNull.plainType (expand (declarations l.sources)) = some declared ∧
      ∀ (config : Config) (members : List (String × Json)), ∃ check,
        (∀ c, schema.ReadsAs config members name c ↔ c = check) ∧
        p.Governs d.required name declared config.strict (Entries.get? members name) check ∧
        (Entries.get? members name = none → p.MustBeGiven d.required name → ∃ errors,
          schema.validate config (.object members) = .error (.rejected schema.name errors) ∧
            ⟨name, "missing required field"⟩ ∈ errors) := by
  obtain ⟨table, hload, htable⟩ := exists_table_of_buildRegistry h
  obtain ⟨-, hall, -, -⟩ := exists_buildRegistry_iff.mp ⟨r, h⟩
  obtain ⟨schema, hschema⟩ := hall type (List.mem_map_of_mem (Entries.mem_of_get?_eq_some hd))
  obtain ⟨d', hd', hfields⟩ := Expands.iff_hasSchema.mp hschema
  obtain rfl := Option.some.inj (hd.symm.trans hd')
  obtain ⟨f, hf, hfield⟩ :=
    exists_of_forall₂_left (hfields.forall₂_fields fun _ _ => Expands.built) hp
  obtain ⟨declared, hdeclared, hshapes⟩ := hfield.exists_shapes
  have hplain : p.withoutNull.plainType (expand (declarations l.sources)) = some declared :=
    Property.plainType_of_hasType (hdeclared.mono fun _ _ => Expands.expand_eq)
  obtain rfl : f.name = name := hfield.name_eq
  have hnodup := hschema.built.fieldNames_nodup
  have hreads : ∀ config members, schema.ReadsAs config members f.name
      (f.check config.strict (Entries.get? members f.name)) := fun _ _ => Schema.readsAs hnodup hf
  refine ⟨table, schema, declared, hload, (htable type).trans hschema.expand_eq, hplain,
    fun config members => ⟨f.check config.strict (Entries.get? members f.name), fun c => ?_,
      hshapes.governs _ _, fun habsent hgiven => ?_⟩⟩
  · constructor
    · intro hc
      exact hc.unique hnodup (hreads config members)
    · rintro rfl
      exact hreads config members
  · have hrefused := hreads config members
    rw [habsent, ((hshapes.governs config.strict none).missing rfl).mpr hgiven] at hrefused
    obtain ⟨errors, herrors, hmem⟩ :=
      hrefused.reported ⟨[], .missingField⟩ (List.mem_singleton.mpr rfl)
    exact ⟨errors, herrors, hmem⟩

/-- A route has to have its stops, a stop waits for no time unless it says
so, and it cannot say null. -/
theorem Loader.build_optionality_sample : ∃ r table route stop,
    Sample.loader.build = .ok r ∧ load Sample.loader.sources = .ok (r, table) ∧
    Entries.get? table "Route" = some route ∧ Entries.get? table "Stop" = some stop ∧
    (∃ errors, route.validate .lenient (.object []) = .error (.rejected route.name errors) ∧
      ⟨"stops", "missing required field"⟩ ∈ errors) ∧
    stop.ReadsAs .lenient [] "wait" (.ok (.number (.finite .zero))) ∧
    ∀ v, ¬ stop.ReadsAs .lenient [("wait", .null)] "wait" (.ok v) := by
  obtain ⟨r, hr⟩ : ∃ r, Sample.loader.build = .ok r := Sample.exists_load
  have hrouteType : Entries.get? (declarations Sample.loader.sources) "Route" =
      some ⟨"", [("stops", Sample.stops)], ["stops"]⟩ := rfl
  have hstopType : Entries.get? (declarations Sample.loader.sources) "Stop" =
      some ⟨"", [("wait", Sample.wait)], []⟩ := rfl
  obtain ⟨table, route, _, hload, hroute, -, hstops⟩ :=
    Loader.build_optionality hr hrouteType (List.mem_singleton.mpr rfl)
  obtain ⟨table', stop, number, hload', hstop, hnumber, hwait⟩ :=
    Loader.build_optionality hr hstopType (List.mem_singleton.mpr rfl)
  have htables := Except.ok.inj (hload.symm.trans hload')
  obtain rfl : table = table' := congrArg Prod.snd htables
  have hscalar := (Property.hasType_scalar_iff (p := Sample.wait.withoutNull) rfl rfl
    (Property.kind?_withoutNull.trans Sample.wait_kind) rfl).mp (Property.hasType_of_plainType hnumber)
  obtain rfl : number = .scalar .number := hscalar.trans (Property.admitting_withoutNull _)
  obtain ⟨-, -, -, hmissing⟩ := hstops .lenient []
  obtain ⟨check, hreads, habsent, -⟩ := hwait .lenient []
  obtain ⟨check', hreads', hnull, -⟩ := hwait .lenient [("wait", .null)]
  refine ⟨r, table, route, stop, hr, hload, hroute, hstop, ?_, ?_, fun v hv => ?_⟩
  · exact hmissing rfl ⟨List.mem_singleton.mpr rfl, rfl, rfl⟩
  · obtain ⟨v, hread, hv⟩ := habsent.default rfl _ rfl
    obtain rfl : Value.number (.finite .zero) = v := Except.ok.inj hread
    exact (hreads _).mpr hv.symm
  · have hmay := (hnull.null rfl).mp ⟨v, ((hreads' _).mp hv).symm⟩
    exact absurd hmay (by simp [Property.MayBeNull, Property.allowsNull, Sample.wait, Kinds.listsNull,
      Kinds.toList])

end Definition

end ServiceContracts
