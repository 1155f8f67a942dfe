import ServiceContracts.Proofs.Schema.RoundTrip
import ServiceContracts.Proofs.Schema.Sameness
/-!
# Equal schemas, field by field

Equality of schemas does not look at the order of the fields, so it pairs
each field with one of the other schema, its twin, and leaves no field
over (`Schema.Twins`). Twins have one name, equal types, and equal values
standing in for them when they are absent.

`FieldType.Built.twinInduction` is the induction over two equal types at
once: down to the types of twins.
-/


namespace ServiceContracts

/-! ## Equal types -/

theorem FieldType.eq_of_scalar_same {s : Scalar} {u : FieldType}
    (h : (FieldType.scalar s).same u = true) : u = .scalar s := by
  cases u <;> simp_all [FieldType.same]

theorem FieldType.exists_of_list_same {element u : FieldType}
    (h : (FieldType.list element).same u = true) :
    ∃ other, u = .list other ∧ element.same other = true := by
  cases u <;> simp_all [FieldType.same]

theorem FieldType.exists_of_optional_same {inner u : FieldType}
    (h : (FieldType.optional inner).same u = true) :
    ∃ other, u = .optional other ∧ inner.same other = true := by
  cases u <;> simp_all [FieldType.same]

theorem FieldType.exists_of_message_same {a : Schema} {u : FieldType}
    (h : (FieldType.message a).same u = true) : ∃ b, u = .message b ∧ a.same b = true := by
  cases u <;> simp_all [FieldType.same]

theorem Field.same_iff {f g : Field} :
    f.same g = true ↔ f.name = g.name ∧ f.type.same g.type = true ∧
      Value.sameDefault f.default g.default = true ∧ f.doc = g.doc := by
  obtain ⟨name, type, default, doc⟩ := f
  simp only [Field.same, Bool.and_eq_true, beq_iff_eq, and_assoc]

theorem Schema.same_iff {a b : Schema} :
    a.same b = true ↔ a.name = b.name ∧ a.doc = b.doc ∧ a.fields.length = b.fields.length ∧
      ∀ f ∈ a.fields, ∃ g, (b.fields.find? fun g => g.name = f.name) = some g ∧ f.same g = true := by
  obtain ⟨name, doc, fields⟩ := a
  simp only [Schema.same, Bool.and_eq_true, beq_iff_eq, Schema.fieldsSame_iff, and_assoc]

/-- Equal types are named alike in the reports. -/
theorem FieldType.text_eq_of_same {t u : FieldType} (h : t.same u = true) : t.text = u.text := by
  induction t using FieldType.induction generalizing u with
  | scalar s => rw [FieldType.eq_of_scalar_same h]
  | list element ih =>
    obtain ⟨other, rfl, hsame⟩ := FieldType.exists_of_list_same h
    rw [FieldType.text, FieldType.text, ih hsame]
  | optional inner ih =>
    obtain ⟨other, rfl, hsame⟩ := FieldType.exists_of_optional_same h
    rw [FieldType.text, FieldType.text, ih hsame]
  | message a _ =>
    obtain ⟨b, rfl, hsame⟩ := FieldType.exists_of_message_same h
    rw [FieldType.text, FieldType.text, (Schema.same_iff.mp hsame).1]

theorem FieldType.isNullable_eq_of_same {t u : FieldType} (h : t.same u = true) :
    t.isNullable = u.isNullable := by
  cases t <;> cases u <;> simp_all [FieldType.same, FieldType.isNullable]

/-! ## Equal fields -/

/-- Equal values, each of its own type. -/
structure FieldType.Equals (t u : FieldType) (v w : Value) : Prop where
  left : t.Conforms v
  right : u.Conforms w
  same : v.same w = true

/-- **Fields that are twins.** Where nothing stands in for the one, nothing
stands in for the other. -/
structure Field.Twins (f g : Field) : Prop where
  name : f.name = g.name
  left : f.type.Built
  right : g.type.Built
  type : f.type.same g.type = true
  default : (f.effectiveDefault = none ∧ g.effectiveDefault = none) ∨
    ∃ d e, f.effectiveDefault = some d ∧ g.effectiveDefault = some e ∧ f.type.Equals g.type d e

/-- What stands in for twins is equal. -/
theorem Field.Twins.same_of_default {f g : Field} (h : f.Twins g) {d e : Value}
    (hd : f.effectiveDefault = some d) (he : g.effectiveDefault = some e) :
    f.type.Equals g.type d e := by
  obtain ⟨hnone, -⟩ | ⟨d', e', hd', he', hequals⟩ := h.default
  · rw [hnone] at hd
    cases hd
  · obtain rfl := Option.some.inj (hd'.symm.trans hd)
    obtain rfl := Option.some.inj (he'.symm.trans he)
    exact hequals

/-- Equal fields of built schemas are twins. -/
theorem Field.twins_of_same {a b : Schema} (ha : a.Built) (hb : b.Built) {f g : Field}
    (hf : f ∈ a.fields) (hg : g ∈ b.fields) (h : f.same g = true) : f.Twins g := by
  obtain ⟨hname, htype, hdefault, -⟩ := Field.same_iff.mp h
  refine ⟨hname, ha.fieldType hf, hb.fieldType hg, htype, ?_⟩
  have hequals : ∀ d e, f.effectiveDefault = some d → g.effectiveDefault = some e →
      d.same e = true → f.type.Equals g.type d e :=
    fun d e hd he hsame =>
      ⟨ha.conforms_effectiveDefault hf hd, hb.conforms_effectiveDefault hg he, hsame⟩
  have hnullable := FieldType.isNullable_eq_of_same htype
  unfold Field.effectiveDefault at hequals ⊢
  cases hd : f.default <;> cases he : g.default <;> rw [hd, he] at hdefault
  · -- nothing is declared: null stands in for both, or nothing does
    rw [hd, he, ← hnullable] at hequals
    simp only [← hnullable]
    cases hnull : f.type.isNullable with
    | false => exact .inl ⟨rfl, rfl⟩
    | true =>
      rw [hnull] at hequals
      exact .inr ⟨_, _, rfl, rfl, hequals _ _ rfl rfl (by simp [Value.same])⟩
  · cases hdefault
  · cases hdefault
  · rw [hd, he] at hequals
    exact .inr ⟨_, _, rfl, rfl, hequals _ _ rfl rfl hdefault⟩

/-! ## Equal schemas -/

/-- **Each field has a twin in the other schema**, and these are all its
fields. -/
structure Schema.Twins (a b : Schema) (twin : Field → Field) : Prop where
  name : a.name = b.name
  distinct : b.fieldNames.Nodup
  perm : (a.fields.map twin).Perm b.fields
  fields : ∀ f ∈ a.fields, f.Twins (twin f)

theorem Schema.Twins.mem {a b : Schema} {twin : Field → Field} (h : a.Twins b twin) {f : Field}
    (hf : f ∈ a.fields) : twin f ∈ b.fields :=
  h.perm.mem_iff.mp (List.mem_map_of_mem hf)

theorem Schema.Twins.length_eq {a b : Schema} {twin : Field → Field} (h : a.Twins b twin) :
    a.fields.length = b.fields.length := by
  rw [← h.perm.length_eq, List.length_map]

/-- **Equal built schemas have twins.** -/
theorem Schema.Built.exists_twins {a b : Schema} (ha : a.Built) (hb : b.Built)
    (h : a.same b = true) : ∃ twin, a.Twins b twin := by
  obtain ⟨hname, -, hlength, hfields⟩ := Schema.same_iff.mp h
  choose! twin htwin using hfields
  have hmem : ∀ f ∈ a.fields, twin f ∈ b.fields :=
    fun f hf => List.mem_of_find?_eq_some (htwin f hf).1
  have hnames : (a.fields.map twin).map Field.name = a.fieldNames := by
    rw [List.map_map]
    exact List.map_congr_left fun f hf => (Field.same_iff.mp (htwin f hf).2).1.symm
  have hnodup : (a.fields.map twin).Nodup :=
    List.Pairwise.of_map Field.name (fun _ _ hne heq => hne (congrArg _ heq))
      (hnames ▸ ha.fieldNames_nodup)
  have hsub : a.fields.map twin ⊆ b.fields := by
    intro g hg
    obtain ⟨f, hf, rfl⟩ := List.mem_map.mp hg
    exact hmem f hf
  -- distinct fields of the other schema, and as many as it has
  have hperm : (a.fields.map twin).Perm b.fields := by
    refine (hnodup.subperm hsub).perm_of_length_le (Nat.le_of_eq ?_)
    rw [List.length_map, hlength]
  exact ⟨twin, hname, hb.fieldNames_nodup, hperm,
    fun f hf => Field.twins_of_same ha hb hf (hmem f hf) (htwin f hf).2⟩

/-- **Induction over two equal types of built schemas**: nested schemas have
twins, and the types of twins satisfy the property already. -/
@[elab_as_elim]
theorem FieldType.Built.twinInduction
    {P : ∀ t u : FieldType, t.Built → u.Built → t.same u = true → Prop}
    (scalar : ∀ s h, P (.scalar s) (.scalar s) (.scalar s) (.scalar s) h)
    (list : ∀ element other (ht : element.Built) (hu : other.Built)
      (hsame : element.same other = true) h, P element other ht hu hsame →
      P (.list element) (.list other) (.list ht) (.list hu) h)
    (optional : ∀ inner other (ht : inner.Built) (hu : other.Built)
      (hsame : inner.same other = true) h, P inner other ht hu hsame →
      P (.optional inner) (.optional other) (.optional ht) (.optional hu) h)
    (message : ∀ a b twin (ha : a.Built) (hb : b.Built) (htwins : Schema.Twins a b twin) h,
      (∀ f (hf : f ∈ a.fields), P f.type (twin f).type (htwins.fields f hf).left
        (htwins.fields f hf).right (htwins.fields f hf).type) →
      P (.message a) (.message b) (.message ha) (.message hb) h)
    {t u : FieldType} (ht : t.Built) (hu : u.Built) (h : t.same u = true) : P t u ht hu h := by
  induction ht using FieldType.Built.induction generalizing u with
  | scalar s =>
    obtain rfl := FieldType.eq_of_scalar_same h
    exact scalar s h
  | list element ht ih =>
    obtain ⟨other, rfl, hsame⟩ := FieldType.exists_of_list_same h
    cases hu with
    | list hu => exact list element other ht hu hsame h (ih hu hsame)
  | optional inner ht ih =>
    obtain ⟨other, rfl, hsame⟩ := FieldType.exists_of_optional_same h
    cases hu with
    | optional hu => exact optional inner other ht hu hsame h (ih hu hsame)
  | message a ha ih =>
    obtain ⟨b, rfl, hsame⟩ := FieldType.exists_of_message_same h
    cases hu with
    | message hb =>
      obtain ⟨twin, htwins⟩ := ha.exists_twins hb hsame
      refine message a b twin ha hb htwins h fun f hf => ?_
      exact ih f hf (htwins.fields f hf).right (htwins.fields f hf).type

end ServiceContracts
