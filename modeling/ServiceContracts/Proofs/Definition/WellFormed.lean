import ServiceContracts.Proofs.Definition.Resolving
import ServiceContracts.Proofs.Schema.RoundTrip
/-!
# Well-formed types

Whether every declared type stands for a schema can be said without
expanding any: names are there, required names are declared, properties
are well shaped, no type refers to itself through others, and defaults
are values of their properties' types (`TypesWellFormed`).

One direction reads the conditions off the expansions. The other builds
the expansions, from the types that refer to nothing upwards: the way to
a type never repeats a name, and so leaves fewer and fewer unvisited,
which is also why the resolver ends.
-/


namespace ServiceContracts.Definition

/-- **A well-shaped property** lists one kind besides null at most, and is a
reference to a declared type, a scalar, or an array of well-shaped
items. -/
inductive Property.WellShaped (decls : Declarations) : Property → Prop
  | reference {p : Property} {reference name : String} (hunion : p.listsUnion = false)
      (hreference : p.reference = some reference) (hname : typeName? reference = some name)
      (hdecl : name ∈ Entries.keys decls) : WellShaped decls p
  | scalar {p : Property} {kind : String} (hunion : p.listsUnion = false)
      (hreference : p.reference = none) (hkind : p.kind? = some kind)
      (hscalar : kind ∈ ["string", "integer", "number", "boolean"]) : WellShaped decls p
  | array {p items : Property} (hunion : p.listsUnion = false) (hreference : p.reference = none)
      (hkind : p.kind? = some "array") (hitems : p.items = some items)
      (h : WellShaped decls items) : WellShaped decls p

/-- **Well-formed types.** A default is read strictly, as its property's
type. -/
structure TypesWellFormed (decls : Declarations) : Prop where
  named : ∀ name d, Entries.get? decls name = some d →
    Text.isBlank name = false ∧ ∀ key ∈ Entries.keys d.properties, Text.isBlank key = false
  required : ∀ name d, Entries.get? decls name = some d →
    ∀ r ∈ d.required, r ∈ Entries.keys d.properties
  shaped : ∀ name d, Entries.get? decls name = some d →
    ∀ e ∈ d.properties, Property.WellShaped decls e.2
  acyclic : ∀ name, ¬ Relation.TransGen (Refers decls) name name
  defaults : ∀ name d, Entries.get? decls name = some d → ∀ e ∈ d.properties,
    ∀ raw, e.2.default = some raw → ∀ t, Property.HasType (Expands decls) e.2 t →
      ∃ v, t.read raw = .ok v

variable {decls : Declarations}

/-! ## From the expansions -/

theorem scalarOf?_isSome_iff {kind : String} :
    (∃ s, scalarOf? kind = some s) ↔ kind ∈ ["string", "integer", "number", "boolean"] := by
  constructor
  · rintro ⟨s, hs⟩
    unfold scalarOf? at hs
    split at hs <;> simp_all
  · intro h
    simp only [List.mem_cons, List.not_mem_nil, or_false] at h
    rcases h with rfl | rfl | rfl | rfl
    · exact ⟨.string, rfl⟩
    · exact ⟨.integer, rfl⟩
    · exact ⟨.number, rfl⟩
    · exact ⟨.boolean, rfl⟩

theorem Property.HasType.wellShaped {p : Property} {t : FieldType}
    (h : p.HasType (Expands decls) t) : p.WellShaped decls := by
  induction h with
  | reference hunion hreference hname hknown =>
    exact .reference hunion hreference hname hknown.declared
  | scalar hunion hreference hkind hscalar =>
    exact .scalar hunion hreference hkind (scalarOf?_isSome_iff.mp ⟨_, hscalar⟩)
  | array hunion hreference hkind hitems _ ih => exact .array hunion hreference hkind hitems ih

theorem Property.HasField.name_eq {known : String → Schema → Prop} {required : List String}
    {name : String} {p : Property} {f : Field} (h : p.HasField known required name f) :
    f.name = name := by
  cases h <;> rfl

theorem Property.HasField.exists_read {required : List String} {name : String} {p : Property}
    {f : Field} (h : p.HasField (Expands decls) required name f) {raw : Json}
    (hdefault : p.default = some raw) {t : FieldType} (ht : p.HasType (Expands decls) t) :
    ∃ v, t.read raw = .ok v := by
  cases h with
  | plain _ hdefault' => simp [hdefault] at hdefault'
  | withDefault hbase hdefault' hread =>
    obtain rfl := Option.some.inj (hdefault.symm.trans hdefault')
    obtain rfl := ht.eq hbase
    exact ⟨_, hread⟩

theorem Refers.declared {name ref : String} (h : Refers decls name ref) :
    name ∈ Entries.keys decls := by
  obtain ⟨d, hdecl, -⟩ := h
  exact List.mem_map_of_mem (Entries.mem_of_get?_eq_some hdecl)

/-- **Types that all stand for schemas are well formed.** -/
theorem TypesWellFormed.of_expands
    (h : ∀ name ∈ Entries.keys decls, ∃ schema, Expands decls name schema) :
    TypesWellFormed decls := by
  have hschema : ∀ name d, Entries.get? decls name = some d →
      ∃ schema, d.HasSchema (Expands decls) name schema := by
    intro name d hdecl
    obtain ⟨schema, hexpands⟩ := h name (List.mem_map_of_mem (Entries.mem_of_get?_eq_some hdecl))
    obtain ⟨d', hdecl', hschema⟩ := Expands.iff_hasSchema.mp hexpands
    obtain rfl := Option.some.inj (hdecl.symm.trans hdecl')
    exact ⟨schema, hschema⟩
  refine ⟨fun name d hdecl => ?_, fun name d hdecl => ?_, fun name d hdecl e he => ?_,
    fun name hcycle => ?_, fun name d hdecl e he raw hdefault t ht => ?_⟩
  · obtain ⟨schema, -, fields, hfields, hbuild⟩ := hschema name d hdecl
    obtain ⟨hname, hnames, -⟩ := Schema.build_eq_ok_iff.mp hbuild
    refine ⟨hname, fun key hkey => ?_⟩
    obtain ⟨e, he, rfl⟩ := List.mem_map.mp hkey
    obtain ⟨f, hf, hef⟩ := exists_of_forall₂_left hfields he
    exact hef.name_eq ▸ hnames f hf
  · obtain ⟨schema, hschema⟩ := hschema name d hdecl
    exact hschema.required
  · obtain ⟨schema, hschema⟩ := hschema name d hdecl
    obtain ⟨t, ht⟩ := hschema.exists_type he
    exact ht.wellShaped
  · -- a name on a cycle refers to something, so it is declared
    obtain ⟨ref, href, -⟩ := Relation.TransGen.head'_iff.mp hcycle
    obtain ⟨schema, hexpands⟩ := h name href.declared
    exact hexpands.not_cyclic hcycle
  · obtain ⟨schema, -, fields, hfields, -⟩ := hschema name d hdecl
    obtain ⟨f, -, hef⟩ := exists_of_forall₂_left hfields he
    exact hef.exists_read hdefault ht

/-! ## To the expansions -/

/-- A well-shaped property has a type where its target stands for a
schema. -/
theorem Property.WellShaped.exists_type {known : String → Schema → Prop} {p : Property}
    (h : p.WellShaped decls)
    (htarget : ∀ ref ∈ Entries.keys decls, p.target? = some ref → ∃ schema, known ref schema) :
    ∃ t, p.HasType known t := by
  induction h with
  | reference hunion hreference hname hdecl =>
    obtain ⟨schema, hschema⟩ := htarget _ hdecl
      (by rw [target?, dependence?_of_reference hreference, Option.bind_some, hname])
    exact ⟨_, .reference hunion hreference hname hschema⟩
  | scalar hunion hreference hkind hscalar =>
    obtain ⟨s, hs⟩ := scalarOf?_isSome_iff.mpr hscalar
    exact ⟨_, .scalar hunion hreference hkind hs⟩
  | array hunion hreference hkind hitems _ ih =>
    obtain ⟨element, helement⟩ := ih fun ref hdecl htarget' => htarget ref hdecl
      (by rw [target?, dependence?_of_items hreference hkind hitems]; exact htarget')
    exact ⟨_, .array hunion hreference hkind hitems helement⟩

/-- With a type and a default that fits it, a property has a field. -/
theorem Property.exists_field {known : String → Schema → Prop} {required : List String}
    {name : String} {p : Property} {t : FieldType} (ht : p.HasType known t)
    (hdefault : ∀ raw, p.default = some raw → ∃ v, t.read raw = .ok v) :
    ∃ f, p.HasField known required name f := by
  cases hd : p.default with
  | none => exact ⟨_, .plain ht hd⟩
  | some raw =>
    obtain ⟨v, hv⟩ := hdefault raw hd
    exact ⟨_, .withDefault ht hd hv⟩

/-- The field of a property is as building keeps it. -/
theorem Property.HasField.normalize_eq {known : String → Schema → Prop}
    (hknown : ∀ ref s, known ref s → s.Built) {required : List String} {name : String}
    {p : Property} {f : Field} (h : p.HasField known required name f) : f.normalize = .ok f := by
  refine Field.normalize_eq_ok_iff.mpr ?_
  cases h with
  | plain => exact .inl ⟨rfl, rfl⟩
  | withDefault hbase _ hread =>
    have hnormal := (hbase.built hknown).normalDefault_eq (FieldType.read_eq_ok_iff.mp hread)
    exact .inr ⟨_, _, rfl, hnormal, rfl⟩

/-- A field for each property makes a schema, if its names are distinct. -/
theorem TypeDefinition.exists_schema {known : String → Schema → Prop}
    (hknown : ∀ ref s, known ref s → s.Built) {name : String} {d : TypeDefinition}
    (hname : Text.isBlank name = false)
    (hkeys : ∀ key ∈ Entries.keys d.properties, Text.isBlank key = false)
    (hnodup : (Entries.keys d.properties).Nodup)
    (hrequired : ∀ r ∈ d.required, r ∈ Entries.keys d.properties)
    (hfields : ∀ e ∈ d.properties, ∃ f, Property.HasField known d.required e.1 e.2 f) :
    ∃ schema, d.HasSchema known name schema := by
  obtain ⟨fields, hfields⟩ := exists_forall₂ hfields
  have hnames : fields.map Field.name = Entries.keys d.properties :=
    map_eq_of_forall₂ hfields fun _ _ => Property.HasField.name_eq
  refine ⟨⟨name, d.description, fields⟩, hrequired, fields, hfields, ?_⟩
  refine Schema.build_eq_ok_iff.mpr ⟨hname, fun f hf => ?_, hnames ▸ hnodup, fields, ?_, rfl⟩
  · exact hkeys _ (hnames ▸ List.mem_map_of_mem hf)
  · refine List.map_congr_left fun f hf => ?_
    obtain ⟨e, -, hef⟩ := exists_of_forall₂_right hfields hf
    exact hef.normalize_eq hknown

namespace TypesWellFormed

variable (h : TypesWellFormed decls)
  (hkeys : ∀ name d, Entries.get? decls name = some d → (Entries.keys d.properties).Nodup)

include h hkeys

/-- A type at the end of a way stands for a schema. -/
theorem exists_expands {way : List String} {name : String} (hway : Leads decls way name)
    (hdecl : name ∈ Entries.keys decls) : ∃ schema, Expands decls name schema := by
  -- along references the way grows, and what it has not visited gets less
  induction hn : unvisited decls way using Nat.strongRecOn generalizing way name with
  | ind n ih =>
    obtain ⟨d, hd⟩ : ∃ d, Entries.get? decls name = some d := by
      rw [← Option.isSome_iff_exists, ← Entries.has, Entries.has_iff]
      exact hdecl
    have hnew : name ∉ way := by
      intro hmem
      exact h.acyclic name (hway name hmem)
    have hrefs : ∀ e ∈ d.properties, ∀ ref ∈ Entries.keys decls,
        Property.target? e.2 = some ref → ∃ schema, Expands decls ref schema := by
      intro e he ref href htarget
      have hless := unvisited_append_lt hnew hd
      exact ih _ (hn ▸ hless) (hway.snoc ⟨d, hd, e, he, htarget⟩) href rfl
    obtain ⟨hname, hnames⟩ := h.named name d hd
    obtain ⟨schema, hschema⟩ := TypeDefinition.exists_schema (fun _ _ => Expands.built) hname hnames
      (hkeys name d hd) (h.required name d hd) fun e he => by
        obtain ⟨t, ht⟩ := (h.shaped name d hd e he).exists_type (hrefs e he)
        exact Property.exists_field ht fun raw hraw => h.defaults name d hd e he raw hraw t ht
    exact ⟨schema, Expands.iff_hasSchema.mpr ⟨d, hd, hschema⟩⟩

end TypesWellFormed

/-- **Well-formed types are those that all stand for schemas.** -/
theorem typesWellFormed_iff
    (hkeys : ∀ name d, Entries.get? decls name = some d → (Entries.keys d.properties).Nodup) :
    TypesWellFormed decls ↔
      ∀ name ∈ Entries.keys decls, ∃ schema, Expands decls name schema :=
  ⟨fun h name hdecl => h.exists_expands hkeys (.nil name) hdecl, .of_expands⟩

end ServiceContracts.Definition
