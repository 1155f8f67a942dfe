import ServiceContracts.Definition.Resolution
import ServiceContracts.Proofs.Schema.Built
import Mathlib.Data.List.Forall2
import Mathlib.Logic.Relation
/-!
# What a declared type stands for

Declarations refer to each other by name, and a declared type stands for
the schema that is left when every reference has been replaced by the
schema it leads to. `Expands` says so without an order of work: the
schema of a name is built from fields whose types use schemas of the
names referred to, and so on down.

Such a derivation is finite, so a type that is referred to from its own
references stands for nothing (`Expands.not_cyclic`). And it never has a
choice, so a type stands for one schema at most (`Expands.unique`).
-/


namespace ServiceContracts.Definition

/-! ## The type of a property -/

namespace Property

/-- The type with null added where the property allows it. -/
def admitting (p : Property) (inner : FieldType) : FieldType :=
  if p.allowsNull then inner.orNull else inner

/-- Several kinds besides null are listed. -/
def listsUnion (p : Property) : Bool := p.kinds.any Kinds.isUnion

/-- The first kind besides null that is listed. -/
def kind? (p : Property) : Option String := p.kinds.bind Kinds.kind?

/-- The reference that a property's type depends on: its own, or, for an
array without one, that of its items. -/
def dependence? : Property → Option String
  | ⟨kinds, items, reference, _, _, _⟩ =>
    match reference with
    | some reference => some reference
    | none =>
      if kinds.bind Kinds.kind? = some "array" then
        match items with
        | some items => items.dependence?
        | none => none
      else none

/-- The declared type that a property refers to. -/
def target? (p : Property) : Option String := p.dependence?.bind typeName?

/-- **The type of a property**, where `known` gives the schemas of names. A
reference takes precedence over kinds. -/
inductive HasType (known : String → Schema → Prop) : Property → FieldType → Prop
  | reference {p : Property} {reference name : String} {schema : Schema}
      (hunion : p.listsUnion = false) (hreference : p.reference = some reference)
      (hname : typeName? reference = some name) (hknown : known name schema) :
      HasType known p (p.admitting (.message schema))
  | scalar {p : Property} {kind : String} {s : Scalar}
      (hunion : p.listsUnion = false) (hreference : p.reference = none)
      (hkind : p.kind? = some kind) (hscalar : scalarOf? kind = some s) :
      HasType known p (p.admitting (.scalar s))
  | array {p items : Property} {element : FieldType}
      (hunion : p.listsUnion = false) (hreference : p.reference = none)
      (hkind : p.kind? = some "array") (hitems : p.items = some items)
      (helement : HasType known items element) : HasType known p (p.admitting (.list element))

/-- **The field of a property**: a default is read strictly against its
type, and without one a property that is not required may be null. -/
inductive HasField (known : String → Schema → Prop) (required : List String) (name : String)
    (p : Property) : Field → Prop
  | plain {base : FieldType} (htype : p.HasType known base) (hdefault : p.default = none) :
      HasField known required name p
        ⟨name, if name ∈ required then base else base.orNull, none, p.description⟩
  | withDefault {base : FieldType} {raw : Json} {v : Value} (htype : p.HasType known base)
      (hdefault : p.default = some raw) (hread : base.read raw = .ok v) :
      HasField known required name p ⟨name, base, some v, p.description⟩

end Property

/-- **The schema of a type definition**: what its required names ask for is
there, and its fields can be built. -/
structure TypeDefinition.HasSchema (known : String → Schema → Prop) (name : String)
    (d : TypeDefinition) (schema : Schema) : Prop where
  required : ∀ r ∈ d.required, r ∈ Entries.keys d.properties
  fields : ∃ fields, List.Forall₂ (fun e f => Property.HasField known d.required e.1 e.2 f)
    d.properties fields ∧ Schema.build name d.description fields = .ok schema

/-- **A declared name stands for a schema**, whose references stand for
theirs. -/
inductive Expands (decls : Declarations) : String → Schema → Prop
  | intro {name : String} {d : TypeDefinition} {schema : Schema} {known : String → Schema → Prop}
      (hknown : ∀ ref s, known ref s → Expands decls ref s)
      (hdecl : Entries.get? decls name = some d) (hschema : d.HasSchema known name schema) :
      Expands decls name schema

/-- A declared type refers to another through one of its properties. -/
def Refers (decls : Declarations) (name ref : String) : Prop :=
  ∃ d, Entries.get? decls name = some d ∧ ∃ e ∈ d.properties, Property.target? e.2 = some ref

/-- It refers to the types that its properties depend on. -/
theorem Refers.of_dependence {decls : Declarations} {name ref reference : String}
    {d : TypeDefinition} (hdecl : Entries.get? decls name = some d) {e : String × Property}
    (he : e ∈ d.properties) (hdepends : Property.dependence? e.2 = some reference)
    (href : typeName? reference = some ref) : Refers decls name ref :=
  ⟨d, hdecl, e, he, by rw [Property.target?, hdepends, Option.bind_some, href]⟩

/-! ## Induction over properties -/

/-- **Induction over a property**, with the hypothesis for its items. -/
@[elab_as_elim]
theorem Property.induction {P : Property → Prop}
    (step : ∀ p : Property, (∀ items, p.items = some items → P items) → P p) : ∀ p, P p
  | ⟨_, none, _, _, _, _⟩ => step _ nofun
  | ⟨_, some items, _, _, _, _⟩ =>
    step _ fun _ h => Option.some.inj h ▸ Property.induction step items

/-! ## The type of a property, by its shape -/

namespace Property

variable {known : String → Schema → Prop} {p : Property} {t : FieldType}

theorem HasType.listsUnion_eq (h : p.HasType known t) : p.listsUnion = false := by
  cases h <;> assumption

/-- By its reference. -/
theorem hasType_reference_iff (hunion : p.listsUnion = false) {reference : String}
    (hreference : p.reference = some reference) :
    p.HasType known t ↔ ∃ schema, (∃ name, typeName? reference = some name ∧ known name schema) ∧
      t = p.admitting (.message schema) := by
  constructor
  · intro h
    cases h with
    | reference _ hreference' hname hknown =>
      obtain rfl := Option.some.inj (hreference.symm.trans hreference')
      exact ⟨_, ⟨_, hname, hknown⟩, rfl⟩
    | scalar _ hnone => simp [hreference] at hnone
    | array _ hnone => simp [hreference] at hnone
  · rintro ⟨schema, ⟨name, hname, hknown⟩, rfl⟩
    exact .reference hunion hreference hname hknown

section Kind

variable (hunion : p.listsUnion = false) (hreference : p.reference = none)

include hreference

/-- Without a reference, a kind has to be listed. -/
theorem HasType.exists_kind (h : p.HasType known t) : ∃ kind, p.kind? = some kind ∧
    ((∃ s, scalarOf? kind = some s) ∨ kind = "array" ∧ ∃ items, p.items = some items) := by
  cases h with
  | reference _ hsome => simp [hreference] at hsome
  | scalar _ _ hkind hscalar => exact ⟨_, hkind, .inl ⟨_, hscalar⟩⟩
  | array _ _ hkind hitems => exact ⟨_, hkind, .inr ⟨rfl, _, hitems⟩⟩

include hunion

/-- By its kind, if that is scalar. -/
theorem hasType_scalar_iff {kind : String} (hkind : p.kind? = some kind) {s : Scalar}
    (hscalar : scalarOf? kind = some s) :
    p.HasType known t ↔ t = p.admitting (.scalar s) := by
  constructor
  · intro h
    cases h with
    | reference _ hsome => simp [hreference] at hsome
    | scalar _ _ hkind' hscalar' =>
      obtain rfl := Option.some.inj (hkind.symm.trans hkind')
      rw [Option.some.inj (hscalar.symm.trans hscalar')]
    | array _ _ hkind' =>
      obtain rfl := Option.some.inj (hkind.symm.trans hkind')
      simp [scalarOf?] at hscalar
  · rintro rfl
    exact .scalar hunion hreference hkind hscalar

/-- By its items, for an array. -/
theorem hasType_array_iff (hkind : p.kind? = some "array") {items : Property}
    (hitems : p.items = some items) :
    p.HasType known t ↔ ∃ element, items.HasType known element ∧
      t = p.admitting (.list element) := by
  constructor
  · intro h
    cases h with
    | reference _ hsome => simp [hreference] at hsome
    | scalar _ _ hkind' hscalar =>
      obtain rfl := Option.some.inj (hkind.symm.trans hkind')
      simp [scalarOf?] at hscalar
    | array _ _ _ hitems' helement =>
      obtain rfl := Option.some.inj (hitems.symm.trans hitems')
      exact ⟨_, helement, rfl⟩
  · rintro ⟨element, helement, rfl⟩
    exact .array hunion hreference hkind hitems helement

end Kind

end Property

/-! ## More known, and known at once -/

section Known

variable {known more : String → Schema → Prop}

theorem Property.HasType.mono (hmore : ∀ ref s, known ref s → more ref s) {p : Property}
    {t : FieldType} (h : p.HasType known t) : p.HasType more t := by
  induction h with
  | reference hunion hreference hname hknown =>
    exact .reference hunion hreference hname (hmore _ _ hknown)
  | scalar hunion hreference hkind hscalar => exact .scalar hunion hreference hkind hscalar
  | array hunion hreference hkind hitems _ ih => exact .array hunion hreference hkind hitems ih

theorem Property.HasField.mono (hmore : ∀ ref s, known ref s → more ref s)
    {required : List String} {name : String} {p : Property} {f : Field}
    (h : p.HasField known required name f) : p.HasField more required name f := by
  cases h with
  | plain htype hdefault => exact .plain (htype.mono hmore) hdefault
  | withDefault htype hdefault hread => exact .withDefault (htype.mono hmore) hdefault hread

theorem TypeDefinition.HasSchema.mono (hmore : ∀ ref s, known ref s → more ref s) {name : String}
    {d : TypeDefinition} {schema : Schema} (h : d.HasSchema known name schema) :
    d.HasSchema more name schema := by
  obtain ⟨hrequired, fields, hfields, hbuild⟩ := h
  exact ⟨hrequired, fields, hfields.imp fun _ _ hf => hf.mono hmore, hbuild⟩

variable (hsame : ∀ ref s s', known ref s → more ref s' → s = s')

include hsame

theorem Property.HasType.unique {p : Property} {t t' : FieldType} (h : p.HasType known t)
    (h' : p.HasType more t') : t = t' := by
  induction h generalizing t' with
  | reference hunion hreference hname hknown =>
    obtain ⟨schema', ⟨name', hname', hknown'⟩, rfl⟩ :=
      (hasType_reference_iff hunion hreference).mp h'
    obtain rfl := Option.some.inj (hname.symm.trans hname')
    rw [hsame _ _ _ hknown hknown']
  | scalar hunion hreference hkind hscalar =>
    exact ((hasType_scalar_iff hunion hreference hkind hscalar).mp h').symm
  | array hunion hreference hkind hitems _ ih =>
    obtain ⟨element', helement', rfl⟩ := (hasType_array_iff hunion hreference hkind hitems).mp h'
    rw [ih helement']

theorem Property.HasField.unique {required : List String} {name : String} {p : Property}
    {f f' : Field} (h : p.HasField known required name f) (h' : p.HasField more required name f') :
    f = f' := by
  cases h with
  | plain htype hdefault =>
    cases h' with
    | plain htype' => rw [htype.unique hsame htype']
    | withDefault _ hdefault' => simp [hdefault] at hdefault'
  | withDefault htype hdefault hread =>
    cases h' with
    | plain _ hdefault' => simp [hdefault] at hdefault'
    | withDefault htype' hdefault' hread' =>
      obtain rfl := htype.unique hsame htype'
      obtain rfl := Option.some.inj (hdefault.symm.trans hdefault')
      rw [Except.ok.inj (hread.symm.trans hread')]

theorem Property.fields_unique {required : List String} {properties : List (String × Property)}
    {fields fields' : List Field}
    (h : List.Forall₂ (fun e f => Property.HasField known required e.1 e.2 f) properties fields)
    (h' : List.Forall₂ (fun e f => Property.HasField more required e.1 e.2 f) properties fields') :
    fields = fields' := by
  induction h generalizing fields' with
  | nil =>
    cases h'
    rfl
  | cons hf _ ih =>
    cases h' with
    | cons hf' hrest' => rw [hf.unique hsame hf', ih hrest']

theorem TypeDefinition.HasSchema.unique {name : String} {d : TypeDefinition}
    {schema schema' : Schema} (h : d.HasSchema known name schema)
    (h' : d.HasSchema more name schema') : schema = schema' := by
  obtain ⟨-, fields, hfields, hbuild⟩ := h
  obtain ⟨-, fields', hfields', hbuild'⟩ := h'
  obtain rfl := Property.fields_unique hsame hfields hfields'
  exact Except.ok.inj (hbuild.symm.trans hbuild')

end Known

/-! ## What a type depends on -/

section Targets

variable {known : String → Schema → Prop}

theorem Property.dependence?_of_reference {p : Property} {reference : String}
    (h : p.reference = some reference) : p.dependence? = some reference := by
  obtain ⟨kinds, items, _, description, default, nullable⟩ := p
  subst h
  rfl

theorem Property.dependence?_of_items {p items : Property} (h : p.reference = none)
    (hkind : p.kind? = some "array") (hitems : p.items = some items) :
    p.dependence? = items.dependence? := by
  obtain ⟨kinds, _, _, description, default, nullable⟩ := p
  subst h hitems
  exact if_pos hkind

theorem Property.dependence?_of_kind {p : Property} {kind : String} (h : p.reference = none)
    (hkind : p.kind? = some kind) (harray : kind ≠ "array") : p.dependence? = none := by
  obtain ⟨kinds, items, _, description, default, nullable⟩ := p
  subst h
  have hkinds : kinds.bind Kinds.kind? ≠ some "array" := by
    intro hkinds
    exact harray (Option.some.inj (hkind.symm.trans hkinds))
  cases items <;> exact if_neg hkinds

/-- A property with a type has it by way of its target. -/
theorem Property.HasType.exists_known {p : Property} {t : FieldType} (h : p.HasType known t)
    {ref : String} (href : p.target? = some ref) : ∃ schema, known ref schema := by
  induction h with
  | reference _ hreference hname hknown =>
    rw [target?, dependence?_of_reference hreference, Option.bind_some, hname] at href
    exact ⟨_, Option.some.inj href ▸ hknown⟩
  | @scalar _ kind _ _ hreference hkind hscalar =>
    -- a scalar has no target, its items notwithstanding
    have harray : kind ≠ "array" := by
      rintro rfl
      simp [scalarOf?] at hscalar
    rw [target?, dependence?_of_kind hreference hkind harray] at href
    cases href
  | array _ hreference hkind hitems _ ih =>
    rw [target?, dependence?_of_items hreference hkind hitems] at href
    exact ih href

theorem Property.HasField.exists_type {required : List String} {name : String} {p : Property}
    {f : Field} (h : p.HasField known required name f) : ∃ t, p.HasType known t := by
  cases h with
  | plain htype => exact ⟨_, htype⟩
  | withDefault htype => exact ⟨_, htype⟩

/-- Every property of a type that has a schema has a type itself. -/
theorem TypeDefinition.HasSchema.exists_type {name : String} {d : TypeDefinition}
    {schema : Schema} (h : d.HasSchema known name schema) {e : String × Property}
    (he : e ∈ d.properties) : ∃ t, e.2.HasType known t := by
  obtain ⟨-, fields, hfields, -⟩ := h
  obtain ⟨f, -, hf⟩ := exists_of_forall₂_left hfields he
  exact hf.exists_type

theorem Property.admitting_built {p : Property} {inner : FieldType} (h : inner.Built) :
    (p.admitting inner).Built := by
  unfold admitting
  split
  · exact h.orNull
  · exact h

/-- Over built schemas, properties have built types. -/
theorem Property.HasType.built (hknown : ∀ ref s, known ref s → s.Built) {p : Property}
    {t : FieldType} (h : p.HasType known t) : t.Built := by
  induction h with
  | reference _ _ _ hschema => exact admitting_built (.message (hknown _ _ hschema))
  | scalar => exact admitting_built (.scalar _)
  | array _ _ _ _ _ ih => exact admitting_built (.list ih)

theorem Property.HasField.built (hknown : ∀ ref s, known ref s → s.Built) {required : List String}
    {name : String} {p : Property} {f : Field} (h : p.HasField known required name f) :
    f.type.Built := by
  cases h with
  | withDefault htype => exact htype.built hknown
  | plain htype =>
    have hbase := htype.built hknown
    dsimp only
    split
    · exact hbase
    · exact hbase.orNull

end Targets

/-! ## Expansion -/

namespace Expands

variable {decls : Declarations} {name : String} {schema schema' : Schema}

/-- **The equation of expansion.** -/
theorem iff_hasSchema :
    Expands decls name schema ↔
      ∃ d, Entries.get? decls name = some d ∧ d.HasSchema (Expands decls) name schema := by
  constructor
  · rintro ⟨hknown, hdecl, hschema⟩
    exact ⟨_, hdecl, hschema.mono hknown⟩
  · rintro ⟨d, hdecl, hschema⟩
    exact .intro (fun _ _ h => h) hdecl hschema

theorem declared (h : Expands decls name schema) : name ∈ Entries.keys decls := by
  obtain ⟨d, hdecl, -⟩ := iff_hasSchema.mp h
  exact List.mem_map_of_mem (Entries.mem_of_get?_eq_some hdecl)

/-- **A name stands for one schema at most.** -/
theorem unique (h : Expands decls name schema) (h' : Expands decls name schema') :
    schema = schema' := by
  induction h generalizing schema' with
  | intro _ hdecl hschema ih =>
    obtain ⟨d', hdecl', hschema'⟩ := iff_hasSchema.mp h'
    obtain rfl := Option.some.inj (hdecl.symm.trans hdecl')
    exact hschema.unique (fun ref s s' hs hs' => ih ref s hs hs') hschema'

/-- The references of a name that stands for a schema end somewhere. -/
theorem acc (h : Expands decls name schema) : Acc (fun ref name => Refers decls name ref) name := by
  induction h with
  | intro _ hdecl hschema ih =>
    refine Acc.intro _ fun ref href => ?_
    obtain ⟨d', hdecl', e, he, htarget⟩ := href
    obtain rfl := Option.some.inj (hdecl.symm.trans hdecl')
    obtain ⟨t, ht⟩ := hschema.exists_type he
    obtain ⟨s, hs⟩ := ht.exists_known htarget
    exact ih ref s hs

/-- **So it does not lead back to itself.** -/
theorem not_cyclic (h : Expands decls name schema) :
    ¬ Relation.TransGen (Refers decls) name name := by
  intro hcycle
  have hacc : Acc (Relation.TransGen fun ref name => Refers decls name ref) name := h.acc.transGen
  have hback : Relation.TransGen (fun ref name => Refers decls name ref) name name :=
    Relation.transGen_swap.mpr hcycle
  -- a name that is below itself would be below itself again
  clear h hcycle
  induction hacc with
  | intro name _ ih => exact ih name hback hback

/-- What a name stands for has been built, and so has all inside it. -/
theorem built (h : Expands decls name schema) : schema.Built := by
  induction h with
  | intro _ _ hschema ih =>
    obtain ⟨-, fields, hfields, hbuild⟩ := hschema
    refine .build (fun f hf => ?_) hbuild
    obtain ⟨e, -, hef⟩ := exists_of_forall₂_right hfields hf
    exact hef.built ih

end Expands

/-- Where references stand for what they expand to, a property has one type
at most. -/
theorem Property.HasType.eq {decls : Declarations} {p : Property} {t t' : FieldType}
    (h : p.HasType (Expands decls) t) (h' : p.HasType (Expands decls) t') : t = t' :=
  h.unique (fun _ _ _ hs hs' => hs.unique hs') h'

end ServiceContracts.Definition
