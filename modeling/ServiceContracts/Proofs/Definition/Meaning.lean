import ServiceContracts.Proofs.Definition.Resolving
/-!
# What documents say

The plain reading of a declaration has no table of what has been built
and no list of names on the way: at every reference the definition of the
name is looked up and expanded again. What it ends with is what the name
stands for (`Expands.of_expandTo`). Types that refer to themselves would
never end, so it only goes down to a depth; a name that stands for a
schema needs no more than there are types (`Expands.expandTo_eq`), and
that is how deep `expand` goes.

With it the services of a document can be described one by one
(`ServiceDefinition.Describes`), each operation with the schemas that its
references expand to.
-/


namespace ServiceContracts.Definition

/-! ## Plain expansion -/

/-- The type of a property, where `refer` gives the schemas of names. -/
def Property.plainType (refer : String → Option Schema) : Property → Option FieldType
  | ⟨kinds, items, reference, description, default, nullable⟩ =>
    let p : Property := ⟨kinds, items, reference, description, default, nullable⟩
    if p.listsUnion then none
    else
      match reference with
      | some reference => do
        let name ← typeName? reference
        let schema ← refer name
        return p.admitting (.message schema)
      | none =>
        match p.kind? with
        | none => none
        | some kind =>
          match scalarOf? kind with
          | some s => some (p.admitting (.scalar s))
          | none =>
            if kind = "array" then
              match items with
              | some items => do
                let element ← items.plainType refer
                return p.admitting (.list element)
              | none => none
            else none

/-- The field of a property, given its type. -/
def Property.fieldOf? (required : List String) (name : String) (p : Property) (base : FieldType) :
    Option Field :=
  match p.default with
  | none => some ⟨name, if name ∈ required then base else base.orNull, none, p.description⟩
  | some raw =>
    match base.read raw with
    | .ok v => some ⟨name, base, some v, p.description⟩
    | .error _ => none

/-- The schema of a type definition. -/
def TypeDefinition.plainSchema (refer : String → Option Schema) (name : String)
    (d : TypeDefinition) : Option Schema :=
  if d.required.all fun r => Entries.has d.properties r then do
    let fields ← d.properties.mapM fun e => do
      let base ← e.2.plainType refer
      e.2.fieldOf? d.required e.1 base
    (Schema.build name d.description fields).toOption
  else none

/-- **The schema of a name**, built from its definition with every reference
expanded on its own, down to a depth. -/
def expandTo (decls : Declarations) : Nat → String → Option Schema
  | 0, _ => none
  | depth + 1, name => do
    let d ← Entries.get? decls name
    d.plainSchema (expandTo decls depth) name

/-- The schema of a name, down to as many references as there are types. -/
def expand (decls : Declarations) (name : String) : Option Schema :=
  expandTo decls decls.length name

/-! ## One definition -/

section Definition

variable {refer : String → Option Schema}

/-- The type of a property, by its parts. -/
theorem Property.plainType_eq (p : Property) :
    p.plainType refer = (
      if p.listsUnion then none
      else
        match p.reference with
        | some reference => do
          let name ← typeName? reference
          let schema ← refer name
          return p.admitting (.message schema)
        | none =>
          match p.kind? with
          | none => none
          | some kind =>
            match scalarOf? kind with
            | some s => some (p.admitting (.scalar s))
            | none =>
              if kind = "array" then
                match p.items with
                | some items => do
                  let element ← items.plainType refer
                  return p.admitting (.list element)
                | none => none
              else none) := by
  obtain ⟨kinds, items, reference, description, default, nullable⟩ := p
  rw [plainType.eq_def]

theorem Property.hasType_of_plainType {p : Property} {t : FieldType}
    (h : p.plainType refer = some t) : p.HasType (fun ref s => refer ref = some s) t := by
  induction p using Property.induction generalizing t with
  | step p ih =>
    rw [plainType_eq] at h
    split at h
    · cases h
    rename_i hunion
    rw [Bool.not_eq_true] at hunion
    split at h
    · rename_i reference hreference
      obtain ⟨name, hname, h⟩ := Option.bind_eq_some_iff.mp h
      obtain ⟨schema, hschema, h⟩ := Option.bind_eq_some_iff.mp h
      exact Option.some.inj h ▸ .reference hunion hreference hname hschema
    · rename_i hreference
      split at h
      · cases h
      rename_i kind hkind
      split at h
      · rename_i s hscalar
        exact Option.some.inj h ▸ .scalar hunion hreference hkind hscalar
      · split at h
        · rename_i harray
          subst harray
          split at h
          · rename_i items hitems
            obtain ⟨element, helement, h⟩ := Option.bind_eq_some_iff.mp h
            have hitem := ih items hitems helement
            exact Option.some.inj h ▸ .array hunion hreference hkind hitems hitem
          · cases h
        · cases h

theorem Property.plainType_of_hasType {p : Property} {t : FieldType}
    (h : p.HasType (fun ref s => refer ref = some s) t) : p.plainType refer = some t := by
  induction h with
  | reference hunion hreference hname hknown =>
    rw [plainType_eq, hunion, hreference]
    simp [hname, hknown]
  | scalar hunion hreference hkind hscalar =>
    rw [plainType_eq, hunion, hreference]
    simp [hkind, hscalar]
  | array hunion hreference hkind hitems _ ih =>
    rw [plainType_eq, hunion, hreference]
    simp [hkind, scalarOf?, hitems, ih]

theorem Property.hasField_iff {known : String → Schema → Prop} {required : List String}
    {name : String} {p : Property} {f : Field} :
    p.HasField known required name f ↔
      ∃ base, p.HasType known base ∧ p.fieldOf? required name base = some f := by
  unfold fieldOf?
  constructor
  · intro h
    cases h with
    | plain htype hdefault => exact ⟨_, htype, by rw [hdefault]⟩
    | withDefault htype hdefault hread => exact ⟨_, htype, by simp only [hdefault, hread]⟩
  · rintro ⟨base, htype, hf⟩
    cases hdefault : p.default with
    | none =>
      simp only [hdefault, Option.some.injEq] at hf
      exact hf ▸ .plain htype hdefault
    | some raw =>
      simp only [hdefault] at hf
      cases hread : base.read raw with
      | error errors => simp [hread] at hf
      | ok v =>
        simp only [hread, Option.some.injEq] at hf
        exact hf ▸ .withDefault htype hdefault hread

theorem mapM_eq_some_iff {α β : Type} {f : α → Option β} {as : List α} {bs : List β} :
    as.mapM f = some bs ↔ List.Forall₂ (fun a b => f a = some b) as bs := by
  induction as generalizing bs with
  | nil => simp [eq_comm]
  | cons a rest ih =>
    rw [List.mapM_cons]
    constructor
    · intro h
      obtain ⟨b, hb, h⟩ := Option.bind_eq_some_iff.mp h
      obtain ⟨others, hothers, h⟩ := Option.bind_eq_some_iff.mp h
      obtain rfl := Option.some.inj h
      exact .cons hb (ih.mp hothers)
    · intro h
      cases h with
      | cons hb hothers => simp [hb, ih.mpr hothers]

/-- **A definition is given the schema that it has.** -/
theorem TypeDefinition.plainSchema_eq_some_iff {name : String} {d : TypeDefinition}
    {schema : Schema} :
    d.plainSchema refer name = some schema ↔
      d.HasSchema (fun ref s => refer ref = some s) name schema := by
  have hfield : ∀ (e : String × Property) (f : Field),
      ((e.2.plainType refer).bind fun base => e.2.fieldOf? d.required e.1 base) = some f ↔
        e.2.HasField (fun ref s => refer ref = some s) d.required e.1 f := by
    intro e f
    rw [Option.bind_eq_some_iff, Property.hasField_iff]
    exact exists_congr fun base => and_congr_left fun _ =>
      ⟨Property.hasType_of_plainType, Property.plainType_of_hasType⟩
  have hall : (d.required.all fun r => Entries.has d.properties r) = true ↔
      ∀ r ∈ d.required, r ∈ Entries.keys d.properties := by
    simp only [List.all_eq_true, Entries.has_iff]
  have hfields : ∀ fields, (d.properties.mapM fun e => do
      let base ← e.2.plainType refer
      e.2.fieldOf? d.required e.1 base) = some fields ↔ List.Forall₂ (fun e f =>
        Property.HasField (fun ref s => refer ref = some s) d.required e.1 e.2 f)
        d.properties fields := by
    intro fields
    rw [mapM_eq_some_iff]
    simp only [bind, hfield]
  have hbuild : ∀ fields, (Schema.build name d.description fields).toOption = some schema ↔
      Schema.build name d.description fields = .ok schema := by
    intro fields
    cases Schema.build name d.description fields <;> simp [Except.toOption]
  unfold plainSchema
  constructor
  · intro h
    split at h
    · rename_i hrequired
      obtain ⟨fields, hf, hb⟩ := Option.bind_eq_some_iff.mp h
      exact ⟨hall.mp hrequired, fields, (hfields fields).mp hf, (hbuild fields).mp hb⟩
    · cases h
  · rintro ⟨hrequired, fields, hf, hb⟩
    rw [if_pos (hall.mpr hrequired)]
    exact Option.bind_eq_some_iff.mpr ⟨fields, (hfields fields).mpr hf, (hbuild fields).mpr hb⟩

end Definition

/-! ## Down to a depth -/

section Depth

variable {decls : Declarations} {depth : Nat} {name : String} {schema : Schema}

theorem expandTo_succ_eq_some_iff :
    expandTo decls (depth + 1) name = some schema ↔
      ∃ d, Entries.get? decls name = some d ∧
        d.HasSchema (fun ref s => expandTo decls depth ref = some s) name schema := by
  simp only [← TypeDefinition.plainSchema_eq_some_iff]
  exact Option.bind_eq_some_iff

/-- **The plain reading ends with what a name stands for**, or with
nothing. -/
theorem Expands.of_expandTo (h : expandTo decls depth name = some schema) :
    Expands decls name schema := by
  induction depth generalizing name schema with
  | zero => cases h
  | succ depth ih =>
    obtain ⟨d, hdecl, hschema⟩ := expandTo_succ_eq_some_iff.mp h
    exact .intro (fun ref s => ih) hdecl hschema

/-- A type of a property rests on what its target stands for. -/
theorem Property.HasType.of_target {known more : String → Schema → Prop} {p : Property}
    {t : FieldType} (h : p.HasType known t)
    (hmore : ∀ ref s, p.target? = some ref → known ref s → more ref s) : p.HasType more t := by
  induction h with
  | reference hunion hreference hname hknown =>
    refine .reference hunion hreference hname (hmore _ _ ?_ hknown)
    rw [target?, dependence?_of_reference hreference, Option.bind_some, hname]
  | scalar hunion hreference hkind hscalar => exact .scalar hunion hreference hkind hscalar
  | array hunion hreference hkind hitems _ ih =>
    refine .array hunion hreference hkind hitems (ih fun ref s htarget => hmore ref s ?_)
    rw [target?, dependence?_of_items hreference hkind hitems]
    exact htarget

/-- So a definition with a schema has it by way of its targets. -/
theorem TypeDefinition.HasSchema.of_targets {known more : String → Schema → Prop}
    {d : TypeDefinition} (h : d.HasSchema known name schema)
    (hmore : ∀ e ∈ d.properties, ∀ ref s, Property.target? e.2 = some ref → known ref s →
      more ref s) : d.HasSchema more name schema := by
  obtain ⟨hrequired, fields, hfields, hbuild⟩ := h
  refine ⟨hrequired, fields, ?_, hbuild⟩
  have hmem : List.Forall₂ (fun e f => e ∈ d.properties ∧
      Property.HasField known d.required e.1 e.2 f) d.properties fields :=
    (List.forall₂_and_left _ _).mpr ⟨fun _ he => he, hfields⟩
  refine hmem.imp fun e f ⟨he, hf⟩ => ?_
  obtain ⟨base, hbase, hfield⟩ := Property.hasField_iff.mp hf
  exact Property.hasField_iff.mpr ⟨base, hbase.of_target (hmore e he), hfield⟩

/-- A name that stands for a schema is not on the way to itself, and leaves
fewer names that are not. -/
theorem Expands.unvisited_lt {way : List String} (h : Expands decls name schema)
    (hway : Leads decls way name) : unvisited decls (way ++ [name]) < unvisited decls way := by
  obtain ⟨d, hdecl, -⟩ := Expands.iff_hasSchema.mp h
  exact unvisited_append_lt (fun hmem => h.not_cyclic (hway name hmem)) hdecl

/-- **And what a name stands for is found**, from any way that leads to it, in
as much depth as there are names not on the way. -/
theorem Expands.expandTo_of_leads {way : List String} (h : Expands decls name schema)
    (hway : Leads decls way name) (hdepth : unvisited decls way ≤ depth) :
    expandTo decls depth name = some schema := by
  induction depth generalizing way name schema with
  | zero =>
    have hless := h.unvisited_lt hway
    omega
  | succ depth ih =>
    have hless := h.unvisited_lt hway
    obtain ⟨d, hdecl, hschema⟩ := Expands.iff_hasSchema.mp h
    refine expandTo_succ_eq_some_iff.mpr ⟨d, hdecl, hschema.of_targets ?_⟩
    intro e he ref s htarget hs
    exact ih hs (hway.snoc ⟨d, hdecl, e, he, htarget⟩) (by omega)

/-- **No type needs more depth than there are types.** -/
theorem Expands.expandTo_eq (h : Expands decls name schema) (hdepth : decls.length ≤ depth) :
    expandTo decls depth name = some schema := by
  have hunvisited : unvisited decls [] ≤ decls.length := List.countP_le_length
  exact h.expandTo_of_leads (.nil name) (Nat.le_trans hunvisited hdepth)

theorem Expands.expand_eq (h : Expands decls name schema) : expand decls name = some schema :=
  h.expandTo_eq (Nat.le_refl _)

/-- So more depth finds nothing more. -/
theorem expandTo_eq_expand (hdepth : decls.length ≤ depth) :
    expandTo decls depth name = expand decls name := by
  have hiff : ∀ schema, expandTo decls depth name = some schema ↔ expand decls name = some schema :=
    fun schema => ⟨fun h => (Expands.of_expandTo h).expand_eq,
      fun h => (Expands.of_expandTo h).expandTo_eq hdepth⟩
  exact Option.ext hiff

end Depth

/-! ## Services -/

/-- A side of an operation: the schema its reference expands to, or none
without a reference. -/
def Side.Describes (decls : Declarations) (side : Option String) (schema : Option Schema) : Prop :=
  Option.Rel (fun reference s => ∃ name, typeName? reference = some name ∧
    expand decls name = some s) side schema

/-- **An operation as its definition says.** -/
structure OperationDefinition.Describes (decls : Declarations) (d : OperationDefinition)
    (op : Operation) : Prop where
  code : op.code = d.identifier
  wire : op.wire = d.wireName
  input : Side.Describes decls d.input op.input
  output : Side.Describes decls d.output op.output
  doc : op.doc = docOr d.description ("Operation for " ++ d.wireName ++ ".")

/-- **A service as its definition says**: its operations are those of the
definition, in order. -/
structure ServiceDefinition.Describes (decls : Declarations) (d : ServiceDefinition) (s : Service) :
    Prop where
  name : s.name = d.serviceName
  doc : s.doc = docOr d.description ("Service for " ++ d.serviceName ++ ".")
  operations : List.Forall₂ (OperationDefinition.Describes decls) d.operations s.operations

end ServiceContracts.Definition
