import ServiceContracts.Schema.Build
import Mathlib.Data.List.Forall2
/-!
# Schemas that can be built

Everything the library does with messages starts from a schema that
`Schema.build` returned, and the schemas nested in it were returned
before it. `Schema.Built` is that class, and this file says what
membership gives: names that are there and do not repeat, types over
built schemas, and defaults that a strict reading has produced.

Types are a tree through their schemas' fields. `FieldType.induction` is
the induction over it, so no later proof has to walk the fields by hand.
-/


namespace ServiceContracts

/-! ## Induction over types -/

section Induction

variable {P : FieldType → Prop}

mutual

/-- **Induction over a type**, with one hypothesis for each field of a
nested schema. -/
@[elab_as_elim]
theorem FieldType.induction (scalar : ∀ s, P (.scalar s))
    (list : ∀ element, P element → P (.list element))
    (optional : ∀ inner, P inner → P (.optional inner))
    (message : ∀ schema : Schema, (∀ f ∈ schema.fields, P f.type) → P (.message schema)) :
    ∀ t, P t
  | .scalar s => scalar s
  | .list element => list element (FieldType.induction scalar list optional message element)
  | .optional inner => optional inner (FieldType.induction scalar list optional message inner)
  | .message ⟨name, doc, fields⟩ =>
    message ⟨name, doc, fields⟩ (FieldType.inductionFields scalar list optional message fields)

/-- The same for the types of a list of fields. -/
theorem FieldType.inductionFields (scalar : ∀ s, P (.scalar s))
    (list : ∀ element, P element → P (.list element))
    (optional : ∀ inner, P inner → P (.optional inner))
    (message : ∀ schema : Schema, (∀ f ∈ schema.fields, P f.type) → P (.message schema)) :
    ∀ fields : List Field, ∀ f ∈ fields, P f.type
  | [], _, hf => absurd hf (by simp)
  | ⟨name, type, default, doc⟩ :: rest, f, hf => by
    rcases List.mem_cons.mp hf with rfl | hf
    · exact FieldType.induction scalar list optional message type
    · exact FieldType.inductionFields scalar list optional message rest f hf

end

end Induction

/-! ## The class -/

mutual

/-- The types over schemas that have been built. -/
inductive FieldType.Built : FieldType → Prop
  | scalar (s : Scalar) : FieldType.Built (.scalar s)
  | list {element : FieldType} (h : FieldType.Built element) : FieldType.Built (.list element)
  | optional {inner : FieldType} (h : FieldType.Built inner) : FieldType.Built (.optional inner)
  | message {schema : Schema} (h : Schema.Built schema) : FieldType.Built (.message schema)

/-- The schemas that building returns, for fields over schemas that it
returned before. -/
inductive Schema.Built : Schema → Prop
  | build {name doc : String} {fields : List Field} {schema : Schema}
      (htypes : ∀ f ∈ fields, FieldType.Built f.type)
      (h : Schema.build name doc fields = .ok schema) : Schema.Built schema

end

theorem FieldType.Built.orNull {t : FieldType} (h : t.Built) : t.orNull.Built := by
  unfold FieldType.orNull
  split
  · exact h
  · exact .optional h

/-! ## Lists of results -/

/-- Where every item has its result, each result comes from an item. -/
theorem exists_of_map_eq_map_ok {α β ε : Type} {f : α → Except ε β} {xs : List α} {ys : List β}
    (h : xs.map f = ys.map .ok) {y : β} (hy : y ∈ ys) : ∃ x ∈ xs, f x = .ok y := by
  have hmem : Except.ok y ∈ xs.map f := h ▸ List.mem_map_of_mem hy
  exact List.mem_map.mp hmem

/-- What the results share with their items, their lists share. -/
theorem map_eq_of_map_eq_map_ok {α β γ ε : Type} {f : α → Except ε β} {xs : List α} {ys : List β}
    {k : α → γ} {l : β → γ} (h : xs.map f = ys.map .ok)
    (hkl : ∀ x y, f x = .ok y → l y = k x) : ys.map l = xs.map k := by
  induction xs generalizing ys with
  | nil => simp_all
  | cons x rest ih =>
    cases ys with
    | nil => simp at h
    | cons y others =>
      obtain ⟨hx, hrest⟩ : f x = .ok y ∧ rest.map f = others.map .ok := by simpa using h
      rw [List.map_cons, List.map_cons, hkl x y hx, ih hrest]

/-! ## Lists item by item -/

section Lists

variable {α β : Type} {R : α → β → Prop} {as : List α} {bs : List β}

/-- What is related item by item has a counterpart for each item. -/
theorem exists_of_forall₂_left (h : List.Forall₂ R as bs) {a : α} (ha : a ∈ as) :
    ∃ b ∈ bs, R a b := by
  induction h with
  | nil => cases ha
  | cons hab _ ih =>
    rcases List.mem_cons.mp ha with rfl | ha
    · exact ⟨_, List.mem_cons_self, hab⟩
    · obtain ⟨b, hb, hab⟩ := ih ha
      exact ⟨b, List.mem_cons_of_mem _ hb, hab⟩

/-- On either side. -/
theorem exists_of_forall₂_right (h : List.Forall₂ R as bs) {b : β} (hb : b ∈ bs) :
    ∃ a ∈ as, R a b :=
  exists_of_forall₂_left h.flip hb

/-- Where each item has a counterpart, the list has one. -/
theorem exists_forall₂ (h : ∀ a ∈ as, ∃ b, R a b) : ∃ bs, List.Forall₂ R as bs := by
  induction as with
  | nil => exact ⟨[], .nil⟩
  | cons a rest ih =>
    obtain ⟨b, hb⟩ := h a List.mem_cons_self
    obtain ⟨bs, hbs⟩ := ih fun a' ha' => h a' (List.mem_cons_of_mem a ha')
    exact ⟨b :: bs, .cons hb hbs⟩

theorem map_eq_of_forall₂ {γ : Type} {f : α → γ} {g : β → γ} (h : List.Forall₂ R as bs)
    (hfg : ∀ a b, R a b → g b = f a) : bs.map g = as.map f := by
  induction h with
  | nil => rfl
  | cons hab _ ih => rw [List.map_cons, List.map_cons, hfg _ _ hab, ih]

/-- Among keys that do not repeat each finds its own item. -/
theorem find?_key_eq_some [DecidableEq β] {key : α → β} (hnodup : (as.map key).Nodup) {a : α}
    (ha : a ∈ as) : (as.find? fun b => key b = key a) = some a := by
  induction as with
  | nil => cases ha
  | cons first rest ih =>
    obtain ⟨hnew, hnodup⟩ : key first ∉ rest.map key ∧ _ := List.nodup_cons.mp hnodup
    rcases List.mem_cons.mp ha with rfl | ha
    · simp
    · have hother : key first ≠ key a := fun heq => hnew (heq ▸ List.mem_map_of_mem ha)
      rw [List.find?_cons_of_neg (by simpa using hother), ih hnodup ha]

end Lists

/-! ## What building checks -/

/-- Normalizing a field touches its default only. -/
theorem Field.normalize_eq_ok_iff {f g : Field} :
    f.normalize = .ok g ↔
      (f.default = none ∧ g = f) ∨
        ∃ v normal, f.default = some v ∧ normalDefault f.type v = .ok normal ∧
          g = { f with default := some normal } := by
  unfold Field.normalize
  cases hd : f.default with
  | none => simp [eq_comm]
  | some v =>
    cases hn : normalDefault f.type v with
    | error offenses => simp [Checked.under, hn]
    | ok normal => simp [Checked.under, hn, eq_comm]

/-- **The check of the fields succeeds** exactly when their names are
there, repeat neither each other nor the names before, and each default
normalizes. -/
theorem Schema.checkFields_eq_ok_iff {taken : List String} {fields checked : List Field} :
    checkFields taken fields = .ok checked ↔
      (∀ f ∈ fields, Text.isBlank f.name = false ∧ f.name ∉ taken) ∧
        (fields.map Field.name).Nodup ∧ fields.map Field.normalize = checked.map .ok := by
  -- what is taken grows by each field, so the induction is for every list of names
  induction fields generalizing taken checked with
  | nil => cases checked <;> simp [checkFields]
  | cons f rest ih =>
    rw [checkFields]
    by_cases hblank : Text.isBlank f.name = true
    · simp [hblank]
    by_cases htaken : f.name ∈ taken
    · simp [hblank, htaken]
    rw [if_neg hblank, if_neg htaken]
    have hstep : (do
          let field ← f.normalize
          let fields ← checkFields (f.name :: taken) rest
          return field :: fields) = Except.ok checked ↔
        ∃ g others, f.normalize = .ok g ∧ checkFields (f.name :: taken) rest = .ok others ∧
          checked = g :: others := by
      cases f.normalize with
      | error fault => simp [bind, Except.bind]
      | ok g =>
        cases checkFields (f.name :: taken) rest <;>
          simp [bind, Except.bind, pure, Except.pure, eq_comm]
    rw [hstep]
    simp only [ih, List.mem_cons, not_or, List.map_cons, List.nodup_cons, List.mem_map]
    constructor
    · rintro ⟨g, others, hg, ⟨hnames, hnodup, hothers⟩, rfl⟩
      refine ⟨?_, ⟨?_, hnodup⟩, by simp [hg, hothers]⟩
      · rintro f' (rfl | hf')
        · exact ⟨by simpa using hblank, htaken⟩
        · exact ⟨(hnames f' hf').1, (hnames f' hf').2.2⟩
      · -- the rest was checked with this name taken
        rintro ⟨f', hf', heq⟩
        exact (hnames f' hf').2.1 heq
    · rintro ⟨hnames, ⟨hnew, hnodup⟩, hchecked⟩
      cases checked with
      | nil => simp at hchecked
      | cons g others =>
        obtain ⟨hg, hothers⟩ : f.normalize = .ok g ∧ rest.map Field.normalize = others.map .ok := by
          simpa using hchecked
        refine ⟨g, others, hg, ⟨fun f' hf' => ?_, hnodup, hothers⟩, rfl⟩
        exact ⟨(hnames f' (.inr hf')).1, fun heq => hnew ⟨f', hf', heq⟩,
          (hnames f' (.inr hf')).2⟩

/-- **Building succeeds** exactly when all names are there and distinct and
every default normalizes; the fields keep their order. -/
theorem Schema.build_eq_ok_iff {name doc : String} {fields : List Field} {schema : Schema} :
    Schema.build name doc fields = .ok schema ↔
      Text.isBlank name = false ∧ (∀ f ∈ fields, Text.isBlank f.name = false) ∧
        (fields.map Field.name).Nodup ∧
        ∃ checked, fields.map Field.normalize = checked.map .ok ∧ schema = ⟨name, doc, checked⟩ := by
  unfold Schema.build
  by_cases hblank : Text.isBlank name = true
  · simp [hblank]
  rw [if_neg hblank]
  have hname : Text.isBlank name = false := by simpa using hblank
  cases hc : checkFields [] fields with
  | error fault =>
    have hnone : ∀ checked, checkFields [] fields ≠ .ok checked := by simp [hc]
    simp only [ne_eq, checkFields_eq_ok_iff, List.not_mem_nil, not_false_eq_true, and_true] at hnone
    constructor
    · simp
    · rintro ⟨-, hnames, hnodup, checked, hchecked, -⟩
      exact absurd ⟨hnames, hnodup, hchecked⟩ (hnone checked)
  | ok checked =>
    obtain ⟨hnames, hnodup, hchecked⟩ := checkFields_eq_ok_iff.mp hc
    constructor
    · rintro ⟨⟩
      exact ⟨hname, fun f hf => (hnames f hf).1, hnodup, checked, hchecked, rfl⟩
    · rintro ⟨-, -, -, checked', hchecked', rfl⟩
      have : checked = checked' :=
        (List.map_inj_right fun _ _ h => Except.ok.inj h).mp (hchecked.symm.trans hchecked')
      rw [this]

/-! ## What the class gives -/

theorem Field.normalize_name {f g : Field} (h : f.normalize = .ok g) : g.name = f.name := by
  obtain ⟨-, rfl⟩ | ⟨v, normal, -, -, rfl⟩ := Field.normalize_eq_ok_iff.mp h <;> rfl

theorem Field.normalize_type {f g : Field} (h : f.normalize = .ok g) : g.type = f.type := by
  obtain ⟨-, rfl⟩ | ⟨v, normal, -, -, rfl⟩ := Field.normalize_eq_ok_iff.mp h <;> rfl

/-- A normalized default has been read, strictly, against the field's
type. -/
theorem Field.normalize_default {f g : Field} (h : f.normalize = .ok g) {v : Value}
    (hv : g.default = some v) : ∃ json, g.type.decode true json = .ok v := by
  obtain ⟨hnone, rfl⟩ | ⟨raw, normal, -, hnormal, rfl⟩ := Field.normalize_eq_ok_iff.mp h
  · rw [hnone] at hv; cases hv
  · obtain rfl : normal = v := Option.some.inj hv
    unfold Field.normalDefault at hnormal
    cases hjson : f.type.encode false raw with
    | error offenses => rw [hjson] at hnormal; cases hnormal
    | ok json => rw [hjson] at hnormal; exact ⟨json, hnormal⟩

namespace Schema.Built

variable {schema : Schema}

/-- Where a built schema comes from. -/
theorem exists_fields (h : schema.Built) :
    ∃ fields : List Field, (∀ f ∈ fields, f.type.Built) ∧ Text.isBlank schema.name = false ∧
      (∀ f ∈ fields, Text.isBlank f.name = false) ∧ (fields.map Field.name).Nodup ∧
      fields.map Field.normalize = schema.fields.map .ok := by
  obtain ⟨htypes, hbuild⟩ := h
  obtain ⟨hname, hnames, hnodup, checked, hchecked, rfl⟩ := Schema.build_eq_ok_iff.mp hbuild
  exact ⟨_, htypes, hname, hnames, hnodup, hchecked⟩

/-- The name of a built schema is there. -/
theorem name_visible (h : schema.Built) : Text.isBlank schema.name = false := by
  obtain ⟨fields, -, hname, -⟩ := h.exists_fields
  exact hname

/-- Its field names do not repeat. -/
theorem fieldNames_nodup (h : schema.Built) : schema.fieldNames.Nodup := by
  obtain ⟨fields, -, -, -, hnodup, hchecked⟩ := h.exists_fields
  rw [fieldNames, map_eq_of_map_eq_map_ok hchecked fun _ _ => Field.normalize_name]
  exact hnodup

variable {f : Field}

/-- And are there. -/
theorem fieldName_visible (h : schema.Built) (hf : f ∈ schema.fields) :
    Text.isBlank f.name = false := by
  obtain ⟨fields, -, -, hnames, -, hchecked⟩ := h.exists_fields
  obtain ⟨raw, hraw, hnormal⟩ := exists_of_map_eq_map_ok hchecked hf
  rw [Field.normalize_name hnormal]
  exact hnames raw hraw

/-- Its fields have types over built schemas. -/
theorem fieldType (h : schema.Built) (hf : f ∈ schema.fields) : f.type.Built := by
  obtain ⟨fields, htypes, -, -, -, hchecked⟩ := h.exists_fields
  obtain ⟨raw, hraw, hnormal⟩ := exists_of_map_eq_map_ok hchecked hf
  rw [Field.normalize_type hnormal]
  exact htypes raw hraw

/-- **Every default of a built schema has been read**, strictly, against
its field's type. -/
theorem default_read (h : schema.Built) (hf : f ∈ schema.fields) {v : Value}
    (hv : f.default = some v) : ∃ json, f.type.decode true json = .ok v := by
  obtain ⟨fields, -, -, -, -, hchecked⟩ := h.exists_fields
  obtain ⟨raw, hraw, hnormal⟩ := exists_of_map_eq_map_ok hchecked hf
  exact Field.normalize_default hnormal hv

end Schema.Built

/-! ## A sample

A route is a list of stops, some of them null, and maybe a note. A stop
waits for no time unless it says so. -/

namespace Sample

/-- A stop on a route. -/
def stop : Schema :=
  ⟨"Stop", "", [⟨"name", .scalar .string, none, ""⟩,
    ⟨"wait", .scalar .number, some (.number (.finite .zero)), ""⟩]⟩

/-- A route, by its stops. -/
def route : Schema :=
  ⟨"Route", "", [⟨"stops", .list (.optional (.message stop)), none, ""⟩,
    ⟨"note", .optional (.scalar .string), none, ""⟩]⟩

/-- The stops of a route, with a member that a lenient reading ignores and
a wait of minus zero, which the compact form leaves out. -/
def delft : Json :=
  .object [("stops", .array [.object [("wait", .number (.double Binary64.Finite.zero.neg)),
    ("name", .string "Delft")], .null]), ("extra", .boolean true)]

theorem stop_built : stop.Built := by
  have htypes : ∀ f ∈ stop.fields, f.type.Built := by
    simp only [stop, List.forall_mem_cons]
    exact ⟨.scalar .string, .scalar .number, nofun⟩
  exact Schema.Built.build htypes (rfl : Schema.build "Stop" "" stop.fields = .ok stop)

theorem route_built : route.Built := by
  have htypes : ∀ f ∈ route.fields, f.type.Built := by
    simp only [route, List.forall_mem_cons]
    exact ⟨.list (.optional (.message stop_built)), .optional (.scalar .string), nofun⟩
  exact Schema.Built.build htypes (rfl : Schema.build "Route" "" route.fields = .ok route)

end Sample

/-! ## Induction over types of the class -/

/-- **Induction over the types of built schemas**: a nested schema is built,
and its fields' types satisfy the property already. -/
@[elab_as_elim]
theorem FieldType.Built.induction {P : ∀ t : FieldType, t.Built → Prop}
    (scalar : ∀ s, P (.scalar s) (.scalar s))
    (list : ∀ element (h : element.Built), P element h → P (.list element) (.list h))
    (optional : ∀ inner (h : inner.Built), P inner h → P (.optional inner) (.optional h))
    (message : ∀ (schema : Schema) (h : schema.Built),
      (∀ f (hf : f ∈ schema.fields), P f.type (h.fieldType hf)) → P (.message schema) (.message h))
    {t : FieldType} (h : t.Built) : P t h := by
  induction t using FieldType.induction with
  | scalar s => exact scalar s
  | list element ih => cases h with | list h => exact list element h (ih h)
  | optional inner ih => cases h with | optional h => exact optional inner h (ih h)
  | message schema ih =>
    cases h with
    | message h => exact message schema h fun f hf => ih f hf (h.fieldType hf)

end ServiceContracts
