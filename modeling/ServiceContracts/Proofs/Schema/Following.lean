import ServiceContracts.Proofs.Schema.Offenses
import ServiceContracts.Proofs.Schema.Places
/-!
# Following a place

A payload is read, and an instance is written, along its own parts. So a
place can be followed from the root, through the type and through the data
at once, and `Subject.Faulty` says what is wrong where it ends: the type
there refuses what is there, or a field is missing, or is one that nobody
declared.

Both directions go the same way through types. `Subject` is what they
differ in: payloads are JSON values, and instances are values.
-/


namespace ServiceContracts

/-! ## Following a place -/

/-- The schema of the messages of a type, looking through null. -/
def FieldType.message? : FieldType → Option Schema
  | .message schema => some schema
  | .optional inner => inner.message?
  | _ => none

/-- The type of what a step leads to, looking through null. -/
def FieldType.part? : FieldType → Step → Option FieldType
  | .list element, .index _ => some element
  | .message schema, .field name => (schema.field? name).map Field.type
  | .optional inner, step => inner.part? step
  | _, _ => none

/-- The type at a place. -/
def FieldType.at? (t : FieldType) (place : Place) : Option FieldType :=
  place.foldlM FieldType.part? t

/-- The part of a JSON value that a step leads to. -/
def Json.part? : Json → Step → Option Json
  | .array items, .index i => items[i]?
  | .object members, .field name => Entries.get? members name
  | _, _ => none

/-- The part of a value that a step leads to. -/
def Value.part? : Value → Step → Option Value
  | .list items, .index i => items[i]?
  | .message m, .field name => m.get? name
  | _, _ => none

/-- What is checked against types: its parts, what of it is a message of a
schema, what a type refuses it for as it stands, and whether fields that no
schema declares are wrong. -/
structure Subject (α : Type) where
  part? : α → Step → Option α
  IsMessage : Schema → α → Prop
  Refuses : FieldType → α → Reason → Prop
  closed : Bool

/-- Payloads, as they are read. -/
def Subject.payload (strict : Bool) : Subject Json where
  part? := Json.part?
  IsMessage _ v := ∃ members, v = .object members
  Refuses t v reason := t.decode strict v = Checked.refuse reason
  closed := strict

/-- Values, as they are written. -/
def Subject.held : Subject Value where
  part? := Value.part?
  IsMessage schema v := ∃ m, v = .message m ∧ m.schema = schema.name
  Refuses t v reason := t.encode false v = Checked.refuse reason
  closed := true

/-- Some message of the type declares a field of the name, at any depth. -/
def FieldType.Declares (t : FieldType) (name : String) : Prop :=
  ∃ place schema, (t.at? place).bind FieldType.message? = some schema ∧ name ∈ schema.fieldNames

variable {α : Type} {subject : Subject α} {t t' : FieldType} {v v' : α} {step : Step}
  {place : Place} {reason : Reason}

namespace Subject

/-- What a place leads to. -/
def at? (subject : Subject α) (v : α) (place : Place) : Option α := place.foldlM subject.part? v

/-- A field of the name is somewhere in the data, at any depth. -/
def HasKey (subject : Subject α) (v : α) (name : String) : Prop :=
  ∃ place part, subject.at? v (place ++ [.field name]) = some part

/-- **What is wrong at a place**, found by following it: the type there
refuses what is there, or the place leads to a message and goes on to a
field that it lacks, or to one that it has and its schema does not. -/
inductive Faulty (subject : Subject α) (t : FieldType) (v : α) : Place → Reason → Prop
  | refused {place : Place} {t' : FieldType} {v' : α} {reason : Reason}
      (htype : t.at? place = some t') (hvalue : subject.at? v place = some v')
      (h : subject.Refuses t' v' reason) : Faulty subject t v place reason
  | missing (place : Place) {schema : Schema} {v' : α} {f : Field}
      (htype : (t.at? place).bind FieldType.message? = some schema)
      (hvalue : subject.at? v place = some v') (hmessage : subject.IsMessage schema v')
      (hf : f ∈ schema.fields) (hdefault : f.effectiveDefault = none)
      (h : subject.part? v' (.field f.name) = none) :
      Faulty subject t v (place ++ [.field f.name]) .missingField
  | unknown (place : Place) {schema : Schema} {v' part : α} {name : String}
      (htype : (t.at? place).bind FieldType.message? = some schema)
      (hvalue : subject.at? v place = some v') (hmessage : subject.IsMessage schema v')
      (hclosed : subject.closed = true) (hname : name ∉ schema.fieldNames)
      (h : subject.part? v' (.field name) = some part) :
      Faulty subject t v (place ++ [.field name]) .unknownField

theorem at?_cons :
    subject.at? v (step :: place) = (subject.part? v step).bind (subject.at? · place) := by
  rw [at?, List.foldlM_cons]
  rfl

theorem at?_append (place rest : Place) :
    subject.at? v (place ++ rest) = (subject.at? v place).bind (subject.at? · rest) := by
  rw [at?, List.foldlM_append]
  rfl

end Subject

theorem FieldType.at?_cons :
    t.at? (step :: place) = (t.part? step).bind (FieldType.at? · place) := by
  rw [at?, List.foldlM_cons]
  rfl

/-- Null does not come into the way through a type. -/
theorem FieldType.message?_at?_optional {inner : FieldType} (place : Place) :
    ((FieldType.optional inner).at? place).bind FieldType.message? =
      (inner.at? place).bind FieldType.message? := by
  cases place with
  | nil => rfl
  | cons step rest => rw [at?_cons, at?_cons, part?]

namespace Subject

/-! ## Faults from part to whole -/

/-- What is wrong with a part is wrong with the whole, a step further. -/
theorem Faulty.under (htype : t.part? step = some t') (hvalue : subject.part? v step = some v')
    (h : subject.Faulty t' v' place reason) : subject.Faulty t v (step :: place) reason := by
  have hat : ∀ rest, t.at? (step :: rest) = t'.at? rest := fun rest => by
    rw [FieldType.at?_cons, htype, Option.bind_some]
  have hat' : ∀ rest, subject.at? v (step :: rest) = subject.at? v' rest := fun rest => by
    rw [at?_cons, hvalue, Option.bind_some]
  cases h with
  | refused ht hv h => exact .refused ((hat _).trans ht) ((hat' _).trans hv) h
  | missing place ht hv hmessage hf hdefault h =>
    rw [← hat] at ht
    exact .missing (step :: place) ht ((hat' _).trans hv) hmessage hf hdefault h
  | unknown place ht hv hmessage hclosed hname h =>
    rw [← hat] at ht
    exact .unknown (step :: place) ht ((hat' _).trans hv) hmessage hclosed hname h

/-- And wrong where null could be instead. -/
theorem Faulty.optional {inner : FieldType}
    (hrefuses : ∀ reason, subject.Refuses inner v reason →
      subject.Refuses (.optional inner) v reason)
    (h : subject.Faulty inner v place reason) :
    subject.Faulty (.optional inner) v place reason := by
  cases h with
  | refused ht hv h =>
    cases place with
    | nil =>
      obtain rfl := Option.some.inj ht
      obtain rfl := Option.some.inj hv
      exact .refused rfl rfl (hrefuses _ h)
    | cons step rest => exact .refused ht hv h
  | missing place ht hv hmessage hf hdefault h =>
    rw [← FieldType.message?_at?_optional] at ht
    exact .missing place ht hv hmessage hf hdefault h
  | unknown place ht hv hmessage hclosed hname h =>
    rw [← FieldType.message?_at?_optional] at ht
    exact .unknown place ht hv hmessage hclosed hname h

/-! ## Names on the way -/

/-- Every name of a place that leads somewhere is a name of the data. -/
theorem plain_of_at? (hkeys : ∀ name, subject.HasKey v name → PlainName name)
    (h : subject.at? v place = some v') : place.Plain := by
  intro name hname
  obtain ⟨before, after, rfl⟩ := List.append_of_mem hname
  rw [List.append_cons, at?_append] at h
  obtain ⟨part, hpart, -⟩ := Option.bind_eq_some_iff.mp h
  exact hkeys name ⟨before, part, hpart⟩

theorem Faulty.plain (hnames : ∀ name, t.Declares name → PlainName name)
    (hkeys : ∀ name, subject.HasKey v name → PlainName name)
    (h : subject.Faulty t v place reason) : place.Plain := by
  cases h with
  | refused _ hv _ => exact plain_of_at? hkeys hv
  | @missing before schema _ f ht hv _ hf _ _ =>
    intro name hname
    rcases List.mem_append.mp hname with hbefore | hlast
    · exact plain_of_at? hkeys hv name hbefore
    · obtain rfl := Step.field.inj (List.mem_singleton.mp hlast)
      exact hnames f.name ⟨before, schema, ht, List.mem_map_of_mem hf⟩
  | @unknown before _ v' part name _ hv _ _ _ h =>
    have hpart : subject.at? v (before ++ [.field name]) = some part := by
      rw [at?_append, hv, Option.bind_some, at?_cons, h]
      rfl
    exact plain_of_at? hkeys hpart

/-! ## Names at any depth -/

/-- A field of the data, or of one of its parts. -/
theorem hasKey_iff {name : String} :
    subject.HasKey v name ↔ (∃ part, subject.part? v (.field name) = some part) ∨
      ∃ step part, subject.part? v step = some part ∧ subject.HasKey part name := by
  constructor
  · rintro ⟨place, part, h⟩
    cases place with
    | nil => exact .inl ⟨part, by simpa [at?_cons, at?] using h⟩
    | cons step rest =>
      rw [List.cons_append, at?_cons] at h
      obtain ⟨inner, hinner, hrest⟩ := Option.bind_eq_some_iff.mp h
      exact .inr ⟨step, inner, hinner, rest, part, hrest⟩
  · rintro (⟨part, h⟩ | ⟨step, inner, hinner, rest, part, hrest⟩)
    · exact ⟨[], part, by rw [List.nil_append, at?_cons, h]; rfl⟩
    · exact ⟨step :: rest, part, by rw [List.cons_append, at?_cons, hinner]; exact hrest⟩

/-- What has no parts has no fields. -/
theorem not_hasKey_of_part?_eq_none {name : String} (h : ∀ step, subject.part? v step = none) :
    ¬ subject.HasKey v name := by
  rw [hasKey_iff]
  rintro (⟨part, hpart⟩ | ⟨step, part, hpart, -⟩)
  · simp [h] at hpart
  · simp [h] at hpart

/-- A list has the fields of its items. -/
theorem hasKey_items_iff {items : List α} {name : String}
    (hitems : ∀ i, subject.part? v (.index i) = items[i]?)
    (hfields : ∀ name, subject.part? v (.field name) = none) :
    subject.HasKey v name ↔ ∃ item ∈ items, subject.HasKey item name := by
  rw [hasKey_iff]
  constructor
  · rintro (⟨part, hpart⟩ | ⟨step, part, hpart, hkey⟩)
    · simp [hfields] at hpart
    · cases step with
      | field other => simp [hfields] at hpart
      | index i => exact ⟨part, List.mem_of_getElem? ((hitems i).symm.trans hpart), hkey⟩
  · rintro ⟨item, hitem, hkey⟩
    obtain ⟨i, hi⟩ := List.getElem?_of_mem hitem
    exact .inr ⟨.index i, item, (hitems i).trans hi, hkey⟩

/-- An object has its own fields, and those of what they hold. -/
theorem hasKey_fields_iff {fields : Entries String α} {name : String}
    (hfields : ∀ name, subject.part? v (.field name) = Entries.get? fields name)
    (hitems : ∀ i, subject.part? v (.index i) = none) (hnodup : (Entries.keys fields).Nodup) :
    subject.HasKey v name ↔
      name ∈ Entries.keys fields ∨ ∃ e ∈ fields, subject.HasKey e.2 name := by
  rw [hasKey_iff]
  refine or_congr ?_ ?_
  · simp only [hfields, ← Option.isSome_iff_exists, Option.isSome_iff_ne_none, ne_eq,
      Entries.get?_eq_none_iff, not_not]
  · constructor
    · rintro ⟨step, part, hpart, hkey⟩
      cases step with
      | index i => simp [hitems] at hpart
      | field other =>
        exact ⟨(other, part), Entries.mem_of_get?_eq_some ((hfields other).symm.trans hpart), hkey⟩
    · rintro ⟨⟨other, part⟩, he, hkey⟩
      have hpart := Entries.get?_eq_some_of_mem hnodup he
      exact ⟨.field other, part, (hfields other).trans hpart, hkey⟩

end Subject

section Names

variable {strict : Bool} {name : String}

theorem Json.hasKey_array_iff {items : List Json} :
    (Subject.payload strict).HasKey (.array items) name ↔
      ∃ item ∈ items, (Subject.payload strict).HasKey item name :=
  Subject.hasKey_items_iff (fun _ => rfl) fun _ => rfl

theorem Json.hasKey_object_iff {members : List (String × Json)}
    (hkeys : (Entries.keys members).Nodup) :
    (Subject.payload strict).HasKey (.object members) name ↔
      name ∈ Entries.keys members ∨ ∃ e ∈ members, (Subject.payload strict).HasKey e.2 name :=
  Subject.hasKey_fields_iff (fun _ => rfl) (fun _ => rfl) hkeys

theorem Value.hasKey_list_iff {items : List Value} :
    Subject.held.HasKey (.list items) name ↔ ∃ item ∈ items, Subject.held.HasKey item name :=
  Subject.hasKey_items_iff (fun _ => rfl) fun _ => rfl

theorem Value.hasKey_message_iff {m : Instance} (hkeys : (Entries.keys m.fields).Nodup) :
    Subject.held.HasKey (.message m) name ↔
      name ∈ Entries.keys m.fields ∨ ∃ e ∈ m.fields, Subject.held.HasKey e.2 name :=
  Subject.hasKey_fields_iff (fun _ => rfl) (fun _ => rfl) hkeys

/-- A type declares the fields of its messages, and what its parts
declare. -/
theorem FieldType.declares_iff :
    t.Declares name ↔ (∃ schema, t.message? = some schema ∧ name ∈ schema.fieldNames) ∨
      ∃ step t', t.part? step = some t' ∧ t'.Declares name := by
  constructor
  · rintro ⟨place, schema, hschema, hname⟩
    cases place with
    | nil => exact .inl ⟨schema, hschema, hname⟩
    | cons step rest =>
      rw [at?_cons] at hschema
      obtain ⟨t', ht', hmessage⟩ := Option.bind_eq_some_iff.mp hschema
      obtain ⟨part, hpart, hrest⟩ := Option.bind_eq_some_iff.mp ht'
      exact .inr ⟨step, part, hpart, rest, schema, by rw [hrest]; exact hmessage, hname⟩
  · rintro (⟨schema, hschema, hname⟩ | ⟨step, part, hpart, rest, schema, hrest, hname⟩)
    · exact ⟨[], schema, hschema, hname⟩
    · exact ⟨step :: rest, schema, by rw [at?_cons, hpart]; exact hrest, hname⟩

@[simp] theorem FieldType.not_declares_scalar (s : Scalar) :
    ¬ (FieldType.scalar s).Declares name := by
  rw [declares_iff]
  rintro (⟨schema, hschema, -⟩ | ⟨step, part, hpart, -⟩)
  · cases hschema
  · cases hpart

@[simp] theorem FieldType.declares_list_iff {element : FieldType} :
    (FieldType.list element).Declares name ↔ element.Declares name := by
  rw [declares_iff]
  constructor
  · rintro (⟨schema, hschema, -⟩ | ⟨step, part, hpart, hname⟩)
    · cases hschema
    · cases step with
      | field other => cases hpart
      | index i => exact Option.some.inj hpart ▸ hname
  · intro hname
    exact .inr ⟨.index 0, element, rfl, hname⟩

@[simp] theorem FieldType.declares_optional_iff {inner : FieldType} :
    (FieldType.optional inner).Declares name ↔ inner.Declares name := by
  simp only [Declares, message?_at?_optional]

theorem Schema.declares_iff {s : Schema} (hnodup : s.fieldNames.Nodup) :
    (FieldType.message s).Declares name ↔
      name ∈ s.fieldNames ∨ ∃ f ∈ s.fields, f.type.Declares name := by
  rw [FieldType.declares_iff]
  refine or_congr ?_ ?_
  · constructor
    · rintro ⟨schema, hschema, hname⟩
      exact Option.some.inj hschema ▸ hname
    · intro hname
      exact ⟨s, rfl, hname⟩
  · constructor
    · rintro ⟨step, part, hpart, hname⟩
      cases step with
      | index i => cases hpart
      | field other =>
        obtain ⟨f, hf, rfl⟩ := Option.map_eq_some_iff.mp hpart
        exact ⟨f, List.mem_of_find?_eq_some hf, hname⟩
    · rintro ⟨f, hf, hname⟩
      have hfind : s.field? f.name = some f := find?_key_eq_some hnodup hf
      exact ⟨.field f.name, f.type, by rw [FieldType.part?, hfind, Option.map_some], hname⟩

end Names

/-- The way through a schema begins with one of its fields. -/
theorem Schema.at?_cases {s : Schema} (h : (FieldType.message s).at? place = some t) :
    place = [] ∨ ∃ name rest, place = .field name :: rest ∧ name ∈ s.fieldNames := by
  cases place with
  | nil => exact .inl rfl
  | cons step rest =>
    rw [FieldType.at?_cons] at h
    obtain ⟨t', ht', -⟩ := Option.bind_eq_some_iff.mp h
    cases step with
    | index i => cases ht'
    | field name =>
      obtain ⟨f, hf, -⟩ := Option.map_eq_some_iff.mp ht'
      have hname : f.name = name := by simpa using List.find?_some hf
      exact .inr ⟨name, rest, rfl, hname ▸ List.mem_map_of_mem (List.mem_of_find?_eq_some hf)⟩

/-- So the place of an offense is a way into an object, if the names are
there. -/
theorem Subject.Faulty.intoObject {s : Schema} (hs : "" ∉ s.fieldNames)
    (h : subject.Faulty (.message s) v place reason) : place.IntoObject := by
  have hbegins : ∀ {before : Place} {name : String} {t : FieldType},
      (FieldType.message s).at? before = some t → Place.IntoObject (before ++ [.field name]) := by
    intro before name t ht
    obtain rfl | ⟨first, rest, rfl, hfirst⟩ := Schema.at?_cases ht
    · exact .inr ⟨name, [], rfl, fun _ => rfl⟩
    · exact .inr ⟨first, rest ++ [.field name], rfl, fun hempty => absurd (hempty ▸ hfirst) hs⟩
  cases h with
  | refused ht _ _ =>
    obtain rfl | ⟨first, rest, rfl, hfirst⟩ := Schema.at?_cases ht
    · exact .inl rfl
    · exact .inr ⟨first, rest, rfl, fun hempty => absurd (hempty ▸ hfirst) hs⟩
  | missing _ ht _ _ _ _ _ => exact hbegins (Option.bind_eq_some_iff.mp ht).choose_spec.1
  | unknown _ ht _ _ _ _ _ => exact hbegins (Option.bind_eq_some_iff.mp ht).choose_spec.1

end ServiceContracts
