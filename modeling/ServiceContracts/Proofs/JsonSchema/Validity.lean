import ServiceContracts.JsonSchema
import ServiceContracts.Proofs.JsonSchema.Pattern
import ServiceContracts.Proofs.Json.Keyed
/-!
# What a JSON Schema says of a value

Each keyword of a schema asks something of the value (`Asserts`), some of
them through other schemas, which can be in a definition of the root. A
value is valid when all keywords get what they ask for (`Valid`); schemas
that refer to each other are valid by derivations that end. Keywords
beyond those listed ask nothing.

A library implements a schema if it compiles it, and the validator finds
nothing wrong with exactly the valid values.
-/


namespace ServiceContracts.JsonSchema

/-- The value is of the named type. A number is an integer when it is whole,
however it is written. -/
def HasType (name : String) : Json → Prop
  | .null => name = "null"
  | .boolean _ => name = "boolean"
  | .string _ => name = "string"
  | .array _ => name = "array"
  | .object _ => name = "object"
  | .number n =>
    name = "number" ∨ name = "integer" ∧ ∃ k : Int, n.ticks = k * Binary64.ticksPerUnit

/-- The parts of a pointer, which are between slashes. -/
def parts : List Char → List (List Char)
  | [] => [[]]
  | c :: rest =>
    if c = '/' then [] :: parts rest
    else match parts rest with
      | [] => [[c]]
      | part :: more => (c :: part) :: more

/-- The schema that a pointer leads to, from the root. -/
def resolve? (root : Json) (pointer : String) : Option Json :=
  match parts pointer.toList with
  | ['#'] :: keys => keys.foldlM (fun schema key => schema.member? (String.ofList key)) root
  | _ => none

/-- The members that a schema says something of by name. -/
def declaredIn (keywords : List (String × Json)) (name : String) : Prop :=
  ∃ properties, Entries.get? keywords "properties" = some (.object properties) ∧
    name ∈ Entries.keys properties

/-- **What a keyword asks of a value**, where `Holds` is what other schemas
ask, and the keyword stands among some in a root. -/
def Asserts (Holds : Json → Json → Prop) (root : Json) (keywords : List (String × Json))
    (v : Json) : String → Json → Prop
  | "type", .string name => HasType name v
  | "enum", .array values => ∃ w ∈ values, v.denotesSame w = true
  | "const", w => v.denotesSame w = true
  | "minLength", .number (.whole n) => ∀ s, v = .string s → n.val ≤ s.length
  | "pattern", .string expression => ∀ s, v = .string s →
    ∃ p, Pattern.ofChars expression.toList = some p ∧ p.Finds s.toList
  | "minItems", .number (.whole n) => ∀ items, v = .array items → n.val ≤ items.length
  | "maxItems", .number (.whole n) => ∀ items, v = .array items → items.length ≤ n.val
  | "uniqueItems", .boolean true => ∀ items, v = .array items → Json.allDistinct items = true
  | "items", schema => ∀ items, v = .array items → ∀ w ∈ items, Holds schema w
  | "required", .array names => ∀ members, v = .object members → ∀ name,
    .string name ∈ names → name ∈ Entries.keys members
  | "propertyNames", schema => ∀ members, v = .object members →
    ∀ name ∈ Entries.keys members, Holds schema (.string name)
  | "properties", .object properties => ∀ e ∈ properties, ∀ w, v.member? e.1 = some w → Holds e.2 w
  | "additionalProperties", schema => ∀ members, v = .object members →
    ∀ e ∈ members, ¬ declaredIn keywords e.1 → Holds schema e.2
  | "anyOf", .array schemas => ∃ schema ∈ schemas, Holds schema v
  | "$ref", .string pointer => ∃ schema, resolve? root pointer = some schema ∧ Holds schema v
  | _, _ => True

/-- **A value is valid** for a schema in a root. The schema that is true has
all values, and the one that is false none. -/
inductive Valid (root : Json) : Json → Json → Prop
  | always {v : Json} : Valid root (.boolean true) v
  | keywords {keywords : List (String × Json)} {v : Json} (Holds : Json → Json → Prop)
      (hvalid : ∀ schema w, Holds schema w → Valid root schema w)
      (h : ∀ e ∈ keywords, Asserts Holds root keywords v e.1 e.2) :
      Valid root (.object keywords) v

/-- **A library implements a schema.** -/
def Library.Implements (library : Library) (schema : Json) : Prop :=
  ∃ validator, library.compile schema = .ok validator ∧
    ∀ v : Json, v.Keyed → (validator v = [] ↔ Valid schema schema v)

section Types

variable {name : String}

@[simp] theorem hasType_null_iff : HasType name .null ↔ name = "null" := Iff.rfl

@[simp] theorem hasType_boolean_iff {b : Bool} : HasType name (.boolean b) ↔ name = "boolean" :=
  Iff.rfl

@[simp] theorem hasType_string_iff {s : String} : HasType name (.string s) ↔ name = "string" :=
  Iff.rfl

@[simp] theorem hasType_array_iff {items : List Json} :
    HasType name (.array items) ↔ name = "array" := Iff.rfl

@[simp] theorem hasType_object_iff {members : List (String × Json)} :
    HasType name (.object members) ↔ name = "object" := Iff.rfl

/-- A number has no type but those of numbers. -/
@[simp] theorem not_hasType_number {n : Json.Number} (hnumber : name ≠ "number")
    (hinteger : name ≠ "integer") : ¬ HasType name (.number n) :=
  fun htype => htype.elim hnumber fun h => hinteger h.1

end Types

variable {root v : Json} {keywords : List (String × Json)}

section Keywords

variable {Holds : Json → Json → Prop}

@[simp] theorem asserts_type {name : String} :
    Asserts Holds root keywords v "type" (.string name) ↔ HasType name v := Iff.rfl

@[simp] theorem asserts_enum {values : List Json} :
    Asserts Holds root keywords v "enum" (.array values) ↔
      ∃ w ∈ values, v.denotesSame w = true := Iff.rfl

@[simp] theorem asserts_const {w : Json} :
    Asserts Holds root keywords v "const" w ↔ v.denotesSame w = true := Iff.rfl

@[simp] theorem asserts_minLength {n : Json.Whole} :
    Asserts Holds root keywords v "minLength" (.number (.whole n)) ↔
      ∀ s, v = .string s → n.val ≤ s.length := Iff.rfl

@[simp] theorem asserts_pattern {expression : String} :
    Asserts Holds root keywords v "pattern" (.string expression) ↔ ∀ s, v = .string s →
      ∃ p, Pattern.ofChars expression.toList = some p ∧ p.Finds s.toList := Iff.rfl

@[simp] theorem asserts_minItems {n : Json.Whole} :
    Asserts Holds root keywords v "minItems" (.number (.whole n)) ↔
      ∀ items, v = .array items → n.val ≤ items.length := Iff.rfl

@[simp] theorem asserts_maxItems {n : Json.Whole} :
    Asserts Holds root keywords v "maxItems" (.number (.whole n)) ↔
      ∀ items, v = .array items → items.length ≤ n.val := Iff.rfl

@[simp] theorem asserts_uniqueItems :
    Asserts Holds root keywords v "uniqueItems" (.boolean true) ↔
      ∀ items, v = .array items → Json.allDistinct items = true := Iff.rfl

@[simp] theorem asserts_items {schema : Json} :
    Asserts Holds root keywords v "items" schema ↔
      ∀ items, v = .array items → ∀ w ∈ items, Holds schema w := Iff.rfl

@[simp] theorem asserts_required {names : List Json} :
    Asserts Holds root keywords v "required" (.array names) ↔ ∀ members, v = .object members →
      ∀ name, .string name ∈ names → name ∈ Entries.keys members := Iff.rfl

@[simp] theorem asserts_propertyNames {schema : Json} :
    Asserts Holds root keywords v "propertyNames" schema ↔ ∀ members, v = .object members →
      ∀ name ∈ Entries.keys members, Holds schema (.string name) := Iff.rfl

@[simp] theorem asserts_properties {properties : List (String × Json)} :
    Asserts Holds root keywords v "properties" (.object properties) ↔
      ∀ e ∈ properties, ∀ w, v.member? e.1 = some w → Holds e.2 w := Iff.rfl

@[simp] theorem asserts_additionalProperties {schema : Json} :
    Asserts Holds root keywords v "additionalProperties" schema ↔ ∀ members, v = .object members →
      ∀ e ∈ members, ¬ declaredIn keywords e.1 → Holds schema e.2 := Iff.rfl

@[simp] theorem asserts_anyOf {schemas : List Json} :
    Asserts Holds root keywords v "anyOf" (.array schemas) ↔
      ∃ schema ∈ schemas, Holds schema v := Iff.rfl

@[simp] theorem asserts_ref {pointer : String} :
    Asserts Holds root keywords v "$ref" (.string pointer) ↔
      ∃ schema, resolve? root pointer = some schema ∧ Holds schema v := Iff.rfl

@[simp] theorem asserts_schema {argument : Json} :
    Asserts Holds root keywords v "$schema" argument ↔ True := Iff.rfl

@[simp] theorem asserts_defs {argument : Json} :
    Asserts Holds root keywords v "$defs" argument ↔ True := Iff.rfl

end Keywords

/-- A keyword asks for less where other schemas do. -/
theorem Asserts.mono {Holds Holds' : Json → Json → Prop}
    (h : ∀ schema w, Holds schema w → Holds' schema w) {key : String} {argument : Json} (ha : Asserts Holds root keywords v key argument) :
    Asserts Holds' root keywords v key argument := by
  unfold Asserts at ha ⊢
  split
  case h_9 => exact fun items hv w hw => h _ _ (ha items hv w hw)
  case h_11 => exact fun members hv name hname => h _ _ (ha members hv name hname)
  case h_12 => exact fun e he w hw => h _ _ (ha e he w hw)
  case h_13 => exact fun members hv e he hnew => h _ _ (ha members hv e he hnew)
  case h_14 =>
    obtain ⟨schema, hmem, hschema⟩ := ha
    exact ⟨schema, hmem, h _ _ hschema⟩
  case h_15 =>
    obtain ⟨schema, hfound, hschema⟩ := ha
    exact ⟨schema, hfound, h _ _ hschema⟩
  case h_16 => trivial
  all_goals exact ha

/-- **A schema of keywords asks what all of them do.** -/
theorem valid_object_iff :
    Valid root (.object keywords) v ↔
      ∀ e ∈ keywords, Asserts (Valid root) root keywords v e.1 e.2 := by
  constructor
  · intro h
    cases h with
    | keywords Holds hvalid h => exact fun e he => (h e he).mono hvalid
  · exact .keywords (Valid root) fun _ _ h => h

theorem not_valid_false : ¬ Valid root (.boolean false) v := by
  intro h
  cases h

end ServiceContracts.JsonSchema
