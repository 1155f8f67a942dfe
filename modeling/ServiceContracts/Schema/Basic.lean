import ServiceContracts.Schema.Value

/-!
# Schemas

A schema is a named, ordered list of fields, and describes one shape of message. A field has a type and may
declare a default; it may be left out of a payload exactly when it has an effective default, which is the
declared one or, for a nullable type, null.

Here are the shapes alone. That the names are there and distinct and the defaults fit is checked by
`Schema.build`, and everything that reads or writes messages starts from a schema built there.
-/

namespace ServiceContracts

/-- The types without structure. -/
inductive Scalar where
  | string
  | integer
  | number
  | boolean
  deriving DecidableEq

/-- The name of a scalar type. -/
def Scalar.text : Scalar → String
  | .string => "string"
  | .integer => "integer"
  | .number => "number"
  | .boolean => "boolean"

mutual

/-- The declared type of a field. -/
inductive FieldType where
  | scalar (s : Scalar)
  | list (element : FieldType)
  /-- The inner type, or null. -/
  | optional (inner : FieldType)
  /-- A nested message. -/
  | message (schema : Schema)

/-- A named shape of message, with its fields in declaration order. -/
structure Schema where
  name : String
  doc : String
  fields : List Field

/-- A named and typed field. -/
structure Field where
  name : String
  type : FieldType
  default : Option Value
  doc : String

end

namespace FieldType

/-- Is null a value of the type by its outermost layer? -/
def isNullable : FieldType → Bool
  | .optional _ => true
  | _ => false

/-- The type with null added, unless it has null already. -/
def orNull (t : FieldType) : FieldType := if t.isNullable then t else .optional t

/-- The type as the reports name it. -/
def text : FieldType → String
  | .scalar s => s.text
  | .list element => "list<" ++ element.text ++ ">"
  | .optional inner => "optional<" ++ inner.text ++ ">"
  | .message schema => schema.name

/-- The schema of the messages inside the type, looking through lists and null. -/
def schema? : FieldType → Option Schema
  | .scalar _ => none
  | .list element => element.schema?
  | .optional inner => inner.schema?
  | .message schema => some schema

end FieldType

namespace Field

/-- The value that an absent field takes. -/
def effectiveDefault (f : Field) : Option Value :=
  match f.default with
  | some v => some v
  | none => if f.type.isNullable then some .null else none

/-- A field that every payload has to carry. -/
def isRequired (f : Field) : Bool := f.default.isNone && !f.type.isNullable

/-- A field is required exactly when nothing stands in for it. -/
theorem isRequired_iff {f : Field} : f.isRequired = true ↔ f.effectiveDefault = none := by
  unfold isRequired effectiveDefault
  cases f.default <;> cases f.type.isNullable <;> simp

end Field

namespace Schema

/-- The names of the fields, in declaration order. -/
def fieldNames (s : Schema) : List String := s.fields.map Field.name

/-- The field of a name. -/
def field? (s : Schema) (name : String) : Option Field := s.fields.find? fun f => f.name = name

/-- Does the schema declare a field of this name? -/
def declares (s : Schema) (name : String) : Bool := s.fields.any fun f => f.name = name

end Schema

/-! ## Equality -/

/-- Equality of declared defaults. -/
def Value.sameDefault : Option Value → Option Value → Bool
  | none, none => true
  | some v, some w => v.same w
  | _, _ => false

mutual

/-- Equality of types, nested schemas included. -/
def FieldType.same : FieldType → FieldType → Bool
  | .scalar a, .scalar b => a == b
  | .list a, .list b => a.same b
  | .optional a, .optional b => a.same b
  | .message a, .message b => a.same b
  | _, _ => false

/-- Equality of schemas: name, doc and the fields by name, in whatever order they are declared. -/
def Schema.same : Schema → Schema → Bool
  | ⟨name, doc, fields⟩, other =>
    name == other.name && doc == other.doc && fields.length == other.fields.length &&
      Schema.fieldsSame fields other.fields

/-- Equality of fields. -/
def Field.same : Field → Field → Bool
  | ⟨name, type, default, doc⟩, other =>
    name == other.name && type.same other.type && Value.sameDefault default other.default &&
      doc == other.doc

/-- Every field of the first list, against the field of that name in the second. -/
def Schema.fieldsSame : List Field → List Field → Bool
  | [], _ => true
  | f :: rest, others =>
    (match others.find? fun g => g.name = f.name with
      | some g => f.same g
      | none => false) && Schema.fieldsSame rest others

end

end ServiceContracts
