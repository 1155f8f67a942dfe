import ServiceContracts.Json.Basic

/-!
# The meta-schema of documents

The format of documents, as a JSON Schema. It asks for a `$schema` and does not say which, and it names
nothing of a property's reference or default.
-/

namespace ServiceContracts.Definition.MetaSchema

/-- The schema of another definition. -/
def refer (name : String) : Json := .object [("$ref", .string ("#/$defs/" ++ name))]

/-- A list of values of a schema. -/
def listOf (schema : Json) : Json := .object [("type", .string "array"), ("items", schema)]

/-- An object whose members are of a schema, whatever their names. -/
def mapOf (schema : Json) : Json :=
  .object [("type", .string "object"), ("additionalProperties", schema)]

/-- The number of a bound. -/
def one : Json := .number (.whole ⟨1, by decide, by decide⟩)

/-- A text. -/
def text : Json := .object [("type", .string "string")]

/-- A text with something in it. -/
def filledText : Json := .object [("type", .string "string"), ("minLength", one)]

/-- True or false. -/
def truth : Json := .object [("type", .string "boolean")]

/-- What identifiers look like. -/
def identifierPattern : String := "^[a-zA-Z][a-zA-Z0-9_]*$"

/-- A code name. -/
def identifier : Json :=
  .object [("type", .string "string"), ("pattern", .string identifierPattern)]

/-- A service. -/
def service : Json := .object
  [("type", .string "object"),
    ("required", .array [.string "identifier", .string "operations"]),
    ("properties", .object
      [("identifier", refer "identifier"), ("name", filledText), ("description", text),
        ("operations", listOf (refer "operation"))]),
    ("additionalProperties", .boolean false)]

/-- An operation. -/
def operation : Json := .object
  [("type", .string "object"),
    ("required", .array [.string "identifier"]),
    ("properties", .object
      [("identifier", refer "identifier"), ("name", filledText), ("description", text),
        ("input", refer "typeRef"), ("output", refer "typeRef")]),
    ("additionalProperties", .boolean false)]

/-- A list of texts, each of them once. -/
def names : Json :=
  .object [("type", .string "array"), ("items", text), ("uniqueItems", .boolean true)]

/-- A type. -/
def type : Json := .object
  [("type", .string "object"),
    ("properties", .object
      [("description", text), ("properties", mapOf (refer "property")), ("required", names)]),
    ("additionalProperties", .boolean false)]

/-- A kind, null included. -/
def kindOrNull : Json := .object
  [("anyOf", .array [refer "kind", .object [("const", .string "null")]])]

/-- One kind or two. -/
def kinds : Json := .object
  [("anyOf", .array
    [refer "kind",
      .object
        [("type", .string "array"), ("items", kindOrNull), ("minItems", one),
          ("maxItems", .number (.whole ⟨2, by decide, by decide⟩)),
          ("uniqueItems", .boolean true)]])]

/-- A property. -/
def property : Json := .object
  [("type", .string "object"),
    ("properties", .object
      [("type", kinds), ("items", refer "property"), ("description", text), ("nullable", truth)])]

/-- The name of a kind. -/
def kind : Json := .object
  [("enum", .array
    [.string "string", .string "integer", .string "number", .string "boolean", .string "array"])]

end MetaSchema

/-- **The meta-schema.** -/
def metaSchema : Json := .object
  [("$schema", .string "https://json-schema.org/draft/2020-12/schema"),
    ("type", .string "object"),
    ("required", .array [.string "$schema", .string "services"]),
    ("propertyNames", .object
      [("enum", .array [.string "$schema", .string "types", .string "services"])]),
    ("properties", .object
      [("types", MetaSchema.mapOf (MetaSchema.refer "type")),
        ("services", MetaSchema.listOf (MetaSchema.refer "service"))]),
    ("$defs", .object
      [("identifier", MetaSchema.identifier), ("typeRef", MetaSchema.filledText),
        ("service", MetaSchema.service), ("operation", MetaSchema.operation),
        ("type", MetaSchema.type), ("property", MetaSchema.property),
        ("kind", MetaSchema.kind)])]

end ServiceContracts.Definition
