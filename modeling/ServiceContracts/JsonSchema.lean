import ServiceContracts.Json.Basic

/-!
# JSON Schema libraries

Whether a value keeps to a schema is not decided here: a library compiles the schema to a validator, and the
validator reports.
-/

namespace ServiceContracts.JsonSchema

/-- A compiled schema: what it finds wrong with a value, in words and in order. -/
abbrev Validator := Json → List String

/-- A library. It compiles a schema, or says why it does not. -/
structure Library where
  compile : Json → Except String Validator

end ServiceContracts.JsonSchema
