import ServiceContracts.Command.Arguments
import ServiceContracts.Command.Table
import ServiceContracts.Json.Printer

/-!
# Reports

The results of the commands, and their texts in the three formats.
-/

namespace ServiceContracts.Command

/-- An integer as JSON, in digits if it does not fit. -/
def integer (n : Int) : Json :=
  match Json.Whole.ofInt? n with
  | some w => .number (.whole w)
  | none => .string (toString n)

/-- A count as JSON. -/
def count (n : Nat) : Json := integer n

/-- A text that ends its line. -/
def line (s : String) : String := s ++ "\n"

/-- How much a check has loaded. -/
structure CheckReport where
  documents : Nat
  services : Nat
  operations : Nat
  isSealed : Bool

/-- The report of a check. -/
def CheckReport.text (r : CheckReport) : Format → String
  | .json => line (Json.object
      [("schema_id", .string "https://schemas.3leaps.dev/svcreg/cli/v1/registry-check.schema.json"),
        ("documents", count r.documents), ("services", count r.services),
        ("operations", count r.operations), ("sealed", .boolean r.isSealed)]).compact
  | .table => line (Table.draw ⟨["DOCUMENTS", "SERVICES", "OPERATIONS", "SEALED"],
      [[toString r.documents, toString r.services, toString r.operations,
        if r.isSealed then "true" else "false"]]⟩)
  | .pretty => line ("ok: " ++ toString r.documents ++ " documents, " ++ toString r.services ++
      " services, " ++ toString r.operations ++ " operations")

/-- A line of the list of operations. -/
structure OperationRow where
  service : String
  operation : String
  wireName : String
  shape : OperationShape
  input : Option String
  output : Option String

namespace OperationRow

/-- The name of a schema, or a dash. -/
def label (schema : Option String) : String := schema.getD "-"

/-- The line of an operation. -/
def ofOperation (service : String) (op : Operation) : OperationRow :=
  ⟨service, op.code, op.wire, op.shape, op.input.map Schema.name, op.output.map Schema.name⟩

/-- The lines of a service, in registration order. -/
def ofService (s : Service) : List OperationRow := s.operations.map (ofOperation s.name)

/-- The line as JSON. -/
def toJson (r : OperationRow) : Json := .object
  [("service", .string r.service), ("operation", .string r.operation), ("wire_name", .string r.wireName),
    ("shape", .string r.shape.text), ("input", .string (label r.input)),
    ("output", .string (label r.output))]

/-- The line as cells of a table. -/
def cells (r : OperationRow) : List String :=
  [r.service, r.operation, r.wireName, r.shape.text, label r.input, label r.output]

/-- The line as a sentence. -/
def pretty (r : OperationRow) : String :=
  r.service ++ "." ++ r.operation ++ " \"" ++ r.wireName ++ "\" " ++ r.shape.text ++ " (" ++
    label r.input ++ " -> " ++ label r.output ++ ")"

end OperationRow

/-- The list of operations. -/
def listText (rows : List OperationRow) : Format → String
  | .json => line (Json.object
      [("schema_id", .string "https://schemas.3leaps.dev/svcreg/cli/v1/operation-list.schema.json"),
        ("operations", .array (rows.map OperationRow.toJson))]).compact
  | .table => line (Table.draw
      ⟨["SERVICE", "OPERATION", "WIRE NAME", "SHAPE", "INPUT", "OUTPUT"], rows.map OperationRow.cells⟩)
  | .pretty => String.join (rows.map fun r => line r.pretty)

/-- What became of a payload: it is valid and this is its normal form, or these are its errors. -/
structure ValidationReport where
  service : String
  operation : String
  side : Side
  schema : String
  result : Except FieldErrors Json

namespace ValidationReport

/-- The members that tell the result. -/
def resultMembers : Except FieldErrors Json → List (String × Json)
  | .ok payload => [("valid", .boolean true), ("payload", payload), ("errors", .array [])]
  | .error errors =>
    [("valid", .boolean false),
      ("errors", .array (errors.map fun e =>
        .object [("field", .string e.field), ("reason", .string e.reason)]))]

/-- The report of a validation. -/
def text (r : ValidationReport) : Format → String
  | .json => line (Json.object
      ([("schema_id", .string "https://schemas.3leaps.dev/svcreg/cli/v1/validation-result.schema.json"),
        ("service", .string r.service), ("operation", .string r.operation),
        ("direction", .string r.side.text), ("schema", .string r.schema)] ++
        resultMembers r.result)).compact
  | .table =>
    match r.result with
    | .ok payload => line payload.pretty
    | .error errors => line (Table.draw ⟨["FIELD", "REASON"], errors.map fun e => [e.field, e.reason]⟩)
  | .pretty =>
    match r.result with
    | .ok payload => line ("valid " ++ r.side.text ++ " " ++ r.schema ++ ": " ++ payload.compact)
    | .error errors =>
      line ("invalid " ++ r.side.text ++ " " ++ r.schema ++ ":") ++
        String.join (errors.map fun e => line ("  " ++ e.text))

end ValidationReport

end ServiceContracts.Command
