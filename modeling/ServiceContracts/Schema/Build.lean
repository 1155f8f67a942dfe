import ServiceContracts.Schema.Decode
import ServiceContracts.Schema.Encode
import ServiceContracts.Text.Blank

/-!
# Building and using schemas

`Schema.build` makes a schema of a name and fields that make sense: names are not blank, field names do not
repeat, and every declared default fits its type. A default is kept in the form in which reading it back would
give it, so a number field keeps a number even where an integer was declared.

`Schema.validate` and `Schema.serialize` are the two ways through a schema, with the offenses reported in one
error.
-/

namespace ServiceContracts

/-- How payloads are read and instances are written. -/
structure Config where
  /-- Undeclared keys of a payload are offenses. -/
  strict : Bool
  /-- Fields that equal their default are left out. -/
  compact : Bool
  deriving DecidableEq

namespace Config

/-- Undeclared keys are ignored, and every field is written. -/
def lenient : Config := ⟨false, false⟩

end Config

/-- What can be wrong with the definition of a schema. -/
inductive SchemaFault where
  | blankName
  | blankField
  | duplicateField (name : String)
  | badDefault (field type : String) (errors : FieldErrors)
  deriving DecidableEq

/-- The fault in words. -/
def SchemaFault.message : SchemaFault → String
  | .blankName => "schema name must not be empty"
  | .blankField => "field name must not be empty"
  | .duplicateField name => "duplicate field name: " ++ name
  | .badDefault field type errors =>
    "default for field " ++ field ++ " does not match " ++ type ++ ": " ++ errors.text

/-- What goes wrong in defining schemas and in moving messages through them. -/
inductive SchemaError where
  | invalid (schema : String) (fault : SchemaFault)
  /-- A payload or an instance violates the schema. -/
  | rejected (schema : String) (errors : FieldErrors)
  /-- An instance of another schema. -/
  | otherSchema (expected found : String)
  deriving DecidableEq

/-- The error in words. -/
def SchemaError.message : SchemaError → String
  | .invalid schema fault => "invalid schema " ++ schema ++ ": " ++ fault.message
  | .rejected schema errors => "validation failed for " ++ schema ++ ": " ++ errors.text
  | .otherSchema expected found => "instance of " ++ found ++ " cannot be serialized as " ++ expected

namespace Field

/-- The form in which a declared default is kept: written, and read back strictly. -/
def normalDefault (type : FieldType) (v : Value) : Checked Value :=
  (type.encode false v).bind (type.decode true)

/-- The field with its default in normal form, if the default fits. -/
def normalize (f : Field) : Except SchemaFault Field :=
  match f.default with
  | none => .ok f
  | some v =>
    match (normalDefault f.type v).under (.field f.name) with
    | .ok normal => .ok { f with default := some normal }
    | .error offenses => .error (.badDefault f.name f.type.text (offenses.map Offense.report))

end Field

namespace Schema

/-- Checks the fields one after the other, against the names that came before. -/
def checkFields (taken : List String) : List Field → Except SchemaFault (List Field)
  | [] => .ok []
  | f :: rest =>
    if Text.isBlank f.name then .error .blankField
    else if f.name ∈ taken then .error (.duplicateField f.name)
    else do
      let field ← f.normalize
      let fields ← checkFields (f.name :: taken) rest
      return field :: fields

/-- The schema of these fields, or the first fault in its definition. -/
def build (name doc : String) (fields : List Field) : Except SchemaError Schema :=
  if Text.isBlank name then .error (.invalid name .blankName)
  else match checkFields [] fields with
    | .ok fields => .ok ⟨name, doc, fields⟩
    | .error fault => .error (.invalid name fault)

/-- Reads a payload: the instance it denotes, absent fields filled in, or every error. -/
def read (s : Schema) (config : Config) (payload : Json) : Except FieldErrors Instance :=
  match s.decode config.strict payload with
  | .ok m => .ok m
  | .error offenses => .error (offenses.map Offense.report)

/-- Checks a payload and gives the instance it denotes. -/
def validate (s : Schema) (config : Config) (payload : Json) : Except SchemaError Instance :=
  match s.read config payload with
  | .ok m => .ok m
  | .error errors => .error (.rejected s.name errors)

/-- Writes an instance of this schema as a JSON object, in declaration order. -/
def serialize (s : Schema) (config : Config) (m : Instance) : Except SchemaError Json :=
  if m.schema = s.name then
    match s.encode config.compact m with
    | .ok payload => .ok payload
    | .error offenses => .error (.rejected s.name (offenses.map Offense.report))
  else .error (.otherSchema s.name m.schema)

end Schema

/-- Reads a single value strictly, such as a default in a definition document. -/
def FieldType.read (t : FieldType) (payload : Json) : Except FieldErrors Value :=
  match t.decode true payload with
  | .ok v => .ok v
  | .error offenses => .error (offenses.map Offense.report)

end ServiceContracts
