import ServiceContracts.Command.Report
import ServiceContracts.Definition.Files
import ServiceContracts.Json.Reader

/-!
# Running commands

A command is a function of the file tree and the arguments, and of the library that checks documents: it gives
the texts for the two output streams and an exit code. The exit code says who is at fault: the data, the request
or the surroundings.
-/

namespace ServiceContracts.Command

open Definition

/-- Why a command fails. -/
inductive Failure where
  /-- No loader is made. -/
  | noLoader (error : LoadError)
  | load (error : LoadError)
  | unresolved (error : ResolveError)
  /-- The operation has no schema on the side asked for. -/
  | noSchema (service operation : String) (side : Side)
  | unreadPayload (path : String) (error : FileError)
  | payloadNotJson
  /-- The check of the payload came to something else than errors. -/
  | notValidated (error : SchemaError)
  | notSerialized (error : SchemaError)

namespace Failure

/-- The failure in words. -/
def message : Failure → String
  | .noLoader error => "loader init failed: " ++ error.message
  | .load error => "load failed: " ++ error.message
  | .unresolved error => error.message
  | .noSchema service operation side =>
    "operation " ++ operation ++ " of service " ++ service ++ " has no " ++ side.text ++ " schema"
  | .unreadPayload path error => "failed reading " ++ path ++ ": " ++ error.message
  | .payloadNotJson => "payload is not valid JSON"
  | .notValidated error => "validate failed: " ++ error.message
  | .notSerialized error => "serialize failed: " ++ error.message

/-- The exit code of a failed load: 1 when a file was not read, 60 when the definitions are at fault. A registry
that is sealed already and a meta-schema that does not compile would be faults of the command. -/
def loadCode : LoadError → Nat
  | .notRead _ => 1
  | .registry .isSealed => 125
  | .metaSchema _ => 125
  | _ => 60

/-- The exit code of a payload file that is not read. -/
def fileCode : FileError → Nat
  | .notFound => 1
  | .notUtf8 => 60
  | _ => 125

/-- The exit code of an error of a schema: only a schema that is not well-formed is no fault of the data. -/
def schemaCode : SchemaError → Nat
  | .invalid _ _ => 125
  | _ => 60

/-- The exit code. -/
def code : Failure → Nat
  | .noLoader error => loadCode error
  | .load error => loadCode error
  | .unresolved _ => 64
  | .noSchema _ _ _ => 64
  | .unreadPayload _ error => fileCode error
  | .payloadNotJson => 60
  | .notValidated error => schemaCode error
  | .notSerialized error => schemaCode error

end Failure

/-- What a command leaves behind. -/
structure Outcome where
  code : Nat
  stdout : String
  stderr : String

/-- A sealed registry and how many documents went into it. -/
structure Loaded where
  registry : Registry
  documents : Nat

variable (library : JsonSchema.Library) (tree : FileTree)

/-- Loads the definitions of a command. -/
def loadDefinitions (d : Definitions) : Except Failure Loaded :=
  match Loader.new library d.limits with
  | .error error => .error (.noLoader error)
  | .ok l =>
    match l.addPaths tree d.paths with
    | (_, .error error) => .error (.load error)
    | (l, .ok ()) =>
      match l.build with
      | .error error => .error (.load error)
      | .ok registry => .ok ⟨registry.sealed, l.sources.length⟩

/-- Counts what definitions hold. -/
def check (d : Definitions) : Except Failure CheckReport := do
  let loaded ← loadDefinitions library tree d
  return ⟨loaded.documents, loaded.registry.size, loaded.registry.operationCount,
    loaded.registry.isSealed⟩

/-- The services that a list is about: all, or the one of a name. -/
def selectServices (r : Registry) : Option String → Except Failure (List Service)
  | none => .ok r.services
  | some name =>
    match r.service? name with
    | some s => .ok [s]
    | none => .error (.unresolved (.unknownService name))

/-- Lists operations. -/
def list (d : Definitions) (service : Option String) : Except Failure (List OperationRow) := do
  let loaded ← loadDefinitions library tree d
  let services ← selectServices loaded.registry service
  return services.flatMap OperationRow.ofService

/-- The payload of a validation. -/
def readPayload (source : PayloadSource) : Except Failure Json := do
  let text ← match source with
    | .text json => pure json
    | .file path =>
      match tree.readText path with
      | .ok text => pure text
      | .error error => throw (.unreadPayload path error)
  match Json.parse? text with
  | some payload => return payload
  | none => throw .payloadNotJson

/-- Checks a payload against a schema and writes its normal form. -/
def normalize (schema : Schema) (config : Config) (payload : Json) :
    Except Failure (Except FieldErrors Json) :=
  match schema.validate config payload with
  | .error (.rejected _ errors) => .ok (.error errors)
  | .error error => .error (.notValidated error)
  | .ok m =>
    match schema.serialize config m with
    | .ok normal => .ok (.ok normal)
    | .error error => .error (.notSerialized error)

/-- Validates a payload against a side of an operation. -/
def validate (d : Definitions) (v : Validation) : Except Failure ValidationReport := do
  let loaded ← loadDefinitions library tree d
  match loaded.registry.resolve v.service v.operation with
  | .error error => throw (.unresolved error)
  | .ok op =>
    match op.schema? v.side with
    | none => throw (.noSchema v.service op.wire v.side)
    | some schema =>
      let payload ← readPayload tree v.payload
      let result ← normalize schema v.config payload
      return ⟨v.service, op.wire, v.side, schema.name, result⟩

/-- The exit code of a validation that came to a result. -/
def resultCode : Except FieldErrors Json → Nat
  | .ok _ => 0
  | .error _ => 60

/-- What a failure leaves behind. -/
def Outcome.ofFailure (f : Failure) : Outcome := ⟨f.code, "", line ("error: " ++ f.message)⟩

/-- The version of the command. -/
def versionText : String := "svcreg 0.2.1"

/-- Carries out a command. -/
def execute (i : Invocation) : Outcome :=
  match i.action with
  | .check d =>
    match check library tree d with
    | .ok report => ⟨0, report.text i.format, ""⟩
    | .error failure => .ofFailure failure
  | .list d service =>
    match list library tree d service with
    | .ok rows => ⟨0, listText rows i.format, ""⟩
    | .error failure => .ofFailure failure
  | .validate d v =>
    match validate library tree d v with
    | .ok report => ⟨resultCode report.result, report.text i.format, ""⟩
    | .error failure => .ofFailure failure
  | .version => ⟨0, line versionText, ""⟩

/-- The exit code of arguments that make no command. -/
def usageCode : Nat := 2

/-- Carries out what the arguments ask for. -/
def run (arguments : List String) : Outcome :=
  match Arguments.parse? arguments with
  | some invocation => execute library tree invocation
  | none => ⟨usageCode, "", line "error: the arguments make no command"⟩

end ServiceContracts.Command
