import ServiceContracts.Definition.Document
import ServiceContracts.Definition.Fields
import ServiceContracts.Definition.MetaSchema
import ServiceContracts.Json.Reader
import ServiceContracts.JsonSchema

/-!
# Reading documents

A parser accepts a value that carries the dialect and keeps to the meta-schema, in the eyes of the library that
compiled it, and then reads a document off it. The two are checks of their own: a value that passes the first can
fail the second. A null default or reference is the same as none.
-/

namespace ServiceContracts.Definition

/-! ## What is read off values -/

/-- The kinds that a property's `type` lists. -/
def Kinds.read : Reader Kinds
  | .string s => .ok (.one s)
  | .array items =>
    match items.mapM Reader.text with
    | .ok kinds => .ok (.many kinds)
    | .error _ => .error (.noVariant "PropertyKind")
  | _ => .error (.noVariant "PropertyKind")

namespace Property

/-- The fields of a property, given what comes of its items. -/
def fields (items : Except ShapeFault (Option Property)) : Fields Property :=
  Property.mk <$> .optional 0 "type" Kinds.read <*> .field 1 "items" (fun _ => items) (some none) none <*>
    .optional 2 "$ref" .text <*> .withDefault 3 "description" .text "" <*>
    .optional 4 "default" .any <*> .withDefault 5 "nullable" .truth false

mutual

/-- The property that a value describes. -/
def read : Json → Except ShapeFault Property
  | .object members => (fields (readItems members)).ofMembers members
  | .array elements => (fields (readSecond elements)).ofElements "PropertyDef" 6 elements
  | v => .error (.wrongType v "struct PropertyDef")

/-- The items among the members of a property. -/
def readItems : List (String × Json) → Except ShapeFault (Option Property)
  | [] => .ok none
  | (key, v) :: rest =>
    if key = "items" then
      if v matches .null then .ok none else (read v).map some
    else readItems rest

/-- The items where a property is a list. -/
def readSecond : List Json → Except ShapeFault (Option Property)
  | _ :: v :: _ => if v matches .null then .ok none else (read v).map some
  | _ => .ok none

end

end Property

/-- The type that a value describes. -/
def TypeDefinition.read : Reader TypeDefinition :=
  Fields.reader (TypeDefinition.mk <$> .withDefault 0 "description" .text "" <*>
    .withDefault 1 "properties" (.map Property.read) [] <*>
    .withDefault 2 "required" (.list .text) []) "TypeDef" 3

/-- The operation that a value describes. -/
def OperationDefinition.read : Reader OperationDefinition :=
  Fields.reader (OperationDefinition.mk <$> .required 0 "identifier" .text <*>
    .optional 1 "name" .text <*> .withDefault 2 "description" .text "" <*>
    .optional 3 "input" .text <*> .optional 4 "output" .text) "OperationDef" 5

/-- The service that a value describes. -/
def ServiceDefinition.read : Reader ServiceDefinition :=
  Fields.reader (ServiceDefinition.mk <$> .required 0 "identifier" .text <*>
    .optional 1 "name" .text <*> .withDefault 2 "description" .text "" <*>
    .required 3 "operations" (.list OperationDefinition.read)) "ServiceDef" 4

/-- The document that a value describes. The dialect is read as well, and not kept. -/
def Document.read : Reader Document :=
  Fields.reader ((fun _ types services => ⟨types, services⟩) <$> .required 0 "$schema" .text <*>
    .withDefault 1 "types" (.map TypeDefinition.read) [] <*>
    .required 2 "services" (.list ServiceDefinition.read)) "Document" 3

/-! ## The parser -/

/-- A parser, with the compiled meta-schema. -/
structure DocumentParser where
  validator : JsonSchema.Validator

namespace DocumentParser

/-- The parser that a library makes. -/
def new (library : JsonSchema.Library) : Except LoadError DocumentParser :=
  match library.compile metaSchema with
  | .ok validator => .ok ⟨validator⟩
  | .error reason => .error (.metaSchema reason)

/-- Does the value carry the dialect? -/
def hasDialect (v : Json) : Bool :=
  match v.member? "$schema" with
  | some (.string s) => s = dialect
  | _ => false

/-- How many violations are reported. -/
def reportedViolations : Nat := 4

/-- The document that a value describes; `origin` names it in errors. -/
def parseValue (p : DocumentParser) (origin : String) (v : Json) : Except LoadError Document :=
  if hasDialect v then
    match p.validator v with
    | [] =>
      match Document.read v with
      | .ok d => .ok d
      | .error fault => .error (.invalidDocument origin (.shape fault))
    | violations =>
      .error (.invalidDocument origin (.violations (violations.take reportedViolations)))
  else .error (.otherDialect origin (v.member? "$schema"))

/-- The document that a text describes. -/
def parse (p : DocumentParser) (origin text : String) : Except LoadError Document :=
  match Json.parse? text with
  | none => .error (.notJson origin)
  | some v => p.parseValue origin v

end DocumentParser

end ServiceContracts.Definition
