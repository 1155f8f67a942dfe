import ServiceContracts.Definition.MetaSchema
import ServiceContracts.Definition.Reading
import ServiceContracts.Json.Printer

/-!
# The rules of the document format

A library that compiles one schema, the meta-schema of documents. Its validator knows the rules as they are:
`document` lists every rule that a value breaks, in a fixed order. The rules of a value itself come before those
of its members, and members that the format names one by one in the order of the format or, where no other
members are allowed, in the order of the document, with the members that are not allowed after them.
-/

namespace ServiceContracts.Definition

/-- A rule of the document format that a value breaks. -/
inductive Violation where
  | wrongType (value : Json) (expected : String)
  | missing (name : String)
  | unexpected (names : List String)
  | unknownKey (name : String)
  | noIdentifier (value : Json)
  | emptyText
  | repeated (value : Json)
  | noKind (value : Json)

/-- The violation in words. -/
def Violation.message : Violation → String
  | .wrongType value expected => value.compact ++ " is not of type \"" ++ expected ++ "\""
  | .missing name => Json.quote name ++ " is a required property"
  | .unexpected names =>
    "Additional properties are not allowed (" ++
      ", ".intercalate (names.map fun name => "'" ++ name ++ "'") ++
      (if names.length = 1 then " was unexpected)" else " were unexpected)")
  | .unknownKey name =>
    Json.quote name ++ " is not one of \"$schema\", \"types\" or \"services\""
  | .noIdentifier value =>
    value.compact ++ " does not match \"" ++ MetaSchema.identifierPattern ++ "\""
  | .emptyText => "\"\" is shorter than 1 character"
  | .repeated value => value.compact ++ " has non-unique elements"
  | .noKind value =>
    value.compact ++ " is not valid under any of the schemas listed in the 'anyOf' keyword"

namespace Grammar

/-! ## Plain values -/

/-- A text. -/
def text : Json → List Violation
  | .string _ => []
  | v => [.wrongType v "string"]

/-- A text that is not empty. -/
def visibleText : Json → List Violation
  | .string s => if s = "" then [.emptyText] else []
  | v => [.wrongType v "string"]

/-- True or false. -/
def truth : Json → List Violation
  | .boolean _ => []
  | v => [.wrongType v "boolean"]

/-- Is there a letter, and then only letters, digits and underscores? -/
def isWord : List Char → Bool
  | [] => false
  | first :: rest => first.isAlpha && rest.all fun c => c.isAlpha || c.isDigit || c = '_'

/-- A text that the pattern of identifiers matches. -/
def identifier : Json → List Violation
  | .string s => if isWord s.toList then [] else [.noIdentifier (.string s)]
  | v => [.wrongType v "string"]

/-- A list of distinct texts. -/
def names : Json → List Violation
  | .array items =>
    (if Json.allDistinct items then [] else [.repeated (.array items)]) ++ items.flatMap text
  | v => [.wrongType v "array"]

/-! ## Objects -/

/-- One violation for each name that is missing. -/
def required (wanted : List String) (members : List (String × Json)) : List Violation :=
  (wanted.filter fun name => !Entries.has members name).map .missing

/-- The rules of a member that need not be there. -/
def optional (rules : Json → List Violation) (members : List (String × Json)) (name : String) :
    List Violation :=
  match Entries.get? members name with
  | some v => rules v
  | none => []

/-- The members that the rules know, in document order, and then one violation for all the others. -/
def closed (rules : String → Option (Json → List Violation)) (members : List (String × Json)) :
    List Violation :=
  let others := (Entries.keys members).filter fun key => (rules key).isNone
  members.flatMap (fun (key, v) => match rules key with
    | some check => check v
    | none => []) ++
    if others.isEmpty then [] else [.unexpected others]

/-- The same rules for every item of a list. -/
def listOf (rules : Json → List Violation) : Json → List Violation
  | .array items => items.flatMap rules
  | v => [.wrongType v "array"]

/-- The same rules for every member of an object. -/
def mapOf (rules : Json → List Violation) : Json → List Violation
  | .object members => members.flatMap fun e => rules e.2
  | v => [.wrongType v "object"]

/-! ## Properties -/

/-- The kinds of a property, null apart. -/
def kindNames : List String := ["string", "integer", "number", "boolean", "array"]

/-- The name of a kind. -/
def isKind : Json → Bool
  | .string s => s ∈ kindNames
  | _ => false

/-- A single kind, or a list of one or two different ones, null included. -/
def isKinds : Json → Bool
  | .array items =>
    items.all (fun item => isKind item || item.denotesSame (.string "null")) &&
      1 ≤ items.length && items.length ≤ 2 && Json.allDistinct items
  | v => isKind v

/-- What a property's `type` may be. -/
def kinds (v : Json) : List Violation := if isKinds v then [] else [.noKind v]

mutual

/-- A property. Members that the format does not name are let through. -/
def property : Json → List Violation
  | .object members =>
    optional kinds members "type" ++ items members ++ optional text members "description" ++
      optional truth members "nullable"
  | v => [.wrongType v "object"]

/-- The items of a property, which are a property again. -/
def items : List (String × Json) → List Violation
  | [] => []
  | (key, v) :: rest => if key = "items" then property v else items rest

end

/-! ## Types, services, documents -/

/-- The members of a type. -/
def typeRules : String → Option (Json → List Violation)
  | "description" => some text
  | "properties" => some (mapOf property)
  | "required" => some names
  | _ => none

/-- A type. -/
def type : Json → List Violation
  | .object members => closed typeRules members
  | v => [.wrongType v "object"]

/-- The members of an operation. -/
def operationRules : String → Option (Json → List Violation)
  | "identifier" => some identifier
  | "name" => some visibleText
  | "description" => some text
  | "input" => some visibleText
  | "output" => some visibleText
  | _ => none

/-- An operation. -/
def operation : Json → List Violation
  | .object members => required ["identifier"] members ++ closed operationRules members
  | v => [.wrongType v "object"]

/-- The members of a service. -/
def serviceRules : String → Option (Json → List Violation)
  | "identifier" => some identifier
  | "name" => some visibleText
  | "description" => some text
  | "operations" => some (listOf operation)
  | _ => none

/-- A service. -/
def service : Json → List Violation
  | .object members => required ["identifier", "operations"] members ++ closed serviceRules members
  | v => [.wrongType v "object"]

/-- The members of a document. -/
def documentKeys : List String := ["$schema", "types", "services"]

/-- All rules that a value breaks as a document. -/
def document : Json → List Violation
  | .object members =>
    required ["$schema", "services"] members ++ optional (mapOf type) members "types" ++
      optional (listOf service) members "services" ++
      ((Entries.keys members).filter fun key => key ∉ documentKeys).map .unknownKey
  | v => [.wrongType v "object"]

/-! ## The library -/

/-- The validator of the meta-schema. -/
def validator : JsonSchema.Validator := fun v => (document v).map Violation.message

/-- The library. -/
def library : JsonSchema.Library where
  compile schema :=
    if schema.denotesSame metaSchema then .ok validator
    else .error "only the meta-schema of documents is known"

/-- The parser that checks documents with it. -/
def parser : DocumentParser := ⟨validator⟩

end Grammar

end ServiceContracts.Definition
