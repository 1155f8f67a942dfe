import ServiceContracts.Entries
import ServiceContracts.Json.Basic

/-!
# Definition documents

A document declares named types and services in terms of them. Types refer to each other by name; the names
of all documents of one load share a single space.
-/

namespace ServiceContracts.Definition

/-- The `$schema` that every document has to carry. -/
def dialect : String := "http://api.nexus/draft-01/schema#"

/-- What a property's `type` lists: one kind, or several. -/
inductive Kinds where
  | one (kind : String)
  | many (kinds : List String)
  deriving DecidableEq

namespace Kinds

/-- All listed kinds. -/
def toList : Kinds → List String
  | .one kind => [kind]
  | .many kinds => kinds

/-- The first kind other than null. -/
def kind? (k : Kinds) : Option String := k.toList.find? fun kind => kind ≠ "null"

/-- Is null among the kinds? -/
def listsNull (k : Kinds) : Bool := k.toList.any fun kind => kind = "null"

/-- Are there several kinds other than null? -/
def isUnion (k : Kinds) : Bool := 1 < (k.toList.filter fun kind => kind ≠ "null").length

end Kinds

/-- A property of a type. -/
structure Property where
  kinds : Option Kinds
  items : Option Property
  reference : Option String
  description : String
  default : Option Json
  nullable : Bool

/-- Is null a value of the property, by its flag or by its kinds? -/
def Property.allowsNull (p : Property) : Bool := p.nullable || p.kinds.any Kinds.listsNull

/-- A named type of message. -/
structure TypeDefinition where
  description : String
  properties : Entries String Property
  required : List String

/-- An operation of a service. -/
structure OperationDefinition where
  identifier : String
  name : Option String
  description : String
  input : Option String
  output : Option String

/-- The name that requests give. -/
def OperationDefinition.wireName (d : OperationDefinition) : String := d.name.getD d.identifier

/-- A service. -/
structure ServiceDefinition where
  identifier : String
  name : Option String
  description : String
  operations : List OperationDefinition

/-- The name that the service is registered under. -/
def ServiceDefinition.serviceName (d : ServiceDefinition) : String := d.name.getD d.identifier

/-- A parsed document. -/
structure Document where
  types : Entries String TypeDefinition
  services : List ServiceDefinition

/-- What stands before the type's name in a reference within the document. -/
def typesPointer : List Char := "#/types/".toList

/-- The type name that a reference gives: what follows the pointer to the types, if that is a single name, or the
whole reference if it is no pointer. -/
def typeName? (reference : String) : Option String :=
  let chars := reference.toList
  if typesPointer.isPrefixOf chars then
    let name := chars.drop typesPointer.length
    if name = [] ∨ '/' ∈ name then none else some (String.ofList name)
  else if chars.head? = some '#' ∨ chars = [] then none
  else some reference

end ServiceContracts.Definition
