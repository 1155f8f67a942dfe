import ServiceContracts.FileTree
import ServiceContracts.Json.Printer
import ServiceContracts.Schema.Build
import ServiceContracts.Service.Name

/-!
# What can go wrong with definitions

One type for each stage: a file that is not read (`ReadFault`), a value that is no document (`DocumentFault`), a
type that makes no schema (`TypeFault`), and `LoadError` over all of them.
-/

namespace ServiceContracts.Definition

/-- Why a document is not read from the file tree. -/
inductive ReadFault where
  | directory (path : String) (error : FileError)
  /-- An entry of a directory cannot be looked at. -/
  | entry (error : FileError)
  | symlink (name : String)
  | tooMany (limit count : Nat)
  | notOpened (path : String) (error : FileError)
  | tooLarge (size : Nat) (path : String)
  | notRead (path : String) (error : FileError)
  /-- The file turned out longer than it was said to be. -/
  | grew (path : String)
  deriving DecidableEq

/-- The fault in words. -/
def ReadFault.message : ReadFault → String
  | .directory path error => path ++ ": " ++ error.message
  | .entry error => error.message
  | .symlink name => "refusing to load definition symlink: " ++ name
  | .tooMany limit count =>
    "definition count exceeds configured max (" ++ toString limit ++ "): " ++ toString count
  | .notOpened path error => "failed opening definition " ++ path ++ ": " ++ error.message
  | .tooLarge size path =>
    "definition file too large (" ++ toString size ++ " bytes): " ++ path
  | .notRead path error => "failed reading definition " ++ path ++ ": " ++ error.message
  | .grew path => "definition file too large while reading: " ++ path

/-- A value that stands where another should, in words. -/
def describeValue : Json → String
  | .null => "null"
  | .boolean b => "boolean `" ++ (if b then "true" else "false") ++ "`"
  | .number (.whole n) => "integer `" ++ toString n.val ++ "`"
  | .number (.double x) => "floating point `" ++ x.text ++ "`"
  | .string s => "string " ++ Text.quoted s
  | .array _ => "sequence"
  | .object _ => "map"

/-- Why nothing is read off a value. -/
inductive ShapeFault where
  | wrongType (value : Json) (expected : String)
  | missing (field : String)
  /-- A list has too few elements for a structure, or too many. -/
  | wrongLength (length : Nat) (expected : String)
  /-- The value is no variant of the named type, whose variants have no tags. -/
  | noVariant (type : String)

/-- The fault in words. -/
def ShapeFault.message : ShapeFault → String
  | .wrongType value expected =>
    "invalid type: " ++ describeValue value ++ ", expected " ++ expected
  | .missing field => "missing field `" ++ field ++ "`"
  | .wrongLength length expected =>
    "invalid length " ++ toString length ++ ", expected " ++ expected
  | .noVariant type => "data did not match any variant of untagged enum " ++ type

/-- Why a value is no document. -/
inductive DocumentFault where
  /-- It does not keep to the meta-schema; what is reported of that, in words. -/
  | violations (first : List String)
  /-- It does, but no document can be read off it. -/
  | shape (fault : ShapeFault)

/-- The fault in words. -/
def DocumentFault.message : DocumentFault → String
  | .violations first => "; ".intercalate first
  | .shape fault => fault.message

/-- Where a type is asked for. -/
inductive TypeUse where
  | property (name type : String)
  | operation (service identifier : String)
  | namespaceEntry
  deriving DecidableEq

/-- The place in words. -/
def TypeUse.text : TypeUse → String
  | .property name type => "property " ++ name ++ " of type " ++ type
  | .operation service identifier => "service " ++ service ++ ", operation " ++ identifier
  | .namespaceEntry => "type namespace"

/-- Why a type definition makes no schema. -/
inductive TypeFault where
  | requiredUndeclared (name : String)
  | union (property : String)
  | noItems (property : String)
  | unsupportedKind (kind property : String)
  | noKind (property : String)
  | badDefault (property : String) (errors : FieldErrors)
  deriving DecidableEq

/-- The fault in words. -/
def TypeFault.message : TypeFault → String
  | .requiredUndeclared name => "required property " ++ name ++ " is not declared"
  | .union property => "property " ++ property ++ " lists more than one type besides null"
  | .noItems property => "array property " ++ property ++ " requires items"
  | .unsupportedKind kind property => "unsupported type " ++ kind ++ " for property " ++ property
  | .noKind property => "property " ++ property ++ " needs a type or $ref"
  | .badDefault property errors => "default for property " ++ property ++ ": " ++ errors.text

/-- What can go wrong in loading definitions. Origins name documents. -/
inductive LoadError where
  | notRead (fault : ReadFault)
  | notJson (origin : String)
  /-- The document's `$schema` is another one, or missing. -/
  | otherDialect (origin : String) (found : Option Json)
  | invalidDocument (origin : String) (fault : DocumentFault)
  | duplicateType (name first second : String)
  | unknownType (reference : String) (use : TypeUse)
  | typeCycle (names : List String)
  | invalidType (name : String) (fault : TypeFault)
  | schema (error : SchemaError)
  | registry (error : RegistryError)
  /-- The meta-schema does not compile. -/
  | metaSchema (reason : String)

/-- The error in words. -/
def LoadError.message : LoadError → String
  | .notRead fault => "failed to load definition: " ++ fault.message
  | .notJson origin => "definition " ++ origin ++ " is not valid JSON"
  | .otherDialect origin found =>
    "definition " ++ origin ++ " has unsupported $schema " ++
      Text.quoted ((found.map Json.compact).getD "")
  | .invalidDocument origin fault => "definition " ++ origin ++ " is invalid: " ++ fault.message
  | .duplicateType name first second =>
    "type " ++ name ++ " defined in both " ++ first ++ " and " ++ second
  | .unknownType reference use => "could not find type " ++ reference ++ " for " ++ use.text
  | .typeCycle names => "type reference cycle: " ++ " -> ".intercalate names
  | .invalidType name fault => "invalid type " ++ name ++ ": " ++ fault.message
  | .schema error => error.message
  | .registry error => error.message
  | .metaSchema reason => "failed to compile definition meta-schema: " ++ reason

end ServiceContracts.Definition
