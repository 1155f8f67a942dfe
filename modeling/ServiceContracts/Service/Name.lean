import ServiceContracts.Text.Blank
import ServiceContracts.Text.Quoted

/-!
# Names of services and operations

Code names are identifiers of ASCII letters, digits and underscores that start with a letter. Service names and
wire names are free: they only have to show something and to hold no control character.

`RegistryError` gathers all that can go wrong while services are put together and registered, and
`ResolveError` the two ways in which a request can miss.
-/

namespace ServiceContracts

/-- Why a name is refused. -/
inductive NameFault where
  | empty
  | noLeadingLetter
  | otherCharacter
  | control
  deriving DecidableEq

/-- The fault in words. -/
def NameFault.message : NameFault → String
  | .empty => "must not be empty"
  | .noLeadingLetter => "must start with an ASCII letter"
  | .otherCharacter => "may only contain ASCII letters, digits and '_'"
  | .control => "must not contain control characters"

/-- The two names of an operation. -/
inductive OperationName where
  | code
  | wire
  deriving DecidableEq

/-- The name's kind, in words. -/
def OperationName.text : OperationName → String
  | .code => "code name"
  | .wire => "wire name"

/-- What can go wrong in putting services together. -/
inductive RegistryError where
  /-- A name of the given kind is malformed. -/
  | invalidName (kind value : String) (fault : NameFault)
  /-- The service already has an operation of this name. -/
  | duplicateOperation (service : String) (kind : OperationName) (name : String)
  | duplicateService (name : String)
  /-- The registry takes no more services. -/
  | isSealed
  deriving DecidableEq

/-- The error in words. -/
def RegistryError.message : RegistryError → String
  | .invalidName kind value fault =>
    "invalid " ++ kind ++ " " ++ Text.quoted value ++ ": " ++ fault.message
  | .duplicateOperation service kind name =>
    kind.text ++ " " ++ Text.quoted name ++ " already registered in service " ++ service
  | .duplicateService name => "service " ++ Text.quoted name ++ " already registered"
  | .isSealed => "registry is sealed"

/-- How a service or an operation can be missing. -/
inductive ResolveError where
  | unknownService (service : String)
  | unknownOperation (service operation : String)
  deriving DecidableEq

/-- The error in words. -/
def ResolveError.message : ResolveError → String
  | .unknownService service => "unknown service " ++ Text.quoted service
  | .unknownOperation service operation =>
    "unknown operation " ++ Text.quoted operation ++ " in service " ++ service

namespace Name

/-- An ASCII letter. -/
def isLetter (c : Char) : Bool := c.isAlpha

/-- A character of an identifier. -/
def isIdentifierChar (c : Char) : Bool := c.isAlphanum || c = '_'

/-- What keeps a text from being an identifier. -/
def identifierFault? (value : String) : Option NameFault :=
  match value.toList with
  | [] => some .empty
  | c :: rest =>
    if !isLetter c then some .noLeadingLetter
    else if !rest.all isIdentifierChar then some .otherCharacter
    else none

/-- What keeps a text from being a service name or a wire name. -/
def visibleFault? (value : String) : Option NameFault :=
  if Text.isBlank value then some .empty
  else if value.toList.any Text.isControl then some .control
  else none

/-- Accepts identifiers; `kind` says what the name is for. -/
def checkIdentifier (kind value : String) : Except RegistryError Unit :=
  match identifierFault? value with
  | none => .ok ()
  | some fault => .error (.invalidName kind value fault)

/-- Accepts visible names; `kind` says what the name is for. -/
def checkVisible (kind value : String) : Except RegistryError Unit :=
  match visibleFault? value with
  | none => .ok ()
  | some fault => .error (.invalidName kind value fault)

end Name

end ServiceContracts
