import ServiceContracts.Definition.Reading
import ServiceContracts.Definition.Resolution
import ServiceContracts.Service.Registry

/-!
# Loading definitions

A loader collects documents, each with the name of its origin, and builds them into a registry: first all
types, whether or not an operation refers to them, then the services in document order. The first error ends
the load.
-/

namespace ServiceContracts.Definition

/-- A document and the name of where it comes from. -/
structure Source where
  origin : String
  document : Document

/-- The types of all documents, each with its origin, in document order. -/
def declared (sources : List Source) : List (String × String × TypeDefinition) :=
  sources.flatMap fun s => s.document.types.map fun t => (t.1, s.origin, t.2)

/-- Types under their names, with their origins, unless a name comes twice. -/
def collectTypes (known : Entries String (String × TypeDefinition)) :
    List (String × String × TypeDefinition) →
      Except LoadError (Entries String (String × TypeDefinition))
  | [] => .ok known
  | (name, origin, d) :: rest =>
    match Entries.get? known name with
    | some (first, _) => .error (.duplicateType name first origin)
    | none => collectTypes (Entries.set known name (origin, d)) rest

/-- The description, or else a generated one. -/
def docOr (description fallback : String) : String :=
  if Text.isBlank description then fallback else description

section Services

variable {m : Type → Type} [Monad m] [MonadExcept LoadError m]

/-- An error of the registry, as an error of the load. -/
def liftRegistry {α : Type} : Except RegistryError α → m α
  | .ok a => return a
  | .error error => throw (.registry error)

/-- The schema of a side of an operation, if it has one, by way of `follow`. -/
def sideSchema (decls : Declarations) (follow : String → m Schema) (use : TypeUse) :
    Option String → m (Option Schema)
  | none => return none
  | some reference => some <$> resolveReference decls follow reference use

/-- The operation of a definition. -/
def OperationDefinition.build (decls : Declarations) (follow : String → m Schema) (service : String)
    (d : OperationDefinition) : m Operation := do
  let use := TypeUse.operation service d.identifier
  let input ← sideSchema decls follow use d.input
  let output ← sideSchema decls follow use d.output
  liftRegistry (Operation.build d.identifier (some d.wireName) input output
    (docOr d.description ("Operation for " ++ d.wireName ++ ".")))

/-- Adds the operations of definitions to a service, one after the other. -/
def addOperations (decls : Declarations) (follow : String → m Schema) (s : Service) :
    List OperationDefinition → m Service
  | [] => return s
  | d :: rest => do
    let op ← d.build decls follow s.name
    addOperations decls follow (← liftRegistry (s.withOperation op)) rest

/-- The service of a definition. -/
def ServiceDefinition.build (decls : Declarations) (follow : String → m Schema) (d : ServiceDefinition) :
    m Service := do
  liftRegistry (Name.checkIdentifier "service identifier" d.identifier)
  let s ← liftRegistry (Service.new d.serviceName
    (docOr d.description ("Service for " ++ d.serviceName ++ ".")))
  addOperations decls follow s d.operations

/-- Adds the services of definitions to a registry, one after the other. -/
def addServices (decls : Declarations) (follow : String → m Schema) (r : Registry) :
    List ServiceDefinition → m Registry
  | [] => return r
  | d :: rest => do
    let s ← d.build decls follow
    addServices decls follow (← liftRegistry (r.withService s)) rest

end Services

/-- The services of all documents, in document order. -/
def services (sources : List Source) : List ServiceDefinition :=
  sources.flatMap fun s => s.document.services

/-- The registry of a list of documents, and the schemas of their types. -/
def load (sources : List Source) : Except LoadError (Registry × Built) := do
  let types ← collectTypes [] (declared sources)
  let decls : Declarations := types.map fun e => (e.1, e.2.2)
  let build : Resolving Registry := do
    resolveAll decls (Entries.keys decls)
    addServices decls (resolve decls []) Registry.empty (services sources)
  build.run []

/-- The registry of a list of documents. -/
def buildRegistry (sources : List Source) : Except LoadError Registry := (load sources).map Prod.fst

/-- How much is read from files. -/
structure Limits where
  /-- Documents from one directory. -/
  documents : Nat
  /-- Bytes of one document. -/
  bytes : Nat
  deriving DecidableEq

/-- 256 documents of at most a mebibyte each. -/
def Limits.standard : Limits := ⟨256, 1048576⟩

/-- Documents on their way into a registry. -/
structure Loader where
  parser : DocumentParser
  limits : Limits
  sources : List Source

namespace Loader

/-- A loader without documents, with the parser that a library makes. -/
def new (library : JsonSchema.Library) (limits : Limits) : Except LoadError Loader :=
  (DocumentParser.new library).map fun parser => ⟨parser, limits, []⟩

/-- Adds a document that was read, and else leaves the loader as it is. -/
def push (l : Loader) (origin : String) : Except LoadError Document → Loader × Except LoadError Unit
  | .ok d => ({ l with sources := l.sources ++ [⟨origin, d⟩] }, .ok ())
  | .error error => (l, .error error)

/-- Adds the document of a JSON value. -/
def addJson (l : Loader) (origin : String) (v : Json) : Loader × Except LoadError Unit :=
  l.push origin (l.parser.parseValue origin v)

/-- Adds the document of a text. -/
def addText (l : Loader) (origin text : String) : Loader × Except LoadError Unit :=
  l.push origin (l.parser.parse origin text)

/-- The registry of the documents, not sealed. -/
def build (l : Loader) : Except LoadError Registry := buildRegistry l.sources

end Loader

end ServiceContracts.Definition
