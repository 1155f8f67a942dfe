import ServiceContracts.Entries
import ServiceContracts.Service.Operation

/-!
# Services

A service keeps its operations under their code names, in registration order, and beside them an index from
wire names to places in that order. Registering an operation extends both or, when either name is taken,
neither.
-/

namespace ServiceContracts

/-- A named group of operations. -/
structure Service where
  name : String
  doc : String
  /-- The operations under their code names, in registration order. -/
  byCode : Entries String Operation
  /-- For each wire name the place of its operation. -/
  byWire : Entries String Nat

namespace Service

/-- A service without operations. -/
def new (name doc : String) : Except RegistryError Service := do
  Name.checkVisible "service name" name
  return ⟨name, doc, [], []⟩

/-- The operations, in registration order. -/
def operations (s : Service) : List Operation := s.byCode.map Prod.snd

/-- How many operations there are. -/
def size (s : Service) : Nat := s.byCode.length

/-- Adds an operation: the service as it is afterwards, and whether the operation was taken. The code name is
looked at first. -/
def register (s : Service) (op : Operation) : Service × Except RegistryError Unit :=
  if Entries.has s.byCode op.code then (s, .error (.duplicateOperation s.name .code op.code))
  else if Entries.has s.byWire op.wire then (s, .error (.duplicateOperation s.name .wire op.wire))
  else
    ({ s with
      byCode := Entries.set s.byCode op.code op
      byWire := Entries.set s.byWire op.wire s.size }, .ok ())

/-- The service with one more operation. -/
def withOperation (s : Service) (op : Operation) : Except RegistryError Service :=
  (s.register op).2.map fun _ => (s.register op).1

/-- The operation with a code name. -/
def get? (s : Service) (code : String) : Option Operation := Entries.get? s.byCode code

/-- The operation with a wire name. -/
def lookup? (s : Service) (wire : String) : Option Operation :=
  (Entries.get? s.byWire wire).bind fun place => s.operations[place]?

end Service

end ServiceContracts
