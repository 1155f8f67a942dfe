import ServiceContracts.Service.Basic

/-!
# The registry

All services, under their names. It grows until it is sealed and then stays as it is, so that what a request
resolves to can no longer change.
-/

namespace ServiceContracts

/-- The services, in registration order, and whether more are taken. -/
structure Registry where
  byName : Entries String Service
  isSealed : Bool

namespace Registry

-- Sums start from the zero of the core library here, whichever others are in scope.
attribute [local instance (high)] Zero.ofOfNat0

/-- A registry without services that takes some. -/
def empty : Registry := ⟨[], false⟩

/-- The services, in registration order. -/
def services (r : Registry) : List Service := r.byName.map Prod.snd

/-- How many services there are. -/
def size (r : Registry) : Nat := r.byName.length

/-- How many operations all services have together. -/
def operationCount (r : Registry) : Nat := (r.services.map Service.size).sum

/-- The service with a name. -/
def service? (r : Registry) (name : String) : Option Service := Entries.get? r.byName name

/-- Adds a service, while the registry is not sealed and the name is free: the registry as it is afterwards,
and whether the service was taken. -/
def register (r : Registry) (s : Service) : Registry × Except RegistryError Unit :=
  if r.isSealed then (r, .error .isSealed)
  else if Entries.has r.byName s.name then (r, .error (.duplicateService s.name))
  else ({ r with byName := Entries.set r.byName s.name s }, .ok ())

/-- The registry with one more service. -/
def withService (r : Registry) (s : Service) : Except RegistryError Registry :=
  (r.register s).2.map fun _ => (r.register s).1

/-- The registry, from now on as it is. -/
def sealed (r : Registry) : Registry := { r with isSealed := true }

/-- The operation that a request names by service and wire name. -/
def resolve (r : Registry) (service wire : String) : Except ResolveError Operation :=
  match r.service? service with
  | none => .error (.unknownService service)
  | some s =>
    match s.lookup? wire with
    | none => .error (.unknownOperation service wire)
    | some op => .ok op

end Registry

end ServiceContracts
