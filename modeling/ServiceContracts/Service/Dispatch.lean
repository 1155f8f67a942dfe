import ServiceContracts.Service.Registry

/-!
# Dispatch

A dispatcher serves requests from a sealed registry through the handlers bound to its operations. A request is
resolved and its payload checked before any handler is looked for (`Dispatcher.accept`), so a faulty request is
told apart from a faulty server without knowing what is bound; the handler's answer is checked against the
operation on the way out (`Operation.reply`).
-/

namespace ServiceContracts

/-- What an application does for an operation: it gets the checked input, if the operation takes any, and
gives an output, or fails with a message. -/
abbrev Handler := Option Instance → Except String (Option Instance)

/-- Serving a request: it may fail, and the inputs that handlers are called with meanwhile are recorded, in
order, whether it fails or not. -/
abbrev Serving (ε : Type) := ExceptT ε (StateM (List (Option Instance)))

/-- Calls the handler. The call is on record before its outcome is known. -/
def Handler.call (handler : Handler) (input : Option Instance) : Serving String (Option Instance) := do
  modify fun calls => calls ++ [input]
  MonadExcept.ofExcept (handler input)

/-- The answer to a request. -/
inductive Reply where
  | payload (json : Json)
  /-- The operation has no output. -/
  | acknowledged

/-- What is wrong with a handler's answer. -/
inductive ResponseFault where
  | noOutput
  | unexpectedOutput
  | unfit (error : SchemaError)
  deriving DecidableEq

/-- The fault in words. -/
def ResponseFault.message : ResponseFault → String
  | .noOutput => "handler returned no output"
  | .unexpectedOutput => "handler returned output for an operation without output"
  | .unfit error => error.message

/-- What can go wrong with a request. Services and operations are named as in requests. -/
inductive DispatchError where
  | unresolved (error : ResolveError)
  | badRequest (service operation : String) (errors : FieldErrors)
  | missingPayload (service operation : String)
  | noHandler (service operation : String)
  | notSealed
  | failed (service operation message : String)
  | badResponse (service operation : String) (fault : ResponseFault)
  deriving DecidableEq

namespace DispatchError

/-- The error in words. -/
def message : DispatchError → String
  | .unresolved error => "unknown operation: " ++ error.message
  | .badRequest service operation errors =>
    "bad request for " ++ service ++ "/" ++ operation ++ ": " ++ errors.text
  | .missingPayload service operation =>
    "bad request for " ++ service ++ "/" ++ operation ++ ": payload required"
  | .noHandler service operation => "no handler bound for " ++ service ++ "/" ++ operation
  | .notSealed => "registry must be sealed before dispatching"
  | .failed service operation text =>
    "handler for " ++ service ++ "/" ++ operation ++ " failed: " ++ text
  | .badResponse service operation fault =>
    "invalid response from " ++ service ++ "/" ++ operation ++ ": " ++ fault.message

/-- Is it the caller who sent something wrong? -/
def isClientError : DispatchError → Bool
  | .unresolved _ => true
  | .badRequest _ _ _ => true
  | .missingPayload _ _ => true
  | _ => false

end DispatchError

/-- What a handler's answer becomes. -/
def Operation.reply (op : Operation) (config : Config) (output : Option Instance) :
    Except ResponseFault Reply :=
  match op.output, output with
  | some schema, some m =>
    match schema.serialize config m with
    | .ok json => .ok (.payload json)
    | .error error => .error (.unfit error)
  | some _, none => .error .noOutput
  | none, some _ => .error .unexpectedOutput
  | none, none => .ok .acknowledged

/-- A sealed registry with handlers, each under its service and code name. -/
structure Dispatcher where
  registry : Registry
  config : Config
  handlers : Entries (String × String) Handler

/-- The outcome of a request, and the inputs that a handler was called with meanwhile. -/
structure Exchange where
  outcome : Except DispatchError Reply
  calls : List (Option Instance)

namespace Dispatcher

/-- A dispatcher without handlers over a sealed registry. -/
def new (registry : Registry) (config : Config) : Except DispatchError Dispatcher :=
  if registry.isSealed then .ok ⟨registry, config, []⟩ else .error .notSealed

/-- Binds a handler to the operation with a code name, in place of an earlier one: the dispatcher as it is
afterwards, and whether there is such an operation. -/
def handle (d : Dispatcher) (service code : String) (handler : Handler) :
    Dispatcher × Except DispatchError Unit :=
  match d.registry.service? service with
  | none => (d, .error (.unresolved (.unknownService service)))
  | some s =>
    match s.get? code with
    | none => (d, .error (.unresolved (.unknownOperation service code)))
    | some _ => ({ d with handlers := Entries.set d.handlers (service, code) handler }, .ok ())

/-- The checked input of a request for an operation, if it takes any; a payload it does not take is not
looked at. -/
def input (config : Config) (service : String) (op : Operation) (payload : Option Json) :
    Except DispatchError (Option Instance) :=
  match op.input with
  | none => .ok none
  | some schema =>
    match payload with
    | none => .error (.missingPayload service op.wire)
    | some json =>
      match schema.read config json with
      | .ok m => .ok (some m)
      | .error errors => .error (.badRequest service op.wire errors)

/-- The operation and the checked input of a request. It does not depend on the handlers. -/
def accept (registry : Registry) (config : Config) (service wire : String) (payload : Option Json) :
    Except DispatchError (Operation × Option Instance) :=
  match registry.resolve service wire with
  | .error error => .error (.unresolved error)
  | .ok op => (input config service op payload).map fun m => (op, m)

/-- Serves a request, step by step. -/
def serve (d : Dispatcher) (service wire : String) (payload : Option Json) :
    Serving DispatchError Reply := do
  let (op, m) ← MonadExcept.ofExcept (accept d.registry d.config service wire payload)
  let some handler := Entries.get? d.handlers (service, op.code)
    | throw (.noHandler service op.wire)
  let output ← (handler.call m).adapt (.failed service op.wire)
  MonadExcept.ofExcept ((op.reply d.config output).mapError (.badResponse service op.wire))

/-- Serves a request, from no calls on. -/
def dispatch (d : Dispatcher) (service wire : String) (payload : Option Json) : Exchange :=
  let (outcome, calls) := (d.serve service wire payload).run.run []
  ⟨outcome, calls⟩

end Dispatcher

end ServiceContracts
