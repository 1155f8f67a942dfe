import ServiceContracts.Schema.Build
import ServiceContracts.Service.Name

/-!
# Operations

An operation has a name for those who implement it and a name for requests, and may have a schema for what it
takes and one for what it gives. That a schema is absent is not the same as an empty one: without an input
schema no payload is ever looked at.
-/

namespace ServiceContracts

/-- The four combinations of input and output. -/
inductive OperationShape where
  | requestResponse
  /-- Answered with an empty acknowledgment. -/
  | requestOnly
  | responseOnly
  | signal
  deriving DecidableEq

/-- The shape in words. -/
def OperationShape.text : OperationShape → String
  | .requestResponse => "request-response"
  | .requestOnly => "request-only"
  | .responseOnly => "response-only"
  | .signal => "signal"

/-- The two sides of an operation. -/
inductive Side where
  | input
  | output
  deriving DecidableEq

/-- The side in words. -/
def Side.text : Side → String
  | .input => "input"
  | .output => "output"

/-- An operation of a service. -/
structure Operation where
  /-- The name that handlers are bound under. -/
  code : String
  /-- The name that requests give. -/
  wire : String
  input : Option Schema
  output : Option Schema
  doc : String

namespace Operation

/-- The operation's combination of input and output. -/
def shape (op : Operation) : OperationShape :=
  match op.input, op.output with
  | some _, some _ => .requestResponse
  | some _, none => .requestOnly
  | none, some _ => .responseOnly
  | none, none => .signal

/-- The schema of a side. -/
def schema? (op : Operation) : Side → Option Schema
  | .input => op.input
  | .output => op.output

/-- The operation with these names, if they are well formed. Without a name of its own for requests the code
name serves for both. -/
def build (code : String) (wire : Option String) (input output : Option Schema) (doc : String) :
    Except RegistryError Operation := do
  Name.checkIdentifier "operation code name" code
  let wireName := wire.getD code
  Name.checkVisible "operation wire name" wireName
  return ⟨code, wireName, input, output, doc⟩

/-- Equality of optional schemas. -/
def sameSchema : Option Schema → Option Schema → Bool
  | none, none => true
  | some a, some b => a.same b
  | _, _ => false

/-- Equality of operations, their schemas included. -/
def same (a b : Operation) : Bool :=
  a.code == b.code && a.wire == b.wire && sameSchema a.input b.input && sameSchema a.output b.output &&
    a.doc == b.doc

end Operation

end ServiceContracts
