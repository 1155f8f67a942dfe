import ServiceContracts.Binary64.Integer
import ServiceContracts.Json.Basic
import ServiceContracts.Schema.Basic
import ServiceContracts.Schema.Offense

/-!
# Reading payloads

`FieldType.decode` checks a JSON value against a type and gives the typed value, by recursion on the type. It
finds all offenses, not only the first: those of a field, of an item and of the keys that a schema does not
declare are joined in declaration, index and payload order. Undeclared keys are offenses in strict mode only;
absent fields take their effective default.
-/

namespace ServiceContracts

-- Powers are those of the core library here, whichever others are in scope.
attribute [local instance (high)] instPowNat

namespace Scalar

/-- A JSON number as the value of an integer field. A double counts when it is whole and between the bounds of
64-bit integers, and is cast; an integer that fits 64 bits only without a sign is out of range. -/
def decodeInteger : Json.Number → Except Reason Value
  | .whole n =>
    if n.val < 2 ^ (63 : Nat) then .ok (.integer (Int64.ofInt n.val)) else .error .integerOutOfRange
  | .double x =>
    if x.isWhole && x.fitsInt64 then .ok (.integer x.toInt64)
    else .error (.mismatch "integer" "number")

/-- A JSON value as a scalar. -/
def decode : Scalar → Json → Except Reason Value
  | .string, .string s => .ok (.string s)
  | .integer, .number n => decodeInteger n
  | .number, .number n => .ok (.number n.toDouble)
  | .boolean, .boolean b => .ok (.boolean b)
  | s, payload => .error (.mismatch s.text payload.kind)

end Scalar

/-- The keys of a payload that a schema does not declare; they matter in strict mode only. -/
def Schema.undeclared (strict : Bool) (fields : List Field) (members : List (String × Json)) :
    List Offense :=
  if strict then
    (Entries.keys members).filterMap fun key =>
      if fields.any fun f => f.name = key then none else some ⟨[.field key], .unknownField⟩
  else []

mutual

/-- A JSON value as a value of the type. -/
def FieldType.decode (strict : Bool) : FieldType → Json → Checked Value
  | .scalar s, payload =>
    match s.decode payload with
    | .ok v => .ok v
    | .error reason => Checked.refuse reason
  | .optional inner, payload =>
    match payload with
    | .null => .ok .null
    | payload => inner.decode strict payload
  | .list element, payload =>
    match payload with
    | .array items =>
      (Checked.all (items.mapIdx fun i item => (element.decode strict item).under (.index i))).map .list
    | payload => Checked.refuse (.mismatch (FieldType.list element).text payload.kind)
  | .message schema, payload => (schema.decode strict payload).map .message

/-- A JSON object as a message of the schema. -/
def Schema.decode (strict : Bool) : Schema → Json → Checked Instance
  | ⟨name, _, fields⟩, payload =>
    match payload with
    | .object members =>
      (Checked.both (Schema.decodeFields strict fields members)
        (Checked.ofOffenses (Schema.undeclared strict fields members))).map fun p => ⟨name, p.1⟩
    | payload => Checked.refuse (.mismatch (name ++ " object") payload.kind)

/-- The fields of a message, in declaration order. -/
def Schema.decodeFields (strict : Bool) :
    List Field → List (String × Json) → Checked (List (String × Value))
  | [], _ => .ok []
  | f :: rest, members =>
    (Checked.both (f.decode strict members) (Schema.decodeFields strict rest members)).map fun p =>
      p.1 :: p.2

/-- One field of a message: its member in the object, or else its effective default. -/
def Field.decode (strict : Bool) : Field → List (String × Json) → Checked (String × Value)
  | ⟨name, type, default, doc⟩, members =>
    ((match Entries.get? members name with
      | some payload => type.decode strict payload
      | none =>
        match Field.effectiveDefault ⟨name, type, default, doc⟩ with
        | some v => .ok v
        | none => Checked.refuse .missingField).under (.field name)).map fun v => (name, v)

end

end ServiceContracts
