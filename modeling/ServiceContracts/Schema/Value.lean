import ServiceContracts.Binary64.Rounding
import ServiceContracts.Entries

/-!
# Values and instances

A value is what a field holds once its payload has been checked. An instance is a message: the name of its
schema and its fields, in the order in which they were first set. Integers and numbers are different values,
whatever they denote, and instances are compared without regard to the order of their fields.
-/

namespace ServiceContracts

mutual

/-- A typed field value. -/
inductive Value where
  | null
  | boolean (b : Bool)
  | integer (n : Int64)
  | number (x : Binary64)
  | string (s : String)
  | list (items : List Value)
  | message (m : Instance)

/-- A message: the name of the schema it belongs to, and its fields. -/
structure Instance where
  schema : String
  fields : List (String × Value)

end

instance : Inhabited Value := ⟨.null⟩

namespace Instance

/-- A message without fields. -/
def empty (schema : String) : Instance := ⟨schema, []⟩

/-- The value of a field. -/
def get? (m : Instance) (field : String) : Option Value := Entries.get? m.fields field

/-- Sets a field, in its place if the message has it, else as the last one. -/
def set (m : Instance) (field : String) (value : Value) : Instance :=
  { m with fields := Entries.set m.fields field value }

/-- Takes a field out; the others keep their order. -/
def erase (m : Instance) (field : String) : Instance :=
  { m with fields := Entries.erase m.fields field }

/-- Sets a field and gives back what it held. -/
def put (m : Instance) (field : String) (value : Value) : Option Value × Instance :=
  let (replaced, fields) := Entries.put m.fields field value
  (replaced, { m with fields })

/-- Takes a field out and gives back what it held. -/
def pop (m : Instance) (field : String) : Option Value × Instance :=
  let (removed, fields) := Entries.pop m.fields field
  (removed, { m with fields })

/-- How many fields are set. -/
def size (m : Instance) : Nat := m.fields.length

/-- The message with these fields, set one after the other. -/
def ofFields (schema : String) (fields : List (String × Value)) : Instance :=
  ⟨schema, Entries.ofList fields⟩

theorem put_eq (m : Instance) (field : String) (value : Value) :
    m.put field value = (m.get? field, m.set field value) := by
  rw [put, Entries.put_eq, get?, set]

theorem pop_eq (m : Instance) (field : String) :
    m.pop field = (m.get? field, m.erase field) := by
  rw [pop, Entries.pop_eq, get?, erase]

end Instance

namespace Value

/-- The kind of a value, in the words of the reports. -/
def kind : Value → String
  | .null => "null"
  | .boolean _ => "boolean"
  | .integer _ => "integer"
  | .number _ => "number"
  | .string _ => "string"
  | .list _ => "list"
  | .message _ => "message"

/-! ## What a value holds -/

/-- Is it null? -/
def isNull : Value → Bool
  | .null => true
  | _ => false

/-- The truth value. -/
def boolean? : Value → Option Bool
  | .boolean b => some b
  | _ => none

/-- The integer. -/
def integer? : Value → Option Int64
  | .integer n => some n
  | _ => none

/-- The numeric view: an integer widens to the double nearest to it. -/
def double? : Value → Option Binary64
  | .number x => some x
  | .integer n => some (Binary64.ofInt n.toInt)
  | _ => none

/-- The text. -/
def string? : Value → Option String
  | .string s => some s
  | _ => none

/-- The items of a list. -/
def items? : Value → Option (List Value)
  | .list items => some items
  | _ => none

/-- The nested message. -/
def message? : Value → Option Instance
  | .message m => some m
  | _ => none

/-- What is absent is null. -/
def ofOption : Option Value → Value
  | none => .null
  | some v => v

end Value

/-! ## Equality -/

mutual

/-- Equality of values: by value on numbers, so that what is not a number differs from itself. -/
def Value.same : Value → Value → Bool
  | .null, .null => true
  | .boolean a, .boolean b => a == b
  | .integer a, .integer b => a == b
  | .number a, .number b => a.same b
  | .string a, .string b => a == b
  | .list a, .list b => Value.itemsSame a b
  | .message a, .message b => a.same b
  | _, _ => false

/-- Equality of instances: the same schema name and the same fields, in whatever order. -/
def Instance.same : Instance → Instance → Bool
  | ⟨schema, fields⟩, other =>
    schema == other.schema && fields.length == other.fields.length &&
      Value.fieldsSame fields other.fields

/-- The items of two lists, one by one. -/
def Value.itemsSame : List Value → List Value → Bool
  | [], [] => true
  | a :: as, b :: bs => a.same b && Value.itemsSame as bs
  | _, _ => false

/-- Every field of the first list, against the field of that name in the second. -/
def Value.fieldsSame : List (String × Value) → List (String × Value) → Bool
  | [], _ => true
  | (name, a) :: rest, others =>
    (match Entries.get? others name with
      | some b => a.same b
      | none => false) && Value.fieldsSame rest others

end

end ServiceContracts
