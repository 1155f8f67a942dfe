import ServiceContracts.Json.Basic
import ServiceContracts.Schema.Basic
import ServiceContracts.Schema.Offense

/-!
# Writing instances

`FieldType.encode` writes a value of a type as JSON, by recursion on the type. Fields come out in declaration
order, whatever the order in the instance; a field that the instance lacks is written as its effective default;
in compact mode a field that equals its effective default is left out. Instances may have been put together by
hand, so everything about them is checked, and all offenses are found.
-/

namespace ServiceContracts

/-- A value as a scalar. An integer may stand where a number is asked for, and stays an integer. -/
def Scalar.encode : Scalar → Value → Except Reason Json
  | .string, .string s => .ok (.string s)
  | .integer, .integer n => .ok (.number (.whole (.ofInt64 n)))
  | .number, .integer n => .ok (.number (.whole (.ofInt64 n)))
  | .number, .number (.finite x) => .ok (.number (.double x))
  | .number, .number _ => .error .numberNotFinite
  | .boolean, .boolean b => .ok (.boolean b)
  | s, v => .error (.mismatch s.text v.kind)

/-- The fields of an instance that its schema does not declare. -/
def Schema.surplus (fields : List Field) (held : List (String × Value)) : List Offense :=
  (Entries.keys held).filterMap fun name =>
    if fields.any fun f => f.name = name then none else some ⟨[.field name], .unknownField⟩

/-- Is a value what an absent field would be read as anyway? -/
def Field.isDefault (f : Field) (v : Value) : Bool :=
  match f.effectiveDefault with
  | some d => d.same v
  | none => false

mutual

/-- A value of the type, as JSON. -/
def FieldType.encode (compact : Bool) : FieldType → Value → Checked Json
  | .scalar s, v =>
    match s.encode v with
    | .ok json => .ok json
    | .error reason => Checked.refuse reason
  | .optional inner, v =>
    match v with
    | .null => .ok .null
    | v => inner.encode compact v
  | .list element, v =>
    match v with
    | .list items =>
      (Checked.all (items.mapIdx fun i item => (element.encode compact item).under (.index i))).map .array
    | v => Checked.refuse (.mismatch (FieldType.list element).text v.kind)
  | .message schema, v =>
    match v with
    | .message m =>
      if m.schema = schema.name then schema.encode compact m
      else Checked.refuse (.mismatch (schema.name ++ " message") (m.schema ++ " message"))
    | v => Checked.refuse (.mismatch schema.name v.kind)

/-- A message of the schema, as a JSON object. Its schema name has been compared before. -/
def Schema.encode (compact : Bool) : Schema → Instance → Checked Json
  | ⟨_, _, fields⟩, m =>
    (Checked.both (Schema.encodeFields compact fields m)
      (Checked.ofOffenses (Schema.surplus fields m.fields))).map fun p => .object p.1.flatten

/-- The members of an object, for each field none or one. -/
def Schema.encodeFields (compact : Bool) :
    List Field → Instance → Checked (List (List (String × Json)))
  | [], _ => .ok []
  | f :: rest, m =>
    (Checked.both (f.encode compact m) (Schema.encodeFields compact rest m)).map fun p => p.1 :: p.2

/-- The member that a field of an instance is written as, if it is not left out. -/
def Field.encode (compact : Bool) : Field → Instance → Checked (List (String × Json))
  | ⟨name, type, default, doc⟩, m =>
    (match (m.get? name).or (Field.effectiveDefault ⟨name, type, default, doc⟩) with
      | none => Checked.refuse .missingField
      | some v =>
        if compact && Field.isDefault ⟨name, type, default, doc⟩ v then .ok []
        else (type.encode compact v).map fun json => [(name, json)]).under (.field name)

end

end ServiceContracts
