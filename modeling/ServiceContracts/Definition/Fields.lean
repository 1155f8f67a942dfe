import ServiceContracts.Definition.Fault

/-!
# Reading structures off values

A structure has fields, in order, and its fields are members of an object, or the elements of a list. The first
fault counts: of the members of an object in the order in which they stand, and then of the fields that it does
not have, in theirs. Members under other names are not looked at.
-/

namespace ServiceContracts.Definition

/-- A way to read something off a value. -/
abbrev Reader (α : Type) := Json → Except ShapeFault α

namespace Reader

/-- A text. -/
def text : Reader String
  | .string s => .ok s
  | v => .error (.wrongType v "a string")

/-- True or false. -/
def truth : Reader Bool
  | .boolean b => .ok b
  | v => .error (.wrongType v "a boolean")

/-- Any value. -/
def any : Reader Json := .ok

/-- A list of what is read off the items. -/
def list {α : Type} (read : Reader α) : Reader (List α)
  | .array items => items.mapM read
  | v => .error (.wrongType v "a sequence")

/-- What is read off each member, under its name. -/
def map {α : Type} (read : Reader α) : Reader (Entries String α)
  | .object members => members.mapM fun e => (read e.2).map (e.1, ·)
  | v => .error (.wrongType v "a map")

/-- Null stands for nothing. -/
def option {α : Type} (read : Reader α) : Reader (Option α)
  | .null => .ok none
  | v => (read v).map some

end Reader

/-- Where the fields of a structure are. -/
inductive FieldSource where
  | object (members : List (String × Json))
  /-- A list, and in words what it should be. -/
  | array (elements : List Json) (expected : String)

namespace FieldSource

/-- The member under a name, and how many come before it. -/
def locate? : List (String × Json) → String → Option (Nat × Json)
  | [], _ => none
  | (key, v) :: rest, name =>
    if key = name then some (0, v) else (locate? rest name).map fun found => (found.1 + 1, found.2)

/-- The value of a field, and its place among the others. -/
def find? : FieldSource → Nat → String → Option (Nat × Json)
  | .object members, _, name => locate? members name
  | .array elements _, index, _ => elements[index]?.map (index, ·)

end FieldSource

/-- A fault, and where it is noticed. -/
structure FieldFault where
  place : Nat
  fault : ShapeFault

/-- A way to read something off the fields of a structure. -/
def Fields (α : Type) : Type := FieldSource → Except FieldFault α

namespace Fields

variable {α β : Type}

/-- Nothing is read. -/
def pure (a : α) : Fields α := fun _ => .ok a

/-- Both are read, and of two faults the one counts that is noticed first. -/
def seq (f : Fields (α → β)) (x : Unit → Fields α) : Fields β := fun source =>
  match f source, x () source with
  | .ok f, .ok a => .ok (f a)
  | .ok _, .error e => .error e
  | .error e, .ok _ => .error e
  | .error e, .error e' => .error (if e'.place < e.place then e' else e)

instance : Applicative Fields where
  pure := pure
  seq := seq

/-- A field, by its index and its name, with what stands for it where an object or a list does not have it. -/
def field (index : Nat) (name : String) (read : Reader α) (unnamed unlisted : Option α) : Fields α :=
  fun source =>
    match source.find? index name, source with
    | some (place, v), _ => (read v).mapError (⟨place, ·⟩)
    | none, .object members =>
      match unnamed with
      | some a => .ok a
      | none => .error ⟨members.length, .missing name⟩
    | none, .array _ expected =>
      match unlisted with
      | some a => .ok a
      | none => .error ⟨index, .wrongLength index expected⟩

/-- A field that has to be there. -/
def required (index : Nat) (name : String) (read : Reader α) : Fields α :=
  field index name read none none

/-- A field that an object need not have, or may have as null. -/
def optional (index : Nat) (name : String) (read : Reader α) : Fields (Option α) :=
  field index name read.option (some none) none

/-- A field with a default. -/
def withDefault (index : Nat) (name : String) (read : Reader α) (default : α) : Fields α :=
  field index name read (some default) (some default)

/-- What is read off the members of an object. -/
def ofMembers (fields : Fields α) (members : List (String × Json)) : Except ShapeFault α :=
  (fields (.object members)).mapError FieldFault.fault

/-- What is read off a list, which has one element for each of so many fields of the named structure; the last
ones may be left out if they have defaults. -/
def ofElements (fields : Fields α) (name : String) (count : Nat) (elements : List Json) :
    Except ShapeFault α :=
  let expected := "struct " ++ name ++ " with " ++ toString count ++
    (if count = 1 then " element" else " elements")
  match fields (.array elements expected) with
  | .error e => .error e.fault
  | .ok a =>
    if count < elements.length then .error (.wrongLength elements.length "fewer elements in array")
    else .ok a

/-- What is read off a value. -/
def reader (fields : Fields α) (name : String) (count : Nat) : Reader α
  | .object members => fields.ofMembers members
  | .array elements => fields.ofElements name count elements
  | v => .error (.wrongType v ("struct " ++ name))

end Fields

end ServiceContracts.Definition
