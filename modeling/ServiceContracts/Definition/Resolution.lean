import ServiceContracts.Definition.Document
import ServiceContracts.Definition.Fault

/-!
# Resolving types

`resolve` turns a declared type into a schema, and the types it refers to before it. Schemas that are built
once are kept in a table and shared. The names on the way to a type are passed down: a type that is on its own
way closes a cycle and is refused, so the way only ever grows by a declared name that was not on it, and the
count of the others (`unvisited`) bounds the recursion.
-/

namespace ServiceContracts.Definition

/-- All declared types, under their names. -/
abbrev Declarations := Entries String TypeDefinition

/-- The schemas that have been built so far. -/
abbrev Built := Entries String Schema

/-- A step of the resolution: it reads and extends the table of built schemas, or fails. -/
abbrev Resolving (α : Type) := StateT Built (Except LoadError) α

/-- How many declared type names are not on the way. -/
def unvisited (decls : Declarations) (way : List String) : Nat := decls.countP fun e => e.1 ∉ way

/-- Each declared name that joins the way leaves fewer. -/
theorem unvisited_append_lt {decls : Declarations} {way : List String} {name : String}
    {d : TypeDefinition} (hway : name ∉ way) (hdecl : Entries.get? decls name = some d) :
    unvisited decls (way ++ [name]) < unvisited decls way := by
  induction decls with
  | nil => simp at hdecl
  | cons e rest ih =>
    obtain ⟨k, v⟩ := e
    by_cases hk : k = name
    · subst hk
      have hle : unvisited rest (way ++ [k]) ≤ unvisited rest way :=
        List.countP_mono_left fun e _ he => by simp_all
      have hleft : unvisited ((k, v) :: rest) (way ++ [k]) = unvisited rest (way ++ [k]) := by
        simp [unvisited]
      have hright : unvisited ((k, v) :: rest) way = unvisited rest way + 1 := by
        simp [unvisited, hway]
      omega
    · have hrest := ih (by simpa [Entries.get?, hk] using hdecl)
      by_cases hkw : k ∈ way <;> simp_all [unvisited]

/-! ## Properties and definitions

What is done for one type asks for the types it refers to, and does not say how they are found: it is the same
for every way to follow a reference, with whatever that way keeps track of. -/

section Following

variable {m : Type → Type} [Monad m] [MonadExcept LoadError m]

/-- The schema that a reference leads to, by way of `follow` for declared names. -/
def resolveReference (decls : Declarations) (follow : String → m Schema) (reference : String)
    (use : TypeUse) : m Schema :=
  match typeName? reference with
  | some name => if Entries.has decls name then follow name else throw (.unknownType reference use)
  | none => throw (.unknownType reference use)

/-- The scalar type of a kind. -/
def scalarOf? : String → Option Scalar
  | "string" => some .string
  | "integer" => some .integer
  | "number" => some .number
  | "boolean" => some .boolean
  | _ => none

/-- The field type of a property, null included if it allows it. A reference takes precedence over kinds. -/
def Property.fieldType (refer : String → m Schema) (type name : String) : Property → m FieldType
  | ⟨kinds, items, reference, _, _, nullable⟩ => do
    if kinds.any Kinds.isUnion then throw (.invalidType type (.union name))
    let inner ← match reference with
      | some reference => FieldType.message <$> refer reference
      | none =>
        match kinds.bind Kinds.kind? with
        | none => throw (.invalidType type (.noKind name))
        | some kind =>
          match scalarOf? kind with
          | some s => pure (FieldType.scalar s)
          | none =>
            if kind = "array" then
              match items with
              | some items => FieldType.list <$> items.fieldType refer type name
              | none => throw (.invalidType type (.noItems name))
            else throw (.invalidType type (.unsupportedKind kind name))
    return if nullable || kinds.any Kinds.listsNull then inner.orNull else inner

/-- The field of a property. One that is neither required nor defaulted may be left out, so it allows null. -/
def Property.field (refer : String → m Schema) (type : String) (required : List String) (name : String)
    (p : Property) : m Field := do
  let base ← p.fieldType refer type name
  match p.default with
  | none => return ⟨name, if name ∈ required then base else base.orNull, none, p.description⟩
  | some raw =>
    match base.read raw with
    | .ok v => return ⟨name, base, some v, p.description⟩
    | .error errors => throw (.invalidType type (.badDefault name errors))

/-- The fields of properties, in their order. -/
def fieldsOf (refer : String → TypeUse → m Schema) (type : String) (required : List String) :
    List (String × Property) → m (List Field)
  | [] => return []
  | (name, p) :: rest => do
    let field ← p.field (fun reference => refer reference (.property name type)) type required name
    return field :: (← fieldsOf refer type required rest)

/-- The schema of a type definition. -/
def TypeDefinition.schema (refer : String → TypeUse → m Schema) (name : String) (d : TypeDefinition) :
    m Schema := do
  match d.required.find? fun r => !Entries.has d.properties r with
  | some missing => throw (.invalidType name (.requiredUndeclared missing))
  | none =>
    let fields ← fieldsOf refer name d.required d.properties
    match Schema.build name d.description fields with
    | .ok schema => return schema
    | .error error => throw (.schema error)

end Following

/-! ## The resolver -/

/-- The schema of a declared type, built if it is not in the table yet. `way` holds the names that lead to
it. -/
def resolve (decls : Declarations) (way : List String) (name : String) : Resolving Schema := do
  match Entries.get? (← get) name with
  | some schema => return schema
  | none =>
    if _hway : name ∈ way then throw (.typeCycle (way.dropWhile (· ≠ name) ++ [name]))
    else
      match _hdecl : Entries.get? decls name with
      | none => throw (.unknownType name .namespaceEntry)
      | some d =>
        let schema ← d.schema (resolveReference decls fun ref => resolve decls (way ++ [name]) ref) name
        modify fun built => Entries.set built name schema
        return schema
termination_by unvisited decls way
decreasing_by exact unvisited_append_lt ‹_› ‹_›

/-- Every declared type, in order. -/
def resolveAll (decls : Declarations) : List String → Resolving Unit
  | [] => return ()
  | name :: rest => do
    let _ ← resolve decls [] name
    resolveAll decls rest

end ServiceContracts.Definition
