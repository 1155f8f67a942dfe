import ServiceContracts.Json.Basic
import ServiceContracts.Proofs.Binary64.Zeros
/-!
# JSON values up to the sign of zeros

`Json.unsigned` takes the sign from every zero in a value and leaves all
else as it is, the order of members included.

`Json.induction` is the induction over a value, so that the items of arrays
and the members of objects need not be walked by hand.
-/


namespace ServiceContracts.Json

section Induction

variable {P : Json → Prop}

mutual

/-- **Induction over a value**, with one hypothesis for each item of an
array and for each member of an object. -/
@[elab_as_elim]
theorem induction (null : P .null) (boolean : ∀ b, P (.boolean b)) (number : ∀ n, P (.number n))
    (string : ∀ s, P (.string s)) (array : ∀ items, (∀ v ∈ items, P v) → P (.array items))
    (object : ∀ members : List (String × Json), (∀ e ∈ members, P e.2) → P (.object members)) :
    ∀ v, P v
  | .null => null
  | .boolean b => boolean b
  | .number n => number n
  | .string s => string s
  | .array items => array items (inductionItems null boolean number string array object items)
  | .object members =>
    object members (inductionMembers null boolean number string array object members)

/-- The same for the items of an array. -/
theorem inductionItems (null : P .null) (boolean : ∀ b, P (.boolean b))
    (number : ∀ n, P (.number n)) (string : ∀ s, P (.string s))
    (array : ∀ items, (∀ v ∈ items, P v) → P (.array items))
    (object : ∀ members : List (String × Json), (∀ e ∈ members, P e.2) → P (.object members)) :
    ∀ items : List Json, ∀ v ∈ items, P v
  | [], _, hv => absurd hv List.not_mem_nil
  | first :: rest, v, hv => by
    have hfirst := induction null boolean number string array object first
    have hrest := inductionItems null boolean number string array object rest
    exact List.forall_mem_cons.mpr ⟨hfirst, hrest⟩ v hv

/-- The same for the members of an object. -/
theorem inductionMembers (null : P .null) (boolean : ∀ b, P (.boolean b))
    (number : ∀ n, P (.number n)) (string : ∀ s, P (.string s))
    (array : ∀ items, (∀ v ∈ items, P v) → P (.array items))
    (object : ∀ members : List (String × Json), (∀ e ∈ members, P e.2) → P (.object members)) :
    ∀ members : List (String × Json), ∀ e ∈ members, P e.2
  | [], _, he => absurd he List.not_mem_nil
  | (_, v) :: rest, e, he => by
    have hfirst := induction null boolean number string array object v
    have hrest := inductionMembers null boolean number string array object rest
    obtain rfl | he := List.mem_cons.mp he
    · exact hfirst
    · exact hrest e he

end

end Induction

/-! ## Without signs -/

/-- The number, or zero without its sign. -/
def Number.unsigned : Number → Number
  | .whole n => .whole n
  | .double x => .double x.unsigned

mutual

/-- The value with the sign of every zero taken away. -/
def unsigned : Json → Json
  | .null => .null
  | .boolean b => .boolean b
  | .number n => .number n.unsigned
  | .string s => .string s
  | .array items => .array (unsignedItems items)
  | .object members => .object (unsignedMembers members)

/-- Each item. -/
def unsignedItems : List Json → List Json
  | [] => []
  | item :: rest => unsigned item :: unsignedItems rest

/-- Each member, under its key. -/
def unsignedMembers : List (String × Json) → List (String × Json)
  | [] => []
  | (key, value) :: rest => (key, unsigned value) :: unsignedMembers rest

end

theorem unsignedItems_eq_map (items : List Json) : unsignedItems items = items.map unsigned := by
  induction items with
  | nil => rfl
  | cons item rest ih => rw [unsignedItems, ih, List.map_cons]

theorem unsignedMembers_eq_map (members : List (String × Json)) :
    unsignedMembers members = members.map fun e => (e.1, e.2.unsigned) := by
  induction members with
  | nil => rfl
  | cons e rest ih => rw [unsignedMembers, ih, List.map_cons]

end ServiceContracts.Json
