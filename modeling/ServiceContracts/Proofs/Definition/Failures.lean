import ServiceContracts.Proofs.Definition.Cycles
import ServiceContracts.Proofs.Definition.Loaded
import Mathlib.Data.List.Duplicate
/-!
# What a failing load says

A load that fails gives one error, the first it meets. `Justified` is what
has to be so for each error to be true, and `FailsOnly` that a
computation gives no other: there is a lemma for every function of a
load, and `Loader.justified_of_build` for the load itself.

Of the errors, the reported cycle says most. With what is known of loads
that succeed, it makes the search for cycles exact (`Loader.build_cycles`).
-/


namespace ServiceContracts.Definition

/-! ## Errors that are true -/

/-- **Why the registry refuses an operation**: one of its names is malformed,
or taken. -/
inductive OperationDefinition.Refused (service : String) (d : OperationDefinition) :
    RegistryError → Prop
  | identifier {fault : NameFault} (h : Name.identifierFault? d.identifier = some fault) :
      Refused service d (.invalidName "operation code name" d.identifier fault)
  | wireName {fault : NameFault} (h : Name.visibleFault? d.wireName = some fault) :
      Refused service d (.invalidName "operation wire name" d.wireName fault)
  | codeTaken : Refused service d (.duplicateOperation service .code d.identifier)
  | wireTaken : Refused service d (.duplicateOperation service .wire d.wireName)

/-- **Why the registry refuses a service**: one of its names is malformed, or
taken, or one of its operations is refused. -/
inductive ServiceDefinition.Refused (d : ServiceDefinition) : RegistryError → Prop
  | identifier {fault : NameFault} (h : Name.identifierFault? d.identifier = some fault) :
      Refused d (.invalidName "service identifier" d.identifier fault)
  | serviceName {fault : NameFault} (h : Name.visibleFault? d.serviceName = some fault) :
      Refused d (.invalidName "service name" d.serviceName fault)
  | operation {op : OperationDefinition} {error : RegistryError} (hop : op ∈ d.operations)
      (h : op.Refused d.serviceName error) : Refused d error
  | taken : Refused d (.duplicateService d.serviceName)

/-- **Why a property has no type**: something is wrong with its kinds, or
with those of its items. -/
inductive Property.Malformed (name : String) : Property → TypeFault → Prop
  | union {p : Property} (h : p.listsUnion = true) : Malformed name p (.union name)
  | noKind {p : Property} (hreference : p.reference = none) (hkind : p.kind? = none) :
      Malformed name p (.noKind name)
  | unsupportedKind {p : Property} {kind : String} (hreference : p.reference = none)
      (hkind : p.kind? = some kind) (hscalar : scalarOf? kind = none) (harray : kind ≠ "array") :
      Malformed name p (.unsupportedKind kind name)
  | noItems {p : Property} (hreference : p.reference = none) (hkind : p.kind? = some "array")
      (hitems : p.items = none) : Malformed name p (.noItems name)
  | items {p items : Property} {fault : TypeFault} (hreference : p.reference = none)
      (hkind : p.kind? = some "array") (hitems : p.items = some items)
      (h : Malformed name items fault) : Malformed name p fault

/-- **A fault of a type definition**: something that is required and not
there, a property without a type, or a default that is not of its type. -/
inductive TypeDefinition.Faulty (decls : Declarations) (d : TypeDefinition) : TypeFault → Prop
  | requiredUndeclared {name : String} (hname : name ∈ d.required)
      (h : name ∉ Entries.keys d.properties) : Faulty decls d (.requiredUndeclared name)
  | malformed {name : String} {p : Property} {fault : TypeFault} (hp : (name, p) ∈ d.properties)
      (h : p.Malformed name fault) : Faulty decls d fault
  | badDefault {name : String} {p : Property} {t : FieldType} {raw : Json} {errors : FieldErrors}
      (hp : (name, p) ∈ d.properties) (ht : p.HasType (Expands decls) t)
      (hdefault : p.default = some raw) (h : t.read raw = .error errors) :
      Faulty decls d (.badDefault name errors)

/-- **An error that is true** of declarations and services. -/
inductive Justified (decls : Declarations) (ds : List ServiceDefinition) : LoadError → Prop
  | duplicateType {name first second : String} (h : List.Duplicate name (Entries.keys decls)) :
      Justified decls ds (.duplicateType name first second)
  | unknownType {reference : String} {use : TypeUse} (huse : use ≠ .namespaceEntry)
      (h : ∀ name ∈ Entries.keys decls, typeName? reference ≠ some name) :
      Justified decls ds (.unknownType reference use)
  | typeCycle {names : List String} (h : IsCycle decls names) :
      Justified decls ds (.typeCycle names)
  | invalidType {name : String} {d : TypeDefinition} {fault : TypeFault}
      (hdecl : Entries.get? decls name = some d) (h : d.Faulty decls fault) :
      Justified decls ds (.invalidType name fault)
  | schema {name : String} {d : TypeDefinition} {fields : List Field} {error : SchemaError}
      (hdecl : Entries.get? decls name = some d)
      (hfields : List.Forall₂ (fun e f => Property.HasField (Expands decls) d.required e.1 e.2 f)
        d.properties fields)
      (h : Schema.build name d.description fields = .error error) :
      Justified decls ds (.schema error)
  | registry {d : ServiceDefinition} {error : RegistryError} (hd : d ∈ ds) (h : d.Refused error) :
      Justified decls ds (.registry error)

/-! ## Computations and their errors -/

/-- Of two steps one fails, the second with the result of the first. -/
theorem bind_eq_error_iff {ε α β : Type} {x : Except ε α} {f : α → Except ε β} {e : ε} :
    x >>= f = .error e ↔ x = .error e ∨ ∃ a, x = .ok a ∧ f a = .error e := by
  cases x <;> simp [bind, Except.bind]

/-- **A computation fails only with certain errors**, from every sound
table. -/
def FailsOnly (decls : Declarations) {α : Type} (m : Resolving α) (E : LoadError → Prop) : Prop :=
  ∀ built, Sound decls built → ∀ error, m.run built = .error error → E error

variable {decls : Declarations} {E : LoadError → Prop}

namespace FailsOnly

variable {α β : Type} {m : Resolving α} {C : Prop} {P : α → Prop}

theorem pure (a : α) : FailsOnly decls (Pure.pure a : Resolving α) E := nofun

theorem throw {error : LoadError} (h : E error) :
    FailsOnly decls (MonadExcept.throw error : Resolving α) E := by
  rintro built - _ ⟨⟩
  exact h

/-- One computation after another fails where either does, the second from
the table and with the result that the first one ends with. -/
theorem bind {f : α → Resolving β} (hm : Decides decls m C P) (h : FailsOnly decls m E)
    (hf : ∀ a, P a → FailsOnly decls (f a) E) : FailsOnly decls (m >>= f) E := by
  intro built hbuilt error herror
  rw [StateT.run_bind] at herror
  rcases bind_eq_error_iff.mp herror with hrun | ⟨⟨a, next⟩, hrun, herror⟩
  · exact h built hbuilt error hrun
  · obtain ⟨-, ha, hnext⟩ := hm.of_run_eq_ok hbuilt hrun
    exact hf a ha next hnext.sound error herror

theorem map (h : FailsOnly decls m E) (f : α → β) : FailsOnly decls (f <$> m) E := by
  intro built hbuilt error herror
  rw [StateT.run_map] at herror
  cases hrun : m.run built with
  | error e =>
    rw [hrun] at herror
    obtain rfl : e = error := Except.error.inj herror
    exact h built hbuilt e hrun
  | ok p =>
    rw [hrun] at herror
    cases herror

end FailsOnly

/-! ## Types -/

theorem Property.fieldType_failsOnly {refer : String → Resolving Schema} {type name : String}
    (p : Property)
    (hrefer : ∀ reference, p.dependence? = some reference → FailsOnly decls (refer reference) E)
    (htype : ∀ fault, p.Malformed name fault → E (.invalidType type fault)) :
    FailsOnly decls (p.fieldType refer type name) E := by
  induction p using Property.induction with
  | step p ih =>
    rw [fieldType_eq]
    split
    · rename_i hunion
      exact .throw (htype _ (.union hunion))
    cases hreference : p.reference with
    | some reference => exact (hrefer _ (dependence?_of_reference hreference)).map _
    | none =>
      cases hkind : p.kind? with
      | none => exact .throw (htype _ (.noKind hreference hkind))
      | some kind =>
        cases hscalar : scalarOf? kind with
        | some s =>
          simp only [hscalar]
          exact .pure _
        | none =>
          simp only [hscalar]
          by_cases harray : kind = "array"
          · subst harray
            rw [if_pos rfl]
            cases hitems : p.items with
            | none => exact .throw (htype _ (.noItems hreference hkind hitems))
            | some items =>
              have helement := ih items hitems
                (fun reference hdepends =>
                  hrefer reference ((dependence?_of_items hreference hkind hitems).trans hdepends))
                fun fault hfault => htype fault (.items hreference hkind hitems hfault)
              exact helement.map _
          · rw [if_neg harray]
            exact .throw (htype _ (.unsupportedKind hreference hkind hscalar harray))

theorem Property.field_failsOnly {refer : String → Resolving Schema} {type name : String}
    {required : List String} (p : Property)
    (hcomputes : ∀ reference, p.dependence? = some reference →
      Computes decls (refer reference) fun schema =>
        ∃ ref, typeName? reference = some ref ∧ Expands decls ref schema)
    (hrefer : ∀ reference, p.dependence? = some reference → FailsOnly decls (refer reference) E)
    (htype : ∀ fault, p.Malformed name fault → E (.invalidType type fault))
    (hread : ∀ t raw errors, p.HasType (Expands decls) t → p.default = some raw →
      t.read raw = .error errors → E (.invalidType type (.badDefault name errors))) :
    FailsOnly decls (p.field refer type required name) E := by
  unfold field
  refine .bind (p.fieldType_computes hcomputes) (p.fieldType_failsOnly hrefer htype)
    fun base hbase => ?_
  cases hdefault : p.default with
  | none => exact .pure _
  | some raw =>
    dsimp only
    cases herrors : base.read raw with
    | ok v => exact .pure _
    | error errors => exact .throw (hread base raw errors hbase.1 hdefault herrors)

section Schemas

variable {refer : String → TypeUse → Resolving Schema} {type : String}

theorem fieldsOf_failsOnly {required : List String} {properties : List (String × Property)}
    (hcomputes : ∀ e ∈ properties, ∀ reference, Property.dependence? e.2 = some reference →
      ∀ use, Computes decls (refer reference use) fun schema =>
        ∃ ref, typeName? reference = some ref ∧ Expands decls ref schema)
    (hrefer : ∀ e ∈ properties, ∀ reference, Property.dependence? e.2 = some reference →
      FailsOnly decls (refer reference (.property e.1 type)) E)
    (htype : ∀ e ∈ properties, ∀ fault, Property.Malformed e.1 e.2 fault →
      E (.invalidType type fault))
    (hread : ∀ e ∈ properties, ∀ t raw errors, Property.HasType (Expands decls) e.2 t →
      e.2.default = some raw → t.read raw = .error errors →
        E (.invalidType type (.badDefault e.1 errors))) :
    FailsOnly decls (fieldsOf refer type required properties) E := by
  induction properties with
  | nil => exact .pure []
  | cons e rest ih =>
    obtain ⟨name, p⟩ := e
    obtain ⟨hfield, hrest⟩ := List.forall_mem_cons.mp hcomputes
    obtain ⟨hfield', hrest'⟩ := List.forall_mem_cons.mp hrefer
    obtain ⟨hform, hforms⟩ := List.forall_mem_cons.mp htype
    obtain ⟨hvalue, hvalues⟩ := List.forall_mem_cons.mp hread
    have hp := fun reference hdepends => hfield reference hdepends (.property name type)
    rw [fieldsOf]
    refine .bind (p.field_computes hp) (p.field_failsOnly hp hfield' hform hvalue) fun f _ => ?_
    exact .bind (fieldsOf_computes hrest) (ih hrest hrest' hforms hvalues) fun fields _ => .pure _

theorem TypeDefinition.schema_failsOnly {name : String} {d : TypeDefinition}
    (hcomputes : ∀ e ∈ d.properties, ∀ reference, Property.dependence? e.2 = some reference →
      ∀ use, Computes decls (refer reference use) fun schema =>
        ∃ ref, typeName? reference = some ref ∧ Expands decls ref schema)
    (hrefer : ∀ e ∈ d.properties, ∀ reference, Property.dependence? e.2 = some reference →
      FailsOnly decls (refer reference (.property e.1 name)) E)
    (htype : ∀ fault, d.Faulty decls fault → E (.invalidType name fault))
    (hschema : ∀ fields error,
      List.Forall₂ (fun e f => Property.HasField (Expands decls) d.required e.1 e.2 f)
        d.properties fields →
      Schema.build name d.description fields = .error error → E (.schema error)) :
    FailsOnly decls (d.schema refer name) E := by
  unfold TypeDefinition.schema
  cases hfind : d.required.find? fun r => !Entries.has d.properties r with
  | some missing =>
    have hmissing : missing ∉ Entries.keys d.properties := by
      rw [← Entries.has_iff]
      simpa using List.find?_some hfind
    exact .throw (htype _ (.requiredUndeclared (List.mem_of_find?_eq_some hfind) hmissing))
  | none =>
    have hfields : FailsOnly decls (fieldsOf refer name d.required d.properties) E :=
      fieldsOf_failsOnly hcomputes hrefer
        (fun e he fault hfault => htype fault (.malformed he hfault))
        fun e he t raw errors ht hdefault h => htype _ (.badDefault he ht hdefault h)
    refine .bind (fieldsOf_computes hcomputes) hfields fun fields hfields => ?_
    cases hbuild : Schema.build name d.description fields with
    | ok schema => exact .pure schema
    | error error => exact .throw (hschema fields error hfields.1 hbuild)

end Schemas

/-! ## Names -/

/-- Following a reference fails where nothing is declared under its name, or
where the name fails. -/
theorem resolveReference_failsOnly {follow : String → Resolving Schema} {reference : String}
    {use : TypeUse}
    (hfollow : ∀ ref, typeName? reference = some ref → ref ∈ Entries.keys decls →
      FailsOnly decls (follow ref) E)
    (hunknown : (∀ name ∈ Entries.keys decls, typeName? reference ≠ some name) →
      E (.unknownType reference use)) :
    FailsOnly decls (resolveReference decls follow reference use) E := by
  unfold resolveReference
  cases hname : typeName? reference with
  | none => exact .throw (hunknown fun _ _ => by simp [hname])
  | some ref =>
    dsimp only
    split
    · rename_i hdeclared
      exact hfollow ref hname (Entries.has_iff.mp hdeclared)
    · rename_i hundeclared
      refine .throw (hunknown fun name hmem heq => ?_)
      obtain rfl := Option.some.inj (hname.symm.trans heq)
      exact hundeclared (Entries.has_iff.mpr hmem)

/-- Looking into the table first changes nothing. -/
theorem FailsOnly.of_get {α : Type} {m : Built → Resolving α}
    (h : ∀ built, Sound decls built → ∀ error, (m built).run built = .error error → E error) :
    FailsOnly decls (get >>= m) E :=
  h

variable {ds : List ServiceDefinition}

/-- **The resolver's errors are true**, whatever way led to the name and
whatever has been built before. -/
theorem resolve_failsOnly {way : List String} {name : String} (hway : Way decls way name)
    (hname : name ∈ Entries.keys decls) :
    FailsOnly decls (resolve decls way name) (Justified decls ds) := by
  -- by the resolver's own recursion; what it carries is that the way follows references
  induction way, name using resolve.induct decls with
  | case1 way name ih =>
    rw [resolve]
    refine .of_get fun built hbuilt => ?_
    cases hfound : Entries.get? built name with
    | some schema => exact FailsOnly.pure schema built hbuilt
    | none =>
      dsimp only
      split
      · -- the way has come back to where it was, and holds the cycle
        rename_i hback
        exact FailsOnly.throw (.typeCycle (hway.isCycle hback)) built hbuilt
      · rename_i hnew
        split
        · rename_i hundeclared
          exact absurd hname (Entries.get?_eq_none_iff.mp hundeclared)
        · rename_i d hdecl
          have hsnoc : ∀ e ∈ d.properties, ∀ reference,
              Property.dependence? e.2 = some reference → ∀ ref, typeName? reference = some ref →
                Way decls (way ++ [name]) ref :=
            fun e he reference hdepends ref href =>
              hway.snoc hnew (.of_dependence hdecl he hdepends href)
          have hcomputes : ∀ e ∈ d.properties, ∀ reference,
              Property.dependence? e.2 = some reference → ∀ use, Computes decls
                (resolveReference decls (fun ref => resolve decls (way ++ [name]) ref)
                  reference use)
                fun schema => ∃ ref, typeName? reference = some ref ∧ Expands decls ref schema :=
            fun e he reference hdepends use => resolveReference_computes fun ref href =>
              resolve_computes (hsnoc e he reference hdepends ref href).leads
          have hschema : FailsOnly decls (d.schema
              (resolveReference decls fun ref => resolve decls (way ++ [name]) ref) name)
              (Justified decls ds) := by
            refine TypeDefinition.schema_failsOnly hcomputes (fun e he reference hdepends => ?_)
              (fun fault => .invalidType hdecl) fun fields error => .schema hdecl
            refine resolveReference_failsOnly (fun ref href hmem => ?_) (.unknownType (by simp))
            exact ih hnew d hdecl ref (hsnoc e he reference hdepends ref href) hmem
          refine FailsOnly.bind (d.schema_computes hcomputes) hschema ?_ built hbuilt
          rintro schema - built' - error ⟨⟩

/-- So are those of resolving declared types one after the other. -/
theorem resolveAll_failsOnly {names : List String} (h : names ⊆ Entries.keys decls) :
    FailsOnly decls (resolveAll decls names) (Justified decls ds) := by
  induction names with
  | nil => exact .pure ()
  | cons name rest ih =>
    obtain ⟨hname, hrest⟩ := List.cons_subset.mp h
    have hresolve : Computes decls (resolve decls [] name) (Expands decls name) :=
      resolve_computes (.nil name)
    rw [resolveAll]
    exact .bind hresolve (resolve_failsOnly (.nil name) hname) fun _ _ => ih hrest

/-! ## Services -/

/-- A step of the registry fails with what the registry says. -/
theorem liftRegistry_failsOnly {α : Type} {x : Except RegistryError α}
    (h : ∀ error, x = .error error → E (.registry error)) :
    FailsOnly decls (liftRegistry x) E := by
  cases x with
  | ok a => exact .pure a
  | error error => exact .throw (h error rfl)

/-- And what comes after it has its result, and the same table. -/
theorem FailsOnly.liftRegistry_bind {α β : Type} {x : Except RegistryError α}
    {f : α → Resolving β} (h : ∀ error, x = .error error → E (.registry error))
    (hf : ∀ a, x = .ok a → FailsOnly decls (f a) E) :
    FailsOnly decls (liftRegistry x >>= f) E := by
  have hx : Decides decls (liftRegistry x) (∃ a, x = .ok a) fun a => x = .ok a :=
    liftRegistry_decides (fun a ha => ⟨⟨a, ha⟩, ha⟩) fun hok => hok
  exact .bind hx (liftRegistry_failsOnly h) hf

theorem sideSchema_failsOnly {use : TypeUse} (huse : use ≠ .namespaceEntry)
    (side : Option String) :
    FailsOnly decls (sideSchema decls (resolve decls []) use side) (Justified decls ds) := by
  cases side with
  | none => exact .pure none
  | some reference =>
    have hreference : FailsOnly decls (resolveReference decls (resolve decls []) reference use)
        (Justified decls ds) :=
      resolveReference_failsOnly (fun ref _ hmem => resolve_failsOnly (.nil ref) hmem)
        (.unknownType huse)
    exact hreference.map some

/-- What keeps a text from being an identifier is what its error says. -/
theorem checkIdentifier_eq_error_iff {kind value : String} {error : RegistryError} :
    Name.checkIdentifier kind value = .error error ↔
      ∃ fault, Name.identifierFault? value = some fault ∧
        error = .invalidName kind value fault := by
  unfold Name.checkIdentifier
  cases Name.identifierFault? value <;> simp [eq_comm]

/-- And so with visible names. -/
theorem checkVisible_eq_error_iff {kind value : String} {error : RegistryError} :
    Name.checkVisible kind value = .error error ↔
      ∃ fault, Name.visibleFault? value = some fault ∧ error = .invalidName kind value fault := by
  unfold Name.checkVisible
  cases Name.visibleFault? value <;> simp [eq_comm]

/-- What keeps an operation from being made. -/
theorem OperationDefinition.refused_of_build {d : OperationDefinition} {service : String}
    {input output : Option Schema} {doc : String} {error : RegistryError}
    (h : Operation.build d.identifier (some d.wireName) input output doc = .error error) :
    d.Refused service error := by
  unfold Operation.build at h
  rcases bind_eq_error_iff.mp h with hcode | ⟨-, -, h⟩
  · obtain ⟨fault, hfault, rfl⟩ := checkIdentifier_eq_error_iff.mp hcode
    exact .identifier hfault
  rcases bind_eq_error_iff.mp h with hwire | ⟨-, -, h⟩
  · obtain ⟨fault, hfault, rfl⟩ := checkVisible_eq_error_iff.mp hwire
    exact .wireName hfault
  · cases h

/-- What keeps it from being registered. -/
theorem OperationDefinition.refused_of_withOperation {d : OperationDefinition} {s : Service}
    {op : Operation} (hop : d.Describes decls op) {error : RegistryError}
    (h : s.withOperation op = .error error) : d.Refused s.name error := by
  rw [Service.withOperation_eq, hop.code, hop.wire] at h
  split at h
  · obtain rfl := Except.error.inj h
    exact .codeTaken
  · split at h
    · obtain rfl := Except.error.inj h
      exact .wireTaken
    · cases h

/-- What keeps a service from being made, its operations apart. -/
theorem ServiceDefinition.refused_of_new {d : ServiceDefinition} {doc : String}
    {error : RegistryError} (h : Service.new d.serviceName doc = .error error) :
    d.Refused error := by
  unfold Service.new at h
  rcases bind_eq_error_iff.mp h with hname | ⟨-, -, h⟩
  · obtain ⟨fault, hfault, rfl⟩ := checkVisible_eq_error_iff.mp hname
    exact .serviceName hfault
  · cases h

/-- What keeps it from being registered, while any are. -/
theorem ServiceDefinition.refused_of_withService {d : ServiceDefinition} {s : Service}
    (hs : d.Describes decls s) {r : Registry} (hopen : r.isSealed = false) {error : RegistryError}
    (h : r.withService s = .error error) : d.Refused error := by
  rw [Registry.withService_eq, hopen, if_neg Bool.false_ne_true, hs.name] at h
  split at h
  · obtain rfl := Except.error.inj h
    exact .taken
  · cases h

section Services

variable (hall : ∀ name ∈ Entries.keys decls, ∃ schema, Expands decls name schema)

include hall

/-- **Making an operation** fails with true errors. -/
theorem OperationDefinition.build_failsOnly {sd : ServiceDefinition} (hsd : sd ∈ ds)
    {d : OperationDefinition} (hd : d ∈ sd.operations) :
    FailsOnly decls (d.build decls (resolve decls []) sd.serviceName) (Justified decls ds) := by
  unfold OperationDefinition.build
  have huse : TypeUse.operation sd.serviceName d.identifier ≠ .namespaceEntry := by simp
  refine .bind (sideSchema_decides hall _ d.input) (sideSchema_failsOnly huse d.input)
    fun input _ => ?_
  refine .bind (sideSchema_decides hall _ d.output) (sideSchema_failsOnly huse d.output)
    fun output _ => ?_
  refine liftRegistry_failsOnly fun error herror => ?_
  exact .registry hsd (.operation hd (OperationDefinition.refused_of_build herror))

/-- So does adding operations to their service. -/
theorem addOperations_failsOnly {sd : ServiceDefinition} (hsd : sd ∈ ds) {s : Service}
    (hs : s.name = sd.serviceName) {ops : List OperationDefinition} (hops : ops ⊆ sd.operations) :
    FailsOnly decls (addOperations decls (resolve decls []) s ops) (Justified decls ds) := by
  induction ops generalizing s with
  | nil => exact .pure s
  | cons d rest ih =>
    obtain ⟨hd, hrest⟩ := List.cons_subset.mp hops
    rw [addOperations, hs]
    refine .bind (d.build_decides hall _) (d.build_failsOnly hall hsd hd) fun op hop => ?_
    refine .liftRegistry_bind (fun error herror => ?_) fun s' hs' => ?_
    · have hrefused := OperationDefinition.refused_of_withOperation hop herror
      exact .registry hsd (.operation hd (hs ▸ hrefused))
    · have hextends := Service.Extends.of_withOperation hs'
      exact ih (hextends.name.trans hs) hrest

/-- **Making a service** fails with true errors. -/
theorem ServiceDefinition.build_failsOnly {d : ServiceDefinition} (hd : d ∈ ds) :
    FailsOnly decls (d.build decls (resolve decls [])) (Justified decls ds) := by
  unfold ServiceDefinition.build
  refine .liftRegistry_bind (fun error herror => ?_) fun _ _ =>
    .liftRegistry_bind (fun error herror => ?_) fun s hs => ?_
  · obtain ⟨fault, hfault, rfl⟩ := checkIdentifier_eq_error_iff.mp herror
    exact .registry hd (.identifier hfault)
  · exact .registry hd (ServiceDefinition.refused_of_new herror)
  · obtain ⟨-, rfl⟩ := Service.new_eq_ok_iff.mp hs
    exact addOperations_failsOnly hall hd rfl (List.Subset.refl _)

/-- So does adding services to a registry that takes some. -/
theorem addServices_failsOnly {r : Registry} (hopen : r.isSealed = false)
    {ds' : List ServiceDefinition} (hds : ds' ⊆ ds) :
    FailsOnly decls (addServices decls (resolve decls []) r ds') (Justified decls ds) := by
  induction ds' generalizing r with
  | nil => exact .pure r
  | cons d rest ih =>
    obtain ⟨hd, hrest⟩ := List.cons_subset.mp hds
    rw [addServices]
    refine .bind (d.build_decides hall) (d.build_failsOnly hall hd) fun s hs => ?_
    obtain ⟨hdescribes, hbuilt⟩ := hs
    refine .liftRegistry_bind (fun error herror => ?_) fun r' hr' => ?_
    · exact .registry hd (ServiceDefinition.refused_of_withService hdescribes hopen herror)
    · have hextends := Registry.Extends.of_withService hbuilt hr'
      exact ih (hextends.isSealed.trans hopen) hrest

end Services

/-! ## The load -/

/-- Collecting stops only at a name that comes twice. -/
theorem duplicate_of_collectTypes {known : Entries String (String × TypeDefinition)}
    {list : List (String × String × TypeDefinition)} {error : LoadError}
    (h : collectTypes known list = .error error) :
    ∃ name first second, error = .duplicateType name first second ∧
      List.Duplicate name (Entries.keys known ++ list.map Prod.fst) := by
  induction list generalizing known with
  | nil => cases h
  | cons t rest ih =>
    obtain ⟨name, origin, d⟩ := t
    rw [collectTypes] at h
    cases hfound : Entries.get? known name with
    | some first =>
      obtain ⟨first, d'⟩ := first
      rw [hfound] at h
      obtain rfl := Except.error.inj h
      have hknown : name ∈ Entries.keys known :=
        List.mem_map_of_mem (Entries.mem_of_get?_eq_some hfound)
      have htwice : List.Sublist [name, name] (Entries.keys known ++ name :: rest.map Prod.fst) :=
        (List.singleton_sublist.mpr hknown).append
          (List.singleton_sublist.mpr List.mem_cons_self)
      exact ⟨name, first, origin, rfl, List.duplicate_iff_sublist.mpr htwice⟩
    | none =>
      have hnew : name ∉ Entries.keys known := Entries.get?_eq_none_iff.mp hfound
      rw [hfound] at h
      have hrest := ih h
      rwa [Entries.keys_set_of_notMem hnew, List.append_assoc] at hrest

/-- So that is a true error. -/
theorem justified_of_collectTypes {sources : List Source} {error : LoadError}
    (h : collectTypes [] (declared sources) = .error error) (ds : List ServiceDefinition) :
    Justified (declarations sources) ds error := by
  obtain ⟨name, first, second, rfl, hduplicate⟩ := duplicate_of_collectTypes h
  exact .duplicateType (map_fst_declared sources ▸ hduplicate)

/-- **A load fails with a true error.** -/
theorem Loader.justified_of_build {l : Loader} {error : LoadError} (h : l.build = .error error) :
    Justified (declarations l.sources) (services l.sources) error := by
  unfold Loader.build at h
  cases hcollect : collectTypes [] (declared l.sources) with
  | error e =>
    unfold buildRegistry load at h
    rw [hcollect] at h
    obtain rfl : e = error := Except.error.inj h
    exact justified_of_collectTypes hcollect _
  | ok types =>
    have hnodup := nodup_of_collectTypes hcollect
    have hfails : FailsOnly (declarations l.sources)
        (do
          resolveAll (declarations l.sources) (Entries.keys (declarations l.sources))
          addServices (declarations l.sources) (resolve (declarations l.sources) []) Registry.empty
            (services l.sources))
        (Justified (declarations l.sources) (services l.sources)) := by
      refine .bind (resolveAll_decides _) (resolveAll_failsOnly (List.Subset.refl _))
        fun _ hall => addServices_failsOnly hall rfl (List.Subset.refl _)
    rw [buildRegistry_eq hnodup] at h
    refine hfails [] (.nil _) error ?_
    generalize StateT.run _ _ = result at h ⊢
    cases result with
    | error e =>
      obtain rfl : e = error := Except.error.inj h
      rfl
    | ok p => cases h

/-- **The search for cycles is exact.** Where references go round, a load
fails; where they do not, it does not say so; and a cycle that it reports is
one. -/
theorem Loader.build_cycles (l : Loader) :
    ((∃ name, Relation.TransGen (Refers (declarations l.sources)) name name) →
      ∃ error, l.build = .error error) ∧
    ((∀ name, ¬ Relation.TransGen (Refers (declarations l.sources)) name name) →
      ∀ names, l.build ≠ .error (.typeCycle names)) ∧
    ∀ names, l.build = .error (.typeCycle names) → IsCycle (declarations l.sources) names := by
  have hcycle : ∀ names, l.build = .error (.typeCycle names) →
      IsCycle (declarations l.sources) names := by
    intro names h
    cases Loader.justified_of_build h with
    | typeCycle hcycle => exact hcycle
  refine ⟨?_, ?_, hcycle⟩
  · rintro ⟨name, hname⟩
    cases hbuild : l.build with
    | error error => exact ⟨error, rfl⟩
    | ok r =>
      -- what has been built has been expanded, and that takes an end of references
      obtain ⟨-, built, -, hresolve, -⟩ := exists_of_buildRegistry hbuild
      obtain ⟨-, hall, -⟩ := (resolveAll_decides _).of_run_eq_ok (.nil _) hresolve
      obtain ⟨schema, hschema⟩ := hall name (declared_of_transGen hname)
      exact absurd hname hschema.not_cyclic
  · intro hacyclic names h
    obtain ⟨name, hname⟩ := (hcycle names h).exists_transGen
    exact hacyclic name hname

namespace Roundabout

/-- A property that is what a reference gives. -/
def single (reference : String) : Property := ⟨none, none, some reference, "", none, false⟩

/-- A property that is a list of it. -/
def list (reference : String) : Property :=
  ⟨some (.one "array"), some (single reference), none, "", none, false⟩

/-- A type with one property. -/
def typeOf (name : String) (p : Property) : TypeDefinition := ⟨"", [(name, p)], []⟩

/-- Trips consist of legs, and legs and stops refer to each other. -/
def loader : Loader :=
  ⟨Grammar.parser, .standard,
    [⟨"trips", ⟨[("Trip", typeOf "legs" (list "Leg"))], []⟩⟩,
      ⟨"stops", ⟨[("Leg", typeOf "end" (single "#/types/Stop")),
        ("Stop", typeOf "legs" (list "#/types/Leg"))], []⟩⟩]⟩

variable {built : Built} {error : LoadError}

/-- Both kinds of properties fail where their reference does. -/
theorem single_fails {refer : String → Resolving Schema} {type name reference : String}
    (h : (refer reference).run built = .error error) :
    ((single reference).fieldType refer type name).run built = .error error := by
  have heq : (single reference).fieldType refer type name =
      (fun schema => (single reference).admitting (.message schema)) <$> refer reference := by
    rw [Property.fieldType_eq]
    rfl
  rw [heq, StateT.run_map, h]
  rfl

theorem list_fails {refer : String → Resolving Schema} {type name reference : String}
    (h : (refer reference).run built = .error error) :
    ((list reference).fieldType refer type name).run built = .error error := by
  have hkind : (list reference).kind? = some "array" := rfl
  have heq : (list reference).fieldType refer type name =
      (fun element => (list reference).admitting (.list element)) <$>
        (single reference).fieldType refer type name := by
    rw [Property.fieldType_eq, hkind]
    rfl
  rw [heq, StateT.run_map, single_fails h]
  rfl

/-- And a type with one property where that does. -/
theorem resolve_fails {way : List String} {name property : String} {p : Property}
    (hnew : name ∉ way) (hbuilt : Entries.get? built name = none)
    (hdecl : Entries.get? decls name = some (typeOf property p))
    (h : (p.fieldType (fun reference => resolveReference decls
      (fun ref => resolve decls (way ++ [name]) ref) reference (.property property name))
      name property).run built = .error error) :
    (resolve decls way name).run built = .error error := by
  have hfield : ((typeOf property p).schema (resolveReference decls fun ref =>
      resolve decls (way ++ [name]) ref) name).run built = .error error := by
    simp only [TypeDefinition.schema, typeOf, List.find?_nil, fieldsOf, Property.field,
      StateT.run_bind, h]
    rfl
  rw [resolve, StateT.run_bind, StateT.run_get, pure_bind, hbuilt]
  dsimp only
  rw [dif_neg hnew]
  split
  · rename_i hnone
    rw [hdecl] at hnone
    cases hnone
  · rename_i d hd
    obtain rfl := Option.some.inj (hdecl.symm.trans hd)
    rw [StateT.run_bind, hfield]
    rfl

/-- A reference to a declared name fails where resolving the name does. -/
theorem resolveReference_fails {follow : String → Resolving Schema} {reference ref : String}
    {use : TypeUse} (hname : typeName? reference = some ref) (hdecl : ref ∈ Entries.keys decls)
    (h : (follow ref).run built = .error error) :
    (resolveReference decls follow reference use).run built = .error error := by
  rw [resolveReference, hname]
  dsimp only
  rw [if_pos (Entries.has_iff.mpr hdecl), h]

theorem build_eq : loader.build = .error (.typeCycle ["Leg", "Stop", "Leg"]) := by
  have hleg : typeName? "Leg" = some "Leg" := by decide +kernel
  have hlegs : typeName? "#/types/Leg" = some "Leg" := by decide +kernel
  have hend : typeName? "#/types/Stop" = some "Stop" := by decide +kernel
  -- from the end of the way, where the leg comes back, to its start
  have hback : (resolve (declarations loader.sources) ["Trip", "Leg", "Stop"] "Leg").run [] =
      .error (.typeCycle ["Leg", "Stop", "Leg"]) := by
    rw [resolve]
    rfl
  have hstop : (resolve (declarations loader.sources) ["Trip", "Leg"] "Stop").run [] =
      .error (.typeCycle ["Leg", "Stop", "Leg"]) :=
    resolve_fails (by decide) rfl rfl
      (list_fails (resolveReference_fails hlegs (by decide) hback))
  have hstart : (resolve (declarations loader.sources) ["Trip"] "Leg").run [] =
      .error (.typeCycle ["Leg", "Stop", "Leg"]) :=
    resolve_fails (by decide) rfl rfl
      (single_fails (resolveReference_fails hend (by decide) hstop))
  have htrip : (resolve (declarations loader.sources) [] "Trip").run [] =
      .error (.typeCycle ["Leg", "Stop", "Leg"]) :=
    resolve_fails (by decide) rfl rfl
      (list_fails (resolveReference_fails hleg (by decide) hstart))
  have hnodup : (Entries.keys (declarations loader.sources)).Nodup := by decide
  have hkeys : Entries.keys (declarations loader.sources) = ["Trip", "Leg", "Stop"] := rfl
  rw [Loader.build, buildRegistry_eq hnodup, hkeys]
  simp only [resolveAll, StateT.run_bind, htrip]
  rfl

end Roundabout

/-- Trips lead into a cycle that they are not on. -/
theorem Loader.build_cycles_roundabout :
    (∃ error, Roundabout.loader.build = .error error) ∧
    Roundabout.loader.build = .error (.typeCycle ["Leg", "Stop", "Leg"]) ∧
    IsCycle (declarations Roundabout.loader.sources) ["Leg", "Stop", "Leg"] := by
  obtain ⟨hfails, -, hcycle⟩ := Loader.build_cycles Roundabout.loader
  have hreported := hcycle _ Roundabout.build_eq
  exact ⟨hfails hreported.exists_transGen, Roundabout.build_eq, hreported⟩

end ServiceContracts.Definition
