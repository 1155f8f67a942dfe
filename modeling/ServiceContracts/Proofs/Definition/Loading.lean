import ServiceContracts.Definition.Grammar
import ServiceContracts.Proofs.Definition.Meaning
import ServiceContracts.Proofs.Definition.WellFormed
import ServiceContracts.Proofs.Service.Indexes
/-!
# Which documents are accepted

A load collects the types of all documents, resolves every one, and then
makes the services one after the other. It stops at the first error, so
whether it succeeds is a conjunction, and the conjuncts can be said
without the order of work: `WellFormed`. Nothing else is asked for, and
nothing less.

Documents are maps from names, and their types maps from property names.
`Document.Keyed` keeps of that what lists of entries do not have by
themselves: no name comes twice in one map.
-/


namespace ServiceContracts.Definition

/-! ## Well-formed documents -/

/-- **A well-formed operation**: its names are accepted, and its references
are to declared types. -/
structure OperationDefinition.WellFormed (decls : Declarations) (d : OperationDefinition) :
    Prop where
  identifier : Name.IsIdentifier d.identifier
  wireName : Name.IsVisible d.wireName
  input : ∀ reference, d.input = some reference →
    ∃ name ∈ Entries.keys decls, typeName? reference = some name
  output : ∀ reference, d.output = some reference →
    ∃ name ∈ Entries.keys decls, typeName? reference = some name

/-- **A well-formed service**: its names are accepted, and its operations are
well formed, each under two names of its own. -/
structure ServiceDefinition.WellFormed (decls : Declarations) (d : ServiceDefinition) :
    Prop where
  identifier : Name.IsIdentifier d.identifier
  serviceName : Name.IsVisible d.serviceName
  operations : ∀ op ∈ d.operations, op.WellFormed decls
  identifiers : (d.operations.map OperationDefinition.identifier).Nodup
  wireNames : (d.operations.map OperationDefinition.wireName).Nodup

/-- The types of all documents, in document order. -/
def declarations (sources : List Source) : Declarations :=
  sources.flatMap fun s => s.document.types

/-- **Well-formed documents**, taken together. -/
structure WellFormed (sources : List Source) : Prop where
  distinct : sources.Pairwise fun s s' =>
    ∀ name ∈ Entries.keys s.document.types, name ∉ Entries.keys s'.document.types
  types : TypesWellFormed (declarations sources)
  services : ∀ d ∈ services sources, d.WellFormed (declarations sources)
  serviceNames : ((Definition.services sources).map ServiceDefinition.serviceName).Nodup

/-- The names of a document do not come twice, neither those of its types
nor those of a type's properties. -/
structure Document.Keyed (d : Document) : Prop where
  types : (Entries.keys d.types).Nodup
  properties : ∀ e ∈ d.types, (Entries.keys e.2.properties).Nodup

/-! ## Names that are new -/

/-- The names are new, each of them once. -/
def Fresh (known names : List String) : Prop := names.Nodup ∧ names.Disjoint known

theorem fresh_nil_left_iff {names : List String} : Fresh [] names ↔ names.Nodup := by
  simp [Fresh]

theorem fresh_nil (known : List String) : Fresh known [] :=
  ⟨List.nodup_nil, List.disjoint_nil_left known⟩

/-- Taking one of them makes it known to the others. -/
theorem fresh_cons_iff {known rest : List String} {name : String} :
    Fresh known (name :: rest) ↔ name ∉ known ∧ Fresh (known ++ [name]) rest := by
  rw [Fresh, Fresh, List.nodup_cons, List.disjoint_cons_left, List.disjoint_append_right,
    List.disjoint_singleton]
  constructor
  · rintro ⟨⟨hname, hnodup⟩, hnew, hdisjoint⟩
    exact ⟨hnew, hnodup, hdisjoint, hname⟩
  · rintro ⟨hnew, hnodup, hdisjoint, hname⟩
    exact ⟨⟨hname, hnodup⟩, hnew, hdisjoint⟩

/-! ## Collecting the types -/

/-- Collecting succeeds when no name comes twice, and keeps the order. -/
theorem collectTypes_eq_ok_iff {known types : Entries String (String × TypeDefinition)}
    {list : List (String × String × TypeDefinition)} :
    collectTypes known list = .ok types ↔
      Fresh (Entries.keys known) (list.map Prod.fst) ∧ types = known ++ list := by
  induction list generalizing known with
  | nil => simp [collectTypes, fresh_nil, eq_comm]
  | cons t rest ih =>
    obtain ⟨name, origin, d⟩ := t
    rw [collectTypes, List.map_cons, fresh_cons_iff]
    cases hfound : Entries.get? known name with
    | some first =>
      have hmem : name ∈ Entries.keys known :=
        List.mem_map_of_mem (Entries.mem_of_get?_eq_some hfound)
      simp [hmem]
    | none =>
      have hnew : name ∉ Entries.keys known := Entries.get?_eq_none_iff.mp hfound
      dsimp only
      rw [ih, Entries.keys_set_of_notMem hnew, Entries.set_of_notMem hnew, List.append_assoc,
        List.singleton_append, and_assoc]
      exact (and_iff_right hnew).symm

/-- The types of all documents, with what `collectTypes` adds set aside. -/
theorem map_declared (sources : List Source) :
    (declared sources).map (fun e => (e.1, e.2.2)) = declarations sources := by
  rw [declared, declarations, List.map_flatMap]
  simp only [List.map_map, Function.comp_def, Prod.eta, List.map_id']

theorem map_fst_declared (sources : List Source) :
    (declared sources).map Prod.fst = Entries.keys (declarations sources) := by
  rw [← map_declared, Entries.keys, List.map_map]
  rfl

/-- In keyed documents, only two documents can share a name. -/
theorem nodup_declarations_iff {sources : List Source} (hkeyed : ∀ s ∈ sources, s.document.Keyed) :
    (Entries.keys (declarations sources)).Nodup ↔ sources.Pairwise fun s s' =>
      ∀ name ∈ Entries.keys s.document.types, name ∉ Entries.keys s'.document.types := by
  rw [Entries.keys, declarations, List.map_flatMap, List.nodup_flatMap]
  constructor
  · rintro ⟨-, hdisjoint⟩
    exact hdisjoint
  · intro hdisjoint
    exact ⟨fun s hs => (hkeyed s hs).types, hdisjoint⟩

/-! ## Making the services -/

variable {decls : Declarations}

/-- A step of the registry, in a load. -/
theorem liftRegistry_decides {α : Type} {x : Except RegistryError α} {C : Prop} {P : α → Prop}
    (hx : ∀ a, x = .ok a → C ∧ P a) (hc : C → ∃ a, x = .ok a) :
    Decides decls (liftRegistry x) C P := by
  cases x with
  | ok a => exact .pure (hx a rfl).1 (hx a rfl).2
  | error e =>
    refine .throw fun h => ?_
    obtain ⟨a, ha⟩ := hc h
    cases ha

/-- **All types are resolved** exactly when all stand for schemas. -/
theorem resolveAll_decides (names : List String) :
    Decides decls (resolveAll decls names)
      (∀ name ∈ names, ∃ schema, Expands decls name schema)
      fun _ => ∀ name ∈ names, ∃ schema, Expands decls name schema := by
  induction names with
  | nil =>
    have hnil : ∀ name ∈ [], ∃ schema, Expands decls name schema :=
      fun _ h => absurd h List.not_mem_nil
    exact .pure hnil hnil
  | cons name rest ih =>
    rw [resolveAll]
    have hname : Computes decls (resolve decls [] name) (Expands decls name) :=
      resolve_computes (.nil name)
    simp only [List.forall_mem_cons]
    exact Decides.bind hname fun schema hschema =>
      ih.congr Iff.rfl fun _ hrest => ⟨⟨schema, hschema.1⟩, hrest⟩

section Services

variable (hall : ∀ name ∈ Entries.keys decls, ∃ schema, Expands decls name schema)

include hall

/-- **A side is resolved** exactly when its reference is to a declared type,
and then to what that expands to. -/
theorem sideSchema_decides (use : TypeUse) (side : Option String) :
    Decides decls (sideSchema decls (resolve decls []) use side)
      (∀ reference, side = some reference →
        ∃ name ∈ Entries.keys decls, typeName? reference = some name)
      (Side.Describes decls side) := by
  cases side with
  | none => exact .pure (fun reference h => nomatch h) .none
  | some reference =>
    have href : Computes decls (resolveReference decls (resolve decls []) reference use) _ :=
      resolveReference_computes fun ref _ => resolve_computes (.nil ref)
    refine Decides.congr (href.map some) ?_ ?_
    · constructor
      · rintro ⟨-, schema, ⟨name, hname, hschema⟩, -⟩ other hother
        obtain rfl := Option.some.inj hother
        exact ⟨name, hschema.declared, hname⟩
      · intro h
        obtain ⟨name, hdecl, hname⟩ := h reference rfl
        obtain ⟨schema, hschema⟩ := hall name hdecl
        exact ⟨_, schema, ⟨name, hname, hschema⟩, rfl⟩
    · rintro _ ⟨⟨schema, ⟨name, hname, hschema⟩, rfl⟩, -⟩
      exact .some ⟨name, hname, hschema.expand_eq⟩

/-- **An operation is made** exactly of a well-formed definition, as it
says. -/
theorem OperationDefinition.build_decides (service : String) (d : OperationDefinition) :
    Decides decls (d.build decls (resolve decls []) service) (d.WellFormed decls)
      (d.Describes decls) := by
  unfold OperationDefinition.build
  have hlift : ∀ input, Side.Describes decls d.input input → ∀ output,
      Side.Describes decls d.output output → Decides decls
        (liftRegistry (Operation.build d.identifier (some d.wireName) input output
          (docOr d.description ("Operation for " ++ d.wireName ++ "."))))
        (Name.IsIdentifier d.identifier ∧ Name.IsVisible d.wireName) (d.Describes decls) := by
    intro input hinput output houtput
    refine liftRegistry_decides (fun op hop => ?_) fun ⟨hcode, hwire⟩ => ?_
    · obtain ⟨hcode, hwire, rfl⟩ := Operation.build_eq_ok_iff.mp hop
      exact ⟨⟨hcode, hwire⟩, rfl, rfl, hinput, houtput, rfl⟩
    · exact ⟨_, Operation.build_eq_ok_iff.mpr ⟨hcode, hwire, rfl⟩⟩
  refine ((sideSchema_decides hall _ d.input).bind fun input hinput =>
    (sideSchema_decides hall _ d.output).bind fun output houtput =>
      hlift input hinput output houtput).congr ?_ fun _ h => h
  constructor
  · rintro ⟨hinput, houtput, hcode, hwire⟩
    exact ⟨hcode, hwire, hinput, houtput⟩
  · rintro ⟨hcode, hwire, hinput, houtput⟩
    exact ⟨hinput, houtput, hcode, hwire⟩

omit hall in
/-- Registering takes the two names of an operation that are new, and keeps
them. -/
theorem withOperation_decides {s : Service} {op : Operation} :
    Decides decls (liftRegistry (s.withOperation op))
      (op.code ∉ Entries.keys s.byCode ∧ op.wire ∉ Entries.keys s.byWire)
      (s.Extends [op]) := by
  refine liftRegistry_decides (fun s' hs' => ?_) fun ⟨hcode, hwire⟩ =>
    ⟨_, Service.withOperation_eq_ok_iff.mpr ⟨hcode, hwire, rfl⟩⟩
  obtain ⟨hcode, hwire, -⟩ := Service.withOperation_eq_ok_iff.mp hs'
  exact ⟨⟨hcode, hwire⟩, Service.Extends.of_withOperation hs'⟩

/-- **Operations are added** exactly when they are well formed and bring
new names to the service, and it has them in order then. -/
theorem addOperations_decides (s : Service) (ops : List OperationDefinition) :
    Decides decls (addOperations decls (resolve decls []) s ops)
      ((∀ op ∈ ops, op.WellFormed decls) ∧
        Fresh (Entries.keys s.byCode) (ops.map OperationDefinition.identifier) ∧
        Fresh (Entries.keys s.byWire) (ops.map OperationDefinition.wireName))
      fun s' => ∃ added, List.Forall₂ (OperationDefinition.Describes decls) ops added ∧
        s.Extends added s' := by
  induction ops generalizing s with
  | nil =>
    exact .pure ⟨fun _ h => absurd h List.not_mem_nil, fresh_nil _, fresh_nil _⟩
      ⟨[], .nil, .refl s⟩
  | cons d rest ih =>
    rw [addOperations]
    have hnext : ∀ op, d.Describes decls op → Decides decls
        (liftRegistry (s.withOperation op) >>= fun s' =>
          addOperations decls (resolve decls []) s' rest)
        ((d.identifier ∉ Entries.keys s.byCode ∧ d.wireName ∉ Entries.keys s.byWire) ∧
          (∀ op ∈ rest, op.WellFormed decls) ∧
          Fresh (Entries.keys s.byCode ++ [d.identifier])
            (rest.map OperationDefinition.identifier) ∧
          Fresh (Entries.keys s.byWire ++ [d.wireName]) (rest.map OperationDefinition.wireName))
        fun s' => ∃ added, List.Forall₂ (OperationDefinition.Describes decls) (d :: rest) added ∧
          s.Extends added s' := by
      intro op hop
      rw [← hop.code, ← hop.wire]
      refine withOperation_decides.bind fun s' hs' => ?_
      have hcodes : Entries.keys s'.byCode = Entries.keys s.byCode ++ [op.code] := hs'.codes
      have hwires : Entries.keys s'.byWire = Entries.keys s.byWire ++ [op.wire] := hs'.wires
      rw [← hcodes, ← hwires]
      refine (ih s').congr Iff.rfl ?_
      rintro s'' ⟨added, hadded, hs''⟩
      exact ⟨op :: added, .cons hop hadded, hs'.trans hs''⟩
    refine ((d.build_decides hall s.name).bind hnext).congr ?_ fun _ h => h
    -- the same conditions, collected by operation and collected by kind
    rw [List.forall_mem_cons, List.map_cons, List.map_cons, fresh_cons_iff, fresh_cons_iff]
    constructor
    · rintro ⟨hd, ⟨hcode, hwire⟩, hrest, hcodes, hwires⟩
      exact ⟨⟨hd, hrest⟩, ⟨hcode, hcodes⟩, hwire, hwires⟩
    · rintro ⟨⟨hd, hrest⟩, ⟨hcode, hcodes⟩, hwire, hwires⟩
      exact ⟨hd, ⟨hcode, hwire⟩, hrest, hcodes, hwires⟩

/-- **A service is made** exactly of a well-formed definition, as it says. -/
theorem ServiceDefinition.build_decides (d : ServiceDefinition) :
    Decides decls (d.build decls (resolve decls [])) (d.WellFormed decls)
      fun s => d.Describes decls s ∧ s.Built := by
  unfold ServiceDefinition.build
  have hcheck : Decides decls (liftRegistry (Name.checkIdentifier "service identifier" d.identifier))
      (Name.IsIdentifier d.identifier) fun _ => True :=
    liftRegistry_decides (fun u hu => ⟨Name.checkIdentifier_eq_ok_iff.mp hu, trivial⟩)
      fun h => ⟨(), Name.checkIdentifier_eq_ok_iff.mpr h⟩
  let doc := docOr d.description ("Service for " ++ d.serviceName ++ ".")
  have hnew : Decides decls (liftRegistry (Service.new d.serviceName doc))
      (Name.IsVisible d.serviceName) fun s => s = ⟨d.serviceName, doc, [], []⟩ ∧ s.Built := by
    refine liftRegistry_decides (fun s hs => ?_) fun h => ⟨_, Service.new_eq_ok_iff.mpr ⟨h, rfl⟩⟩
    obtain ⟨hvisible, rfl⟩ := Service.new_eq_ok_iff.mp hs
    exact ⟨hvisible, rfl, .new hs⟩
  have hadd : ∀ s : Service, (s = ⟨d.serviceName, doc, [], []⟩ ∧ s.Built) →
      Decides decls (addOperations decls (resolve decls []) s d.operations)
        ((∀ op ∈ d.operations, op.WellFormed decls) ∧
          (d.operations.map OperationDefinition.identifier).Nodup ∧
          (d.operations.map OperationDefinition.wireName).Nodup)
        fun s' => d.Describes decls s' ∧ s'.Built := by
    rintro s ⟨rfl, hbuilt⟩
    refine (addOperations_decides hall _ d.operations).congr
      (by simp only [Entries.keys, List.map_nil, fresh_nil_left_iff]) ?_
    rintro s' ⟨added, hadded, hs'⟩
    have hoperations : s'.operations = added := hs'.operations
    exact ⟨⟨hs'.name, hs'.doc, hoperations ▸ hadded⟩, hs'.built hbuilt⟩
  refine (hcheck.bind fun _ _ => hnew.bind hadd).congr ?_ fun _ h => h
  constructor
  · rintro ⟨hidentifier, hname, hops, hcodes, hwires⟩
    exact ⟨hidentifier, hname, hops, hcodes, hwires⟩
  · rintro ⟨hidentifier, hname, hops, hcodes, hwires⟩
    exact ⟨hidentifier, hname, hops, hcodes, hwires⟩

/-- **Services are added** exactly when they are well formed and bring new
names to the registry, and it has them in order then. -/
theorem addServices_decides (r : Registry) (hopen : r.isSealed = false)
    (ds : List ServiceDefinition) :
    Decides decls (addServices decls (resolve decls []) r ds)
      ((∀ d ∈ ds, d.WellFormed decls) ∧
        Fresh (Entries.keys r.byName) (ds.map ServiceDefinition.serviceName))
      fun r' => ∃ added, List.Forall₂ (ServiceDefinition.Describes decls) ds added ∧
        r.Extends added r' := by
  induction ds generalizing r with
  | nil =>
    exact .pure ⟨fun _ h => absurd h List.not_mem_nil, fresh_nil _⟩ ⟨[], .nil, .refl r⟩
  | cons d rest ih =>
    rw [addServices]
    have hregister : ∀ s : Service, s.Built → Decides decls (liftRegistry (r.withService s))
        (s.name ∉ Entries.keys r.byName) (r.Extends [s]) := by
      intro s hs
      refine liftRegistry_decides (fun r' hr' => ?_) fun hname =>
        ⟨_, Registry.withService_eq_ok_iff.mpr ⟨hopen, hname, rfl⟩⟩
      obtain ⟨-, hname, -⟩ := Registry.withService_eq_ok_iff.mp hr'
      exact ⟨hname, Registry.Extends.of_withService hs hr'⟩
    have hnext : ∀ s : Service, (d.Describes decls s ∧ s.Built) → Decides decls
        (liftRegistry (r.withService s) >>= fun r' => addServices decls (resolve decls []) r' rest)
        (d.serviceName ∉ Entries.keys r.byName ∧ (∀ d ∈ rest, d.WellFormed decls) ∧
          Fresh (Entries.keys r.byName ++ [d.serviceName])
            (rest.map ServiceDefinition.serviceName))
        fun r' => ∃ added, List.Forall₂ (ServiceDefinition.Describes decls) (d :: rest) added ∧
          r.Extends added r' := by
      rintro s ⟨hs, hbuilt⟩
      rw [← hs.name]
      refine (hregister s hbuilt).bind fun r' hr' => ?_
      have hnames : Entries.keys r'.byName = Entries.keys r.byName ++ [s.name] := hr'.names
      rw [← hnames]
      refine (ih r' (hr'.isSealed.trans hopen)).congr Iff.rfl ?_
      rintro r'' ⟨added, hadded, hr''⟩
      exact ⟨s :: added, .cons hs hadded, hr'.trans hr''⟩
    refine ((d.build_decides hall).bind hnext).congr ?_ fun _ h => h
    rw [List.forall_mem_cons, List.map_cons, fresh_cons_iff]
    constructor
    · rintro ⟨hd, hname, hrest, hnames⟩
      exact ⟨⟨hd, hrest⟩, hname, hnames⟩
    · rintro ⟨⟨hd, hrest⟩, hname, hnames⟩
      exact ⟨hd, hname, hrest, hnames⟩

end Services

/-! ## The load -/

/-- After the types have been collected, the rest of a load is decided by
the types and the services. -/
theorem build_decides (ds : List ServiceDefinition) :
    Decides decls
      (do
        resolveAll decls (Entries.keys decls)
        addServices decls (resolve decls []) Registry.empty ds)
      ((∀ name ∈ Entries.keys decls, ∃ schema, Expands decls name schema) ∧
        (∀ d ∈ ds, d.WellFormed decls) ∧ (ds.map ServiceDefinition.serviceName).Nodup)
      fun _ => True := by
  refine ((resolveAll_decides _).bind fun _ hall =>
    addServices_decides hall Registry.empty rfl ds).congr ?_ fun _ _ => trivial
  simp only [Registry.empty, Entries.keys, List.map_nil, fresh_nil_left_iff]

/-- What a load does, once the types have been collected. -/
theorem load_eq {sources : List Source} (hnodup : (Entries.keys (declarations sources)).Nodup) :
    load sources =
      (do
        resolveAll (declarations sources) (Entries.keys (declarations sources))
        addServices (declarations sources) (resolve (declarations sources) []) Registry.empty
          (services sources) :
          Resolving Registry).run [] := by
  have hcollect : collectTypes [] (declared sources) = .ok (declared sources) :=
    collectTypes_eq_ok_iff.mpr
      ⟨fresh_nil_left_iff.mpr (map_fst_declared sources ▸ hnodup), rfl⟩
  unfold load
  rw [hcollect]
  simp only [bind, Except.bind, map_declared]

theorem buildRegistry_eq {sources : List Source}
    (hnodup : (Entries.keys (declarations sources)).Nodup) :
    buildRegistry sources =
      ((do
        resolveAll (declarations sources) (Entries.keys (declarations sources))
        addServices (declarations sources) (resolve (declarations sources) []) Registry.empty
          (services sources)).run []).map
        Prod.fst := by
  rw [buildRegistry, load_eq hnodup]

/-- Types that can be collected have names of their own. -/
theorem nodup_of_collectTypes {sources : List Source}
    {types : Entries String (String × TypeDefinition)}
    (h : collectTypes [] (declared sources) = .ok types) :
    (Entries.keys (declarations sources)).Nodup := by
  obtain ⟨hfresh, -⟩ := collectTypes_eq_ok_iff.mp h
  exact map_fst_declared sources ▸ fresh_nil_left_iff.mp hfresh

/-- Without that, a load stops there. -/
theorem nodup_of_buildRegistry_eq_ok {sources : List Source} {r : Registry}
    (h : buildRegistry sources = .ok r) : (Entries.keys (declarations sources)).Nodup := by
  unfold buildRegistry load at h
  cases hcollect : collectTypes [] (declared sources) with
  | error e =>
    rw [hcollect] at h
    cases h
  | ok types => exact nodup_of_collectTypes hcollect

/-- **A load succeeds exactly for well-formed documents.** Documents that
have been read are keyed (`Document.Matches.keyed`). -/
theorem Loader.exists_build_iff (l : Loader) (hkeyed : ∀ s ∈ l.sources, s.document.Keyed) :
    (∃ r, l.build = .ok r) ↔ WellFormed l.sources := by
  unfold Loader.build
  by_cases hnodup : (Entries.keys (declarations l.sources)).Nodup
  · have hproperties : ∀ name d, Entries.get? (declarations l.sources) name = some d →
        (Entries.keys d.properties).Nodup := by
      intro name d hd
      obtain ⟨s, hs, he⟩ := List.mem_flatMap.mp (Entries.mem_of_get?_eq_some hd)
      exact (hkeyed s hs).properties (name, d) he
    -- the load starts from an empty table, which is sound
    have hverdict := build_decides (services l.sources) [] (Sound.nil (declarations l.sources))
    rw [buildRegistry_eq hnodup]
    generalize StateT.run _ _ = result at hverdict ⊢
    cases hverdict with
    | accepted hc =>
      obtain ⟨htypes, hservices, hnames⟩ := hc
      refine ⟨fun _ => ?_, fun _ => ⟨_, rfl⟩⟩
      exact ⟨(nodup_declarations_iff hkeyed).mp hnodup, (typesWellFormed_iff hproperties).mpr htypes,
        hservices, hnames⟩
    | refused hc =>
      constructor
      · rintro ⟨r, hr⟩
        cases hr
      · intro h
        exact absurd ⟨(typesWellFormed_iff hproperties).mp h.types, h.services, h.serviceNames⟩ hc
  · -- two documents share a name, and the load gets no further than collecting
    constructor
    · rintro ⟨r, hr⟩
      exact absurd (nodup_of_buildRegistry_eq_ok hr) hnodup
    · intro h
      exact absurd ((nodup_declarations_iff hkeyed).mpr h.distinct) hnodup

/-! ## A sample -/

namespace Sample

/-- How long a stop takes, none by default. -/
def wait : Property := ⟨some (.one "number"), none, none, "", some (.number (.double .zero)), false⟩

/-- A list of stops, some of them null. -/
def stops : Property :=
  ⟨some (.one "array"), some ⟨none, none, some "#/types/Stop", "", none, true⟩, none, "", none,
    false⟩

/-- A document of stops. -/
def stopDocument : Document := ⟨[("Stop", ⟨"", [("wait", wait)], []⟩)], []⟩

/-- A document of routes, and of a service that takes a route and gives a
stop. -/
def routeDocument : Document :=
  ⟨[("Route", ⟨"", [("stops", stops)], ["stops"]⟩)],
    [⟨"transit", some "Transit", "",
      [⟨"start", some "Route.Start", "", some "Route", some "#/types/Stop"⟩]⟩]⟩

/-- Both of them. -/
def loader : Loader :=
  ⟨Grammar.parser, .standard, [⟨"stops", stopDocument⟩, ⟨"routes", routeDocument⟩]⟩

theorem keyed : ∀ s ∈ loader.sources, s.document.Keyed := by
  intro s hs
  obtain rfl | rfl : s = _ ∨ s = _ := by simpa [loader] using hs
  · exact ⟨by decide, by decide⟩
  · exact ⟨by decide, by decide⟩

/-- The declared types, one by one. -/
theorem declared_cases {name : String} {d : TypeDefinition}
    (hd : Entries.get? (declarations loader.sources) name = some d) :
    (name = "Stop" ∧ d = ⟨"", [("wait", wait)], []⟩) ∨
      (name = "Route" ∧ d = ⟨"", [("stops", stops)], ["stops"]⟩) := by
  simpa [declarations, loader, stopDocument, routeDocument] using Entries.mem_of_get?_eq_some hd

theorem wait_kind : wait.kind? = some "number" := by decide

theorem stops_kind : stops.kind? = some "array" := by decide

theorem stop_name : typeName? "#/types/Stop" = some "Stop" := by decide +kernel

/-- Only routes refer to anything. -/
theorem refers {name ref : String} (h : Refers (declarations loader.sources) name ref) :
    name = "Route" ∧ ref = "Stop" := by
  obtain ⟨d, hd, e, he, htarget⟩ := h
  obtain ⟨rfl, rfl⟩ | ⟨rfl, rfl⟩ := declared_cases hd
  · obtain rfl := List.mem_singleton.mp he
    cases htarget
  · obtain rfl := List.mem_singleton.mp he
    exact ⟨rfl, Option.some.inj (htarget.symm.trans stop_name)⟩

theorem wellFormed : WellFormed loader.sources := by
  refine ⟨by decide, ⟨?_, ?_, ?_, ?_, ?_⟩, ?_, by decide⟩
  · intro name d hd
    obtain ⟨rfl, rfl⟩ | ⟨rfl, rfl⟩ := declared_cases hd <;> decide
  · intro name d hd
    obtain ⟨rfl, rfl⟩ | ⟨rfl, rfl⟩ := declared_cases hd <;> decide
  · intro name d hd e he
    obtain ⟨rfl, rfl⟩ | ⟨rfl, rfl⟩ := declared_cases hd
    · obtain rfl := List.mem_singleton.mp he
      exact .scalar rfl rfl wait_kind (by decide)
    · obtain rfl := List.mem_singleton.mp he
      exact .array rfl rfl stops_kind rfl (.reference rfl rfl stop_name (by decide))
  · intro name hcycle
    have hends : ∀ {ref}, Relation.TransGen (Refers (declarations loader.sources)) name ref →
        name = "Route" ∧ ref = "Stop" := by
      intro ref href
      induction href with
      | single h => exact refers h
      | tail _ h ih => exact ⟨ih.1, (refers h).2⟩
    obtain ⟨hroute, hstop⟩ := hends hcycle
    simp [hroute] at hstop
  · intro name d hd e he raw hraw t ht
    obtain ⟨rfl, rfl⟩ | ⟨rfl, rfl⟩ := declared_cases hd
    · obtain rfl := List.mem_singleton.mp he
      obtain rfl := Option.some.inj hraw
      have hnumber : t = wait.admitting (.scalar .number) :=
        ht.eq (.scalar rfl rfl wait_kind rfl)
      exact hnumber ▸ ⟨_, rfl⟩
    · obtain rfl := List.mem_singleton.mp he
      cases hraw
  · intro d hd
    obtain rfl := List.mem_singleton.mp hd
    refine ⟨by decide, by decide, fun op hop => ?_, by decide, by decide⟩
    obtain rfl := List.mem_singleton.mp hop
    refine ⟨by decide, by decide, ?_, ?_⟩
    · rintro _ ⟨⟩
      exact ⟨"Route", by decide, by decide +kernel⟩
    · rintro _ ⟨⟩
      exact ⟨"Stop", by decide, stop_name⟩

end Sample

theorem Loader.exists_build_sample : ∃ r, Sample.loader.build = .ok r :=
  (Loader.exists_build_iff Sample.loader Sample.keyed).mpr Sample.wellFormed

end ServiceContracts.Definition
