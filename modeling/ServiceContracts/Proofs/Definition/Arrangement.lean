import ServiceContracts.Proofs.Definition.Loaded
import ServiceContracts.Proofs.Service.Conforming
import Mathlib.Data.List.Perm.Basic
/-!
# How definitions are spread over documents

Types of all documents share one space of names, so which document
declares a type, and what comes before it, should not matter. The
resolver does go by that order, and builds types in another sequence,
from other places and at other depths when it changes. But what a name
stands for is said from the declarations as they are looked up
(`Expands.congr`), and a look-up among distinct names knows no order
(`Entries.get?_perm`). So documents in another order give the same
services, in their order (`Registry.Rearranged`).

Two neighbours may also be joined into one document
(`Document.join`): that moves nothing, and only an error that tells two
origins apart can notice (`SameOutcome`).
-/


namespace ServiceContracts

/-- **Look-up knows no order** among distinct keys. -/
theorem Entries.get?_perm {κ α : Type} [DecidableEq κ] {m others : Entries κ α}
    (hnodup : (keys m).Nodup) (hperm : others.Perm m) (key : κ) :
    get? others key = get? m key := by
  have hnodup' : (keys others).Nodup := (hperm.map Prod.fst).nodup_iff.mpr hnodup
  refine Option.ext fun value => ?_
  rw [get?_eq_some_iff hnodup', get?_eq_some_iff hnodup, hperm.mem_iff]

namespace Definition

/-! ## Declarations that are looked up alike -/

section LookUp

variable {decls others : Declarations}
  (hsame : ∀ name, Entries.get? others name = Entries.get? decls name)

include hsame

/-- The same names are declared. -/
theorem mem_keys_congr (name : String) :
    name ∈ Entries.keys others ↔ name ∈ Entries.keys decls := by
  rw [← Entries.has_iff, ← Entries.has_iff, Entries.has, Entries.has, hsame]

/-- **What a name stands for** is a matter of looking up alone. -/
theorem Expands.congr {name : String} {schema : Schema} :
    Expands others name schema ↔ Expands decls name schema := by
  constructor
  · intro h
    induction h with
    | intro _ hdecl hschema ih => exact .intro ih (hsame _ ▸ hdecl) hschema
  · intro h
    induction h with
    | intro _ hdecl hschema ih => exact .intro ih ((hsame _).trans hdecl) hschema

/-- So is what it expands to. -/
theorem expand_congr (name : String) : expand others name = expand decls name := by
  refine Option.ext fun schema => ?_
  have hiff : ∀ decls : Declarations,
      expand decls name = some schema ↔ Expands decls name schema := by
    intro decls
    exact ⟨Expands.of_expandTo, Expands.expand_eq⟩
  rw [hiff others, hiff decls]
  exact Expands.congr hsame

theorem OperationDefinition.WellFormed.congr {d : OperationDefinition}
    (h : d.WellFormed decls) : d.WellFormed others := by
  obtain ⟨hidentifier, hwire, hinput, houtput⟩ := h
  have hkeys := mem_keys_congr hsame
  refine ⟨hidentifier, hwire, fun reference href => ?_, fun reference href => ?_⟩
  · obtain ⟨name, hname, htype⟩ := hinput reference href
    exact ⟨name, (hkeys name).mpr hname, htype⟩
  · obtain ⟨name, hname, htype⟩ := houtput reference href
    exact ⟨name, (hkeys name).mpr hname, htype⟩

theorem ServiceDefinition.WellFormed.congr {d : ServiceDefinition} (h : d.WellFormed decls) :
    d.WellFormed others :=
  ⟨h.identifier, h.serviceName, fun op hop => (h.operations op hop).congr hsame, h.identifiers,
    h.wireNames⟩

theorem ServiceDefinition.Describes.congr {d : ServiceDefinition} {s : Service}
    (h : d.Describes others s) : d.Describes decls s := by
  have hside : ∀ {side : Option String} {schema : Option Schema},
      Side.Describes others side schema → Side.Describes decls side schema := by
    intro side schema hside
    simpa only [Side.Describes, expand_congr hsame] using hside
  refine ⟨h.name, h.doc, h.operations.imp fun _ _ hop => ?_⟩
  exact ⟨hop.code, hop.wire, hside hop.input, hside hop.output, hop.doc⟩

end LookUp

/-! ## A definition describes one service -/

section Unique

variable {decls : Declarations}

theorem Side.Describes.unique {side : Option String} {schema schema' : Option Schema}
    (h : Side.Describes decls side schema) (h' : Side.Describes decls side schema') :
    schema = schema' := by
  cases h with
  | none =>
    cases h' with
    | none => rfl
  | some hschema =>
    cases h' with
    | some hschema' =>
      obtain ⟨name, hname, hexpand⟩ := hschema
      obtain ⟨name', hname', hexpand'⟩ := hschema'
      obtain rfl := Option.some.inj (hname.symm.trans hname')
      rw [Option.some.inj (hexpand.symm.trans hexpand')]

theorem OperationDefinition.Describes.unique {d : OperationDefinition} {op op' : Operation}
    (h : d.Describes decls op) (h' : d.Describes decls op') : op = op' := by
  have hcode := h.code.trans h'.code.symm
  have hwire := h.wire.trans h'.wire.symm
  have hinput := h.input.unique h'.input
  have houtput := h.output.unique h'.output
  have hdoc := h.doc.trans h'.doc.symm
  obtain ⟨code, wire, input, output, doc⟩ := op
  obtain ⟨code', wire', input', output', doc'⟩ := op'
  rw [Operation.mk.injEq]
  exact ⟨hcode, hwire, hinput, houtput, hdoc⟩

/-- **A definition describes one service**, if its indexes are right. -/
theorem ServiceDefinition.Describes.unique {d : ServiceDefinition} {s s' : Service}
    (h : d.Describes decls s) (h' : d.Describes decls s') (hs : s.Indexed) (hs' : s'.Indexed) :
    s = s' := by
  have hname := h.name.trans h'.name.symm
  have hdoc := h.doc.trans h'.doc.symm
  have hunique : Relator.RightUnique (OperationDefinition.Describes decls) :=
    fun _ _ _ => OperationDefinition.Describes.unique
  have hops : s.operations = s'.operations :=
    List.right_unique_forall₂' hunique h.operations h'.operations
  have hcode : s.byCode = s'.byCode := by rw [hs.byCode, hs'.byCode, hops]
  have hwire : s.byWire = s'.byWire := by rw [hs.byWire, hs'.byWire, hops]
  obtain ⟨name, doc, byCode, byWire⟩ := s
  obtain ⟨name', doc', byCode', byWire'⟩ := s'
  rw [Service.mk.injEq]
  exact ⟨hname, hdoc, hcode, hwire⟩

/-- So definitions describe one list of services. -/
theorem ServiceDefinition.Describes.unique_list {ds : List ServiceDefinition}
    {list list' : List Service} (h : List.Forall₂ (ServiceDefinition.Describes decls) ds list)
    (h' : List.Forall₂ (ServiceDefinition.Describes decls) ds list')
    (hlist : ∀ s ∈ list, s.Indexed) (hlist' : ∀ s ∈ list', s.Indexed) : list = list' := by
  induction h generalizing list' with
  | nil =>
    cases h' with
    | nil => rfl
  | cons hd _ ih =>
    cases h' with
    | cons hd' htail' =>
      rw [List.forall_mem_cons] at hlist hlist'
      rw [hd.unique hd' hlist.1 hlist'.1, ih htail' hlist.2 hlist'.2]

end Unique

/-! ## Equal in the eyes of the library -/

/-- A side is described by a schema that has been built. -/
theorem Side.Describes.built {decls : Declarations} {side : Option String} {schema : Schema}
    (h : Side.Describes decls side (some schema)) : schema.Built := by
  cases h with
  | some hschema =>
    obtain ⟨name, -, hexpand⟩ := hschema
    exact (Expands.of_expandTo hexpand).built

theorem OperationDefinition.Describes.schemasBuilt {decls : Declarations}
    {d : OperationDefinition} {op : Operation} (h : d.Describes decls op) : op.SchemasBuilt := by
  refine ⟨fun schema hschema => ?_, fun schema hschema => ?_⟩
  · have hinput := h.input
    rw [hschema] at hinput
    exact hinput.built
  · have houtput := h.output
    rw [hschema] at houtput
    exact houtput.built

end Definition

/-- An operation over built schemas equals itself: no default in them is
anything but finite. -/
theorem Operation.SchemasBuilt.same_self {op : Operation} (h : op.SchemasBuilt) :
    op.same op = true := by
  have hside : ∀ side : Option Schema, (∀ schema, side = some schema → schema.Built) →
      Operation.sameSchema side side = true := by
    intro side hbuilt
    cases side with
    | none => rfl
    | some schema => exact (hbuilt schema rfl).same_self
  have hinput := hside op.input h.input
  have houtput := hside op.output h.output
  simp [Operation.same, hinput, houtput]

/-- **The same services in another order.** They are the same by name, doc
and operations, in the equality of the library too, and each is found
under its name. -/
structure Registry.Rearranged (r r' : Registry) : Prop where
  services : r'.services.Perm r.services
  found : ∀ name, r'.service? name = r.service? name
  equal : ∀ s ∈ r.services, ∃ s' ∈ r'.services, s'.name = s.name ∧ s'.doc = s.doc ∧
    List.Forall₂ (fun op' op => op'.same op = true) s'.operations s.operations
  isSealed : r'.isSealed = r.isSealed

/-- Services in another order are found under the same names. -/
theorem Registry.Indexed.service?_perm {r r' : Registry} (hr : r.Indexed) (hr' : r'.Indexed)
    (hperm : r'.services.Perm r.services) (name : String) :
    r'.service? name = r.service? name := by
  refine Option.ext fun s => ?_
  rw [hr'.service?_eq_some_iff, hr.service?_eq_some_iff, hperm.mem_iff]

namespace Definition

/-! ## Documents in another order -/

section Order

variable {sources others : List Source} (hperm : others.Perm sources)

include hperm

theorem declarations_perm : (declarations others).Perm (declarations sources) :=
  hperm.flatMap fun _ _ => List.Perm.refl _

theorem services_perm : (services others).Perm (services sources) :=
  hperm.flatMap fun _ _ => List.Perm.refl _

/-- Documents in another order are looked up alike. -/
theorem get?_declarations_perm (hnodup : (Entries.keys (declarations sources)).Nodup)
    (name : String) :
    Entries.get? (declarations others) name = Entries.get? (declarations sources) name :=
  Entries.get?_perm hnodup (declarations_perm hperm) name

/-- **Documents load in any order**, if they do in one. -/
theorem exists_buildRegistry_perm (h : ∃ r, buildRegistry sources = .ok r) :
    ∃ r, buildRegistry others = .ok r := by
  obtain ⟨hnodup, hexpands, hservices, hnames⟩ := exists_buildRegistry_iff.mp h
  have hdecls := declarations_perm hperm
  have hlookup := get?_declarations_perm hperm hnodup
  have hds := services_perm hperm
  refine exists_buildRegistry_iff.mpr ⟨?_, fun name hname => ?_, fun d hd => ?_, ?_⟩
  · exact (hdecls.map Prod.fst).nodup_iff.mpr hnodup
  · obtain ⟨schema, hschema⟩ := hexpands name ((mem_keys_congr hlookup name).mp hname)
    exact ⟨schema, (Expands.congr hlookup).mpr hschema⟩
  · exact (hservices d (hds.mem_iff.mp hd)).congr hlookup
  · exact (hds.map _).nodup_iff.mpr hnames

/-- **And give the same services**, in their order. -/
theorem rearranged_of_perm {r r' : Registry} (hr : buildRegistry sources = .ok r)
    (hr' : buildRegistry others = .ok r') : r.Rearranged r' := by
  have hlookup := get?_declarations_perm hperm (nodup_of_buildRegistry_eq_ok hr)
  obtain ⟨hdescribes, hindexed, hopen⟩ := describes_of_buildRegistry hr
  obtain ⟨hdescribes', hindexed', hopen'⟩ := describes_of_buildRegistry hr'
  -- the services of the one, in the order of the definitions of the other
  obtain ⟨list, hlist, hlistPerm⟩ := List.perm_comp_forall₂ (services_perm hperm) hdescribes
  have hsame : list = r'.services := by
    refine ServiceDefinition.Describes.unique_list hlist
      (hdescribes'.imp fun _ _ hd => hd.congr hlookup) (fun s hs => ?_) hindexed'.services
    exact hindexed.services s (hlistPerm.mem_iff.mp hs)
  have hservices : r'.services.Perm r.services := hsame ▸ hlistPerm
  refine ⟨hservices, hindexed.service?_perm hindexed' hservices, fun s hs => ?_,
    hopen'.trans hopen.symm⟩
  obtain ⟨d, -, hd⟩ := exists_of_forall₂_right hdescribes hs
  refine ⟨s, hservices.mem_iff.mpr hs, rfl, rfl, List.forall₂_same.mpr fun op hop => ?_⟩
  obtain ⟨od, -, hod⟩ := exists_of_forall₂_right hd.operations hop
  exact hod.schemasBuilt.same_self

end Order

/-! ## Joined documents -/

/-- The document with the types and the services of both. -/
def Document.join (d e : Document) : Document := ⟨d.types ++ e.types, d.services ++ e.services⟩

/-- Joining keeps names apart that were apart. -/
theorem Document.Keyed.join {d e : Document} (hd : d.Keyed) (he : e.Keyed)
    (hdisjoint : ∀ name ∈ Entries.keys d.types, name ∉ Entries.keys e.types) :
    (d.join e).Keyed := by
  refine ⟨?_, fun t ht => ?_⟩
  · rw [Document.join, Entries.keys, List.map_append]
    exact hd.types.append he.types hdisjoint
  · obtain ht | ht := List.mem_append.mp ht
    · exact hd.properties t ht
    · exact he.properties t ht

/-- **The same outcome of two loads, but for the origins**: where they fail
for a name that is declared twice, they may disagree on where. -/
inductive SameOutcome {α : Type} (origins : String → String → Prop) (results : α → α → Prop) :
    Except LoadError α → Except LoadError α → Prop
  | ok {a a' : α} (h : results a a') : SameOutcome origins results (.ok a) (.ok a')
  | duplicateType {name first first' second second' : String} (hfirst : origins first first')
      (hsecond : origins second second') : SameOutcome origins results
        (.error (.duplicateType name first second)) (.error (.duplicateType name first' second'))
  | error (e : LoadError) : SameOutcome origins results (.error e) (.error e)

/-- The same declaration, from origins that may differ. -/
def SameDeclared (origins : String → String → Prop) (e e' : String × String × TypeDefinition) :
    Prop :=
  e'.1 = e.1 ∧ origins e.2.1 e'.2.1 ∧ e'.2.2 = e.2.2

section Join

variable {origins : String → String → Prop}

theorem SameOutcome.refl {α : Type} (x : Except LoadError α) : SameOutcome origins Eq x x := by
  cases x with
  | ok a => exact .ok rfl
  | error e => exact .error e

/-- With the same origins it is the same. -/
theorem SameOutcome.eq {α : Type} {x x' : Except LoadError α} (h : SameOutcome Eq Eq x x') :
    x' = x := by
  cases h with
  | ok h => rw [h]
  | duplicateType hfirst hsecond => rw [hfirst, hsecond]
  | error e => rfl

/-- The same names are taken. -/
theorem get?_sameDeclared {known known' : Entries String (String × TypeDefinition)}
    (h : List.Forall₂ (SameDeclared origins) known known') (name : String) :
    (Entries.get? known name = none ∧ Entries.get? known' name = none) ∨
      ∃ origin origin' d, Entries.get? known name = some (origin, d) ∧
        Entries.get? known' name = some (origin', d) ∧ origins origin origin' := by
  induction h with
  | nil => exact .inl ⟨rfl, rfl⟩
  | @cons e e' rest rest' he _ ih =>
    obtain ⟨_, origin, _⟩ := e
    obtain ⟨key, origin', d⟩ := e'
    obtain ⟨rfl, horigin, rfl⟩ := he
    by_cases hkey : key = name
    · exact .inr ⟨origin, origin', d, if_pos hkey, if_pos hkey, horigin⟩
    · simpa only [Entries.get?, if_neg hkey] using ih

/-- Collecting looks at names alone. -/
theorem collectTypes_sameOutcome {known known' list list' : Entries String (String × TypeDefinition)}
    (hknown : List.Forall₂ (SameDeclared origins) known known')
    (hlist : List.Forall₂ (SameDeclared origins) list list') :
    SameOutcome origins (List.Forall₂ (SameDeclared origins)) (collectTypes known list)
      (collectTypes known' list') := by
  induction hlist generalizing known known' with
  | nil => exact .ok hknown
  | @cons e e' rest rest' he _ ih =>
    obtain ⟨_, origin, _⟩ := e
    obtain ⟨name, origin', d⟩ := e'
    obtain ⟨rfl, horigin, rfl⟩ := he
    rw [collectTypes, collectTypes]
    obtain ⟨hnone, hnone'⟩ | ⟨first, first', known, hsome, hsome', hfirst⟩ :=
      get?_sameDeclared hknown name
    · -- a new name goes last in both
      rw [hnone, hnone', Entries.set_of_notMem (Entries.get?_eq_none_iff.mp hnone),
        Entries.set_of_notMem (Entries.get?_eq_none_iff.mp hnone')]
      exact ih (List.rel_append hknown (.cons ⟨rfl, horigin, rfl⟩ .nil))
    · rw [hsome, hsome']
      exact .duplicateType hfirst horigin

/-- **After the types have been collected**, a load has no use for the
origins. -/
theorem buildRegistry_sameOutcome {sources others : List Source}
    (hdeclared : List.Forall₂ (SameDeclared origins) (declared sources) (declared others))
    (hservices : services others = services sources) :
    SameOutcome origins Eq (buildRegistry sources) (buildRegistry others) := by
  have hcollect := collectTypes_sameOutcome .nil hdeclared
  rw [buildRegistry, buildRegistry, load, load, hservices]
  generalize collectTypes [] (declared sources) = x at hcollect ⊢
  generalize collectTypes [] (declared others) = x' at hcollect ⊢
  cases hcollect with
  | @ok types types' htypes =>
    have hdecls : types'.map (fun e => (e.1, e.2.2)) = types.map fun e => (e.1, e.2.2) := by
      refine map_eq_of_forall₂ htypes fun e e' he => ?_
      rw [he.1, he.2.2]
    simp only [bind, Except.bind, hdecls]
    exact .refl _
  | duplicateType hfirst hsecond => exact .duplicateType hfirst hsecond
  | error e => exact .error e

end Join

/-- The origins before and after two documents are joined into one. -/
def JoinedOrigin (s t : Source) (origin before after : String) : Prop :=
  after = before ∨ (before = s.origin ∨ before = t.origin) ∧ after = origin

/-- Joining two neighbours moves no type. -/
theorem sameDeclared_join (before after : List Source) (s t : Source) (origin : String) :
    List.Forall₂ (SameDeclared (JoinedOrigin s t origin))
      (declared (before ++ s :: t :: after))
      (declared (before ++ ⟨origin, s.document.join t.document⟩ :: after)) := by
  have hrefl : ∀ list, List.Forall₂ (SameDeclared (JoinedOrigin s t origin)) list list :=
    fun list => List.forall₂_same.mpr fun e _ => ⟨rfl, .inl rfl, rfl⟩
  have hmove : ∀ (u : Source), u.origin = s.origin ∨ u.origin = t.origin →
      List.Forall₂ (SameDeclared (JoinedOrigin s t origin))
        (u.document.types.map fun e => (e.1, u.origin, e.2))
        (u.document.types.map fun e => (e.1, origin, e.2)) := by
    intro u hu
    rw [List.forall₂_map_left_iff, List.forall₂_map_right_iff]
    exact List.forall₂_same.mpr fun e _ => ⟨rfl, .inr ⟨hu, rfl⟩, rfl⟩
  simp only [declared, List.flatMap_append, List.flatMap_cons, Document.join, List.map_append,
    List.append_assoc]
  exact List.rel_append (hrefl _) (List.rel_append (hmove s (.inl rfl))
    (List.rel_append (hmove t (.inr rfl)) (hrefl _)))

/-- Nor a service. -/
theorem services_join (before after : List Source) (s t : Source) (origin : String) :
    services (before ++ ⟨origin, s.document.join t.document⟩ :: after) =
      services (before ++ s :: t :: after) := by
  simp only [services, List.flatMap_append, List.flatMap_cons, Document.join, List.append_assoc]

/-! ## The arrangement of a load -/

/-- **How definitions are spread over documents does not matter**, nor does
the order of the documents. In another order they load if they did, and
give the same services in that order. And two neighbours that declare no
name in common may be one document: the outcome is the same, except that
an error that names their origins names the new one; with an origin kept
it is the same altogether. -/
theorem Loader.build_arrangement (l : Loader) :
    (∀ l' : Loader, l'.sources.Perm l.sources →
      ((∃ r', l'.build = .ok r') ↔ ∃ r, l.build = .ok r) ∧
      ∀ r r', l.build = .ok r → l'.build = .ok r' → r.Rearranged r') ∧
    ∀ before s t after origin, l.sources = before ++ s :: t :: after →
      (∀ name ∈ Entries.keys s.document.types, name ∉ Entries.keys t.document.types) →
      ∀ l' : Loader, l'.sources = before ++ ⟨origin, s.document.join t.document⟩ :: after →
        (s.document.Keyed → t.document.Keyed → (s.document.join t.document).Keyed) ∧
        SameOutcome (JoinedOrigin s t origin) Eq l.build l'.build ∧
        (s.origin = origin → t.origin = origin → l'.build = l.build) := by
  constructor
  · intro l' hperm
    have hback : (∃ r, l.build = .ok r) → ∃ r', l'.build = .ok r' :=
      exists_buildRegistry_perm hperm
    have hforth : (∃ r', l'.build = .ok r') → ∃ r, l.build = .ok r :=
      exists_buildRegistry_perm hperm.symm
    exact ⟨⟨hforth, hback⟩, fun r r' => rearranged_of_perm hperm⟩
  · intro before s t after origin hl hdisjoint l' hl'
    rw [Loader.build, Loader.build, hl, hl']
    have hservices := services_join before after s t origin
    have hdeclared := sameDeclared_join before after s t origin
    refine ⟨fun hs ht => hs.join ht hdisjoint, buildRegistry_sameOutcome hdeclared hservices, ?_⟩
    intro hs ht
    refine (buildRegistry_sameOutcome (hdeclared.imp fun e e' he => ⟨he.1, ?_, he.2.2⟩)
      hservices).eq
    obtain horigin | ⟨horigin | horigin, hjoined⟩ := he.2.1
    · exact horigin.symm
    · rw [horigin, hs, hjoined]
    · rw [horigin, ht, hjoined]

namespace Sample

/-- A document of a service without operations. -/
def healthDocument : Document := ⟨[], [⟨"health", none, "", []⟩]⟩

/-- The sample, and that service. -/
def threeDocuments : Loader :=
  ⟨Grammar.parser, .standard, loader.sources ++ [⟨"health", healthDocument⟩]⟩

/-- The same from the last to the first, in which routes come before the
stops that they refer to. -/
def reversed : Loader := ⟨Grammar.parser, .standard, threeDocuments.sources.reverse⟩

/-- The same in two documents. -/
def twoDocuments : Loader :=
  ⟨Grammar.parser, .standard,
    [⟨"transit", stopDocument.join routeDocument⟩, ⟨"health", healthDocument⟩]⟩

theorem exists_threeDocuments_build : ∃ r, threeDocuments.build = .ok r := by
  -- the types are those of the first two documents
  obtain ⟨hnodup, hexpands, hservices, -⟩ := exists_buildRegistry_iff.mp exists_load
  refine exists_buildRegistry_iff.mpr ⟨hnodup, hexpands, fun d hd => ?_, by decide⟩
  obtain hd | hd := List.mem_cons.mp hd
  · exact hservices d (List.mem_singleton.mpr hd)
  · obtain rfl := List.mem_singleton.mp hd
    exact ⟨by decide, by decide, fun op hop => absurd hop List.not_mem_nil, by decide, by decide⟩

end Sample

theorem Loader.build_arrangement_sample : ∃ r r', Sample.threeDocuments.build = .ok r ∧
    Sample.reversed.build = .ok r' ∧ r.Rearranged r' ∧
    r.services.map Service.name = ["Transit", "health"] ∧
    r'.services.map Service.name = ["health", "Transit"] ∧
    Sample.twoDocuments.build = .ok r := by
  obtain ⟨horder, hjoin⟩ := Loader.build_arrangement Sample.threeDocuments
  obtain ⟨r, hr⟩ := Sample.exists_threeDocuments_build
  obtain ⟨hsuccess, hrearranged⟩ := horder Sample.reversed (List.reverse_perm _)
  obtain ⟨r', hr'⟩ := hsuccess.mpr ⟨r, hr⟩
  obtain ⟨-, hsame, -⟩ := hjoin [] _ _ _ "transit" rfl (by decide) Sample.twoDocuments rfl
  have hjoined : Sample.twoDocuments.build = .ok r := by
    rw [hr] at hsame
    generalize Sample.twoDocuments.build = x at hsame ⊢
    cases hsame with
    | ok h => rw [h]
  obtain ⟨hservices, -, -⟩ := describes_of_buildRegistry hr
  obtain ⟨hservices', -, -⟩ := describes_of_buildRegistry hr'
  refine ⟨r, r', hr, hr', hrearranged r r' hr hr', ?_, ?_, hjoined⟩
  · exact map_eq_of_forall₂ hservices fun _ _ h => h.name
  · exact map_eq_of_forall₂ hservices' fun _ _ h => h.name

end Definition

end ServiceContracts
