import ServiceContracts.Proofs.Definition.Failures
import ServiceContracts.Proofs.Definition.Matching
/-!
# What can still be wrong with documents that were read

A load checks some things for itself that its documents have been checked
for: names that the format has made identifiers, defaults that have been
read as values of their types, types that are looked up by the names they
are declared under. None of these checks fails after the first.
`Remaining` lists the errors that are left, each with what it then says
about the documents, and a loader that was filled with documents that
could be read (`Loader.Filled`) has no other.
-/


namespace ServiceContracts

/-! ## Building over defaults that were read -/

namespace Schema

variable {name doc : String} {fields : List Field}

/-- Fields that are in normal form already are kept, or one of their names
is at fault. -/
theorem checkFields_cases {taken : List String} (hnormal : ∀ f ∈ fields, f.normalize = .ok f) :
    checkFields taken fields = .ok fields ∨
      (checkFields taken fields = .error .blankField ∧
        ∃ f ∈ fields, Text.isBlank f.name = true) ∨
      ∃ f ∈ fields, checkFields taken fields = .error (.duplicateField f.name) ∧
        (f.name ∈ taken ∨ ¬ (fields.map Field.name).Nodup) := by
  induction fields generalizing taken with
  | nil => exact .inl rfl
  | cons f rest ih =>
    obtain ⟨hf, hrest⟩ := List.forall_mem_cons.mp hnormal
    rw [checkFields]
    by_cases hblank : Text.isBlank f.name = true
    · rw [if_pos hblank]
      exact .inr (.inl ⟨rfl, f, List.mem_cons_self, hblank⟩)
    by_cases htaken : f.name ∈ taken
    · rw [if_neg hblank, if_pos htaken]
      exact .inr (.inr ⟨f, List.mem_cons_self, rfl, .inl htaken⟩)
    rw [if_neg hblank, if_neg htaken, hf]
    obtain hok | ⟨herror, g, hg, hgblank⟩ | ⟨g, hg, herror, hwhy⟩ :=
      @ih (f.name :: taken) hrest
    · rw [hok]
      exact .inl rfl
    · rw [herror]
      exact .inr (.inl ⟨rfl, g, List.mem_cons_of_mem f hg, hgblank⟩)
    · rw [herror]
      refine .inr (.inr ⟨g, List.mem_cons_of_mem f hg, rfl, ?_⟩)
      rw [List.map_cons, List.nodup_cons]
      obtain hmem | hrepeat := hwhy
      · obtain heq | hmem := List.mem_cons.mp hmem
        · exact .inr fun h => h.1 (heq ▸ List.mem_map_of_mem hg)
        · exact .inl hmem
      · exact .inr fun h => hrepeat h.2

/-- **So building keeps them, or says which name is at fault.** -/
theorem build_cases (hnormal : ∀ f ∈ fields, f.normalize = .ok f) :
    build name doc fields = .ok ⟨name, doc, fields⟩ ∨
      (build name doc fields = .error (.invalid name .blankName) ∧ Text.isBlank name = true) ∨
      (build name doc fields = .error (.invalid name .blankField) ∧
        ∃ f ∈ fields, Text.isBlank f.name = true) ∨
      ∃ f ∈ fields, build name doc fields = .error (.invalid name (.duplicateField f.name)) ∧
        ¬ (fields.map Field.name).Nodup := by
  unfold build
  by_cases hblank : Text.isBlank name = true
  · rw [if_pos hblank]
    exact .inr (.inl ⟨rfl, hblank⟩)
  rw [if_neg hblank]
  obtain hok | ⟨herror, hwhy⟩ | ⟨f, hf, herror, hwhy⟩ := @checkFields_cases fields [] hnormal
  · rw [hok]
    exact .inl rfl
  · rw [herror]
    exact .inr (.inr (.inl ⟨rfl, hwhy⟩))
  · rw [herror]
    exact .inr (.inr (.inr ⟨f, hf, rfl, hwhy.resolve_left List.not_mem_nil⟩))

end Schema

/-- A default that was read, strictly, is in normal form. -/
theorem Field.normalize_of_read {f : Field} (htype : f.type.Built)
    (hread : ∀ v, f.default = some v → ∃ raw, f.type.read raw = .ok v) : f.normalize = .ok f := by
  obtain ⟨name, type, default, doc⟩ := f
  refine Field.normalize_eq_ok_iff.mpr ?_
  cases default with
  | none => exact .inl ⟨rfl, rfl⟩
  | some v =>
    obtain ⟨raw, hraw⟩ := hread v rfl
    exact .inr ⟨v, v, rfl, htype.normalDefault_eq (FieldType.read_eq_ok_iff.mp hraw), rfl⟩

namespace Definition

open Format

/-! ## What reading has checked -/

/-- **What is known of a document that was read**: no name comes twice in
it, and what should be an identifier is one. -/
structure Document.Accepted (d : Document) : Prop where
  keyed : d.Keyed
  services : ∀ s ∈ d.services, Name.IsIdentifier s.identifier
  operations : ∀ s ∈ d.services, ∀ op ∈ s.operations, Name.IsIdentifier op.identifier

/-- What is read from a list comes from one of its items. -/
theorem exists_of_listMatches {α : Type} {R : α → Json → Prop} {P : Json → Prop} {v : Json}
    {key : String} {list : List α} (hlist : Required (IsListOf P) v key)
    (h : ListMatches R list (v.member? key)) {a : α} (ha : a ∈ list) : ∃ w, P w ∧ R a w := by
  obtain ⟨_, hmember, items, rfl, hitems⟩ := hlist
  obtain ⟨items', hmember', hforall⟩ | ⟨hnone, -⟩ := h
  · obtain rfl : items = items' :=
      Json.array.inj (Option.some.inj (hmember.symm.trans hmember'))
    obtain ⟨w, hw, haw⟩ := exists_of_forall₂_left hforall ha
    exact ⟨w, hitems w hw, haw⟩
  · rw [hmember] at hnone
    cases hnone

/-- A member that has to be an identifier is read as one. -/
theorem isIdentifier_of_member {v : Json} {key s : String} (h : Required IsIdentifier v key)
    (hs : v.member? key = some (.string s)) : Name.IsIdentifier s := by
  obtain ⟨_, hmember, t, ht, rfl⟩ := h
  obtain rfl := Json.string.inj (Option.some.inj (hmember.symm.trans hs))
  exact ht

/-- What is read from an object of keyed values has its keys, and each entry
comes from a keyed value. -/
theorem keyed_of_mapMatches {α : Type} {R : α → Json → Prop} {v : Json} {key : String}
    {map : Entries String α} (hv : v.Keyed) (h : MapMatches R map (v.member? key)) :
    (Entries.keys map).Nodup ∧ ∀ e ∈ map, ∃ w : Json, w.Keyed ∧ R e.2 w := by
  obtain ⟨members, hmember, hforall⟩ | ⟨-, rfl⟩ := h
  · obtain ⟨⟩ | ⟨⟩ | ⟨⟩ | ⟨⟩ | ⟨⟩ | ⟨hkeys, hvalues⟩ := hv.member hmember
    have hsame : Entries.keys members = Entries.keys map :=
      map_eq_of_forall₂ hforall fun _ _ h => h.1.symm
    refine ⟨hsame ▸ hkeys, fun e he => ?_⟩
    obtain ⟨m, hm, -, hR⟩ := exists_of_forall₂_left hforall he
    exact ⟨m.2, hvalues m hm, hR⟩
  · exact ⟨List.nodup_nil, fun e he => absurd he List.not_mem_nil⟩

/-- **A document is keyed** if the value is that it matches. -/
theorem Document.Matches.keyed {d : Document} {v : Json} (h : d.Matches v) (hv : v.Keyed) :
    d.Keyed := by
  obtain ⟨htypes, hentries⟩ := keyed_of_mapMatches hv h.types
  refine ⟨htypes, fun e he => ?_⟩
  obtain ⟨w, hw, hmatches⟩ := hentries e he
  exact (keyed_of_mapMatches hw hmatches.properties).1

theorem Document.Matches.accepted {d : Document} {v : Json} (h : d.Matches v) (hv : v.Keyed)
    (hdocument : IsDocument v) : d.Accepted := by
  have hservice : ∀ s ∈ d.services, ∃ w, IsService w ∧ s.Matches w := fun s hs =>
    exists_of_listMatches hdocument.services h.services hs
  refine ⟨h.keyed hv, fun s hs => ?_, fun s hs op hop => ?_⟩
  · obtain ⟨w, hw, hsw⟩ := hservice s hs
    exact isIdentifier_of_member hw.identifier hsw.identifier
  · obtain ⟨w, hw, hsw⟩ := hservice s hs
    obtain ⟨u, hu, hou⟩ := exists_of_listMatches hw.operations hsw.operations hop
    exact isIdentifier_of_member hu.identifier hou.identifier

/-- **So is a document that was parsed.** -/
theorem DocumentParser.accepted {library : JsonSchema.Library} {p : DocumentParser}
    (hlibrary : library.Implements metaSchema) (hparser : new library = .ok p) {origin : String}
    {v : Json} (hv : v.Keyed) {d : Document} (h : p.parseValue origin v = .ok d) : d.Accepted := by
  obtain ⟨hdocument, hmatches⟩ := ((parseValue_exact hlibrary hparser origin hv).2 d).mp h
  exact hmatches.accepted hv hdocument

/-- What is read from a text is read from a keyed value. -/
theorem DocumentParser.exists_parseValue_of_parse {p : DocumentParser} {origin text : String}
    {d : Document} (h : p.parse origin text = .ok d) :
    ∃ v, v.Keyed ∧ p.parseValue origin v = .ok d := by
  unfold parse at h
  cases hread : Json.parse? text with
  | none =>
    rw [hread] at h
    cases h
  | some v =>
    rw [hread] at h
    exact ⟨v, Json.keyed_of_parse? hread, h⟩

/-! ## Loads of documents that were read -/

section Filled

variable {library : JsonSchema.Library}

/-- The loaders that were filled with documents that could be read, from
values or from texts. -/
inductive Loader.Filled (library : JsonSchema.Library) : Loader → Prop
  | new {limits : Limits} {l : Loader} (hl : Loader.new library limits = .ok l) :
      Loader.Filled library l
  | addJson {l l' : Loader} {origin : String} {v : Json} (h : Loader.Filled library l)
      (hv : v.Keyed) (hl' : l.addJson origin v = (l', .ok ())) : Loader.Filled library l'
  | addText {l l' : Loader} {origin text : String} (h : Loader.Filled library l)
      (hl' : l.addText origin text = (l', .ok ())) : Loader.Filled library l'

/-- A document that can be added joins the others. -/
theorem Loader.push_eq_ok {l l' : Loader} {origin : String} {x : Except LoadError Document}
    (h : l.push origin x = (l', .ok ())) :
    ∃ d, x = .ok d ∧ l' = { l with sources := l.sources ++ [⟨origin, d⟩] } := by
  cases x with
  | error e => cases h
  | ok d => exact ⟨d, rfl, (Prod.mk.inj h).1.symm⟩

/-- **A filled loader has accepted documents only**, where the library
implements the meta-schema. -/
theorem Loader.Filled.accepted (hlibrary : library.Implements metaSchema) {l : Loader}
    (h : l.Filled library) :
    DocumentParser.new library = .ok l.parser ∧ ∀ s ∈ l.sources, s.document.Accepted := by
  induction h with
  | @new limits l hl =>
    cases hparser : DocumentParser.new library with
    | error e =>
      rw [Loader.new, hparser] at hl
      cases hl
    | ok p =>
      rw [Loader.new, hparser] at hl
      obtain rfl := Except.ok.inj hl
      exact ⟨rfl, fun s hs => absurd hs List.not_mem_nil⟩
  | @addJson l l' origin v _ hv hl' ih =>
    obtain ⟨hparser, hall⟩ := ih
    obtain ⟨d, hd, rfl⟩ := Loader.push_eq_ok hl'
    exact ⟨hparser, List.forall_mem_append.mpr
      ⟨hall, List.forall_mem_singleton.mpr (DocumentParser.accepted hlibrary hparser hv hd)⟩⟩
  | @addText l l' origin text _ hl' ih =>
    obtain ⟨hparser, hall⟩ := ih
    obtain ⟨d, hd, rfl⟩ := Loader.push_eq_ok hl'
    obtain ⟨v, hv, hread⟩ := DocumentParser.exists_parseValue_of_parse hd
    exact ⟨hparser, List.forall_mem_append.mpr
      ⟨hall, List.forall_mem_singleton.mpr (DocumentParser.accepted hlibrary hparser hv hread)⟩⟩

end Filled

/-- **What can still be wrong**, beyond names that are taken: a reference, a
type, or a name that was given and does not show or not on one line. -/
inductive Remaining (decls : Declarations) (ds : List ServiceDefinition) : LoadError → Prop
  | duplicateType {name first second : String} :
      Remaining decls ds (.duplicateType name first second)
  | unknownType {reference : String} {use : TypeUse} (huse : use ≠ .namespaceEntry) :
      Remaining decls ds (.unknownType reference use)
  | typeCycle {names : List String} : Remaining decls ds (.typeCycle names)
  | invalidType {name : String} {fault : TypeFault} :
      Remaining decls ds (.invalidType name fault)
  | blankType {name : String} (hname : name ∈ Entries.keys decls)
      (hblank : Text.isBlank name = true) : Remaining decls ds (.schema (.invalid name .blankName))
  | blankProperty {name key : String} {d : TypeDefinition}
      (hdecl : Entries.get? decls name = some d) (hkey : key ∈ Entries.keys d.properties)
      (hblank : Text.isBlank key = true) : Remaining decls ds (.schema (.invalid name .blankField))
  | serviceName {d : ServiceDefinition} {value : String} {fault : NameFault} (hd : d ∈ ds)
      (hname : d.name = some value) (hfault : Name.visibleFault? value = some fault) :
      Remaining decls ds (.registry (.invalidName "service name" value fault))
  | wireName {d : ServiceDefinition} {op : OperationDefinition} {value : String}
      {fault : NameFault} (hd : d ∈ ds) (hop : op ∈ d.operations) (hname : op.name = some value)
      (hfault : Name.visibleFault? value = some fault) :
      Remaining decls ds (.registry (.invalidName "operation wire name" value fault))
  | duplicateOperation {service name : String} {kind : OperationName} :
      Remaining decls ds (.registry (.duplicateOperation service kind name))
  | duplicateService {name : String} : Remaining decls ds (.registry (.duplicateService name))

/-- A name that was given: to a service, or to an operation for requests. -/
def IsGiven (ds : List ServiceDefinition) (kind value : String) : Prop :=
  (kind = "service name" ∧ ∃ d ∈ ds, d.name = some value) ∨
    (kind = "operation wire name" ∧ ∃ d ∈ ds, ∃ op ∈ d.operations, op.name = some value)

section Remaining

variable {decls : Declarations} {ds : List ServiceDefinition}

/-- A fallback name has no fault. -/
theorem exists_name_of_visibleFault? {name : Option String} {identifier : String}
    (hidentifier : Name.IsIdentifier identifier) {fault : NameFault}
    (h : Name.visibleFault? (name.getD identifier) = some fault) :
    ∃ value, name = some value ∧ name.getD identifier = value ∧
      Name.visibleFault? value = some fault := by
  cases name with
  | some value => exact ⟨value, rfl, rfl, h⟩
  | none =>
    have hvisible := Name.visibleFault?_eq_none_iff.mpr hidentifier.isVisible
    rw [Option.getD_none, hvisible] at h
    cases h

/-- **What the registry still refuses.** -/
theorem ServiceDefinition.Refused.remaining {d : ServiceDefinition} {error : RegistryError}
    (h : d.Refused error) (hd : d ∈ ds) (hidentifier : Name.IsIdentifier d.identifier)
    (hoperations : ∀ op ∈ d.operations, Name.IsIdentifier op.identifier) :
    Remaining decls ds (.registry error) := by
  cases h with
  | identifier hfault =>
    rw [Name.identifierFault?_eq_none_iff.mpr hidentifier] at hfault
    cases hfault
  | serviceName hfault =>
    obtain ⟨value, hname, hvalue, hfault⟩ := exists_name_of_visibleFault? hidentifier hfault
    obtain rfl : d.serviceName = value := hvalue
    exact .serviceName hd hname hfault
  | taken => exact .duplicateService
  | @operation op _ hop hrefused =>
    have hop' := hoperations op hop
    cases hrefused with
    | identifier hfault =>
      rw [Name.identifierFault?_eq_none_iff.mpr hop'] at hfault
      cases hfault
    | wireName hfault =>
      obtain ⟨value, hname, hvalue, hfault⟩ := exists_name_of_visibleFault? hop' hfault
      obtain rfl : op.wireName = value := hvalue
      exact .wireName hd hop hname hfault
    | codeTaken | wireTaken => exact .duplicateOperation

/-- **So with schemas.** -/
theorem remaining_of_schema {name : String} {d : TypeDefinition} {fields : List Field}
    {error : SchemaError} (hdecl : Entries.get? decls name = some d)
    (hnodup : (Entries.keys d.properties).Nodup)
    (hfields : List.Forall₂ (fun e f => Property.HasField (Expands decls) d.required e.1 e.2 f)
      d.properties fields)
    (h : Schema.build name d.description fields = .error error) :
    Remaining decls ds (.schema error) := by
  have hnames : fields.map Field.name = Entries.keys d.properties :=
    map_eq_of_forall₂ hfields fun _ _ => Property.HasField.name_eq
  have hnormal : ∀ f ∈ fields, f.normalize = .ok f := by
    intro f hf
    obtain ⟨e, -, hef⟩ := exists_of_forall₂_right hfields hf
    exact hef.normalize_eq fun _ _ => Expands.built
  obtain hok | ⟨herror, hblank⟩ | ⟨herror, f, hf, hblank⟩ | ⟨f, -, herror, hrepeat⟩ :=
    @Schema.build_cases name d.description fields hnormal
  · rw [hok] at h
    cases h
  · obtain rfl := Except.error.inj (herror.symm.trans h)
    exact .blankType (List.mem_map_of_mem (Entries.mem_of_get?_eq_some hdecl)) hblank
  · obtain rfl := Except.error.inj (herror.symm.trans h)
    exact .blankProperty hdecl (hnames ▸ List.mem_map_of_mem hf) hblank
  · exact absurd (hnames ▸ hnodup) hrepeat

/-- Names are at fault only where they were given. -/
theorem Remaining.isGiven {kind value : String} {fault : NameFault}
    (h : Remaining decls ds (.registry (.invalidName kind value fault))) :
    IsGiven ds kind value ∧ Name.visibleFault? value = some fault := by
  cases h with
  | serviceName hd hname hfault => exact ⟨.inl ⟨rfl, _, hd, hname⟩, hfault⟩
  | wireName hd hop hname hfault => exact ⟨.inr ⟨rfl, _, hd, _, hop, hname⟩, hfault⟩

/-- No identifier is. -/
theorem IsGiven.kind_ne {kind value : String} (h : IsGiven ds kind value) :
    kind ≠ "service identifier" ∧ kind ≠ "operation code name" := by
  obtain ⟨rfl, -⟩ | ⟨rfl, -⟩ := h
  · decide
  · decide

end Remaining

/-- **A filled loader fails with no other errors.** -/
theorem Loader.Filled.remaining_of_build {library : JsonSchema.Library}
    (hlibrary : library.Implements metaSchema) {l : Loader} (hl : l.Filled library) {e : LoadError}
    (h : l.build = .error e) : Remaining (declarations l.sources) (services l.sources) e := by
  obtain ⟨-, haccepted⟩ := hl.accepted hlibrary
  cases Loader.justified_of_build h with
  | duplicateType => exact .duplicateType
  | unknownType huse => exact .unknownType huse
  | typeCycle => exact .typeCycle
  | invalidType => exact .invalidType
  | schema hdecl hfields hbuild =>
    obtain ⟨s, hs, hd⟩ := List.mem_flatMap.mp (Entries.mem_of_get?_eq_some hdecl)
    exact remaining_of_schema hdecl ((haccepted s hs).keyed.properties _ hd) hfields hbuild
  | @registry d _ hd hrefused =>
    obtain ⟨s, hs, hds⟩ := List.mem_flatMap.mp hd
    exact hrefused.remaining hd ((haccepted s hs).services d hds)
      ((haccepted s hs).operations d hds)

/-- **The later checks of a load cannot fail.** Where documents were read, a
load never looks up a type that is not declared, never finds the registry
sealed, and never finds fault with an identifier, under its own name or as
the name of a service or of requests: only names that were given can be
blank or hold a control character. It has no fault to find with a schema
but a blank name, of the type or of a property. And building a schema
keeps defaults that were read as they are, and refuses none. -/
theorem Loader.build_remaining {library : JsonSchema.Library}
    (hlibrary : library.Implements metaSchema) {l : Loader} (hl : l.Filled library) :
    (∀ e, l.build = .error e →
      (∀ reference, e ≠ .unknownType reference .namespaceEntry) ∧
      e ≠ .registry .isSealed ∧
      (∀ value fault, e ≠ .registry (.invalidName "service identifier" value fault)) ∧
      (∀ value fault, e ≠ .registry (.invalidName "operation code name" value fault)) ∧
      (∀ error, e = .schema error → ∃ name,
        (error = .invalid name .blankName ∧ name ∈ Entries.keys (declarations l.sources) ∧
          Text.isBlank name = true) ∨
        (error = .invalid name .blankField ∧ ∃ d key,
          Entries.get? (declarations l.sources) name = some d ∧
            key ∈ Entries.keys d.properties ∧ Text.isBlank key = true)) ∧
      ∀ kind value fault, e = .registry (.invalidName kind value fault) →
        IsGiven (services l.sources) kind value ∧
        ((fault = .empty ∧ Text.isBlank value = true) ∨
          (fault = .control ∧ ∃ c ∈ value.toList, Text.isControl c = true))) ∧
    ∀ name doc (fields : List Field),
      (∀ f ∈ fields, f.type.Built ∧ ∀ v, f.default = some v → ∃ raw, f.type.read raw = .ok v) →
      (∀ schema, Schema.build name doc fields = .ok schema → schema.fields = fields) ∧
      ∀ field type errors,
        Schema.build name doc fields ≠ .error (.invalid name (.badDefault field type errors)) := by
  constructor
  · intro e he
    have hremaining := hl.remaining_of_build hlibrary he
    refine ⟨?_, ?_, ?_, ?_, ?_, ?_⟩
    · rintro reference rfl
      cases hremaining with
      | unknownType huse => exact huse rfl
    · rintro rfl
      cases hremaining
    · rintro value fault rfl
      exact absurd rfl hremaining.isGiven.1.kind_ne.1
    · rintro value fault rfl
      exact absurd rfl hremaining.isGiven.1.kind_ne.2
    · rintro error rfl
      cases hremaining with
      | @blankType name hname hblank => exact ⟨name, .inl ⟨rfl, hname, hblank⟩⟩
      | @blankProperty name key d hdecl hkey hblank =>
        exact ⟨name, .inr ⟨rfl, d, key, hdecl, hkey, hblank⟩⟩
    · rintro kind value fault rfl
      obtain ⟨hgiven, hfault⟩ := hremaining.isGiven
      exact ⟨hgiven, Name.visibleFault?_eq_some hfault⟩
  · intro name doc fields hfields
    have hnormal : ∀ f ∈ fields, f.normalize = .ok f := fun f hf =>
      Field.normalize_of_read (hfields f hf).1 (hfields f hf).2
    obtain h | ⟨h, -⟩ | ⟨h, -⟩ | ⟨f, -, h, -⟩ := @Schema.build_cases name doc fields hnormal
    · rw [h]
      refine ⟨fun schema hschema => ?_, nofun⟩
      rw [← Except.ok.inj hschema]
    all_goals
      rw [h]
      exact ⟨nofun, nofun⟩

namespace Sample

/-- A document of a service whose name does not show. -/
def night : Json :=
  .object [("$schema", .string dialect),
    ("services", .array [.object [("identifier", .string "night"), ("name", .string " "),
      ("operations", .array [])]])]

theorem night_keyed : night.Keyed := by
  simp [night, Entries.keys]

/-- What is read from it. -/
def nightLoader : Loader :=
  ⟨Grammar.parser, .standard, [⟨"night", ⟨[], [⟨"night", some " ", "", []⟩]⟩⟩]⟩

end Sample

/-- A name that does not show is refused, and a wait of no time is kept as
the default that it is. -/
theorem Loader.build_remaining_night :
    (∃ l, Loader.new Grammar.library .standard = .ok l ∧
      l.addJson "night" Sample.night = (Sample.nightLoader, .ok ())) ∧
    Sample.nightLoader.build = .error (.registry (.invalidName "service name" " " .empty)) ∧
    IsGiven (services Sample.nightLoader.sources) "service name" " " ∧
    ∀ schema, Schema.build "Stop" "" ServiceContracts.Sample.stop.fields = .ok schema →
      schema.fields = ServiceContracts.Sample.stop.fields := by
  have hnew := Grammar.newLoader_eq .standard
  have hadd : Loader.addJson ⟨Grammar.parser, .standard, []⟩ "night" Sample.night =
      (Sample.nightLoader, .ok ()) := by rfl
  have hbuild : Sample.nightLoader.build =
      .error (.registry (.invalidName "service name" " " .empty)) := by rfl
  have hfilled : Sample.nightLoader.Filled Grammar.library :=
    .addJson (.new hnew) Sample.night_keyed hadd
  obtain ⟨hfails, hkeeps⟩ := Loader.build_remaining Grammar.implements hfilled
  obtain ⟨-, -, -, -, -, hnames⟩ := hfails _ hbuild
  refine ⟨⟨_, hnew, hadd⟩, hbuild, (hnames _ _ _ rfl).1, (hkeeps "Stop" "" _ fun f hf => ?_).1⟩
  refine ⟨ServiceContracts.Sample.stop_built.fieldType hf, fun v hv => ?_⟩
  -- only the wait has a default
  obtain rfl | rfl : f = _ ∨ f = _ := by simpa [ServiceContracts.Sample.stop] using hf
  · cases hv
  · obtain rfl := Option.some.inj hv
    exact ⟨.number (.double .zero), rfl⟩

end Definition

end ServiceContracts
