import ServiceContracts.Proofs.Definition.Loaded
/-!
# No reference is left dangling

A load that succeeds has resolved every reference that anything depends
on: those of the operations, and for each property the one that its type
is made from (`Property.dependence?`). For a property whose items are all
part of its type that is whatever reference is written in it, at any depth
(`Property.Tidy`).

A property may also have items without being an array, or besides a
reference of its own. These make no difference to its type, and nothing
looks at them; a reference in them may name a type that nobody declares
(`Loader.build_dangling`).
-/


namespace ServiceContracts.Definition

/-! ## What is written -/

/-- **The references written in a property**: its own, and those of its items,
whether or not it is an array. -/
inductive Property.Writes : Property → String → Prop
  | own {p : Property} {reference : String} (h : p.reference = some reference) :
      Writes p reference
  | items {p items : Property} {reference : String} (hitems : p.items = some items)
      (h : Writes items reference) : Writes p reference

/-- **Items are written only where they are part of the type**: in an array
that is no reference, and so on in the items. -/
inductive Property.Tidy : Property → Prop
  | intro {p : Property}
      (harray : ∀ items, p.items = some items → p.reference = none ∧ p.kind? = some "array")
      (hitems : ∀ items, p.items = some items → Tidy items) : Tidy p

/-- A property without items is tidy. -/
theorem Property.Tidy.of_items_eq_none {p : Property} (h : p.items = none) : p.Tidy := by
  have hnone : ∀ items, p.items ≠ some items := fun items => by simp [h]
  exact .intro (fun items hitems => absurd hitems (hnone items))
    (fun items hitems => absurd hitems (hnone items))

/-- So is an array whose items are. -/
theorem Property.Tidy.array {p items : Property} (hreference : p.reference = none)
    (hkind : p.kind? = some "array") (hitems : p.items = some items) (h : items.Tidy) :
    p.Tidy := by
  refine .intro (fun _ _ => ⟨hreference, hkind⟩) fun other hother => ?_
  obtain rfl := Option.some.inj (hitems.symm.trans hother)
  exact h

/-- The references written in a document: in operations, and in properties
as `R` says. -/
inductive Document.References (R : Property → String → Prop) (d : Document) : String → Prop
  | input {s : ServiceDefinition} {op : OperationDefinition} {reference : String}
      (hs : s ∈ d.services) (hop : op ∈ s.operations) (h : op.input = some reference) :
      References R d reference
  | output {s : ServiceDefinition} {op : OperationDefinition} {reference : String}
      (hs : s ∈ d.services) (hop : op ∈ s.operations) (h : op.output = some reference) :
      References R d reference
  | property {type name : String} {t : TypeDefinition} {p : Property} {reference : String}
      (ht : (type, t) ∈ d.types) (hp : (name, p) ∈ t.properties) (h : R p reference) :
      References R d reference

/-- The reference is to a type that is declared in one of the documents. -/
def NamesType (sources : List Source) (reference : String) : Prop :=
  ∃ name ∈ Entries.keys (declarations sources), typeName? reference = some name

/-! ## What is depended on -/

/-- In a tidy property that is every reference that is written. -/
theorem Property.Writes.dependence? {p : Property} {reference : String} (h : p.Writes reference)
    (htidy : p.Tidy) : p.dependence? = some reference := by
  induction h with
  | own h => exact dependence?_of_reference h
  | items hitems _ ih =>
    obtain ⟨harray, htidy⟩ := htidy
    obtain ⟨hreference, hkind⟩ := harray _ hitems
    rw [dependence?_of_items hreference hkind hitems]
    exact ih (htidy _ hitems)

/-- **A well-shaped property depends on a declared type**, if on any. -/
theorem Property.WellShaped.exists_name {decls : Declarations} {p : Property}
    (h : p.WellShaped decls) {reference : String} (hdepends : p.dependence? = some reference) :
    ∃ name ∈ Entries.keys decls, typeName? reference = some name := by
  induction h with
  | reference _ hreference hname hdecl =>
    obtain rfl := Option.some.inj ((dependence?_of_reference hreference).symm.trans hdepends)
    exact ⟨_, hdecl, hname⟩
  | @scalar _ kind _ hreference hkind hscalar =>
    have harray : kind ≠ "array" := by
      rintro rfl
      simp at hscalar
    rw [dependence?_of_kind hreference hkind harray] at hdepends
    cases hdepends
  | array _ hreference hkind hitems _ ih =>
    rw [dependence?_of_items hreference hkind hitems] at hdepends
    exact ih hdepends

/-- **No reference that a load follows is left dangling**: when it succeeds,
each reference of an operation is to a declared type, and so is each that a
property's type depends on. -/
theorem namesType_of_buildRegistry {sources : List Source} {r : Registry}
    (h : buildRegistry sources = .ok r) {s : Source} (hs : s ∈ sources) {reference : String}
    (hreference : s.document.References (fun p reference => p.dependence? = some reference)
      reference) : NamesType sources reference := by
  obtain ⟨hnodup, hexpands, hservices, -⟩ := exists_buildRegistry_iff.mp ⟨r, h⟩
  have hservice : ∀ d ∈ s.document.services, d ∈ services sources :=
    fun d hd => List.mem_flatMap.mpr ⟨s, hs, hd⟩
  cases hreference with
  | input hd hop h => exact ((hservices _ (hservice _ hd)).operations _ hop).input _ h
  | output hd hop h => exact ((hservices _ (hservice _ hd)).operations _ hop).output _ h
  | property ht hp h =>
    have hdecl := Entries.get?_eq_some_of_mem hnodup (List.mem_flatMap.mpr ⟨s, hs, ht⟩)
    exact ((TypesWellFormed.of_expands hexpands).shaped _ _ hdecl _ hp).exists_name h

/-- **A load that succeeds leaves no reference dangling**, in documents whose
properties have items only where these are part of their types: every
reference written in them, in operations or in properties at any depth, is
to a declared type. In all documents this holds of the references that
types depend on. -/
theorem Loader.namesType_of_build {l : Loader} {r : Registry} (h : l.build = .ok r) :
    ∀ s ∈ l.sources,
      ((∀ t ∈ s.document.types, ∀ e ∈ t.2.properties, Property.Tidy e.2) →
        ∀ reference, s.document.References Property.Writes reference →
          NamesType l.sources reference) ∧
      ∀ reference,
        s.document.References (fun p reference => p.dependence? = some reference) reference →
          NamesType l.sources reference := by
  intro s hs
  have hfollowed : ∀ reference,
      s.document.References (fun p reference => p.dependence? = some reference) reference →
        NamesType l.sources reference :=
    fun reference => namesType_of_buildRegistry h hs
  refine ⟨fun htidy reference hreference => hfollowed reference ?_, hfollowed⟩
  cases hreference with
  | input hd hop h => exact .input hd hop h
  | output hd hop h => exact .output hd hop h
  | property ht hp h => exact .property ht hp (h.dependence? (htidy _ ht _ hp))

/-- The stops of a route are an array, and the reference in their items is to
a type of the other document. -/
theorem Loader.namesType_of_build_sample :
    ∃ r, Sample.loader.build = .ok r ∧
      NamesType Sample.loader.sources "#/types/Stop" ∧ NamesType Sample.loader.sources "Route" := by
  obtain ⟨r, hr⟩ := Sample.exists_load
  obtain ⟨hwritten, hfollowed⟩ := Loader.namesType_of_build (l := Sample.loader) hr
    ⟨"routes", Sample.routeDocument⟩ (by simp [Sample.loader])
  refine ⟨r, hr, hwritten ?_ _ ?_, hfollowed _ ?_⟩
  · intro t ht e he
    obtain rfl := List.mem_singleton.mp ht
    obtain rfl := List.mem_singleton.mp he
    exact .array rfl (by decide) rfl (.of_items_eq_none rfl)
  · exact .property List.mem_cons_self List.mem_cons_self (.items rfl (.own rfl))
  · exact .input List.mem_cons_self List.mem_cons_self rfl

namespace Signs

/-- A document of signs, which have a text, and say of its items that they
are of a type that nobody declares. -/
def value : Json :=
  .object [("$schema", .string dialect),
    ("types", .object [("Sign", .object [("properties", .object [("text", .object
      [("type", .string "string"), ("items", .object [("$ref", .string "#/types/Nowhere")])])])])]),
    ("services", .array [])]

/-- The text, which is no array. -/
def text : Property :=
  ⟨some (.one "string"), some ⟨none, none, some "#/types/Nowhere", "", none, false⟩, none, "", none,
    false⟩

/-- What is read from it. -/
def document : Document := ⟨[("Sign", ⟨"", [("text", text)], []⟩)], []⟩

/-- A loader with it. -/
def loader : Loader := ⟨Grammar.parser, .standard, [⟨"signs", document⟩]⟩

theorem exists_build : ∃ r, loader.build = .ok r := by
  have hall : ∀ name ∈ Entries.keys (declarations loader.sources),
      (expand (declarations loader.sources) name).isSome = true := by
    decide +kernel
  refine exists_buildRegistry_iff.mpr ⟨by decide, fun name hname => ?_, nofun, by decide⟩
  obtain ⟨schema, hschema⟩ := Option.isSome_iff_exists.mp (hall name hname)
  exact ⟨schema, Expands.of_expandTo hschema⟩

end Signs

/-- **A dangling reference that a load does not see**: the document is
accepted and loads, with a reference in it to a type that is not
declared. -/
theorem Loader.build_dangling :
    Grammar.parser.parseValue "signs" Signs.value = .ok Signs.document ∧
    (∃ r, Signs.loader.build = .ok r) ∧
    Signs.document.References Property.Writes "#/types/Nowhere" ∧
    ¬ NamesType Signs.loader.sources "#/types/Nowhere" := by
  refine ⟨rfl, Signs.exists_build, ?_, ?_⟩
  · exact .property List.mem_cons_self List.mem_cons_self (.items rfl (.own rfl))
  · rintro ⟨name, hmem, hname⟩
    have hnowhere : typeName? "#/types/Nowhere" = some "Nowhere" := by decide +kernel
    obtain rfl := Option.some.inj (hnowhere.symm.trans hname)
    exact absurd hmem (by decide)

end ServiceContracts.Definition
