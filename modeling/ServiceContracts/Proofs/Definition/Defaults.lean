import ServiceContracts.Proofs.Definition.Failures
import ServiceContracts.Proofs.Definition.Matching
import ServiceContracts.Proofs.Definition.Optionality
/-!
# Defaults in documents

A default is written as a value and kept as one of the property's type. It
goes through three hands: the document is read, the default is read
against the type while the type is resolved, and building the schema
writes it and reads it once more. The last does nothing to it, and the
second refuses what is not of the type, so that the load stops there or
earlier (`Loader.StopsAt`).

The first takes null for no default at all, whatever the type. So a null
that is no value of the type is not refused, and one that is a value of it
is not kept; `Loader.build_defaults` says both of them with the rest.
-/


namespace ServiceContracts.Definition

/-! ## In a document -/

/-- **The value of a property**, at its place in the value of a document. -/
def HoldsProperty (v : Json) (type name : String) (w : Json) : Prop :=
  ∃ types definition properties, v.member? "types" = some types ∧
    types.member? type = some definition ∧ definition.member? "properties" = some properties ∧
    properties.member? name = some w

theorem exists_object_of_member? {v w : Json} {key : String} (h : v.member? key = some w) :
    ∃ members, v = .object members ∧ Entries.get? members key = some w := by
  cases v with
  | object members => exact ⟨members, rfl, h⟩
  | _ => cases h

/-- What is read from the members of an object, is read from each of them. -/
theorem exists_mem_of_reads_map {α : Type} {read : Reader α} {missing : Option (Entries String α)}
    {map : Entries String α} {v w : Json} {key : String}
    (h : (Reader.map read).Reads missing (some v) map) (hw : v.member? key = some w) :
    ∃ a, (key, a) ∈ map ∧ read w = .ok a := by
  obtain ⟨⟨⟩, -⟩ | ⟨_, ⟨⟩, hread⟩ := h
  obtain ⟨members, rfl, hforall⟩ := Reader.map_eq_ok_iff.mp hread
  obtain ⟨⟨_, a⟩, hmem, rfl, ha⟩ :=
    exists_of_forall₂_right hforall (Entries.mem_of_get?_eq_some hw)
  exact ⟨a, hmem, ha⟩

/-- A property is read from its value. -/
theorem Document.exists_of_holdsProperty {v : Json} {document : Document}
    (h : Document.read v = .ok document) {type name : String} {w : Json}
    (hw : HoldsProperty v type name w) :
    ∃ d p, (type, d) ∈ document.types ∧ (name, p) ∈ d.properties ∧ Property.read w = .ok p := by
  obtain ⟨types, definition, properties, htypes, hdefinition, hproperties, hname⟩ := hw
  obtain ⟨members, rfl, hmember⟩ := exists_object_of_member? htypes
  obtain ⟨-, hmap, -⟩ := Document.read_object_eq_ok_iff.mp h
  rw [hmember] at hmap
  obtain ⟨d, hd, hread⟩ := exists_mem_of_reads_map hmap hdefinition
  obtain ⟨members, rfl, hmember⟩ := exists_object_of_member? hproperties
  obtain ⟨-, hmap, -⟩ := TypeDefinition.read_object_eq_ok_iff.mp hread
  rw [hmember] at hmap
  obtain ⟨p, hp, hread⟩ := exists_mem_of_reads_map hmap hname
  exact ⟨d, p, hd, hp, hread⟩

/-- **A property has the default that is written**, unless that is null. -/
theorem Property.default_of_read {p : Property} {w raw : Json} (h : Property.read w = .ok p)
    (hraw : w.member? "default" = some raw) :
    (raw ≠ .null → p.default = some raw) ∧ (raw = .null → p.default = none) := by
  obtain ⟨members, rfl, hmember⟩ := exists_object_of_member? hraw
  obtain ⟨-, -, -, -, hdefault, -⟩ := Property.read_object_eq_ok_iff.mp h
  rw [hmember] at hdefault
  have hiff := reads_default_iff.mp hdefault
  refine ⟨fun hne => (hiff raw).mpr ⟨rfl, hne⟩, ?_⟩
  rintro rfl
  refine Option.eq_none_iff_forall_ne_some.mpr fun other hother => ?_
  obtain ⟨hsame, hne⟩ := (hiff other).mp hother
  exact hne (Option.some.inj hsame).symm

/-! ## Kept -/

/-- **The field of a property**, in the schema that its type stands for. -/
theorem Expands.exists_field {decls : Declarations} (hnodup : (Entries.keys decls).Nodup)
    {type name : String} {schema : Schema} (h : Expands decls type schema) {d : TypeDefinition}
    {p : Property} (hd : (type, d) ∈ decls) (hp : (name, p) ∈ d.properties) :
    ∃ f ∈ schema.fields, p.HasField (Expands decls) d.required name f := by
  obtain ⟨d', hd', hschema⟩ := Expands.iff_hasSchema.mp h
  obtain rfl : d = d' :=
    Option.some.inj ((Entries.get?_eq_some_of_mem hnodup hd).symm.trans hd')
  exact exists_of_forall₂_left (hschema.forall₂_fields fun _ _ => Expands.built) hp

/-- It is what a load builds. -/
theorem Loader.exists_field_of_build {l : Loader} {r : Registry} (h : l.build = .ok r)
    {type name : String} {d : TypeDefinition} {p : Property}
    (hd : (type, d) ∈ declarations l.sources) (hp : (name, p) ∈ d.properties) :
    ∃ table schema f, load l.sources = .ok (r, table) ∧ Entries.get? table type = some schema ∧
      f ∈ schema.fields ∧ p.HasField (Expands (declarations l.sources)) d.required name f := by
  obtain ⟨table, hload, htable⟩ := exists_table_of_buildRegistry h
  obtain ⟨hnodup, hall, -⟩ := exists_buildRegistry_iff.mp ⟨r, h⟩
  obtain ⟨schema, hschema⟩ := hall type (List.mem_map_of_mem hd)
  obtain ⟨f, hf, hfield⟩ := hschema.exists_field hnodup hd hp
  exact ⟨table, schema, f, hload, (htable type).trans hschema.expand_eq, hf, hfield⟩

/-- What a field has of the property: the type, if the default is read
against it, and the value that is read. -/
theorem Property.HasField.of_default {known : String → Schema → Prop} {required : List String}
    {name : String} {p : Property} {f : Field} (h : p.HasField known required name f) {raw : Json}
    (hdefault : p.default = some raw) :
    ∃ value, p.HasType known f.type ∧ f.type.decode true raw = .ok value ∧
      f.default = some value := by
  cases h with
  | plain _ hnone => simp [hdefault] at hnone
  | @withDefault base raw' value htype hsome hread =>
    obtain rfl := Option.some.inj (hdefault.symm.trans hsome)
    exact ⟨value, htype, FieldType.read_eq_ok_iff.mp hread, rfl⟩

theorem Property.HasField.default_eq_none {known : String → Schema → Prop}
    {required : List String} {name : String} {p : Property} {f : Field}
    (h : p.HasField known required name f) (hdefault : p.default = none) : f.default = none := by
  cases h with
  | plain => rfl
  | withDefault _ hsome => simp [hdefault] at hsome

/-! ## Refused -/

/-- **A load stops at a type or before it**: where two types have one name,
or in the types up to that one, in the order of the documents. No service
has been looked at then. -/
inductive Loader.StopsAt (l : Loader) (type : String) (e : LoadError) : Prop
  | names (h : collectTypes [] (declared l.sources) = .error e)
  | types {before after : List String} (hnodup : (Entries.keys (declarations l.sources)).Nodup)
      (hkeys : Entries.keys (declarations l.sources) = before ++ type :: after)
      (h : (resolveAll (declarations l.sources) (before ++ [type])).run [] = .error e)

/-- Resolving some types and then others. -/
theorem resolveAll_append (decls : Declarations) (names others : List String) :
    resolveAll decls (names ++ others) = (do
      resolveAll decls names
      resolveAll decls others) := by
  induction names with
  | nil => rw [List.nil_append, resolveAll, pure_bind]
  | cons name rest ih => simp only [List.cons_append, resolveAll, bind_assoc, ih]

theorem run_bind_of_error {α β : Type} {m : Resolving α} {f : α → Resolving β} {built : Built}
    {e : LoadError} (h : m.run built = .error e) : (m >>= f).run built = .error e := by
  rw [StateT.run_bind, h]
  rfl

/-- It fails then. -/
theorem Loader.StopsAt.build_eq {l : Loader} {type : String} {e : LoadError}
    (h : l.StopsAt type e) : l.build = .error e := by
  cases h with
  | names h =>
    rw [Loader.build, buildRegistry, load, h]
    rfl
  | @types before after hnodup hkeys h =>
    have hnames : Entries.keys (declarations l.sources) = (before ++ [type]) ++ after := by
      rw [hkeys, List.append_assoc, List.singleton_append]
    rw [Loader.build, buildRegistry_eq hnodup, hnames, resolveAll_append,
      run_bind_of_error (run_bind_of_error h)]
    rfl

/-- And for something that is wrong with the types, whatever the services
are. -/
theorem Loader.StopsAt.justified {l : Loader} {type : String} {e : LoadError}
    (h : l.StopsAt type e) (ds : List ServiceDefinition) :
    Justified (declarations l.sources) ds e := by
  cases h with
  | names h => exact justified_of_collectTypes h ds
  | @types before after hnodup hkeys h =>
    have hsub : before ++ [type] ⊆ Entries.keys (declarations l.sources) := by
      rw [hkeys]
      simp
    exact resolveAll_failsOnly hsub [] (.nil _) e h

/-- **A load stops at a type that stands for nothing.** -/
theorem Loader.exists_stopsAt {l : Loader} {type : String}
    (htype : type ∈ Entries.keys (declarations l.sources))
    (h : (Entries.keys (declarations l.sources)).Nodup →
      ∀ schema, ¬ Expands (declarations l.sources) type schema) :
    ∃ e, l.StopsAt type e := by
  cases hcollect : collectTypes [] (declared l.sources) with
  | error e => exact ⟨e, .names hcollect⟩
  | ok types =>
    have hnodup := nodup_of_collectTypes hcollect
    obtain ⟨before, after, hkeys⟩ := List.append_of_mem htype
    cases hrun : (resolveAll (declarations l.sources) (before ++ [type])).run [] with
    | error e => exact ⟨e, .types hnodup hkeys hrun⟩
    | ok result =>
      -- a type that has been resolved stands for a schema
      obtain ⟨hall, -⟩ := (resolveAll_decides _).of_run_eq_ok (.nil _) hrun
      obtain ⟨schema, hschema⟩ := hall type (List.mem_append_right _ List.mem_cons_self)
      exact absurd hschema (h hnodup schema)

/-! ## Both ends -/

/-- **A default in a document is checked and kept, unless it is null.** If
the documents load, the field has the type that the property gives, and
for a default the value that is read from it strictly; a default of null
is none. And one that is not of the type, or of a property without one,
makes every load fail, at the type or before it, with an error of the
types that is true. -/
theorem Loader.build_defaults {l : Loader} {parser : DocumentParser} {origin : String} {v : Json}
    {document : Document} (hread : parser.parseValue origin v = .ok document)
    (hsource : ⟨origin, document⟩ ∈ l.sources) {type name : String} {w raw : Json}
    (hw : HoldsProperty v type name w) (hraw : w.member? "default" = some raw) :
    ∃ p, Property.read w = .ok p ∧
    (∀ r, l.build = .ok r → ∃ table schema f, load l.sources = .ok (r, table) ∧
      Entries.get? table type = some schema ∧ f ∈ schema.fields ∧ f.name = name ∧
      (raw ≠ .null → ∃ value,
        p.plainType (expand (declarations l.sources)) = some f.type ∧
        f.type.decode true raw = .ok value ∧ f.default = some value) ∧
      (raw = .null → f.default = none)) ∧
    (raw ≠ .null →
      (∀ t value, p.plainType (expand (declarations l.sources)) = some t →
        t.decode true raw ≠ .ok value) →
      ∃ e, l.build = .error e ∧ l.StopsAt type e ∧ Justified (declarations l.sources) [] e) := by
  obtain ⟨-, -, hread⟩ := DocumentParser.parseValue_eq_ok_iff.mp hread
  obtain ⟨d, p, hd, hp, hpread⟩ := Document.exists_of_holdsProperty hread hw
  obtain ⟨hsome, hnone⟩ := Property.default_of_read hpread hraw
  refine ⟨p, hpread, ?_⟩
  have hdecl : (type, d) ∈ declarations l.sources := List.mem_flatMap.mpr ⟨_, hsource, hd⟩
  constructor
  · intro r hr
    obtain ⟨table, schema, f, hload, hschema, hf, hfield⟩ :=
      Loader.exists_field_of_build hr hdecl hp
    refine ⟨table, schema, f, hload, hschema, hf, hfield.name_eq, fun hne => ?_, ?_⟩
    · obtain ⟨value, htype, hvalue, hkept⟩ := hfield.of_default (hsome hne)
      have hplain := Property.plainType_of_hasType (htype.mono fun _ _ => Expands.expand_eq)
      exact ⟨value, hplain, hvalue, hkept⟩
    · exact fun hnull => hfield.default_eq_none (hnone hnull)
  · intro hne hbad
    obtain ⟨e, he⟩ : ∃ e, l.StopsAt type e := by
      refine Loader.exists_stopsAt (List.mem_map_of_mem hdecl) fun hnodup schema hschema => ?_
      -- what the type stood for would have a field with a default that was read
      obtain ⟨f, -, hfield⟩ := hschema.exists_field hnodup hdecl hp
      obtain ⟨value, htype, hvalue, -⟩ := hfield.of_default (hsome hne)
      have hplain := Property.plainType_of_hasType (htype.mono fun _ _ => Expands.expand_eq)
      exact hbad f.type value hplain hvalue
    exact ⟨e, he.build_eq, he, he.justified []⟩

namespace Fares

/-- A property that is a text, with a default. -/
def text (default : Json) : Json := .object [("type", .string "string"), ("default", default)]

/-- A document of fares, which apply to a zone and have a note. -/
def value (zone note : Json) : Json :=
  .object [("$schema", .string dialect),
    ("types", .object [("Fare", .object [
      ("properties", .object [("zone", text zone), ("note", text note)]),
      ("required", .array [.string "note"])])]),
    ("services", .array [])]

/-- What is read from it where the note has no default. -/
def document (zone : Json) : Document :=
  ⟨[("Fare", ⟨"", [("zone", ⟨some (.one "string"), none, none, "", some zone, false⟩),
    ("note", ⟨some (.one "string"), none, none, "", none, false⟩)], ["note"]⟩)], []⟩

/-- A loader with it. -/
def loader (zone : Json) : Loader := ⟨Grammar.parser, .standard, [⟨"fares", document zone⟩]⟩

/-- Its one source. -/
theorem mem_sources (zone : Json) : ⟨"fares", document zone⟩ ∈ (loader zone).sources :=
  List.mem_singleton.mpr rfl

theorem holdsProperty_zone (zone note : Json) :
    HoldsProperty (value zone note) "Fare" "zone" (text zone) :=
  ⟨_, _, _, rfl, rfl, rfl, rfl⟩

theorem holdsProperty_note (zone note : Json) :
    HoldsProperty (value zone note) "Fare" "note" (text note) :=
  ⟨_, _, _, rfl, rfl, rfl, rfl⟩

theorem plainType_of_read {default : Json} {p : Property} (h : Property.read (text default) = .ok p)
    (refer : String → Option Schema) : p.plainType refer = some (.scalar .string) := by
  cases default with
  | null | boolean | number | string | array | object =>
    obtain rfl := Except.ok.inj h
    exact Property.plainType_eq _

theorem parseValue_string (s : String) :
    Grammar.parser.parseValue "fares" (value (.string s) .null) = .ok (document (.string s)) := rfl

theorem parseValue_boolean (b : Bool) :
    Grammar.parser.parseValue "fares" (value (.boolean b) .null) = .ok (document (.boolean b)) := rfl

theorem exists_build : ∃ r, (loader (.string "A")).build = .ok r := by
  have hall : ∀ name ∈ Entries.keys (declarations (loader (.string "A")).sources),
      (expand (declarations (loader (.string "A")).sources) name).isSome = true := by
    decide +kernel
  refine exists_buildRegistry_iff.mpr ⟨by decide, fun name hname => ?_, nofun, by decide⟩
  obtain ⟨schema, hschema⟩ := Option.isSome_iff_exists.mp (hall name hname)
  exact ⟨schema, Expands.of_expandTo hschema⟩

theorem build_boolean (b : Bool) : ∃ errors,
    (FieldType.scalar .string).read (.boolean b) = .error errors ∧
    (loader (.boolean b)).build = .error (.invalidType "Fare" (.badDefault "zone" errors)) := by
  refine ⟨_, rfl, ?_⟩
  have hkeys : Entries.keys (declarations (loader (.boolean b)).sources) = ["Fare"] := rfl
  have hnodup : (Entries.keys (declarations (loader (.boolean b)).sources)).Nodup :=
    hkeys ▸ List.nodup_singleton _
  rw [Loader.build, buildRegistry_eq hnodup, hkeys, resolveAll, resolve]
  rfl

end Fares

/-- The zone of a fare is kept, and a zone that is no text is refused. -/
theorem Loader.build_defaults_fares :
    (∃ r table schema f, (Fares.loader (.string "A")).build = .ok r ∧
      load (Fares.loader (.string "A")).sources = .ok (r, table) ∧
      Entries.get? table "Fare" = some schema ∧ f ∈ schema.fields ∧ f.name = "zone" ∧
      f.default = some (.string "A")) ∧
    ∃ errors, (Fares.loader (.boolean true)).StopsAt "Fare"
      (.invalidType "Fare" (.badDefault "zone" errors)) := by
  constructor
  · obtain ⟨r, hr⟩ := Fares.exists_build
    obtain ⟨p, hp, hkept, -⟩ := Loader.build_defaults (Fares.parseValue_string "A")
      (Fares.mem_sources _) (Fares.holdsProperty_zone _ _) rfl
    obtain ⟨table, schema, f, hload, hschema, hf, hname, hdefault, -⟩ := hkept r hr
    obtain ⟨value, htype, hvalue, hfield⟩ := hdefault nofun
    rw [Fares.plainType_of_read hp] at htype
    rw [← Option.some.inj htype] at hvalue
    obtain rfl : Value.string "A" = value := Except.ok.inj hvalue
    exact ⟨r, table, schema, f, hr, hload, hschema, hf, hname, hfield⟩
  · obtain ⟨errors, -, hbuild⟩ := Fares.build_boolean true
    obtain ⟨p, hp, -, hrefused⟩ := Loader.build_defaults (Fares.parseValue_boolean true)
      (Fares.mem_sources _) (Fares.holdsProperty_zone _ _) rfl
    obtain ⟨e, he, hstops, -⟩ := hrefused nofun fun t value ht hvalue => by
      rw [Fares.plainType_of_read hp] at ht
      rw [← Option.some.inj ht] at hvalue
      cases hvalue
    obtain rfl := Except.error.inj (hbuild.symm.trans he)
    exact ⟨errors, hstops⟩

/-- **The note of a fare has to be given**, and null is no text and cannot be
the default of one; but it is written as that, and the fares load, with no
default for the note. -/
theorem Loader.build_nullDefault :
    Grammar.parser.parseValue "fares" (Fares.value (.string "A") .null) =
      .ok (Fares.document (.string "A")) ∧
    HoldsProperty (Fares.value (.string "A") .null) "Fare" "note" (Fares.text .null) ∧
    (Fares.text .null).member? "default" = some .null ∧
    (∀ value, (FieldType.scalar .string).decode true .null ≠ .ok value) ∧
    ∃ r table schema f, (Fares.loader (.string "A")).build = .ok r ∧
      load (Fares.loader (.string "A")).sources = .ok (r, table) ∧
      Entries.get? table "Fare" = some schema ∧ f ∈ schema.fields ∧ f.name = "note" ∧
      f.type = .scalar .string ∧ f.default = none := by
  refine ⟨Fares.parseValue_string "A", Fares.holdsProperty_note _ _, rfl, nofun, ?_⟩
  obtain ⟨r, hr⟩ := Fares.exists_build
  obtain ⟨table, schema, f, hload, hschema, hf, hfield⟩ := Loader.exists_field_of_build hr
    List.mem_cons_self (List.mem_cons_of_mem _ List.mem_cons_self)
  obtain ⟨base, hbase, heq⟩ := Property.hasField_iff.mp hfield
  have hplain := Property.plainType_of_hasType (hbase.mono fun _ _ => Expands.expand_eq)
  have hread : Property.read (Fares.text .null) =
      .ok ⟨some (.one "string"), none, none, "", none, false⟩ := rfl
  obtain rfl : FieldType.scalar .string = base :=
    Option.some.inj ((Fares.plainType_of_read hread _).symm.trans hplain)
  obtain rfl := Option.some.inj heq
  exact ⟨r, table, schema, _, hr, hload, hschema, hf, rfl, rfl, rfl⟩

end ServiceContracts.Definition
