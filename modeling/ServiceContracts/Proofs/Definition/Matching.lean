import ServiceContracts.Definition.Reading
import ServiceContracts.Proofs.Definition.Fields
import ServiceContracts.Proofs.Definition.Grammar
import ServiceContracts.Proofs.Schema.Built
/-!
# Which values are documents, and of what

A document is read off a value that is one. `Document.Matches` says what
it then has: everything that the value says, in its order, and nothing
else. What is left out has a fixed meaning, and so has null for a
reference or a default; members of a property that the format does not
name are not looked at.

Two checks decide about that, the meta-schema and reading itself. What
the meta-schema has can be read, but for a reference that is no text
(`Document.read_eq_ok_iff`). So a value is read when it is a document,
and as the one that matches it (`DocumentParser.parseValue_exact`),
whichever library compiles the meta-schema.
-/


namespace ServiceContracts.Definition

open Format

/-! ## What matches a value -/

/-- A text, empty where it is left out. -/
def TextMatches (s : String) (member : Option Json) : Prop :=
  member = some (.string s) ∨ member = none ∧ s = ""

/-- A list of texts, empty where it is left out. -/
def NamesMatch (names : List String) (member : Option Json) : Prop :=
  member = some (.array (names.map .string)) ∨ member = none ∧ names = []

/-- A list of things that match the items, empty where it is left out. -/
def ListMatches {α : Type} (R : α → Json → Prop) (list : List α) (member : Option Json) : Prop :=
  (∃ items, member = some (.array items) ∧ List.Forall₂ R list items) ∨ member = none ∧ list = []

/-- The same under keys, which are those of the members. -/
def MapMatches {α : Type} (R : α → Json → Prop) (map : Entries String α) (member : Option Json) :
    Prop :=
  (∃ members, member = some (.object members) ∧
    List.Forall₂ (fun e m => e.1 = m.1 ∧ R e.2 m.2) map members) ∨ member = none ∧ map = []

/-- Kinds as they are listed. -/
def Kinds.toJson : Kinds → Json
  | .one kind => .string kind
  | .many kinds => .array (kinds.map .string)

/-- **A property matches a value.** -/
inductive Property.Matches : Property → Json → Prop
  | intro {p : Property} {v : Json} (hkinds : v.member? "type" = p.kinds.map Kinds.toJson)
      (hthere : p.items.isSome = (v.member? "items").isSome)
      (hitems : ∀ items w, p.items = some items → v.member? "items" = some w → items.Matches w)
      (hreference : ∀ s, p.reference = some s ↔ v.member? "$ref" = some (.string s))
      (hdescription : TextMatches p.description (v.member? "description"))
      (hdefault : ∀ raw, p.default = some raw ↔ v.member? "default" = some raw ∧ raw ≠ .null)
      (hnullable : p.nullable = true ↔ v.member? "nullable" = some (.boolean true)) :
      p.Matches v

/-- **A type matches a value.** -/
structure TypeDefinition.Matches (d : TypeDefinition) (v : Json) : Prop where
  description : TextMatches d.description (v.member? "description")
  properties : MapMatches Property.Matches d.properties (v.member? "properties")
  required : NamesMatch d.required (v.member? "required")

/-- **An operation matches a value.** -/
structure OperationDefinition.Matches (d : OperationDefinition) (v : Json) : Prop where
  identifier : v.member? "identifier" = some (.string d.identifier)
  name : v.member? "name" = d.name.map .string
  description : TextMatches d.description (v.member? "description")
  input : v.member? "input" = d.input.map .string
  output : v.member? "output" = d.output.map .string

/-- **A service matches a value.** -/
structure ServiceDefinition.Matches (d : ServiceDefinition) (v : Json) : Prop where
  identifier : v.member? "identifier" = some (.string d.identifier)
  name : v.member? "name" = d.name.map .string
  description : TextMatches d.description (v.member? "description")
  operations : ListMatches OperationDefinition.Matches d.operations (v.member? "operations")

/-- **A document matches a value.** -/
structure Document.Matches (d : Document) (v : Json) : Prop where
  types : MapMatches TypeDefinition.Matches d.types (v.member? "types")
  services : ListMatches ServiceDefinition.Matches d.services (v.member? "services")

/-! ## What is read off a member -/

section Members

variable {v : Json} {key : String} {P : Json → Prop}

theorem reads_text_iff {m : Option Json} {s : String} :
    Reader.text.Reads none m s ↔ m = some (.string s) := by
  simp [Reader.Reads, Reader.text_eq_ok_iff]

theorem reads_textOrEmpty_iff {m : Option Json} {s : String} :
    Reader.text.Reads (some "") m s ↔ TextMatches s m := by
  rw [Reader.Reads, TextMatches, or_comm, Option.some.injEq, @eq_comm _ "" s]
  simp [Reader.text_eq_ok_iff]

/-- Null is as good as none, so a member that is not null tells which it is. -/
theorem reads_option_iff {α : Type} {read : Reader α} {o : Option α}
    (h : Optional (· ≠ .null) v key) :
    read.option.Reads (some none) (v.member? key) o ↔
      (v.member? key = none ∧ o = none) ∨
        ∃ w a, v.member? key = some w ∧ o = some a ∧ read w = .ok a := by
  cases hmember : v.member? key with
  | none => simp [Reader.Reads, eq_comm]
  | some w =>
    have hne := h w hmember
    simp [Reader.Reads, Reader.option_eq_ok_iff, hne, and_comm]

theorem reads_optionText_iff {o : Option String} (h : Optional IsText v key) :
    Reader.text.option.Reads (some none) (v.member? key) o ↔ v.member? key = o.map .string := by
  have hne : Optional (· ≠ .null) v key := by
    rintro w hw rfl
    obtain ⟨s, hs⟩ := h _ hw
    cases hs
  rw [reads_option_iff hne]
  cases v.member? key <;> cases o <;> simp [Reader.text_eq_ok_iff]

theorem forall₂_text_iff {names : List String} {items : List Json} :
    List.Forall₂ (fun a w => Reader.text w = .ok a) names items ↔ items = names.map .string := by
  simp only [Reader.text_eq_ok_iff]
  induction names generalizing items with
  | nil => simp
  | cons name rest ih =>
    rw [List.forall₂_cons_left_iff, List.map_cons]
    constructor
    · rintro ⟨_, items, rfl, hall, rfl⟩
      rw [ih.mp hall]
    · rintro rfl
      exact ⟨_, _, rfl, ih.mpr rfl, rfl⟩

theorem reads_names_iff {m : Option Json} {names : List String} :
    (Reader.list .text).Reads (some []) m names ↔ NamesMatch names m := by
  rw [Reader.Reads, NamesMatch, or_comm, Option.some.injEq, @eq_comm _ [] names]
  simp [Reader.list_eq_ok_iff, forall₂_text_iff]

theorem Kinds.read_eq_ok_iff {kinds : Kinds} : Kinds.read v = .ok kinds ↔ v = kinds.toJson := by
  cases v with
  | string s => cases kinds <;> simp [Kinds.read, Kinds.toJson, eq_comm]
  | array items =>
    have hmany : ∀ names, items.mapM Reader.text = .ok names ↔ items = names.map .string :=
      fun _ => Reader.mapM_eq_ok_iff.trans forall₂_text_iff
    cases hread : items.mapM Reader.text with
    | ok names =>
      obtain rfl := (hmany names).mp hread
      cases kinds with
      | one kind => simp [Kinds.read, hread, Kinds.toJson]
      | many names' =>
        simp only [Kinds.read, hread, Kinds.toJson, Except.ok.injEq, Kinds.many.injEq,
          Json.array.injEq, ← hmany]
    | error fault =>
      cases kinds with
      | one kind => simp [Kinds.read, hread, Kinds.toJson]
      | many names => simp [Kinds.read, hread, Kinds.toJson, ← hmany]
  | _ => cases kinds <;> simp [Kinds.read, Kinds.toJson]

theorem reads_kinds_iff {kinds : Option Kinds} (h : Optional IsKinds v key) :
    (Reader.option Kinds.read).Reads (some none) (v.member? key) kinds ↔
      v.member? key = kinds.map Kinds.toJson := by
  have hne : Optional (· ≠ .null) v key := by
    rintro w hw rfl
    obtain ⟨kind, -, heq⟩ | ⟨names, heq, -⟩ := h _ hw
    · cases heq
    · cases heq
  rw [reads_option_iff hne]
  cases v.member? key <;> cases kinds <;> simp [Kinds.read_eq_ok_iff]

/-- A reference that is neither a text nor null is not read. -/
theorem reads_reference_iff {reference : Option String} :
    Reader.text.option.Reads (some none) (v.member? key) reference ↔
      Optional IsReference v key ∧
        ∀ s, reference = some s ↔ v.member? key = some (.string s) := by
  unfold Optional
  rcases v.member? key with _ | w
  · cases reference <;> simp [Reader.Reads]
  · cases w with
    | null => cases reference <;> simp [Reader.Reads, Reader.option_eq_ok_iff, IsReference]
    | string t =>
      have hsame : (∀ s, reference = some s ↔ some (Json.string t) = some (.string s)) ↔
          reference = some t := by
        rw [@Option.ext_iff _ reference]
        simp only [Option.some.injEq, Json.string.injEq]
      rw [hsame]
      simp [Reader.Reads, Reader.option_eq_ok_iff, Reader.text_eq_ok_iff, IsReference, IsText]
    | _ => simp [Reader.Reads, Reader.option_eq_ok_iff, Reader.text_eq_ok_iff, IsReference, IsText]

theorem reads_default_iff {m : Option Json} {default : Option Json} :
    Reader.any.option.Reads (some none) m default ↔
      ∀ raw, default = some raw ↔ m = some raw ∧ raw ≠ .null := by
  rcases m with _ | w
  · cases default <;> simp [Reader.Reads]
  by_cases hw : w = .null
  · subst hw
    have hnone : (∀ raw, default = some raw ↔ some Json.null = some raw ∧ raw ≠ .null) ↔
        default = none := by
      rw [Option.eq_none_iff_forall_ne_some]
      refine forall_congr' fun raw => ⟨fun h hraw => ?_, fun h => ⟨fun hraw => absurd hraw h, ?_⟩⟩
      · obtain ⟨hnull, hne⟩ := h.mp hraw
        exact hne (Option.some.inj hnull).symm
      · rintro ⟨⟨⟩, hne⟩
        exact absurd rfl hne
    rw [hnone]
    simp [Reader.Reads, Reader.option_eq_ok_iff]
  · have hsome : (∀ raw, default = some raw ↔ some w = some raw ∧ raw ≠ .null) ↔
        default = some w := by
      rw [@Option.ext_iff _ default]
      refine forall_congr' fun raw => iff_congr Iff.rfl ⟨And.left, fun h => ⟨h, fun hraw => ?_⟩⟩
      exact hw ((Option.some.inj h).trans hraw)
    rw [hsome]
    simp [Reader.Reads, Reader.option_eq_ok_iff, Reader.any, hw]

theorem reads_truth_iff {truth : Bool} (h : Optional IsTruth v key) :
    Reader.truth.Reads (some false) (v.member? key) truth ↔
      (truth = true ↔ v.member? key = some (.boolean true)) := by
  cases hmember : v.member? key with
  | none => cases truth <;> simp [Reader.Reads]
  | some w =>
    obtain ⟨b, rfl⟩ := h w hmember
    cases b <;> cases truth <;> simp [Reader.Reads, Reader.truth]

variable {α : Type} {read : Reader α} {R : α → Json → Prop} {Q : Json → Prop}

/-- What holds of each pair of two lists, with a part that is about the one
side only. -/
theorem forall₂_iff_and {β : Type} {S R : α → β → Prop} {Q : β → Prop} {as : List α}
    {bs : List β} (h : ∀ b ∈ bs, ∀ a, S a b ↔ Q b ∧ R a b) :
    List.Forall₂ S as bs ↔ (∀ b ∈ bs, Q b) ∧ List.Forall₂ R as bs := by
  induction bs generalizing as with
  | nil => simp
  | cons b rest ih =>
    obtain ⟨hb, hrest⟩ := List.forall_mem_cons.mp h
    rw [List.forall_mem_cons]
    constructor
    · intro hall
      cases hall with
      | cons ha hall =>
        obtain ⟨hQ, hR⟩ := (hb _).mp ha
        obtain ⟨hQs, hRs⟩ := (ih hrest).mp hall
        exact ⟨⟨hQ, hQs⟩, .cons hR hRs⟩
    · rintro ⟨⟨hQ, hQs⟩, hall⟩
      cases hall with
      | cons hR hRs => exact .cons ((hb _).mpr ⟨hQ, hR⟩) ((ih hrest).mpr ⟨hQs, hRs⟩)

/-- Things are read off a list that has to be there as each of them is. -/
theorem reads_list_iff (hlist : Required (IsListOf P) v key)
    (h : ∀ w, P w → ∀ a, read w = .ok a ↔ R a w) {as : List α} :
    (Reader.list read).Reads none (v.member? key) as ↔ ListMatches R as (v.member? key) := by
  obtain ⟨_, hmember, items, rfl, hitems⟩ := hlist
  have hall : List.Forall₂ (fun a w => read w = .ok a) as items ↔ List.Forall₂ R as items := by
    rw [@forall₂_iff_and _ _ _ R (fun _ => True) as items fun w hw a => by
      rw [h w (hitems w hw) a, true_and]]
    simp
  simp [hmember, Reader.Reads, Reader.list_eq_ok_iff, ListMatches, hall]

/-- And off an object that may be there. -/
theorem reads_map_iff (hmap : Optional (IsMapOf P) v key)
    (h : ∀ w, P w → ∀ a, read w = .ok a ↔ Q w ∧ R a w) {map : Entries String α} :
    (Reader.map read).Reads (some []) (v.member? key) map ↔
      Optional (IsMapOf Q) v key ∧ MapMatches R map (v.member? key) := by
  unfold Optional at hmap ⊢
  cases hmember : v.member? key with
  | none => simp [Reader.Reads, MapMatches, eq_comm]
  | some w =>
    obtain ⟨members, rfl, hmembers⟩ := hmap w hmember
    have hall := @forall₂_iff_and _ _ (fun (e : String × α) m => e.1 = m.1 ∧ read m.2 = .ok e.2)
      (fun e m => e.1 = m.1 ∧ R e.2 m.2) (fun m => Q m.2) map members fun m hm e => by
        rw [h m.2 (hmembers m hm) e.2, and_left_comm]
    simp [Reader.Reads, Reader.map_eq_ok_iff, MapMatches, IsMapOf, hall]

end Members

/-! ## What is read off a value -/

section Values

variable {v : Json}

/-- The items of a property are read as any other member. -/
theorem Property.reads_items_iff {members : List (String × Json)} {items : Option Property} :
    Reader.Reads (fun _ => readItems members) (some none) (Entries.get? members "items") items ↔
      (Reader.option Property.read).Reads (some none) (Entries.get? members "items") items := by
  have hread : ∀ w, Entries.get? members "items" = some w →
      readItems members = Reader.option Property.read w := by
    intro w hw
    induction members with
    | nil => cases hw
    | cons e rest ih =>
      obtain ⟨key, v⟩ := e
      rw [Entries.get?] at hw
      unfold readItems
      by_cases hkey : key = "items"
      · rw [if_pos hkey] at hw ⊢
        obtain rfl := Option.some.inj hw
        cases v <;> simp [Reader.option]
      · rw [if_neg hkey] at hw ⊢
        exact ih hw
  refine or_congr Iff.rfl (exists_congr fun w => and_congr_right fun hw => ?_)
  rw [hread w hw]

theorem Property.read_object_eq_ok_iff {members : List (String × Json)} {p : Property} :
    Property.read (.object members) = .ok p ↔
      (Reader.option Kinds.read).Reads (some none) (Entries.get? members "type") p.kinds ∧
      (Reader.option Property.read).Reads (some none) (Entries.get? members "items") p.items ∧
      Reader.text.option.Reads (some none) (Entries.get? members "$ref") p.reference ∧
      Reader.text.Reads (some "") (Entries.get? members "description") p.description ∧
      Reader.any.option.Reads (some none) (Entries.get? members "default") p.default ∧
      Reader.truth.Reads (some false) (Entries.get? members "nullable") p.nullable := by
  obtain ⟨kinds, items, reference, description, default, nullable⟩ := p
  rw [← reads_items_iff]
  simp only [Property.read, Property.fields, Fields.ofMembers_eq_ok_iff, Fields.seq_eq_ok_iff,
    Fields.map_eq_ok_iff, Fields.optional, Fields.withDefault, Fields.field_eq_ok_iff]
  constructor
  · rintro ⟨_, _, ⟨_, _, ⟨_, _, ⟨_, _, ⟨_, _, ⟨_, h1, rfl⟩, h2, rfl⟩, h3, rfl⟩, h4, rfl⟩, h5, rfl⟩,
      h6, ⟨⟩⟩
    exact ⟨h1, h2, h3, h4, h5, h6⟩
  · rintro ⟨h1, h2, h3, h4, h5, h6⟩
    exact ⟨_, _, ⟨_, _, ⟨_, _, ⟨_, _, ⟨_, _, ⟨_, h1, rfl⟩, h2, rfl⟩, h3, rfl⟩, h4, rfl⟩, h5, rfl⟩,
      h6, rfl⟩

/-- What was read of a property, as it was read. -/
theorem Property.matches_iff {p : Property} :
    p.Matches v ↔ v.member? "type" = p.kinds.map Kinds.toJson ∧
      (p.items.isSome = (v.member? "items").isSome ∧
        ∀ items w, p.items = some items → v.member? "items" = some w → items.Matches w) ∧
      (∀ s, p.reference = some s ↔ v.member? "$ref" = some (.string s)) ∧
      TextMatches p.description (v.member? "description") ∧
      (∀ raw, p.default = some raw ↔ v.member? "default" = some raw ∧ raw ≠ .null) ∧
      (p.nullable = true ↔ v.member? "nullable" = some (.boolean true)) :=
  ⟨fun ⟨h1, h2, h3, h4, h5, h6, h7⟩ => ⟨h1, ⟨h2, h3⟩, h4, h5, h6, h7⟩,
    fun ⟨h1, ⟨h2, h3⟩, h4, h5, h6, h7⟩ => ⟨h1, h2, h3, h4, h5, h6, h7⟩⟩

/-- **A property is read** as the one that matches, unless a reference in it
is no text. -/
theorem Property.read_eq_ok_iff (h : IsProperty (fun _ => True) v) (p : Property) :
    Property.read v = .ok p ↔ IsProperty IsReference v ∧ p.Matches v := by
  induction h generalizing p with
  | intro hobject htype hitems _ hdescription hnullable ih =>
    obtain ⟨members, rfl⟩ := hobject
    have hitemsRead : (Reader.option Property.read).Reads (some none)
        (Json.member? (.object members) "items") p.items ↔
          (∀ w, Json.member? (.object members) "items" = some w → IsProperty IsReference w) ∧
          p.items.isSome = (Json.member? (.object members) "items").isSome ∧
          ∀ items w, p.items = some items → Json.member? (.object members) "items" = some w →
            items.Matches w := by
      rw [reads_option_iff fun w hw => (hitems w hw).isObject.ne_null]
      cases hmember : Json.member? (.object members) "items" with
      | none => cases p.items <;> simp
      | some w => cases p.items <;> simp [ih w hmember]
    have hproperty : IsProperty IsReference (.object members) ↔
        (∀ w, Json.member? (.object members) "items" = some w → IsProperty IsReference w) ∧
        Optional IsReference (.object members) "$ref" :=
      ⟨fun ⟨_, _, hi, hr, _, _⟩ => ⟨hi, hr⟩,
        fun ⟨hi, hr⟩ => ⟨⟨members, rfl⟩, htype, hi, hr, hdescription, hnullable⟩⟩
    rw [read_object_eq_ok_iff, matches_iff, hproperty, reads_textOrEmpty_iff, reads_default_iff]
    rw [← reads_kinds_iff htype, ← reads_truth_iff hnullable]
    have href := @reads_reference_iff (.object members) "$ref" p.reference
    constructor
    · rintro ⟨h1, h2, h3, h4, h5, h6⟩
      obtain ⟨hi, h2⟩ := hitemsRead.mp h2
      obtain ⟨hr, h3⟩ := href.mp h3
      exact ⟨⟨hi, hr⟩, h1, h2, h3, h4, h5, h6⟩
    · rintro ⟨⟨hi, hr⟩, h1, h2, h3, h4, h5, h6⟩
      exact ⟨h1, hitemsRead.mpr ⟨hi, h2⟩, href.mpr ⟨hr, h3⟩, h4, h5, h6⟩

theorem TypeDefinition.read_object_eq_ok_iff {members : List (String × Json)} {d : TypeDefinition} :
    TypeDefinition.read (.object members) = .ok d ↔
      Reader.text.Reads (some "") (Entries.get? members "description") d.description ∧
      (Reader.map Property.read).Reads (some []) (Entries.get? members "properties") d.properties ∧
      (Reader.list .text).Reads (some []) (Entries.get? members "required") d.required := by
  obtain ⟨description, properties, required⟩ := d
  simp only [TypeDefinition.read, Fields.reader, Fields.ofMembers_eq_ok_iff, Fields.seq_eq_ok_iff,
    Fields.map_eq_ok_iff, Fields.withDefault, Fields.field_eq_ok_iff]
  constructor
  · rintro ⟨_, _, ⟨_, _, ⟨_, h1, rfl⟩, h2, rfl⟩, h3, ⟨⟩⟩
    exact ⟨h1, h2, h3⟩
  · rintro ⟨h1, h2, h3⟩
    exact ⟨_, _, ⟨_, _, ⟨_, h1, rfl⟩, h2, rfl⟩, h3, rfl⟩

/-- **A type is read** as the one that matches, unless a reference in it is
no text. -/
theorem TypeDefinition.read_eq_ok_iff (h : IsType (fun _ => True) v) (d : TypeDefinition) :
    TypeDefinition.read v = .ok d ↔ IsType IsReference v ∧ d.Matches v := by
  obtain ⟨members, rfl⟩ := h.keys.isObject
  have hmap := @reads_map_iff (.object members) "properties" _ _ _ _ _ h.properties
    (fun w hw p => Property.read_eq_ok_iff hw p) d.properties
  have htype : IsType IsReference (.object members) ↔
      Optional (IsMapOf (IsProperty IsReference)) (.object members) "properties" :=
    ⟨IsType.properties, fun hp => ⟨h.keys, h.description, hp, h.required⟩⟩
  rw [TypeDefinition.read_object_eq_ok_iff, htype]
  constructor
  · rintro ⟨h1, h2, h3⟩
    obtain ⟨hp, h2⟩ := hmap.mp h2
    exact ⟨hp, reads_textOrEmpty_iff.mp h1, h2, reads_names_iff.mp h3⟩
  · rintro ⟨hp, h1, h2, h3⟩
    exact ⟨reads_textOrEmpty_iff.mpr h1, hmap.mpr ⟨hp, h2⟩, reads_names_iff.mpr h3⟩

theorem OperationDefinition.read_object_eq_ok_iff {members : List (String × Json)}
    {d : OperationDefinition} :
    OperationDefinition.read (.object members) = .ok d ↔
      Reader.text.Reads none (Entries.get? members "identifier") d.identifier ∧
      Reader.text.option.Reads (some none) (Entries.get? members "name") d.name ∧
      Reader.text.Reads (some "") (Entries.get? members "description") d.description ∧
      Reader.text.option.Reads (some none) (Entries.get? members "input") d.input ∧
      Reader.text.option.Reads (some none) (Entries.get? members "output") d.output := by
  obtain ⟨identifier, name, description, input, output⟩ := d
  simp only [OperationDefinition.read, Fields.reader, Fields.ofMembers_eq_ok_iff,
    Fields.seq_eq_ok_iff, Fields.map_eq_ok_iff, Fields.required, Fields.optional,
    Fields.withDefault, Fields.field_eq_ok_iff]
  constructor
  · rintro ⟨_, _, ⟨_, _, ⟨_, _, ⟨_, _, ⟨_, h1, rfl⟩, h2, rfl⟩, h3, rfl⟩, h4, rfl⟩, h5, ⟨⟩⟩
    exact ⟨h1, h2, h3, h4, h5⟩
  · rintro ⟨h1, h2, h3, h4, h5⟩
    exact ⟨_, _, ⟨_, _, ⟨_, _, ⟨_, _, ⟨_, h1, rfl⟩, h2, rfl⟩, h3, rfl⟩, h4, rfl⟩, h5, rfl⟩

/-- **An operation is read** as the one that matches. -/
theorem OperationDefinition.read_eq_ok_iff (h : IsOperation v) (d : OperationDefinition) :
    OperationDefinition.read v = .ok d ↔ d.Matches v := by
  obtain ⟨members, rfl⟩ := h.keys.isObject
  have hname := @reads_optionText_iff (.object members) "name" d.name
    (h.name.mono fun _ => IsFilledText.isText)
  have hinput := @reads_optionText_iff (.object members) "input" d.input
    (h.input.mono fun _ => IsFilledText.isText)
  have houtput := @reads_optionText_iff (.object members) "output" d.output
    (h.output.mono fun _ => IsFilledText.isText)
  rw [OperationDefinition.read_object_eq_ok_iff]
  constructor
  · rintro ⟨h1, h2, h3, h4, h5⟩
    exact ⟨reads_text_iff.mp h1, hname.mp h2, reads_textOrEmpty_iff.mp h3, hinput.mp h4,
      houtput.mp h5⟩
  · rintro ⟨h1, h2, h3, h4, h5⟩
    exact ⟨reads_text_iff.mpr h1, hname.mpr h2, reads_textOrEmpty_iff.mpr h3, hinput.mpr h4,
      houtput.mpr h5⟩

theorem ServiceDefinition.read_object_eq_ok_iff {members : List (String × Json)}
    {d : ServiceDefinition} :
    ServiceDefinition.read (.object members) = .ok d ↔
      Reader.text.Reads none (Entries.get? members "identifier") d.identifier ∧
      Reader.text.option.Reads (some none) (Entries.get? members "name") d.name ∧
      Reader.text.Reads (some "") (Entries.get? members "description") d.description ∧
      (Reader.list OperationDefinition.read).Reads none (Entries.get? members "operations")
        d.operations := by
  obtain ⟨identifier, name, description, operations⟩ := d
  simp only [ServiceDefinition.read, Fields.reader, Fields.ofMembers_eq_ok_iff,
    Fields.seq_eq_ok_iff, Fields.map_eq_ok_iff, Fields.required, Fields.optional,
    Fields.withDefault, Fields.field_eq_ok_iff]
  constructor
  · rintro ⟨_, _, ⟨_, _, ⟨_, _, ⟨_, h1, rfl⟩, h2, rfl⟩, h3, rfl⟩, h4, ⟨⟩⟩
    exact ⟨h1, h2, h3, h4⟩
  · rintro ⟨h1, h2, h3, h4⟩
    exact ⟨_, _, ⟨_, _, ⟨_, _, ⟨_, h1, rfl⟩, h2, rfl⟩, h3, rfl⟩, h4, rfl⟩

/-- **A service is read** as the one that matches. -/
theorem ServiceDefinition.read_eq_ok_iff (h : IsService v) (d : ServiceDefinition) :
    ServiceDefinition.read v = .ok d ↔ d.Matches v := by
  obtain ⟨members, rfl⟩ := h.keys.isObject
  have hname := @reads_optionText_iff (.object members) "name" d.name
    (h.name.mono fun _ => IsFilledText.isText)
  have hlist := @reads_list_iff (.object members) "operations" _ _ _ _ h.operations
    (fun w hw op => OperationDefinition.read_eq_ok_iff hw op) d.operations
  rw [ServiceDefinition.read_object_eq_ok_iff]
  constructor
  · rintro ⟨h1, h2, h3, h4⟩
    exact ⟨reads_text_iff.mp h1, hname.mp h2, reads_textOrEmpty_iff.mp h3, hlist.mp h4⟩
  · rintro ⟨h1, h2, h3, h4⟩
    exact ⟨reads_text_iff.mpr h1, hname.mpr h2, reads_textOrEmpty_iff.mpr h3, hlist.mpr h4⟩

theorem Document.read_object_eq_ok_iff {members : List (String × Json)} {d : Document} :
    Document.read (.object members) = .ok d ↔
      (∃ s, Reader.text.Reads none (Entries.get? members "$schema") s) ∧
      (Reader.map TypeDefinition.read).Reads (some []) (Entries.get? members "types") d.types ∧
      (Reader.list ServiceDefinition.read).Reads none (Entries.get? members "services")
        d.services := by
  obtain ⟨types, services⟩ := d
  simp only [Document.read, Fields.reader, Fields.ofMembers_eq_ok_iff, Fields.seq_eq_ok_iff,
    Fields.map_eq_ok_iff, Fields.required, Fields.withDefault, Fields.field_eq_ok_iff]
  constructor
  · rintro ⟨_, _, ⟨_, _, ⟨s, h1, rfl⟩, h2, rfl⟩, h3, ⟨⟩⟩
    exact ⟨⟨s, h1⟩, h2, h3⟩
  · rintro ⟨⟨s, h1⟩, h2, h3⟩
    exact ⟨_, _, ⟨_, _, ⟨s, h1, rfl⟩, h2, rfl⟩, h3, rfl⟩

/-- **A document is read** off what has a text for its dialect, as the one
that matches, unless a reference in it is no text. -/
theorem Document.read_eq_ok_iff (h : FitsMetaSchema v)
    (hdialect : Required (fun w => w = .string dialect) v "$schema") (d : Document) :
    Document.read v = .ok d ↔ IsDocument v ∧ d.Matches v := by
  obtain ⟨members, rfl⟩ := h.keys.isObject
  have hmap := @reads_map_iff (.object members) "types" _ _ _ _ _ h.types
    (fun w hw t => TypeDefinition.read_eq_ok_iff hw t) d.types
  have hlist := @reads_list_iff (.object members) "services" _ _ _ _ h.services
    (fun w hw s => ServiceDefinition.read_eq_ok_iff hw s) d.services
  have hdocument : IsDocument (.object members) ↔
      Optional (IsMapOf (IsType IsReference)) (.object members) "types" :=
    ⟨IsDocument.types, fun ht => ⟨h.keys, hdialect, ht, h.services⟩⟩
  rw [Document.read_object_eq_ok_iff, hdocument]
  constructor
  · rintro ⟨-, h2, h3⟩
    obtain ⟨ht, h2⟩ := hmap.mp h2
    exact ⟨ht, h2, hlist.mp h3⟩
  · rintro ⟨ht, h2, h3⟩
    obtain ⟨_, hmember, rfl⟩ := hdialect
    exact ⟨⟨_, reads_text_iff.mpr hmember⟩, hmap.mpr ⟨ht, h2⟩, hlist.mpr h3⟩

end Values

/-! ## What matches is there -/

section Exists

variable {v : Json} {key : String} {α : Type} {R : α → Json → Prop} {P : Json → Prop}

theorem exists_textMatches (h : Optional IsText v key) : ∃ s, TextMatches s (v.member? key) := by
  cases hmember : v.member? key with
  | none => exact ⟨"", .inr ⟨rfl, rfl⟩⟩
  | some w =>
    obtain ⟨s, rfl⟩ := h w hmember
    exact ⟨s, .inl rfl⟩

theorem exists_optionText (h : Optional IsText v key) :
    ∃ o : Option String, v.member? key = o.map .string := by
  cases hmember : v.member? key with
  | none => exact ⟨none, rfl⟩
  | some w =>
    obtain ⟨s, rfl⟩ := h w hmember
    exact ⟨some s, rfl⟩

theorem exists_namesMatch (h : Optional IsNames v key) :
    ∃ names, NamesMatch names (v.member? key) := by
  cases hmember : v.member? key with
  | none => exact ⟨[], .inr ⟨rfl, rfl⟩⟩
  | some w =>
    obtain ⟨names, -, rfl⟩ := h w hmember
    exact ⟨names, .inl rfl⟩

theorem exists_kinds (h : Optional IsKinds v key) :
    ∃ kinds : Option Kinds, v.member? key = kinds.map Kinds.toJson := by
  cases hmember : v.member? key with
  | none => exact ⟨none, rfl⟩
  | some w =>
    obtain ⟨kind, -, rfl⟩ | ⟨kinds, rfl, -⟩ := h w hmember
    · exact ⟨some (.one kind), rfl⟩
    · exact ⟨some (.many kinds), rfl⟩

theorem exists_listMatches (h : Required (IsListOf P) v key) (hex : ∀ w, P w → ∃ a, R a w) :
    ∃ as, ListMatches R as (v.member? key) := by
  obtain ⟨_, hmember, items, rfl, hitems⟩ := h
  obtain ⟨as, has⟩ := exists_forall₂ fun w hw => hex w (hitems w hw)
  exact ⟨as, .inl ⟨items, hmember, has.flip⟩⟩

theorem exists_mapMatches (h : Optional (IsMapOf P) v key) (hex : ∀ w, P w → ∃ a, R a w) :
    ∃ map, MapMatches R map (v.member? key) := by
  cases hmember : v.member? key with
  | none => exact ⟨[], .inr ⟨rfl, rfl⟩⟩
  | some w =>
    obtain ⟨members, rfl, hmembers⟩ := h w hmember
    have hentry : ∀ m ∈ members, ∃ e : String × α, e.1 = m.1 ∧ R e.2 m.2 := by
      intro m hm
      obtain ⟨a, ha⟩ := hex m.2 (hmembers m hm)
      exact ⟨(m.1, a), rfl, ha⟩
    obtain ⟨map, hmap⟩ := exists_forall₂ hentry
    exact ⟨map, .inl ⟨members, rfl, hmap.flip⟩⟩

theorem Property.exists_matches (h : IsProperty IsReference v) : ∃ p : Property, p.Matches v := by
  induction h with
  | @intro v hobject htype hitems hreference hdescription hnullable ih =>
    obtain ⟨kinds, hkinds⟩ := exists_kinds htype
    obtain ⟨description, hdescription⟩ := exists_textMatches hdescription
    obtain ⟨items, hthere, hitems⟩ : ∃ items : Option Property,
        items.isSome = (v.member? "items").isSome ∧
        ∀ p w, items = some p → v.member? "items" = some w → p.Matches w := by
      cases hmember : v.member? "items" with
      | none => exact ⟨none, rfl, nofun⟩
      | some w =>
        obtain ⟨p, hp⟩ := ih w hmember
        exact ⟨some p, rfl, fun _ _ hq hw => Option.some.inj hq ▸ Option.some.inj hw ▸ hp⟩
    obtain ⟨reference, hreference⟩ :
        ∃ o, Reader.text.option.Reads (some none) (v.member? "$ref") o := by
      cases hmember : v.member? "$ref" with
      | none => exact ⟨none, .inl ⟨rfl, rfl⟩⟩
      | some w =>
        obtain ⟨s, rfl⟩ | rfl := hreference w hmember
        · exact ⟨some s, .inr ⟨_, rfl, rfl⟩⟩
        · exact ⟨none, .inr ⟨_, rfl, rfl⟩⟩
    obtain ⟨default, hdefault⟩ :
        ∃ o, Reader.any.option.Reads (some none) (v.member? "default") o := by
      cases hmember : v.member? "default" with
      | none => exact ⟨none, .inl ⟨rfl, rfl⟩⟩
      | some w => cases w <;> exact ⟨_, .inr ⟨_, rfl, rfl⟩⟩
    obtain ⟨nullable, hnullable⟩ :
        ∃ b, Reader.truth.Reads (some false) (v.member? "nullable") b := by
      cases hmember : v.member? "nullable" with
      | none => exact ⟨false, .inl ⟨rfl, rfl⟩⟩
      | some w =>
        obtain ⟨b, rfl⟩ := hnullable w hmember
        exact ⟨b, .inr ⟨_, rfl, rfl⟩⟩
    exact ⟨⟨kinds, items, reference, description, default, nullable⟩,
      .intro hkinds hthere hitems (reads_reference_iff.mp hreference).2 hdescription
        (reads_default_iff.mp hdefault) ((reads_truth_iff ‹_›).mp hnullable)⟩

theorem TypeDefinition.exists_matches (h : IsType IsReference v) :
    ∃ d : TypeDefinition, d.Matches v := by
  obtain ⟨description, hdescription⟩ := exists_textMatches h.description
  obtain ⟨properties, hproperties⟩ :=
    exists_mapMatches h.properties fun _ => Property.exists_matches
  obtain ⟨required, hrequired⟩ := exists_namesMatch h.required
  exact ⟨⟨description, properties, required⟩, hdescription, hproperties, hrequired⟩

theorem OperationDefinition.exists_matches (h : IsOperation v) :
    ∃ d : OperationDefinition, d.Matches v := by
  obtain ⟨_, hidentifier, identifier, -, rfl⟩ := h.identifier
  obtain ⟨name, hname⟩ := exists_optionText (h.name.mono fun _ => IsFilledText.isText)
  obtain ⟨description, hdescription⟩ := exists_textMatches h.description
  obtain ⟨input, hinput⟩ := exists_optionText (h.input.mono fun _ => IsFilledText.isText)
  obtain ⟨output, houtput⟩ := exists_optionText (h.output.mono fun _ => IsFilledText.isText)
  exact ⟨⟨identifier, name, description, input, output⟩, hidentifier, hname, hdescription, hinput,
    houtput⟩

theorem ServiceDefinition.exists_matches (h : IsService v) :
    ∃ d : ServiceDefinition, d.Matches v := by
  obtain ⟨_, hidentifier, identifier, -, rfl⟩ := h.identifier
  obtain ⟨name, hname⟩ := exists_optionText (h.name.mono fun _ => IsFilledText.isText)
  obtain ⟨description, hdescription⟩ := exists_textMatches h.description
  obtain ⟨operations, hoperations⟩ :=
    exists_listMatches h.operations fun _ => OperationDefinition.exists_matches
  exact ⟨⟨identifier, name, description, operations⟩, hidentifier, hname, hdescription, hoperations⟩

theorem Document.exists_matches (h : IsDocument v) : ∃ d : Document, d.Matches v := by
  obtain ⟨types, htypes⟩ := exists_mapMatches h.types fun _ => TypeDefinition.exists_matches
  obtain ⟨services, hservices⟩ :=
    exists_listMatches h.services fun _ => ServiceDefinition.exists_matches
  exact ⟨⟨types, services⟩, htypes, hservices⟩

end Exists

/-! ## Parsing -/

namespace DocumentParser

variable {v : Json} {library : JsonSchema.Library} {p : DocumentParser} {origin : String}

theorem hasDialect_eq_true_iff :
    hasDialect v = true ↔ Required (fun w => w = .string dialect) v "$schema" := by
  unfold hasDialect Required
  cases v.member? "$schema" with
  | none => simp
  | some w => cases w <;> simp

/-- The parser of a library that implements the meta-schema finds nothing
wrong with what fits. -/
theorem validator_eq_nil_iff (hlibrary : library.Implements metaSchema)
    (hparser : new library = .ok p) (hv : v.Keyed) : p.validator v = [] ↔ FitsMetaSchema v := by
  obtain ⟨validator, hcompile, hvalid⟩ := hlibrary
  rw [new, hcompile] at hparser
  obtain rfl := Except.ok.inj hparser
  rw [hvalid v hv, MetaSchema.valid_metaSchema_iff]

/-- What is parsed carries the dialect, passes the validator and is read. -/
theorem parseValue_eq_ok_iff {d : Document} :
    p.parseValue origin v = .ok d ↔
      hasDialect v = true ∧ p.validator v = [] ∧ Document.read v = .ok d := by
  unfold parseValue
  cases hasDialect v with
  | false => simp
  | true =>
    cases p.validator v with
    | cons first rest => simp
    | nil => cases Document.read v <;> simp

/-- **Parsing is exact.** Whichever library compiles the meta-schema, so long
as it implements it: a value is accepted when it is a document, and what is
read off it matches it; nothing else does. Values that are read from texts
are keyed (`Json.keyed_of_parse?`). -/
theorem parseValue_exact (hlibrary : library.Implements metaSchema)
    (hparser : new library = .ok p) (origin : String) (hv : v.Keyed) :
    ((∃ d, p.parseValue origin v = .ok d) ↔ IsDocument v) ∧
    ∀ d, p.parseValue origin v = .ok d ↔ IsDocument v ∧ d.Matches v := by
  have hiff : ∀ d, p.parseValue origin v = .ok d ↔ IsDocument v ∧ d.Matches v := by
    intro d
    rw [parseValue_eq_ok_iff, hasDialect_eq_true_iff, validator_eq_nil_iff hlibrary hparser hv]
    constructor
    · rintro ⟨hdialect, hfits, hread⟩
      exact (Document.read_eq_ok_iff hfits hdialect d).mp hread
    · rintro ⟨hdocument, hmatches⟩
      have hfits := hdocument.fitsMetaSchema
      exact ⟨hdocument.dialect, hfits,
        (Document.read_eq_ok_iff hfits hdocument.dialect d).mpr ⟨hdocument, hmatches⟩⟩
  refine ⟨⟨?_, fun hdocument => ?_⟩, hiff⟩
  · rintro ⟨d, hd⟩
    exact ((hiff d).mp hd).1
  · obtain ⟨d, hmatches⟩ := Document.exists_matches hdocument
    exact ⟨d, (hiff d).mpr ⟨hdocument, hmatches⟩⟩

end DocumentParser

namespace Timetable

/-- A property without a type but a reference, with a member of its own. -/
def nextStop : Json :=
  .object [("$ref", .string "#/types/Stop"), ("default", .null), ("note", .boolean true)]

/-- A list of numbers, or null. -/
def tracks : Json :=
  .object [("type", .array [.string "array", .string "null"]),
    ("items", .object [("type", .string "integer")])]

/-- A document of one type, and of a service that gives it. -/
def value : Json :=
  .object [("$schema", .string dialect),
    ("types", .object [("Stop", .object [
      ("properties", .object [("tracks", tracks), ("next", nextStop)]),
      ("required", .array [.string "tracks"])])]),
    ("services", .array [.object [("identifier", .string "transit"),
      ("operations", .array [.object [("identifier", .string "stop_at"),
        ("output", .string "Stop")]])]])]

/-- What is read from it. -/
def document : Document :=
  ⟨[("Stop", ⟨"", [
      ("tracks", ⟨some (.many ["array", "null"]),
        some ⟨some (.one "integer"), none, none, "", none, false⟩, none, "", none, false⟩),
      ("next", ⟨none, none, some "#/types/Stop", "", none, false⟩)], ["tracks"]⟩)],
    [⟨"transit", none, "", [⟨"stop_at", none, "", none, some "Stop"⟩]⟩]⟩

theorem keyed : value.Keyed := by
  simp [value, tracks, nextStop, Entries.keys]

end Timetable

theorem DocumentParser.parseValue_exact_timetable :
    Grammar.parser.parseValue "timetable" Timetable.value = .ok Timetable.document ∧
    IsDocument Timetable.value ∧ Timetable.document.Matches Timetable.value := by
  obtain ⟨-, hiff⟩ := DocumentParser.parseValue_exact Grammar.implements Grammar.new_library
    "timetable" Timetable.keyed
  have hparsed : Grammar.parser.parseValue "timetable" Timetable.value = .ok Timetable.document := by
    rfl
  exact ⟨hparsed, (hiff Timetable.document).mp hparsed⟩

end ServiceContracts.Definition
