import ServiceContracts.Definition.Document
import ServiceContracts.Proofs.Json.Keyed
import ServiceContracts.Proofs.Service.Names
/-!
# The format of documents

`IsDocument` says which values are documents, and the predicates before it
say it of the parts, each by the members an object must have (`Required`),
may have (`Optional`) and has at most (`HasOnly`).

The meta-schema asks for less: any `$schema` will do, and references can
be anything (`FitsMetaSchema`). So properties and types are said with
what is asked of references left open.
-/


namespace ServiceContracts.Definition.Format

/-! ## Members -/

/-- The value is an object. -/
def IsObject (v : Json) : Prop := ∃ members, v = .object members

/-- It is one with no other keys than these. -/
def HasOnly (keys : List String) (v : Json) : Prop :=
  ∃ members, v = .object members ∧ Entries.keys members ⊆ keys

/-- A member is as it should be if it is there. -/
def Optional (P : Json → Prop) (v : Json) (key : String) : Prop :=
  ∀ w, v.member? key = some w → P w

/-- It is there, and as it should be. -/
def Required (P : Json → Prop) (v : Json) (key : String) : Prop :=
  ∃ w, v.member? key = some w ∧ P w

/-- A list of such values. -/
def IsListOf (P : Json → Prop) (v : Json) : Prop :=
  ∃ items, v = .array items ∧ ∀ w ∈ items, P w

/-- An object whose members are such values, under any keys. -/
def IsMapOf (P : Json → Prop) (v : Json) : Prop :=
  ∃ members, v = .object members ∧ ∀ e ∈ members, P e.2

/-! ## Texts and kinds -/

/-- A text. -/
def IsText (v : Json) : Prop := ∃ s, v = .string s

/-- A text with something in it. -/
def IsFilledText (v : Json) : Prop := ∃ s, s ≠ "" ∧ v = .string s

/-- True or false. -/
def IsTruth (v : Json) : Prop := ∃ b, v = .boolean b

/-- A letter, and then letters, digits and underscores. -/
def IsIdentifier (v : Json) : Prop := ∃ s, Name.IsIdentifier s ∧ v = .string s

/-- A list of texts, no two of them the same. -/
def IsNames (v : Json) : Prop := ∃ names : List String, names.Nodup ∧ v = .array (names.map .string)

/-- A reference is a text, and null is as good as none. -/
def IsReference (v : Json) : Prop := IsText v ∨ v = .null

/-- The names of the kinds, null apart. -/
def kindNames : List String := ["string", "integer", "number", "boolean", "array"]

/-- The name of a kind. -/
def IsKind (v : Json) : Prop := ∃ kind ∈ kindNames, v = .string kind

/-- The name of a kind, or a list of one or two, null among them or not. -/
def IsKinds (v : Json) : Prop :=
  IsKind v ∨
  ∃ kinds : List String, v = .array (kinds.map .string) ∧ kinds.Nodup ∧
    (kinds.length = 1 ∨ kinds.length = 2) ∧
    ∀ kind ∈ kinds, kind ∈ kindNames ∨ kind = "null"

theorem IsFilledText.isText {v : Json} (h : IsFilledText v) : IsText v := by
  obtain ⟨s, -, rfl⟩ := h
  exact ⟨s, rfl⟩

theorem IsIdentifier.isText {v : Json} (h : IsIdentifier v) : IsText v := by
  obtain ⟨s, -, rfl⟩ := h
  exact ⟨s, rfl⟩

/-! ## Types, services, documents -/

/-- **A property**, with references as `R` has them. It may have members that
the format does not name. -/
inductive IsProperty (R : Json → Prop) : Json → Prop
  | intro {v : Json} (hobject : IsObject v) (htype : Optional IsKinds v "type")
      (hitems : ∀ w, v.member? "items" = some w → IsProperty R w)
      (hreference : Optional R v "$ref")
      (hdescription : Optional IsText v "description")
      (hnullable : Optional IsTruth v "nullable") : IsProperty R v

/-- **A type.** -/
structure IsType (R : Json → Prop) (v : Json) : Prop where
  keys : HasOnly ["description", "properties", "required"] v
  description : Optional IsText v "description"
  properties : Optional (IsMapOf (IsProperty R)) v "properties"
  required : Optional IsNames v "required"

/-- **An operation.** -/
structure IsOperation (v : Json) : Prop where
  keys : HasOnly ["identifier", "name", "description", "input", "output"] v
  identifier : Required IsIdentifier v "identifier"
  name : Optional IsFilledText v "name"
  description : Optional IsText v "description"
  input : Optional IsFilledText v "input"
  output : Optional IsFilledText v "output"

/-- **A service.** -/
structure IsService (v : Json) : Prop where
  keys : HasOnly ["identifier", "name", "description", "operations"] v
  identifier : Required IsIdentifier v "identifier"
  name : Optional IsFilledText v "name"
  description : Optional IsText v "description"
  operations : Required (IsListOf IsOperation) v "operations"

/-- **A document.** -/
structure IsDocument (v : Json) : Prop where
  keys : HasOnly ["$schema", "types", "services"] v
  dialect : Required (fun w => w = .string dialect) v "$schema"
  types : Optional (IsMapOf (IsType IsReference)) v "types"
  services : Required (IsListOf IsService) v "services"

/-- **What the meta-schema asks of a document.** -/
structure FitsMetaSchema (v : Json) : Prop where
  keys : HasOnly ["$schema", "types", "services"] v
  dialect : Required (fun _ => True) v "$schema"
  types : Optional (IsMapOf (IsType fun _ => True)) v "types"
  services : Required (IsListOf IsService) v "services"

theorem IsProperty.isObject {R : Json → Prop} {v : Json} (h : IsProperty R v) : IsObject v := by
  cases h with
  | intro hobject => exact hobject

/-! ## Members that are there and members that may be -/

section Members

variable {v : Json} {P Q : Json → Prop} {key : String}

theorem Optional.congr (h : ∀ w, v.member? key = some w → (P w ↔ Q w)) :
    Optional P v key ↔ Optional Q v key :=
  ⟨fun hP w hw => (h w hw).mp (hP w hw), fun hQ w hw => (h w hw).mpr (hQ w hw)⟩

theorem Optional.mono (hPQ : ∀ w, P w → Q w) (h : Optional P v key) : Optional Q v key :=
  fun w hw => hPQ w (h w hw)

theorem Required.mono (hPQ : ∀ w, P w → Q w) (h : Required P v key) : Required Q v key := by
  obtain ⟨w, hw, hP⟩ := h
  exact ⟨w, hw, hPQ w hP⟩

/-- What is required is there, and then it is as optional. -/
theorem required_iff_optional :
    Required P v key ↔ (∃ w, v.member? key = some w) ∧ Optional P v key := by
  constructor
  · rintro ⟨w, hw, hP⟩
    exact ⟨⟨w, hw⟩, fun w' hw' => Option.some.inj (hw.symm.trans hw') ▸ hP⟩
  · rintro ⟨⟨w, hw⟩, hP⟩
    exact ⟨w, hw, hP w hw⟩

theorem Required.optional (h : Required P v key) : Optional P v key :=
  (required_iff_optional.mp h).2

theorem IsObject.ne_null (h : IsObject v) : v ≠ .null := by
  obtain ⟨members, rfl⟩ := h
  nofun

theorem HasOnly.isObject {keys : List String} (h : HasOnly keys v) : IsObject v := by
  obtain ⟨members, rfl, -⟩ := h
  exact ⟨members, rfl⟩

end Members

/-! ## What documents have of the meta-schema -/

section Documents

variable {v : Json} {R S : Json → Prop}

theorem IsMapOf.mono {P Q : Json → Prop} (hPQ : ∀ w, P w → Q w) (h : IsMapOf P v) : IsMapOf Q v := by
  obtain ⟨members, rfl, hmembers⟩ := h
  exact ⟨members, rfl, fun e he => hPQ e.2 (hmembers e he)⟩

theorem IsProperty.mono (hRS : ∀ w, R w → S w) (h : IsProperty R v) : IsProperty S v := by
  induction h with
  | intro hobject htype _ hreference hdescription hnullable ih =>
    exact .intro hobject htype ih (hreference.mono hRS) hdescription hnullable

theorem IsType.mono (hRS : ∀ w, R w → S w) (h : IsType R v) : IsType S v where
  keys := h.keys
  description := h.description
  properties := h.properties.mono fun _ => IsMapOf.mono fun _ => IsProperty.mono hRS
  required := h.required

theorem IsDocument.fitsMetaSchema (h : IsDocument v) : FitsMetaSchema v where
  keys := h.keys
  dialect := h.dialect.mono fun _ _ => trivial
  types := h.types.mono fun _ => IsMapOf.mono fun _ => IsType.mono fun _ _ => trivial
  services := h.services

end Documents

/-! ## Lists of distinct texts -/

section Texts

variable {v : Json}

theorem denotesSame_string_iff {s : String} : v.denotesSame (.string s) = true ↔ v = .string s := by
  cases v <;> simp [Json.denotesSame]

/-- A list of texts has no data twice when it has none of them twice. -/
theorem allDistinct_map_string_iff {names : List String} :
    Json.allDistinct (names.map .string) = true ↔ names.Nodup := by
  induction names with
  | nil => simp [Json.allDistinct]
  | cons name rest ih =>
    have hnew : ((rest.map Json.string).all fun b => !Json.denotesSame (.string name) b) = true ↔
        name ∉ rest := by
      simp only [List.all_eq_true, List.forall_mem_map, Bool.not_eq_true', Bool.eq_false_iff, ne_eq,
        denotesSame_string_iff, Json.string.injEq]
      exact ⟨fun h hmem => h name hmem rfl, fun h other hother heq => h (heq ▸ hother)⟩
    rw [List.map_cons, Json.allDistinct, Bool.and_eq_true, hnew, ih, List.nodup_cons]

/-- A list of texts, as such. -/
theorem exists_map_string {items : List Json} (h : ∀ w ∈ items, IsText w) :
    ∃ names : List String, items = names.map .string := by
  induction items with
  | nil => exact ⟨[], rfl⟩
  | cons w rest ih =>
    obtain ⟨⟨name, rfl⟩, hrest⟩ := List.forall_mem_cons.mp h
    obtain ⟨names, rfl⟩ := ih hrest
    exact ⟨name :: names, rfl⟩

theorem isNames_array_iff {items : List Json} :
    IsNames (.array items) ↔ (∀ w ∈ items, IsText w) ∧ Json.allDistinct items = true := by
  constructor
  · rintro ⟨names, hnodup, heq⟩
    obtain rfl := Json.array.inj heq
    refine ⟨fun w hw => ?_, allDistinct_map_string_iff.mpr hnodup⟩
    obtain ⟨name, -, rfl⟩ := List.mem_map.mp hw
    exact ⟨name, rfl⟩
  · rintro ⟨htexts, hdistinct⟩
    obtain ⟨names, rfl⟩ := exists_map_string htexts
    exact ⟨names, allDistinct_map_string_iff.mp hdistinct, rfl⟩

theorem isKinds_array_iff {items : List Json} :
    IsKinds (.array items) ↔ (∀ w ∈ items, IsKind w ∨ w = .string "null") ∧
      (1 ≤ items.length ∧ items.length ≤ 2) ∧ Json.allDistinct items = true := by
  constructor
  · rintro (⟨kind, -, heq⟩ | ⟨kinds, heq, hnodup, hlength, hkinds⟩)
    · cases heq
    · obtain rfl := Json.array.inj heq
      rw [List.length_map]
      refine ⟨fun w hw => ?_, by omega, allDistinct_map_string_iff.mpr hnodup⟩
      obtain ⟨kind, hkind, rfl⟩ := List.mem_map.mp hw
      exact (hkinds kind hkind).imp (fun hname => ⟨kind, hname, rfl⟩) (congrArg Json.string)
  · rintro ⟨hkinds, hlength, hdistinct⟩
    obtain ⟨kinds, rfl⟩ := exists_map_string fun w hw => by
      rcases hkinds w hw with ⟨kind, -, rfl⟩ | rfl
      · exact ⟨kind, rfl⟩
      · exact ⟨"null", rfl⟩
    rw [List.length_map] at hlength
    refine .inr ⟨kinds, rfl, allDistinct_map_string_iff.mp hdistinct, by omega, ?_⟩
    intro kind hkind
    rcases hkinds _ (List.mem_map_of_mem hkind) with ⟨other, hother, heq⟩ | heq
    · exact .inl (Json.string.inj heq ▸ hother)
    · exact .inr (Json.string.inj heq)

end Texts

end ServiceContracts.Definition.Format
