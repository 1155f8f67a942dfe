import ServiceContracts.Definition.MetaSchema
import ServiceContracts.Proofs.Definition.Format
import ServiceContracts.Proofs.Json.Unsigned
import ServiceContracts.Proofs.JsonSchema.Validity
import Mathlib.Logic.Basic
/-!
# What the meta-schema says

The meta-schema is a schema like others, and its keywords are read as those
of any. Here that is done, schema by schema: each has the values that the
format names (`valid_metaSchema_iff`). The pattern of identifiers has the
names that operations can have.
-/


namespace ServiceContracts.Definition.MetaSchema

open Format JsonSchema

variable {v schema : Json} {P : Json → Prop}

/-! ## Texts -/

theorem isObject_iff : HasType "object" v ↔ IsObject v := by
  cases v <;> simp [IsObject]

theorem valid_text_iff : Valid metaSchema text v ↔ IsText v := by
  rw [text, valid_object_iff]
  cases v <;> simp [IsText]

theorem valid_truth_iff : Valid metaSchema truth v ↔ IsTruth v := by
  rw [truth, valid_object_iff]
  cases v <;> simp [IsTruth]

theorem valid_filledText_iff : Valid metaSchema filledText v ↔ IsFilledText v := by
  have hlength : ∀ s : String, 1 ≤ (s.length : Int) ↔ s ≠ "" := by
    intro s
    rw [ne_eq, ← String.length_eq_zero_iff]
    omega
  rw [filledText, valid_object_iff]
  cases v <;> simp [IsFilledText, one, hlength]

/-! ## Identifiers -/

/-- The letters of the pattern. -/
def letters : JsonSchema.Class := [('a', 'z'), ('A', 'Z')]

/-- Its letters, digits and the underscore. -/
def wordCharacters : JsonSchema.Class := [('a', 'z'), ('A', 'Z'), ('0', '9'), ('_', '_')]

theorem ofChars_identifierPattern :
    Pattern.ofChars identifierPattern.toList =
      some [.start, .one letters, .many wordCharacters, .finish] := by
  decide +kernel

theorem letters_has_iff {c : Char} : letters.Has c ↔ Name.isLetter c = true := by
  have hupper : c.isUpper = true ↔ 'A' ≤ c ∧ c ≤ 'Z' := decide_eq_true_iff
  have hlower : c.isLower = true ↔ 'a' ≤ c ∧ c ≤ 'z' :=
    (Bool.and_eq_true _ _).to_iff.trans (and_congr decide_eq_true_iff decide_eq_true_iff)
  have hletter : Name.isLetter c = true ↔ c.isUpper = true ∨ c.isLower = true :=
    (Bool.or_eq_true _ _).to_iff
  rw [hletter, hupper, hlower, or_comm]
  simp [letters, Class.Has]

theorem wordCharacters_has_iff {c : Char} :
    wordCharacters.Has c ↔ Name.isIdentifierChar c = true := by
  have hletter : wordCharacters.Has c ↔
      letters.Has c ∨ c.isDigit = true ∨ '_' ≤ c ∧ c ≤ '_' := by
    simp [wordCharacters, letters, Class.Has, Char.isDigit, Char.le_def, or_assoc]
  have hunderscore : '_' ≤ c ∧ c ≤ '_' ↔ c = '_' :=
    ⟨fun h => Char.le_antisymm h.2 h.1, fun h => h ▸ ⟨Char.le_refl _, Char.le_refl _⟩⟩
  rw [hletter, hunderscore, letters_has_iff]
  simp [Name.isIdentifierChar, Name.isLetter, Char.isAlphanum, or_assoc]

/-- **The pattern of the meta-schema has the identifiers** that the names of
operations and services are checked for. -/
theorem finds_identifierPattern_iff {s : String} :
    (∃ p, Pattern.ofChars identifierPattern.toList = some p ∧ p.Finds s.toList) ↔
      Name.IsIdentifier s := by
  simp only [ofChars_identifierPattern, Option.some.injEq, exists_eq_left', Pattern.finds_start_iff]
  unfold Name.IsIdentifier
  cases s.toList with
  | nil => simp [Pattern.not_matches_one_nil]
  | cons c rest =>
    simp only [Pattern.matches_one_cons_iff, Pattern.matches_many_finish_iff, letters_has_iff,
      wordCharacters_has_iff]

theorem valid_identifier_iff : Valid metaSchema identifier v ↔ IsIdentifier v := by
  rw [identifier, valid_object_iff]
  cases v <;> simp [IsIdentifier, finds_identifierPattern_iff]

/-! ## Lists and objects -/

theorem valid_listOf_iff (h : ∀ w, Valid metaSchema schema w ↔ P w) :
    Valid metaSchema (listOf schema) v ↔ IsListOf P v := by
  rw [listOf, valid_object_iff]
  cases v <;> simp [IsListOf, h]

theorem valid_mapOf_iff (h : ∀ w, Valid metaSchema schema w ↔ P w) :
    Valid metaSchema (mapOf schema) v ↔ IsMapOf P v := by
  rw [mapOf, valid_object_iff]
  cases v <;> simp [IsMapOf, declaredIn, Entries.get?, h]

theorem valid_names_iff : Valid metaSchema names v ↔ IsNames v := by
  rw [names, valid_object_iff]
  cases v with
  | array items => simp [isNames_array_iff, valid_text_iff]
  | _ => simp [IsNames]

/-- A reference in the meta-schema is to a definition of it. -/
theorem valid_refer_iff {name : String}
    (h : resolve? metaSchema ("#/$defs/" ++ name) = some schema) :
    Valid metaSchema (refer name) v ↔ Valid metaSchema schema v := by
  rw [refer, valid_object_iff]
  simp [h]

/-- Members beyond those that are named would have to be of the schema that
is false. -/
theorem hasOnly_iff {keywords properties : List (String × Json)}
    (h : Entries.get? keywords "properties" = some (.object properties)) :
    HasOnly (Entries.keys properties) v ↔ IsObject v ∧ ∀ members, v = .object members →
      ∀ e ∈ members, ¬ declaredIn keywords e.1 → Valid metaSchema (.boolean false) e.2 := by
  have hdeclared : ∀ name, declaredIn keywords name ↔ name ∈ Entries.keys properties := by
    intro name
    simp [declaredIn, h]
  constructor
  · rintro ⟨members, rfl, hkeys⟩
    refine ⟨⟨members, rfl⟩, fun members' heq e he hnew => ?_⟩
    obtain rfl := Json.object.inj heq
    exact absurd ((hdeclared e.1).mpr (hkeys (List.mem_map_of_mem he))) hnew
  · rintro ⟨⟨members, rfl⟩, hclosed⟩
    refine ⟨members, rfl, fun key hkey => ?_⟩
    obtain ⟨e, he, rfl⟩ := List.mem_map.mp hkey
    refine Decidable.byContradiction fun hnew => ?_
    exact not_valid_false (hclosed members rfl e he fun h => hnew ((hdeclared e.1).mp h))

/-- What is asked to be there is there. -/
theorem required_iff {names : List String} (hv : IsObject v) :
    (∀ members, v = .object members → ∀ name, .string name ∈ names.map Json.string →
      name ∈ Entries.keys members) ↔ ∀ name ∈ names, ∃ w, v.member? name = some w := by
  obtain ⟨members, rfl⟩ := hv
  have hmem : ∀ name, Json.string name ∈ names.map Json.string ↔ name ∈ names := by
    simp
  have hthere : ∀ name, name ∈ Entries.keys members ↔
      ∃ w, (Json.object members).member? name = some w := by
    intro name
    rw [← Option.isSome_iff_exists, Json.member?, Option.isSome_iff_ne_none, ne_eq,
      Entries.get?_eq_none_iff, Decidable.not_not]
  simp [hmem, hthere]

/-- **An object of named members**: it has no others, those that it has to have,
and each as its schema says. -/
theorem valid_closed_iff {names : List String} {properties : List (String × Json)} :
    Valid metaSchema (.object [("type", .string "object"),
      ("required", .array (names.map .string)), ("properties", .object properties),
      ("additionalProperties", .boolean false)]) v ↔
    HasOnly (Entries.keys properties) v ∧ (∀ name ∈ names, ∃ w, v.member? name = some w) ∧
      ∀ e ∈ properties, Optional (Valid metaSchema e.2) v e.1 := by
  rw [valid_object_iff]
  have hclosed := @hasOnly_iff v [("type", .string "object"),
    ("required", .array (names.map .string)), ("properties", .object properties),
    ("additionalProperties", .boolean false)] properties rfl
  simp only [List.forall_mem_cons, List.not_mem_nil, false_implies, implies_true, and_true,
    asserts_type, isObject_iff, asserts_required, asserts_properties,
    asserts_additionalProperties]
  constructor
  · rintro ⟨hobject, hrequired, hproperties, honly⟩
    exact ⟨hclosed.mpr ⟨hobject, honly⟩, (required_iff hobject).mp hrequired, hproperties⟩
  · rintro ⟨hkeys, hthere, hproperties⟩
    obtain ⟨hobject, honly⟩ := hclosed.mp hkeys
    exact ⟨hobject, (required_iff hobject).mpr hthere, hproperties, honly⟩

/-! ## Kinds and properties -/

theorem valid_kind_iff : Valid metaSchema kind v ↔ IsKind v := by
  rw [kind, valid_object_iff]
  simp [IsKind, kindNames, denotesSame_string_iff]

theorem valid_kindOrNull_iff :
    Valid metaSchema kindOrNull v ↔ IsKind v ∨ v = .string "null" := by
  have hkind : Valid metaSchema (refer "kind") v ↔ IsKind v :=
    (valid_refer_iff rfl).trans valid_kind_iff
  have hnull : Valid metaSchema (.object [("const", .string "null")]) v ↔ v = .string "null" := by
    rw [valid_object_iff]
    simp [denotesSame_string_iff]
  rw [kindOrNull, valid_object_iff]
  simp [hkind, hnull]

theorem valid_kinds_iff : Valid metaSchema kinds v ↔ IsKinds v := by
  have hkind : Valid metaSchema (refer "kind") v ↔ IsKind v :=
    (valid_refer_iff rfl).trans valid_kind_iff
  rw [kinds, valid_object_iff, List.forall_mem_singleton]
  simp only [asserts_anyOf, List.mem_cons, List.not_mem_nil, or_false, exists_eq_or_imp,
    exists_eq_left, hkind]
  rw [valid_object_iff]
  simp only [List.forall_mem_cons, List.not_mem_nil, false_implies, implies_true, and_true]
  cases v with
  | array items =>
    have hlower : (1 : Int) ≤ items.length ↔ 1 ≤ items.length := Int.ofNat_le
    have hupper : (items.length : Int) ≤ 2 ↔ items.length ≤ 2 := Int.ofNat_le
    rw [isKinds_array_iff, ← hlower, ← hupper]
    simp [one, valid_kindOrNull_iff, IsKind, and_assoc]
  | _ => simp [IsKinds]

/-- **A property** is what the meta-schema says, with references of any
kind. -/
theorem valid_property_iff : Valid metaSchema property v ↔ IsProperty (fun _ => True) v := by
  have hiff : ∀ v, Valid metaSchema property v ↔ IsObject v ∧ Optional IsKinds v "type" ∧
      Optional (Valid metaSchema property) v "items" ∧ Optional IsText v "description" ∧
      Optional IsTruth v "nullable" := by
    intro v
    have hitems : Optional (Valid metaSchema (refer "property")) v "items" ↔
        Optional (Valid metaSchema property) v "items" :=
      Optional.congr fun w _ => valid_refer_iff rfl
    rw [property, valid_object_iff, ← property]
    simp only [List.forall_mem_cons, List.not_mem_nil, false_implies, implies_true, and_true,
      asserts_type, isObject_iff, asserts_properties, valid_kinds_iff, valid_text_iff,
      valid_truth_iff]
    rw [← hitems]
    rfl
  induction v using Json.induction with
  | object members ih =>
    rw [hiff]
    have hitems : ∀ w, (Json.object members).member? "items" = some w →
        (Valid metaSchema property w ↔ IsProperty (fun _ => True) w) :=
      fun w hw => ih _ (Entries.mem_of_get?_eq_some hw)
    constructor
    · rintro ⟨hobject, htype, hprops, hdescription, hnullable⟩
      exact .intro hobject htype (fun w hw => (hitems w hw).mp (hprops w hw))
        (fun _ _ => trivial) hdescription hnullable
    · rintro ⟨hobject, htype, hprops, -, hdescription, hnullable⟩
      exact ⟨hobject, htype, fun w hw => (hitems w hw).mpr (hprops w hw), hdescription, hnullable⟩
  | _ =>
    rw [hiff]
    constructor
    · rintro ⟨⟨members, heq⟩, -⟩
      cases heq
    · rintro ⟨⟨members, heq⟩, -⟩
      cases heq

/-! ## Types, services, documents -/

theorem valid_identifierReference_iff : Valid metaSchema (refer "identifier") v ↔ IsIdentifier v :=
  (valid_refer_iff rfl).trans valid_identifier_iff

theorem valid_typeReference_iff : Valid metaSchema (refer "typeRef") v ↔ IsFilledText v :=
  (valid_refer_iff rfl).trans valid_filledText_iff

theorem valid_operation_iff : Valid metaSchema operation v ↔ IsOperation v := by
  have hiff := @valid_closed_iff v ["identifier"]
    [("identifier", refer "identifier"), ("name", filledText), ("description", text),
      ("input", refer "typeRef"), ("output", refer "typeRef")]
  simp only [List.forall_mem_cons, List.not_mem_nil, false_implies, implies_true, and_true,
    Optional.congr fun _ _ => valid_identifierReference_iff,
    Optional.congr fun _ _ => valid_filledText_iff, Optional.congr fun _ _ => valid_text_iff,
    Optional.congr fun _ _ => valid_typeReference_iff] at hiff
  refine Iff.trans hiff ?_
  constructor
  · rintro ⟨hkeys, hthere, hidentifier, hname, hdescription, hinput, houtput⟩
    exact ⟨hkeys, required_iff_optional.mpr ⟨hthere, hidentifier⟩, hname, hdescription, hinput,
      houtput⟩
  · rintro ⟨hkeys, hidentifier, hname, hdescription, hinput, houtput⟩
    obtain ⟨hthere, hidentifier⟩ := required_iff_optional.mp hidentifier
    exact ⟨hkeys, hthere, hidentifier, hname, hdescription, hinput, houtput⟩

theorem valid_service_iff : Valid metaSchema service v ↔ IsService v := by
  have hoperations : ∀ w, Valid metaSchema (listOf (refer "operation")) w ↔ IsListOf IsOperation w :=
    fun w => valid_listOf_iff fun u => (valid_refer_iff rfl).trans valid_operation_iff
  have hiff := @valid_closed_iff v ["identifier", "operations"]
    [("identifier", refer "identifier"), ("name", filledText), ("description", text),
      ("operations", listOf (refer "operation"))]
  simp only [List.forall_mem_cons, List.not_mem_nil, false_implies, implies_true, and_true,
    Optional.congr fun _ _ => valid_identifierReference_iff,
    Optional.congr fun _ _ => valid_filledText_iff, Optional.congr fun _ _ => valid_text_iff,
    Optional.congr fun w _ => hoperations w] at hiff
  refine Iff.trans hiff ?_
  constructor
  · rintro ⟨hkeys, ⟨hthere, hops⟩, hidentifier, hname, hdescription, hlist⟩
    exact ⟨hkeys, required_iff_optional.mpr ⟨hthere, hidentifier⟩, hname, hdescription,
      required_iff_optional.mpr ⟨hops, hlist⟩⟩
  · rintro ⟨hkeys, hidentifier, hname, hdescription, hlist⟩
    obtain ⟨hthere, hidentifier⟩ := required_iff_optional.mp hidentifier
    obtain ⟨hops, hlist⟩ := required_iff_optional.mp hlist
    exact ⟨hkeys, ⟨hthere, hops⟩, hidentifier, hname, hdescription, hlist⟩

theorem valid_type_iff : Valid metaSchema type v ↔ IsType (fun _ => True) v := by
  have hproperties : ∀ w, Valid metaSchema (mapOf (refer "property")) w ↔
      IsMapOf (IsProperty fun _ => True) w :=
    fun w => valid_mapOf_iff fun u => (valid_refer_iff rfl).trans valid_property_iff
  have hclosed := @hasOnly_iff v [("type", .string "object"), ("properties", .object
    [("description", text), ("properties", mapOf (refer "property")), ("required", names)]),
    ("additionalProperties", .boolean false)] _ rfl
  rw [type, valid_object_iff]
  simp only [List.forall_mem_cons, List.not_mem_nil, false_implies, implies_true, and_true,
    asserts_type, isObject_iff, asserts_properties, asserts_additionalProperties,
    valid_text_iff, hproperties, valid_names_iff]
  constructor
  · rintro ⟨hobject, ⟨hdescription, hprops, hrequired⟩, honly⟩
    exact ⟨hclosed.mpr ⟨hobject, honly⟩, hdescription, hprops, hrequired⟩
  · rintro ⟨hkeys, hdescription, hprops, hrequired⟩
    obtain ⟨hobject, honly⟩ := hclosed.mp hkeys
    exact ⟨hobject, ⟨hdescription, hprops, hrequired⟩, honly⟩

/-- No object has keys but those of a list, where they are the values that
the keys can have. -/
theorem hasOnly_of_enum_iff {keys : List String} (hv : IsObject v) :
    (∀ members, v = .object members → ∀ name ∈ Entries.keys members,
      ∃ w ∈ keys.map Json.string, (Json.string name).denotesSame w = true) ↔ HasOnly keys v := by
  obtain ⟨members, rfl⟩ := hv
  have hknown : ∀ name, (∃ w ∈ keys.map Json.string, (Json.string name).denotesSame w = true) ↔
      name ∈ keys := by
    simp [denotesSame_string_iff]
  simp only [hknown]
  constructor
  · exact fun h => ⟨members, rfl, h members rfl⟩
  · rintro ⟨members', heq, h⟩ members'' heq'
    obtain rfl := Json.object.inj heq
    obtain rfl := Json.object.inj heq'
    exact h

/-- **What the meta-schema has** is what the format says, but for references
and the dialect. -/
theorem valid_metaSchema_iff : Valid metaSchema metaSchema v ↔ FitsMetaSchema v := by
  have htypes : ∀ w, Valid metaSchema (mapOf (refer "type")) w ↔ IsMapOf (IsType fun _ => True) w :=
    fun w => valid_mapOf_iff fun u => (valid_refer_iff rfl).trans valid_type_iff
  have hservices : ∀ w, Valid metaSchema (listOf (refer "service")) w ↔ IsListOf IsService w :=
    fun w => valid_listOf_iff fun u => (valid_refer_iff rfl).trans valid_service_iff
  have hnames : ∀ w, Valid metaSchema (.object [("enum", .array
      (["$schema", "types", "services"].map .string))]) w ↔
      ∃ u ∈ ["$schema", "types", "services"].map Json.string, w.denotesSame u = true := by
    intro w
    rw [valid_object_iff, List.forall_mem_singleton]
    rfl
  refine Iff.trans (@valid_object_iff metaSchema v _) ?_
  simp only [List.forall_mem_cons, List.not_mem_nil, false_implies, implies_true, and_true, true_and,
    asserts_schema, asserts_type, isObject_iff, asserts_required, asserts_propertyNames,
    asserts_properties, asserts_defs, htypes, hservices]
  constructor
  · rintro ⟨hobject, hrequired, honly, hmap, hlist⟩
    have hthere := (@required_iff v ["$schema", "services"] hobject).mp hrequired
    obtain ⟨w, hw⟩ := hthere "$schema" (by decide)
    have hservice := hthere "services" (by decide)
    exact ⟨(hasOnly_of_enum_iff hobject).mp fun members heq name hname =>
      (hnames _).mp (honly members heq name hname), ⟨w, hw, trivial⟩, hmap,
      required_iff_optional.mpr ⟨hservice, hlist⟩⟩
  · rintro ⟨hkeys, hdialect, hmap, hlist⟩
    obtain ⟨hschema, -⟩ := required_iff_optional.mp hdialect
    obtain ⟨hservice, hlist⟩ := required_iff_optional.mp hlist
    have hthere : ∀ name ∈ ["$schema", "services"], ∃ w, v.member? name = some w :=
      List.forall_mem_cons.mpr ⟨hschema, List.forall_mem_singleton.mpr hservice⟩
    have hobject := hkeys.isObject
    exact ⟨hobject, (required_iff hobject).mpr hthere, fun members heq name hname =>
      (hnames _).mpr ((hasOnly_of_enum_iff hobject).mpr hkeys members heq name hname), hmap, hlist⟩

end ServiceContracts.Definition.MetaSchema
