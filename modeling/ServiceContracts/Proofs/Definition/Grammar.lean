import ServiceContracts.Definition.Grammar
import ServiceContracts.Definition.Loader
import ServiceContracts.Proofs.Definition.MetaSchema
/-!
# A library for documents

The rules of the format list what is wrong with a value. They find
nothing wrong with exactly the values that the meta-schema has
(`document_eq_nil_iff`), provided that no object has a key twice. So the
library that knows them implements the meta-schema (`implements`).
-/


namespace ServiceContracts.Definition.Grammar

open Format

/-! ## Texts and kinds -/

section Texts

variable {v : Json}

theorem text_eq_nil_iff : text v = [] ↔ IsText v := by
  cases v <;> simp [text, IsText]

theorem visibleText_eq_nil_iff : visibleText v = [] ↔ IsFilledText v := by
  cases v <;> simp [visibleText, IsFilledText]

theorem truth_eq_nil_iff : truth v = [] ↔ IsTruth v := by
  cases v <;> simp [truth, IsTruth]

/-- A word is an identifier, in the sense of the names of operations. -/
theorem isWord_iff {s : String} : isWord s.toList = true ↔ Name.IsIdentifier s := by
  unfold Name.IsIdentifier
  cases s.toList with
  | nil => simp [isWord]
  | cons first rest =>
    simp [isWord, Name.isLetter, Name.isIdentifierChar, Char.isAlphanum]

theorem identifier_eq_nil_iff : identifier v = [] ↔ IsIdentifier v := by
  cases v <;> simp [identifier, IsIdentifier, isWord_iff]

theorem names_eq_nil_iff : names v = [] ↔ IsNames v := by
  cases v with
  | array items =>
    have htexts : (∀ w ∈ items, text w = []) ↔ ∀ w ∈ items, IsText w :=
      forall₂_congr fun _ _ => text_eq_nil_iff
    rw [isNames_array_iff, names, List.append_eq_nil_iff, List.flatMap_eq_nil_iff, htexts, and_comm]
    cases Json.allDistinct items <;> simp
  | _ => simp [names, IsNames]

theorem isKind_iff : isKind v = true ↔ IsKind v := by
  cases v <;> simp [isKind, IsKind, kindNames, Format.kindNames]

theorem isKinds_iff : isKinds v = true ↔ IsKinds v := by
  cases v with
  | array items =>
    simp only [isKinds_array_iff, isKinds, Bool.and_eq_true, List.all_eq_true, Bool.or_eq_true,
      isKind_iff, denotesSame_string_iff, decide_eq_true_eq, and_assoc]
  | _ => simp [isKinds, isKind_iff, IsKinds]

theorem kinds_eq_nil_iff : kinds v = [] ↔ IsKinds v := by
  rw [← isKinds_iff, kinds]
  cases isKinds v <;> simp

end Texts

/-! ## Members -/

section Members

variable {members : List (String × Json)} {v : Json} {rules : Json → List Violation}
  {P Q : Json → Prop} {key : String}

theorem required_eq_nil_iff {wanted : List String} :
    required wanted members = [] ↔
      ∀ key ∈ wanted, ∃ w, (Json.object members).member? key = some w := by
  simp only [required, List.map_eq_nil_iff, List.filter_eq_nil_iff, Bool.not_eq_true',
    Bool.not_eq_false, Entries.has, Option.isSome_iff_exists]
  rfl

theorem optional_eq_nil_iff :
    optional rules members key = [] ↔
      Optional (fun w => rules w = []) (.object members) key := by
  have hmember : (Json.object members).member? key = Entries.get? members key := rfl
  rw [optional, Optional, hmember]
  cases Entries.get? members key <;> simp

/-- **An object with closed rules** has no keys but those of the rules, and
the members under them keep the rules. -/
theorem closed_eq_nil_iff {rulesOf : String → Option (Json → List Violation)}
    {table : Entries String (Json → List Violation)}
    (htable : ∀ key, rulesOf key = Entries.get? table key) (hnodup : (Entries.keys table).Nodup)
    (hkeys : (Entries.keys members).Nodup) :
    closed rulesOf members = [] ↔ Entries.keys members ⊆ Entries.keys table ∧
      ∀ e ∈ table, Optional (fun w => e.2 w = []) (.object members) e.1 := by
  have hothers : ((Entries.keys members).filter fun key => (rulesOf key).isNone) = [] ↔
      Entries.keys members ⊆ Entries.keys table := by
    simp only [List.filter_eq_nil_iff, htable, Option.isNone_iff_eq_none,
      Entries.get?_eq_none_iff, Decidable.not_not]
    rfl
  have hmembers : (∀ m ∈ members, ∀ check, rulesOf m.1 = some check → check m.2 = []) ↔
      ∀ e ∈ table, Optional (fun w => e.2 w = []) (.object members) e.1 := by
    simp only [htable]
    constructor
    · intro h e he w hw
      exact h (e.1, w) (Entries.mem_of_get?_eq_some hw) e.2 (Entries.get?_eq_some_of_mem hnodup he)
    · intro h m hm check hcheck
      exact h (m.1, check) (Entries.mem_of_get?_eq_some hcheck) m.2
        (Entries.get?_eq_some_of_mem hkeys hm)
  rw [closed, List.append_eq_nil_iff, List.flatMap_eq_nil_iff, ← hothers, ← hmembers]
  constructor
  · rintro ⟨hall, hnone⟩
    constructor
    · split at hnone
      · rename_i hempty
        exact List.isEmpty_iff.mp hempty
      · cases hnone
    · intro m hm check hcheck
      have hnil := hall m hm
      simp only [hcheck] at hnil
      exact hnil
  · rintro ⟨hnone, hall⟩
    constructor
    · intro m hm
      cases hcheck : rulesOf m.1 with
      | none => simp only [hcheck]
      | some check =>
        simp only [hcheck]
        exact hall m hm check hcheck
    · rw [hnone]
      rfl

/-- **A check of objects by closed rules** passes those that have what is
wanted, and otherwise only members that keep the rules. -/
theorem check_eq_nil_iff (wanted : List String) {check : Json → List Violation}
    {rulesOf : String → Option (Json → List Violation)}
    {table : Entries String (Json → List Violation)}
    (hcheck : ∀ members, check (.object members) =
      required wanted members ++ closed rulesOf members)
    (hother : ∀ v, (∀ members, v = .object members → False) → check v = [.wrongType v "object"])
    (htable : ∀ key, rulesOf key = Entries.get? table key) (hnodup : (Entries.keys table).Nodup)
    (hv : v.Keyed) :
    check v = [] ↔ HasOnly (Entries.keys table) v ∧
      (∀ key ∈ wanted, ∃ w, v.member? key = some w) ∧
      ∀ e ∈ table, Optional (fun w => e.2 w = []) v e.1 := by
  cases v with
  | object members =>
    have hkeys := (Json.keyed_object_iff.mp hv).1
    rw [hcheck, List.append_eq_nil_iff, required_eq_nil_iff,
      closed_eq_nil_iff htable hnodup hkeys, and_left_comm]
    refine and_congr_left fun _ => ⟨fun hknown => ⟨members, rfl, hknown⟩, ?_⟩
    rintro ⟨_, heq, hknown⟩
    exact Json.object.inj heq ▸ hknown
  | _ =>
    constructor
    · intro hnil
      rw [hother] at hnil
      · cases hnil
      · nofun
    · rintro ⟨⟨members, heq, -⟩, -⟩
      cases heq

/-- The members of an object. -/
theorem mapOf_eq_nil_iff (hv : v.Keyed) (h : ∀ w, w.Keyed → (rules w = [] ↔ P w)) :
    mapOf rules v = [] ↔ IsMapOf P v := by
  cases hv with
  | object _ hvalues =>
    rw [mapOf, List.flatMap_eq_nil_iff]
    constructor
    · intro hnil
      exact ⟨_, rfl, fun e he => (h e.2 (hvalues e he)).mp (hnil e he)⟩
    · rintro ⟨members, heq, hall⟩
      obtain rfl := Json.object.inj heq
      exact fun e he => (h e.2 (hvalues e he)).mpr (hall e he)
  | _ => simp [mapOf, IsMapOf]

/-- The items of a list. -/
theorem listOf_eq_nil_iff (hv : v.Keyed) (h : ∀ w, w.Keyed → (rules w = [] ↔ P w)) :
    listOf rules v = [] ↔ IsListOf P v := by
  cases hv with
  | array hitems =>
    rw [listOf, List.flatMap_eq_nil_iff]
    constructor
    · intro hnil
      exact ⟨_, rfl, fun w hw => (h w (hitems w hw)).mp (hnil w hw)⟩
    · rintro ⟨items, heq, hall⟩
      obtain rfl := Json.array.inj heq
      exact fun w hw => (h w (hitems w hw)).mpr (hall w hw)
  | _ => simp [listOf, IsListOf]

end Members

/-! ## Documents -/

section Documents

variable {v : Json}

/-- The rules of items are those of a member. -/
theorem items_eq_optional (members : List (String × Json)) :
    items members = optional property members "items" := by
  induction members with
  | nil => rfl
  | cons e rest ih =>
    obtain ⟨key, w⟩ := e
    rw [items, ih, optional, optional, Entries.get?]
    by_cases hkey : key = "items" <;> simp [hkey]

/-- **A property breaks no rule** exactly when it is one, with references of
any kind. -/
theorem property_eq_nil_iff (hv : v.Keyed) : property v = [] ↔ IsProperty (fun _ => True) v := by
  induction hv with
  | @object members hkeys hvalues ih =>
    rw [property, items_eq_optional]
    simp only [List.append_eq_nil_iff, optional_eq_nil_iff, kinds_eq_nil_iff, text_eq_nil_iff,
      truth_eq_nil_iff]
    have hitems : ∀ w, (Json.object members).member? "items" = some w →
        (property w = [] ↔ IsProperty (fun _ => True) w) :=
      fun w hw => ih _ (Entries.mem_of_get?_eq_some hw)
    constructor
    · rintro ⟨⟨⟨htype, hrules⟩, hdescription⟩, hnullable⟩
      refine .intro ⟨members, rfl⟩ htype (fun w hw => ?_) (fun _ _ => trivial) hdescription hnullable
      exact (hitems w hw).mp (hrules w hw)
    · rintro ⟨-, htype, hprops, -, hdescription, hnullable⟩
      exact ⟨⟨⟨htype, fun w hw => (hitems w hw).mpr (hprops w hw)⟩, hdescription⟩, hnullable⟩
  | _ =>
    constructor
    · intro hnil
      cases hnil
    · rintro ⟨⟨members, heq⟩, -⟩
      cases heq

theorem typeRules_eq (key : String) :
    typeRules key = Entries.get? [("description", text),
      ("properties", mapOf property), ("required", names)] key := by
  unfold typeRules
  split
  case h_4 h₁ h₂ h₃ =>
    simp [Entries.get?, Ne.symm h₁, Ne.symm h₂, Ne.symm h₃]
  all_goals rfl

theorem operationRules_eq (key : String) :
    operationRules key = Entries.get? [("identifier", identifier),
      ("name", visibleText), ("description", text),
      ("input", visibleText), ("output", visibleText)] key := by
  unfold operationRules
  split
  case h_6 h₁ h₂ h₃ h₄ h₅ =>
    simp [Entries.get?, Ne.symm h₁, Ne.symm h₂, Ne.symm h₃, Ne.symm h₄, Ne.symm h₅]
  all_goals rfl

theorem serviceRules_eq (key : String) :
    serviceRules key = Entries.get? [("identifier", identifier),
      ("name", visibleText), ("description", text),
      ("operations", listOf operation)] key := by
  unfold serviceRules
  split
  case h_5 h₁ h₂ h₃ h₄ =>
    simp [Entries.get?, Ne.symm h₁, Ne.symm h₂, Ne.symm h₃, Ne.symm h₄]
  all_goals rfl

/-- **So does a type.** -/
theorem type_eq_nil_iff (hv : v.Keyed) : type v = [] ↔ IsType (fun _ => True) v := by
  have hproperties : Optional (fun w => mapOf property w = []) v "properties" ↔
      Optional (IsMapOf (IsProperty fun _ => True)) v "properties" :=
    Optional.congr fun w hw => mapOf_eq_nil_iff (hv.member hw) fun u hu => property_eq_nil_iff hu
  rw [check_eq_nil_iff [] (fun _ => rfl) type.eq_2 typeRules_eq (by decide) hv]
  simp only [List.forall_mem_cons, text_eq_nil_iff, names_eq_nil_iff, hproperties]
  constructor
  · rintro ⟨hkeys, -, hdescription, hprops, hrequired, -⟩
    exact ⟨hkeys, hdescription, hprops, hrequired⟩
  · rintro ⟨hkeys, hdescription, hprops, hrequired⟩
    exact ⟨hkeys, nofun, hdescription, hprops, hrequired, nofun⟩

theorem operation_eq_nil_iff (hv : v.Keyed) : operation v = [] ↔ IsOperation v := by
  rw [check_eq_nil_iff ["identifier"] (fun _ => rfl) operation.eq_2 operationRules_eq
    (by decide) hv]
  simp only [List.forall_mem_cons, text_eq_nil_iff, identifier_eq_nil_iff, visibleText_eq_nil_iff]
  constructor
  · rintro ⟨hkeys, ⟨hthere, -⟩, hidentifier, hname, hdescription, hinput, houtput, -⟩
    exact ⟨hkeys, required_iff_optional.mpr ⟨hthere, hidentifier⟩, hname, hdescription, hinput,
      houtput⟩
  · rintro ⟨hkeys, hidentifier, hname, hdescription, hinput, houtput⟩
    obtain ⟨hthere, hidentifier⟩ := required_iff_optional.mp hidentifier
    exact ⟨hkeys, ⟨hthere, nofun⟩, hidentifier, hname, hdescription, hinput, houtput, nofun⟩

theorem service_eq_nil_iff (hv : v.Keyed) : service v = [] ↔ IsService v := by
  have hoperations : Optional (fun w => listOf operation w = []) v "operations" ↔
      Optional (IsListOf IsOperation) v "operations" :=
    Optional.congr fun w hw => listOf_eq_nil_iff (hv.member hw) fun u hu => operation_eq_nil_iff hu
  rw [check_eq_nil_iff ["identifier", "operations"] (fun _ => rfl) service.eq_2
    serviceRules_eq (by decide) hv]
  simp only [List.forall_mem_cons, text_eq_nil_iff, identifier_eq_nil_iff, visibleText_eq_nil_iff,
    hoperations]
  constructor
  · rintro ⟨hkeys, ⟨hthere, hops, -⟩, hidentifier, hname, hdescription, hlist, -⟩
    exact ⟨hkeys, required_iff_optional.mpr ⟨hthere, hidentifier⟩, hname, hdescription,
      required_iff_optional.mpr ⟨hops, hlist⟩⟩
  · rintro ⟨hkeys, hidentifier, hname, hdescription, hlist⟩
    obtain ⟨hthere, hidentifier⟩ := required_iff_optional.mp hidentifier
    obtain ⟨hops, hlist⟩ := required_iff_optional.mp hlist
    exact ⟨hkeys, ⟨hthere, hops, nofun⟩, hidentifier, hname, hdescription, hlist, nofun⟩

/-- **A value breaks no rule** exactly when it is what the meta-schema has. -/
theorem document_eq_nil_iff (hv : v.Keyed) : document v = [] ↔ FitsMetaSchema v := by
  have htypes : Optional (fun w => mapOf type w = []) v "types" ↔
      Optional (IsMapOf (IsType fun _ => True)) v "types" :=
    Optional.congr fun w hw => mapOf_eq_nil_iff (hv.member hw) fun u hu => type_eq_nil_iff hu
  have hservices : Optional (fun w => listOf service w = []) v "services" ↔
      Optional (IsListOf IsService) v "services" :=
    Optional.congr fun w hw => listOf_eq_nil_iff (hv.member hw) fun u hu => service_eq_nil_iff hu
  cases hv with
  | @object members hkeys =>
    have hknown : ((Entries.keys members).filter fun key => key ∉ documentKeys) = [] ↔
        Entries.keys members ⊆ ["$schema", "types", "services"] := by
      simp only [List.filter_eq_nil_iff, decide_eq_true_eq, Decidable.not_not]
      rfl
    simp only [document, List.append_eq_nil_iff, List.map_eq_nil_iff, required_eq_nil_iff,
      optional_eq_nil_iff, hknown, htypes, hservices]
    constructor
    · rintro ⟨⟨⟨hthere, hmap⟩, hlist⟩, honly⟩
      obtain ⟨w, hw⟩ := hthere "$schema" (by decide)
      exact ⟨⟨members, rfl, honly⟩, ⟨w, hw, trivial⟩, hmap,
        required_iff_optional.mpr ⟨hthere "services" (by decide), hlist⟩⟩
    · rintro ⟨⟨_, heq, honly⟩, hdialect, hmap, hlist⟩
      obtain rfl := Json.object.inj heq
      obtain ⟨hservice, hlist⟩ := required_iff_optional.mp hlist
      obtain ⟨hschema, -⟩ := required_iff_optional.mp hdialect
      have hthere : ∀ key ∈ ["$schema", "services"],
          ∃ w, (Json.object members).member? key = some w :=
        List.forall_mem_cons.mpr ⟨hschema, List.forall_mem_singleton.mpr hservice⟩
      exact ⟨⟨⟨hthere, hmap⟩, hlist⟩, honly⟩
  | _ =>
    constructor
    · intro hnil
      cases hnil
    · rintro ⟨⟨members, heq, -⟩, -⟩
      cases heq

end Documents

/-! ## The library -/

theorem compile_metaSchema : library.compile metaSchema = .ok validator := by
  have hsame : metaSchema.denotesSame metaSchema = true := by decide +kernel
  simp only [library, hsame, if_true]

theorem new_library : DocumentParser.new library = .ok parser := by
  rw [DocumentParser.new, compile_metaSchema]
  rfl

theorem newLoader_eq (limits : Limits) :
    Loader.new library limits = .ok ⟨parser, limits, []⟩ := by
  rw [Loader.new, new_library]
  rfl

/-- **The library implements the meta-schema.** -/
theorem implements : library.Implements metaSchema := by
  refine ⟨validator, compile_metaSchema, fun v hv => ?_⟩
  rw [validator, List.map_eq_nil_iff, document_eq_nil_iff hv, MetaSchema.valid_metaSchema_iff]

end ServiceContracts.Definition.Grammar
