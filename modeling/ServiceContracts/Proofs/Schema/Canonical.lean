import ServiceContracts.Proofs.Schema.FixedPoint
import ServiceContracts.Proofs.Schema.Reordering
/-!
# Instances in another order

Two instances may differ in the order of their fields, at any depth, and
in nothing else (`Instance.Reordered`). Writing goes through the declared
fields and looks each of them up, and compares with defaults in a way
that does not look at order (`Value.same_eq_of_reordered`). So both are
written as the same JSON value, whose objects have their keys in the
order of declaration (`FieldType.InOrder`), or both are refused. Only
what nobody declared is gone through as it stands.
-/


namespace ServiceContracts

variable {compact : Bool} {v w : Value} {m n : Instance}

/-! ## Instances -/

/-- **Values that differ in the order of fields only**: messages of one
schema name with the same fields in some order, and what they hold for a
field may differ in the same way. -/
inductive Value.Reordered : Value → Value → Prop
  | null : Reordered .null .null
  | boolean (b : Bool) : Reordered (.boolean b) (.boolean b)
  | integer (n : Int64) : Reordered (.integer n) (.integer n)
  | number (x : Binary64) : Reordered (.number x) (.number x)
  | string (s : String) : Reordered (.string s) (.string s)
  | list {items others : List Value} (h : List.Forall₂ Reordered items others) :
      Reordered (.list items) (.list others)
  | message {schema : String} {fields others : List (String × Value)}
      (hkeys : (Entries.keys fields).Perm (Entries.keys others))
      (hvalues : ∀ key v w, Entries.get? fields key = some v →
        Entries.get? others key = some w → Reordered v w) :
      Reordered (.message ⟨schema, fields⟩) (.message ⟨schema, others⟩)

/-- **Instances that differ in the order of fields only.** -/
structure Instance.Reordered (m n : Instance) : Prop where
  schema : m.schema = n.schema
  fields : Entries.Matched Value.Reordered m.fields n.fields

theorem Value.reordered_message_iff :
    (Value.message m).Reordered (.message n) ↔ m.Reordered n := by
  constructor
  · intro h
    cases h with
    | message hkeys hvalues => exact ⟨rfl, hkeys, hvalues⟩
  · obtain ⟨schema, fields⟩ := m
    obtain ⟨schema', others⟩ := n
    rintro ⟨hschema, hkeys, hvalues⟩
    obtain rfl : schema = schema' := hschema
    exact .message hkeys hvalues

theorem Value.Reordered.refl (v : Value) : v.Reordered v := by
  induction v using Value.induction with
  | null => exact .null
  | boolean b => exact .boolean b
  | integer n => exact .integer n
  | number x => exact .number x
  | string s => exact .string s
  | list items ih => exact .list (List.forall₂_same.mpr ih)
  | message m ih =>
    refine Value.reordered_message_iff.mpr ⟨rfl, List.Perm.refl _, fun key v w hv hw => ?_⟩
    obtain rfl := Option.some.inj (hv.symm.trans hw)
    exact ih (key, v) (Entries.mem_of_get?_eq_some hv)

theorem Value.Reordered.null_iff (h : v.Reordered w) : v = .null ↔ w = .null := by
  cases h <;> simp

/-! ## Equality does not see the order -/

theorem Value.itemsSame_eq_of_reordered {ds items others : List Value}
    (ih : ∀ d ∈ ds, ∀ {v w : Value}, v.Reordered w → d.same v = d.same w)
    (h : List.Forall₂ Value.Reordered items others) : itemsSame ds items = itemsSame ds others := by
  induction h generalizing ds with
  | nil => rfl
  | cons hitem _ ihrest =>
    cases ds with
    | nil => simp [itemsSame]
    | cons d rest =>
      obtain ⟨hd, hrest⟩ := List.forall_mem_cons.mp ih
      rw [itemsSame, itemsSame, hd hitem, ihrest hrest]

/-- **Messages compare alike** with what is in another order. -/
theorem Instance.same_eq_of_reordered {d : Instance}
    (ih : ∀ e ∈ d.fields, ∀ {v w : Value}, v.Reordered w → e.2.same v = e.2.same w)
    (h : m.Reordered n) : d.same m = d.same n := by
  have hlength : m.fields.length = n.fields.length := by
    simpa [Entries.keys] using h.fields.keys_perm.length_eq
  -- each field of the left side finds its value in both messages or in neither
  have hfield : ∀ e ∈ d.fields, (∃ v, m.get? e.1 = some v ∧ e.2.same v = true) ↔
      ∃ w, n.get? e.1 = some w ∧ e.2.same w = true := by
    intro e he
    unfold Instance.get?
    obtain ⟨hm, hn⟩ | ⟨v, w, hv, hw, hvw⟩ := h.fields.get?_cases e.1
    · simp [hm, hn]
    · simp [hv, hw, ih e he hvw]
  rw [Bool.eq_iff_iff, Instance.same_iff, Instance.same_iff, h.schema, hlength,
    forall₂_congr hfield]

/-- **Equality with a value does not see the order** of the other side. -/
theorem Value.same_eq_of_reordered {d : Value} (h : v.Reordered w) : d.same v = d.same w := by
  induction d using Value.induction generalizing v w with
  | list items ih =>
    cases h with
    | list h => rw [Value.same_list, Value.same_list, Value.itemsSame_eq_of_reordered ih h]
    | message => simp [Value.same]
    | _ => rfl
  | message d ih =>
    cases h with
    | message hkeys hvalues =>
      rw [Value.same_message, Value.same_message]
      exact Instance.same_eq_of_reordered ih ⟨rfl, hkeys, hvalues⟩
    | list => simp [Value.same]
    | _ => rfl
  | _ => cases h <;> simp [Value.same]

/-- So the one is a default where the other is. -/
theorem Field.isDefault_eq_of_reordered (f : Field) (h : v.Reordered w) :
    f.isDefault v = f.isDefault w := by
  unfold isDefault
  cases f.effectiveDefault with
  | none => rfl
  | some d => exact Value.same_eq_of_reordered h

/-! ## Writing -/

/-- What is held for a field, of both or of neither: the default stands in
for both together. -/
theorem Field.held_cases_of_reordered (f : Field) (h : m.Reordered n) :
    (f.held m = none ∧ f.held n = none) ∨
      ∃ v w, f.held m = some v ∧ f.held n = some w ∧ v.Reordered w := by
  unfold held Instance.get?
  obtain ⟨hm, hn⟩ | ⟨v, w, hv, hw, hvw⟩ := h.fields.get?_cases f.name
  · rw [hm, hn, Option.none_or]
    cases f.effectiveDefault with
    | none => exact .inl ⟨rfl, rfl⟩
    | some d => exact .inr ⟨d, d, rfl, rfl, .refl d⟩
  · rw [hv, hw]
    exact .inr ⟨v, w, rfl, rfl, hvw⟩

/-- **One field**, of both instances. -/
theorem Field.encode_reordered {f : Field}
    (ih : ∀ {v w : Value}, v.Reordered w →
      Checked.SameOutcome False (f.type.encode compact v) (f.type.encode compact w))
    (h : m.Reordered n) :
    Checked.SameOutcome False (f.encode compact m) (f.encode compact n) := by
  obtain ⟨hm, hn⟩ | ⟨v, w, hv, hw, hvw⟩ := f.held_cases_of_reordered h
  · rw [f.encode_of_held_none hm, f.encode_of_held_none hn]
    exact .refl _
  · rw [f.encode_of_held hv, f.encode_of_held hw, f.isDefault_eq_of_reordered hvw]
    refine Checked.SameOutcome.under ?_ _
    split
    · exact .refl _
    · exact (ih hvw).map _

/-- **One schema**, from its fields. What is left over is refused as it
stands in the instance. -/
theorem Schema.encode_reordered_of_fields {s : Schema}
    (ih : ∀ f ∈ s.fields, ∀ {v w : Value}, v.Reordered w →
      Checked.SameOutcome False (f.type.encode compact v) (f.type.encode compact w))
    (h : m.Reordered n) :
    Checked.SameOutcome False (s.encode compact m) (s.encode compact n) := by
  obtain ⟨name, doc, fields⟩ := s
  have hsurplus : (surplus fields m.fields).Perm (surplus fields n.fields) :=
    h.fields.keys_perm.filterMap _
  rw [Schema.encode, Schema.encode]
  refine Checked.SameOutcome.map (Checked.SameOutcome.both ?_ (.ofOffenses hsurplus False.elim)) _
  clear hsurplus
  induction fields with
  | nil => exact .ok []
  | cons f rest ihrest =>
    obtain ⟨hf, hrest⟩ := List.forall_mem_cons.mp ih
    rw [encodeFields, encodeFields]
    exact ((Field.encode_reordered hf h).both (ihrest hrest)).map _

/-- **Every type.** -/
theorem FieldType.encode_reordered (t : FieldType) (h : v.Reordered w) :
    Checked.SameOutcome False (t.encode compact v) (t.encode compact w) := by
  induction t using FieldType.induction generalizing v w with
  | scalar s =>
    -- no scalar is written of a list or a message, so nothing is reordered
    cases h with
    | list => cases s <;> exact .refl _
    | message => cases s <;> exact .refl _
    | _ => exact .refl _
  | list element ih =>
    cases h with
    | list h =>
      rw [FieldType.encode, FieldType.encode]
      exact (Checked.SameOutcome.items h ih).map _
    | _ => exact .refl _
  | optional inner ih =>
    by_cases hnull : v = .null
    · rw [hnull, h.null_iff.mp hnull]
      exact .refl _
    · rw [FieldType.encode_optional hnull, FieldType.encode_optional (mt h.null_iff.mpr hnull)]
      exact ih h
  | message schema ih =>
    cases h with
    | message hkeys hvalues =>
      simp only [FieldType.encode]
      split
      · exact Schema.encode_reordered_of_fields ih ⟨rfl, hkeys, hvalues⟩
      · exact .refl _
    | _ => exact .refl _

/-- And so for a schema. -/
theorem Schema.encode_reordered (s : Schema) (h : m.Reordered n) :
    Checked.SameOutcome False (s.encode compact m) (s.encode compact n) :=
  Schema.encode_reordered_of_fields (fun f _ {_ _} h => f.type.encode_reordered h) h

/-! ## The order of what is written -/

/-- **Every object has its keys in the order of its schema**, none of them
twice, at every depth: objects stand only where the type has a schema, and
their keys are among the names of its fields, in declaration order. -/
inductive FieldType.InOrder : FieldType → Json → Prop
  | string (s : Scalar) (text : String) : InOrder (.scalar s) (.string text)
  | number (s : Scalar) (n : Json.Number) : InOrder (.scalar s) (.number n)
  | boolean (s : Scalar) (b : Bool) : InOrder (.scalar s) (.boolean b)
  | null (inner : FieldType) : InOrder (.optional inner) .null
  | optional {inner : FieldType} {json : Json} (h : InOrder inner json) :
      InOrder (.optional inner) json
  | list {element : FieldType} {jsons : List Json} (h : ∀ json ∈ jsons, InOrder element json) :
      InOrder (.list element) (.array jsons)
  | message {schema : Schema} {members : List (String × Json)}
      (hkeys : (Entries.keys members).Sublist schema.fieldNames)
      (hnodup : (Entries.keys members).Nodup)
      (hvalues : ∀ f ∈ schema.fields, ∀ json, Entries.get? members f.name = some json →
        InOrder f.type json) :
      InOrder (.message schema) (.object members)

theorem Scalar.inOrder_of_encode {s : Scalar} {json : Json} (h : s.encode v = .ok json) :
    (FieldType.scalar s).InOrder json := by
  unfold Scalar.encode at h
  split at h <;> cases h
  · exact .string _ _
  · exact .number _ _
  · exact .number _ _
  · exact .number _ _
  · exact .boolean _ _

/-- **What is written is in order.** -/
theorem FieldType.Built.inOrder_of_encode {t : FieldType} (ht : t.Built) {json : Json}
    (h : t.encode compact v = .ok json) : t.InOrder json := by
  induction ht using FieldType.Built.induction generalizing v json with
  | scalar s => exact Scalar.inOrder_of_encode (FieldType.encode_scalar_eq_ok_iff.mp h)
  | list element _ ih =>
    obtain ⟨items, jsons, rfl, rfl, hjsons⟩ := FieldType.encode_list_eq_ok_iff.mp h
    refine .list fun json hjson => ?_
    obtain ⟨item, -, hitem⟩ := exists_of_map_eq_map_ok hjsons hjson
    exact ih hitem
  | optional inner _ ih =>
    by_cases hnull : v = .null
    · subst hnull
      obtain rfl := Except.ok.inj h
      exact .null inner
    · rw [FieldType.encode_optional hnull] at h
      exact .optional (ih h)
  | message schema hs ih =>
    obtain ⟨m, rfl, -, hm⟩ := FieldType.encode_message_eq_ok_iff.mp h
    obtain ⟨written, hwritten, rfl⟩ := Schema.exists_written hm
    obtain ⟨groups, hgroups, -, hfields⟩ := Schema.encode_eq_ok_iff.mp hm
    have hkeys := Schema.keys_flatten_sublist hfields
    rw [← Json.object.inj hgroups] at hkeys
    refine .message hkeys (hkeys.nodup hs.fieldNames_nodup) fun f hf json hjson => ?_
    -- the member under the name of a field is what was written of that field
    rw [Entries.get?_filterMap hs.fieldNames_nodup written hf] at hjson
    have hfield := hwritten f hf
    rw [hjson] at hfield
    obtain ⟨v, -, ⟨-, hnone⟩ | ⟨-, json', hencode, hmember⟩⟩ := Field.encode_eq_ok_iff.mp hfield
    · cases hnone
    · cases hmember
      exact ih f hf hencode

/-! ## Serialization -/

/-- **Serialization is canonical.** Instances that differ in the order of
their fields only are written as the same JSON value, which has its keys
in the order of declaration at every depth; or both are refused with the
same errors in some order; or both belong to another schema. -/
theorem Schema.Built.serialize_canonical {s : Schema} (hs : s.Built) (config : Config)
    (h : m.Reordered n) :
    (∃ json, s.serialize config m = .ok json ∧ s.serialize config n = .ok json ∧
      (FieldType.message s).InOrder json) ∨
    (∃ errors others, s.serialize config m = .error (.rejected s.name errors) ∧
      s.serialize config n = .error (.rejected s.name others) ∧ errors.Perm others) ∨
    s.serialize config m = .error (.otherSchema s.name m.schema) ∧
      s.serialize config n = .error (.otherSchema s.name m.schema) := by
  by_cases hname : m.schema = s.name
  · have hname' : n.schema = s.name := h.schema ▸ hname
    have houtcome : Checked.SameOutcome False (s.encode config.compact m)
        (s.encode config.compact n) := s.encode_reordered h
    have hinOrder : ∀ json, s.encode config.compact m = .ok json →
        (FieldType.message s).InOrder json := by
      intro json hjson
      exact (FieldType.Built.message hs).inOrder_of_encode
        (FieldType.encode_message_eq_ok_iff.mpr ⟨m, rfl, hname, hjson⟩)
    unfold serialize
    rw [if_pos hname, if_pos hname']
    generalize s.encode config.compact m = c at houtcome hinOrder
    generalize s.encode config.compact n = c' at houtcome
    cases houtcome with
    | ok json => exact .inl ⟨json, rfl, rfl, hinOrder json rfl⟩
    | error hperm => exact .inr (.inl ⟨_, _, rfl, rfl, hperm.map _⟩)
  · refine .inr (.inr ⟨?_, ?_⟩)
    · rw [serialize, if_neg hname]
    · rw [serialize, if_neg (h.schema ▸ hname), h.schema]

namespace Sample

/-- A route of the evening, with its fields the wrong way round and those of
its stop too. -/
def eveningRoute : Instance :=
  ⟨"Route", [("note", .string "evening"), ("stops", .list [.null, .message ⟨"Stop",
    [("wait", .number (.finite .zero)), ("name", .string "Delft")]⟩])]⟩

/-- The same route in declared order. -/
def orderedRoute : Instance :=
  ⟨"Route", [("stops", .list [.null, .message ⟨"Stop",
    [("name", .string "Delft"), ("wait", .number (.finite .zero))]⟩]), ("note", .string "evening")]⟩

theorem eveningRoute_reordered : eveningRoute.Reordered orderedRoute := by
  have hstop : (Value.message ⟨"Stop", [("wait", .number (.finite .zero)),
      ("name", .string "Delft")]⟩).Reordered (.message ⟨"Stop", [("name", .string "Delft"),
      ("wait", .number (.finite .zero))]⟩) :=
    Value.reordered_message_iff.mpr ⟨rfl, .of_perm (by decide) (List.Perm.swap ..)
      (.cons ⟨rfl, .refl _⟩ (.cons ⟨rfl, .refl _⟩ .nil))⟩
  refine ⟨rfl, .of_perm (by decide) (List.Perm.swap ..) ?_⟩
  exact .cons ⟨rfl, .list (.cons .null (.cons hstop .nil))⟩ (.cons ⟨rfl, .refl _⟩ .nil)

/-- What both are written as in compact form. -/
def eveningJson : Json :=
  .object [("stops", .array [.null, .object [("name", .string "Delft")]]),
    ("note", .string "evening")]

/-- A stop without its name, and with two fields nobody declared. -/
def platformStop : Instance := ⟨"Stop", [("platform", .integer 2), ("line", .integer 4)]⟩

/-- The two fields the other way round. -/
def lineStop : Instance := ⟨"Stop", [("line", .integer 4), ("platform", .integer 2)]⟩

theorem platformStop_reordered : platformStop.Reordered lineStop :=
  ⟨rfl, .of_perm (by decide) (List.Perm.swap ..)
    (.cons ⟨rfl, .refl _⟩ (.cons ⟨rfl, .refl _⟩ .nil))⟩

end Sample

/-- The route is written the same in either order, compactly; of the stop
the same is said, but not in the same order. -/
theorem Schema.Built.serialize_canonical_route :
    (Sample.route.serialize ⟨true, true⟩ Sample.eveningRoute = .ok Sample.eveningJson ∧
      Sample.route.serialize ⟨true, true⟩ Sample.orderedRoute = .ok Sample.eveningJson ∧
      (FieldType.message Sample.route).InOrder Sample.eveningJson) ∧
    ∃ errors others,
      Sample.stop.serialize Config.lenient Sample.platformStop =
        .error (.rejected "Stop" errors) ∧
      Sample.stop.serialize Config.lenient Sample.lineStop = .error (.rejected "Stop" others) ∧
      errors.Perm others ∧ errors ≠ others := by
  have hevening : Sample.route.serialize ⟨true, true⟩ Sample.eveningRoute =
      .ok Sample.eveningJson := by
    with_unfolding_all rfl
  constructor
  · obtain ⟨json, hjson, hother, hinOrder⟩ | ⟨errors, others, herrors, -⟩ | ⟨hmismatch, -⟩ :=
      Schema.Built.serialize_canonical Sample.route_built ⟨true, true⟩
        Sample.eveningRoute_reordered
    · obtain rfl := Except.ok.inj (hevening.symm.trans hjson)
      exact ⟨hjson, hother, hinOrder⟩
    · cases hevening.symm.trans herrors
    · cases hevening.symm.trans hmismatch
  · obtain ⟨json, hjson, -⟩ | ⟨errors, others, herrors, hothers, hperm⟩ | ⟨hmismatch, -⟩ :=
      Schema.Built.serialize_canonical Sample.stop_built Config.lenient
        Sample.platformStop_reordered
    · cases hjson
    · refine ⟨errors, others, herrors, hothers, hperm, ?_⟩
      cases herrors
      cases hothers
      decide
    · cases hmismatch

end ServiceContracts
