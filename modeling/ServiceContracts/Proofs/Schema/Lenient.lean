import ServiceContracts.Proofs.Schema.OneField
import Mathlib.Data.List.Forall2
/-!
# Strict and lenient readings

A strict reading counts a member that nobody declared as an offense, and
a lenient one passes it over, in the payload itself as in every object
inside it. Nothing else sets the two apart. `Checked.Relaxes` compares
them on one payload: the lenient reading has the offenses of the strict
one without the unknown members, and gives what the strict one gives. A
lenient reading is also a strict one of another payload, the one that is
left when all such members are taken out (`FieldType.pruned`).

Both are kept by every step of a reading, so they hold at every depth.
-/


namespace ServiceContracts

/-! ## A payload without undeclared members -/

mutual

/-- A JSON value for a type, without the members that the schemas in the
type do not declare. -/
def FieldType.pruned : FieldType → Json → Json
  | .scalar _, payload => payload
  | .optional inner, payload => inner.pruned payload
  | .list element, payload =>
    match payload with
    | .array items => .array (items.map fun item => element.pruned item)
    | payload => payload
  | .message schema, payload => schema.pruned payload

/-- A JSON value for a schema: only declared members are left of an
object. -/
def Schema.pruned : Schema → Json → Json
  | ⟨_, _, fields⟩, payload =>
    match payload with
    | .object members =>
      .object (members.filterMap fun e => (Schema.prunedMember fields e.1 e.2).map fun v => (e.1, v))
    | payload => payload

/-- What is left of a member, if one of the fields has its key. -/
def Schema.prunedMember : List Field → String → Json → Option Json
  | [], _, _ => none
  | f :: rest, key, payload =>
    if f.name = key then some (f.pruned payload) else Schema.prunedMember rest key payload

/-- A JSON value for a field. -/
def Field.pruned : Field → Json → Json
  | ⟨_, type, _, _⟩, payload => type.pruned payload

end

theorem Field.pruned_eq (f : Field) (payload : Json) : f.pruned payload = f.type.pruned payload := by
  cases f
  rfl

namespace Schema

variable {fields : List Field} {members : List (String × Json)} {key : String}

/-- The members that are left of an object. -/
def prunedMembers (fields : List Field) (members : List (String × Json)) : List (String × Json) :=
  members.filterMap fun e => (prunedMember fields e.1 e.2).map fun v => (e.1, v)

theorem prunedMembers_cons (e : String × Json) :
    prunedMembers fields (e :: members) =
      ((prunedMember fields e.1 e.2).map fun v => (e.1, v)).toList ++ prunedMembers fields members := by
  rw [prunedMembers, List.filterMap_cons]
  cases prunedMember fields e.1 e.2 <;> rfl

/-- Among distinct names a field keeps its own member. -/
theorem prunedMember_name (hnodup : (fields.map Field.name).Nodup) {f : Field} (hf : f ∈ fields)
    (payload : Json) : prunedMember fields f.name payload = some (f.type.pruned payload) := by
  induction fields with
  | nil => cases hf
  | cons g rest ih =>
    obtain ⟨hnew, hrest⟩ : g.name ∉ rest.map Field.name ∧ _ := List.nodup_cons.mp hnodup
    rw [prunedMember]
    rcases List.mem_cons.mp hf with rfl | hf
    · rw [if_pos rfl, Field.pruned_eq]
    · have hother : g.name ≠ f.name := fun heq => hnew (heq ▸ List.mem_map_of_mem hf)
      rw [if_neg hother, ih hrest hf]

/-- A key that no field has is not kept. -/
theorem prunedMember_eq_none (hkey : key ∉ fields.map Field.name) (payload : Json) :
    prunedMember fields key payload = none := by
  induction fields with
  | nil => rfl
  | cons g rest ih =>
    obtain ⟨hg, hrest⟩ : key ≠ g.name ∧ key ∉ rest.map Field.name := by simpa using hkey
    rw [prunedMember, if_neg (Ne.symm hg), ih hrest]

/-- So every key that is left is declared. -/
theorem mem_of_mem_keys_prunedMembers (h : key ∈ Entries.keys (prunedMembers fields members)) :
    key ∈ fields.map Field.name := by
  obtain ⟨e, he, rfl⟩ := List.mem_map.mp h
  obtain ⟨m, -, hm⟩ := List.mem_filterMap.mp he
  obtain ⟨v, hv, rfl⟩ := Option.map_eq_some_iff.mp hm
  by_contra hkey
  rw [prunedMember_eq_none hkey] at hv
  cases hv

/-- And a declared key leads to what it led to before, pruned. -/
theorem get?_prunedMembers (hnodup : (fields.map Field.name).Nodup) {f : Field} (hf : f ∈ fields)
    (members : List (String × Json)) :
    Entries.get? (prunedMembers fields members) f.name =
      (Entries.get? members f.name).map f.type.pruned := by
  induction members with
  | nil => rfl
  | cons e rest ih =>
    obtain ⟨k, v⟩ := e
    rw [prunedMembers_cons]
    by_cases hk : k = f.name
    · subst hk
      simp [prunedMember_name hnodup hf, Entries.get?]
    · cases prunedMember fields k v with
      | none => simpa [Entries.get?, hk] using ih
      | some w => simpa [Entries.get?, hk] using ih

end Schema

/-- Only null is pruned to null. -/
theorem FieldType.pruned_eq_null_iff {t : FieldType} {payload : Json} :
    t.pruned payload = .null ↔ payload = .null := by
  induction t using FieldType.induction with
  | scalar s => exact Iff.rfl
  | list element _ => cases payload <;> simp [FieldType.pruned]
  | optional inner ih => exact ih
  | message schema _ =>
    obtain ⟨name, doc, fields⟩ := schema
    cases payload <;> simp [FieldType.pruned, Schema.pruned]

/-! ## A strict reading of what is left -/

/-- A field that is there is read from what is left of it. -/
theorem Field.check_pruned {f : Field}
    (h : ∀ payload, f.type.decode true (f.type.pruned payload) = f.type.decode false payload)
    (member : Option Json) :
    f.check true (member.map f.type.pruned) = f.check false member := by
  cases member with
  | none => rfl
  | some payload => exact h payload

theorem Schema.decodeFields_congr {strict lenient : Bool} {fields : List Field}
    {members others : List (String × Json)}
    (h : ∀ f ∈ fields, f.decode strict members = f.decode lenient others) :
    decodeFields strict fields members = decodeFields lenient fields others := by
  induction fields with
  | nil => rfl
  | cons f rest ih =>
    obtain ⟨hf, hrest⟩ := List.forall_mem_cons.mp h
    rw [decodeFields, decodeFields, hf, ih hrest]

/-- **One schema**, from the types of its fields. -/
theorem Schema.decode_pruned_of_fields {s : Schema} (hnodup : s.fieldNames.Nodup)
    (h : ∀ f ∈ s.fields, ∀ payload,
      f.type.decode true (f.type.pruned payload) = f.type.decode false payload)
    (payload : Json) : s.decode true (s.pruned payload) = s.decode false payload := by
  obtain ⟨name, doc, fields⟩ := s
  cases payload with
  | object members =>
    have hfields : decodeFields true fields (prunedMembers fields members) =
        decodeFields false fields members := by
      refine decodeFields_congr fun f hf => ?_
      rw [f.decode_eq, f.decode_eq, get?_prunedMembers hnodup hf, Field.check_pruned (h f hf)]
    have hnone : undeclared true fields (prunedMembers fields members) = [] :=
      undeclared_eq_nil fun _ => mem_of_mem_keys_prunedMembers
    rw [Schema.pruned, ← prunedMembers, Schema.decode, Schema.decode, hfields, hnone]
    rfl
  | _ => rfl

/-- **Every type**: to read leniently is to read strictly what is left. -/
theorem FieldType.Built.decode_pruned {t : FieldType} (ht : t.Built) (payload : Json) :
    t.decode true (t.pruned payload) = t.decode false payload := by
  induction ht using FieldType.Built.induction generalizing payload with
  | scalar s => rfl
  | list element _ ih =>
    cases payload with
    | array items =>
      have hitems : ((items.map element.pruned).mapIdx fun i item =>
            (element.decode true item).under (.index i)) =
          items.mapIdx fun i item => (element.decode false item).under (.index i) :=
        List.ext_getElem (by simp) fun i _ _ => by simp [ih]
      rw [FieldType.pruned, FieldType.decode, FieldType.decode, hitems]
    | _ => rfl
  | optional inner _ ih =>
    by_cases hnull : payload = .null
    · rw [hnull, FieldType.pruned_eq_null_iff.mpr rfl]
      rfl
    · have hpruned : inner.pruned payload ≠ .null := mt FieldType.pruned_eq_null_iff.mp hnull
      rw [FieldType.pruned, FieldType.decode_optional hpruned, FieldType.decode_optional hnull, ih]
  | message schema hs ih =>
    rw [FieldType.pruned, FieldType.decode, FieldType.decode,
      Schema.decode_pruned_of_fields hs.fieldNames_nodup ih]

/-- And so for a schema. -/
theorem Schema.Built.decode_pruned {s : Schema} (hs : s.Built) (payload : Json) :
    s.decode true (s.pruned payload) = s.decode false payload :=
  Schema.decode_pruned_of_fields hs.fieldNames_nodup
    (fun _ hf => (hs.fieldType hf).decode_pruned) payload

/-! ## A strict reading beside a lenient one -/

/-- An offense other than a member that nobody declared. -/
def Offense.isKnown (o : Offense) : Bool := o.reason ≠ .unknownField

/-- **A lenient check beside a strict one**: it has the offenses of the
strict one without the unknown members, in the same order, and its result
if there is one. -/
structure Checked.Relaxes {α : Type} (strict lenient : Checked α) : Prop where
  offenses : offenses lenient = (offenses strict).filter Offense.isKnown
  kept : ∀ a, strict = .ok a → lenient = .ok a

namespace Checked.Relaxes

variable {α β : Type} {c c' : Checked α} {d d' : Checked β}

theorem ok (a : α) : Relaxes (.ok a) (.ok a) := ⟨rfl, fun _ h => h⟩

theorem refuse {reason : Reason} (h : reason ≠ .unknownField) :
    Relaxes (Checked.refuse reason : Checked α) (Checked.refuse reason) := by
  refine ⟨?_, fun _ h => h⟩
  simp [Checked.refuse, Checked.offenses, Offense.isKnown, h]

theorem under (h : Relaxes c c') (step : Step) : Relaxes (c.under step) (c'.under step) where
  offenses := by
    rw [offenses_under, offenses_under, h.offenses, List.filter_map]
    rfl
  kept a ha := by
    rw [under_eq_ok_iff] at ha ⊢
    exact h.kept a ha

theorem map (h : Relaxes c c') (f : α → β) : Relaxes (c.map f) (c'.map f) where
  offenses := by rw [offenses_map, offenses_map, h.offenses]
  kept b hb := by
    obtain ⟨a, ha, rfl⟩ := map_eq_ok_iff.mp hb
    exact map_eq_ok_iff.mpr ⟨a, h.kept a ha, rfl⟩

theorem both (h : Relaxes c c') (h' : Relaxes d d') :
    Relaxes (Checked.both c d) (Checked.both c' d') where
  offenses := by
    rw [offenses_both, offenses_both, h.offenses, h'.offenses, List.filter_append]
  kept p hp := by
    obtain ⟨hc, hd⟩ := both_eq_ok_iff.mp hp
    exact both_eq_ok_iff.mpr ⟨h.kept _ hc, h'.kept _ hd⟩

theorem all {cs cs' : List (Checked α)} (h : List.Forall₂ Relaxes cs cs') :
    Relaxes (Checked.all cs) (Checked.all cs') := by
  induction h with
  | nil => exact ok []
  | cons h _ ih => exact (h.both ih).map _

/-- The items of an array, each under its index. -/
theorem items {items : List Json} {check check' : Json → Checked α}
    (h : ∀ item, Relaxes (check item) (check' item)) :
    Relaxes (Checked.all (items.mapIdx fun i item => (check item).under (.index i)))
      (Checked.all (items.mapIdx fun i item => (check' item).under (.index i))) := by
  refine all ?_
  rw [List.mapIdx_eq_zipIdx_map, List.mapIdx_eq_zipIdx_map, List.forall₂_map_left_iff,
    List.forall₂_map_right_iff, List.forall₂_same]
  exact fun e _ => (h e.1).under _

/-- Only unknown members are undeclared. -/
theorem undeclared (fields : List Field) (members : List (String × Json)) :
    Relaxes (ofOffenses (Schema.undeclared true fields members))
      (ofOffenses (Schema.undeclared false fields members)) := by
  refine ⟨?_, fun _ _ => rfl⟩
  rw [offenses_ofOffenses, offenses_ofOffenses]
  refine Eq.symm (List.filter_eq_nil_iff.mpr fun o ho => ?_)
  obtain ⟨key, -, hkey⟩ := List.mem_filterMap.mp ho
  split at hkey
  · cases hkey
  · obtain rfl := Option.some.inj hkey
    simp [Offense.isKnown]

end Checked.Relaxes

/-- No scalar is refused as an unknown member. -/
theorem Scalar.ne_unknownField_of_decode {s : Scalar} {payload : Json} {reason : Reason}
    (h : s.decode payload = .error reason) : reason ≠ .unknownField := by
  rintro rfl
  have hinteger : ∀ n, Scalar.decodeInteger n ≠ .error .unknownField := by
    intro n hn
    unfold Scalar.decodeInteger at hn
    repeat' split at hn
    all_goals cases hn
  cases s <;> cases payload <;> first
    | exact hinteger _ h
    | simp [Scalar.decode] at h

theorem Field.decode_relaxes {f : Field}
    (h : ∀ payload, Checked.Relaxes (f.type.decode true payload) (f.type.decode false payload))
    (members : List (String × Json)) :
    Checked.Relaxes (f.decode true members) (f.decode false members) := by
  rw [f.decode_eq, f.decode_eq]
  refine Checked.Relaxes.map (Checked.Relaxes.under ?_ _) _
  cases Entries.get? members f.name with
  | some payload => exact h payload
  | none =>
    rw [Field.check, Field.check]
    cases f.effectiveDefault with
    | some v => exact .ok v
    | none => exact .refuse (by simp)

/-- **One schema**, from the types of its fields. -/
theorem Schema.decode_relaxes_of_fields {s : Schema}
    (h : ∀ f ∈ s.fields, ∀ payload,
      Checked.Relaxes (f.type.decode true payload) (f.type.decode false payload))
    (payload : Json) : Checked.Relaxes (s.decode true payload) (s.decode false payload) := by
  obtain ⟨name, doc, fields⟩ := s
  cases payload with
  | object members =>
    rw [Schema.decode, Schema.decode]
    refine Checked.Relaxes.map (Checked.Relaxes.both ?_ (.undeclared fields members)) _
    induction fields with
    | nil => exact .ok []
    | cons f rest ih =>
      obtain ⟨hf, hrest⟩ := List.forall_mem_cons.mp h
      rw [decodeFields, decodeFields]
      exact ((Field.decode_relaxes hf members).both (ih hrest)).map _
  | _ => exact .refuse (by simp)

/-- **Every type.** -/
theorem FieldType.decode_relaxes (t : FieldType) (payload : Json) :
    Checked.Relaxes (t.decode true payload) (t.decode false payload) := by
  induction t using FieldType.induction generalizing payload with
  | scalar s =>
    rw [FieldType.decode, FieldType.decode]
    cases h : s.decode payload with
    | ok v => exact .ok v
    | error reason => exact .refuse (Scalar.ne_unknownField_of_decode h)
  | list element ih =>
    cases payload with
    | array items => exact (Checked.Relaxes.items ih).map _
    | _ => exact .refuse (by simp)
  | optional inner ih =>
    cases payload with
    | null => exact Checked.Relaxes.ok Value.null
    | _ => exact ih _
  | message schema ih => exact (Schema.decode_relaxes_of_fields ih payload).map _

/-- And so for a schema. -/
theorem Schema.decode_relaxes (s : Schema) (payload : Json) :
    Checked.Relaxes (s.decode true payload) (s.decode false payload) :=
  Schema.decode_relaxes_of_fields (fun f _ => f.type.decode_relaxes) payload

/-! ## Between the calls -/

/-- The errors that validation reports. -/
def Schema.errors (s : Schema) (config : Config) (payload : Json) : FieldErrors :=
  match s.validate config payload with
  | .error (.rejected _ errors) => errors
  | _ => []

theorem Schema.errors_eq {s : Schema} {config : Config} {payload : Json} :
    s.errors config payload =
      (Checked.offenses (s.decode config.strict payload)).map Offense.report := by
  unfold errors validate read
  cases s.decode config.strict payload <;> rfl

/-- The report of an unknown member is known by its reason. -/
theorem Reason.message_eq_unknownField_iff {reason : Reason} :
    reason.message = Reason.unknownField.message ↔ reason = .unknownField := by
  refine ⟨fun h => ?_, fun h => h ▸ rfl⟩
  cases reason with
  | unknownField => rfl
  | missingField | integerOutOfRange | numberNotFinite => exact absurd h (by decide)
  | mismatch expected found =>
    -- the one text starts as the other does not
    have hfirst := congrArg (fun text => text.toList.head?) h
    simp [Reason.message, String.toList_append] at hfirst

/-- **Strict and lenient validation differ by unknown members only.** What
strict mode accepts, lenient mode accepts with the same instance. Its
errors are those of strict mode without the unknown members, in the same
order. And it finds in a payload what strict mode finds in the payload
that is left without them. -/
theorem Schema.Built.validate_lenient {s : Schema} (hs : s.Built) (compact : Bool)
    (payload : Json) :
    (∀ m, s.validate ⟨true, compact⟩ payload = .ok m →
      s.validate ⟨false, compact⟩ payload = .ok m) ∧
    s.errors ⟨false, compact⟩ payload =
      (s.errors ⟨true, compact⟩ payload).filter
        (fun e => e.reason ≠ Reason.unknownField.message) ∧
    s.validate ⟨false, compact⟩ payload = s.validate ⟨true, compact⟩ (s.pruned payload) := by
  have hrelaxes := s.decode_relaxes payload
  refine ⟨fun m hm => ?_, ?_, ?_⟩
  · rw [Schema.validate_eq_ok_iff] at hm ⊢
    exact hrelaxes.kept m hm
  · rw [Schema.errors_eq, Schema.errors_eq, hrelaxes.offenses, List.filter_map]
    refine congrArg (List.map Offense.report) (List.filter_congr fun o _ => ?_)
    simp [Offense.isKnown, Offense.report, Reason.message_eq_unknownField_iff]
  · unfold Schema.validate Schema.read
    rw [hs.decode_pruned payload]

namespace Sample

/-- A route with a member of its own, and with a stop that has one and is
at fault besides. -/
def detour : Json :=
  .object [("kind", .string "night"),
    ("stops", .array [.object [("platform", .null), ("wait", .boolean true)], .null])]

/-- What is at fault in both modes. -/
def detourErrors : FieldErrors :=
  [⟨"stops[0].name", "missing required field"⟩,
    ⟨"stops[0].wait", "expected number, found boolean"⟩]

end Sample

/-- Both unknown members go, the one inside the stop and the one beside the
stops, and the errors of the stop stay. -/
theorem Schema.Built.validate_lenient_detour :
    Sample.route.errors ⟨true, false⟩ Sample.detour = Sample.detourErrors ++
      [⟨"stops[0].platform", "unknown field"⟩, ⟨"kind", "unknown field"⟩] ∧
    Sample.route.errors ⟨false, false⟩ Sample.detour = Sample.detourErrors ∧
    Sample.route.pruned Sample.detour =
      .object [("stops", .array [.object [("wait", .boolean true)], .null])] ∧
    Sample.route.validate ⟨false, false⟩ Sample.detour =
      Sample.route.validate ⟨true, false⟩ (Sample.route.pruned Sample.detour) := by
  obtain ⟨-, herrors, hpruned⟩ :=
    Schema.Built.validate_lenient Sample.route_built false Sample.detour
  exact ⟨rfl, herrors, rfl, hpruned⟩

end ServiceContracts
