import ServiceContracts.Proofs.Binary64.Nearest
import ServiceContracts.Proofs.Schema.Likeness
import ServiceContracts.Proofs.Schema.Writing
import Mathlib.Data.List.Basic
import Mathlib.Tactic.Choose
/-!
# The normal form of what is written

An instance may be put together by hand: with its fields in any order,
with fields left to their defaults, and with integers where the type says
number. All of this can be written. `FieldType.normal` is the value that
it stands for, and that is what a reading gives, in strict mode as well
(`FieldType.Built.decode_of_encode`). In full it is the normal form
itself; in compact form a field that equals its default is left out, and
the default comes back in its place, which may be the other zero.
-/


namespace ServiceContracts

variable {compact strict : Bool}

/-! ## The normal form -/

/-- An integer stands for the number nearest to it, where the type says
number. -/
def Scalar.normal : Scalar → Value → Value
  | .number, .integer n => .number (Binary64.ofInt n.toInt)
  | _, v => v

mutual

/-- The value of a type that a value stands for. A value that is not of
the type's kind stands for itself. -/
def FieldType.normal : FieldType → Value → Value
  | .scalar s, v => s.normal v
  | .list element, v =>
    match v with
    | .list items => .list (items.map fun item => element.normal item)
    | v => v
  | .optional inner, v => inner.normal v
  | .message schema, v =>
    match v with
    | .message m => .message (schema.normal m)
    | v => v

/-- The message of a schema that a message stands for: the declared fields,
in declared order. -/
def Schema.normal : Schema → Instance → Instance
  | ⟨name, _, fields⟩, m => ⟨name, Schema.normalFields fields m⟩

/-- The entries for a list of fields. -/
def Schema.normalFields : List Field → Instance → List (String × Value)
  | [], _ => []
  | f :: rest, m => (f.normal m).toList ++ Schema.normalFields rest m

/-- The entry for a field: what the message holds for it, or else its
effective default. -/
def Field.normal : Field → Instance → Option (String × Value)
  | ⟨name, type, default, doc⟩, m =>
    (Field.held ⟨name, type, default, doc⟩ m).map fun v => (name, type.normal v)

end

theorem Field.normal_eq (f : Field) (m : Instance) :
    f.normal m = (f.held m).map fun v => (f.name, f.type.normal v) := by
  obtain ⟨name, type, default, doc⟩ := f
  rw [Field.normal]

theorem Schema.normalFields_of_held {fields : List Field} {m : Instance} {value : Field → Value}
    (h : ∀ f ∈ fields, f.held m = some (value f)) :
    normalFields fields m = fields.map fun f => (f.name, f.type.normal (value f)) := by
  induction fields with
  | nil => rw [normalFields, List.map_nil]
  | cons f rest ih =>
    have hrest := ih fun g hg => h g (List.mem_cons_of_mem _ hg)
    rw [normalFields, Field.normal_eq, h f (by simp), hrest]
    rfl

/-- A message that holds something for every field stands for the message
of those values. -/
theorem Schema.normal_of_held {s : Schema} {m : Instance} {value : Field → Value}
    (h : ∀ f ∈ s.fields, f.held m = some (value f)) :
    s.normal m = s.holding fun f => f.type.normal (value f) := by
  obtain ⟨name, doc, fields⟩ := s
  rw [Schema.normal, Schema.normalFields_of_held h]
  rfl

@[simp] theorem FieldType.normal_null (t : FieldType) : t.normal .null = .null := by
  induction t using FieldType.induction with
  | scalar s => cases s <;> rfl
  | list element _ => rfl
  | optional inner ih => rw [FieldType.normal, ih]
  | message schema _ => rfl

/-! ## What equals a value of the type -/

/-- What equals a value of a scalar type is of that type. -/
theorem Scalar.Conforms.normal_of_same {s : Scalar} {d v : Value} (hd : s.Conforms d)
    (h : d.same v = true) : s.normal v = v ∧ s.Conforms v := by
  cases hd <;> cases v <;> simp only [Value.same, Bool.false_eq_true] at h
  case string.string => exact ⟨rfl, .string _⟩
  case integer.integer => exact ⟨rfl, .integer _⟩
  case boolean.boolean => exact ⟨rfl, .boolean _⟩
  case number.number x y =>
    -- nothing but a finite number equals a finite number
    cases y with
    | finite y => exact ⟨rfl, .number y⟩
    | infinite negative => simp [Binary64.same] at h
    | nan => simp [Binary64.same] at h

/-- **What equals a value of the type stands for a value of the type** that
equals it too. Only the order of fields can differ, and the normal form
puts them in order. -/
theorem FieldType.Built.conforms_normal_of_same {t : FieldType} (ht : t.Built) {d v : Value}
    (hd : t.Conforms d) (h : d.same v = true) :
    t.Conforms (t.normal v) ∧ d.same (t.normal v) = true := by
  induction ht using FieldType.Built.induction generalizing d v with
  | scalar s =>
    obtain ⟨hnormal, hv⟩ := Scalar.Conforms.normal_of_same hd h
    rw [FieldType.normal, hnormal]
    exact ⟨hv, h⟩
  | list element _ ih =>
    obtain ⟨items, rfl, hitems⟩ := hd
    cases v with
    | list others =>
      rw [Value.same_list] at h
      suffices hall : (∀ item ∈ others.map element.normal, element.Conforms item) ∧
          Value.itemsSame items (others.map element.normal) = true by
        exact ⟨⟨_, rfl, hall.1⟩, by rw [FieldType.normal, Value.same_list]; exact hall.2⟩
      -- along both lists at once, which are as long as each other
      induction items generalizing others with
      | nil => cases others <;> simp_all [Value.itemsSame]
      | cons a rest ihrest =>
        cases others with
        | nil => simp [Value.itemsSame] at h
        | cons b others =>
          rw [Value.itemsSame, Bool.and_eq_true] at h
          rw [List.forall_mem_cons] at hitems
          obtain ⟨hb, hsame⟩ := ih hitems.1 h.1
          obtain ⟨hothers, hsames⟩ := ihrest hitems.2 others h.2
          rw [List.map_cons, List.forall_mem_cons, Value.itemsSame, hsame, hsames]
          exact ⟨⟨hb, hothers⟩, rfl⟩
    | _ => simp [Value.same] at h
  | optional inner _ ih =>
    rw [FieldType.normal]
    obtain rfl | hd := hd
    · rw [Value.eq_null_of_same h, FieldType.normal_null]
      exact ⟨.inl rfl, by simp [Value.same]⟩
    · exact (ih hd h).imp_left .inr
  | message schema hs ih =>
    obtain ⟨m, rfl, hm⟩ := hd
    obtain ⟨value, rfl, hvalue⟩ := (Schema.conforms_iff hs.fieldNames_nodup).mp hm
    cases v with
    | message n =>
      rw [Value.same_message] at h
      have hheld : ∀ f ∈ schema.fields, ∃ w, f.held n = some w ∧ (value f).same w = true := by
        intro f hf
        obtain ⟨w, hw, hsame⟩ := Schema.exists_get?_of_same_holding h hf
        exact ⟨w, by rw [Field.held, hw, Option.some_or], hsame⟩
      choose! other hother hsame using hheld
      rw [FieldType.normal, Schema.normal_of_held hother, Value.same_message,
        Schema.same_holding_iff hs.fieldNames_nodup]
      have hfields := fun f hf => ih f hf (hvalue f hf) (hsame f hf)
      exact ⟨⟨_, rfl, (Schema.conforms_iff hs.fieldNames_nodup).mpr
        ⟨_, rfl, fun f hf => (hfields f hf).1⟩⟩, fun f hf => (hfields f hf).2⟩
    | _ => simp [Value.same] at h

/-! ## One field, one message -/

/-- The object that is written has the members of the fields that are not
left out. -/
theorem Schema.encode_of {s : Schema} {m : Instance} {written : Field → Option Json}
    (hfields : ∀ f ∈ s.fields,
      f.encode compact m = .ok ((written f).map fun json => (f.name, json)).toList)
    (hkeys : ∀ name ∈ Entries.keys m.fields, name ∈ s.fieldNames) :
    s.encode compact m =
      .ok (.object (s.fields.filterMap fun f => (written f).map fun json => (f.name, json))) := by
  refine encode_eq_ok_iff.mpr
    ⟨s.fields.map fun f => ((written f).map fun json => (f.name, json)).toList, ?_, hkeys, ?_⟩
  · rw [List.filterMap_eq_flatMap_toList, List.flatMap_def]
  · rw [List.map_map]
    exact List.map_congr_left hfields

/-- A value read back: alike, and the same value unless defaults are left
out. -/
structure Value.Recovers (compact : Bool) (w v : Value) : Prop where
  alike : w.Alike v
  eq_of_full : compact = false → w = v

/-- A field of a message that is written as one member or none, and read
back as the given value from any object that has that member, or lacks
it. -/
def Field.Recovers (compact strict : Bool) (f : Field) (m : Instance) (target : Value) : Prop :=
  ∃ written w, f.encode compact m = .ok (written.map fun json => (f.name, json)).toList ∧
    (∀ members, Entries.get? members f.name = written →
      f.decode strict members = .ok (f.name, w)) ∧
    w.Recovers compact target

/-- **One field**, of whatever value it holds: it is left out and its
default comes back, or it is written and read. -/
theorem Field.recovers {f : Field} {m : Instance} {v target : Value} (hheld : f.held m = some v)
    (hvalue : (compact && f.isDefault v) = false → ∃ json w, f.type.encode compact v = .ok json ∧
      f.type.decode strict json = .ok w ∧ w.Recovers compact target)
    (hdefault : ∀ d, f.effectiveDefault = some d → d.same v = true → d.Alike target) :
    f.Recovers compact strict m target := by
  cases hleft : compact && f.isDefault v with
  | true =>
    obtain ⟨hcompact, hisDefault⟩ := Bool.and_eq_true_iff.mp hleft
    obtain ⟨d, hd, hsame⟩ := Field.isDefault_eq_true_iff.mp hisDefault
    have hwrites : f.encode compact m = .ok [] :=
      Field.encode_eq_ok_iff.mpr ⟨v, hheld, .inl ⟨hleft, rfl⟩⟩
    refine ⟨none, d, hwrites, fun members hmembers => ?_, ?_⟩
    · exact Field.decode_eq_ok_iff.mpr ⟨rfl, .inr ⟨hmembers, hd⟩⟩
    · exact ⟨hdefault d hd hsame, fun hfull => by simp [hfull] at hcompact⟩
  | false =>
    obtain ⟨json, w, hencode, hdecode, hw⟩ := hvalue hleft
    have hwrites : f.encode compact m = .ok [(f.name, json)] :=
      Field.encode_eq_ok_iff.mpr ⟨v, hheld, .inr ⟨hleft, json, hencode, rfl⟩⟩
    refine ⟨some json, w, hwrites, fun members hmembers => ?_, hw⟩
    exact Field.decode_eq_ok_iff.mpr ⟨rfl, .inl ⟨json, hmembers, hdecode⟩⟩

/-- **An object of the fields that are not left out reads back** as the
message of what each of them reads as. -/
theorem Schema.decode_written {schema : Schema} (hnodup : schema.fieldNames.Nodup)
    {written : Field → Option Json} {w : Field → Value}
    (hread : ∀ f ∈ schema.fields, ∀ members, Entries.get? members f.name = written f →
      f.decode strict members = .ok (f.name, w f)) :
    schema.decode strict (.object (schema.fields.filterMap fun f =>
      (written f).map fun json => (f.name, json))) = .ok (schema.holding w) := by
  refine Schema.decode_eq_ok_iff.mpr ⟨_, rfl, ?_, rfl, ?_⟩
  · -- only declared fields are written, so a strict reading has nothing to add
    refine Schema.undeclared_eq_nil fun key hkey => ?_
    obtain ⟨e, he, rfl⟩ := List.mem_map.mp hkey
    obtain ⟨f, hf, he⟩ := List.mem_filterMap.mp he
    obtain ⟨json, -, rfl⟩ := Option.map_eq_some_iff.mp he
    exact List.mem_map_of_mem hf
  · -- each field finds its own member in the object, or none, since names do not repeat
    rw [Schema.holding, List.map_map]
    refine List.map_congr_left fun f hf => ?_
    have hmember := Entries.get?_filterMap hnodup written hf
    exact hread f hf _ hmember

/-- **One message**, from its fields. -/
theorem Schema.exists_decode_encode {schema : Schema} (hnodup : schema.fieldNames.Nodup)
    (compact strict : Bool) {m : Instance} {target : Field → Value}
    (hkeys : ∀ name ∈ Entries.keys m.fields, name ∈ schema.fieldNames)
    (hfield : ∀ f ∈ schema.fields, f.Recovers compact strict m (target f)) :
    ∃ json n, schema.encode compact m = .ok json ∧ schema.decode strict json = .ok n ∧
      n.Alike (schema.holding target) ∧ (compact = false → n = schema.holding target) := by
  choose! written w hwritten hread hw using hfield
  refine ⟨_, schema.holding w, Schema.encode_of hwritten hkeys,
    Schema.decode_written hnodup hread, ?_, fun hfull => ?_⟩
  · exact Schema.alike_holding hnodup fun f hf => (hw f hf).alike
  · exact Schema.holding_congr fun f hf => (hw f hf).eq_of_full hfull

/-! ## Every type -/

theorem Scalar.Conforms.alike_self {s : Scalar} {v : Value} (h : s.Conforms v) : v.Alike v := by
  refine ⟨?_, rfl⟩
  cases h <;> simp [Value.same, Binary64.same]

/-- A scalar that is written reads back as its normal form. -/
theorem Scalar.decode_of_encode {s : Scalar} {v : Value} {json : Json} (h : s.encode v = .ok json) :
    s.decode json = .ok (s.normal v) := by
  unfold Scalar.encode at h
  split at h <;> cases h
  · rfl
  · next n =>
    have hlt : (Json.Whole.ofInt64 n).val < 2 ^ 63 := n.toInt_lt
    rw [Scalar.decode, Scalar.decodeInteger, if_pos hlt]
    simp [Json.Whole.ofInt64, Scalar.normal]
  · rfl
  · rfl
  · rfl

/-- A field that is written is recovered, once what its type writes is. -/
theorem FieldType.Built.recovers_field {f : Field} (ht : f.type.Built)
    (hdefault : ∀ d, f.effectiveDefault = some d → f.type.Conforms d)
    (ih : ∀ {v json}, f.type.encode compact v = .ok json → f.type.Conforms (f.type.normal v) ∧
      ∃ w, f.type.decode strict json = .ok w ∧ w.Recovers compact (f.type.normal v))
    {m : Instance} {members : List (String × Json)} (h : f.encode compact m = .ok members) :
    ∃ v, f.held m = some v ∧ f.type.Conforms (f.type.normal v) ∧
      f.Recovers compact strict m (f.type.normal v) := by
  obtain ⟨v, hheld, hcases⟩ := Field.encode_eq_ok_iff.mp h
  -- what equals the default stands for a value of the type that equals it
  have hequal : ∀ d, f.effectiveDefault = some d → d.same v = true →
      f.type.Conforms (f.type.normal v) ∧ d.Alike (f.type.normal v) := by
    intro d hd hsame
    obtain ⟨hconf, hnormal⟩ := ht.conforms_normal_of_same (hdefault d hd) hsame
    exact ⟨hconf, ht.alike_of_same (hdefault d hd) hconf hnormal⟩
  have hdefaults := fun d hd hsame => (hequal d hd hsame).2
  obtain ⟨hleft, -⟩ | ⟨-, json, hjson, -⟩ := hcases
  · obtain ⟨d, hd, hsame⟩ := Field.isDefault_eq_true_iff.mp (Bool.and_eq_true_iff.mp hleft).2
    refine ⟨v, hheld, (hequal d hd hsame).1, Field.recovers hheld (fun hkept => ?_) hdefaults⟩
    simp [hleft] at hkept
  · obtain ⟨hconf, w, hread, hw⟩ := ih hjson
    exact ⟨v, hheld, hconf, Field.recovers hheld (fun _ => ⟨json, w, hjson, hread, hw⟩) hdefaults⟩

/-- **Whatever is written reads back as its normal form**, which is a value
of the type. -/
theorem FieldType.Built.decode_of_encode {t : FieldType} (ht : t.Built) {v : Value} {json : Json}
    (h : t.encode compact v = .ok json) (strict : Bool) :
    t.Conforms (t.normal v) ∧
      ∃ w, t.decode strict json = .ok w ∧ w.Recovers compact (t.normal v) := by
  induction ht using FieldType.Built.induction generalizing v json with
  | scalar s =>
    have hread := Scalar.decode_of_encode (FieldType.encode_scalar_eq_ok_iff.mp h)
    have hconf := Scalar.conforms_of_decode hread
    exact ⟨hconf, s.normal v, FieldType.decode_scalar_eq_ok_iff.mpr hread, hconf.alike_self,
      fun _ => rfl⟩
  | list element _ ih =>
    obtain ⟨items, jsons, rfl, rfl, hjsons⟩ := FieldType.encode_list_eq_ok_iff.mp h
    have hitem : ∀ item ∈ items, ∃ json w, element.encode compact item = .ok json ∧
        element.Conforms (element.normal item) ∧ element.decode strict json = .ok w ∧
        w.Recovers compact (element.normal item) := by
      intro item hmem
      obtain ⟨json, -, hjson⟩ := List.mem_map.mp (hjsons ▸ List.mem_map_of_mem hmem)
      obtain ⟨hconf, w, hread, hw⟩ := ih hjson.symm
      exact ⟨json, w, hjson.symm, hconf, hread, hw⟩
    choose! json w hwrites hconf hread hw using hitem
    obtain rfl : items.map json = jsons := by
      refine (List.map_inj_right fun _ _ h => Except.ok.inj h).mp (.trans ?_ hjsons)
      rw [List.map_map]
      exact (List.map_congr_left hwrites).symm
    refine ⟨⟨_, rfl, List.forall_mem_map.mpr hconf⟩, .list (items.map w),
      FieldType.decode_list_eq_ok_iff.mpr ⟨_, _, rfl, rfl, ?_⟩,
      Value.alike_list_map fun item hmem => (hw item hmem).alike, fun hfull => ?_⟩
    · rw [List.map_map, List.map_map]
      exact List.map_congr_left hread
    · exact congrArg _ (List.map_congr_left fun item hmem => (hw item hmem).eq_of_full hfull)
  | optional inner _ ih =>
    by_cases hv : v = .null
    · subst hv
      rw [FieldType.encode_optional_null] at h
      obtain rfl := Except.ok.inj h
      rw [FieldType.normal_null]
      exact ⟨.inl rfl, .null, rfl, ⟨by simp [Value.same], rfl⟩, fun _ => rfl⟩
    · rw [FieldType.encode_optional hv] at h
      obtain ⟨hconf, w, hread, hw⟩ := ih h
      rw [FieldType.normal]
      refine ⟨.inr hconf, w, ?_, hw⟩
      by_cases hjson : json = .null
      · -- the inner type reads null as nothing but null
        subst hjson
        rw [FieldType.decode_optional_null, FieldType.eq_null_of_decode_null hread]
      · rw [FieldType.decode_optional hjson, hread]
  | message schema hs ih =>
    obtain ⟨m, rfl, -, hm⟩ := FieldType.encode_message_eq_ok_iff.mp h
    obtain ⟨written, rfl, hkeys, hwritten⟩ := Schema.encode_eq_ok_iff.mp hm
    have hfield : ∀ f ∈ schema.fields, ∃ v, f.held m = some v ∧ f.type.Conforms (f.type.normal v) ∧
        f.Recovers compact strict m (f.type.normal v) := by
      intro f hf
      obtain ⟨members, -, hmembers⟩ := List.mem_map.mp (hwritten ▸ List.mem_map_of_mem hf)
      exact (hs.fieldType hf).recovers_field (fun d hd => hs.conforms_effectiveDefault hf hd)
        (fun hjson => ih f hf hjson) hmembers.symm
    choose! value hheld hconf hrecovers using hfield
    obtain ⟨json, n, hencode, hread, halike, hfull⟩ :=
      Schema.exists_decode_encode hs.fieldNames_nodup compact strict hkeys hrecovers
    obtain rfl := Except.ok.inj (hencode.symm.trans hm)
    rw [FieldType.normal, Schema.normal_of_held hheld]
    exact ⟨⟨_, rfl, (Schema.conforms_iff hs.fieldNames_nodup).mpr ⟨_, rfl, hconf⟩⟩, .message n,
      FieldType.decode_message_eq_ok_iff.mpr ⟨n, hread, rfl⟩, Value.alike_message_iff.mpr halike,
      fun h => congrArg _ (hfull h)⟩

/-! ## Between the calls -/

/-- **What the serializer writes, the validator accepts**, in strict mode as
in the other, and gives an instance equal to the normal form of what was
written, with the fields in declared order. Without compact form it is the
normal form itself. In it an integer has become the number nearest to it,
which there is for each. -/
theorem Schema.Built.validate_of_serialize {s : Schema} (hs : s.Built) {config : Config}
    {x : Instance} {json : Json} (h : s.serialize config x = .ok json) (reading : Config) :
    (∃ y, s.validate reading json = .ok y ∧ y.same (s.normal x) = true ∧
      y.layout = (s.normal x).layout ∧ (config.compact = false → y = s.normal x)) ∧
    s.Conforms (s.normal x) ∧
    ∀ n : Int64, ∃ d, Scalar.normal .number (.integer n) = .number (.finite d) ∧
      d.IsNearest (n.toInt * Binary64.ticksPerUnit) 1 := by
  obtain ⟨hname, hencode⟩ := Schema.serialize_eq_ok_iff.mp h
  have hwrites : (FieldType.message s).encode config.compact (.message x) = .ok json :=
    FieldType.encode_message_eq_ok_iff.mpr ⟨x, rfl, hname, hencode⟩
  obtain ⟨⟨_, ⟨rfl⟩, hconf⟩, w, hread, hw⟩ :=
    (FieldType.Built.message hs).decode_of_encode hwrites reading.strict
  obtain ⟨y, hy, rfl⟩ := FieldType.decode_message_eq_ok_iff.mp hread
  have halike := Value.alike_message_iff.mp hw.alike
  refine ⟨⟨y, Schema.validate_eq_ok_iff.mpr hy, halike.same, halike.layout, fun hfull => ?_⟩, hconf,
    fun n => ?_⟩
  · exact Value.message.inj (hw.eq_of_full hfull)
  · have hlower := n.le_toInt
    have hupper := n.toInt_lt
    obtain ⟨d, hd, hnearest⟩ := Binary64.exists_isNearest_ofInt (by omega : n.toInt.natAbs < 2 ^ 65)
    exact ⟨d, by rw [Scalar.normal, hd], hnearest⟩

namespace Sample

/-- A route without its note, to a stop that has its fields the wrong way
round and waits for an integer. -/
def handBuilt : Instance :=
  ⟨"Route", [("stops", .list [.message ⟨"Stop",
    [("wait", .integer 3), ("name", .string "Delft")]⟩])]⟩

end Sample

theorem Schema.Built.validate_of_serialize_route :
    ∃ json, Sample.route.serialize Config.lenient Sample.handBuilt = .ok json ∧
      Sample.route.validate ⟨true, false⟩ json = .ok ⟨"Route", [("stops", .list [.message ⟨"Stop",
        [("name", .string "Delft"), ("wait", .number (Binary64.ofInt 3))]⟩]), ("note", .null)]⟩ := by
  have hwritten : ∃ json, Sample.route.serialize Config.lenient Sample.handBuilt = .ok json :=
    ⟨_, rfl⟩
  obtain ⟨json, hjson⟩ := hwritten
  obtain ⟨⟨y, hy, -, -, hfull⟩, -⟩ :=
    Schema.Built.validate_of_serialize Sample.route_built hjson ⟨true, false⟩
  obtain rfl := hfull rfl
  exact ⟨json, hjson, hy⟩

end ServiceContracts
