import ServiceContracts.Proofs.Json.Printed
import ServiceContracts.Proofs.Json.Unsigned
import ServiceContracts.Proofs.Schema.Building
import ServiceContracts.Proofs.Schema.FixedPoint
/-!
# What the compact form brings back

A field is left out in compact form when it equals its default, and
reading brings the default back. The two are equal and need not be the
same: a default of zero stands in for a zero of either sign.
`FieldType.restored` is the value that comes back, and
`Schema.Built.serialize_restored` says what this does to the text of a
payload: nothing but that such a zero has the sign of its default.
-/


namespace ServiceContracts

/-! ## The value that comes back -/

/-- The default that comes back in the place of a value, where the compact
form leaves the value out. -/
def Field.standIn (f : Field) (v : Value) : Option Value :=
  f.effectiveDefault.filter fun d => d.same v

theorem Field.isDefault_eq_isSome_standIn (f : Field) (v : Value) :
    f.isDefault v = (f.standIn v).isSome := by
  unfold isDefault standIn
  cases f.effectiveDefault with
  | none => rfl
  | some d => cases h : d.same v <;> simp [Option.filter, h]

theorem Field.standIn_eq_some_iff {f : Field} {v d : Value} :
    f.standIn v = some d ↔ f.effectiveDefault = some d ∧ d.same v = true :=
  Option.filter_eq_some_iff

mutual

/-- The value of a type that comes back for a value, out of its compact
form. A value that is not of the type's kind is left as it is. -/
def FieldType.restored : FieldType → Value → Value
  | .scalar _, v => v
  | .list element, v =>
    match v with
    | .list items => .list (items.map fun item => element.restored item)
    | v => v
  | .optional inner, v => inner.restored v
  | .message schema, v =>
    match v with
    | .message m => .message (schema.restored m)
    | v => v

/-- The message of a schema that comes back for a message. -/
def Schema.restored : Schema → Instance → Instance
  | ⟨name, _, fields⟩, m => ⟨name, Schema.restoredFields fields m⟩

/-- The entries for a list of fields. -/
def Schema.restoredFields : List Field → Instance → List (String × Value)
  | [], _ => []
  | f :: rest, m => (f.restored m).toList ++ Schema.restoredFields rest m

/-- The entry for a field: its default, if that stands in for what is held,
or else what comes back of it. -/
def Field.restored : Field → Instance → Option (String × Value)
  | ⟨name, type, default, doc⟩, m =>
    (Field.held ⟨name, type, default, doc⟩ m).map fun v =>
      (name, (Field.standIn ⟨name, type, default, doc⟩ v).getD (type.restored v))

end

theorem Field.restored_eq (f : Field) (m : Instance) :
    f.restored m = (f.held m).map fun v => (f.name, (f.standIn v).getD (f.type.restored v)) := by
  obtain ⟨name, type, default, doc⟩ := f
  rw [Field.restored]

theorem Schema.restoredFields_of_held {fields : List Field} {m : Instance} {value : Field → Value}
    (h : ∀ f ∈ fields, f.held m = some (value f)) :
    restoredFields fields m =
      fields.map fun f => (f.name, (f.standIn (value f)).getD (f.type.restored (value f))) := by
  induction fields with
  | nil => rw [restoredFields, List.map_nil]
  | cons f rest ih =>
    have hrest := ih fun g hg => h g (List.mem_cons_of_mem _ hg)
    rw [restoredFields, Field.restored_eq, h f (by simp), hrest]
    rfl

/-- A message of values comes back field by field. -/
theorem Schema.restored_holding {s : Schema} (hnodup : s.fieldNames.Nodup)
    (value : Field → Value) :
    s.restored (s.holding value) =
      s.holding fun f => (f.standIn (value f)).getD (f.type.restored (value f)) := by
  have hheld : ∀ f ∈ s.fields, f.held (s.holding value) = some (value f) :=
    fun f hf => Schema.held_holding hnodup hf
  obtain ⟨name, doc, fields⟩ := s
  rw [Schema.restored, Schema.restoredFields_of_held hheld]
  rfl

@[simp] theorem FieldType.restored_null (t : FieldType) : t.restored .null = .null := by
  induction t using FieldType.induction with
  | scalar s => rfl
  | list element _ => rfl
  | optional inner ih => rw [FieldType.restored, ih]
  | message schema _ => rfl

/-- One field comes back out of any object that has the member written of
it, or lacks it. -/
theorem Field.decode_restored {strict : Bool} {f : Field} {m : Instance} {v : Value}
    {written : Option Json} (hheld : f.held m = some v)
    (hwritten : f.encode true m = .ok (written.map fun json => (f.name, json)).toList)
    (hvalue : ∀ json, f.type.encode true v = .ok json →
      f.type.decode strict json = .ok (f.type.restored v))
    {members : List (String × Json)} (hmembers : Entries.get? members f.name = written) :
    f.decode strict members = .ok (f.name, (f.standIn v).getD (f.type.restored v)) := by
  refine Field.decode_eq_ok_iff.mpr ⟨rfl, ?_⟩
  obtain ⟨v', hv', hcases⟩ := Field.encode_eq_ok_iff.mp hwritten
  obtain rfl := Option.some.inj (hheld.symm.trans hv')
  rw [Bool.true_and, Field.isDefault_eq_isSome_standIn] at hcases
  obtain ⟨hleft, hnone⟩ | ⟨hkept, json, hjson, hsome⟩ := hcases
  · obtain ⟨d, hd⟩ := Option.isSome_iff_exists.mp hleft
    have habsent : written = none := by simpa using hnone
    rw [hd, Option.getD_some]
    exact .inr ⟨hmembers.trans habsent, (Field.standIn_eq_some_iff.mp hd).1⟩
  · have hnone : f.standIn v = none := by simpa using hkept
    have hpresent : written = some json := by simpa using hsome
    rw [hnone, Option.getD_none]
    exact .inl ⟨json, hmembers.trans hpresent, hvalue json hjson⟩

/-- **What comes back of a value of the type**, out of its compact form. -/
theorem FieldType.Built.decode_of_compact {t : FieldType} (ht : t.Built) {v : Value} {json : Json}
    (hv : t.Conforms v) (h : t.encode true v = .ok json) (strict : Bool) :
    t.decode strict json = .ok (t.restored v) := by
  induction ht using FieldType.Built.induction generalizing v json with
  | scalar s =>
    have hread := Scalar.decode_of_encode (FieldType.encode_scalar_eq_ok_iff.mp h)
    have hself : s.normal v = v := (FieldType.Built.scalar s).normal_of_conforms hv
    rw [FieldType.decode_scalar_eq_ok_iff, hread, hself, FieldType.restored]
  | list element _ ih =>
    obtain ⟨items, rfl, hitems⟩ := hv
    obtain ⟨items', jsons, heq, rfl, hwritten⟩ := FieldType.encode_list_eq_ok_iff.mp h
    obtain rfl := Value.list.inj heq
    have hitem : ∀ item ∈ items, ∃ json, element.encode true item = .ok json ∧
        element.decode strict json = .ok (element.restored item) := by
      intro item hmem
      obtain ⟨json, -, hjson⟩ := List.mem_map.mp (hwritten ▸ List.mem_map_of_mem hmem)
      exact ⟨json, hjson.symm, ih (hitems item hmem) hjson.symm⟩
    choose! json hencode hread using hitem
    obtain rfl : items.map json = jsons := by
      refine (List.map_inj_right fun _ _ h => Except.ok.inj h).mp (.trans ?_ hwritten)
      rw [List.map_map]
      exact (List.map_congr_left hencode).symm
    refine FieldType.decode_list_eq_ok_iff.mpr ⟨_, _, rfl, rfl, ?_⟩
    rw [List.map_map, List.map_map]
    exact List.map_congr_left hread
  | optional inner _ ih =>
    rw [FieldType.restored]
    by_cases hnull : v = .null
    · subst hnull
      obtain rfl := Except.ok.inj h
      rw [FieldType.decode_optional_null, FieldType.restored_null]
    · rw [FieldType.encode_optional hnull] at h
      have hread := ih (hv.resolve_left hnull) h
      by_cases hjson : json = .null
      · -- the inner type reads null as nothing but null
        subst hjson
        rw [FieldType.decode_optional_null, FieldType.eq_null_of_decode_null hread]
      · rw [FieldType.decode_optional hjson, hread]
  | message schema hs ih =>
    obtain ⟨m, rfl, hm⟩ := hv
    obtain ⟨value, rfl, hvalue⟩ := (Schema.conforms_iff hs.fieldNames_nodup).mp hm
    obtain ⟨m', heq, -, hwrites⟩ := FieldType.encode_message_eq_ok_iff.mp h
    obtain rfl := Value.message.inj heq
    obtain ⟨written, hwritten, rfl⟩ := Schema.exists_written hwrites
    rw [FieldType.restored, Schema.restored_holding hs.fieldNames_nodup]
    refine FieldType.decode_message_eq_ok_iff.mpr
      ⟨_, Schema.decode_written hs.fieldNames_nodup fun f hf members hmembers => ?_, rfl⟩
    exact Field.decode_restored (Schema.held_holding hs.fieldNames_nodup hf) (hwritten f hf)
      (fun json hjson => ih f hf (hvalue f hf) hjson) hmembers

/-! ## Equal values in full -/

/-- Equal scalars are written the same but for the sign of zero. -/
theorem Scalar.Conforms.unsigned_encode_of_same {s : Scalar} {v w : Value} (hv : s.Conforms v)
    (hw : s.Conforms w) (h : v.same w = true) {j k : Json} (hj : s.encode v = .ok j)
    (hk : s.encode w = .ok k) : j.unsigned = k.unsigned := by
  cases hv <;> cases hw <;> cases hj <;> cases hk
  case number.number x y =>
    rw [Value.same] at h
    simp only [Json.unsigned, Json.Number.unsigned, Binary64.Finite.same_iff.mp h]
  all_goals
    simp only [Value.same, beq_iff_eq] at h
    rw [h]

/-- In full no field is left out. -/
theorem Field.exists_written_of_full {f : Field} {m : Instance} {v : Value} {written : Option Json}
    (hheld : f.held m = some v)
    (h : f.encode false m = .ok (written.map fun json => (f.name, json)).toList) :
    ∃ json, written = some json ∧ f.type.encode false v = .ok json := by
  obtain ⟨v', hv', ⟨hleft, -⟩ | ⟨-, json, hjson, hsome⟩⟩ := Field.encode_eq_ok_iff.mp h
  · simp at hleft
  · obtain rfl := Option.some.inj (hheld.symm.trans hv')
    exact ⟨json, by simpa using hsome, hjson⟩

/-- **Equal values of a type are written in full the same** but for the sign
of zeros. -/
theorem FieldType.Built.unsigned_encode_of_same {t : FieldType} (ht : t.Built) {v w : Value}
    (hv : t.Conforms v) (hw : t.Conforms w) (h : v.same w = true) {j k : Json}
    (hj : t.encode false v = .ok j) (hk : t.encode false w = .ok k) : j.unsigned = k.unsigned := by
  induction ht using FieldType.Built.induction generalizing v w j k with
  | scalar s =>
    exact Scalar.Conforms.unsigned_encode_of_same hv hw h
      (FieldType.encode_scalar_eq_ok_iff.mp hj) (FieldType.encode_scalar_eq_ok_iff.mp hk)
  | list element _ ih =>
    obtain ⟨items, rfl, hitems⟩ := hv
    obtain ⟨others, rfl, hothers⟩ := hw
    obtain ⟨items', jsons, heq, rfl, hjsons⟩ := FieldType.encode_list_eq_ok_iff.mp hj
    obtain rfl := Value.list.inj heq
    obtain ⟨others', others'', heq, rfl, hwritten⟩ := FieldType.encode_list_eq_ok_iff.mp hk
    obtain rfl := Value.list.inj heq
    rw [Value.same_list, Value.itemsSame_iff, List.forall₂_iff_get] at h
    rw [List.ext_getElem_iff] at hjsons hwritten
    simp only [List.length_map, List.getElem_map] at hjsons hwritten
    simp only [Json.unsigned, Json.unsignedItems_eq_map, Json.array.injEq]
    refine List.ext_getElem (by simp; omega) fun i hi hi' => ?_
    simp only [List.length_map, List.getElem_map] at hi hi' ⊢
    exact ih (hitems _ (List.getElem_mem _)) (hothers _ (List.getElem_mem _))
      (h.2 i (by omega) (by omega)) (hjsons.2 i (by omega) hi) (hwritten.2 i (by omega) hi')
  | optional inner _ ih =>
    by_cases hnull : v = .null
    · subst hnull
      obtain rfl := Value.eq_null_of_same h
      rw [Except.ok.inj (hj.symm.trans hk)]
    · have hnull' : w ≠ .null := by
        rintro rfl
        cases v <;> simp_all [Value.same]
      rw [FieldType.encode_optional hnull] at hj
      rw [FieldType.encode_optional hnull'] at hk
      exact ih (hv.resolve_left hnull) (hw.resolve_left hnull') h hj hk
  | message schema hs ih =>
    have hnodup := hs.fieldNames_nodup
    obtain ⟨m, rfl, hm⟩ := hv
    obtain ⟨n, rfl, hn⟩ := hw
    obtain ⟨value, rfl, hvalue⟩ := (Schema.conforms_iff hnodup).mp hm
    obtain ⟨other, rfl, hother⟩ := (Schema.conforms_iff hnodup).mp hn
    obtain ⟨m', heq, -, hm⟩ := FieldType.encode_message_eq_ok_iff.mp hj
    obtain rfl := Value.message.inj heq
    obtain ⟨n', heq, -, hn⟩ := FieldType.encode_message_eq_ok_iff.mp hk
    obtain rfl := Value.message.inj heq
    obtain ⟨written, hwritten, rfl⟩ := Schema.exists_written hm
    obtain ⟨written', hwritten', rfl⟩ := Schema.exists_written hn
    rw [Value.same_message, Schema.same_holding_iff hnodup] at h
    simp only [Json.unsigned, Json.unsignedMembers_eq_map, List.map_filterMap, Json.object.injEq]
    refine List.filterMap_congr fun f hf => ?_
    obtain ⟨json, hjson, hencode⟩ :=
      Field.exists_written_of_full (Schema.held_holding hnodup hf) (hwritten f hf)
    obtain ⟨json', hjson', hencode'⟩ :=
      Field.exists_written_of_full (Schema.held_holding hnodup hf) (hwritten' f hf)
    have hunsigned := ih f hf (hvalue f hf) (hother f hf) (h f hf) hencode hencode'
    simp only [hjson, hjson', Option.map_some, hunsigned]

/-! ## The text of a payload -/

/-- Validating is reading a message. -/
theorem Schema.validate_eq_ok_iff_decode {s : Schema} {config : Config} {payload : Json}
    {m : Instance} : s.validate config payload = .ok m ↔
      (FieldType.message s).decode config.strict payload = .ok (.message m) := by
  simp [Schema.validate_eq_ok_iff, FieldType.decode_message_eq_ok_iff]

/-- Serializing is writing a message. -/
theorem Schema.serialize_eq_ok_iff_encode {s : Schema} {config : Config} {m : Instance}
    {json : Json} : s.serialize config m = .ok json ↔
      (FieldType.message s).encode config.compact (.message m) = .ok json := by
  simp [Schema.serialize_eq_ok_iff, FieldType.encode_message_eq_ok_iff]

/-- **Compact form costs a payload no more than the sign of a zero.** What
validates is written compactly, and out of that the restored instance
validates. Written in full, the two are the same JSON value but for the
sign of zeros, and the same text exactly when the restored instance is the
first one. -/
theorem Schema.Built.serialize_restored {s : Schema} (hs : s.Built) {config : Config}
    {payload : Json} {x : Instance} (hx : s.validate config payload = .ok x) (strict : Bool)
    (reading : Config) :
    ∃ short full again, s.serialize ⟨strict, true⟩ x = .ok short ∧
      s.validate reading short = .ok (s.restored x) ∧ s.serialize ⟨strict, false⟩ x = .ok full ∧
      s.serialize ⟨strict, false⟩ (s.restored x) = .ok again ∧ again.unsigned = full.unsigned ∧
      (again.compact = full.compact ↔ s.restored x = x) := by
  have ht := FieldType.Built.message hs
  obtain ⟨short, y, hshort, hy, hsame, -⟩ :=
    hs.validate_serialize_validate config ⟨strict, true⟩ reading hx
  obtain ⟨full, -, hfull, -⟩ := hs.validate_serialize_validate config ⟨strict, false⟩ reading hx
  obtain ⟨again, -, hagain, -⟩ := hs.validate_serialize_validate reading ⟨strict, false⟩ reading hy
  have hconf : ∀ {config p m}, s.validate config p = .ok m →
      (FieldType.message s).Conforms (.message m) :=
    fun h => ht.conforms_of_decode (Schema.validate_eq_ok_iff_decode.mp h)
  obtain rfl : y = s.restored x := by
    have hread := ht.decode_of_compact (hconf hx) (Schema.serialize_eq_ok_iff_encode.mp hshort)
      reading.strict
    rw [Schema.validate_eq_ok_iff_decode.mp hy, FieldType.restored] at hread
    exact Value.message.inj (Except.ok.inj hread)
  have hunsigned : again.unsigned = full.unsigned :=
    ht.unsigned_encode_of_same (hconf hy) (hconf hx) (Value.same_message.trans hsame)
      (Schema.serialize_eq_ok_iff_encode.mp hagain) (Schema.serialize_eq_ok_iff_encode.mp hfull)
  refine ⟨short, full, again, hshort, hy, hfull, hagain, hunsigned, ?_⟩
  rw [Json.compact_inj]
  constructor
  · rintro rfl
    -- one text reads back as one instance, and in full that is the one that was written
    have hread := ht.decode_full (Schema.serialize_eq_ok_iff_encode.mp hagain) true
    rw [ht.decode_full (Schema.serialize_eq_ok_iff_encode.mp hfull),
      ht.normal_of_conforms (hconf hx), ht.normal_of_conforms (hconf hy)] at hread
    exact (Value.message.inj (Except.ok.inj hread)).symm
  · intro hx
    rw [hx, hfull] at hagain
    exact (Except.ok.inj hagain).symm

namespace Sample

/-- A stop at Delft, which waits for one of the zeros. -/
def stopAtDelft (wait : Binary64.Finite) : Instance :=
  ⟨"Stop", [("name", .string "Delft"), ("wait", .number (.finite wait))]⟩

/-- The same stop in full. -/
def stopAtDelftJson (wait : Binary64.Finite) : Json :=
  .object [("name", .string "Delft"), ("wait", .number (.double wait))]

/-- A route with such a stop. -/
def routeToDelft (wait : Binary64.Finite) : Instance :=
  ⟨"Route", [("stops", .list [.message (stopAtDelft wait), .null]), ("note", .null)]⟩

end Sample

/-- The stop of the route waits for minus zero. In compact form it does
without, and comes back with the zero of its default. -/
theorem Schema.Built.serialize_restored_route :
    ∃ short full again,
      Sample.route.serialize ⟨true, true⟩ (Sample.routeToDelft Binary64.Finite.zero.neg) =
        .ok short ∧
      short = .object [("stops", .array [.object [("name", .string "Delft")], .null])] ∧
      Sample.route.validate ⟨true, false⟩ short = .ok (Sample.routeToDelft .zero) ∧
      Sample.route.serialize ⟨true, false⟩ (Sample.routeToDelft Binary64.Finite.zero.neg) =
        .ok full ∧
      Sample.route.serialize ⟨true, false⟩ (Sample.routeToDelft .zero) = .ok again ∧
      again.unsigned = full.unsigned ∧ again.compact ≠ full.compact := by
  have hread : Sample.route.validate Config.lenient Sample.delft =
      .ok (Sample.routeToDelft Binary64.Finite.zero.neg) := rfl
  have hrestored : Sample.route.restored (Sample.routeToDelft Binary64.Finite.zero.neg) =
      Sample.routeToDelft .zero := by
    with_unfolding_all rfl
  obtain ⟨short, full, again, hshort, hy, hfull, hagain, hunsigned, htext⟩ :=
    Schema.Built.serialize_restored Sample.route_built hread true ⟨true, false⟩
  rw [hrestored] at hy hagain htext
  refine ⟨short, full, again, hshort, ?_, hy, hfull, hagain, hunsigned, ?_⟩
  · exact Except.ok.inj (hshort.symm.trans (by with_unfolding_all rfl))
  · rw [Ne, htext]
    simp [Sample.routeToDelft, Sample.stopAtDelft, Binary64.Finite.zero, Binary64.Finite.neg]

/-- A stop that waits for minus zero is written with another text once it
has been through its compact form. -/
theorem Schema.Built.compact_ne_of_minusZero :
    Sample.stop.Built ∧ ∃ x short y again full,
      Sample.stop.validate Config.lenient (Sample.stopAtDelftJson Binary64.Finite.zero.neg) =
        .ok x ∧
      Sample.stop.serialize ⟨false, true⟩ x = .ok short ∧
      Sample.stop.validate Config.lenient short = .ok y ∧
      Sample.stop.serialize ⟨false, false⟩ y = .ok again ∧
      Sample.stop.serialize ⟨false, false⟩ x = .ok full ∧
      again.compact = "\x7b\"name\":\"Delft\",\"wait\":0.0\x7d" ∧
      full.compact = "\x7b\"name\":\"Delft\",\"wait\":-0.0\x7d" ∧
      again.compact ≠ full.compact := by
  refine ⟨Sample.stop_built, Sample.stopAtDelft Binary64.Finite.zero.neg,
    .object [("name", .string "Delft")], Sample.stopAtDelft .zero,
    Sample.stopAtDelftJson .zero, Sample.stopAtDelftJson Binary64.Finite.zero.neg,
    rfl, ?_, rfl, rfl, rfl, ?_, ?_, ?_⟩
  · with_unfolding_all rfl
  · decide
  · decide
  · decide

end ServiceContracts
