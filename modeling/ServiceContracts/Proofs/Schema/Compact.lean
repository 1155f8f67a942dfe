import ServiceContracts.Proofs.Schema.RoundTrip
import ServiceContracts.Proofs.Schema.Sameness
/-!
# Compact and full form

In compact form a field that holds its default is left out, and so it is
not checked either. Nothing is lost by that: a default can be written, and
so can whatever equals it (`FieldType.Built.exists_encode_of_same`). So to
write compactly is to write in full and to take out the members of the
fields that their defaults imply, at every depth
(`FieldType.Built.encode_compact`). That is an equation between results,
so both forms have the same offenses.
-/


namespace ServiceContracts

/-! ## What the compact form leaves out -/

/-- Does the default of a field say all that an instance holds for it? It
does where the instance holds nothing for the field, or an equal value. -/
def Field.isImplied (f : Field) (m : Instance) : Bool :=
  match m.get? f.name, f.effectiveDefault with
  | _, none => false
  | none, some _ => true
  | some v, some d => d.same v

mutual

/-- The JSON of a value in full, without the members of implied fields. -/
def FieldType.trimmed : FieldType → Value → Json → Json
  | .scalar _, _, json => json
  | .optional inner, v, json => inner.trimmed v json
  | .list element, v, json =>
    match v, json with
    | .list items, .array jsons =>
      .array (List.zipWith (fun item json => element.trimmed item json) items jsons)
    | _, json => json
  | .message schema, v, json =>
    match v with
    | .message m => schema.trimmed m json
    | _ => json

/-- The JSON of an instance in full, without the members of implied
fields. -/
def Schema.trimmed : Schema → Instance → Json → Json
  | ⟨_, _, fields⟩, m, json =>
    match json with
    | .object members =>
      .object (members.filterMap fun e =>
        (Schema.trimmedMember fields m e.1 e.2).map fun json => (e.1, json))
    | json => json

/-- What is left of a member, which is that of the field with its key. -/
def Schema.trimmedMember : List Field → Instance → String → Json → Option Json
  | [], _, _, json => some json
  | f :: rest, m, key, json =>
    if f.name = key then f.trimmed m json else Schema.trimmedMember rest m key json

/-- What is left of the member of a field: nothing where the field is
implied. -/
def Field.trimmed : Field → Instance → Json → Option Json
  | ⟨name, type, default, doc⟩, m, json =>
    if Field.isImplied ⟨name, type, default, doc⟩ m then none
    else
      match m.get? name with
      | some v => some (type.trimmed v json)
      | none => some json

end

variable {compact : Bool}

theorem Field.trimmed_eq (f : Field) (m : Instance) (json : Json) :
    f.trimmed m json =
      if f.isImplied m then none
      else match m.get? f.name with
        | some v => some (f.type.trimmed v json)
        | none => some json := by
  obtain ⟨name, type, default, doc⟩ := f
  rw [Field.trimmed]

@[simp] theorem FieldType.trimmed_null (t : FieldType) (json : Json) :
    t.trimmed .null json = json := by
  induction t using FieldType.induction with
  | scalar s => rfl
  | list element _ => rfl
  | optional inner ih => exact ih
  | message schema _ => rfl

namespace Schema

/-- The members that are left of an object. -/
def trimmedMembers (fields : List Field) (m : Instance) (members : List (String × Json)) :
    List (String × Json) :=
  members.filterMap fun e => (trimmedMember fields m e.1 e.2).map fun json => (e.1, json)

/-- Among distinct names a member is that of its own field. -/
theorem trimmedMember_name {fields : List Field} (hnodup : (fields.map Field.name).Nodup)
    {f : Field} (hf : f ∈ fields) (m : Instance) (json : Json) :
    trimmedMember fields m f.name json = f.trimmed m json := by
  induction fields with
  | nil => cases hf
  | cons g rest ih =>
    obtain ⟨hnew, hrest⟩ : g.name ∉ rest.map Field.name ∧ _ := List.nodup_cons.mp hnodup
    rw [trimmedMember]
    rcases List.mem_cons.mp hf with rfl | hf
    · rw [if_pos rfl]
    · have hother : g.name ≠ f.name := fun heq => hnew (heq ▸ List.mem_map_of_mem hf)
      rw [if_neg hother, ih hrest hf]

end Schema

/-! ## What equals a value that can be written -/

/-- Each item of a list that equals another has its counterpart there. -/
theorem Value.exists_same_of_itemsSame {items others : List Value}
    (h : itemsSame items others = true) : ∀ w ∈ others, ∃ v ∈ items, v.same w = true := by
  induction items generalizing others with
  | nil => cases others <;> simp_all [itemsSame]
  | cons a rest ih =>
    cases others with
    | nil => simp
    | cons b others =>
      rw [itemsSame, Bool.and_eq_true] at h
      obtain ⟨hfirst, hrest⟩ := h
      refine List.forall_mem_cons.mpr ⟨⟨a, List.mem_cons_self, hfirst⟩, fun w hw => ?_⟩
      obtain ⟨v, hv, hsame⟩ := ih hrest w hw
      exact ⟨v, List.mem_cons_of_mem _ hv, hsame⟩

/-- What equals a message of a schema has no field besides. -/
theorem Schema.declared_of_same_holding {s : Schema} (hnodup : s.fieldNames.Nodup)
    {value : Field → Value} {n : Instance} (h : (s.holding value).same n = true) :
    ∀ name ∈ Entries.keys n.fields, name ∈ s.fieldNames := by
  have hkeys : Entries.keys (s.holding value).fields = s.fieldNames := Entries.keys_map ..
  have hperm := Instance.keys_perm_of_same (hkeys ▸ hnodup) h
  rw [hkeys] at hperm
  exact fun name hname => hperm.mem_iff.mpr hname

/-- **What equals a value of the type can be written**, in either form,
however its fields are ordered. -/
theorem FieldType.Built.exists_encode_of_same {t : FieldType} (ht : t.Built) {d v : Value}
    (hd : t.Conforms d) (h : d.same v = true) : ∃ json, t.encode compact v = .ok json := by
  induction ht using FieldType.Built.induction generalizing d v with
  | scalar s =>
    have hv : (FieldType.scalar s).Conforms v := (Scalar.Conforms.normal_of_same hd h).2
    exact (FieldType.Built.scalar s).exists_encode hv compact
  | list element _ ih =>
    obtain ⟨items, rfl, hitems⟩ := hd
    cases v with
    | list others =>
      have hitem : ∀ item ∈ others, ∃ json, element.encode compact item = .ok json := by
        intro item hmem
        obtain ⟨a, ha, hsame⟩ := Value.exists_same_of_itemsSame (Value.same_list ▸ h) item hmem
        exact ih (hitems a ha) hsame
      choose! json hjson using hitem
      refine ⟨_, FieldType.encode_list_eq_ok_iff.mpr ⟨others, others.map json, rfl, rfl, ?_⟩⟩
      rw [List.map_map]
      exact List.map_congr_left hjson
    | _ => simp [Value.same] at h
  | optional inner _ ih =>
    by_cases hnull : v = .null
    · exact ⟨.null, by rw [hnull, FieldType.encode_optional_null]⟩
    · rw [FieldType.encode_optional hnull]
      refine ih (hd.resolve_left ?_) h
      rintro rfl
      exact hnull (Value.eq_null_of_same h)
  | message schema hs ih =>
    obtain ⟨m, rfl, hm⟩ := hd
    obtain ⟨value, rfl, hvalue⟩ := (Schema.conforms_iff hs.fieldNames_nodup).mp hm
    cases v with
    | message n =>
      rw [Value.same_message] at h
      have hfield : ∀ f ∈ schema.fields, ∃ written, f.encode compact n = .ok written := by
        intro f hf
        obtain ⟨w, hw, hsame⟩ := Schema.exists_get?_of_same_holding h hf
        obtain ⟨json, hjson⟩ := ih f hf (hvalue f hf) hsame
        exact Field.exists_encode (by rw [Field.held, hw, Option.some_or]) hjson
      choose! written hwritten using hfield
      have hencode : schema.encode compact n =
          .ok (.object (schema.fields.map written).flatten) := by
        refine Schema.encode_eq_ok_iff.mpr
          ⟨_, rfl, Schema.declared_of_same_holding hs.fieldNames_nodup h, ?_⟩
        rw [List.map_map]
        exact List.map_congr_left hwritten
      have hname : n.schema = schema.name := (Instance.same_iff.mp h).1.symm
      exact ⟨_, FieldType.encode_message_eq_ok_iff.mpr ⟨n, rfl, hname, hencode⟩⟩
    | _ => simp [Value.same] at h

/-! ## Results with something taken out -/

namespace Checked

variable {α β γ δ : Type}

theorem under_map (f : α → β) (c : Checked α) (step : Step) :
    under step (c.map f) = (c.under step).map f := by
  cases c <;> rfl

theorem both_map (f : α → γ) (g : β → δ) (c : Checked α) (d : Checked β) :
    both (c.map f) (d.map g) = (both c d).map (Prod.map f g) := by
  cases c <;> cases d <;> rfl

theorem map_map (f : α → β) (g : β → γ) (c : Checked α) : (c.map f).map g = c.map (g ∘ f) := by
  cases c <;> rfl

theorem all_mapIdx_map {check : Nat → α → Checked β} {f : α → β → γ} {items : List α} :
    all (items.mapIdx fun i item => (check i item).map (f item)) =
      (all (items.mapIdx check)).map (List.zipWith f items) := by
  induction items generalizing check with
  | nil => rfl
  | cons a rest ih =>
    rw [List.mapIdx_cons, List.mapIdx_cons, all, all, ih, both_map, map_map, map_map]
    rfl

end Checked

/-! ## The compact form from the full one -/

namespace Field

variable {f : Field} {m : Instance}

/-- A field that holds something is implied when that is its default. -/
theorem isImplied_eq_isDefault {v : Value} (hself : ∀ d, f.effectiveDefault = some d → d.same d)
    (h : f.held m = some v) : f.isImplied m = f.isDefault v := by
  unfold held at h
  unfold isImplied isDefault
  cases hget : m.get? f.name with
  | some w =>
    obtain rfl : w = v := by simpa [hget] using h
    cases f.effectiveDefault <;> rfl
  | none =>
    -- the default stands in for what is absent, and equals itself
    have hd : f.effectiveDefault = some v := by simpa [hget] using h
    simp [hd, hself v hd]

/-- So what is held for the others stands in the instance. -/
theorem get?_of_isImplied_eq_false {v : Value} (himplied : f.isImplied m = false)
    (h : f.held m = some v) : m.get? f.name = some v := by
  unfold held at h
  unfold isImplied at himplied
  cases hget : m.get? f.name with
  | some w => simpa [hget] using h
  | none =>
    have hd : f.effectiveDefault = some v := by simpa [hget] using h
    simp [hget, hd] at himplied

end Field

/-- **One field**, from its type. -/
theorem Schema.Built.encode_field_compact {s : Schema} (hs : s.Built) {f : Field}
    (hf : f ∈ s.fields)
    (ih : ∀ v, f.type.encode true v = (f.type.encode false v).map (f.type.trimmed v))
    (m : Instance) :
    f.encode true m = (f.encode false m).map (trimmedMembers s.fields m) := by
  have hmember : ∀ json, trimmedMembers s.fields m [(f.name, json)] =
      ((f.trimmed m json).map fun json => (f.name, json)).toList := by
    intro json
    rw [trimmedMembers, List.filterMap_cons, trimmedMember_name hs.fieldNames_nodup hf]
    cases f.trimmed m json <;> rfl
  have hdefault := fun d hd => hs.conforms_effectiveDefault (v := d) hf hd
  cases hheld : f.held m with
  | none =>
    rw [Field.encode_of_held_none hheld, Field.encode_of_held_none hheld]
    rfl
  | some v =>
    have himplied : f.isImplied m = f.isDefault v :=
      Field.isImplied_eq_isDefault
        (fun d hd => (hs.fieldType hf).value_same_self (hdefault d hd)) hheld
    rw [Field.encode_of_held hheld, Field.encode_of_held hheld, ← Checked.under_map]
    refine congrArg (Checked.under _) ?_
    cases hleft : f.isDefault v with
    | true =>
      -- what is left out could have been written
      obtain ⟨d, hd, hsame⟩ := Field.isDefault_eq_true_iff.mp hleft
      obtain ⟨json, hjson⟩ : ∃ json, f.type.encode false v = .ok json :=
        (hs.fieldType hf).exists_encode_of_same (hdefault d hd) hsame
      simp [hjson, Except.map, hmember, Field.trimmed_eq, himplied, hleft]
    | false =>
      have hget := Field.get?_of_isImplied_eq_false (himplied.trans hleft) hheld
      have hkept : ∀ json, trimmedMembers s.fields m [(f.name, json)] =
          [(f.name, f.type.trimmed v json)] := by
        intro json
        simp [hmember, Field.trimmed_eq, himplied, hleft, hget]
      simp only [Bool.and_false, Bool.false_eq_true, if_false, ih, Checked.map_map]
      exact congrArg (fun k => Except.map k (f.type.encode false v))
        (funext fun json => (hkept json).symm)

/-- **One schema**, from its fields. -/
theorem Schema.Built.encode_compact_of_fields {s : Schema} (hs : s.Built)
    (ih : ∀ f ∈ s.fields, ∀ v,
      f.type.encode true v = (f.type.encode false v).map (f.type.trimmed v))
    (m : Instance) : s.encode true m = (s.encode false m).map (s.trimmed m) := by
  have hfield := fun f hf => hs.encode_field_compact (f := f) hf (ih f hf) m
  obtain ⟨name, doc, fields⟩ := s
  have hfields : ∀ part : List Field, (∀ f ∈ part, f ∈ fields) →
      encodeFields true part m =
        (encodeFields false part m).map (List.map (trimmedMembers fields m)) := by
    intro part hpart
    induction part with
    | nil => rfl
    | cons f rest ihrest =>
      obtain ⟨hf, hrest⟩ := List.forall_mem_cons.mp hpart
      rw [encodeFields, encodeFields, hfield f hf, ihrest hrest, Checked.both_map,
        Checked.map_map, Checked.map_map]
      rfl
  have hkeep : (Checked.ofOffenses (surplus fields m.fields)).map id =
      Checked.ofOffenses (surplus fields m.fields) := by
    cases Checked.ofOffenses (surplus fields m.fields) <;> rfl
  rw [Schema.encode, Schema.encode, hfields fields fun _ hf => hf]
  rw [← hkeep, Checked.both_map, Checked.map_map, Checked.map_map, hkeep]
  refine congrArg (fun k => Except.map k _) (funext fun p => ?_)
  simp only [Function.comp_apply, Prod.map_fst, Schema.trimmed]
  rw [← trimmedMembers, trimmedMembers, List.filterMap_flatten]
  rfl

/-- **To write compactly is to write in full and to trim**: there are the
same offenses, or what is left of the full form. -/
theorem FieldType.Built.encode_compact {t : FieldType} (ht : t.Built) (v : Value) :
    t.encode true v = (t.encode false v).map (t.trimmed v) := by
  induction ht using FieldType.Built.induction generalizing v with
  | scalar s =>
    rw [FieldType.encode, FieldType.encode]
    cases s.encode v <;> rfl
  | list element _ ih =>
    cases v with
    | list items =>
      simp only [FieldType.encode, ih, Checked.under_map, Checked.all_mapIdx_map, Checked.map_map]
      rfl
    | _ => rfl
  | optional inner _ ih =>
    by_cases hnull : v = .null
    · subst hnull
      simp [Except.map]
    · rw [FieldType.encode_optional hnull, FieldType.encode_optional hnull, ih]
      rfl
  | message schema hs ih =>
    cases v with
    | message m =>
      rw [FieldType.encode, FieldType.encode]
      split
      · rw [hs.encode_compact_of_fields ih]
        rfl
      · rfl
    | _ => rfl

/-- And so for a schema. -/
theorem Schema.Built.encode_compact {s : Schema} (hs : s.Built) (m : Instance) :
    s.encode true m = (s.encode false m).map (s.trimmed m) :=
  hs.encode_compact_of_fields (fun _ hf => (hs.fieldType hf).encode_compact) m

/-! ## Between the calls -/

/-- **Compact and full serialization differ by implied members only.** Both
refuse an instance with the same error, whatever it is. What the compact
form gives is the full form without the members of implied fields, at
every depth. And a reading of the one gives an instance equal to what a
reading of the other gives, with its fields in the same order. -/
theorem Schema.Built.serialize_compact {s : Schema} (hs : s.Built) (strict strict' : Bool)
    (x : Instance) :
    (∀ e, s.serialize ⟨strict, true⟩ x = .error e ↔ s.serialize ⟨strict', false⟩ x = .error e) ∧
    ∀ full, s.serialize ⟨strict', false⟩ x = .ok full →
      s.serialize ⟨strict, true⟩ x = .ok (s.trimmed x full) ∧
      ∀ reading reading', ∃ y z, s.validate reading (s.trimmed x full) = .ok y ∧
        s.validate reading' full = .ok z ∧ y.same z = true ∧ y.layout = z.layout := by
  have hserialize : s.serialize ⟨strict, true⟩ x =
      (s.serialize ⟨strict', false⟩ x).map (s.trimmed x) := by
    unfold Schema.serialize
    split
    · rw [hs.encode_compact x]
      cases s.encode false x <;> rfl
    · rfl
  refine ⟨fun e => ?_, fun full hfull => ?_⟩
  · rw [hserialize]
    cases s.serialize ⟨strict', false⟩ x <;> simp [Except.map]
  · have hcompact : s.serialize ⟨strict, true⟩ x = .ok (s.trimmed x full) := by
      rw [hserialize, hfull]
      rfl
    refine ⟨hcompact, fun reading reading' => ?_⟩
    -- both are read back as the normal form of the instance, the full form to the letter
    have hread : ∀ {config json} (r : Config), s.serialize config x = .ok json →
        ∃ y, s.validate r json = .ok y ∧ y.Alike (s.normal x) ∧
          (config.compact = false → y = s.normal x) := by
      intro config json r h
      obtain ⟨hname, hencode⟩ := Schema.serialize_eq_ok_iff.mp h
      obtain ⟨-, w, hdecode, hw⟩ := (FieldType.Built.message hs).decode_of_encode
        (FieldType.encode_message_eq_ok_iff.mpr ⟨x, rfl, hname, hencode⟩) r.strict
      obtain ⟨y, hy, rfl⟩ := FieldType.decode_message_eq_ok_iff.mp hdecode
      exact ⟨y, Schema.validate_eq_ok_iff.mpr hy, Value.alike_message_iff.mp hw.alike,
        fun hfull => Value.message.inj (hw.eq_of_full hfull)⟩
    obtain ⟨y, hy, halike, -⟩ := hread reading hcompact
    obtain ⟨z, hz, -, heq⟩ := hread reading' hfull
    obtain rfl := heq rfl
    exact ⟨y, _, hy, hz, halike.same, halike.layout⟩

namespace Sample

/-- A route put together by hand, without its note. It has a stop with a
wait of minus zero, which equals the default, and one with an integer,
which does not. -/
def twoStops : Instance :=
  ⟨"Route", [("stops", .list [
    .message ⟨"Stop", [("wait", .number (.finite Binary64.Finite.zero.neg)),
      ("name", .string "Delft")]⟩,
    .message ⟨"Stop", [("name", .string "Leiden"), ("wait", .integer 0)]⟩])]⟩

/-- The route in full. -/
def twoStopsInFull : Json :=
  .object [("stops", .array [
    .object [("name", .string "Delft"), ("wait", .number (.double Binary64.Finite.zero.neg))],
    .object [("name", .string "Leiden"), ("wait", .number (.whole (.ofInt64 0)))]]),
    ("note", .null)]

end Sample

/-- The first wait goes and the note beside the stops, and the second wait
stays. -/
theorem Schema.Built.serialize_compact_twoStops :
    Sample.route.serialize ⟨false, false⟩ Sample.twoStops = .ok Sample.twoStopsInFull ∧
    Sample.route.serialize ⟨true, true⟩ Sample.twoStops =
      .ok (.object [("stops", .array [.object [("name", .string "Delft")],
        .object [("name", .string "Leiden"), ("wait", .number (.whole (.ofInt64 0)))]])]) ∧
    ∃ y z, Sample.route.validate ⟨true, false⟩
        (Sample.route.trimmed Sample.twoStops Sample.twoStopsInFull) = .ok y ∧
      Sample.route.validate ⟨false, false⟩ Sample.twoStopsInFull = .ok z ∧ y.same z = true := by
  have hfull : Sample.route.serialize ⟨false, false⟩ Sample.twoStops = .ok Sample.twoStopsInFull :=
    rfl
  have htrimmed : Sample.route.trimmed Sample.twoStops Sample.twoStopsInFull =
      .object [("stops", .array [.object [("name", .string "Delft")],
        .object [("name", .string "Leiden"), ("wait", .number (.whole (.ofInt64 0)))]])] := by
    with_unfolding_all rfl
  obtain ⟨hcompact, hread⟩ :=
    (Schema.Built.serialize_compact Sample.route_built true false Sample.twoStops).2 _ hfull
  obtain ⟨y, z, hy, hz, hsame, -⟩ := hread ⟨true, false⟩ ⟨false, false⟩
  exact ⟨hfull, htrimmed ▸ hcompact, y, z, hy, hz, hsame⟩

end ServiceContracts
