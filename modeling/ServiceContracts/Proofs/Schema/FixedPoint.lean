import ServiceContracts.Proofs.Schema.RoundTrip
import ServiceContracts.Proofs.Schema.Sameness
/-!
# Writing again what was written

Reading back what was written gives a value alike, not the same value: in
compact form a default comes back where something equal to it was left
out. Written once more it gives the same text all the same
(`FieldType.Built.encode_of_decode`). What was left out is left out
again, since a default equals itself; what was written is written again,
since equality is transitive and nothing that equals the default was
written in the first place.
-/


namespace ServiceContracts

variable {compact strict : Bool}

/-! ## Fields -/

/-- Nothing but null is written for null. -/
theorem FieldType.eq_null_of_encode_null {t : FieldType} {json : Json}
    (h : t.encode compact .null = .ok json) : json = .null := by
  induction t using FieldType.induction with
  | scalar s => cases s <;> cases FieldType.encode_scalar_eq_ok_iff.mp h
  | list element _ => simp [FieldType.encode] at h
  | optional inner _ => exact (Except.ok.inj h).symm
  | message schema _ => simp [FieldType.encode] at h

/-- What is not left out is written as one member, and else there is
none. -/
theorem Field.exists_member {f : Field} {m : Instance} {members : List (String × Json)}
    (h : f.encode compact m = .ok members) :
    ∃ written : Option Json, f.encode compact m = .ok (written.map fun json => (f.name, json)).toList
      := by
  obtain ⟨v, -, ⟨-, rfl⟩ | ⟨-, json, -, rfl⟩⟩ := Field.encode_eq_ok_iff.mp h
  · exact ⟨none, h⟩
  · exact ⟨some json, h⟩

/-- So it is known of what is written for a message where each member
stands. -/
theorem Schema.exists_written {s : Schema} {m : Instance} {json : Json}
    (h : s.encode compact m = .ok json) :
    ∃ written : Field → Option Json,
      (∀ f ∈ s.fields, f.encode compact m =
        .ok ((written f).map fun json => (f.name, json)).toList) ∧
      json = .object (s.fields.filterMap fun f => (written f).map fun json => (f.name, json)) := by
  obtain ⟨members, -, hdeclared, hfields⟩ := Schema.encode_eq_ok_iff.mp h
  have hmember : ∀ f ∈ s.fields, ∃ written : Option Json,
      f.encode compact m = .ok (written.map fun json => (f.name, json)).toList := by
    intro f hf
    obtain ⟨mine, -, hmine⟩ := List.mem_map.mp (hfields ▸ List.mem_map_of_mem hf)
    exact Field.exists_member hmine.symm
  choose! written hwritten using hmember
  exact ⟨written, hwritten, Except.ok.inj (h.symm.trans (Schema.encode_of hwritten hdeclared))⟩

/-- **One field, the second time**: it is left out when it was left out, and
written the same when it was written. -/
theorem Field.encode_again {f : Field} (ht : f.type.Built) {m n : Instance} {v w : Value}
    {written : Option Json}
    (hdefault : ∀ d, f.effectiveDefault = some d → f.type.Conforms d)
    (hm : f.held m = some v) (hn : f.held n = some w) (hv : f.type.Conforms v)
    (hencode : f.encode compact m = .ok (written.map fun json => (f.name, json)).toList)
    (hread : (∃ json, written = some json ∧ f.type.decode strict json = .ok w) ∨
      written = none ∧ f.effectiveDefault = some w)
    (ih : ∀ json, f.type.encode compact v = .ok json → f.type.decode strict json = .ok w →
      f.type.encode compact w = .ok json) :
    f.encode compact n = .ok (written.map fun json => (f.name, json)).toList := by
  obtain ⟨v', hv', hcases⟩ := Field.encode_eq_ok_iff.mp hencode
  obtain rfl := Option.some.inj (hm.symm.trans hv')
  refine Field.encode_eq_ok_iff.mpr ⟨w, hn, ?_⟩
  obtain ⟨hleft, hnone⟩ | ⟨hkept, json, hjson, hsome⟩ := hcases
  · -- the default has come back, and equals itself
    obtain ⟨json, rfl, -⟩ | ⟨-, hw⟩ := hread
    · simp at hnone
    · have hself : f.isDefault w = true :=
        Field.isDefault_eq_true_iff.mpr ⟨w, hw, ht.value_same_self (hdefault w hw)⟩
      exact .inl ⟨by simp [(Bool.and_eq_true_iff.mp hleft).1, hself], hnone⟩
  · obtain ⟨json', rfl, hdecode⟩ | ⟨rfl, -⟩ := hread
    · obtain rfl : json' = json := by simpa using hsome
      refine .inr ⟨?_, json', ih json' hjson hdecode, rfl⟩
      obtain ⟨-, w', hw', hrecovers⟩ := ht.decode_of_encode hjson strict
      obtain rfl := Except.ok.inj (hdecode.symm.trans hw')
      rw [ht.normal_of_conforms hv] at hrecovers
      -- a default that equalled what is read would equal what was written
      refine Bool.eq_false_iff.mpr fun hleft => Bool.eq_false_iff.mp hkept ?_
      obtain ⟨hcompact, hisDefault⟩ := Bool.and_eq_true_iff.mp hleft
      obtain ⟨d, hd, hsame⟩ := Field.isDefault_eq_true_iff.mp hisDefault
      have hsame' := Value.same_trans hsame hrecovers.alike.same
      exact Bool.and_eq_true_iff.mpr ⟨hcompact, Field.isDefault_eq_true_iff.mpr ⟨d, hd, hsame'⟩⟩
    · simp at hsome

/-- **One message, the second time**, from its fields. -/
theorem Schema.Built.encode_of_decode {schema : Schema} (hs : schema.Built)
    {value : Field → Value} {n : Instance} {json : Json}
    (hvalue : ∀ f ∈ schema.fields, f.type.Conforms (value f))
    (ih : ∀ f ∈ schema.fields, ∀ {w json}, f.type.encode compact (value f) = .ok json →
      f.type.decode strict json = .ok w → f.type.encode compact w = .ok json)
    (hencode : schema.encode compact (schema.holding value) = .ok json)
    (hdecode : schema.decode strict json = .ok n) : schema.encode compact n = .ok json := by
  have hnodup := hs.fieldNames_nodup
  obtain ⟨other, rfl, -⟩ := (Schema.conforms_iff hnodup).mp (hs.conforms_of_decode hdecode)
  obtain ⟨written, hwritten, rfl⟩ := Schema.exists_written hencode
  obtain ⟨members', heq, -, -, hread⟩ := Schema.decode_eq_ok_iff.mp hdecode
  obtain rfl := Json.object.inj heq
  rw [Schema.holding, List.map_map] at hread
  refine Schema.encode_of (fun f hf => ?_) Schema.declared_of_holding
  have hentry := (Field.decode_eq_ok_iff.mp (List.map_inj_left.mp hread f hf)).2
  rw [Entries.get?_filterMap hnodup written hf] at hentry
  have hdefault : ∀ d, f.effectiveDefault = some d → f.type.Conforms d :=
    fun d hd => hs.conforms_effectiveDefault hf hd
  exact Field.encode_again (hs.fieldType hf) hdefault (Schema.held_holding hnodup hf)
    (Schema.held_holding hnodup hf) (hvalue f hf) (hwritten f hf) hentry fun json => ih f hf

/-! ## Every type -/

/-- **What is read back is written the same**, for whatever value of the
type was written first. -/
theorem FieldType.Built.encode_of_decode {t : FieldType} (ht : t.Built) {v w : Value} {json : Json}
    (hv : t.Conforms v) (hencode : t.encode compact v = .ok json)
    (hdecode : t.decode strict json = .ok w) : t.encode compact w = .ok json := by
  induction ht using FieldType.Built.induction generalizing v w json with
  | scalar s =>
    have hread := Scalar.decode_of_encode (FieldType.encode_scalar_eq_ok_iff.mp hencode)
    have hself : s.normal v = v := (FieldType.Built.scalar s).normal_of_conforms hv
    rw [FieldType.decode_scalar_eq_ok_iff, hread, hself] at hdecode
    obtain rfl := Except.ok.inj hdecode
    exact hencode
  | list element _ ih =>
    obtain ⟨items, rfl, hitems⟩ := hv
    obtain ⟨items', jsons, heq, rfl, hwritten⟩ := FieldType.encode_list_eq_ok_iff.mp hencode
    obtain rfl := Value.list.inj heq
    obtain ⟨jsons', others, heq, rfl, hread⟩ := FieldType.decode_list_eq_ok_iff.mp hdecode
    obtain rfl := Json.array.inj heq
    refine FieldType.encode_list_eq_ok_iff.mpr ⟨others, jsons, rfl, rfl, ?_⟩
    rw [List.ext_getElem_iff] at hwritten hread ⊢
    simp only [List.length_map, List.getElem_map] at hwritten hread ⊢
    obtain ⟨hlength, hwritten⟩ := hwritten
    obtain ⟨hlength', hread⟩ := hread
    refine ⟨hlength'.symm, fun i hi hj => ?_⟩
    exact ih (hitems _ (List.getElem_mem _)) (hwritten i (by omega) hj) (hread i hj hi)
  | optional inner _ ih =>
    by_cases hnull : v = .null
    · subst hnull
      obtain rfl := Except.ok.inj hencode
      obtain rfl := Except.ok.inj hdecode
      rfl
    · rw [FieldType.encode_optional hnull] at hencode
      have hagain : inner.decode strict json = .ok w → inner.encode compact w = .ok json :=
        ih (hv.resolve_left hnull) hencode
      by_cases hjson : json = .null
      · subst hjson
        obtain rfl := Except.ok.inj hdecode
        rfl
      · rw [FieldType.decode_optional hjson] at hdecode
        by_cases hw : w = .null
        · subst hw
          exact absurd (FieldType.eq_null_of_encode_null (hagain hdecode)) hjson
        · rw [FieldType.encode_optional hw]
          exact hagain hdecode
  | message schema hs ih =>
    obtain ⟨m, rfl, hm⟩ := hv
    obtain ⟨value, rfl, hvalue⟩ := (Schema.conforms_iff hs.fieldNames_nodup).mp hm
    obtain ⟨m', heq, -, hwrites⟩ := FieldType.encode_message_eq_ok_iff.mp hencode
    obtain rfl := Value.message.inj heq
    obtain ⟨n, hreads, rfl⟩ := FieldType.decode_message_eq_ok_iff.mp hdecode
    have hagain := hs.encode_of_decode hvalue (fun f hf => ih f hf (hvalue f hf)) hwrites hreads
    have hname : n.schema = schema.name := (Schema.decode_eq_ok_iff.mp hreads).choose_spec.2.2.1
    exact FieldType.encode_message_eq_ok_iff.mpr ⟨n, rfl, hname, hagain⟩

/-! ## Between the calls -/

/-- **Serializing settles what is validated.** A conforming instance is
written, in either form; what is written validates, in either mode, and
the instance that this gives is written the same. -/
theorem Schema.Built.exists_settled {s : Schema} (hs : s.Built) {x : Instance} (hx : s.Conforms x)
    (config : Config) :
    ∃ json, s.serialize config x = .ok json ∧ ∀ reading : Config, ∃ y,
      s.validate reading json = .ok y ∧ s.serialize config y = .ok json := by
  have ht := FieldType.Built.message hs
  have hconf : (FieldType.message s).Conforms (.message x) := ⟨x, rfl, hx⟩
  obtain ⟨json, hencode⟩ := ht.exists_encode hconf config.compact
  obtain ⟨x', heq, hname, hwrites⟩ := FieldType.encode_message_eq_ok_iff.mp hencode
  obtain rfl := Value.message.inj heq
  refine ⟨json, Schema.serialize_eq_ok_iff.mpr ⟨hname, hwrites⟩, fun reading => ?_⟩
  obtain ⟨-, w, hdecode, -⟩ := ht.decode_of_encode hencode reading.strict
  have hagain := ht.encode_of_decode hconf hencode hdecode
  obtain ⟨y, hread, rfl⟩ := FieldType.decode_message_eq_ok_iff.mp hdecode
  obtain ⟨y', heq, hname', hwrites'⟩ := FieldType.encode_message_eq_ok_iff.mp hagain
  obtain rfl := Value.message.inj heq
  exact ⟨y, Schema.validate_eq_ok_iff.mpr hread, Schema.serialize_eq_ok_iff.mpr ⟨hname', hwrites'⟩⟩

end ServiceContracts
