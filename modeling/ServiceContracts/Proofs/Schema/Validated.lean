import ServiceContracts.Proofs.Schema.RoundTrip
/-!
# What validation can give

Reading gives conforming values only, and every conforming message is
read from some payload: from what it is written as in full. So the
messages that validation gives are those that conform to the schema,
whatever the configuration (`Schema.Built.validated_iff_conforms`), and a
program that takes a validated message may rely on the one and needs to
expect all of the other.

Defaults are no exception. They come from the definition and not from a
payload, but building has read each of them, in the schema itself and in
the schemas nested in it.
-/


namespace ServiceContracts

/-! ## Fields at every depth -/

/-- The fields of a schema and of the schemas nested in it, at every
depth. -/
inductive Schema.Contains : Schema → Field → Prop
  | own {s : Schema} {f : Field} (h : f ∈ s.fields) : Contains s f
  | nested {s inner : Schema} {f g : Field} (hg : g ∈ s.fields)
      (hinner : g.type.schema? = some inner) (h : Contains inner f) : Contains s f

/-- The schema inside a type over built schemas is built. -/
theorem FieldType.Built.schema? {t : FieldType} (ht : t.Built) {inner : Schema}
    (h : t.schema? = some inner) : inner.Built := by
  induction ht using FieldType.Built.induction with
  | scalar s => cases h
  | list element _ ih => exact ih h
  | optional inner _ ih => exact ih h
  | message schema hs _ => exact Option.some.inj h ▸ hs

/-- A field at any depth of a built schema is a field of a built schema. -/
theorem Schema.Built.exists_of_contains {s : Schema} (hs : s.Built) {f : Field}
    (h : s.Contains f) : ∃ inner : Schema, inner.Built ∧ f ∈ inner.fields := by
  induction h with
  | own hf => exact ⟨_, hs, hf⟩
  | nested hg hinner _ ih => exact ih ((hs.fieldType hg).schema? hinner)

/-- **Every declared default conforms to the type of its field**, at every
depth. -/
theorem Schema.Built.conforms_default {s : Schema} (hs : s.Built) {f : Field} (hf : s.Contains f)
    {v : Value} (hv : f.default = some v) : f.type.Conforms v := by
  obtain ⟨inner, hinner, hf⟩ := hs.exists_of_contains hf
  exact hinner.conforms_effectiveDefault hf (by rw [Field.effectiveDefault, hv])

/-! ## Every conforming message -/

/-- **A payload for a conforming message**: what it is written as in
full. -/
theorem Schema.Built.exists_payload {s : Schema} (hs : s.Built) {x : Instance} (hx : s.Conforms x)
    (strict : Bool) : ∃ p : Json, p.Keyed ∧ s.decode strict p = .ok x := by
  obtain ⟨value, rfl, hvalue⟩ := (Schema.conforms_iff hs.fieldNames_nodup).mp hx
  obtain ⟨json, n, hencode, hdecode, -, hfull⟩ := hs.exists_decode_encode false strict hvalue
    fun f hf => (hs.fieldType hf).decode_encode (hvalue f hf) false strict
  obtain rfl := hfull rfl
  exact ⟨json, hs.keyed_of_encode rfl hencode, hdecode⟩

/-- **The messages that validation gives are those that conform**, in every
configuration: no payload gives another, and each is had from a payload
without repeated keys. The defaults of the schema conform with them. -/
theorem Schema.Built.validated_iff_conforms {s : Schema} (hs : s.Built) (config : Config) :
    (∀ x, (∃ p, s.validate config p = .ok x) ↔ s.Conforms x) ∧
      (∀ x, s.Conforms x → ∃ p : Json, p.Keyed ∧ s.validate config p = .ok x) ∧
      ∀ f, s.Contains f → ∀ v, f.default = some v → f.type.Conforms v := by
  have hgives : ∀ x, s.Conforms x → ∃ p : Json, p.Keyed ∧ s.validate config p = .ok x := by
    intro x hx
    obtain ⟨p, hkeyed, hp⟩ := hs.exists_payload hx config.strict
    exact ⟨p, hkeyed, Schema.validate_eq_ok_iff.mpr hp⟩
  refine ⟨fun x => ⟨?_, fun hx => ?_⟩, hgives, fun f hf v hv => hs.conforms_default hf hv⟩
  · rintro ⟨p, hp⟩
    exact hs.conforms_of_decode (Schema.validate_eq_ok_iff.mp hp)
  · obtain ⟨p, -, hp⟩ := hgives x hx
    exact ⟨p, hp⟩

/-- A stop may wait for minus zero, and the default of its wait conforms
where a route nests it. -/
theorem Schema.Built.validated_iff_conforms_stop :
    (∃ p : Json, p.Keyed ∧ Sample.stop.validate ⟨true, false⟩ p = .ok ⟨"Stop",
      [("name", .string "Delft"), ("wait", .number (.finite Binary64.Finite.zero.neg))]⟩) ∧
    (FieldType.scalar .number).Conforms (.number (.finite .zero)) := by
  have hstop := Schema.Built.validated_iff_conforms Sample.stop_built ⟨true, false⟩
  have hroute := Schema.Built.validated_iff_conforms Sample.route_built Config.lenient
  have hwait : Sample.route.Contains
      ⟨"wait", .scalar .number, some (.number (.finite .zero)), ""⟩ :=
    .nested (List.mem_cons_self ..) rfl (.own (List.mem_cons_of_mem _ (List.mem_cons_self ..)))
  refine ⟨hstop.2.1 _ ?_, hroute.2.2 _ hwait _ rfl⟩
  exact ⟨rfl, _, _, rfl, ⟨rfl, .string _⟩, _, _, rfl, ⟨rfl, .number _⟩, rfl⟩

end ServiceContracts
