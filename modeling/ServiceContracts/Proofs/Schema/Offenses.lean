import ServiceContracts.Proofs.Schema.OneField
import ServiceContracts.Proofs.Schema.Reports
import ServiceContracts.Proofs.Schema.Writing
/-!
# The offenses of a message, field by field

Reading an object and writing an instance go the same way: first the
declared fields, in their order, then what nobody declared. Whatever is
found on that way is joined, so the offenses of the whole are a list made
of those of its parts (`Schema.offenses_decode`, `Schema.offenses_encode`).

No failure goes without an offense, in writing (`FieldType.encode_grounded`)
as in reading. So the list of offenses tells whether there is a result.
-/


namespace ServiceContracts

variable {strict compact : Bool}

/-! ## In reading -/

theorem Schema.offenses_decodeFields {fields : List Field} {members : List (String × Json)} :
    Checked.offenses (decodeFields strict fields members) =
      fields.flatMap fun f => Checked.offenses (f.decode strict members) := by
  induction fields with
  | nil => rfl
  | cons f rest ih =>
    rw [decodeFields, Checked.offenses_map, Checked.offenses_both, ih, List.flatMap_cons]

/-- **What is wrong with an object**: what is wrong with its fields, and what
it has besides. -/
theorem Schema.offenses_decode {s : Schema} {members : List (String × Json)} :
    Checked.offenses (s.decode strict (.object members)) =
      (s.fields.flatMap fun f => Checked.offenses (f.decode strict members)) ++
        undeclared strict s.fields members := by
  obtain ⟨name, doc, fields⟩ := s
  rw [Schema.decode, Checked.offenses_map, Checked.offenses_both, Checked.offenses_ofOffenses,
    offenses_decodeFields]

/-! ## In writing -/

theorem Schema.offenses_encodeFields {fields : List Field} {m : Instance} :
    Checked.offenses (encodeFields compact fields m) =
      fields.flatMap fun f => Checked.offenses (f.encode compact m) := by
  induction fields with
  | nil => rfl
  | cons f rest ih =>
    rw [encodeFields, Checked.offenses_map, Checked.offenses_both, ih, List.flatMap_cons]

/-- **What is wrong with an instance**: what is wrong with its fields, and
what it has besides. -/
theorem Schema.offenses_encode {s : Schema} {m : Instance} :
    Checked.offenses (s.encode compact m) =
      (s.fields.flatMap fun f => Checked.offenses (f.encode compact m)) ++
        surplus s.fields m.fields := by
  obtain ⟨name, doc, fields⟩ := s
  rw [Schema.encode, Checked.offenses_map, Checked.offenses_both, Checked.offenses_ofOffenses,
    offenses_encodeFields]

/-! ## No failure to write without an offense -/

theorem Field.encode_grounded {f : Field} {m : Instance}
    (h : ∀ v, (f.type.encode compact v).Grounded) : (f.encode compact m).Grounded := by
  cases hheld : f.held m with
  | none =>
    rw [f.encode_of_held_none hheld]
    exact (Checked.Grounded.refuse .missingField).under _
  | some v =>
    rw [f.encode_of_held hheld]
    refine Checked.Grounded.under ?_ _
    split
    · exact .ok []
    · exact (h v).map _

theorem Schema.encode_grounded {s : Schema} {m : Instance}
    (h : ∀ f ∈ s.fields, ∀ v, (f.type.encode compact v).Grounded) :
    (s.encode compact m).Grounded := by
  obtain ⟨name, doc, fields⟩ := s
  rw [Schema.encode]
  refine Checked.Grounded.map (Checked.Grounded.both ?_ (.ofOffenses _)) _
  induction fields with
  | nil => exact .ok []
  | cons f rest ih =>
    obtain ⟨hf, hrest⟩ := List.forall_mem_cons.mp h
    rw [encodeFields]
    exact ((Field.encode_grounded hf).both (ih hrest)).map _

theorem FieldType.encode_grounded (t : FieldType) (v : Value) :
    (t.encode compact v).Grounded := by
  induction t using FieldType.induction generalizing v with
  | scalar s =>
    rw [FieldType.encode]
    cases s.encode v with
    | ok json => exact .ok json
    | error reason => exact .refuse reason
  | list element ih =>
    cases v with
    | list items =>
      rw [FieldType.encode]
      refine Checked.Grounded.map (Checked.Grounded.all fun c hc => ?_) _
      obtain ⟨i, hi, rfl⟩ := List.mem_mapIdx.mp hc
      exact (ih items[i]).under _
    | _ => exact .refuse _
  | optional inner ih =>
    cases v with
    | null => exact Checked.Grounded.ok Json.null
    | _ => exact ih _
  | message schema ih =>
    cases v with
    | message m =>
      rw [FieldType.encode]
      split
      · exact Schema.encode_grounded ih
      · exact .refuse _
    | _ => exact .refuse _

/-- **A value is written exactly where nothing is wrong with it.** -/
theorem FieldType.exists_encode_iff {t : FieldType} {v : Value} :
    (∃ json, t.encode compact v = .ok json) ↔ Checked.offenses (t.encode compact v) = [] :=
  (t.encode_grounded v).offenses_eq_nil_iff.symm

end ServiceContracts
