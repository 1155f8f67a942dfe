import ServiceContracts.Proofs.Schema.Reading
import Mathlib.Data.List.Nodup
/-!
# One field of a payload

An object is read field by field, each from its own member or the lack of
it (`Field.check`), and what is found is joined. `Schema.ReadsAs` says
what validation makes of a single field, whatever the other members are:
the offenses in the field are those of its check, each of them is
reported, and an accepted payload holds the value that the check gives.

A field has one such check only (`Schema.ReadsAs.unique`), so whether a
field is read in one way is a question with an answer.
-/


namespace ServiceContracts

/-! ## The check of a field -/

/-- What is made of the member of a field, or of the lack of one. -/
def Field.check (strict : Bool) (f : Field) : Option Json → Checked Value
  | some payload => f.type.decode strict payload
  | none =>
    match f.effectiveDefault with
    | some v => .ok v
    | none => Checked.refuse .missingField

/-- An offense at a field or under it. -/
def Offense.inField (name : String) (o : Offense) : Bool := o.place.head? = some (.field name)

/-- **One field of an object is read as a check says**, alone and in the
validation of the whole. -/
structure Schema.ReadsAs (s : Schema) (config : Config) (members : List (String × Json))
    (name : String) (check : Checked Value) : Prop where
  field : ∃ f ∈ s.fields, f.name = name ∧
    f.decode config.strict members = (check.under (.field name)).map fun v => (name, v)
  found : (Checked.offenses (s.decode config.strict (.object members))).filter
    (Offense.inField name) = (Checked.offenses check).map (Offense.under (.field name))
  reported : ∀ o ∈ Checked.offenses check, ∃ errors,
    s.validate config (.object members) = .error (.rejected s.name errors) ∧
      (o.under (.field name)).report ∈ errors
  held : ∀ m, s.validate config (.object members) = .ok m →
    ∃ v, check = .ok v ∧ m.get? name = some v

variable {strict : Bool} {members : List (String × Json)} {name : String}

theorem Field.decode_eq (f : Field) :
    f.decode strict members =
      ((f.check strict (Entries.get? members f.name)).under (.field f.name)).map
        fun v => (f.name, v) := by
  obtain ⟨name, type, default, doc⟩ := f
  rw [Field.decode]
  cases Entries.get? members name <;> rfl

/-! ## A check is known from its place in the whole -/

theorem Offense.under_injective (step : Step) : Function.Injective (Offense.under step) := by
  rintro ⟨place, reason⟩ ⟨place', reason'⟩ h
  simpa [Offense.under] using h

namespace Checked

variable {α β : Type} {c c' : Checked α}

theorem eq_of_under_eq {step : Step} (h : c.under step = c'.under step) : c = c' := by
  cases c with
  | ok a => exact (under_eq_ok_iff.mp h.symm).symm
  | error offenses =>
    cases c' with
    | ok a' => cases h
    | error offenses' =>
      have hmap : offenses.map (Offense.under step) = offenses'.map (Offense.under step) :=
        Except.error.inj h
      rw [List.map_injective_iff.mpr (Offense.under_injective step) hmap]

theorem eq_of_map_eq {f : α → β} (hf : Function.Injective f) (h : c.map f = c'.map f) :
    c = c' := by
  cases c with
  | ok a =>
    obtain ⟨a', rfl, ha⟩ := map_eq_ok_iff.mp h.symm
    rw [hf ha]
  | error offenses =>
    cases c' with
    | ok a' => cases h
    | error offenses' => exact congrArg Except.error (Except.error.inj h)

end Checked

/-! ## Among the others -/

theorem Offense.filter_inField_map_under (os : List Offense) :
    (os.map (Offense.under (.field name))).filter (Offense.inField name) =
      os.map (Offense.under (.field name)) := by
  refine List.filter_eq_self.mpr fun o ho => ?_
  obtain ⟨inner, -, rfl⟩ := List.mem_map.mp ho
  simp [Offense.inField, Offense.under]

/-- Other fields have their offenses elsewhere. -/
theorem Offense.filter_inField_map_under_of_ne {other : String} (h : other ≠ name)
    (os : List Offense) :
    (os.map (Offense.under (.field other))).filter (Offense.inField name) = [] := by
  refine List.filter_eq_nil_iff.mpr fun o ho => ?_
  obtain ⟨inner, -, rfl⟩ := List.mem_map.mp ho
  simp [Offense.inField, Offense.under, h]

theorem Field.offenses_decode (f : Field) :
    Checked.offenses (f.decode strict members) =
      (Checked.offenses (f.check strict (Entries.get? members f.name))).map
        (Offense.under (.field f.name)) := by
  rw [f.decode_eq, Checked.offenses_map, Checked.offenses_under]

namespace Schema

theorem filter_offenses_decodeFields_of_notMem {fields : List Field}
    (h : name ∉ fields.map Field.name) :
    (Checked.offenses (decodeFields strict fields members)).filter (Offense.inField name) = [] := by
  induction fields with
  | nil => rfl
  | cons f rest ih =>
    rw [List.map_cons, List.mem_cons, not_or] at h
    obtain ⟨hf, hrest⟩ := h
    rw [decodeFields, Checked.offenses_map, Checked.offenses_both, List.filter_append,
      f.offenses_decode, Offense.filter_inField_map_under_of_ne (Ne.symm hf), ih hrest,
      List.nil_append]

/-- **The offenses in a field are those of its check.** -/
theorem filter_offenses_decodeFields {fields : List Field} (hnodup : (fields.map Field.name).Nodup)
    {f : Field} (hf : f ∈ fields) :
    (Checked.offenses (decodeFields strict fields members)).filter (Offense.inField f.name) =
      (Checked.offenses (f.check strict (Entries.get? members f.name))).map
        (Offense.under (.field f.name)) := by
  induction fields with
  | nil => cases hf
  | cons g rest ih =>
    obtain ⟨hnew, hrest⟩ := List.nodup_cons.mp hnodup
    rw [decodeFields, Checked.offenses_map, Checked.offenses_both, List.filter_append,
      g.offenses_decode]
    rcases List.mem_cons.mp hf with rfl | hf
    · rw [Offense.filter_inField_map_under, filter_offenses_decodeFields_of_notMem hnew,
        List.append_nil]
    · have hne : g.name ≠ f.name := by
        intro heq
        exact hnew (heq ▸ List.mem_map_of_mem hf)
      rw [Offense.filter_inField_map_under_of_ne hne, ih hrest hf, List.nil_append]

/-- No declared field is among the undeclared. -/
theorem filter_undeclared {fields : List Field} (h : name ∈ fields.map Field.name) :
    (undeclared strict fields members).filter (Offense.inField name) = [] := by
  refine List.filter_eq_nil_iff.mpr fun o ho hin => ?_
  unfold undeclared at ho
  split at ho
  · obtain ⟨key, -, hkey⟩ := List.mem_filterMap.mp ho
    split at hkey
    · cases hkey
    · rename_i hunknown
      obtain rfl := Option.some.inj hkey
      obtain rfl : key = name := by simpa [Offense.inField] using hin
      exact hunknown (any_name_iff.mpr h)
  · cases ho

variable {s : Schema} {config : Config}

/-- **Each field of a payload is read as its own check says.** -/
theorem readsAs (hnodup : s.fieldNames.Nodup) {f : Field} (hf : f ∈ s.fields) :
    s.ReadsAs config members f.name (f.check config.strict (Entries.get? members f.name)) := by
  have hfound : (Checked.offenses (s.decode config.strict (.object members))).filter
      (Offense.inField f.name) =
        (Checked.offenses (f.check config.strict (Entries.get? members f.name))).map
          (Offense.under (.field f.name)) := by
    obtain ⟨name, doc, fields⟩ := s
    rw [Schema.decode, Checked.offenses_map, Checked.offenses_both, Checked.offenses_ofOffenses,
      List.filter_append, filter_offenses_decodeFields hnodup hf,
      filter_undeclared (List.mem_map_of_mem hf), List.append_nil]
  refine ⟨⟨f, hf, rfl, f.decode_eq⟩, hfound, fun o ho => ?_, fun m hm => ?_⟩
  · have hmem : o.under (.field f.name) ∈
        Checked.offenses (s.decode config.strict (.object members)) :=
      (List.mem_filter.mp (hfound ▸ List.mem_map_of_mem ho)).1
    cases hdecode : s.decode config.strict (.object members) with
    | ok m => simp [hdecode, Checked.offenses] at hmem
    | error offenses =>
      rw [hdecode] at hmem
      refine ⟨offenses.map Offense.report, ?_, List.mem_map_of_mem hmem⟩
      rw [validate_eq_rejected_iff, read, hdecode]
  · obtain ⟨members', hobject, -, -, hfields⟩ :=
      decode_eq_ok_iff.mp (validate_eq_ok_iff.mp hm)
    obtain rfl := Json.object.inj hobject
    obtain ⟨e, he, hread⟩ : ∃ e ∈ m.fields, Except.ok e = f.decode config.strict members :=
      List.mem_map.mp (hfields ▸ List.mem_map_of_mem hf)
    have hkeys : Entries.keys m.fields = s.fieldNames :=
      map_eq_of_map_eq_map_ok hfields fun g e he => (Field.decode_eq_ok_iff.mp he).1
    rw [f.decode_eq] at hread
    obtain ⟨v, hv, rfl⟩ := Checked.map_eq_ok_iff.mp hread.symm
    refine ⟨v, Checked.under_eq_ok_iff.mp hv, ?_⟩
    exact (Entries.get?_eq_some_iff (hkeys ▸ hnodup)).mpr he

/-- **And in no other way.** -/
theorem ReadsAs.unique (hnodup : s.fieldNames.Nodup) {check check' : Checked Value}
    (h : s.ReadsAs config members name check) (h' : s.ReadsAs config members name check') :
    check = check' := by
  obtain ⟨f, hf, rfl, hcheck⟩ := h.field
  obtain ⟨f', hf', hname, hcheck'⟩ := h'.field
  obtain rfl := List.inj_on_of_nodup_map hnodup hf' hf hname
  have hpair : Function.Injective fun v : Value => (f'.name, v) := fun _ _ h => (Prod.mk.inj h).2
  exact Checked.eq_of_under_eq (Checked.eq_of_map_eq hpair (hcheck.symm.trans hcheck'))

end Schema

end ServiceContracts
