import ServiceContracts.Proofs.Schema.FixedPoint
import ServiceContracts.Proofs.Schema.Lenient
/-!
# One field more

A schema may get a field that payloads need not have, at any place among
its others (`Schema.Adds`). No payload that the old schema accepts in
strict mode has a member for the new field, since nobody declared one. So
the new schema reads what the old one reads, and puts the default of the
field beside it (`Schema.Adds.decode`). In compact form the field is left
out again, since a default equals itself, and what is written is what the
old schema writes (`Schema.Adds.encode_compact`).
-/


namespace ServiceContracts

variable {old new : Schema} {f g : Field} {d : Value} {value : Field → Value}

/-- **The same schema with one field more**, somewhere among the others. -/
structure Schema.Adds (old new : Schema) (f : Field) : Prop where
  name : new.name = old.name
  fields : ∃ before after, old.fields = before ++ after ∧ new.fields = before ++ f :: after

/-- The values for the old fields, and one for the field that was added. -/
def Field.withValue (f : Field) (d : Value) (value : Field → Value) (g : Field) : Value :=
  if g.name = f.name then d else value g

@[simp] theorem Field.withValue_self : f.withValue d value f = d := if_pos rfl

theorem Field.withValue_of_ne (h : g.name ≠ f.name) : f.withValue d value g = value g := if_neg h

namespace Schema.Adds

theorem mem_iff (h : old.Adds new f) : g ∈ new.fields ↔ g = f ∨ g ∈ old.fields := by
  obtain ⟨before, after, hold, hnew⟩ := h.fields
  simp only [hold, hnew, List.mem_append, List.mem_cons]
  tauto

/-- The new name is none of the old ones. -/
theorem notMem_fieldNames (h : old.Adds new f) (hnodup : new.fieldNames.Nodup) :
    f.name ∉ old.fieldNames := by
  obtain ⟨before, after, hold, hnew⟩ := h.fields
  rw [fieldNames, hnew, List.map_append, List.map_cons, List.nodup_middle] at hnodup
  rw [fieldNames, hold, List.map_append]
  exact (List.nodup_cons.mp hnodup).1

theorem name_ne (h : old.Adds new f) (hnodup : new.fieldNames.Nodup) (hg : g ∈ old.fields) :
    g.name ≠ f.name := fun heq =>
  h.notMem_fieldNames hnodup (heq ▸ List.mem_map_of_mem hg)

/-- Old names are among the new ones. -/
theorem fieldNames_subset (h : old.Adds new f) : old.fieldNames ⊆ new.fieldNames := by
  intro name hname
  obtain ⟨g, hg, rfl⟩ := List.mem_map.mp hname
  exact List.mem_map_of_mem (h.mem_iff.mpr (.inr hg))

end Schema.Adds

/-! ## Reading -/

/-- What a strict reading accepts has declared members only. -/
theorem Schema.declared_of_undeclared_eq_nil {fields : List Field} {members : List (String × Json)}
    (h : undeclared true fields members = []) :
    ∀ key ∈ Entries.keys members, key ∈ fields.map Field.name := by
  intro key hkey
  have hnone := List.filterMap_eq_nil_iff.mp h key hkey
  by_contra hundeclared
  rw [if_neg (mt any_name_iff.mp hundeclared)] at hnone
  cases hnone

/-- A field that is read strictly is read in either mode. -/
theorem Field.decode_of_strict {members : List (String × Json)} {e : String × Value}
    (h : f.decode true members = .ok e) (strict : Bool) : f.decode strict members = .ok e := by
  cases strict with
  | true => exact h
  | false => exact (f.decode_relaxes f.type.decode_relaxes members).kept e h

/-- **The new schema reads what the old one reads**, and the default of the
new field with it. -/
theorem Schema.Adds.decode (h : old.Adds new f) (hnodup : new.fieldNames.Nodup)
    (hd : f.effectiveDefault = some d) {payload : Json}
    (hread : old.decode true payload = .ok (old.holding value)) (strict : Bool) :
    new.decode strict payload = .ok (new.holding (f.withValue d value)) := by
  obtain ⟨members, rfl, hnone, -, hfields⟩ := decode_eq_ok_iff.mp hread
  have hdeclared := declared_of_undeclared_eq_nil hnone
  rw [holding, List.map_map] at hfields
  refine decode_eq_ok_iff.mpr ⟨members, rfl, ?_, rfl, ?_⟩
  · exact undeclared_eq_nil fun key hkey => h.fieldNames_subset (hdeclared key hkey)
  · rw [holding, List.map_map]
    refine List.map_congr_left fun g hg => ?_
    obtain rfl | hg := h.mem_iff.mp hg
    · -- there is no member under the new name
      have habsent : Entries.get? members g.name = none :=
        Entries.get?_eq_none_iff.mpr fun hkey =>
          h.notMem_fieldNames hnodup (hdeclared g.name hkey)
      exact Field.decode_eq_ok_iff.mpr ⟨rfl, .inr ⟨habsent, by simp [hd]⟩⟩
    · have hstrict : g.decode true members = .ok (g.name, value g) :=
        List.map_inj_left.mp hfields g hg
      rw [Function.comp_apply, Field.withValue_of_ne (h.name_ne hnodup hg)]
      exact Field.decode_of_strict hstrict strict

/-! ## Writing -/

/-- A field is written from what is held for it. -/
theorem Field.encode_congr {compact : Bool} {m n : Instance} (h : f.held m = f.held n) :
    f.encode compact m = f.encode compact n := by
  cases hheld : f.held m with
  | none => rw [f.encode_of_held_none hheld, f.encode_of_held_none (h ▸ hheld)]
  | some v => rw [f.encode_of_held hheld, f.encode_of_held (h ▸ hheld)]

/-- A default that equals itself is left out. -/
theorem Field.encode_default {m : Instance} (hd : f.effectiveDefault = some d)
    (hself : d.same d = true) (hheld : f.held m = some d) : f.encode true m = .ok [] :=
  encode_eq_ok_iff.mpr ⟨d, hheld, .inl ⟨isDefault_eq_true_iff.mpr ⟨d, hd, hself⟩, rfl⟩⟩

/-- **In compact form the new schema writes what the old one writes.** -/
theorem Schema.Adds.encode_compact (h : old.Adds new f) (hold : old.fieldNames.Nodup)
    (hnew : new.fieldNames.Nodup) (hd : f.effectiveDefault = some d) (hself : d.same d = true)
    {json : Json} (hjson : old.encode true (old.holding value) = .ok json) :
    new.encode true (new.holding (f.withValue d value)) = .ok json := by
  have hheld : ∀ g ∈ new.fields,
      g.held (new.holding (f.withValue d value)) = some (f.withValue d value g) :=
    fun g hg => held_holding hnew hg
  have hadded : f.encode true (new.holding (f.withValue d value)) = .ok [] := by
    refine Field.encode_default hd hself ?_
    rw [hheld f (h.mem_iff.mpr (.inl rfl)), Field.withValue_self]
  have hothers : ∀ g ∈ old.fields, g.encode true (new.holding (f.withValue d value)) =
      g.encode true (old.holding value) := by
    intro g hg
    refine Field.encode_congr ?_
    rw [hheld g (h.mem_iff.mpr (.inr hg)), held_holding hold hg,
      Field.withValue_of_ne (h.name_ne hnew hg)]
  obtain ⟨groups, rfl, -, hgroups⟩ := encode_eq_ok_iff.mp hjson
  obtain ⟨before, after, holdFields, hnewFields⟩ := h.fields
  rw [← List.map_congr_left hothers, holdFields, List.map_append] at hgroups
  obtain ⟨first, last, rfl, hfirst, hlast⟩ := List.map_eq_append_iff.mp hgroups.symm
  refine encode_eq_ok_iff.mpr ⟨first ++ [] :: last, by simp, declared_of_holding, ?_⟩
  rw [hnewFields, List.map_append, List.map_cons, hadded, ← hfirst, ← hlast, List.map_append,
    List.map_cons]

/-! ## Between the calls -/

/-- A field that declares a default or is nullable has something to stand in
for it. -/
theorem Field.exists_effectiveDefault
    (h : f.default.isSome = true ∨ f.type.isNullable = true) :
    ∃ d, f.effectiveDefault = some d := by
  refine Option.ne_none_iff_exists'.mp fun hnone => ?_
  have hrequired : f.isRequired = true := isRequired_iff.mpr hnone
  rw [isRequired, Bool.and_eq_true, Option.isNone_iff_eq_none, Bool.not_eq_true'] at hrequired
  simp [hrequired] at h

/-- A conforming message is written as an object. -/
theorem Schema.Built.exists_encode_object {s : Schema} (hs : s.Built) {x : Instance}
    (hx : s.Conforms x) (compact : Bool) :
    ∃ members, s.encode compact x = .ok (.object members) := by
  obtain ⟨json, hjson⟩ := (FieldType.Built.message hs).exists_encode ⟨x, rfl, hx⟩ compact
  obtain ⟨x', heq, -, hencode⟩ := FieldType.encode_message_eq_ok_iff.mp hjson
  obtain rfl := Value.message.inj heq
  obtain ⟨groups, rfl, -⟩ := Schema.encode_eq_ok_iff.mp hencode
  exact ⟨groups.flatten, hencode⟩

/-- **To add a field that payloads need not have is a compatible change.**
What the old schema accepts in strict mode the new one accepts in either
mode, with the values of the old fields, and with the default for the new
one. In compact form both write the same JSON value. -/
theorem Schema.Built.validate_adds (hold : old.Built) (hnew : new.Built) (h : old.Adds new f)
    (hf : f.default.isSome = true ∨ f.type.isNullable = true) {compact : Bool} {payload : Json}
    {x : Instance} (hx : old.validate ⟨true, compact⟩ payload = .ok x) :
    ∃ d y, f.effectiveDefault = some d ∧
      (∀ reading : Config, new.validate reading payload = .ok y) ∧
      y.schema = x.schema ∧ y.get? f.name = some d ∧
      (∀ g ∈ old.fields, ∃ v, x.get? g.name = some v ∧ y.get? g.name = some v) ∧
      ∃ members, ∀ strict, old.serialize ⟨strict, true⟩ x = .ok (.object members) ∧
        new.serialize ⟨strict, true⟩ y = .ok (.object members) := by
  obtain ⟨d, hd⟩ := Field.exists_effectiveDefault hf
  have hfnew : f ∈ new.fields := h.mem_iff.mpr (.inl rfl)
  have hdefault : f.type.Conforms d := hnew.conforms_effectiveDefault hfnew hd
  have hself : d.same d = true := (hnew.fieldType hfnew).value_same_self hdefault
  have hread : old.decode true payload = .ok x := Schema.validate_eq_ok_iff.mp hx
  have hconf : old.Conforms x := hold.conforms_of_decode hread
  obtain ⟨members, hjson⟩ := hold.exists_encode_object hconf true
  obtain ⟨value, rfl, -⟩ := (Schema.conforms_iff hold.fieldNames_nodup).mp hconf
  have hnodup := hnew.fieldNames_nodup
  have hjson' := h.encode_compact hold.fieldNames_nodup hnodup hd hself hjson
  refine ⟨d, new.holding (f.withValue d value), hd, fun reading => ?_, h.name, ?_, fun g hg => ?_,
    members, fun strict => ⟨?_, ?_⟩⟩
  · exact Schema.validate_eq_ok_iff.mpr (h.decode hnodup hd hread reading.strict)
  · rw [Schema.get?_holding hnodup hfnew, Field.withValue_self]
  · refine ⟨value g, Schema.get?_holding hold.fieldNames_nodup hg, ?_⟩
    rw [Schema.get?_holding hnodup (h.mem_iff.mpr (.inr hg)),
      Field.withValue_of_ne (h.name_ne hnodup hg)]
  · exact Schema.serialize_eq_ok_iff.mpr ⟨rfl, hjson⟩
  · exact Schema.serialize_eq_ok_iff.mpr ⟨rfl, hjson'⟩

namespace Sample

/-- A stop with a zone between its name and its wait, which is A unless it is
said. -/
def zonedStop : Schema :=
  ⟨"Stop", "with zones", [⟨"name", .scalar .string, none, ""⟩,
    ⟨"zone", .scalar .string, some (.string "A"), ""⟩,
    ⟨"wait", .scalar .number, some (.number (.finite .zero)), ""⟩]⟩

theorem zonedStop_built : zonedStop.Built := by
  have htypes : ∀ f ∈ zonedStop.fields, f.type.Built := by
    simp only [zonedStop, List.forall_mem_cons]
    exact ⟨.scalar .string, .scalar .string, .scalar .number, nofun⟩
  exact Schema.Built.build htypes
    (rfl : Schema.build "Stop" "with zones" zonedStop.fields = .ok zonedStop)

theorem stop_adds_zone :
    stop.Adds zonedStop ⟨"zone", .scalar .string, some (.string "A"), ""⟩ :=
  ⟨rfl, [_], [_], rfl, rfl⟩

end Sample

/-- A stop that waits is read with a zone, and written without it. -/
theorem Schema.Built.validate_adds_zone :
    ∃ x y members,
      Sample.stop.validate ⟨true, false⟩
        (.object [("wait", .number (.whole (.ofInt64 3))), ("name", .string "Delft")]) = .ok x ∧
      Sample.zonedStop.validate ⟨true, false⟩
        (.object [("wait", .number (.whole (.ofInt64 3))), ("name", .string "Delft")]) = .ok y ∧
      y.get? "zone" = some (.string "A") ∧
      Sample.stop.serialize ⟨true, true⟩ x = .ok (.object members) ∧
      Sample.zonedStop.serialize ⟨true, true⟩ y = .ok (.object members) := by
  have haccepted : ∃ x, Sample.stop.validate ⟨true, false⟩
      (.object [("wait", .number (.whole (.ofInt64 3))), ("name", .string "Delft")]) = .ok x :=
    ⟨_, rfl⟩
  obtain ⟨x, hx⟩ := haccepted
  obtain ⟨d, y, hd, hy, -, hzone, -, members, hserialize⟩ :=
    Schema.Built.validate_adds Sample.stop_built Sample.zonedStop_built Sample.stop_adds_zone
      (.inl rfl) hx
  obtain rfl := Option.some.inj hd
  exact ⟨x, y, members, hx, hy ⟨true, false⟩, hzone, (hserialize true).1, (hserialize true).2⟩

end ServiceContracts
