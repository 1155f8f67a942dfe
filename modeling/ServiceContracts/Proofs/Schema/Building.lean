import ServiceContracts.Proofs.Schema.Offenses
import ServiceContracts.Proofs.Schema.RoundTrip
/-!
# What can be built, and built again

Building writes every default and reads it back, and keeps what was read.
So much can go wrong there that it is worth saying what does:
`Schema.IsSound` has the names, and of a default no more than that it can
be written. Reading back what was written never fails, and gives the
normal form, which is in normal form already; so a schema that was built
is built again from its own parts and does not change.
-/


namespace ServiceContracts

variable {t : FieldType} {v w : Value}

/-! ## One default -/

/-- **What is written in full reads back as its normal form.** -/
theorem FieldType.Built.decode_full (ht : t.Built) {json : Json}
    (h : t.encode false v = .ok json) (strict : Bool) : t.decode strict json = .ok (t.normal v) := by
  obtain ⟨-, w, hread, hw⟩ := ht.decode_of_encode h strict
  rw [hread, hw.eq_of_full rfl]

/-- **A default is kept exactly where it can be written**, and in normal
form. -/
theorem FieldType.Built.normalDefault_eq_ok_iff (ht : t.Built) :
    Field.normalDefault t v = .ok w ↔
      Checked.offenses (t.encode false v) = [] ∧ w = t.normal v := by
  rw [← FieldType.exists_encode_iff, Field.normalDefault]
  constructor
  · intro h
    cases hjson : t.encode false v with
    | error offenses =>
      rw [hjson] at h
      cases h
    | ok json =>
      rw [hjson] at h
      have hread : t.decode true json = .ok w := h
      rw [ht.decode_full hjson] at hread
      exact ⟨⟨json, rfl⟩, (Except.ok.inj hread).symm⟩
  · rintro ⟨⟨json, hjson⟩, rfl⟩
    rw [hjson]
    exact ht.decode_full hjson true

/-- What can be written has a normal form of the type. -/
theorem FieldType.Built.conforms_normal (ht : t.Built)
    (h : Checked.offenses (t.encode false v) = []) : t.Conforms (t.normal v) := by
  obtain ⟨json, hjson⟩ := FieldType.exists_encode_iff.mpr h
  exact (ht.decode_of_encode hjson true).1

/-! ## One field -/

/-- The field with its default in normal form. -/
def Field.settled (f : Field) : Field := ⟨f.name, f.type, f.default.map f.type.normal, f.doc⟩

/-- The declared default, if there is one, can be written. -/
def Field.DefaultFits (f : Field) : Prop :=
  ∀ v, f.default = some v → Checked.offenses (f.type.encode false v) = []

theorem Field.normalize_eq_ok_iff_settled {f g : Field} (ht : f.type.Built) :
    f.normalize = .ok g ↔ f.DefaultFits ∧ g = f.settled := by
  rw [Field.normalize_eq_ok_iff]
  obtain ⟨name, type, default, doc⟩ := f
  cases default with
  | none => simp [DefaultFits, settled]
  | some v =>
    have hkept := fun w => FieldType.Built.normalDefault_eq_ok_iff (v := v) (w := w) ht
    simp [DefaultFits, settled, hkept]

/-- The default of a settled field can be written too. -/
theorem Field.DefaultFits.settled {f : Field} (ht : f.type.Built) (h : f.DefaultFits) :
    f.settled.DefaultFits := by
  intro w hw
  obtain ⟨v, hv, rfl⟩ := Option.map_eq_some_iff.mp hw
  have hconf : f.type.Conforms (f.type.normal v) := ht.conforms_normal (h v hv)
  exact FieldType.exists_encode_iff.mp (ht.exists_encode hconf false)

/-- And is in normal form already. -/
theorem Field.settled_settled {f : Field} (ht : f.type.Built) (h : f.DefaultFits) :
    f.settled.settled = f.settled := by
  obtain ⟨name, type, default, doc⟩ := f
  cases default with
  | none => rfl
  | some v =>
    have hconf : type.Conforms (type.normal v) := ht.conforms_normal (h v rfl)
    have hnormal : type.normal (type.normal v) = type.normal v := ht.normal_of_conforms hconf
    simp [settled, hnormal]

/-! ## A schema -/

/-- **A sound definition of a schema**: names that are there and distinct,
and defaults that can be written. -/
structure Schema.IsSound (name : String) (fields : List Field) : Prop where
  name_visible : Text.isBlank name = false
  fieldName_visible : ∀ f ∈ fields, Text.isBlank f.name = false
  distinct : (fields.map Field.name).Nodup
  defaults : ∀ f ∈ fields, f.DefaultFits

variable {name doc : String} {fields : List Field}

theorem Schema.build_eq_ok_iff_isSound (htypes : ∀ f ∈ fields, f.type.Built) {s : Schema} :
    Schema.build name doc fields = .ok s ↔
      IsSound name fields ∧ s = ⟨name, doc, fields.map Field.settled⟩ := by
  have hnormalize : ∀ checked : List Field, fields.map Field.normalize = checked.map .ok ↔
      (∀ f ∈ fields, f.DefaultFits) ∧ checked = fields.map Field.settled := by
    intro checked
    constructor
    · intro h
      have hfits : ∀ f ∈ fields, f.DefaultFits := by
        intro f hf
        obtain ⟨g, -, hg⟩ := List.mem_map.mp (h ▸ List.mem_map_of_mem hf)
        exact ((Field.normalize_eq_ok_iff_settled (htypes f hf)).mp hg.symm).1
      refine ⟨hfits, ?_⟩
      have hsettled : fields.map Field.normalize = (fields.map Field.settled).map .ok := by
        rw [List.map_map]
        exact List.map_congr_left fun f hf =>
          (Field.normalize_eq_ok_iff_settled (htypes f hf)).mpr ⟨hfits f hf, rfl⟩
      exact (List.map_inj_right fun _ _ h => Except.ok.inj h).mp (h.symm.trans hsettled)
    · rintro ⟨hfits, rfl⟩
      rw [List.map_map]
      exact List.map_congr_left fun f hf =>
        (Field.normalize_eq_ok_iff_settled (htypes f hf)).mpr ⟨hfits f hf, rfl⟩
  rw [Schema.build_eq_ok_iff]
  constructor
  · rintro ⟨hname, hnames, hdistinct, checked, hchecked, rfl⟩
    obtain ⟨hfits, rfl⟩ := (hnormalize checked).mp hchecked
    exact ⟨⟨hname, hnames, hdistinct, hfits⟩, rfl⟩
  · rintro ⟨⟨hname, hnames, hdistinct, hfits⟩, rfl⟩
    exact ⟨hname, hnames, hdistinct, _, (hnormalize _).mpr ⟨hfits, rfl⟩, rfl⟩

/-- **Settling a sound definition leaves it sound.** -/
theorem Schema.IsSound.settled (htypes : ∀ f ∈ fields, f.type.Built) (h : IsSound name fields) :
    IsSound name (fields.map Field.settled) := by
  refine ⟨h.name_visible, List.forall_mem_map.mpr h.fieldName_visible, ?_,
    List.forall_mem_map.mpr fun f hf => (h.defaults f hf).settled (htypes f hf)⟩
  rw [List.map_map]
  exact h.distinct

/-- **A schema can be built exactly of a sound definition**, and then it has
the given fields in the given order, with nothing changed but the defaults,
which are in normal form. To read back what was written of a value, a
default or another, never fails. What has been built is built again from
its own name, doc and fields, the same schema, which equals itself. -/
theorem Schema.build_exact (htypes : ∀ f ∈ fields, f.type.Built) :
    ((∃ s, Schema.build name doc fields = .ok s) ↔ IsSound name fields) ∧
    (∀ t : FieldType, t.Built → ∀ v json, t.encode false v = .ok json →
      t.decode true json = .ok (t.normal v)) ∧
    ∀ s, Schema.build name doc fields = .ok s →
      s = ⟨name, doc, fields.map fun f => ⟨f.name, f.type, f.default.map f.type.normal, f.doc⟩⟩ ∧
      Schema.build s.name s.doc s.fields = .ok s ∧ s.same s = true := by
  refine ⟨?_, fun t ht v json hjson => ht.decode_full hjson true, fun s hs => ?_⟩
  · constructor
    · rintro ⟨s, hs⟩
      exact ((build_eq_ok_iff_isSound htypes).mp hs).1
    · intro hsound
      exact ⟨_, (build_eq_ok_iff_isSound htypes).mpr ⟨hsound, rfl⟩⟩
  · have hbuilt : s.Built := .build htypes hs
    obtain ⟨hsound, rfl⟩ := (build_eq_ok_iff_isSound htypes).mp hs
    refine ⟨rfl, ?_, hbuilt.same_self⟩
    have hagain : ∀ f ∈ fields.map Field.settled, f.type.Built := List.forall_mem_map.mpr htypes
    refine (build_eq_ok_iff_isSound hagain).mpr ⟨hsound.settled htypes, ?_⟩
    have hsettled : (fields.map Field.settled).map Field.settled = fields.map Field.settled := by
      rw [List.map_map]
      exact List.map_congr_left fun f hf => Field.settled_settled (htypes f hf) (hsound.defaults f hf)
    rw [hsettled]

namespace Sample

/-- The fields of a leg of a journey, which starts in Delft unless it says
so: the default has its fields the wrong way round, and waits for an
integer. -/
def legFields : List Field :=
  [⟨"from", .message stop, some (.message ⟨"Stop", [("wait", .integer 3), ("name", .string "Delft")]⟩),
    "where it starts"⟩,
  ⟨"stops", .list (.optional (.message stop)), some (.list [.null, .message ⟨"Stop",
    [("name", .string "Gouda")]⟩]), ""⟩]

theorem legFields_built : ∀ f ∈ legFields, f.type.Built := by
  simp only [legFields, List.forall_mem_cons]
  exact ⟨.message stop_built, .list (.optional (.message stop_built)), nofun⟩

end Sample

theorem Schema.build_exact_leg :
    ∃ s, Schema.build "Leg" "a leg" Sample.legFields = .ok s ∧
      Schema.build s.name s.doc s.fields = .ok s ∧
      s.fields.map Field.default =
        [some (.message ⟨"Stop", [("name", .string "Delft"), ("wait", .number (Binary64.ofInt 3))]⟩),
          some (.list [.null, .message ⟨"Stop",
            [("name", .string "Gouda"), ("wait", .number (.finite .zero))]⟩])] := by
  obtain ⟨hbuilds, -, hagain⟩ := @Schema.build_exact "Leg" "a leg" _ Sample.legFields_built
  have hsound : Schema.IsSound "Leg" Sample.legFields := by
    refine ⟨by decide, by decide, by decide, ?_⟩
    simp only [Sample.legFields, List.forall_mem_cons]
    refine ⟨?_, ?_, nofun⟩
    · rintro v ⟨⟩
      rfl
    · rintro v ⟨⟩
      rfl
  obtain ⟨s, hs⟩ := hbuilds.mpr hsound
  obtain ⟨hparts, hsame, -⟩ := hagain s hs
  exact ⟨s, hs, hsame, by rw [hparts]; rfl⟩

end ServiceContracts
