import ServiceContracts.Proofs.Schema.Following
import ServiceContracts.Proofs.Schema.Sameness
import ServiceContracts.Proofs.Schema.WriteReports
import Mathlib.Data.List.Nodup
/-!
# Errors lead to what they are about

Reading and writing gather offenses from the parts of what they are given,
each under the step that leads to the part. So no two offenses have one
place, and each place can be followed to what is wrong
(`Subject.Located`). Where the names can stand in a path the texts tell the
places apart, and an error can be found again by its path
(`Schema.Built.errors_located`).
-/


namespace ServiceContracts

variable {α : Type} {subject : Subject α} {t t' : FieldType} {v v' : α} {step : Step}
  {reason : Reason}

/-! ## One offense at a place -/

/-- Offenses that were found under steps, in the whole. -/
def Offense.gathered (branches : List (Step × List Offense)) : List Offense :=
  branches.flatMap fun b => b.2.map (Offense.under b.1)

/-- What is found under the steps into a message: the offenses of its fields,
and one for each name that is unknown. -/
def Schema.branches (s : Schema) (os : Field → List Offense) (unknown : List String) :
    List (Step × List Offense) :=
  (s.fields.map fun f => (.field f.name, os f)) ++
    unknown.map fun name => (.field name, [⟨[], .unknownField⟩])

theorem Schema.steps_branches {s : Schema} {os : Field → List Offense} {unknown : List String} :
    (s.branches os unknown).map Prod.fst = (s.fieldNames ++ unknown).map Step.field := by
  rw [branches, fieldNames, List.map_append, List.map_append, List.map_map, List.map_map,
    List.map_map]
  rfl

theorem Schema.gathered_branches {s : Schema} {os : Field → List Offense} {unknown : List String} :
    Offense.gathered (s.branches os unknown) =
      (s.fields.flatMap fun f => (os f).map (Offense.under (.field f.name))) ++
        unknown.map fun name => ⟨[.field name], .unknownField⟩ := by
  rw [Offense.gathered, branches, List.flatMap_append, List.flatMap_map, List.flatMap_map,
    List.map_eq_flatMap]
  rfl

namespace Subject

/-- **Offenses are located**: no two in one place, and each where something is
wrong. -/
structure Located (subject : Subject α) (t : FieldType) (v : α) (os : List Offense) : Prop where
  distinct : (os.map Offense.place).Nodup
  faulty : ∀ o ∈ os, subject.Faulty t v o.place o.reason

theorem Located.nil : subject.Located t v [] := ⟨List.nodup_nil, nofun⟩

theorem Located.single {o : Offense} (h : subject.Faulty t v o.place o.reason) :
    subject.Located t v [o] :=
  ⟨List.nodup_singleton _, List.forall_mem_singleton.mpr h⟩

theorem Located.refused (h : subject.Refuses t v reason) : subject.Located t v [⟨[], reason⟩] :=
  .single (.refused rfl rfl h)

theorem Located.optional {inner : FieldType} {os : List Offense}
    (hrefuses : ∀ reason, subject.Refuses inner v reason →
      subject.Refuses (.optional inner) v reason)
    (h : subject.Located inner v os) : subject.Located (.optional inner) v os :=
  ⟨h.distinct, fun o ho => (h.faulty o ho).optional hrefuses⟩

/-- Offenses of a part are offenses of the whole. -/
theorem Located.under {os : List Offense} (htype : t.part? step = some t')
    (hvalue : subject.part? v step = some v') (h : subject.Located t' v' os) :
    subject.Located t v (os.map (Offense.under step)) := by
  refine ⟨?_, List.forall_mem_map.mpr fun o ho => (h.faulty o ho).under htype hvalue⟩
  have hplaces : (os.map (Offense.under step)).map Offense.place =
      (os.map Offense.place).map (step :: ·) := by
    rw [List.map_map, List.map_map]
    rfl
  rw [hplaces]
  exact h.distinct.map (List.cons_injective)

/-- **Offenses under different steps are in different places.** -/
theorem Located.gathered {branches : List (Step × List Offense)}
    (hnodup : (branches.map Prod.fst).Nodup)
    (h : ∀ b ∈ branches, subject.Located t v (b.2.map (Offense.under b.1))) :
    subject.Located t v (Offense.gathered branches) := by
  induction branches with
  | nil => exact .nil
  | cons b rest ih =>
    obtain ⟨hnew, hnodup⟩ := List.nodup_cons.mp hnodup
    obtain ⟨hb, hrest⟩ := List.forall_mem_cons.mp h
    have hothers := ih hnodup hrest
    rw [Offense.gathered, List.flatMap_cons]
    refine ⟨?_, List.forall_mem_append.mpr ⟨hb.faulty, hothers.faulty⟩⟩
    rw [List.map_append, List.nodup_append]
    refine ⟨hb.distinct, hothers.distinct, ?_⟩
    -- a place on the one side begins with a step that none on the other side begins with
    intro place hplace other hother heq
    obtain ⟨o, ho, rfl⟩ := List.mem_map.mp hplace
    obtain ⟨o', ho', hplaces⟩ := List.mem_map.mp hother
    obtain ⟨inner, -, rfl⟩ := List.mem_map.mp ho
    obtain ⟨b', hb', ho'⟩ := List.mem_flatMap.mp ho'
    obtain ⟨inner', -, rfl⟩ := List.mem_map.mp ho'
    have hsteps : b'.1 = b.1 := (List.cons.inj (hplaces.trans heq.symm)).1
    exact hnew (hsteps ▸ List.mem_map_of_mem hb')

/-- **The offenses of a list** are those of its items. -/
theorem Located.items {element : FieldType} {items : List α} {os : α → List Offense}
    (hitems : ∀ i, subject.part? v (.index i) = items[i]?)
    (h : ∀ item ∈ items, subject.Located element item (os item)) :
    subject.Located (.list element) v
      (Offense.gathered (items.mapIdx fun i item => (.index i, os item))) := by
  refine .gathered ?_ fun b hb => ?_
  · have hsteps : (items.mapIdx fun i item => (Step.index i, os item)).map Prod.fst =
        (List.range items.length).map Step.index := by
      refine List.ext_getElem (by simp) fun i hi hi' => ?_
      simp
    rw [hsteps]
    exact List.nodup_range.map fun i j h => Step.index.inj h
  · obtain ⟨i, hi, rfl⟩ := List.mem_mapIdx.mp hb
    have hpart : subject.part? v (.index i) = some items[i] := by
      rw [hitems, List.getElem?_eq_getElem hi]
    exact Located.under rfl hpart (h _ (List.getElem_mem hi))

/-- **The offenses of a message** are those of its fields, and the names that
its schema does not declare. -/
theorem Located.message {schema : Schema} {os : Field → List Offense} {unknown : List String}
    (hnodup : schema.fieldNames.Nodup) (hunknown : unknown.Nodup)
    (hfields : ∀ f ∈ schema.fields,
      subject.Located (.message schema) v ((os f).map (Offense.under (.field f.name))))
    (hnames : ∀ name ∈ unknown, name ∉ schema.fieldNames ∧
      subject.Faulty (.message schema) v [.field name] .unknownField) :
    subject.Located (.message schema) v (Offense.gathered (schema.branches os unknown)) := by
  have hdisjoint : ∀ name ∈ schema.fieldNames, ∀ other ∈ unknown, name ≠ other := by
    rintro name hname other hother rfl
    exact (hnames name hother).1 hname
  refine .gathered ?_ fun b hb => ?_
  · rw [Schema.steps_branches]
    have hall := List.nodup_append.mpr ⟨hnodup, hunknown, hdisjoint⟩
    exact hall.map fun _ _ h => Step.field.inj h
  · rcases List.mem_append.mp hb with hb | hb
    · obtain ⟨f, hf, rfl⟩ := List.mem_map.mp hb
      exact hfields f hf
    · obtain ⟨name, hname, rfl⟩ := List.mem_map.mp hb
      exact .single (hnames name hname).2

end Subject

/-! ## Reading and writing -/

/-- The offenses of items, under their indexes. -/
theorem Checked.offenses_items {β γ : Type} {check : γ → Checked β} {items : List γ} :
    Checked.offenses (Checked.all (items.mapIdx fun i item => (check item).under (.index i))) =
      Offense.gathered (items.mapIdx fun i item => (.index i, Checked.offenses (check item))) := by
  rw [offenses_all, Offense.gathered, List.mapIdx_eq_zipIdx_map, List.mapIdx_eq_zipIdx_map,
    List.flatMap_map, List.flatMap_map]
  simp only [offenses_under]

/-- The names that a schema does not declare. -/
def Schema.strangers (s : Schema) (names : List String) : List String :=
  names.filter fun name => name ∉ s.fieldNames

theorem Schema.mem_strangers_iff {s : Schema} {names : List String} {name : String} :
    name ∈ s.strangers names ↔ name ∈ names ∧ name ∉ s.fieldNames := by
  simp [strangers]

/-- **What is wrong with an object**, step by step. -/
theorem Schema.offenses_decode_eq_gathered {strict : Bool} {s : Schema}
    {members : List (String × Json)} :
    Checked.offenses (s.decode strict (.object members)) = Offense.gathered (s.branches
      (fun f => Checked.offenses (f.check strict (Entries.get? members f.name)))
      (if strict then s.strangers (Entries.keys members) else [])) := by
  rw [offenses_decode, gathered_branches]
  simp only [Field.offenses_decode]
  congr 1
  unfold undeclared
  split
  · exact s.filterMap_unknown _
  · rfl

/-- What is found at a field of an instance, from the value held for it or
the lack of one. -/
def Field.heldOffenses (f : Field) : Option Value → List Offense
  | some v => Checked.offenses (f.type.encode false v)
  | none =>
    match f.effectiveDefault with
    | some _ => []
    | none => [⟨[], .missingField⟩]

/-- **One field of an instance.** A default is written in its place, and
nothing is ever wrong with that. -/
theorem Schema.Built.offenses_encode_field {s : Schema} (hs : s.Built) {f : Field}
    (hf : f ∈ s.fields) (m : Instance) :
    Checked.offenses (f.encode false m) =
      (f.heldOffenses (m.get? f.name)).map (Offense.under (.field f.name)) := by
  have hwritten : ∀ v, f.held m = some v → Checked.offenses (f.encode false m) =
      (Checked.offenses (f.type.encode false v)).map (Offense.under (.field f.name)) := by
    intro v hheld
    rw [f.encode_of_held hheld, Checked.offenses_under, Bool.false_and, if_neg Bool.false_ne_true,
      Checked.offenses_map]
  cases hmember : m.get? f.name with
  | some v => exact hwritten v (by rw [Field.held, hmember, Option.some_or])
  | none =>
    have hheld : f.held m = f.effectiveDefault := by rw [Field.held, hmember, Option.none_or]
    rw [Field.heldOffenses]
    cases hdefault : f.effectiveDefault with
    | some d =>
      have hconf : f.type.Conforms d := hs.conforms_effectiveDefault hf hdefault
      have hnone := FieldType.exists_encode_iff.mp ((hs.fieldType hf).exists_encode hconf false)
      rw [hwritten d (hheld.trans hdefault), hnone]
    | none =>
      rw [f.encode_of_held_none (hheld.trans hdefault), Checked.offenses_under]
      rfl

/-- **What is wrong with an instance**, step by step. -/
theorem Schema.Built.offenses_encode_eq_gathered {s : Schema} (hs : s.Built) (m : Instance) :
    Checked.offenses (s.encode false m) = Offense.gathered (s.branches
      (fun f => f.heldOffenses (m.get? f.name)) (s.strangers (Entries.keys m.fields))) := by
  have hsurplus : surplus s.fields m.fields =
      (s.strangers (Entries.keys m.fields)).map fun name => ⟨[.field name], .unknownField⟩ :=
    s.filterMap_unknown _
  rw [Schema.offenses_encode, gathered_branches, hsurplus, List.flatMap_def, List.flatMap_def,
    List.map_congr_left fun f hf => hs.offenses_encode_field hf m]

/-- In a schema each name finds its own field. -/
theorem Schema.Built.part?_field {s : Schema} (hs : s.Built) {f : Field} (hf : f ∈ s.fields) :
    (FieldType.message s).part? (.field f.name) = some f.type := by
  have hfind : s.field? f.name = some f := find?_key_eq_some hs.fieldNames_nodup hf
  rw [FieldType.part?, hfind, Option.map_some]

/-- A key that an object has leads to its member. -/
theorem Entries.exists_get?_of_mem_keys {β : Type} {entries : Entries String β} {key : String}
    (h : key ∈ Entries.keys entries) : ∃ value, Entries.get? entries key = some value := by
  rw [← Option.ne_none_iff_exists']
  exact mt Entries.get?_eq_none_iff.mp (not_not_intro h)

/-- **What a reading finds is located**: in different places, and each where
something is wrong. -/
theorem FieldType.Built.located_decode (ht : t.Built) {payload : Json} (hpayload : payload.Keyed)
    (strict : Bool) :
    (Subject.payload strict).Located t payload (Checked.offenses (t.decode strict payload)) := by
  induction ht using FieldType.Built.induction generalizing payload with
  | scalar s =>
    cases h : s.decode payload with
    | ok v =>
      rw [FieldType.decode_scalar_eq_ok_iff.mpr h]
      exact .nil
    | error reason =>
      have hrefuse : (FieldType.scalar s).decode strict payload = Checked.refuse reason := by
        rw [FieldType.decode, h]
      rw [hrefuse]
      exact .refused hrefuse
  | list element _ ih =>
    cases payload with
    | array items =>
      rw [FieldType.decode, Checked.offenses_map, Checked.offenses_items]
      have hitems := Json.keyed_array_iff.mp hpayload
      exact Subject.Located.items (fun i => rfl) fun item hitem => ih (hitems item hitem)
    | _ => exact .refused rfl
  | optional inner _ ih =>
    by_cases hnull : payload = .null
    · subst hnull
      exact .nil
    · rw [FieldType.decode_optional hnull]
      refine (ih hpayload).optional fun reason h => ?_
      exact (FieldType.decode_optional hnull).trans h
  | message schema hs ih =>
    cases payload with
    | object members =>
      obtain ⟨hkeys, hmembers⟩ := Json.keyed_object_iff.mp hpayload
      rw [FieldType.decode, Checked.offenses_map, Schema.offenses_decode_eq_gathered]
      refine Subject.Located.message hs.fieldNames_nodup ?_ (fun f hf => ?_) fun name hname => ?_
      · split
        · exact hkeys.filter _
        · exact List.nodup_nil
      · cases hmember : Entries.get? members f.name with
        | some member =>
          have hmem := Entries.mem_of_get?_eq_some hmember
          exact .under (hs.part?_field hf) hmember (ih f hf (hmembers _ hmem))
        | none =>
          rw [Field.check]
          cases hdefault : f.effectiveDefault with
          | some d => exact .nil
          | none => exact .single (.missing [] rfl rfl ⟨members, rfl⟩ hf hdefault hmember)
      · split at hname
        · next hstrict =>
          obtain ⟨hkey, hnew⟩ := Schema.mem_strangers_iff.mp hname
          obtain ⟨member, hmember⟩ := Entries.exists_get?_of_mem_keys hkey
          exact ⟨hnew, .unknown [] rfl rfl ⟨members, rfl⟩ hstrict hnew hmember⟩
        · cases hname
    | _ =>
      cases schema
      exact .refused rfl

/-- **What a writing finds is located** as well. -/
theorem FieldType.Built.located_encode (ht : t.Built) {v : Value} (hv : v.Keyed) :
    Subject.held.Located t v (Checked.offenses (t.encode false v)) := by
  induction ht using FieldType.Built.induction generalizing v with
  | scalar s =>
    cases h : s.encode v with
    | ok json =>
      rw [FieldType.encode_scalar_eq_ok_iff.mpr h]
      exact .nil
    | error reason =>
      have hrefuse : (FieldType.scalar s).encode false v = Checked.refuse reason := by
        rw [FieldType.encode, h]
      rw [hrefuse]
      exact .refused hrefuse
  | list element _ ih =>
    cases hv with
    | list hitems =>
      rw [FieldType.encode, Checked.offenses_map, Checked.offenses_items]
      exact Subject.Located.items (fun i => rfl) fun item hitem => ih (hitems item hitem)
    | _ => exact .refused rfl
  | optional inner _ ih =>
    by_cases hnull : v = .null
    · subst hnull
      exact .nil
    · rw [FieldType.encode_optional hnull]
      refine (ih hv).optional fun reason h => ?_
      exact (FieldType.encode_optional hnull).trans h
  | message schema hs ih =>
    cases hv with
    | @message m hkeys hvalues =>
      by_cases hname : m.schema = schema.name
      · rw [FieldType.encode, if_pos hname, hs.offenses_encode_eq_gathered]
        refine Subject.Located.message hs.fieldNames_nodup (hkeys.filter _) (fun f hf => ?_)
          fun name hstranger => ?_
        · cases hmember : m.get? f.name with
          | some v =>
            have hmem := Entries.mem_of_get?_eq_some hmember
            exact .under (hs.part?_field hf) hmember (ih f hf (hvalues _ hmem))
          | none =>
            rw [Field.heldOffenses]
            cases hdefault : f.effectiveDefault with
            | some d => exact .nil
            | none => exact .single (.missing [] rfl rfl ⟨m, rfl, hname⟩ hf hdefault hmember)
        · obtain ⟨hkey, hnew⟩ := Schema.mem_strangers_iff.mp hstranger
          obtain ⟨v, hv⟩ := Entries.exists_get?_of_mem_keys hkey
          exact ⟨hnew, .unknown [] rfl rfl ⟨m, rfl, hname⟩ rfl hnew hv⟩
      · have hrefuse : (FieldType.message schema).encode false (.message m) = Checked.refuse
            (.mismatch (schema.name ++ " message") (m.schema ++ " message")) := by
          rw [FieldType.encode, if_neg hname]
        rw [hrefuse]
        exact .refused hrefuse
    | _ => exact .refused rfl

/-! ## Reported errors -/

/-- **A list of errors leads to what is wrong**: the paths are distinct, each
finds its own error in the list, and each is taken apart in one way only,
into a place where something is wrong for the reason that is given. -/
structure Subject.Locates (subject : Subject α) (t : FieldType) (v : α) (errors : FieldErrors) :
    Prop where
  distinct : (errors.map FieldError.field).Nodup
  found : ∀ e ∈ errors, errors.get? e.field = some e
  leads : ∀ e ∈ errors, ∃ place reason, place.Plain ∧ place.spelled = e.field ∧
    (∀ other : Place, other.Plain → other.spelled = e.field → other = place) ∧
    reason.message = e.reason ∧ subject.Faulty t v place reason

/-- **Located offenses are reported as errors that lead back to them**, where
the names can stand in a path. -/
theorem Subject.Located.locates {s : Schema} {os : List Offense}
    (h : subject.Located (.message s) v os) (hempty : "" ∉ s.fieldNames)
    (hnames : ∀ name, (FieldType.message s).Declares name → PlainName name)
    (hkeys : ∀ name, subject.HasKey v name → PlainName name) :
    subject.Locates (.message s) v (os.map Offense.report) := by
  have hplain : ∀ o ∈ os, o.place.Plain := fun o ho => (h.faulty o ho).plain hnames hkeys
  have hobject : ∀ o ∈ os, o.place.IntoObject := fun o ho => (h.faulty o ho).intoObject hempty
  have htext : ∀ o ∈ os, o.report.field = o.place.spelled :=
    fun o ho => Place.text_eq_spelled (hobject o ho)
  have hdistinct : ((os.map Offense.report).map FieldError.field).Nodup := by
    rw [List.map_map]
    refine List.Nodup.map_on (fun o ho o' ho' heq => ?_) (List.Nodup.of_map _ h.distinct)
    have hspelled : o.place.spelled = o'.place.spelled :=
      (htext o ho).symm.trans (heq.trans (htext o' ho'))
    have hplace := Place.eq_of_spelled_eq (hobject o ho) (hplain o ho) (hplain o' ho') hspelled
    exact List.inj_on_of_nodup_map h.distinct ho ho' hplace
  refine ⟨hdistinct, fun e he => find?_key_eq_some hdistinct he, ?_⟩
  rintro e he
  obtain ⟨o, ho, rfl⟩ := List.mem_map.mp he
  refine ⟨o.place, o.reason, hplain o ho, (htext o ho).symm, fun other hother hspelled => ?_, rfl,
    h.faulty o ho⟩
  exact (Place.eq_of_spelled_eq (hobject o ho) (hplain o ho) hother
    ((htext o ho).symm.trans hspelled.symm)).symm

/-- **Error paths identify offenses.** Where no name that a built schema
declares, at any depth, and no key of a payload has a point or an opening
bracket in it or is the sign of the root, the paths in the list of errors
are distinct, each is taken apart in one way only, and following it leads
to what is wrong there, or to the object that a field is missing in. So
each error is found by its path. The same is true of an instance that is
serialized, and of the names in it. -/
theorem Schema.Built.errors_located {s : Schema} (hs : s.Built)
    (hnames : ∀ name, (FieldType.message s).Declares name → PlainName name) (config : Config) :
    (∀ payload schema errors, payload.Keyed →
      (∀ key, (Subject.payload config.strict).HasKey payload key → PlainName key) →
      s.validate config payload = .error (.rejected schema errors) →
      (Subject.payload config.strict).Locates (.message s) payload errors) ∧
    ∀ m schema errors, (Value.message m).Keyed →
      (∀ name, Subject.held.HasKey (.message m) name → PlainName name) →
      s.serialize config m = .error (.rejected schema errors) →
      Subject.held.Locates (.message s) (.message m) errors := by
  have ht := FieldType.Built.message hs
  have hempty : "" ∉ s.fieldNames := by
    intro hname
    obtain ⟨f, hf, hblank⟩ := List.mem_map.mp hname
    have hvisible := hs.fieldName_visible hf
    rw [hblank, Text.isBlank_empty] at hvisible
    cases hvisible
  constructor
  · intro payload schema errors hkeyed hkeys herrors
    have hlocated := ht.located_decode hkeyed config.strict
    rw [FieldType.decode, Checked.offenses_map] at hlocated
    have hlocates := hlocated.locates hempty hnames hkeys
    unfold Schema.validate Schema.read at herrors
    cases hread : s.decode config.strict payload with
    | ok m => simp [hread] at herrors
    | error offenses =>
      rw [hread] at herrors hlocates
      cases herrors
      exact hlocates
  · intro m schema errors hkeyed hkeys herrors
    have hlocated := ht.located_encode hkeyed
    unfold Schema.serialize at herrors
    split at herrors
    · next hname =>
      rw [FieldType.encode, if_pos hname, ← hs.offenses_encode] at hlocated
      have hlocates := hlocated.locates hempty hnames hkeys
      cases hwritten : s.encode config.compact m with
      | ok json => simp [hwritten] at herrors
      | error offenses =>
        rw [hwritten] at herrors hlocates
        cases herrors
        exact hlocates
    · cases herrors

namespace Sample

theorem plain_of_route_declares {name : String} (h : (FieldType.message route).Declares name) :
    PlainName name := by
  simp (disch := decide) only [route, stop, Schema.declares_iff, Schema.fieldNames, List.map_cons,
    List.map_nil, List.mem_cons, List.not_mem_nil, or_false, exists_eq_or_imp, exists_eq_left,
    FieldType.declares_list_iff, FieldType.declares_optional_iff,
    FieldType.not_declares_scalar] at h
  rcases h with (rfl | rfl) | rfl | rfl <;> decide

theorem plain_of_nameless_hasKey {key : String} (h : (Subject.payload true).HasKey nameless key) :
    PlainName key := by
  simp (disch := decide) only [nameless, Json.hasKey_object_iff, Json.hasKey_array_iff,
    Entries.keys, List.map_cons, List.map_nil, List.mem_cons, List.not_mem_nil, or_false,
    exists_eq_or_imp, exists_eq_left] at h
  -- four keys, and four values that have none
  rcases h with (rfl | rfl | rfl) | h | ((rfl | h) | h) | h
  all_goals first
    | decide
    | exact absurd h (Subject.not_hasKey_of_part?_eq_none fun _ => rfl)

theorem plain_of_misbuilt_hasKey {name : String}
    (h : Subject.held.HasKey (.message misbuilt) name) : PlainName name := by
  simp (disch := decide) only [misbuilt, Value.hasKey_message_iff, Value.hasKey_list_iff,
    Entries.keys, List.map_cons, List.map_nil, List.mem_cons, List.not_mem_nil, or_false,
    exists_eq_or_imp, exists_eq_left, false_and, exists_false, false_or] at h
  rcases h with (rfl | rfl | rfl | rfl) | h | (((rfl | rfl) | h | h) | h) | h | h
  all_goals first
    | decide
    | exact absurd h (Subject.not_hasKey_of_part?_eq_none fun _ => rfl)

theorem misbuilt_keyed : (Value.message misbuilt).Keyed := by
  have hstop : (Value.message
      ⟨"Stop", [("wait", .number .nan), ("platform", .integer 2)]⟩).Keyed := by
    refine .message (by decide) ?_
    simp only [List.forall_mem_cons]
    exact ⟨.number _, .integer _, nofun⟩
  have hstops : (Value.list [.message ⟨"Halt", []⟩, .message ⟨"Stop",
      [("wait", .number .nan), ("platform", .integer 2)]⟩, .null]).Keyed := by
    refine .list ?_
    simp only [List.forall_mem_cons]
    exact ⟨.message (by decide) nofun, hstop, .null, nofun⟩
  refine .message (by decide) ?_
  simp only [misbuilt, List.forall_mem_cons]
  exact ⟨.string _, hstops, .integer _, .boolean _, nofun⟩

end Sample

/-- Of a payload and of an instance with much wrong, each with its errors:
every path among them leads to what it is about. -/
theorem Schema.Built.errors_located_route :
    Sample.route.validate ⟨true, false⟩ Sample.nameless =
      .error (.rejected "Route" Sample.namelessErrors) ∧
    (Subject.payload true).Locates (.message Sample.route) Sample.nameless Sample.namelessErrors ∧
    Sample.route.serialize ⟨true, false⟩ Sample.misbuilt =
      .error (.rejected "Route" Sample.misbuiltErrors) ∧
    Subject.held.Locates (.message Sample.route) (.message Sample.misbuilt)
      Sample.misbuiltErrors := by
  obtain ⟨hreads, hwrites⟩ := Schema.Built.errors_located Sample.route_built
    (fun _ => Sample.plain_of_route_declares) ⟨true, false⟩
  have hread : Sample.route.validate ⟨true, false⟩ Sample.nameless =
      .error (.rejected "Route" Sample.namelessErrors) := by
    with_unfolding_all rfl
  have hwrite : Sample.route.serialize ⟨true, false⟩ Sample.misbuilt =
      .error (.rejected "Route" Sample.misbuiltErrors) := by
    with_unfolding_all rfl
  refine ⟨hread, hreads _ _ _ ?_ (fun _ => Sample.plain_of_nameless_hasKey) hread, hwrite,
    hwrites _ _ _ Sample.misbuilt_keyed (fun _ => Sample.plain_of_misbuilt_hasKey) hwrite⟩
  simp [Sample.nameless]
  decide

end ServiceContracts
