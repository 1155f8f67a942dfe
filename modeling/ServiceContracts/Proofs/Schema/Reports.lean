import ServiceContracts.Proofs.Schema.Reading
import Mathlib.Data.List.Basic
/-!
# What a rejected payload is told

The errors of a payload have a definition of their own, by recursion on
the type and the payload (`Schema.reports`): it goes down with the text of
the path, looks at one member at a time, and knows nothing of the reading
that gathers offenses. Validation gives exactly that list: nothing is lost
or said twice, and there is an instance exactly when the list is empty.

The reading keeps a place as a list of steps, and only a report makes text
of it. Rendering under a path (`Place.textFrom`) is what joins the two: a
step in front of a place is a step at the end of the path. For a field
this needs its name to be there, as a built schema sees to.
-/


namespace ServiceContracts

/-! ## The errors, from the type and the payload -/

/-- A JSON value is admitted as a scalar. An integer is what denotes one of
64 bits, however the number is written. -/
def Scalar.Admits : Scalar → Json → Prop
  | .string, .string _ => True
  | .number, .number _ => True
  | .boolean, .boolean _ => True
  | .integer, .number n => ∃ k : Int64, n.ticks = k.toInt * Binary64.ticksPerUnit
  | _, _ => False

/-- Why a JSON value is not admitted. Only a number that was written as an
integer is out of range; a double that large is a mismatch. -/
def Scalar.refusal : Scalar → Json → Reason
  | .integer, .number (.whole _) => .integerOutOfRange
  | s, payload => .mismatch s.text payload.kind

/-- A path as a report shows it: the root is the dollar sign. -/
def shownPath (path : String) : String := if path.isEmpty then "$" else path

/-- The error at a path itself. -/
def errorAt (path : String) (reason : Reason) : FieldErrors := [⟨shownPath path, reason.message⟩]

/-- The errors of the undeclared members of an object, in payload order. -/
def Schema.unknownReports (strict : Bool) (s : Schema) (path : String)
    (members : List (String × Json)) : FieldErrors :=
  if strict then
    ((Entries.keys members).filter fun key => key ∉ s.fieldNames).map fun key =>
      ⟨Step.addTo path (.field key), Reason.unknownField.message⟩
  else []

/-- An integer is read exactly from what denotes one. -/
theorem Scalar.exists_decodeInteger_iff {n : Json.Number} :
    (∃ v, decodeInteger n = .ok v) ↔ Scalar.integer.Admits (.number n) := by
  simp only [decodeInteger_eq_ok_iff]
  constructor
  · rintro ⟨-, k, -, hk⟩
    exact ⟨k, hk⟩
  · rintro ⟨k, hk⟩
    exact ⟨.integer k, k, rfl, hk⟩

/-- **A scalar is read exactly where it is admitted.** -/
theorem Scalar.exists_decode_iff {s : Scalar} {payload : Json} :
    (∃ v, s.decode payload = .ok v) ↔ s.Admits payload := by
  cases s <;> cases payload <;> first
    | exact Scalar.exists_decodeInteger_iff
    | simp [decode, Admits]

/-- And what is not admitted is refused for its reason. -/
theorem Scalar.decode_eq_error {s : Scalar} {payload : Json} (h : ¬ s.Admits payload) :
    s.decode payload = .error (s.refusal payload) := by
  rw [← exists_decode_iff] at h
  cases s with
  -- an integer has two ways to go wrong, and a double only one of them
  | integer =>
    cases payload with
    | number n =>
      cases n with
      | whole n =>
        simp only [decode, decodeInteger] at h ⊢
        by_cases hlt : n.val < 2 ^ 63
        · exact absurd ⟨_, if_pos hlt⟩ h
        · rw [if_neg hlt, refusal]
      | double x =>
        simp only [decode, decodeInteger] at h ⊢
        by_cases hfits : (x.isWhole && x.fitsInt64) = true
        · exact absurd ⟨_, if_pos hfits⟩ h
        · exact if_neg hfits
    | _ => rfl
  | _ =>
    cases payload <;> first
      | rfl
      | exact absurd ⟨_, rfl⟩ h

instance (s : Scalar) (payload : Json) : Decidable (s.Admits payload) :=
  match h : s.decode payload with
  | .ok v => isTrue (Scalar.exists_decode_iff.mp ⟨v, h⟩)
  | .error _ => isFalse fun hadmits => by
    obtain ⟨v, hv⟩ := Scalar.exists_decode_iff.mpr hadmits
    rw [h] at hv; cases hv

mutual

/-- The errors of a JSON value at a path, against a type. -/
def FieldType.reports (strict : Bool) : FieldType → String → Json → FieldErrors
  | .scalar s, path, payload => if s.Admits payload then [] else errorAt path (s.refusal payload)
  | .optional inner, path, payload =>
    match payload with
    | .null => []
    | payload => inner.reports strict path payload
  | .list element, path, payload =>
    match payload with
    | .array items =>
      (items.mapIdx fun i item => element.reports strict (Step.addTo path (.index i)) item).flatten
    | payload => errorAt path (.mismatch (FieldType.list element).text payload.kind)
  | .message schema, path, payload => schema.reports strict path payload

/-- The errors of a JSON value at a path, against a schema: those of its
fields in declaration order, then those of its undeclared members. -/
def Schema.reports (strict : Bool) : Schema → String → Json → FieldErrors
  | ⟨name, doc, fields⟩, path, payload =>
    match payload with
    | .object members =>
      Schema.fieldReports strict fields path members ++
        Schema.unknownReports strict ⟨name, doc, fields⟩ path members
    | payload => errorAt path (.mismatch (name ++ " object") payload.kind)

/-- The errors of the fields of an object, in declaration order. -/
def Schema.fieldReports (strict : Bool) :
    List Field → String → List (String × Json) → FieldErrors
  | [], _, _ => []
  | f :: rest, path, members =>
    f.reports strict path (Entries.get? members f.name) ++
      Schema.fieldReports strict rest path members

/-- The errors of one field, from its own member or the lack of it. -/
def Field.reports (strict : Bool) : Field → String → Option Json → FieldErrors
  | ⟨name, type, default, doc⟩, path, member =>
    match member with
    | some payload => type.reports strict (Step.addTo path (.field name)) payload
    | none =>
      match Field.effectiveDefault ⟨name, type, default, doc⟩ with
      | some _ => []
      | none => [⟨Step.addTo path (.field name), Reason.missingField.message⟩]

end

variable {strict : Bool} {path : String}

theorem Schema.fieldReports_eq_flatMap {fields : List Field} {members : List (String × Json)} :
    fieldReports strict fields path members =
      fields.flatMap fun f => f.reports strict path (Entries.get? members f.name) := by
  induction fields with
  | nil => rfl
  | cons f rest ih => rw [fieldReports, ih, List.flatMap_cons]

/-! ## Rendering under a path -/

/-- The text of a place, seen from a path to the value it is in. -/
def Place.textFrom (path : String) (place : Place) : String :=
  match place with
  | [] => shownPath path
  | steps => steps.foldl Step.addTo path

/-- The report of an offense, seen from a path. -/
def Offense.reportFrom (path : String) (o : Offense) : FieldError :=
  ⟨o.place.textFrom path, o.reason.message⟩

/-- From the root it is the report that validation gives. -/
theorem Offense.reportFrom_root : Offense.reportFrom "" = Offense.report := by
  funext ⟨place, reason⟩
  cases place <;> rfl

/-- A step in front of the place is a step at the end of the path. -/
theorem Offense.reportFrom_under {step : Step} (h : Step.addTo path step ≠ "") (o : Offense) :
    (o.under step).reportFrom path = o.reportFrom (Step.addTo path step) := by
  obtain ⟨place, reason⟩ := o
  have htext : Place.textFrom path (step :: place) = place.textFrom (Step.addTo path step) := by
    cases place with
    | nil => simp [Place.textFrom, shownPath, h]
    | cons next rest => rfl
  rw [Offense.under, reportFrom, reportFrom, htext]

theorem Offense.map_reportFrom_under {step : Step} (h : Step.addTo path step ≠ "")
    (os : List Offense) :
    (os.map (Offense.under step)).map (Offense.reportFrom path) =
      os.map (Offense.reportFrom (Step.addTo path step)) := by
  rw [List.map_map]
  exact List.map_congr_left fun o _ => Offense.reportFrom_under h o

theorem Step.addTo_index_ne_empty (i : Nat) : Step.addTo path (.index i) ≠ "" := by
  simp [Step.addTo, String.append_eq_empty_iff]

theorem Step.addTo_field_ne_empty {name : String} (h : Text.isBlank name = false) :
    Step.addTo path (.field name) ≠ "" := by
  have hname : name ≠ "" := by
    rintro rfl
    simp [Text.isBlank_empty] at h
  by_cases hpath : path = ""
  · simp [Step.addTo, hpath, hname]
  · simp [Step.addTo, hpath, String.append_eq_empty_iff]

/-! ## The reading finds these errors -/

/-- The reports of what a check finds, seen from a path. -/
def Checked.reportsFrom {α : Type} (path : String) (c : Checked α) : FieldErrors :=
  (Checked.offenses c).map (Offense.reportFrom path)

theorem Checked.reportsFrom_refuse {α : Type} (reason : Reason) :
    Checked.reportsFrom path (Checked.refuse reason : Checked α) = errorAt path reason := rfl

theorem Checked.reportsFrom_map {α β : Type} (f : α → β) (c : Checked α) :
    Checked.reportsFrom path (c.map f) = Checked.reportsFrom path c := by
  rw [reportsFrom, offenses_map, reportsFrom]

theorem Checked.reportsFrom_both {α β : Type} (a : Checked α) (b : Checked β) :
    Checked.reportsFrom path (Checked.both a b) =
      Checked.reportsFrom path a ++ Checked.reportsFrom path b := by
  rw [reportsFrom, offenses_both, List.map_append, reportsFrom, reportsFrom]

theorem Checked.reportsFrom_under {α : Type} {step : Step} (h : Step.addTo path step ≠ "")
    (c : Checked α) :
    Checked.reportsFrom path (c.under step) = Checked.reportsFrom (Step.addTo path step) c := by
  rw [reportsFrom, offenses_under, Offense.map_reportFrom_under h, reportsFrom]

/-- Items report in index order, each under its index. -/
theorem Checked.reportsFrom_items {α γ : Type} {check : γ → Checked α} {items : List γ} :
    Checked.reportsFrom path
        (Checked.all (items.mapIdx fun i item => (check item).under (.index i))) =
      (items.mapIdx fun i item =>
        Checked.reportsFrom (Step.addTo path (.index i)) (check item)).flatten := by
  rw [reportsFrom, offenses_all, List.map_flatMap, List.flatMap_def, List.mapIdx_eq_zipIdx_map,
    List.mapIdx_eq_zipIdx_map, List.map_map]
  refine congrArg List.flatten (List.map_congr_left fun ⟨item, i⟩ _ => ?_)
  exact reportsFrom_under (Step.addTo_index_ne_empty i) (check item)

theorem Schema.reportsFrom_undeclared {s : Schema} {members : List (String × Json)} :
    (undeclared strict s.fields members).map (Offense.reportFrom path) =
      s.unknownReports strict path members := by
  unfold undeclared unknownReports
  split
  · rw [s.filterMap_unknown, List.map_map]
    rfl
  · rfl

/-- **One field**, in any object. -/
theorem Field.reportsFrom_decode {f : Field} {members : List (String × Json)}
    (hname : Text.isBlank f.name = false)
    (htype : ∀ path payload,
      Checked.reportsFrom path (f.type.decode strict payload) = f.type.reports strict path payload) :
    Checked.reportsFrom path (f.decode strict members) =
      f.reports strict path (Entries.get? members f.name) := by
  obtain ⟨name, type, default, doc⟩ := f
  rw [Field.decode, Checked.reportsFrom_map,
    Checked.reportsFrom_under (Step.addTo_field_ne_empty hname)]
  cases hmember : Entries.get? members name with
  | some payload => exact htype _ payload
  | none =>
    cases hdefault : Field.effectiveDefault ⟨name, type, default, doc⟩ with
    | some v => simp [Field.reports, hdefault, Checked.reportsFrom, Checked.offenses]
    | none =>
      -- a missing field is reported under its own name, which is not empty
      have hpath : Step.addTo path (.field name) ≠ "" := Step.addTo_field_ne_empty hname
      simp [Field.reports, hdefault, Checked.reportsFrom_refuse, errorAt, shownPath, hpath]

theorem Schema.reportsFrom_decodeFields {fields : List Field} {members : List (String × Json)}
    (h : ∀ f ∈ fields, Checked.reportsFrom path (f.decode strict members) =
      f.reports strict path (Entries.get? members f.name)) :
    Checked.reportsFrom path (decodeFields strict fields members) =
      fieldReports strict fields path members := by
  induction fields with
  | nil => rfl
  | cons f rest ih =>
    rw [decodeFields, Checked.reportsFrom_map, Checked.reportsFrom_both, h f (by simp),
      ih fun g hg => h g (List.mem_cons_of_mem f hg), fieldReports]

/-- **One schema**, from its fields. -/
theorem Schema.reportsFrom_decode {s : Schema} {payload : Json}
    (h : ∀ f ∈ s.fields, ∀ members, Checked.reportsFrom path (f.decode strict members) =
      f.reports strict path (Entries.get? members f.name)) :
    Checked.reportsFrom path (s.decode strict payload) = s.reports strict path payload := by
  obtain ⟨name, doc, fields⟩ := s
  cases payload with
  | object members =>
    rw [Schema.decode, Checked.reportsFrom_map, Checked.reportsFrom_both,
      reportsFrom_decodeFields fun f hf => h f hf members, Checked.reportsFrom,
      Checked.offenses_ofOffenses, reports]
    congr 1
    exact reportsFrom_undeclared (s := ⟨name, doc, fields⟩)
  | _ => rfl

/-- **Every type**: the offenses of the reading, rendered, are the errors. -/
theorem FieldType.Built.reportsFrom_decode {t : FieldType} (ht : t.Built) (path : String)
    (payload : Json) :
    Checked.reportsFrom path (t.decode strict payload) = t.reports strict path payload := by
  -- the path grows on the way down, so the induction is for every path
  induction ht using FieldType.Built.induction generalizing path payload with
  | scalar s =>
    rw [FieldType.decode, FieldType.reports]
    by_cases hadmits : s.Admits payload
    · obtain ⟨v, hv⟩ := Scalar.exists_decode_iff.mpr hadmits
      rw [hv, if_pos hadmits]
      rfl
    · rw [Scalar.decode_eq_error hadmits, if_neg hadmits]
      rfl
  | list element _ ih =>
    cases payload with
    | array items =>
      rw [FieldType.decode, Checked.reportsFrom_map, Checked.reportsFrom_items, FieldType.reports]
      simp only [ih]
    | _ => rfl
  | optional inner _ ih =>
    cases payload with
    | null => rfl
    | _ => exact ih path _
  | message schema hs ih =>
    rw [FieldType.decode, Checked.reportsFrom_map, FieldType.reports]
    refine Schema.reportsFrom_decode fun f hf members => ?_
    exact Field.reportsFrom_decode (hs.fieldName_visible hf) fun path payload =>
      ih f hf path payload

theorem Schema.Built.reportsFrom_decode {s : Schema} (hs : s.Built) (path : String)
    (payload : Json) :
    Checked.reportsFrom path (s.decode strict payload) = s.reports strict path payload := by
  refine Schema.reportsFrom_decode fun f hf members => ?_
  exact Field.reportsFrom_decode (hs.fieldName_visible hf) fun path payload =>
    (hs.fieldType hf).reportsFrom_decode path payload

/-! ## No failure without an offense -/

/-- A failed check says why. -/
def Checked.Grounded {α : Type} (c : Checked α) : Prop := c ≠ .error []

namespace Checked.Grounded

variable {α β : Type} {a : Checked α} {b : Checked β}

theorem ok (x : α) : Grounded (.ok x) := nofun

theorem refuse (reason : Reason) : Grounded (Checked.refuse reason : Checked α) := nofun

theorem under (h : a.Grounded) (step : Step) : Grounded (Checked.under step a) := by
  cases a with
  | ok x => exact .ok x
  | error os =>
    intro hnil
    exact h (congrArg Except.error (List.map_eq_nil_iff.mp (Except.error.inj hnil)))

theorem map (h : a.Grounded) (f : α → β) : Grounded (a.map f) := by
  cases a with
  | ok x => exact .ok (f x)
  | error os => exact fun hnil => h (congrArg Except.error (Except.error.inj hnil))

theorem both (ha : a.Grounded) (hb : b.Grounded) : Grounded (Checked.both a b) := by
  cases a with
  | ok x =>
    cases b with
    | ok y => exact .ok (x, y)
    | error os => exact fun hnil => hb (congrArg Except.error (Except.error.inj hnil))
  | error os =>
    cases b with
    | ok y => exact fun hnil => ha (congrArg Except.error (Except.error.inj hnil))
    | error more =>
      -- already the first half says why
      intro hnil
      have hos : os = [] := (List.append_eq_nil_iff.mp (Except.error.inj hnil)).1
      exact ha (congrArg Except.error hos)

theorem all {cs : List (Checked α)} (h : ∀ c ∈ cs, Grounded c) : Grounded (Checked.all cs) := by
  induction cs with
  | nil => exact .ok []
  | cons c rest ih =>
    exact ((h c (by simp)).both (ih fun d hd => h d (List.mem_cons_of_mem c hd))).map _

theorem ofOffenses (os : List Offense) : Grounded (Checked.ofOffenses os) := by
  cases os <;> nofun

/-- So there is a result exactly when there are no offenses. -/
theorem offenses_eq_nil_iff (h : a.Grounded) : Checked.offenses a = [] ↔ ∃ x, a = .ok x := by
  cases a with
  | ok x => simp [Checked.offenses]
  | error os =>
    have hne : os ≠ [] := fun hnil => h (congrArg Except.error hnil)
    simp [Checked.offenses, hne]

end Checked.Grounded

theorem Field.decode_grounded {f : Field} {members : List (String × Json)}
    (h : ∀ payload, (f.type.decode strict payload).Grounded) :
    (f.decode strict members).Grounded := by
  obtain ⟨name, type, default, doc⟩ := f
  rw [Field.decode]
  refine Checked.Grounded.map (Checked.Grounded.under ?_ _) _
  cases Entries.get? members name with
  | some payload => exact h payload
  | none =>
    cases Field.effectiveDefault ⟨name, type, default, doc⟩ with
    | some v => exact .ok v
    | none => exact .refuse .missingField

theorem Schema.decode_grounded {s : Schema} {payload : Json}
    (h : ∀ f ∈ s.fields, ∀ payload, (f.type.decode strict payload).Grounded) :
    (s.decode strict payload).Grounded := by
  obtain ⟨name, doc, fields⟩ := s
  cases payload with
  | object members =>
    rw [Schema.decode]
    refine Checked.Grounded.map (Checked.Grounded.both ?_ (.ofOffenses _)) _
    induction fields with
    | nil => exact .ok []
    | cons f rest ih =>
      rw [decodeFields]
      exact ((Field.decode_grounded (h f (by simp))).both
        (ih fun g hg => h g (List.mem_cons_of_mem f hg))).map _
  | _ => exact .refuse _

theorem FieldType.decode_grounded (t : FieldType) (payload : Json) :
    (t.decode strict payload).Grounded := by
  induction t using FieldType.induction generalizing payload with
  | scalar s =>
    rw [FieldType.decode]
    cases s.decode payload with
    | ok v => exact .ok v
    | error reason => exact .refuse reason
  | list element ih =>
    cases payload with
    | array items =>
      rw [FieldType.decode]
      refine Checked.Grounded.map (Checked.Grounded.all fun c hc => ?_) _
      obtain ⟨i, hi, rfl⟩ := List.mem_mapIdx.mp hc
      exact (ih items[i]).under _
    | _ => exact .refuse _
  | optional inner ih =>
    cases payload with
    | null => exact Checked.Grounded.ok Value.null
    | _ => exact ih _
  | message schema ih => exact (Schema.decode_grounded ih).map _

/-! ## Validation -/

/-- **Validation reports every error, each once and in order**, and accepts
exactly when there is none. In an object the errors of a field are read
from its own member alone. -/
theorem Schema.Built.validate_reports {s : Schema} (hs : s.Built) (config : Config)
    (payload : Json) :
    ((∃ m, s.validate config payload = .ok m) ↔ s.reports config.strict "" payload = []) ∧
      (∀ e, s.validate config payload = .error e →
        e = .rejected s.name (s.reports config.strict "" payload) ∧
          s.reports config.strict "" payload ≠ []) ∧
      ∀ path members, s.reports config.strict path (.object members) =
        (s.fields.flatMap fun f => f.reports config.strict path (Entries.get? members f.name)) ++
          s.unknownReports config.strict path members := by
  have hground : (s.decode config.strict payload).Grounded :=
    Schema.decode_grounded fun f _ => f.type.decode_grounded
  have hreports : (Checked.offenses (s.decode config.strict payload)).map Offense.report =
      s.reports config.strict "" payload := by
    rw [← Offense.reportFrom_root]
    exact hs.reportsFrom_decode "" payload
  have hnil : s.reports config.strict "" payload = [] ↔
      ∃ m, s.decode config.strict payload = .ok m := by
    rw [← hreports, List.map_eq_nil_iff, hground.offenses_eq_nil_iff]
  refine ⟨?_, fun e he => ?_, fun path members => ?_⟩
  · rw [hnil]
    simp only [Schema.validate_eq_ok_iff]
  · unfold Schema.validate Schema.read at he
    cases hdecode : s.decode config.strict payload with
    | ok m => simp [hdecode] at he
    | error offenses =>
      rw [hdecode] at he hreports
      refine ⟨?_, fun hempty => ?_⟩
      · rw [← hreports]
        exact (Except.error.inj he).symm
      · obtain ⟨m, hm⟩ := hnil.mp hempty
        rw [hdecode] at hm
        cases hm
  · obtain ⟨name, doc, fields⟩ := s
    rw [Schema.reports, Schema.fieldReports_eq_flatMap]

/-- A route with a stop that has no name, a stop that is none, and a member
nobody declared. -/
def Sample.nameless : Json :=
  .object [("kind", .string "night"), ("stops", .array [.object [("wait", .boolean true)],
    .string "Delft"]), ("note", .null)]

/-- What a strict validation says about it. -/
def Sample.namelessErrors : FieldErrors :=
  [⟨"stops[0].name", "missing required field"⟩,
    ⟨"stops[0].wait", "expected number, found boolean"⟩,
    ⟨"stops[1]", "expected Stop object, found string"⟩, ⟨"kind", "unknown field"⟩]

theorem Schema.Built.validate_reports_nameless :
    Sample.route.validate ⟨true, false⟩ Sample.nameless =
      .error (.rejected "Route" Sample.namelessErrors) := by
  obtain ⟨haccepts, hrejects, -⟩ :=
    Schema.Built.validate_reports Sample.route_built ⟨true, false⟩ Sample.nameless
  have hreports : Sample.route.reports true "" Sample.nameless = Sample.namelessErrors := rfl
  rw [hreports] at haccepts hrejects
  cases hresult : Sample.route.validate ⟨true, false⟩ Sample.nameless with
  | ok m => exact absurd (haccepts.mp ⟨m, hresult⟩) (List.cons_ne_nil _ _)
  | error e => rw [(hrejects e hresult).1]; rfl

end ServiceContracts
