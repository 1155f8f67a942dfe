import ServiceContracts.Proofs.Schema.OneField
import Mathlib.Data.List.Forall2
import Mathlib.Data.List.Perm.Basic
/-!
# Payloads in another order

Two payloads may differ in the order of the keys of their objects, at any
depth, and in nothing else (`Json.Reordered`). A reading looks each field
up by its key, so of that order it sees one thing only: in strict mode
the undeclared keys are gone through as they stand, and so are the
offenses they are. `Checked.SameOutcome` says what two such readings have
in common, and every step of a reading keeps it.
-/


namespace ServiceContracts

/-! ## Entries in another order -/

namespace Entries

variable {κ α β : Type} [DecidableEq κ]

/-- **Entries with the same keys in some order**, and with related values
under each key. -/
structure Matched (R : α → β → Prop) (m : Entries κ α) (n : Entries κ β) : Prop where
  keys_perm : (keys m).Perm (keys n)
  values : ∀ key v w, get? m key = some v → get? n key = some w → R v w

variable {R : α → β → Prop} {m : Entries κ α} {n : Entries κ β}

/-- Under a key there is something in both, or in neither. -/
theorem Matched.get?_cases (h : Matched R m n) (key : κ) :
    (get? m key = none ∧ get? n key = none) ∨
      ∃ v w, get? m key = some v ∧ get? n key = some w ∧ R v w := by
  have hnone : get? m key = none ↔ get? n key = none := by
    rw [get?_eq_none_iff, get?_eq_none_iff, h.keys_perm.mem_iff]
  cases hm : get? m key with
  | none => exact .inl ⟨rfl, hnone.mp hm⟩
  | some v =>
    have hn : get? n key ≠ none := fun hn => by simp [hnone.mpr hn] at hm
    obtain ⟨w, hw⟩ := Option.ne_none_iff_exists'.mp hn
    exact .inr ⟨v, w, rfl, hw, h.values key v w hm hw⟩

/-- Entries match in their order when they have the same keys one by one. -/
theorem Matched.of_forall₂ (h : List.Forall₂ (fun e e' => e.1 = e'.1 ∧ R e.2 e'.2) m n) :
    Matched R m n := by
  induction h with
  | nil => exact ⟨List.Perm.refl _, nofun⟩
  | @cons e e' rest others he _ ih =>
    obtain ⟨k, x⟩ := e
    obtain ⟨k', y⟩ := e'
    obtain ⟨rfl, hR⟩ : k = k' ∧ R x y := he
    refine ⟨ih.keys_perm.cons k, fun key v w hv hw => ?_⟩
    by_cases hk : k = key
    · obtain rfl : x = v := by simpa [get?, hk] using hv
      obtain rfl : y = w := by simpa [get?, hk] using hw
      exact hR
    · exact ih.values key v w (by simpa [get?, hk] using hv) (by simpa [get?, hk] using hw)

/-- **Entries without repeated keys match every permutation of them**, with
related values in the places of their values. -/
theorem Matched.of_perm {mid : Entries κ α} (hnodup : (keys m).Nodup) (hperm : m.Perm mid)
    (h : List.Forall₂ (fun e e' => e.1 = e'.1 ∧ R e.2 e'.2) mid n) : Matched R m n := by
  have hkeys : (keys m).Perm (keys mid) := hperm.map Prod.fst
  have hmid : Matched R mid n := .of_forall₂ h
  refine ⟨hkeys.trans hmid.keys_perm, fun key v w hv hw => hmid.values key v w ?_ hw⟩
  rw [get?_eq_some_iff (hkeys.nodup_iff.mp hnodup), ← hperm.mem_iff]
  exact mem_of_get?_eq_some hv

end Entries

/-! ## Results but for the order of offenses -/

/-- **The same result, or the same offenses in some order**, and in the same
order where that is asked for. -/
inductive Checked.SameOutcome {α : Type} (ordered : Prop) : Checked α → Checked α → Prop
  | ok (a : α) : SameOutcome ordered (.ok a) (.ok a)
  | error {os others : List Offense} (hperm : os.Perm others) (heq : ordered → os = others) :
      SameOutcome ordered (.error os) (.error others)

namespace Checked.SameOutcome

variable {α β : Type} {ordered : Prop} {c c' : Checked α} {d d' : Checked β}

theorem refl (c : Checked α) : SameOutcome ordered c c := by
  cases c with
  | ok a => exact .ok a
  | error os => exact .error (List.Perm.refl os) fun _ => rfl

theorem under (h : SameOutcome ordered c c') (step : Step) :
    SameOutcome ordered (c.under step) (c'.under step) := by
  cases h with
  | ok a => exact .ok a
  | error hperm heq => exact .error (hperm.map _) fun ho => congrArg _ (heq ho)

theorem map (h : SameOutcome ordered c c') (f : α → β) :
    SameOutcome ordered (c.map f) (c'.map f) := by
  cases h with
  | ok a => exact .ok (f a)
  | error hperm heq => exact .error hperm heq

theorem both (h : SameOutcome ordered c c') (h' : SameOutcome ordered d d') :
    SameOutcome ordered (Checked.both c d) (Checked.both c' d') := by
  cases h with
  | ok a =>
    cases h' with
    | ok b => exact .ok (a, b)
    | error hperm heq => exact .error hperm heq
  | error hperm heq =>
    cases h' with
    | ok b => exact .error hperm heq
    | error hperm' heq' =>
      exact .error (hperm.append hperm') fun ho => congrArg₂ _ (heq ho) (heq' ho)

theorem all {cs cs' : List (Checked α)} (h : List.Forall₂ (SameOutcome ordered) cs cs') :
    SameOutcome ordered (Checked.all cs) (Checked.all cs') := by
  induction h with
  | nil => exact .ok []
  | cons h _ ih => exact (h.both ih).map _

/-- Items that correspond, each under its index. -/
theorem items {γ : Type} {R : γ → γ → Prop} {check : γ → Checked α} {items others : List γ}
    (h : List.Forall₂ R items others)
    (hcheck : ∀ {item other}, R item other → SameOutcome ordered (check item) (check other)) :
    SameOutcome ordered
      (Checked.all (items.mapIdx fun i item => (check item).under (.index i)))
      (Checked.all (others.mapIdx fun i item => (check item).under (.index i))) := by
  -- the indexes go on from where they stand, so the induction is for any start
  have hfrom : ∀ start : Nat, List.Forall₂ (SameOutcome ordered)
      (items.mapIdx fun i item => (check item).under (.index (i + start)))
      (others.mapIdx fun i item => (check item).under (.index (i + start))) := by
    induction h with
    | nil => exact fun _ => .nil
    | cons hitem _ ih =>
      intro start
      rw [List.mapIdx_cons, List.mapIdx_cons]
      refine .cons ((hcheck hitem).under _) ?_
      simp only [Nat.add_assoc]
      exact ih (1 + start)
  exact all (hfrom 0)

theorem ofOffenses {os others : List Offense} (hperm : os.Perm others)
    (heq : ordered → os = others) :
    SameOutcome ordered (Checked.ofOffenses os) (Checked.ofOffenses others) := by
  cases os with
  | nil =>
    rw [List.nil_perm.mp hperm]
    exact .ok ()
  | cons o rest =>
    cases others with
    | nil => cases List.perm_nil.mp hperm
    | cons o' rest' => exact .error hperm heq

end Checked.SameOutcome

/-! ## Payloads -/

/-- **Payloads that differ in the order of keys only**: objects have the
same keys in some order, and what they hold under a key may differ in the
same way. -/
inductive Json.Reordered : Json → Json → Prop
  | null : Reordered .null .null
  | boolean (b : Bool) : Reordered (.boolean b) (.boolean b)
  | number (n : Json.Number) : Reordered (.number n) (.number n)
  | string (s : String) : Reordered (.string s) (.string s)
  | array {items others : List Json} (h : List.Forall₂ Reordered items others) :
      Reordered (.array items) (.array others)
  | object {members others : List (String × Json)}
      (hkeys : (Entries.keys members).Perm (Entries.keys others))
      (hvalues : ∀ key v w, Entries.get? members key = some v →
        Entries.get? others key = some w → Reordered v w) :
      Reordered (.object members) (.object others)

theorem Json.reordered_object_iff {members others : List (String × Json)} :
    (Json.object members).Reordered (.object others) ↔
      Entries.Matched Json.Reordered members others := by
  refine ⟨fun h => ?_, fun h => .object h.keys_perm h.values⟩
  cases h with
  | object hkeys hvalues => exact ⟨hkeys, hvalues⟩

theorem Json.Reordered.null_iff {p q : Json} (h : p.Reordered q) : p = .null ↔ q = .null := by
  cases h <;> simp

/-! ## Reading -/

variable {strict : Bool}

/-- The undeclared keys are offenses in their own order, in strict mode. -/
theorem Schema.undeclared_reordered {fields : List Field} {members others : List (String × Json)}
    (hkeys : (Entries.keys members).Perm (Entries.keys others)) :
    Checked.SameOutcome (strict = false) (Checked.ofOffenses (undeclared strict fields members))
      (Checked.ofOffenses (undeclared strict fields others)) := by
  unfold undeclared
  cases strict with
  | true => exact .ofOffenses (hkeys.filterMap _) nofun
  | false => exact .refl _

/-- **One field**, found under its key in both objects or in neither. -/
theorem Field.decode_reordered {f : Field}
    (ih : ∀ {p q : Json}, p.Reordered q →
      Checked.SameOutcome (strict = false) (f.type.decode strict p) (f.type.decode strict q))
    {members others : List (String × Json)}
    (h : Entries.Matched Json.Reordered members others) :
    Checked.SameOutcome (strict = false) (f.decode strict members) (f.decode strict others) := by
  rw [f.decode_eq, f.decode_eq]
  refine Checked.SameOutcome.map (Checked.SameOutcome.under ?_ _) _
  obtain ⟨hm, hn⟩ | ⟨v, w, hv, hw, hvw⟩ := h.get?_cases f.name
  · rw [hm, hn]
    exact .refl _
  · rw [hv, hw]
    exact ih hvw

/-- **One schema**, from its fields. -/
theorem Schema.decode_reordered_of_fields {s : Schema}
    (ih : ∀ f ∈ s.fields, ∀ {p q : Json}, p.Reordered q →
      Checked.SameOutcome (strict = false) (f.type.decode strict p) (f.type.decode strict q))
    {p q : Json} (h : p.Reordered q) :
    Checked.SameOutcome (strict = false) (s.decode strict p) (s.decode strict q) := by
  obtain ⟨name, doc, fields⟩ := s
  cases h with
  | object hkeys hvalues =>
    have h : Entries.Matched Json.Reordered _ _ := ⟨hkeys, hvalues⟩
    rw [Schema.decode, Schema.decode]
    refine Checked.SameOutcome.map
      (Checked.SameOutcome.both ?_ (undeclared_reordered h.keys_perm)) _
    induction fields with
    | nil => exact .ok []
    | cons f rest ihrest =>
      obtain ⟨hf, hrest⟩ := List.forall_mem_cons.mp ih
      rw [decodeFields, decodeFields]
      exact ((Field.decode_reordered hf h).both (ihrest hrest)).map _
  | _ => exact .refl _

/-- **Every type.** -/
theorem FieldType.decode_reordered (t : FieldType) {p q : Json} (h : p.Reordered q) :
    Checked.SameOutcome (strict = false) (t.decode strict p) (t.decode strict q) := by
  induction t using FieldType.induction generalizing p q with
  | scalar s =>
    -- no scalar is read from an array or an object, so nothing is reordered
    cases h with
    | array => cases s <;> exact .refl _
    | object => cases s <;> exact .refl _
    | _ => exact .refl _
  | list element ih =>
    cases h with
    | array h =>
      rw [FieldType.decode, FieldType.decode]
      exact (Checked.SameOutcome.items h ih).map _
    | _ => exact .refl _
  | optional inner ih =>
    by_cases hnull : p = .null
    · rw [hnull, h.null_iff.mp hnull]
      exact .refl _
    · rw [FieldType.decode_optional hnull, FieldType.decode_optional (mt h.null_iff.mpr hnull)]
      exact ih h
  | message schema ih =>
    rw [FieldType.decode, FieldType.decode]
    exact (Schema.decode_reordered_of_fields ih h).map _

/-- And so for a schema. -/
theorem Schema.decode_reordered (s : Schema) {p q : Json} (h : p.Reordered q) :
    Checked.SameOutcome (strict = false) (s.decode strict p) (s.decode strict q) :=
  Schema.decode_reordered_of_fields (fun f _ {_ _} h => f.type.decode_reordered h) h

/-! ## Validation -/

/-- **Validation does not depend on the order of keys.** Payloads that
differ in it only are both accepted, as the same instance, or both
rejected with the same errors in some order; in lenient mode also in the
same order. -/
theorem Schema.validate_reordered (s : Schema) (config : Config) {p q : Json}
    (h : p.Reordered q) :
    (∃ x, s.validate config p = .ok x ∧ s.validate config q = .ok x) ∨
    ∃ errors others, s.validate config p = .error (.rejected s.name errors) ∧
      s.validate config q = .error (.rejected s.name others) ∧ errors.Perm others ∧
      (config.strict = false → errors = others) := by
  have houtcome : Checked.SameOutcome (config.strict = false) (s.decode config.strict p)
      (s.decode config.strict q) := s.decode_reordered h
  unfold validate read
  generalize s.decode config.strict p = c at houtcome
  generalize s.decode config.strict q = c' at houtcome
  cases houtcome with
  | ok x => exact .inl ⟨x, rfl, rfl⟩
  | error hperm heq =>
    exact .inr ⟨_, _, rfl, rfl, hperm.map _, fun hlenient => congrArg _ (heq hlenient)⟩

namespace Sample

/-- A route with members that nobody declared, and with a stop that has one
and is at fault besides. -/
def nightRoute : Json :=
  .object [("kind", .string "night"),
    ("stops", .array [.object [("wait", .boolean true), ("platform", .null)]]),
    ("line", .number (.whole (.ofInt64 4)))]

/-- The same route with its keys in another order, and with those of the
stop the other way round. -/
def turnedRoute : Json :=
  .object [("line", .number (.whole (.ofInt64 4))),
    ("stops", .array [.object [("platform", .null), ("wait", .boolean true)]]),
    ("kind", .string "night")]

theorem nightRoute_reordered : nightRoute.Reordered turnedRoute := by
  have hstop : (Json.object [("wait", .boolean true), ("platform", .null)]).Reordered
      (.object [("platform", .null), ("wait", .boolean true)]) :=
    Json.reordered_object_iff.mpr (.of_perm (by decide) (List.Perm.swap ..)
      (.cons ⟨rfl, .null⟩ (.cons ⟨rfl, .boolean true⟩ .nil)))
  refine Json.reordered_object_iff.mpr (.of_perm (by decide) (List.reverse_perm _).symm ?_)
  exact .cons ⟨rfl, .number _⟩
    (.cons ⟨rfl, .array (.cons hstop .nil)⟩ (.cons ⟨rfl, .string _⟩ .nil))

end Sample

/-- The faults of the stop come first in either order, and the unknown
members as they stand. -/
theorem Schema.validate_reordered_night :
    (∃ errors others,
      Sample.route.validate ⟨true, false⟩ Sample.nightRoute = .error (.rejected "Route" errors) ∧
      Sample.route.validate ⟨true, false⟩ Sample.turnedRoute = .error (.rejected "Route" others) ∧
      errors.Perm others ∧ errors ≠ others) ∧
    ∃ errors,
      Sample.route.validate ⟨false, false⟩ Sample.nightRoute = .error (.rejected "Route" errors) ∧
      Sample.route.validate ⟨false, false⟩ Sample.turnedRoute = .error (.rejected "Route" errors)
    := by
  have hreordered : Sample.nightRoute.Reordered Sample.turnedRoute := Sample.nightRoute_reordered
  constructor
  · obtain ⟨x, hx, -⟩ | ⟨errors, others, herrors, hothers, hperm, -⟩ :=
      Schema.validate_reordered Sample.route ⟨true, false⟩ hreordered
    · cases hx
    · refine ⟨errors, others, herrors, hothers, hperm, ?_⟩
      cases herrors
      cases hothers
      decide
  · obtain ⟨x, hx, -⟩ | ⟨errors, others, herrors, hothers, -, heq⟩ :=
      Schema.validate_reordered Sample.route ⟨false, false⟩ hreordered
    · cases hx
    · exact ⟨errors, herrors, (heq rfl).symm ▸ hothers⟩

end ServiceContracts
