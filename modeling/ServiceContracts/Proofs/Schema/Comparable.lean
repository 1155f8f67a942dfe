import ServiceContracts.Proofs.Schema.Canonical
/-!
# Where equality is an equivalence

Equality of values is transitive everywhere, and symmetric where no
message has a field twice (`Value.Keyed.same_symm`). It is not reflexive:
a NaN differs from itself, and so does every value that holds one, at
whatever depth. Nothing else does (`Value.Keyed.same_self_iff`), and a NaN
never comes out of a payload. So equality is an equivalence on the values
it is asked about (`Value.Comparable`): the defaults that building keeps
and the instances that validation gives.

A value that equals another is without NaNs already, on both sides, and
without repetitions on both sides if it is on one. That is why the laws
ask so little.
-/


namespace ServiceContracts

variable {v w : Value}

/-! ## Values that equal themselves -/

/-- **No number in the value is a NaN.** -/
inductive Value.NanFree : Value → Prop
  | null : NanFree .null
  | boolean (b : Bool) : NanFree (.boolean b)
  | integer (n : Int64) : NanFree (.integer n)
  | number {x : Binary64} (h : x ≠ .nan) : NanFree (.number x)
  | string (s : String) : NanFree (.string s)
  | list {items : List Value} (h : ∀ v ∈ items, NanFree v) : NanFree (.list items)
  | message {m : Instance} (h : ∀ e ∈ m.fields, NanFree e.2) : NanFree (.message m)

theorem Binary64.same_self_iff {x : Binary64} : x.same x = true ↔ x ≠ .nan := by
  cases x <;> simp [Binary64.same]

/-- **What equals anything holds no NaN.** -/
theorem Value.nanFree_of_same (h : v.same w = true) : v.NanFree := by
  induction v using Value.induction generalizing w with
  | null => exact .null
  | boolean b => exact .boolean b
  | integer n => exact .integer n
  | string s => exact .string s
  | number x =>
    refine .number ?_
    rintro rfl
    cases w <;> simp [Value.same, Binary64.same] at h
  | list items ih =>
    cases w <;> simp only [Value.same, Bool.false_eq_true] at h
    refine .list fun v hv => ?_
    obtain ⟨w, -, hsame⟩ := exists_of_forall₂_left (Value.itemsSame_iff.mp h) hv
    exact ih v hv hsame
  | message m ih =>
    cases w <;> simp only [Value.same, Bool.false_eq_true] at h
    refine .message fun e he => ?_
    obtain ⟨w, -, hsame⟩ := (Instance.same_iff.mp h).2.2 e he
    exact ih e he hsame

/-- **And what holds none equals itself**, if no message in it has a field
twice: each field then finds itself on the other side. -/
theorem Value.Keyed.same_self (hk : v.Keyed) (hn : v.NanFree) : v.same v = true := by
  induction v using Value.induction with
  | number x =>
    cases hn with
    | number hx =>
      rw [Value.same]
      exact Binary64.same_self_iff.mpr hx
  | list items ih =>
    cases hk with
    | list hkeyed =>
      cases hn with
      | list hfree =>
        rw [Value.same_list, Value.itemsSame_iff]
        exact List.forall₂_same.mpr fun v hv => ih v hv (hkeyed v hv) (hfree v hv)
  | message m ih =>
    cases hk with
    | message hkeys hkeyed =>
      cases hn with
      | message hfree =>
        rw [Value.same_message, Instance.same_iff]
        refine ⟨rfl, rfl, fun e he => ⟨e.2, ?_, ih e he (hkeyed e he) (hfree e he)⟩⟩
        exact Entries.get?_eq_some_of_mem hkeys he
  | _ => simp [Value.same]

/-- **A value equals itself exactly when it holds no NaN.** -/
theorem Value.Keyed.same_self_iff (hk : v.Keyed) : v.same v = true ↔ v.NanFree :=
  ⟨Value.nanFree_of_same, hk.same_self⟩

/-! ## Repetitions on one side and on the other -/

/-- What equals a value without repetitions has none either. -/
theorem Value.Keyed.of_same (hv : v.Keyed) (h : v.same w = true) : w.Keyed := by
  induction v using Value.induction generalizing w with
  | list items ih =>
    cases hv with
    | list hitems =>
      cases w <;> simp only [Value.same, Bool.false_eq_true] at h
      refine .list fun w hw => ?_
      obtain ⟨v, hv, hsame⟩ := exists_of_forall₂_right (Value.itemsSame_iff.mp h) hw
      exact ih v hv (hitems v hv) hsame
  | message m ih =>
    cases hv with
    | message hkeys hvalues =>
      cases w <;> simp only [Value.same, Bool.false_eq_true] at h
      have hperm := Instance.keys_perm_of_same hkeys h
      have hnodup := hperm.nodup_iff.mp hkeys
      refine .message hnodup fun e he => ?_
      -- the field of that name in the first message is the one that equals this
      obtain ⟨e', he', hname⟩ := List.mem_map.mp (hperm.mem_iff.mpr (List.mem_map_of_mem he))
      obtain ⟨w, hw, hsame⟩ := (Instance.same_iff.mp h).2.2 e' he'
      obtain rfl : e.2 = w := by
        refine Option.some.inj (Eq.trans ?_ hw)
        rw [hname]
        exact (Entries.get?_eq_some_of_mem hnodup he).symm
      exact ih e' he' (hvalues e' he') hsame
  | _ =>
    cases w <;> simp only [Value.same, Bool.false_eq_true] at h
    constructor

/-- Another order of fields repeats none of them. -/
theorem Value.Keyed.of_reordered (hv : v.Keyed) (h : v.Reordered w) : w.Keyed := by
  induction v using Value.induction generalizing w with
  | list items ih =>
    cases hv with
    | list hitems =>
      cases h with
      | list h =>
        refine .list fun w hw => ?_
        obtain ⟨v, hv, hvw⟩ := exists_of_forall₂_right h hw
        exact ih v hv (hitems v hv) hvw
  | message m ih =>
    cases hv with
    | message hkeys hvalues =>
      cases h with
      | message hperm hmatched =>
        have hnodup := hperm.nodup_iff.mp hkeys
        refine .message hnodup fun e he => ?_
        obtain ⟨e', he', hname⟩ := List.mem_map.mp (hperm.mem_iff.mpr (List.mem_map_of_mem he))
        have hthere : Entries.get? _ e.1 = some e.2 := Entries.get?_eq_some_of_mem hnodup he
        have hhere : Entries.get? _ e.1 = some e'.2 :=
          Entries.get?_eq_some_of_mem hkeys (hname ▸ he')
        exact ih e' he' (hvalues e' he') (hmatched e.1 e'.2 e.2 hhere hthere)
  | _ =>
    cases h
    exact hv

/-- Setting fields one after the other repeats none of them. -/
theorem Value.keyed_ofFields {schema : String} {fields : List (String × Value)}
    (h : ∀ e ∈ fields, e.2.Keyed) : (Value.message (Instance.ofFields schema fields)).Keyed := by
  have hset : ∀ (rest : List (String × Value)) (m : Entries String Value),
      (∀ e ∈ rest, e.2.Keyed) → (Entries.keys m).Nodup → (∀ e ∈ m, e.2.Keyed) →
      (Entries.keys (rest.foldl (fun m e => Entries.set m e.1 e.2) m)).Nodup ∧
        ∀ e ∈ rest.foldl (fun m e => Entries.set m e.1 e.2) m, e.2.Keyed := by
    intro rest
    induction rest with
    | nil => exact fun m _ hkeys hm => ⟨hkeys, hm⟩
    | cons first rest ih =>
      intro m hrest hkeys hm
      obtain ⟨hfirst, hrest⟩ := List.forall_mem_cons.mp hrest
      refine ih _ hrest (Entries.nodup_keys_set hkeys first.1 first.2) fun e he => ?_
      rcases Entries.mem_of_mem_set he with he | rfl
      · exact hm e he
      · exact hfirst
  obtain ⟨hkeys, hvalues⟩ := hset fields [] h List.nodup_nil nofun
  exact .message hkeys hvalues

/-! ## Orders do not show -/

/-- **Equality does not see the order of fields on the left** either: it is
turned round, where it does not see it on the right. -/
theorem Value.Keyed.same_eq_of_reordered {v' : Value} (hv : v.Keyed) (h : v.Reordered v') :
    v.same w = v'.same w := by
  have hturn : ∀ {a b : Value}, a.Keyed → b.Keyed → w.same a = w.same b →
      a.same w = true → b.same w = true := by
    intro a b ha hb heq hsame
    have hback : w.same b = true := heq ▸ ha.same_symm hsame
    exact (ha.of_same hsame).same_symm hback
  have heq : w.same v = w.same v' := Value.same_eq_of_reordered h
  have hv' : v'.Keyed := hv.of_reordered h
  exact Bool.eq_iff_iff.mpr ⟨hturn hv hv' heq, hturn hv' hv heq.symm⟩

/-! ## Values that are compared -/

/-- **A value that equality is an equivalence on**: no message in it has a
field twice, and no number in it is a NaN. -/
structure Value.Comparable (v : Value) : Prop where
  keyed : v.Keyed
  nanFree : v.NanFree

/-- Values of built types are such. -/
theorem FieldType.Built.comparable_of_conforms {t : FieldType} (ht : t.Built) (h : t.Conforms v) :
    v.Comparable :=
  ⟨ht.keyed_of_conforms h, Value.nanFree_of_same (ht.value_same_self h)⟩

/-- So is every default that building keeps. -/
theorem Schema.Built.comparable_default {s : Schema} (hs : s.Built) {f : Field}
    (hf : f ∈ s.fields) (h : f.default = some v) : v.Comparable := by
  have hdefault : f.effectiveDefault = some v := by rw [Field.effectiveDefault, h]
  exact (hs.fieldType hf).comparable_of_conforms (hs.conforms_effectiveDefault hf hdefault)

/-- And every instance that validation gives. -/
theorem Schema.Built.comparable_of_validate {s : Schema} (hs : s.Built) {config : Config}
    {payload : Json} {m : Instance} (h : s.validate config payload = .ok m) :
    (Value.message m).Comparable := by
  have hconf := hs.conforms_of_decode (Schema.validate_eq_ok_iff.mp h)
  exact (FieldType.Built.message hs).comparable_of_conforms ⟨m, rfl, hconf⟩

theorem Value.Comparable.equivalence :
    Equivalence fun v w : { v : Value // v.Comparable } => v.1.same w.1 = true where
  refl v := v.2.keyed.same_self v.2.nanFree
  symm {v _} h := v.2.keyed.same_symm h
  trans h h' := Value.same_trans h h'

/-- **Equality is an equivalence exactly where it is relied on.** It is
transitive on all values, and among values whose messages have no field
twice it is symmetric, and holds of a value and itself exactly when there
is no NaN in it. Setting fields never gives a message one of them twice, so
these are all values that there are. Defaults of built schemas and
validated instances have no NaN, so on them it is an equivalence.
Reordering the fields of any message inside either side changes nothing,
and instances are compared as the values that hold them. -/
theorem Value.same_equivalence :
    (∀ u v w : Value, u.same v = true → v.same w = true → u.same w = true) ∧
    (∀ v w : Value, v.Keyed → v.same w = true → w.same v = true) ∧
    (∀ v : Value, v.Keyed → (v.same v = true ↔ v.NanFree)) ∧
    (∀ schema fields, (∀ e ∈ fields, Value.Keyed e.2) →
      (Value.message (Instance.ofFields schema fields)).Keyed) ∧
    (∀ s : Schema, s.Built → ∀ f ∈ s.fields, ∀ d, f.default = some d → d.Comparable) ∧
    (∀ s : Schema, s.Built → ∀ config payload m, s.validate config payload = .ok m →
      (Value.message m).Comparable) ∧
    Equivalence (fun v w : { v : Value // v.Comparable } => v.1.same w.1 = true) ∧
    (∀ v v' w w' : Value, v.Keyed → v.Reordered v' → w.Reordered w' → v.same w = v'.same w') ∧
    ∀ m n : Instance, m.same n = (Value.message m).same (.message n) := by
  refine ⟨fun _ _ _ => Value.same_trans, fun _ _ => Value.Keyed.same_symm,
    fun _ => Value.Keyed.same_self_iff, fun _ _ => Value.keyed_ofFields,
    fun _ hs _ hf _ => hs.comparable_default hf,
    fun _ hs _ _ _ => hs.comparable_of_validate, Value.Comparable.equivalence,
    fun v v' w w' hv hvv' hww' => ?_, fun _ _ => Value.same_message.symm⟩
  rw [hv.same_eq_of_reordered hvv']
  exact Value.same_eq_of_reordered hww'

namespace Sample

theorem eveningRoute_keyed : (Value.message eveningRoute).Keyed := by
  have hstop : (Value.message ⟨"Stop", [("wait", .number (.finite .zero)),
      ("name", .string "Delft")]⟩).Keyed := by
    refine .message (by decide) ?_
    simp only [List.forall_mem_cons]
    exact ⟨.number _, .string _, nofun⟩
  refine .message (by decide) ?_
  simp only [eveningRoute, List.forall_mem_cons]
  refine ⟨.string _, .list ?_, nofun⟩
  simp only [List.forall_mem_cons]
  exact ⟨.null, hstop, nofun⟩

/-- A value with a NaN two levels down. -/
def unread : Value := .list [.null, .message ⟨"Stop", [("wait", .number .nan)]⟩]

theorem unread_keyed : unread.Keyed := by
  refine .list ?_
  simp only [List.forall_mem_cons]
  refine ⟨.null, .message (by decide) ?_, nofun⟩
  simp only [List.forall_mem_cons]
  exact ⟨.number _, nofun⟩

end Sample

/-- A route equals the same route with its fields, and those of its stop,
the other way round, and is equalled by it. What has a NaN deep inside
does not even equal itself. -/
theorem Value.same_equivalence_eveningRoute :
    (Value.message Sample.eveningRoute).same (.message Sample.orderedRoute) = true ∧
    (Value.message Sample.orderedRoute).same (.message Sample.eveningRoute) = true ∧
    Sample.unread.same Sample.unread = false := by
  obtain ⟨-, hsymm, hself, -, -, -, -, hreordered, -⟩ := Value.same_equivalence
  have hturned := Value.reordered_message_iff.mpr Sample.eveningRoute_reordered
  have hsame : (Value.message Sample.eveningRoute).same (.message Sample.orderedRoute) = true := by
    rw [← hreordered _ _ _ _ Sample.eveningRoute_keyed (.refl _) hturned]
    with_unfolding_all rfl
  refine ⟨hsame, hsymm _ _ Sample.eveningRoute_keyed hsame, Bool.eq_false_iff.mpr fun h => ?_⟩
  cases (hself _ Sample.unread_keyed).mp h with
  | list hitems =>
    cases hitems (.message ⟨"Stop", [("wait", .number .nan)]⟩) (by simp) with
    | message hfields =>
      cases hfields ("wait", .number .nan) (by simp) with
      | number hne => exact hne rfl

end ServiceContracts
