import ServiceContracts.Proofs.Schema.FixedPoint
import ServiceContracts.Proofs.Schema.Offenses
import ServiceContracts.Proofs.Schema.Twins
import ServiceContracts.Proofs.Json.Sameness
/-!
# Equal schemas do the same

Equal schemas may declare their fields in different orders, and go through
a message in these orders. What they find wrong is the same, in another
order (`offenses_decode_perm`, `offenses_encode_perm`), and where nothing
is wrong they give equal results (`same_of_decode`, `same_of_encode`). All
four are inductions over two types at once, down to the types of twins.

Defaults are where the schemas may really differ: one may have zero where
the other has minus zero, and write it. So writing is followed for two
values that correspond (`FieldType.Agree`): one value, or equal ones.
-/


namespace ServiceContracts

variable {strict compact : Bool} {t u : FieldType} {a b : Schema} {twin : Field → Field}

/-! ## Item by item -/

/-- **Results of items that correspond** correspond, when those of single
items do. -/
theorem forall₂_of_map_eq_map_ok {α β γ δ ε : Type} {check : α → Except ε γ}
    {other : β → Except ε δ} {R : α → β → Prop} {S : γ → δ → Prop} {xs : List α} {ys : List β}
    {zs : List γ} {ws : List δ} (hitems : List.Forall₂ R xs ys)
    (h : ∀ {x y z w}, R x y → check x = .ok z → other y = .ok w → S z w)
    (hzs : xs.map check = zs.map .ok) (hws : ys.map other = ws.map .ok) :
    List.Forall₂ S zs ws := by
  induction hitems generalizing zs ws with
  | nil =>
    obtain rfl := List.map_eq_nil_iff.mp hzs.symm
    obtain rfl := List.map_eq_nil_iff.mp hws.symm
    exact .nil
  | cons hR _ ih =>
    obtain ⟨z, zs, rfl, hz, hzs⟩ := List.map_eq_cons_iff.mp hzs.symm
    obtain ⟨w, ws, rfl, hw, hws⟩ := List.map_eq_cons_iff.mp hws.symm
    exact .cons (h hR hz.symm hw.symm) (ih hzs.symm hws.symm)

theorem Checked.offenses_items_perm {α β γ : Type} {check : γ → Checked α} {other : γ → Checked β}
    {items : List γ}
    (h : ∀ item ∈ items, (offenses (check item)).Perm (offenses (other item))) :
    (offenses (all (items.mapIdx fun i item => (check item).under (.index i)))).Perm
      (offenses (all (items.mapIdx fun i item => (other item).under (.index i)))) := by
  simp only [offenses_all, List.mapIdx_eq_zipIdx_map, List.flatMap_map, offenses_under]
  refine List.Perm.flatMap_left _ fun p hp => ?_
  obtain ⟨item, i⟩ := p
  exact (h item (List.fst_mem_of_mem_zipIdx hp)).map _

/-- The fields of a schema and their twins are gone through in different
orders, with the same offenses. -/
theorem Schema.Twins.offenses_fields_perm (h : a.Twins b twin) {find : Field → List Offense}
    (hfind : ∀ f ∈ a.fields, (find f).Perm (find (twin f))) :
    (a.fields.flatMap find).Perm (b.fields.flatMap find) := by
  have htwins : ((a.fields.map twin).flatMap find).Perm (b.fields.flatMap find) :=
    h.perm.flatMap_right find
  rw [List.flatMap_map] at htwins
  exact (List.Perm.flatMap_left _ hfind).trans htwins

/-- What one of them does not declare, the other does not either. -/
theorem Schema.Twins.declares_iff (h : a.Twins b twin) (name : String) :
    (a.fields.any fun f => f.name = name) = b.fields.any fun f => f.name = name := by
  have hnames : (a.fields.map Field.name).Perm (b.fields.map Field.name) := by
    have hmap := h.perm.map Field.name
    rw [List.map_map] at hmap
    rwa [List.map_congr_left fun f hf => (h.fields f hf).name]
  rw [Bool.eq_iff_iff, any_name_iff, any_name_iff, hnames.mem_iff]

/-! ## Reading -/

theorem Field.Twins.offenses_decode_perm {f g : Field} (h : f.Twins g)
    (ih : ∀ payload, (Checked.offenses (f.type.decode strict payload)).Perm
      (Checked.offenses (g.type.decode strict payload))) (members : List (String × Json)) :
    (Checked.offenses (f.decode strict members)).Perm
      (Checked.offenses (g.decode strict members)) := by
  rw [f.offenses_decode, g.offenses_decode, ← h.name]
  refine List.Perm.map _ ?_
  cases Entries.get? members f.name with
  | some payload => exact ih payload
  | none =>
    obtain ⟨hf, hg⟩ | ⟨d, e, hf, hg, -⟩ := h.default
    · simp only [Field.check, hf, hg, Checked.offenses, List.Perm.refl]
    · simp only [Field.check, hf, hg, Checked.offenses, List.Perm.refl]

theorem Schema.Twins.offenses_decode_perm (h : a.Twins b twin)
    (ih : ∀ f ∈ a.fields, ∀ payload, (Checked.offenses (f.type.decode strict payload)).Perm
      (Checked.offenses ((twin f).type.decode strict payload))) (payload : Json) :
    (Checked.offenses (a.decode strict payload)).Perm
      (Checked.offenses (b.decode strict payload)) := by
  cases payload with
  | object members =>
    rw [Schema.offenses_decode, Schema.offenses_decode]
    refine List.Perm.append (h.offenses_fields_perm fun f hf => ?_) ?_
    · exact (h.fields f hf).offenses_decode_perm (ih f hf) members
    · simp only [undeclared, h.declares_iff, List.Perm.refl]
  | _ =>
    -- no object: the one offense names the schema
    have hname := h.name
    obtain ⟨name, doc, fields⟩ := a
    obtain ⟨name', doc', fields'⟩ := b
    obtain rfl : name = name' := hname
    exact List.Perm.refl _

/-- **Equal types find the same wrong with a payload.** -/
theorem FieldType.Built.offenses_decode_perm (ht : t.Built) (hu : u.Built) (h : t.same u = true)
    (payload : Json) :
    (Checked.offenses (t.decode strict payload)).Perm
      (Checked.offenses (u.decode strict payload)) := by
  induction ht, hu, h using FieldType.Built.twinInduction generalizing payload with
  | scalar s => exact List.Perm.refl _
  | list element other _ _ hsame _ ih =>
    cases payload with
    | array items =>
      simp only [FieldType.decode, Checked.offenses_map]
      exact Checked.offenses_items_perm fun item _ => ih item
    | _ =>
      simp only [FieldType.decode, FieldType.text, FieldType.text_eq_of_same hsame]
      exact List.Perm.refl _
  | optional inner other _ _ _ _ ih =>
    by_cases hnull : payload = .null
    · subst hnull
      exact List.Perm.refl _
    · rw [FieldType.decode_optional hnull, FieldType.decode_optional hnull]
      exact ih payload
  | message a b twin _ _ htwins _ ih =>
    simp only [FieldType.decode, Checked.offenses_map]
    exact htwins.offenses_decode_perm ih payload

/-- Messages of equal schemas are compared twin by twin. -/
theorem Schema.Twins.same_holding (h : a.Twins b twin) {value other : Field → Value}
    (hsame : ∀ f ∈ a.fields, (value f).same (other (twin f)) = true) :
    (a.holding value).same (b.holding other) = true := by
  refine Instance.same_iff.mpr ⟨h.name, ?_, List.forall_mem_map.mpr fun f hf => ?_⟩
  · simp only [Schema.holding, List.length_map, h.length_eq]
  · refine ⟨other (twin f), ?_, hsame f hf⟩
    rw [(h.fields f hf).name]
    exact Schema.get?_holding h.distinct (h.mem hf)

/-- What is read for twins is the same: both find the member, or for both
the default stands in. -/
theorem Field.Twins.same_of_decode {f g : Field} (h : f.Twins g) {members : List (String × Json)}
    {e e' : String × Value}
    (ih : ∀ {payload v w}, f.type.decode strict payload = .ok v →
      g.type.decode strict payload = .ok w → v.same w = true)
    (hf : f.decode strict members = .ok e) (hg : g.decode strict members = .ok e') :
    e.2.same e'.2 = true := by
  have hread := (Field.decode_eq_ok_iff.mp hf).2
  have hread' := (Field.decode_eq_ok_iff.mp hg).2
  rw [← h.name] at hread'
  obtain ⟨p, hp, hdecode⟩ | ⟨hnone, hdefault⟩ := hread
  · obtain ⟨p', hp', hdecode'⟩ | ⟨hnone, -⟩ := hread'
    · obtain rfl := Option.some.inj (hp.symm.trans hp')
      exact ih hdecode hdecode'
    · rw [hp] at hnone
      cases hnone
  · obtain ⟨p', hp', -⟩ | ⟨-, hdefault'⟩ := hread'
    · rw [hnone] at hp'
      cases hp'
    · exact (h.same_of_default hdefault hdefault').same

/-- **Messages read for one object are the same.** -/
theorem Schema.Twins.same_of_decode (ha : a.Built) (hb : b.Built) (h : a.Twins b twin)
    {payload : Json} {m n : Instance}
    (ih : ∀ f ∈ a.fields, ∀ {payload v w}, f.type.decode strict payload = .ok v →
      (twin f).type.decode strict payload = .ok w → v.same w = true)
    (hm : a.decode strict payload = .ok m) (hn : b.decode strict payload = .ok n) :
    m.same n = true := by
  obtain ⟨value, rfl, -⟩ := (Schema.conforms_iff ha.fieldNames_nodup).mp (ha.conforms_of_decode hm)
  obtain ⟨other, rfl, -⟩ := (Schema.conforms_iff hb.fieldNames_nodup).mp (hb.conforms_of_decode hn)
  obtain ⟨members, rfl, -, -, hfields⟩ := Schema.decode_eq_ok_iff.mp hm
  obtain ⟨members', heq, -, -, hfields'⟩ := Schema.decode_eq_ok_iff.mp hn
  obtain rfl := Json.object.inj heq
  rw [Schema.holding, List.map_map] at hfields hfields'
  refine h.same_holding fun f hf => ?_
  exact (h.fields f hf).same_of_decode (ih f hf) (List.map_inj_left.mp hfields f hf)
    (List.map_inj_left.mp hfields' _ (h.mem hf))

/-- **Equal types read the same value.** -/
theorem FieldType.Built.same_of_decode (ht : t.Built) (hu : u.Built) (h : t.same u = true)
    {payload : Json} {v w : Value} (hv : t.decode strict payload = .ok v)
    (hw : u.decode strict payload = .ok w) : v.same w = true := by
  induction ht, hu, h using FieldType.Built.twinInduction generalizing payload v w with
  | scalar s =>
    obtain rfl := Except.ok.inj (hv.symm.trans hw)
    have hs := FieldType.Built.scalar s
    exact hs.value_same_self (hs.conforms_of_decode hv)
  | list element other _ _ _ _ ih =>
    obtain ⟨items, values, rfl, rfl, hvalues⟩ := FieldType.decode_list_eq_ok_iff.mp hv
    obtain ⟨items', others, heq, rfl, hothers⟩ := FieldType.decode_list_eq_ok_iff.mp hw
    obtain rfl := Json.array.inj heq
    rw [Value.same_list, Value.itemsSame_iff]
    have hitems : List.Forall₂ (· = ·) items items := List.forall₂_refl items
    refine forall₂_of_map_eq_map_ok hitems (fun hitem hv hw => ?_) hvalues hothers
    subst hitem
    exact ih hv hw
  | optional inner other _ _ _ _ ih =>
    by_cases hnull : payload = .null
    · subst hnull
      obtain rfl := Except.ok.inj hv
      obtain rfl := Except.ok.inj hw
      simp [Value.same]
    · rw [FieldType.decode_optional hnull] at hv hw
      exact ih hv hw
  | message a b twin ha hb htwins _ ih =>
    obtain ⟨m, hm, rfl⟩ := FieldType.decode_message_eq_ok_iff.mp hv
    obtain ⟨n, hn, rfl⟩ := FieldType.decode_message_eq_ok_iff.mp hw
    rw [Value.same_message]
    exact htwins.same_of_decode ha hb (fun f hf => ih f hf) hm hn

/-! ## What corresponds in writing -/

/-- **One value, or equal ones of the two types.** -/
def FieldType.Agree (t u : FieldType) (v w : Value) : Prop := v = w ∨ t.Equals u v w

theorem FieldType.Agree.null_iff {v w : Value} (h : FieldType.Agree t u v w) :
    v = .null ↔ w = .null := by
  obtain rfl | h := h
  · exact Iff.rfl
  · have hsame := h.same
    constructor
    · rintro rfl
      exact Value.eq_null_of_same hsame
    · rintro rfl
      cases v <;> simp_all [Value.same]

/-- The items of lists that correspond. -/
theorem FieldType.Agree.items {items others : List Value}
    (h : FieldType.Agree (.list t) (.list u) (.list items) (.list others)) :
    List.Forall₂ (FieldType.Agree t u) items others := by
  obtain heq | ⟨hconf, hconf', hsame⟩ := h
  · obtain rfl := Value.list.inj heq
    exact List.forall₂_same.mpr fun v _ => .inl rfl
  · obtain ⟨items', heq, hitems⟩ := hconf
    obtain rfl := Value.list.inj heq
    obtain ⟨others', heq', hothers⟩ := hconf'
    obtain rfl := Value.list.inj heq'
    rw [Value.same_list, Value.itemsSame_iff, List.forall₂_iff_get] at hsame
    refine List.forall₂_iff_get.mpr ⟨hsame.1, fun i hi hj => .inr ⟨?_, ?_, hsame.2 i hi hj⟩⟩
    · exact hitems _ (List.get_mem ..)
    · exact hothers _ (List.get_mem ..)

/-- So the one is a default where the other is. -/
theorem Field.Twins.isDefault_eq {f g : Field} (h : f.Twins g) {v w : Value}
    (hagree : FieldType.Agree f.type g.type v w) : f.isDefault v = g.isDefault w := by
  obtain ⟨hf, hg⟩ | ⟨d, e, hf, hg, hdefault⟩ := h.default
  · rw [isDefault, isDefault, hf, hg]
  · rw [isDefault, isDefault, hf, hg, Bool.eq_iff_iff]
    have hback : e.same d = true := (h.left.keyed_of_conforms hdefault.left).same_symm hdefault.same
    constructor
    · intro hd
      have he : e.same v = true := Value.same_trans hback hd
      obtain rfl | hequals := hagree
      · exact he
      · exact Value.same_trans he hequals.same
    · intro he
      have hd : d.same w = true := Value.same_trans hdefault.same he
      obtain rfl | hequals := hagree
      · exact hd
      · have hvalues := (h.left.keyed_of_conforms hequals.left).same_symm hequals.same
        exact Value.same_trans hd hvalues

/-- **What twins hold of one instance**: nothing, the same value, or equal
defaults. -/
theorem Field.Twins.held_cases {f g : Field} (h : f.Twins g) (m : Instance) :
    (f.held m = none ∧ g.held m = none) ∨ (∃ v, f.held m = some v ∧ g.held m = some v) ∨
      ∃ d e, f.held m = some d ∧ g.held m = some e ∧ f.type.Equals g.type d e := by
  unfold held
  rw [← h.name]
  cases m.get? f.name with
  | some v => exact .inr (.inl ⟨v, rfl, rfl⟩)
  | none =>
    obtain hnone | hequals := h.default
    · exact .inl hnone
    · exact .inr (.inr hequals)

theorem Field.Twins.agree_of_held {f g : Field} (h : f.Twins g) {m : Instance} {v w : Value}
    (hv : f.held m = some v) (hw : g.held m = some w) : FieldType.Agree f.type g.type v w := by
  obtain ⟨hnone, -⟩ | ⟨x, hx, hx'⟩ | ⟨d, e, hd, he, hequals⟩ := h.held_cases m
  · rw [hnone] at hv
    cases hv
  · obtain rfl := Option.some.inj (hx.symm.trans hv)
    exact .inl (Option.some.inj (hx'.symm.trans hw))
  · obtain rfl := Option.some.inj (hd.symm.trans hv)
    obtain rfl := Option.some.inj (he.symm.trans hw)
    exact .inr hequals

/-- What twins hold of equal messages of their schemas is equal. -/
theorem Schema.Twins.equals_of_same (h : a.Twins b twin) {value other : Field → Value}
    (hvalue : ∀ f ∈ a.fields, f.type.Conforms (value f))
    (hother : ∀ g ∈ b.fields, g.type.Conforms (other g))
    (hsame : (a.holding value).same (b.holding other) = true) {f : Field} (hf : f ∈ a.fields) :
    FieldType.Equals f.type (twin f).type (value f) (other (twin f)) := by
  refine ⟨hvalue f hf, hother _ (h.mem hf), ?_⟩
  obtain ⟨w, hw, hsame⟩ := Schema.exists_get?_of_same_holding hsame hf
  rw [(h.fields f hf).name, Schema.get?_holding h.distinct (h.mem hf)] at hw
  exact Option.some.inj hw ▸ hsame

/-! ## Offenses in writing -/

theorem Field.Twins.offenses_encode_perm {f g : Field} (h : f.Twins g)
    (ih : ∀ v, (Checked.offenses (f.type.encode compact v)).Perm
      (Checked.offenses (g.type.encode compact v))) (m : Instance) :
    (Checked.offenses (f.encode compact m)).Perm (Checked.offenses (g.encode compact m)) := by
  obtain ⟨hf, hg⟩ | ⟨v, hf, hg⟩ | ⟨d, e, hf, hg, hequals⟩ := h.held_cases m
  · rw [f.encode_of_held_none hf, g.encode_of_held_none hg, h.name]
  · rw [f.encode_of_held hf, g.encode_of_held hg, h.name, ← h.isDefault_eq (.inl rfl),
      Checked.offenses_under, Checked.offenses_under]
    refine List.Perm.map _ ?_
    split
    · exact List.Perm.refl _
    · rw [Checked.offenses_map, Checked.offenses_map]
      exact ih v
  · -- a default is written without offense, whichever of the two it is
    obtain ⟨json, hjson⟩ := h.left.exists_encode hequals.left compact
    obtain ⟨other, hother⟩ := h.right.exists_encode hequals.right compact
    obtain ⟨written, hwritten⟩ := f.exists_encode hf hjson
    obtain ⟨written', hwritten'⟩ := g.exists_encode hg hother
    rw [hwritten, hwritten', Checked.offenses, Checked.offenses]

theorem Schema.Twins.offenses_encode_perm (h : a.Twins b twin)
    (ih : ∀ f ∈ a.fields, ∀ v, (Checked.offenses (f.type.encode compact v)).Perm
      (Checked.offenses ((twin f).type.encode compact v))) (m : Instance) :
    (Checked.offenses (a.encode compact m)).Perm (Checked.offenses (b.encode compact m)) := by
  rw [Schema.offenses_encode, Schema.offenses_encode]
  refine List.Perm.append (h.offenses_fields_perm fun f hf => ?_) ?_
  · exact (h.fields f hf).offenses_encode_perm (ih f hf) m
  · simp only [surplus, h.declares_iff, List.Perm.refl]

/-- **Equal types find the same wrong with a value.** -/
theorem FieldType.Built.offenses_encode_perm (ht : t.Built) (hu : u.Built) (h : t.same u = true)
    (v : Value) :
    (Checked.offenses (t.encode compact v)).Perm (Checked.offenses (u.encode compact v)) := by
  induction ht, hu, h using FieldType.Built.twinInduction generalizing v with
  | scalar s => exact List.Perm.refl _
  | list element other _ _ hsame _ ih =>
    cases v with
    | list items =>
      simp only [FieldType.encode, Checked.offenses_map]
      exact Checked.offenses_items_perm fun item _ => ih item
    | _ =>
      simp only [FieldType.encode, FieldType.text, FieldType.text_eq_of_same hsame]
      exact List.Perm.refl _
  | optional inner other _ _ _ _ ih =>
    by_cases hnull : v = .null
    · subst hnull
      exact List.Perm.refl _
    · rw [FieldType.encode_optional hnull, FieldType.encode_optional hnull]
      exact ih v
  | message a b twin _ _ htwins _ ih =>
    cases v with
    | message m =>
      simp only [FieldType.encode, htwins.name]
      split
      · exact htwins.offenses_encode_perm ih m
      · exact List.Perm.refl _
    | _ =>
      simp only [FieldType.encode, htwins.name]
      exact List.Perm.refl _

/-! ## Results of writing -/

theorem Scalar.same_of_encode {s : Scalar} {v w : Value} {json other : Json}
    (hagree : FieldType.Agree (.scalar s) (.scalar s) v w) (hv : s.encode v = .ok json)
    (hw : s.encode w = .ok other) : json.same other = true := by
  obtain rfl | ⟨hconf, hconf', hsame⟩ := hagree
  · obtain rfl := Except.ok.inj (hv.symm.trans hw)
    unfold Scalar.encode at hv
    split at hv <;> cases hv <;> simp [Json.same]
  · cases hconf <;> cases hconf' <;> cases hv <;> cases hw
    all_goals simp only [Value.same, beq_iff_eq] at hsame
    all_goals simp [Json.same, Json.Number.same, hsame]

/-- Twins are left out together, and what else is written for them is
equal. -/
theorem Field.Twins.written_cases {f g : Field} (h : f.Twins g) {m n : Instance}
    {written other : Option Json}
    (hagree : ∀ v w, f.held m = some v → g.held n = some w → FieldType.Agree f.type g.type v w)
    (ih : ∀ {v w json other}, FieldType.Agree f.type g.type v w →
      f.type.encode compact v = .ok json → g.type.encode compact w = .ok other →
      json.same other = true)
    (hm : f.encode compact m = .ok (written.map fun json => (f.name, json)).toList)
    (hn : g.encode compact n = .ok (other.map fun json => (g.name, json)).toList) :
    (written = none ∧ other = none) ∨
      ∃ json json', written = some json ∧ other = some json' ∧ json.same json' = true := by
  obtain ⟨v, hv, hcases⟩ := Field.encode_eq_ok_iff.mp hm
  obtain ⟨w, hw, hcases'⟩ := Field.encode_eq_ok_iff.mp hn
  have hvw := hagree v w hv hw
  rw [← h.isDefault_eq hvw] at hcases'
  obtain ⟨hleft, hnone⟩ | ⟨hkept, json, hjson, hsome⟩ := hcases
  · obtain ⟨-, hnone'⟩ | ⟨hkept', -⟩ := hcases'
    · exact .inl ⟨by simpa using hnone, by simpa using hnone'⟩
    · rw [hleft] at hkept'
      cases hkept'
  · obtain ⟨hleft', -⟩ | ⟨-, json', hjson', hsome'⟩ := hcases'
    · rw [hkept] at hleft'
      cases hleft'
    · exact .inr ⟨json, json', by simpa using hsome, by simpa using hsome', ih hvw hjson hjson'⟩

/-- **Objects written for messages that correspond are equal.** -/
theorem Schema.Twins.same_of_encode (h : a.Twins b twin) {m n : Instance} {json other : Json}
    (hagree : ∀ f ∈ a.fields, ∀ v w, f.held m = some v → (twin f).held n = some w →
      FieldType.Agree f.type (twin f).type v w)
    (ih : ∀ f ∈ a.fields, ∀ {v w json other}, FieldType.Agree f.type (twin f).type v w →
      f.type.encode compact v = .ok json → (twin f).type.encode compact w = .ok other →
      json.same other = true)
    (hm : a.encode compact m = .ok json) (hn : b.encode compact n = .ok other) :
    json.same other = true := by
  obtain ⟨written, hwritten, rfl⟩ := Schema.exists_written hm
  obtain ⟨others, hothers, rfl⟩ := Schema.exists_written hn
  have hcases : ∀ f ∈ a.fields, (written f = none ∧ others (twin f) = none) ∨
      ∃ json other, written f = some json ∧ others (twin f) = some other ∧
        json.same other = true :=
    fun f hf => (h.fields f hf).written_cases (hagree f hf) (ih f hf) (hwritten f hf)
      (hothers _ (h.mem hf))
  refine Json.same_object_iff.mpr ⟨?_, fun e he => ?_⟩
  · -- as many fields are written as twins are
    rw [List.length_filterMap_eq_countP, List.length_filterMap_eq_countP, ← h.perm.countP_eq,
      List.countP_map]
    refine List.countP_congr fun f hf => ?_
    obtain ⟨hf, hg⟩ | ⟨json, other, hf, hg, -⟩ := hcases f hf
    · simp [hf, hg]
    · simp [hf, hg]
  · obtain ⟨f, hf, hmember⟩ := List.mem_filterMap.mp he
    obtain ⟨json, hjson, rfl⟩ := Option.map_eq_some_iff.mp hmember
    obtain ⟨hnone, -⟩ | ⟨json', other, hjson', hother, hsame⟩ := hcases f hf
    · rw [hnone] at hjson
      cases hjson
    · obtain rfl := Option.some.inj (hjson'.symm.trans hjson)
      refine ⟨other, ?_, hsame⟩
      rw [(h.fields f hf).name, Entries.get?_filterMap h.distinct others (h.mem hf)]
      exact hother

/-- **Equal types write the same JSON value** for values that correspond. -/
theorem FieldType.Built.same_of_encode (ht : t.Built) (hu : u.Built) (h : t.same u = true)
    {v w : Value} {json other : Json} (hagree : FieldType.Agree t u v w)
    (hv : t.encode compact v = .ok json) (hw : u.encode compact w = .ok other) :
    json.same other = true := by
  induction ht, hu, h using FieldType.Built.twinInduction generalizing v w json other with
  | scalar s =>
    exact Scalar.same_of_encode hagree (FieldType.encode_scalar_eq_ok_iff.mp hv)
      (FieldType.encode_scalar_eq_ok_iff.mp hw)
  | list element other _ _ _ _ ih =>
    obtain ⟨items, jsons, rfl, rfl, hjsons⟩ := FieldType.encode_list_eq_ok_iff.mp hv
    obtain ⟨items', others, rfl, rfl, hothers⟩ := FieldType.encode_list_eq_ok_iff.mp hw
    have hitems : List.Forall₂ (FieldType.Agree _ _) items items' := FieldType.Agree.items hagree
    rw [Json.same, Json.itemsSame_iff]
    exact forall₂_of_map_eq_map_ok hitems ih hjsons hothers
  | optional inner other _ _ _ _ ih =>
    by_cases hnull : v = .null
    · obtain rfl := hagree.null_iff.mp hnull
      subst hnull
      obtain rfl := Except.ok.inj hv
      obtain rfl := Except.ok.inj hw
      simp [Json.same]
    · have hnull' : w ≠ .null := fun hw => hnull (hagree.null_iff.mpr hw)
      rw [FieldType.encode_optional hnull] at hv
      rw [FieldType.encode_optional hnull'] at hw
      refine ih (hagree.imp_right fun hequals => ?_) hv hw
      exact ⟨hequals.left.resolve_left hnull, hequals.right.resolve_left hnull', hequals.same⟩
  | message a b twin ha hb htwins _ ih =>
    obtain ⟨m, rfl, -, hm⟩ := FieldType.encode_message_eq_ok_iff.mp hv
    obtain ⟨n, rfl, -, hn⟩ := FieldType.encode_message_eq_ok_iff.mp hw
    refine htwins.same_of_encode (fun f hf v w hheld hheld' => ?_) (fun f hf => ih f hf) hm hn
    obtain heq | hequals := hagree
    · obtain rfl := Value.message.inj heq
      exact (htwins.fields f hf).agree_of_held hheld hheld'
    · obtain ⟨m', heq, hm'⟩ := hequals.left
      obtain rfl := Value.message.inj heq
      obtain ⟨n', heq', hn'⟩ := hequals.right
      obtain rfl := Value.message.inj heq'
      have hsame := Value.same_message ▸ hequals.same
      obtain ⟨value, rfl, hvalue⟩ := (Schema.conforms_iff ha.fieldNames_nodup).mp hm'
      obtain ⟨other, rfl, hother⟩ := (Schema.conforms_iff hb.fieldNames_nodup).mp hn'
      rw [Schema.held_holding ha.fieldNames_nodup hf] at hheld
      rw [Schema.held_holding hb.fieldNames_nodup (htwins.mem hf)] at hheld'
      obtain rfl := Option.some.inj hheld
      obtain rfl := Option.some.inj hheld'
      exact .inr (htwins.equals_of_same hvalue hother hsame hf)

/-! ## Between the calls -/

/-- Checks that find the same wrong have results together, or fail
together. -/
theorem Checked.Grounded.cases_of_perm {α β : Type} {c : Checked α} {c' : Checked β}
    (hc : c.Grounded) (hc' : c'.Grounded)
    (h : (Checked.offenses c).Perm (Checked.offenses c')) :
    (∃ x y, c = .ok x ∧ c' = .ok y) ∨
      ∃ os others, c = .error os ∧ c' = .error others ∧ os.Perm others := by
  cases c with
  | ok x =>
    obtain ⟨y, rfl⟩ := hc'.offenses_eq_nil_iff.mp (List.nil_perm.mp h)
    exact .inl ⟨x, y, rfl, rfl⟩
  | error os =>
    cases c' with
    | ok y =>
      obtain ⟨x, hx⟩ := hc.offenses_eq_nil_iff.mp (List.perm_nil.mp h)
      cases hx
    | error others => exact .inr ⟨os, others, rfl, rfl, h⟩

/-- **One payload, and schemas with twins.** -/
theorem Schema.Twins.validate_cases (ha : a.Built) (hb : b.Built) (h : a.Twins b twin)
    (config : Config) (payload : Json) :
    (∃ x y, a.validate config payload = .ok x ∧ b.validate config payload = .ok y ∧
      x.same y = true) ∨
    ∃ errors others, a.validate config payload = .error (.rejected a.name errors) ∧
      b.validate config payload = .error (.rejected a.name others) ∧ errors.Perm others := by
  have hperm : (Checked.offenses (a.decode config.strict payload)).Perm
      (Checked.offenses (b.decode config.strict payload)) :=
    h.offenses_decode_perm (fun f hf payload => (h.fields f hf).left.offenses_decode_perm
      (h.fields f hf).right (h.fields f hf).type payload) payload
  have hgrounded : ∀ s : Schema, (s.decode config.strict payload).Grounded :=
    fun s => Schema.decode_grounded fun f _ => f.type.decode_grounded
  obtain ⟨x, y, hx, hy⟩ | ⟨os, others, ho, ho', hos⟩ :=
    (hgrounded a).cases_of_perm (hgrounded b) hperm
  · refine .inl ⟨x, y, Schema.validate_eq_ok_iff.mpr hx, Schema.validate_eq_ok_iff.mpr hy, ?_⟩
    refine h.same_of_decode ha hb (fun f hf payload v w hv hw => ?_) hx hy
    exact (h.fields f hf).left.same_of_decode (h.fields f hf).right (h.fields f hf).type hv hw
  · refine .inr ⟨os.map Offense.report, others.map Offense.report, ?_, ?_, hos.map _⟩
    · rw [Schema.validate, Schema.read, ho]
    · rw [Schema.validate, Schema.read, ho', h.name]

/-- **One instance, and schemas with twins.** -/
theorem Schema.Twins.serialize_cases (h : a.Twins b twin) (config : Config) (m : Instance) :
    (∃ json other, a.serialize config m = .ok json ∧ b.serialize config m = .ok other ∧
      json.same other = true) ∨
    (∃ errors others, a.serialize config m = .error (.rejected a.name errors) ∧
      b.serialize config m = .error (.rejected a.name others) ∧ errors.Perm others) ∨
    a.serialize config m = .error (.otherSchema a.name m.schema) ∧
      b.serialize config m = .error (.otherSchema a.name m.schema) := by
  by_cases hm : m.schema = a.name
  · have hm' : m.schema = b.name := hm.trans h.name
    have hperm : (Checked.offenses (a.encode config.compact m)).Perm
        (Checked.offenses (b.encode config.compact m)) :=
      h.offenses_encode_perm (fun f hf v => (h.fields f hf).left.offenses_encode_perm
        (h.fields f hf).right (h.fields f hf).type v) m
    have hgrounded : ∀ s : Schema, (s.encode config.compact m).Grounded :=
      fun s => Schema.encode_grounded fun f _ => f.type.encode_grounded
    obtain ⟨json, other, hjson, hother⟩ | ⟨os, others, ho, ho', hos⟩ :=
      (hgrounded a).cases_of_perm (hgrounded b) hperm
    · refine .inl ⟨json, other, Schema.serialize_eq_ok_iff.mpr ⟨hm, hjson⟩,
        Schema.serialize_eq_ok_iff.mpr ⟨hm', hother⟩, ?_⟩
      refine h.same_of_encode (fun f hf v w hv hw => (h.fields f hf).agree_of_held hv hw) ?_ hjson
        hother
      intro f hf v w json other hagree hv hw
      exact (h.fields f hf).left.same_of_encode (h.fields f hf).right (h.fields f hf).type hagree hv
        hw
    · refine .inr (.inl ⟨os.map Offense.report, others.map Offense.report, ?_, ?_, hos.map _⟩)
      · rw [Schema.serialize, if_pos hm, ho]
      · rw [Schema.serialize, if_pos hm', ho', h.name]
  · refine .inr (.inr ⟨?_, ?_⟩)
    · rw [Schema.serialize, if_neg hm]
    · rw [Schema.serialize, if_neg (h.name ▸ hm), h.name]

/-- **Equal schemas are interchangeable**, in every configuration. Whatever
the payload, both validate it and give equal instances, or both reject it
with the same errors in some order. Whatever the instance, both serialize
it and give equal JSON values, or both reject it with the same errors in
some order, or to both it belongs to another schema. -/
theorem Schema.Built.interchangeable (ha : a.Built) (hb : b.Built) (h : a.same b = true)
    (config : Config) :
    (∀ payload,
      (∃ x y, a.validate config payload = .ok x ∧ b.validate config payload = .ok y ∧
        x.same y = true) ∨
      ∃ errors others, a.validate config payload = .error (.rejected a.name errors) ∧
        b.validate config payload = .error (.rejected a.name others) ∧ errors.Perm others) ∧
    ∀ m,
      (∃ json other, a.serialize config m = .ok json ∧ b.serialize config m = .ok other ∧
        json.same other = true) ∨
      (∃ errors others, a.serialize config m = .error (.rejected a.name errors) ∧
        b.serialize config m = .error (.rejected a.name others) ∧ errors.Perm others) ∨
      a.serialize config m = .error (.otherSchema a.name m.schema) ∧
        b.serialize config m = .error (.otherSchema a.name m.schema) := by
  obtain ⟨twin, htwins⟩ := ha.exists_twins hb h
  exact ⟨fun payload => htwins.validate_cases ha hb config payload,
    fun m => htwins.serialize_cases config m⟩

namespace Sample

/-- A stop with its fields the other way round, where the wait is minus zero
unless it is said. -/
def turnedStop : Schema :=
  ⟨"Stop", "", [⟨"wait", .scalar .number, some (.number (.finite Binary64.Finite.zero.neg)), ""⟩,
    ⟨"name", .scalar .string, none, ""⟩]⟩

theorem turnedStop_built : turnedStop.Built := by
  have htypes : ∀ f ∈ turnedStop.fields, f.type.Built := by
    simp only [turnedStop, List.forall_mem_cons]
    exact ⟨.scalar .number, .scalar .string, nofun⟩
  exact Schema.Built.build htypes
    (rfl : Schema.build "Stop" "" turnedStop.fields = .ok turnedStop)

theorem stop_same_turnedStop : stop.same turnedStop = true := by
  refine Schema.same_iff.mpr ⟨rfl, rfl, rfl, ?_⟩
  simp only [stop, List.forall_mem_cons]
  refine ⟨⟨_, rfl, ?_⟩, ⟨_, rfl, ?_⟩, List.forall_mem_nil _⟩
  · simp [Field.same, FieldType.same, Value.sameDefault]
  · simp [Field.same, FieldType.same, Value.sameDefault, Value.same, Binary64.same]
    rfl

end Sample

/-- The two find the same wrong, but not first the same. -/
theorem Schema.Built.interchangeable_stop :
    (∃ x y, Sample.stop.validate .lenient (.object [("name", .string "Delft")]) = .ok x ∧
      Sample.turnedStop.validate .lenient (.object [("name", .string "Delft")]) = .ok y ∧
      x.same y = true) ∧
    ∃ errors others,
      Sample.stop.validate .lenient (.object [("wait", .string "long")]) =
        .error (.rejected "Stop" errors) ∧
      Sample.turnedStop.validate .lenient (.object [("wait", .string "long")]) =
        .error (.rejected "Stop" others) ∧
      errors.Perm others ∧ errors.head? ≠ others.head? := by
  have hboth := Schema.Built.interchangeable Sample.stop_built Sample.turnedStop_built
    Sample.stop_same_turnedStop .lenient
  constructor
  · obtain hgood | ⟨errors, others, hbad, -⟩ := hboth.1 (.object [("name", .string "Delft")])
    · exact hgood
    · cases hbad
  · obtain ⟨x, y, hgood, -⟩ | ⟨errors, others, hbad, hbad', hperm⟩ :=
      hboth.1 (.object [("wait", .string "long")])
    · cases hgood
    · refine ⟨errors, others, hbad, hbad', hperm, ?_⟩
      cases hbad
      cases hbad'
      decide

end ServiceContracts
