import ServiceContracts.Proofs.Schema.Conforms
/-!
# Equal values in the same order

`Value.same` compares messages without regard to the order of their
fields. `Value.layout` is the part it leaves out: the names of the fields,
in order and at every depth. Two values that are the same and have the
same layout are `Alike`, and for values of one type the layout follows
from sameness (`FieldType.Built.alike_of_same`): a type fixes the order.
-/


namespace ServiceContracts

/-- The field names of a value, in order and at every depth, with nothing
else about it. -/
inductive Layout where
  | leaf
  | list (items : List Layout)
  | message (fields : List (String × Layout))

mutual

/-- The layout of a value. -/
def Value.layout : Value → Layout
  | .list items => .list (Value.layouts items)
  | .message m => m.layout
  | _ => .leaf

/-- The layout of a message. -/
def Instance.layout : Instance → Layout
  | ⟨_, fields⟩ => .message (Value.fieldLayouts fields)

/-- The layouts of the items of a list. -/
def Value.layouts : List Value → List Layout
  | [] => []
  | v :: rest => v.layout :: Value.layouts rest

/-- The layouts of fields, under their names. -/
def Value.fieldLayouts : List (String × Value) → List (String × Layout)
  | [] => []
  | (name, v) :: rest => (name, v.layout) :: Value.fieldLayouts rest

end

/-- Equal values whose fields come in the same order. -/
structure Value.Alike (v w : Value) : Prop where
  same : v.same w = true
  layout : v.layout = w.layout

/-- Equal messages whose fields come in the same order. -/
structure Instance.Alike (m n : Instance) : Prop where
  same : m.same n = true
  layout : m.layout = n.layout

@[simp] theorem Value.same_list {items others : List Value} :
    (Value.list items).same (.list others) = Value.itemsSame items others := by
  rw [Value.same]

@[simp] theorem Value.same_message {m n : Instance} :
    (Value.message m).same (.message n) = m.same n := by
  rw [Value.same]

theorem Value.alike_message_iff {m n : Instance} :
    (Value.message m).Alike (.message n) ↔ m.Alike n :=
  ⟨fun h => ⟨Value.same_message ▸ h.same, h.layout⟩,
    fun h => ⟨Value.same_message ▸ h.same, h.layout⟩⟩

/-! ## Lists -/

theorem Value.layouts_eq_map (items : List Value) :
    Value.layouts items = items.map Value.layout := by
  induction items with
  | nil => rfl
  | cons v rest ih => rw [Value.layouts, ih, List.map_cons]

theorem Value.itemsSame_map {items : List Value} {value other : Value → Value}
    (h : ∀ v ∈ items, (value v).same (other v) = true) :
    Value.itemsSame (items.map value) (items.map other) = true := by
  induction items with
  | nil => simp [Value.itemsSame]
  | cons v rest ih =>
    rw [List.map_cons, List.map_cons, Value.itemsSame, h v (by simp),
      ih fun w hw => h w (List.mem_cons_of_mem _ hw)]
    rfl

/-- Lists are alike when their items are. -/
theorem Value.alike_list_map {items : List Value} {value other : Value → Value}
    (h : ∀ v ∈ items, (value v).Alike (other v)) :
    (Value.list (items.map value)).Alike (.list (items.map other)) where
  same := by
    rw [Value.same_list]
    exact Value.itemsSame_map fun v hv => (h v hv).same
  layout := by
    simp only [Value.layout, Value.layouts_eq_map, List.map_map, Layout.list.injEq]
    exact List.map_congr_left fun v hv => (h v hv).layout

/-! ## Messages -/

theorem Value.fieldLayouts_map (fields : List Field) (value : Field → Value) :
    Value.fieldLayouts (fields.map fun f => (f.name, value f)) =
      fields.map fun f => (f.name, (value f).layout) := by
  induction fields with
  | nil => rfl
  | cons f rest ih => rw [List.map_cons, Value.fieldLayouts, ih, List.map_cons]

theorem Value.fieldsSame_iff {held others : List (String × Value)} :
    Value.fieldsSame held others = true ↔
      ∀ e ∈ held, ∃ w, Entries.get? others e.1 = some w ∧ e.2.same w = true := by
  induction held with
  | nil => simp [Value.fieldsSame]
  | cons e rest ih =>
    obtain ⟨name, v⟩ := e
    rw [Value.fieldsSame, Bool.and_eq_true, ih, List.forall_mem_cons]
    refine and_congr_left fun _ => ?_
    cases Entries.get? others name <;> simp

/-- What equals a message of a schema holds an equal value for each
field. -/
theorem Schema.exists_get?_of_same_holding {s : Schema} {value : Field → Value} {n : Instance}
    (h : (s.holding value).same n = true) {f : Field} (hf : f ∈ s.fields) :
    ∃ w, n.get? f.name = some w ∧ (value f).same w = true := by
  simp only [holding, Instance.same, Bool.and_eq_true, Value.fieldsSame_iff, List.forall_mem_map]
    at h
  exact h.2 f hf

/-- Messages of one schema are compared field by field. -/
theorem Schema.same_holding_iff {s : Schema} (hnodup : s.fieldNames.Nodup)
    {value other : Field → Value} :
    (s.holding value).same (s.holding other) = true ↔
      ∀ f ∈ s.fields, (value f).same (other f) = true := by
  simp only [holding, Instance.same, beq_self_eq_true, List.length_map, Bool.true_and,
    Value.fieldsSame_iff, List.forall_mem_map]
  constructor
  · intro h f hf
    obtain ⟨w, hw, hsame⟩ := h f hf
    rw [Entries.get?_map hnodup other hf] at hw
    exact Option.some.inj hw ▸ hsame
  · intro h f hf
    exact ⟨other f, Entries.get?_map hnodup other hf, h f hf⟩

theorem Schema.layout_holding (s : Schema) (value : Field → Value) :
    (s.holding value).layout = .message (s.fields.map fun f => (f.name, (value f).layout)) := by
  rw [holding, Instance.layout, Value.fieldLayouts_map]

/-- Messages of one schema are alike when their fields are. -/
theorem Schema.alike_holding {s : Schema} (hnodup : s.fieldNames.Nodup)
    {value other : Field → Value} (h : ∀ f ∈ s.fields, (value f).Alike (other f)) :
    (s.holding value).Alike (s.holding other) where
  same := (same_holding_iff hnodup).mpr fun f hf => (h f hf).same
  layout := by
    rw [layout_holding, layout_holding]
    exact congrArg _ (List.map_congr_left fun f hf => by rw [(h f hf).layout])

/-! ## A type fixes the order -/

theorem Value.eq_null_of_same {v : Value} (h : Value.null.same v = true) : v = .null := by
  cases v <;> simp_all [Value.same]

/-- **Same values of one type are alike.** -/
theorem FieldType.Built.alike_of_same {t : FieldType} (ht : t.Built) {v w : Value}
    (hv : t.Conforms v) (hw : t.Conforms w) (h : v.same w = true) : v.Alike w := by
  refine ⟨h, ?_⟩
  induction ht using FieldType.Built.induction generalizing v w with
  | scalar s => cases hv <;> cases hw <;> rfl
  | list element _ ih =>
    obtain ⟨items, rfl, hitems⟩ := hv
    obtain ⟨others, rfl, hothers⟩ := hw
    simp only [Value.layout, Layout.list.injEq]
    rw [Value.same] at h
    -- along both lists at once, which are as long as each other
    induction items generalizing others with
    | nil => cases others <;> simp_all [Value.itemsSame]
    | cons a rest ihrest =>
      cases others with
      | nil => simp [Value.itemsSame] at h
      | cons b others =>
        rw [Value.itemsSame, Bool.and_eq_true] at h
        obtain ⟨hfirst, hrest⟩ := h
        rw [List.forall_mem_cons] at hitems hothers
        have hlayout : a.layout = b.layout := ih hitems.1 hothers.1 hfirst
        have hlayouts : Value.layouts rest = Value.layouts others :=
          ihrest hitems.2 others hothers.2 hrest
        rw [Value.layouts, Value.layouts, hlayout, hlayouts]
  | optional inner _ ih =>
    obtain rfl | hv := hv
    · rw [Value.eq_null_of_same h]
    · obtain rfl | hw := hw
      · -- nothing but null is the same as null
        cases v <;> simp_all [Value.same]
      · exact ih hv hw h
  | message schema hs ih =>
    obtain ⟨m, rfl, hm⟩ := hv
    obtain ⟨n, rfl, hn⟩ := hw
    obtain ⟨value, rfl, hvalue⟩ := (Schema.conforms_iff hs.fieldNames_nodup).mp hm
    obtain ⟨other, rfl, hother⟩ := (Schema.conforms_iff hs.fieldNames_nodup).mp hn
    rw [Value.same, Schema.same_holding_iff hs.fieldNames_nodup] at h
    simp only [Value.layout, Schema.layout_holding, Layout.message.injEq]
    exact List.map_congr_left fun f hf => by
      rw [ih f hf (hvalue f hf) (hother f hf) (h f hf)]

end ServiceContracts
