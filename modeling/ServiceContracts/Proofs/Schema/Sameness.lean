import ServiceContracts.Proofs.Schema.Likeness
import Mathlib.Data.List.Forall2
import Mathlib.Data.List.Perm.Subperm
/-!
# Equality of values

`Value.same` goes down into lists and messages, and looks the fields of
one message up in the other. It is transitive on all values
(`Value.same_trans`): the fields are followed from the first message to
the second and from there to the third. It is symmetric where no message
has a field twice (`Value.Keyed.same_symm`): then as many fields are the
same fields, and each is found from the other side.

`Value.induction` is the induction over a value, so that the items of
lists and the fields of messages need not be walked by hand.
-/


namespace ServiceContracts

section Induction

variable {P : Value → Prop}

mutual

/-- **Induction over a value**, with one hypothesis for each item of a list
and for each field of a message. -/
@[elab_as_elim]
theorem Value.induction (null : P .null) (boolean : ∀ b, P (.boolean b))
    (integer : ∀ n, P (.integer n)) (number : ∀ x, P (.number x)) (string : ∀ s, P (.string s))
    (list : ∀ items, (∀ v ∈ items, P v) → P (.list items))
    (message : ∀ m : Instance, (∀ e ∈ m.fields, P e.2) → P (.message m)) : ∀ v, P v
  | .null => null
  | .boolean b => boolean b
  | .integer n => integer n
  | .number x => number x
  | .string s => string s
  | .list items =>
    list items (Value.inductionItems null boolean integer number string list message items)
  | .message ⟨schema, fields⟩ =>
    message ⟨schema, fields⟩
      (Value.inductionFields null boolean integer number string list message fields)

/-- The same for the items of a list. -/
theorem Value.inductionItems (null : P .null) (boolean : ∀ b, P (.boolean b))
    (integer : ∀ n, P (.integer n)) (number : ∀ x, P (.number x)) (string : ∀ s, P (.string s))
    (list : ∀ items, (∀ v ∈ items, P v) → P (.list items))
    (message : ∀ m : Instance, (∀ e ∈ m.fields, P e.2) → P (.message m)) :
    ∀ items : List Value, ∀ v ∈ items, P v
  | [], _, hv => absurd hv List.not_mem_nil
  | first :: rest, v, hv => by
    have hfirst := Value.induction null boolean integer number string list message first
    have hrest := Value.inductionItems null boolean integer number string list message rest
    exact List.forall_mem_cons.mpr ⟨hfirst, hrest⟩ v hv

/-- The same for the fields of a message. -/
theorem Value.inductionFields (null : P .null) (boolean : ∀ b, P (.boolean b))
    (integer : ∀ n, P (.integer n)) (number : ∀ x, P (.number x)) (string : ∀ s, P (.string s))
    (list : ∀ items, (∀ v ∈ items, P v) → P (.list items))
    (message : ∀ m : Instance, (∀ e ∈ m.fields, P e.2) → P (.message m)) :
    ∀ fields : List (String × Value), ∀ e ∈ fields, P e.2
  | [], _, he => absurd he List.not_mem_nil
  | (name, v) :: rest, e, he => by
    have hfirst := Value.induction null boolean integer number string list message v
    have hrest := Value.inductionFields null boolean integer number string list message rest
    obtain rfl | he := List.mem_cons.mp he
    · exact hfirst
    · exact hrest e he

end

end Induction

/-! ## Transitivity -/

theorem Binary64.same_trans {x y z : Binary64} (h : x.same y = true) (h' : y.same z = true) :
    x.same z = true := by
  cases x <;> cases y <;> cases z <;> simp_all [Binary64.same]

/-- Messages are the same when their names and numbers of fields are, and
each field of the first is found in the second. -/
theorem Instance.same_iff {m n : Instance} :
    m.same n = true ↔ m.schema = n.schema ∧ m.fields.length = n.fields.length ∧
      ∀ e ∈ m.fields, ∃ w, n.get? e.1 = some w ∧ e.2.same w = true := by
  obtain ⟨schema, fields⟩ := m
  simp only [Instance.same, Bool.and_eq_true, beq_iff_eq, Value.fieldsSame_iff, and_assoc,
    Instance.get?]

theorem Value.itemsSame_iff {items others : List Value} :
    itemsSame items others = true ↔ List.Forall₂ (fun v w => v.same w = true) items others := by
  induction items generalizing others with
  | nil => cases others <;> simp [itemsSame]
  | cons v rest ih => cases others <;> simp [itemsSame, ih]

/-- The items of lists are followed all at once, from the first list to the
third. -/
theorem Value.itemsSame_trans {items others more : List Value}
    (ih : ∀ u ∈ items, ∀ {v w : Value}, u.same v = true → v.same w = true → u.same w = true)
    (h : itemsSame items others = true) (h' : itemsSame others more = true) :
    itemsSame items more = true := by
  induction items generalizing others more with
  | nil =>
    cases others with
    | nil => exact h'
    | cons => simp [itemsSame] at h
  | cons a rest ihrest =>
    cases others with
    | nil => simp [itemsSame] at h
    | cons b others =>
      cases more with
      | nil => simp [itemsSame] at h'
      | cons c more =>
        rw [itemsSame, Bool.and_eq_true] at h h' ⊢
        obtain ⟨hfirst, hrest⟩ := List.forall_mem_cons.mp ih
        exact ⟨hfirst h.1 h'.1, ihrest hrest h.2 h'.2⟩

/-- **Equality of values is transitive.** -/
theorem Value.same_trans {u v w : Value} (h : u.same v = true) (h' : v.same w = true) :
    u.same w = true := by
  induction u using Value.induction generalizing v w with
  | null | boolean | integer | string =>
    cases v <;> simp only [Value.same, Bool.false_eq_true, beq_iff_eq] at h
    all_goals
      subst_vars
      exact h'
  | number x =>
    cases v <;> simp only [Value.same, Bool.false_eq_true] at h
    cases w <;> simp only [Value.same, Bool.false_eq_true] at h'
    rw [Value.same]
    exact Binary64.same_trans h h'
  | list items ih =>
    cases v <;> simp only [Value.same, Bool.false_eq_true] at h
    cases w <;> simp only [Value.same, Bool.false_eq_true] at h'
    rw [Value.same_list]
    exact Value.itemsSame_trans ih h h'
  | message m ih =>
    cases v <;> simp only [Value.same, Bool.false_eq_true] at h
    cases w <;> simp only [Value.same, Bool.false_eq_true] at h'
    rw [Value.same_message]
    rw [Instance.same_iff] at h h' ⊢
    obtain ⟨hname, hlength, hfields⟩ := h
    obtain ⟨hname', hlength', hfields'⟩ := h'
    refine ⟨hname.trans hname', hlength.trans hlength', fun e he => ?_⟩
    obtain ⟨v, hv, hsame⟩ := hfields e he
    obtain ⟨w, hw, hsame'⟩ := hfields' (e.1, v) (Entries.mem_of_get?_eq_some hv)
    exact ⟨w, hw, ih e he hsame hsame'⟩

/-! ## Symmetry -/

/-- **No message in the value has a field twice.** -/
inductive Value.Keyed : Value → Prop
  | null : Keyed .null
  | boolean (b : Bool) : Keyed (.boolean b)
  | integer (n : Int64) : Keyed (.integer n)
  | number (x : Binary64) : Keyed (.number x)
  | string (s : String) : Keyed (.string s)
  | list {items : List Value} (h : ∀ v ∈ items, Keyed v) : Keyed (.list items)
  | message {m : Instance} (hkeys : (Entries.keys m.fields).Nodup)
      (h : ∀ e ∈ m.fields, Keyed e.2) : Keyed (.message m)

/-- Values of built types have no field twice. -/
theorem FieldType.Built.keyed_of_conforms {t : FieldType} (ht : t.Built) {v : Value}
    (h : t.Conforms v) : v.Keyed := by
  induction ht using FieldType.Built.induction generalizing v with
  | scalar s =>
    cases h with
    | string s => exact .string s
    | integer n => exact .integer n
    | number x => exact .number _
    | boolean b => exact .boolean b
  | list element _ ih =>
    obtain ⟨items, rfl, hitems⟩ := h
    exact .list fun item hitem => ih (hitems item hitem)
  | optional inner _ ih =>
    obtain rfl | h := h
    · exact .null
    · exact ih h
  | message schema hs ih =>
    obtain ⟨m, rfl, hm⟩ := h
    have hnodup := hs.fieldNames_nodup
    obtain ⟨value, rfl, hvalue⟩ := (Schema.conforms_iff hnodup).mp hm
    refine .message ?_ (List.forall_mem_map.mpr fun f hf => ih f hf (hvalue f hf))
    rw [Schema.holding, Entries.keys_map]
    exact hnodup

theorem Binary64.same_symm {x y : Binary64} (h : x.same y = true) : y.same x = true := by
  cases x <;> cases y <;> simp_all [Binary64.same]

theorem Value.itemsSame_symm {items others : List Value}
    (ih : ∀ v ∈ items, ∀ {w : Value}, v.same w = true → w.same v = true)
    (h : itemsSame items others = true) : itemsSame others items = true := by
  induction items generalizing others with
  | nil =>
    cases others with
    | nil => exact h
    | cons => simp [itemsSame] at h
  | cons a rest ihrest =>
    cases others with
    | nil => simp [itemsSame] at h
    | cons b others =>
      rw [itemsSame, Bool.and_eq_true] at h ⊢
      obtain ⟨hfirst, hrest⟩ := List.forall_mem_cons.mp ih
      exact ⟨hfirst h.1, ihrest hrest h.2⟩

/-- What equals a message without repetitions has the same fields, in some
order. -/
theorem Instance.keys_perm_of_same {m n : Instance} (hnodup : (Entries.keys m.fields).Nodup)
    (h : m.same n = true) : (Entries.keys m.fields).Perm (Entries.keys n.fields) := by
  obtain ⟨-, hlength, hfields⟩ := Instance.same_iff.mp h
  have hsub : Entries.keys m.fields ⊆ Entries.keys n.fields := by
    intro name hname
    obtain ⟨e, he, rfl⟩ := List.mem_map.mp hname
    obtain ⟨w, hw, -⟩ := hfields e he
    exact List.mem_map.mpr ⟨(e.1, w), Entries.mem_of_get?_eq_some hw, rfl⟩
  -- as many keys there as here, and all of these among those
  refine (hnodup.subperm hsub).perm_of_length_le (Nat.le_of_eq ?_)
  simpa [Entries.keys] using hlength.symm

/-- **Equality is symmetric from a value without repetitions.** -/
theorem Value.Keyed.same_symm {v w : Value} (hv : v.Keyed) (h : v.same w = true) :
    w.same v = true := by
  induction v using Value.induction generalizing w with
  | null | boolean | integer | string =>
    cases w <;> simp only [Value.same, Bool.false_eq_true, beq_iff_eq] at h
    all_goals
      subst_vars
      simp [Value.same]
  | number x =>
    cases w <;> simp only [Value.same, Bool.false_eq_true] at h
    rw [Value.same]
    exact Binary64.same_symm h
  | list items ih =>
    cases hv with
    | list hitems =>
      cases w <;> simp only [Value.same, Bool.false_eq_true] at h
      rw [Value.same_list]
      exact Value.itemsSame_symm (fun v hv => ih v hv (hitems v hv)) h
  | message m ih =>
    cases hv with
    | message hkeys hvalues =>
      cases w <;> simp only [Value.same, Bool.false_eq_true] at h
      rename_i n
      rw [Value.same_message]
      have hperm := Instance.keys_perm_of_same hkeys h
      rw [Instance.same_iff] at h ⊢
      obtain ⟨hname, hlength, hfields⟩ := h
      refine ⟨hname.symm, hlength.symm, fun e he => ?_⟩
      have hkey : e.1 ∈ Entries.keys m.fields := hperm.mem_iff.mpr (List.mem_map_of_mem he)
      obtain ⟨e', he', hkeyEq⟩ := List.mem_map.mp hkey
      obtain ⟨w, hw, hsame⟩ := hfields e' he'
      -- the field of that name on the other side is this one
      have hother : n.get? e'.1 = some e.2 := by
        rw [hkeyEq]
        exact Entries.get?_eq_some_of_mem (hperm.nodup_iff.mp hkeys) he
      obtain rfl := Option.some.inj (hother.symm.trans hw)
      refine ⟨e'.2, ?_, ih e' he' (hvalues e' he') hsame⟩
      rw [← hkeyEq]
      exact Entries.get?_eq_some_of_mem hkeys he'

end ServiceContracts
