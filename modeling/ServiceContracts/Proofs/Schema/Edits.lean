import ServiceContracts.Schema.Value
import Mathlib.Data.Set.Card
/-!
# A message after any history of edits

A message is made empty, and its fields are set, overwritten, taken out and
set again. What it holds after that is said here from the history alone: the
value of a field is what the last call on it set it to (`History.Holds`), a
field is present if one of its sets was not followed by a removal
(`History.Present`), and it stands where the first such set put it
(`History.EntersAt`).

All three are of one form: some call is of one kind, and every call since is
of another (`History.Since`). So there is one rule for what one more call
does to them (`History.since_concat_iff`), and the message does the same.
-/


namespace ServiceContracts

/-! ## Histories -/

/-- A call that changes a message. -/
inductive Edit where
  /-- Sets a field and asks what it held. -/
  | put (field : String) (value : Value)
  /-- Sets a field and goes on with the message. -/
  | set (field : String) (value : Value)
  /-- Takes a field out and asks what it held. -/
  | pop (field : String)

namespace Edit

/-- The field that a call is about. -/
def field : Edit → String
  | .put field _ => field
  | .set field _ => field
  | .pop field => field

variable {e : Edit} {field other : String} {value w : Value}

/-- The call sets the field to this value. -/
def Sets (e : Edit) (field : String) (value : Value) : Prop :=
  e = .put field value ∨ e = .set field value

/-- A call sets its field or takes it out. -/
theorem sets_or_pop (e : Edit) : (∃ value, e.Sets e.field value) ∨ e = .pop e.field := by
  cases e with
  | put field value => exact .inl ⟨value, .inl rfl⟩
  | set field value => exact .inl ⟨value, .inr rfl⟩
  | pop field => exact .inr rfl

theorem Sets.field_eq (h : e.Sets field value) : e.field = field := by
  rcases h with rfl | rfl <;> rfl

theorem Sets.iff (h : e.Sets field value) : e.Sets other w ↔ field = other ∧ value = w := by
  rcases h with rfl | rfl <;> simp [Sets]

theorem Sets.ne_pop (h : e.Sets field value) : e ≠ .pop other := by
  rcases h with rfl | rfl <;> exact nofun

theorem not_sets_pop : ¬ (pop other).Sets field value := fun h => h.ne_pop rfl

end Edit

namespace History

variable {P P' : List Edit → Edit → Prop} {Q Q' : Edit → Prop}
variable {edits : List Edit} {e : Edit} {field : String} {value : Value}

/-- Some call, told the calls before it, is as `P` says, and every call
since is as `Q` says. -/
def Since (P : List Edit → Edit → Prop) (Q : Edit → Prop) (edits : List Edit) : Prop :=
  ∃ past e later, edits = past ++ e :: later ∧ P past e ∧ ∀ e' ∈ later, Q e'

/-- The last call on the field sets it to this value. -/
def Holds (edits : List Edit) (field : String) (value : Value) : Prop :=
  Since (fun _ e => e.Sets field value) (fun e => e.field ≠ field) edits

/-- The field is set by a call that no removal of it follows. -/
def Present (edits : List Edit) (field : String) : Prop :=
  Since (fun _ e => ∃ value, e.Sets field value) (fun e => e ≠ .pop field) edits

/-- The call at this position is the first that sets the field since its
last removal: no removal follows, and one follows each set before it, so
that the field was not present there. -/
def EntersAt (edits : List Edit) (field : String) (i : Nat) : Prop :=
  Since (fun past e => past.length = i ∧ (∃ value, e.Sets field value) ∧ ¬ Present past field)
    (fun e => e ≠ .pop field) edits

/-- The one field entered before the other. -/
def EntersBefore (edits : List Edit) (a b : String) : Prop :=
  ∀ i j, EntersAt edits a i → EntersAt edits b j → i < j

/-! ### One more call -/

theorem not_since_nil : ¬ Since P Q [] := by
  rintro ⟨past, e, later, h, -⟩
  exact absurd h (List.append_ne_nil_of_right_ne_nil past (List.cons_ne_nil e later)).symm

/-- **One more call** is as `P` says, or it is as `Q` says and the rest was
so before. -/
theorem since_concat_iff :
    Since P Q (edits ++ [e]) ↔ P edits e ∨ Q e ∧ Since P Q edits := by
  constructor
  · rintro ⟨past, e', later, h, hp, hq⟩
    -- the call that was found is the last one, or it has the last one among those since
    rcases List.eq_nil_or_concat later with rfl | ⟨init, last, rfl⟩
    · obtain ⟨rfl, hlast⟩ := List.append_inj' h rfl
      obtain rfl := List.singleton_inj.mp hlast
      exact .inl hp
    · rw [List.concat_eq_append, ← List.cons_append, ← List.append_assoc] at h
      obtain ⟨rfl, hlast⟩ := List.append_inj' h rfl
      obtain rfl := List.singleton_inj.mp hlast
      rw [List.concat_eq_append] at hq
      obtain ⟨hinit, hlast⟩ := List.forall_mem_append.mp hq
      exact .inr ⟨hlast _ List.mem_cons_self, past, e', init, rfl, hp, hinit⟩
  · rintro (hp | ⟨hq, past, e', later, rfl, hp, hlater⟩)
    · exact ⟨edits, e, [], rfl, hp, nofun⟩
    · refine ⟨past, e', later ++ [e], by simp, hp, List.forall_mem_append.mpr ⟨hlater, ?_⟩⟩
      exact fun _ hmem => List.mem_singleton.mp hmem ▸ hq

theorem holds_concat_iff : Holds (edits ++ [e]) field value ↔
    e.Sets field value ∨ e.field ≠ field ∧ Holds edits field value :=
  since_concat_iff

theorem present_concat_iff : Present (edits ++ [e]) field ↔
    (∃ value, e.Sets field value) ∨ e ≠ .pop field ∧ Present edits field :=
  since_concat_iff

theorem entersAt_concat_iff {i : Nat} : EntersAt (edits ++ [e]) field i ↔
    (edits.length = i ∧ (∃ value, e.Sets field value) ∧ ¬ Present edits field) ∨
      e ≠ .pop field ∧ EntersAt edits field i :=
  since_concat_iff

theorem Since.imp (h : Since P Q edits) (hP : ∀ past e, P past e → P' past e)
    (hQ : ∀ e, Q e → Q' e) : Since P' Q' edits := by
  obtain ⟨past, e, later, hsplit, hp, hq⟩ := h
  exact ⟨past, e, later, hsplit, hP past e hp, fun e' he' => hQ e' (hq e' he')⟩

/-! ### Presence -/

theorem Holds.present (h : Holds edits field value) : Present edits field :=
  h.imp (fun _ _ hsets => ⟨value, hsets⟩) fun _ hne heq => hne (heq ▸ rfl)

/-- A field that is present holds what it was last set to. -/
theorem present_iff_exists_holds : Present edits field ↔ ∃ value, Holds edits field value := by
  refine ⟨fun h => ?_, fun ⟨_, h⟩ => h.present⟩
  induction edits using List.reverseRecOn with
  | nil => exact absurd h not_since_nil
  | append_singleton edits e ih =>
    rcases present_concat_iff.mp h with ⟨value, hsets⟩ | ⟨hne, hpresent⟩
    · exact ⟨value, holds_concat_iff.mpr (.inl hsets)⟩
    · by_cases hfield : e.field = field
      · subst hfield
        obtain ⟨value, hsets⟩ := e.sets_or_pop.resolve_right hne
        exact ⟨value, holds_concat_iff.mpr (.inl hsets)⟩
      · obtain ⟨value, hholds⟩ := ih hpresent
        exact ⟨value, holds_concat_iff.mpr (.inr ⟨hfield, hholds⟩)⟩

/-- A field that was taken out is absent as long as it is not named again. -/
theorem not_present_after_pop {others : List Edit} (h : ∀ e ∈ others, e.field ≠ field) :
    ¬ Present (edits ++ [.pop field] ++ others) field := by
  induction others using List.reverseRecOn with
  | nil =>
    rw [List.append_nil, present_concat_iff]
    rintro (⟨value, hsets⟩ | ⟨hne, -⟩)
    · exact Edit.not_sets_pop hsets
    · exact hne rfl
  | append_singleton others e ih =>
    obtain ⟨hothers, hlast⟩ := List.forall_mem_append.mp h
    rw [← List.append_assoc, present_concat_iff]
    rintro (⟨value, hsets⟩ | ⟨-, hpresent⟩)
    · exact hlast e List.mem_cons_self hsets.field_eq
    · exact ih hothers hpresent

/-! ### Places -/

namespace EntersAt

variable {i j : Nat}

theorem present (h : EntersAt edits field i) : Present edits field :=
  h.imp (fun _ _ hfirst => hfirst.2.1) fun _ hne => hne

theorem lt_length (h : EntersAt edits field i) : i < edits.length := by
  obtain ⟨past, e, later, rfl, ⟨rfl, -⟩, -⟩ := h
  simp

/-- One more call leaves a present field where it is. -/
theorem of_concat (h : EntersAt (edits ++ [e]) field i) (hpresent : Present edits field) :
    EntersAt edits field i := by
  rcases entersAt_concat_iff.mp h with ⟨-, -, habsent⟩ | ⟨-, hbefore⟩
  · exact absurd hpresent habsent
  · exact hbefore

/-- A field that was absent can enter with the last call only. -/
theorem eq_length (h : EntersAt (edits ++ [e]) field i) (habsent : ¬ Present edits field) :
    i = edits.length := by
  rcases entersAt_concat_iff.mp h with ⟨hlength, -⟩ | ⟨-, hbefore⟩
  · exact hlength.symm
  · exact absurd hbefore.present habsent

theorem unique (h : EntersAt edits field i) (h' : EntersAt edits field j) : i = j := by
  induction edits using List.reverseRecOn with
  | nil => exact absurd h not_since_nil
  | append_singleton edits e ih =>
    by_cases hpresent : Present edits field
    · exact ih (h.of_concat hpresent) (h'.of_concat hpresent)
    · rw [h.eq_length hpresent, h'.eq_length hpresent]

end EntersAt

/-- A field that is present has entered, once. -/
theorem Present.existsUnique_entersAt (h : Present edits field) :
    ∃! i, EntersAt edits field i := by
  suffices ∃ i, EntersAt edits field i by
    obtain ⟨i, hi⟩ := this
    exact ⟨i, hi, fun _ hj => hj.unique hi⟩
  induction edits using List.reverseRecOn with
  | nil => exact absurd h not_since_nil
  | append_singleton edits e ih =>
    by_cases hpresent : Present edits field
    · obtain ⟨i, hi⟩ := ih hpresent
      refine ⟨i, entersAt_concat_iff.mpr (.inr ⟨?_, hi⟩)⟩
      rcases present_concat_iff.mp h with ⟨value, hsets⟩ | ⟨hne, -⟩
      · exact hsets.ne_pop
      · exact hne
    · obtain hsets | ⟨-, hbefore⟩ := present_concat_iff.mp h
      · exact ⟨edits.length, entersAt_concat_iff.mpr (.inl ⟨rfl, hsets, hpresent⟩)⟩
      · exact absurd hbefore hpresent

end History

/-! ## The message -/

open History

namespace Instance

/-- The message after one call. -/
def after (m : Instance) : Edit → Instance
  | .put field value => (m.put field value).2
  | .set field value => m.set field value
  | .pop field => (m.pop field).2

/-- The message after the calls of a history. -/
def afterAll (m : Instance) (edits : List Edit) : Instance :=
  edits.foldl after m

/-- **A message reflects a history**: its fields are distinct, they hold
what the history says, and they stand in the order in which they entered. -/
structure Reflects (m : Instance) (edits : List Edit) : Prop where
  distinct : (Entries.keys m.fields).Nodup
  get : ∀ field value, m.get? field = some value ↔ Holds edits field value
  order : (Entries.keys m.fields).Pairwise (EntersBefore edits)

variable {m : Instance} {edits : List Edit} {e : Edit} {field : String} {value : Value}

theorem after_of_sets (h : e.Sets field value) : m.after e = m.set field value := by
  rcases h with rfl | rfl
  · rw [after, put_eq]
  · rfl

theorem after_pop : m.after (.pop field) = m.erase field := by
  rw [after, pop_eq]

theorem afterAll_concat : m.afterAll (edits ++ [e]) = (m.afterAll edits).after e := by
  simp [afterAll]

/-! ### One call -/

/-- Setting a field that is present changes no places. -/
theorem keys_after_of_mem (h : e.Sets field value) (hmem : field ∈ Entries.keys m.fields) :
    Entries.keys (m.after e).fields = Entries.keys m.fields := by
  rw [after_of_sets h]
  exact Entries.keys_set_of_mem hmem value

/-- Setting one that is absent puts it last. -/
theorem keys_after_of_notMem (h : e.Sets field value) (hmem : field ∉ Entries.keys m.fields) :
    Entries.keys (m.after e).fields = Entries.keys m.fields ++ [field] := by
  rw [after_of_sets h]
  exact Entries.keys_set_of_notMem hmem value

/-- Taking one out leaves the others in their order. -/
theorem keys_after_pop (hdistinct : (Entries.keys m.fields).Nodup) :
    Entries.keys (m.after (.pop field)).fields =
      (Entries.keys m.fields).filter (· ≠ field) := by
  rw [after_pop, erase, Entries.keys_erase, hdistinct.erase_eq_filter]
  exact List.filter_congr fun name _ => by simp [bne, beq_eq_decide]

namespace Reflects

theorem empty (schema : String) : (Instance.empty schema).Reflects [] where
  distinct := List.nodup_nil
  get _ _ := iff_of_false nofun not_since_nil
  order := .nil

theorem mem_keys_iff (h : m.Reflects edits) :
    field ∈ Entries.keys m.fields ↔ Present edits field := by
  rw [present_iff_exists_holds, ← Entries.has_iff, Entries.has, Option.isSome_iff_exists]
  exact exists_congr fun value => h.get field value

/-- One more call leaves the order of fields that were there before. -/
theorem order_concat (h : m.Reflects edits) (e : Edit) :
    (Entries.keys m.fields).Pairwise (EntersBefore (edits ++ [e])) :=
  h.order.imp_of_mem fun ha hb hbefore i j hi hj =>
    hbefore i j (hi.of_concat (h.mem_keys_iff.mp ha)) (hj.of_concat (h.mem_keys_iff.mp hb))

theorem after_sets (h : m.Reflects edits) (hsets : e.Sets field value) :
    (m.after e).Reflects (edits ++ [e]) where
  distinct := by
    rw [after_of_sets hsets]
    exact Entries.nodup_keys_set h.distinct field value
  get other w := by
    have hlookup : (m.after e).get? other =
        if field = other then some value else m.get? other := by
      rw [after_of_sets hsets]
      exact Entries.get?_set m.fields field other value
    rw [hlookup, holds_concat_iff, hsets.iff, hsets.field_eq]
    by_cases hfield : field = other
    · simp [hfield]
    · simpa [hfield] using h.get other w
  order := by
    by_cases hmem : field ∈ Entries.keys m.fields
    · rw [keys_after_of_mem hsets hmem]
      exact h.order_concat e
    · rw [keys_after_of_notMem hsets hmem]
      refine List.pairwise_append.mpr ⟨h.order_concat e, List.pairwise_singleton _ _, ?_⟩
      -- the field enters with this call, and all that were there entered before
      intro a ha b hb i j hi hj
      obtain rfl := List.mem_singleton.mp hb
      rw [hj.eq_length fun hpresent => hmem (h.mem_keys_iff.mpr hpresent)]
      exact (hi.of_concat (h.mem_keys_iff.mp ha)).lt_length

theorem after_pop (h : m.Reflects edits) (field : String) :
    (m.after (.pop field)).Reflects (edits ++ [.pop field]) where
  distinct := by
    rw [keys_after_pop h.distinct]
    exact h.distinct.filter _
  get other w := by
    have hlookup : (m.after (.pop field)).get? other =
        if field = other then none else m.get? other := by
      rw [Instance.after_pop]
      exact Entries.get?_erase h.distinct field other
    rw [hlookup, holds_concat_iff, Edit.field]
    by_cases hfield : field = other
    · simp [hfield, Edit.not_sets_pop]
    · simpa [hfield, Edit.not_sets_pop] using h.get other w
  order := by
    rw [keys_after_pop h.distinct]
    exact (h.order_concat _).filter _

/-- **One call** does to the message what it does to the history. -/
theorem after (h : m.Reflects edits) (e : Edit) : (m.after e).Reflects (edits ++ [e]) := by
  rcases e.sets_or_pop with ⟨value, hsets⟩ | hpop
  · exact h.after_sets hsets
  · rw [hpop]
    exact h.after_pop e.field

/-! ### The run -/

/-- **So do the calls of a whole history**, on top of an earlier one. -/
theorem afterAll (h : m.Reflects edits) (others : List Edit) :
    (m.afterAll others).Reflects (edits ++ others) := by
  induction others using List.reverseRecOn with
  | nil => rwa [List.append_nil]
  | append_singleton others e ih =>
    rw [afterAll_concat, ← List.append_assoc]
    exact ih.after e

end Reflects

/-! ## What it shows, and what the next call does -/

/-- **A message shows a history**: it reflects it, lists what it holds, and
has as many fields as are present. Each of them entered once. -/
structure Shows (m : Instance) (edits : List Edit) : Prop extends m.Reflects edits where
  fields : ∀ field value, (field, value) ∈ m.fields ↔ Holds edits field value
  present : ∀ field, field ∈ Entries.keys m.fields ↔ Present edits field
  entered : ∀ field ∈ Entries.keys m.fields, ∃! i, EntersAt edits field i
  size : m.size = { field | Present edits field }.ncard

/-- **What the next call does**: it gives back what a look-up would have
found. A field that is present keeps its place when it is set, one that is
absent goes last, and taking one out leaves the others in their order. Set
again, it goes last, whatever was done to other fields in between. -/
structure TakesNext (m : Instance) : Prop where
  putGives : ∀ field value, (m.put field value).1 = m.get? field
  popGives : ∀ field, (m.pop field).1 = m.get? field
  overwritten : ∀ e field value, e.Sets field value → field ∈ Entries.keys m.fields →
    Entries.keys (m.after e).fields = Entries.keys m.fields
  added : ∀ e field value, e.Sets field value → field ∉ Entries.keys m.fields →
    Entries.keys (m.after e).fields = Entries.keys m.fields ++ [field]
  removed : ∀ field, Entries.keys (m.after (.pop field)).fields =
    (Entries.keys m.fields).filter (· ≠ field)
  again : ∀ field others e value, (∀ e' ∈ others, e'.field ≠ field) → e.Sets field value →
    Entries.keys (((m.after (.pop field)).afterAll others).after e).fields =
      Entries.keys ((m.after (.pop field)).afterAll others).fields ++ [field]

namespace Reflects

theorem shows (h : m.Reflects edits) : m.Shows edits where
  toReflects := h
  fields field value := by
    rw [← h.get]
    exact (Entries.get?_eq_some_iff h.distinct).symm
  present _ := h.mem_keys_iff
  entered _ hmem := (h.mem_keys_iff.mp hmem).existsUnique_entersAt
  size := by
    have hpresent : { field | Present edits field } =
        ((Entries.keys m.fields).toFinset : Set String) := by
      ext field
      rw [List.coe_toFinset]
      exact h.mem_keys_iff.symm
    rw [hpresent, Set.ncard_coe_finset, List.toFinset_card_of_nodup h.distinct, Entries.keys,
      List.length_map, Instance.size]

theorem takesNext (h : m.Reflects edits) : m.TakesNext where
  putGives field value := by rw [put_eq]
  popGives field := by rw [pop_eq]
  overwritten _ _ _ hsets hmem := keys_after_of_mem hsets hmem
  added _ _ _ hsets hmem := keys_after_of_notMem hsets hmem
  removed _ := keys_after_pop h.distinct
  again field others e value hothers hsets := by
    have hbetween := (h.after (.pop field)).afterAll others
    exact keys_after_of_notMem hsets fun hmem =>
      not_present_after_pop hothers (hbetween.mem_keys_iff.mp hmem)

end Reflects

/-- **A message is an insertion-ordered map**, whatever calls it has come
through. Its fields are distinct; each holds what it was last set to, unless
it has been taken out since; they stand in the order in which they first
were set since they were last taken out; and there are as many as are
present. A call that gives something back gives what a look-up would have
found before it, and no call moves a field but its own. -/
theorem afterAll_contract (schema : String) (edits : List Edit) :
    ((Instance.empty schema).afterAll edits).Shows edits ∧
      ((Instance.empty schema).afterAll edits).TakesNext := by
  have h : ((Instance.empty schema).afterAll edits).Reflects edits := by
    simpa using (Reflects.empty schema).afterAll edits
  exact ⟨h.shows, h.takesNext⟩

end Instance

namespace Sample

/-- A stop whose name is overwritten, and whose wait is taken out and set
again. -/
def reworkings : List Edit :=
  [.put "name" (.string "Delft"), .set "wait" (.integer 3), .put "track" .null,
    .set "name" (.string "Leiden"), .pop "wait", .put "wait" (.integer 5)]

end Sample

/-- The wait stands last, with its second value, and the name still first. -/
theorem Instance.afterAll_contract_reworkings :
    ∃ m, (Instance.empty "Stop").afterAll Sample.reworkings = m ∧
      Entries.keys m.fields = ["name", "track", "wait"] ∧
      m.get? "wait" = some (.integer 5) ∧ (m.pop "track").1 = some .null ∧
      History.Present Sample.reworkings "wait" ∧
      History.EntersBefore Sample.reworkings "track" "wait" := by
  obtain ⟨hshows, hnext⟩ := Instance.afterAll_contract "Stop" Sample.reworkings
  have htrack : History.Holds Sample.reworkings "track" .null :=
    ⟨Sample.reworkings.take 2, .put "track" .null, Sample.reworkings.drop 3, rfl, .inl rfl,
      by simp [Sample.reworkings, Edit.field]⟩
  have hwait : History.Holds Sample.reworkings "wait" (.integer 5) :=
    ⟨Sample.reworkings.take 5, .put "wait" (.integer 5), [], rfl, .inl rfl, nofun⟩
  have hkeys : Entries.keys ((Instance.empty "Stop").afterAll Sample.reworkings).fields =
      ["name", "track", "wait"] := rfl
  refine ⟨_, rfl, hkeys, (hshows.get _ _).mpr hwait, ?_, hwait.present, ?_⟩
  · rw [hnext.popGives]
    exact (hshows.get _ _).mpr htrack
  · have horder := hshows.order
    rw [hkeys] at horder
    exact List.rel_of_pairwise_cons horder.of_cons List.mem_cons_self

end ServiceContracts
