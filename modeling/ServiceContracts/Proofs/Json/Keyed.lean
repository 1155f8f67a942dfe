import ServiceContracts.Json.Reader
/-!
# Keys do not come twice

An object read from text keeps a key that comes again in its first place,
so no object in a value that was read has a key twice, at any depth
(`Json.keyed_of_parse?`). Each character keeps this of everything the
reader is in the middle of: the open containers, the object whose key is
being read, and the value that may be complete (`Reader.State.Keyed`).
-/


namespace ServiceContracts

/-- **No object in the value has a key twice.** -/
inductive Json.Keyed : Json → Prop
  | null : Keyed .null
  | boolean (b : Bool) : Keyed (.boolean b)
  | number (n : Json.Number) : Keyed (.number n)
  | string (s : String) : Keyed (.string s)
  | array {items : List Json} (h : ∀ v ∈ items, Keyed v) : Keyed (.array items)
  | object {members : List (String × Json)} (hkeys : (Entries.keys members).Nodup)
      (h : ∀ e ∈ members, Keyed e.2) : Keyed (.object members)

/-- The same of the members of an object. -/
structure Json.MembersKeyed (members : Entries String Json) : Prop where
  keys : (Entries.keys members).Nodup
  values : ∀ e ∈ members, Json.Keyed e.2

namespace Json

attribute [simp] Keyed.null Keyed.boolean Keyed.number Keyed.string

@[simp] theorem keyed_array_iff {items : List Json} :
    (Json.array items).Keyed ↔ ∀ v ∈ items, v.Keyed := by
  refine ⟨fun h => ?_, .array⟩
  cases h with
  | array hitems => exact hitems

@[simp] theorem keyed_object_iff {members : List (String × Json)} :
    (Json.object members).Keyed ↔ (Entries.keys members).Nodup ∧ ∀ e ∈ members, e.2.Keyed := by
  refine ⟨fun h => ?_, fun h => .object h.1 h.2⟩
  cases h with
  | object hkeys hvalues => exact ⟨hkeys, hvalues⟩

theorem Keyed.member {v w : Json} (h : v.Keyed) {key : String} (hw : v.member? key = some w) :
    w.Keyed := by
  cases h with
  | object hkeys hvalues => exact hvalues (key, w) (Entries.mem_of_get?_eq_some hw)
  | _ => cases hw

theorem MembersKeyed.nil : MembersKeyed [] := ⟨List.nodup_nil, by simp⟩

theorem MembersKeyed.set {members : Entries String Json} (h : MembersKeyed members) {v : Json}
    (hv : v.Keyed) (key : String) : MembersKeyed (Entries.set members key v) := by
  refine ⟨Entries.nodup_keys_set h.keys key v, fun e he => ?_⟩
  rcases Entries.mem_of_mem_set he with he | rfl
  · exact h.values e he
  · exact hv

namespace Reader

/-- Of a container that is still open. -/
def Frame.Keyed : Frame → Prop
  | .array items => ∀ v ∈ items, v.Keyed
  | .object members _ => MembersKeyed members

/-- Of what the reader is in the middle of. -/
def Mode.Keyed : Mode → Prop
  | .key members _ => MembersKeyed members
  | .colon members _ => MembersKeyed members
  | .text (some members) _ _ => MembersKeyed members
  | .done v => v.Keyed
  | .word _ v => v.Keyed
  | _ => True

/-- **Of everything the reader holds.** -/
structure State.Keyed (state : State) : Prop where
  frames : ∀ frame ∈ state.frames, frame.Keyed
  mode : state.mode.Keyed

variable {frames : List Frame} {state next : State} {c : Char}

theorem finish_keyed (hframes : ∀ frame ∈ frames, frame.Keyed) {v : Json} (hv : v.Keyed) :
    (finish v frames).Keyed := by
  cases frames with
  | nil => exact ⟨hframes, hv⟩
  | cons frame rest =>
    obtain ⟨hframe, hrest⟩ := List.forall_mem_cons.mp hframes
    cases frame with
    | array items => exact ⟨List.forall_mem_cons.mpr ⟨List.forall_mem_cons.mpr ⟨hv, hframe⟩, hrest⟩,
        trivial⟩
    | object members key => exact ⟨List.forall_mem_cons.mpr ⟨hframe.set hv key, hrest⟩, trivial⟩

theorem enter_keyed {inner : State} (hinner : inner.Keyed) (h : enter frames inner = some next) :
    next.Keyed := by
  unfold enter at h
  split at h
  · exact Option.some.inj h ▸ hinner
  · cases h

theorem start_keyed (hframes : ∀ frame ∈ frames, frame.Keyed) (h : start frames c = some next) :
    next.Keyed := by
  have hkeep : ∀ mode : Mode, mode.Keyed → State.Keyed ⟨frames, mode⟩ :=
    fun _ hmode => ⟨hframes, hmode⟩
  unfold start at h
  repeat' split at h
  · exact Option.some.inj h ▸ hkeep .value trivial
  · have hopen : ∀ frame ∈ Frame.array [] :: frames, frame.Keyed :=
      List.forall_mem_cons.mpr ⟨fun v hv => absurd hv List.not_mem_nil, hframes⟩
    have hinner : State.Keyed ⟨.array [] :: frames, .firstItem⟩ := ⟨hopen, trivial⟩
    exact enter_keyed hinner h
  · exact enter_keyed (hkeep (.key [] true) .nil) h
  · exact Option.some.inj h ▸ hkeep (.text none [] .plain) trivial
  · exact Option.some.inj h ▸ hkeep (.word _ .null) .null
  · exact Option.some.inj h ▸ hkeep (.word _ (.boolean true)) (.boolean true)
  · exact Option.some.inj h ▸ hkeep (.word _ (.boolean false)) (.boolean false)
  · exact Option.some.inj h ▸ hkeep (.number [c]) trivial
  · cases h

theorem next_keyed (hframes : ∀ frame ∈ frames, frame.Keyed)
    (h : Reader.next frames c = some next) : next.Keyed := by
  unfold Reader.next at h
  split at h
  · exact Option.some.inj h ▸ ⟨hframes, trivial⟩
  · cases frames with
    | nil => cases h
    | cons frame rest =>
      obtain ⟨hframe, hrest⟩ := List.forall_mem_cons.mp hframes
      cases frame with
      | array items =>
        dsimp only at h
        repeat' split at h
        · exact Option.some.inj h ▸ ⟨hframes, trivial⟩
        · refine Option.some.inj h ▸ finish_keyed hrest (.array fun v hv => ?_)
          exact hframe v (List.mem_reverse.mp hv)
        · cases h
      | object members key =>
        dsimp only at h
        repeat' split at h
        · exact Option.some.inj h ▸ ⟨hrest, hframe⟩
        · exact Option.some.inj h ▸ finish_keyed hrest (.object hframe.keys hframe.values)
        · cases h

theorem afterValue_keyed (hstate : state.Keyed) (h : afterValue state c = some next) :
    next.Keyed := by
  unfold afterValue at h
  split at h
  · rename_i v hmode
    split at h
    · refine Option.some.inj h ▸ ⟨fun frame hframe => absurd hframe List.not_mem_nil, ?_⟩
      have hdone := hstate.mode
      rw [hmode] at hdone
      exact hdone
    · cases h
  · exact next_keyed hstate.frames h

/-- **One character.** -/
theorem step_keyed (hstate : state.Keyed) (h : step state c = some next) : next.Keyed := by
  obtain ⟨frames, mode⟩ := state
  obtain ⟨hframes, hmode⟩ := hstate
  unfold step at h
  cases mode with
  | value => exact start_keyed hframes h
  | firstItem =>
    dsimp only at h
    split at h
    · obtain ⟨-, hrest⟩ := List.forall_mem_cons.mp hframes
      repeat' split at h
      · refine Option.some.inj h ▸ finish_keyed hrest (.array fun v hv => ?_)
        exact absurd hv List.not_mem_nil
      · exact Option.some.inj h ▸ ⟨hframes, trivial⟩
      · exact start_keyed hframes h
    · cases h
  | key members mayEnd =>
    dsimp only at h
    repeat' split at h
    · exact Option.some.inj h ▸ ⟨hframes, hmode⟩
    · exact Option.some.inj h ▸ ⟨hframes, hmode⟩
    · refine Option.some.inj h ▸ finish_keyed hframes (.object List.nodup_nil fun e he => ?_)
      exact absurd he List.not_mem_nil
    · cases h
  | colon members key =>
    dsimp only at h
    repeat' split at h
    · exact Option.some.inj h ▸ ⟨hframes, hmode⟩
    · exact Option.some.inj h ▸ ⟨List.forall_mem_cons.mpr ⟨hmode, hframes⟩, trivial⟩
    · cases h
  | complete => exact afterValue_keyed ⟨hframes, hmode⟩ h
  | done v => exact afterValue_keyed ⟨hframes, hmode⟩ h
  | text keyOf chars within =>
    -- a text is a key of the object it carries, or a value
    dsimp only at h
    split at h
    · -- the quotation mark that ends it
      refine Option.some.inj h ▸ ?_
      cases keyOf with
      | none => exact finish_keyed hframes (.string _)
      | some members => exact ⟨hframes, hmode⟩
    · obtain ⟨r, -, rfl⟩ := Option.map_eq_some_iff.mp h
      refine ⟨hframes, ?_⟩
      cases keyOf with
      | none => trivial
      | some members => exact hmode
  | word left v =>
    dsimp only at h
    repeat' split at h
    · cases h
    · exact Option.some.inj h ▸ finish_keyed hframes hmode
    · cases h
    · exact Option.some.inj h ▸ ⟨hframes, hmode⟩
    · cases h
  | number chars =>
    dsimp only at h
    split at h
    · exact Option.some.inj h ▸ ⟨hframes, trivial⟩
    · -- the character that ends a number is read once more, after it
      obtain ⟨n, -, hafter⟩ := Option.bind_eq_some_iff.mp h
      exact afterValue_keyed (finish_keyed hframes (.number n)) hafter

/-- **A text.** -/
theorem foldlM_step_keyed {chars : List Char} (hstate : state.Keyed)
    (h : chars.foldlM step state = some next) : next.Keyed := by
  induction chars generalizing state with
  | nil => exact Option.some.inj h ▸ hstate
  | cons c rest ih =>
    rw [List.foldlM_cons] at h
    obtain ⟨state', hstep, hrest⟩ := Option.bind_eq_some_iff.mp h
    exact ih (step_keyed hstate hstep) hrest

theorem result?_keyed (hstate : state.Keyed) {v : Json} (h : result? state = some v) :
    v.Keyed := by
  unfold result? at h
  split at h
  · rename_i hmode
    have hdone := hstate.mode
    rw [hmode] at hdone
    exact Option.some.inj h ▸ hdone
  · obtain ⟨n, -, rfl⟩ := Option.map_eq_some_iff.mp h
    exact .number n
  · cases h

end Reader

/-- **What is read from text has no key twice**, at any depth. -/
theorem keyed_of_parse? {text : String} {v : Json} (h : parse? text = some v) : v.Keyed := by
  obtain ⟨state, hread, hresult⟩ := Option.bind_eq_some_iff.mp h
  have hstart : Reader.State.Keyed ⟨[], .value⟩ :=
    ⟨fun frame hframe => absurd hframe List.not_mem_nil, trivial⟩
  exact Reader.result?_keyed (Reader.foldlM_step_keyed hstart hread) hresult

end Json

end ServiceContracts
