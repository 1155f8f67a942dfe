import ServiceContracts.Definition.Loader
import ServiceContracts.Proofs.Definition.Expansion
/-!
# The resolver finds what names stand for

The resolver goes depth first, keeps what it has built, and stops with an
error wherever something is wrong. Two facts make its order of work
disappear. The table holds only what names stand for (`Sound`), so it
does not matter which of them are there already. And the names on the way
all lead to the name at hand (`Leads`), so one that is met again is on a
cycle and stands for nothing.

`Computes` is what is left of a computation then: from any sound table it
gives the one result that is described, or fails where none is.
`resolve_computes` says it of the resolver.
-/


namespace ServiceContracts.Definition

/-! ## Computations over a sound table -/

/-- **A sound table** holds only what names stand for. -/
def Sound (decls : Declarations) (built : Built) : Prop :=
  ∀ name schema, Entries.get? built name = some schema → Expands decls name schema

theorem Sound.nil (decls : Declarations) : Sound decls [] := by
  intro name schema h
  cases h

theorem Sound.set {decls : Declarations} {built : Built} (h : Sound decls built) {name : String}
    {schema : Schema} (hschema : Expands decls name schema) :
    Sound decls (Entries.set built name schema) := by
  intro other s hs
  rw [Entries.get?_set] at hs
  split at hs
  · rename_i heq
    obtain rfl := Option.some.inj hs
    exact heq ▸ hschema
  · exact h other s hs

/-- **A table that has grown** from another: it holds the names that were
there, and only what names stand for. -/
structure Grows (decls : Declarations) (before after : Built) : Prop where
  kept : Entries.keys before ⊆ Entries.keys after
  sound : Sound decls after

namespace Grows

variable {decls : Declarations} {built next later : Built}

theorem refl (h : Sound decls built) : Grows decls built built := ⟨List.Subset.refl _, h⟩

theorem trans (h : Grows decls built next) (h' : Grows decls next later) :
    Grows decls built later :=
  ⟨List.Subset.trans h.kept h'.kept, h'.sound⟩

theorem set (h : Sound decls built) {name : String} {schema : Schema}
    (hschema : Expands decls name schema) :
    Grows decls built (Entries.set built name schema) :=
  ⟨fun _ hkey => Entries.mem_keys_set_iff.mpr (.inr hkey), h.set hschema⟩

end Grows

/-- What a computation ends with: a result and a table that has grown, or an
error. -/
inductive Verdict (decls : Declarations) {α : Type} (before : Built) (C : Prop) (P : α → Prop) :
    Except LoadError (α × Built) → Prop
  | accepted {a : α} {built : Built} (hc : C) (ha : P a) (hbuilt : Grows decls before built) :
      Verdict decls before C P (.ok (a, built))
  | refused {error : LoadError} (hc : ¬ C) : Verdict decls before C P (.error error)

/-- **A computation decides a condition**: from every sound table, it gives a
result with a property where the condition holds, and fails elsewhere. -/
def Decides (decls : Declarations) {α : Type} (m : Resolving α) (C : Prop) (P : α → Prop) : Prop :=
  ∀ built, Sound decls built → Verdict decls built C P (m.run built)

/-- **A computation computes what is described**: it gives the one thing that
fits the description, and fails where nothing does. -/
def Computes (decls : Declarations) {α : Type} (m : Resolving α) (P : α → Prop) : Prop :=
  Decides decls m (∃ a, P a) fun a => P a ∧ ∀ a', P a' → a' = a

section Laws

variable {decls : Declarations} {α β : Type} {m : Resolving α} {C D : Prop} {P : α → Prop}
  {Q : β → Prop}

namespace Decides

theorem pure {a : α} (hc : C) (ha : P a) : Decides decls (Pure.pure a : Resolving α) C P :=
  fun _ hbuilt => .accepted hc ha (.refl hbuilt)

theorem throw {error : LoadError} (hc : ¬ C) :
    Decides decls (MonadExcept.throw error : Resolving α) C P :=
  fun _ _ => .refused hc

theorem congr (h : Decides decls m C P) (hc : C ↔ D) {P' : α → Prop} (hp : ∀ a, P a → P' a) :
    Decides decls m D P' := by
  intro built hbuilt
  have hverdict := h built hbuilt
  generalize m.run built = result at hverdict ⊢
  cases hverdict with
  | accepted hC ha hbuilt' => exact .accepted (hc.mp hC) (hp _ ha) hbuilt'
  | refused hC => exact .refused (mt hc.mpr hC)

/-- One computation after another decides both conditions. -/
theorem bind (h : Decides decls m C P) {f : α → Resolving β}
    (hf : ∀ a, P a → Decides decls (f a) D Q) : Decides decls (m >>= f) (C ∧ D) Q := by
  intro built hbuilt
  have hrun : (m >>= f).run built = (m.run built).bind fun p => (f p.1).run p.2 := rfl
  rw [hrun]
  have hverdict := h built hbuilt
  generalize m.run built = result at hverdict ⊢
  cases hverdict with
  | refused hC => exact .refused fun hboth => hC hboth.1
  | accepted hC ha hbuilt' =>
    have hnext := hf _ ha _ hbuilt'.sound
    dsimp only [Except.bind]
    generalize (f _).run _ = result at hnext ⊢
    cases hnext with
    | accepted hD hb hbuilt'' => exact .accepted ⟨hC, hD⟩ hb (hbuilt'.trans hbuilt'')
    | refused hD => exact .refused fun hboth => hD hboth.2

/-- What there is to a computation that gives a result. -/
theorem of_run_eq_ok (h : Decides decls m C P) {built built' : Built} (hbuilt : Sound decls built)
    {a : α} (hrun : m.run built = .ok (a, built')) : C ∧ P a ∧ Grows decls built built' := by
  have hverdict := h built hbuilt
  rw [hrun] at hverdict
  cases hverdict with
  | accepted hC ha hgrows => exact ⟨hC, ha, hgrows⟩

end Decides

namespace Computes

theorem pure {a : α} (ha : P a) (honly : ∀ a', P a' → a' = a) :
    Computes decls (Pure.pure a : Resolving α) P :=
  Decides.pure ⟨a, ha⟩ ⟨ha, honly⟩

theorem pure_eq (a : α) : Computes decls (Pure.pure a : Resolving α) fun b => b = a :=
  pure rfl fun _ h => h

theorem throw {error : LoadError} (hnone : ∀ a, ¬ P a) :
    Computes decls (MonadExcept.throw error : Resolving α) P :=
  Decides.throw fun ⟨a, ha⟩ => hnone a ha

theorem congr (h : Computes decls m P) {P' : α → Prop} (hp : ∀ a, P a ↔ P' a) :
    Computes decls m P' := by
  obtain rfl : P = P' := funext fun a => propext (hp a)
  exact h

/-- One computation after another computes what is described through both. -/
theorem bind {R : α → β → Prop} (h : Computes decls m P) {f : α → Resolving β}
    (hf : ∀ a, P a → Computes decls (f a) (R a)) :
    Computes decls (m >>= f) fun b => ∃ a, P a ∧ R a b := by
  have hnext : ∀ a, (P a ∧ ∀ a', P a' → a' = a) →
      Computes decls (f a) fun b => ∃ a, P a ∧ R a b := by
    rintro a ⟨ha, honly⟩
    refine (hf a ha).congr fun b => ⟨fun hb => ⟨a, ha, hb⟩, ?_⟩
    rintro ⟨a', ha', hb⟩
    exact honly a' ha' ▸ hb
  refine (Decides.bind h hnext).congr ⟨fun hboth => hboth.2, ?_⟩ fun _ hb => hb
  rintro ⟨b, a, ha, hb⟩
  exact ⟨⟨a, ha⟩, b, a, ha, hb⟩

theorem map (h : Computes decls m P) (f : α → β) :
    Computes decls (f <$> m) fun b => ∃ a, P a ∧ b = f a := by
  rw [map_eq_pure_bind]
  exact h.bind fun a _ => Computes.pure_eq (f a)

end Computes

/-- A computation made of two that gives a result has run both. -/
theorem exists_of_run_bind {f : α → Resolving β} {b : β} {built later : Built}
    (h : (m >>= f).run built = .ok (b, later)) :
    ∃ a next, m.run built = .ok (a, next) ∧ (f a).run next = .ok (b, later) := by
  rw [StateT.run_bind] at h
  generalize m.run built = result at h ⊢
  cases result with
  | error e => cases h
  | ok p => exact ⟨p.1, p.2, rfl, h⟩

end Laws

/-! ## Properties and fields -/

/-- What the resolver does for a property. -/
theorem Property.fieldType_eq {refer : String → Resolving Schema} {type name : String}
    (p : Property) :
    p.fieldType refer type name =
      if p.listsUnion then throw (.invalidType type (.union name))
      else
        match p.reference with
        | some reference => (fun schema => p.admitting (.message schema)) <$> refer reference
        | none =>
          match p.kind? with
          | none => throw (.invalidType type (.noKind name))
          | some kind =>
            match scalarOf? kind with
            | some s => pure (p.admitting (.scalar s))
            | none =>
              if kind = "array" then
                match p.items with
                | some items =>
                  (fun element => p.admitting (.list element)) <$> items.fieldType refer type name
                | none => throw (.invalidType type (.noItems name))
              else throw (.invalidType type (.unsupportedKind kind name)) := by
  obtain ⟨kinds, items, reference, description, default, nullable⟩ := p
  rw [fieldType, listsUnion, kind?]
  dsimp only
  split
  · rfl
  · cases reference with
    | some reference => simp only [map_eq_pure_bind, bind_assoc, pure_bind]; rfl
    | none =>
      cases kinds.bind Kinds.kind? with
      | none => rfl
      | some kind =>
        cases hscalar : scalarOf? kind with
        | some s => simp only [hscalar, pure_bind]; rfl
        | none =>
          simp only [hscalar]
          split
          · cases items with
            | some items => simp only [map_eq_pure_bind, bind_assoc, pure_bind]; rfl
            | none => rfl
          · rfl

variable {decls : Declarations}

/-- **The type of a property**, where its reference is resolved to what it
stands for. -/
theorem Property.fieldType_computes {refer : String → Resolving Schema} {type name : String}
    (p : Property) (hrefer : ∀ reference, p.dependence? = some reference →
      Computes decls (refer reference) fun schema =>
        ∃ ref, typeName? reference = some ref ∧ Expands decls ref schema) :
    Computes decls (p.fieldType refer type name) (p.HasType (Expands decls)) := by
  induction p using Property.induction with
  | step p ih =>
    rw [fieldType_eq]
    by_cases hunion : p.listsUnion = true
    · rw [if_pos hunion]
      exact .throw fun t ht => Bool.false_ne_true (ht.listsUnion_eq.symm.trans hunion)
    rw [if_neg hunion]
    rw [Bool.not_eq_true] at hunion
    cases hreference : p.reference with
    | some reference =>
      refine ((hrefer _ (dependence?_of_reference hreference)).map _).congr fun t => ?_
      exact (hasType_reference_iff hunion hreference).symm
    | none =>
      cases hkind : p.kind? with
      | none =>
        refine .throw fun t ht => ?_
        obtain ⟨kind, hsome, -⟩ := ht.exists_kind hreference
        simp [hkind] at hsome
      | some kind =>
        -- what a type needs of the kind, for the cases where there is none
        have hneeds : ∀ t, p.HasType (Expands decls) t → (∃ s, scalarOf? kind = some s) ∨
            kind = "array" ∧ ∃ items, p.items = some items := by
          intro t ht
          obtain ⟨kind', hkind', hneeds⟩ := ht.exists_kind hreference
          exact Option.some.inj (hkind.symm.trans hkind') ▸ hneeds
        cases hscalar : scalarOf? kind with
        | some s =>
          simp only [hscalar]
          refine (Computes.pure_eq _).congr fun t => ?_
          exact (hasType_scalar_iff hunion hreference hkind hscalar).symm
        | none =>
          simp only [hscalar, reduceCtorEq, exists_false, false_or] at hneeds ⊢
          by_cases harray : kind = "array"
          · subst harray
            rw [if_pos rfl]
            cases hitems : p.items with
            | none => exact .throw fun t ht => by simpa [hitems] using hneeds t ht
            | some items =>
              have helement := ih items hitems fun reference hdepends =>
                hrefer reference ((dependence?_of_items hreference hkind hitems).trans hdepends)
              refine (helement.map _).congr fun t => ?_
              exact (hasType_array_iff hunion hreference hkind hitems).symm
          · rw [if_neg harray]
            exact .throw fun t ht => harray (hneeds t ht).1

/-- What a default decides, once the type is there. -/
theorem Property.field_computes {refer : String → Resolving Schema} {type name : String}
    {required : List String} (p : Property) (hrefer : ∀ reference, p.dependence? = some reference →
      Computes decls (refer reference) fun schema =>
        ∃ ref, typeName? reference = some ref ∧ Expands decls ref schema) :
    Computes decls (p.field refer type required name)
      (p.HasField (Expands decls) required name) := by
  have htype : Computes decls (p.fieldType refer type name) _ := p.fieldType_computes hrefer
  unfold field
  cases hdefault : p.default with
  | none =>
    refine (htype.bind fun base _ => .pure_eq _).congr fun f => ?_
    constructor
    · rintro ⟨base, hbase, rfl⟩
      exact .plain hbase hdefault
    · intro hf
      cases hf with
      | plain hbase => exact ⟨_, hbase, rfl⟩
      | withDefault _ hdefault' => simp [hdefault] at hdefault'
  | some raw =>
    refine (htype.bind (R := fun base f => ∃ v, base.read raw = .ok v ∧
      f = ⟨name, base, some v, p.description⟩) fun base _ => ?reads).congr fun f => ?_
    case reads =>
      dsimp only
      cases base.read raw with
      | ok v =>
        refine .pure ⟨v, rfl, rfl⟩ ?_
        rintro f ⟨w, hw, rfl⟩
        rw [Except.ok.inj hw]
      | error errors =>
        refine .throw ?_
        rintro f ⟨v, hv, -⟩
        cases hv
    constructor
    · rintro ⟨base, hbase, v, hv, rfl⟩
      exact .withDefault hbase hdefault hv
    · intro hf
      cases hf with
      | plain _ hdefault' => simp [hdefault] at hdefault'
      | withDefault hbase hdefault' hv =>
        obtain rfl := Option.some.inj (hdefault.symm.trans hdefault')
        exact ⟨_, hbase, _, hv, rfl⟩

/-- The fields of properties, in their order. -/
theorem fieldsOf_computes {refer : String → TypeUse → Resolving Schema} {type : String}
    {required : List String} {properties : List (String × Property)}
    (hrefer : ∀ e ∈ properties, ∀ reference, Property.dependence? e.2 = some reference → ∀ use,
      Computes decls (refer reference use) fun schema =>
        ∃ ref, typeName? reference = some ref ∧ Expands decls ref schema) :
    Computes decls (fieldsOf refer type required properties)
      (List.Forall₂ (fun e f => Property.HasField (Expands decls) required e.1 e.2 f)
        properties) := by
  induction properties with
  | nil => exact .pure .nil fun fields h => List.forall₂_nil_left_iff.mp h
  | cons e rest ih =>
    obtain ⟨name, p⟩ := e
    have hfield : Computes decls
        (p.field (fun reference => refer reference (.property name type)) type required name) _ :=
      p.field_computes fun reference hdepends =>
        hrefer (name, p) List.mem_cons_self reference hdepends (.property name type)
    have hrest := ih fun e he => hrefer e (List.mem_cons_of_mem _ he)
    rw [fieldsOf]
    refine (hfield.bind fun f _ => hrest.bind fun fields _ =>
      .pure_eq _).congr fun all => ?_
    constructor
    · rintro ⟨f, hf, fields, hfields, rfl⟩
      exact .cons hf hfields
    · intro h
      cases h with
      | cons hf hfields => exact ⟨_, hf, _, hfields, rfl⟩

/-- The schema of a type definition. -/
theorem TypeDefinition.schema_computes {refer : String → TypeUse → Resolving Schema}
    {name : String} {d : TypeDefinition}
    (hrefer : ∀ e ∈ d.properties, ∀ reference, Property.dependence? e.2 = some reference → ∀ use,
      Computes decls (refer reference use) fun schema =>
        ∃ ref, typeName? reference = some ref ∧ Expands decls ref schema) :
    Computes decls (d.schema refer name) (d.HasSchema (Expands decls) name) := by
  unfold TypeDefinition.schema
  cases hmissing : d.required.find? fun r => !Entries.has d.properties r with
  | some missing =>
    -- this comes before any property is looked at, and nothing after it could mend it
    refine .throw fun schema h => ?_
    have hhas := Entries.has_iff.mpr (h.required missing (List.mem_of_find?_eq_some hmissing))
    simpa [hhas] using List.find?_some hmissing
  | none =>
    have hrequired : ∀ r ∈ d.required, r ∈ Entries.keys d.properties := by
      intro r hr
      simpa [Entries.has_iff] using List.find?_eq_none.mp hmissing r hr
    refine ((fieldsOf_computes hrefer).bind (R := fun fields schema =>
      Schema.build name d.description fields = .ok schema) fun fields _ => ?builds).congr
        fun schema => ?_
    case builds =>
      cases Schema.build name d.description fields with
      | ok schema => exact .pure rfl fun s hs => (Except.ok.inj hs).symm
      | error error =>
        refine .throw fun s hs => ?_
        cases hs
    exact ⟨fun h => ⟨hrequired, h⟩, fun h => h.fields⟩

/-! ## Names -/

/-- A reference stands for what the name in it does. -/
theorem resolveReference_computes {follow : String → Resolving Schema} {reference : String}
    {use : TypeUse} (hfollow : ∀ ref, typeName? reference = some ref →
      Computes decls (follow ref) (Expands decls ref)) :
    Computes decls (resolveReference decls follow reference use) fun schema =>
      ∃ ref, typeName? reference = some ref ∧ Expands decls ref schema := by
  unfold resolveReference
  cases hname : typeName? reference with
  | none => exact .throw fun schema ⟨ref, href, _⟩ => nomatch href
  | some ref =>
    dsimp only
    split
    · refine (hfollow ref hname).congr fun schema => ⟨fun h => ⟨ref, rfl, h⟩, ?_⟩
      rintro ⟨ref', href, hschema⟩
      exact Option.some.inj href ▸ hschema
    · rename_i hdeclared
      refine .throw ?_
      rintro schema ⟨ref', href, hschema⟩
      obtain rfl := Option.some.inj href
      exact hdeclared (Entries.has_iff.mpr hschema.declared)

/-- Every name on the way leads to the name at hand. -/
def Leads (decls : Declarations) (way : List String) (name : String) : Prop :=
  ∀ n ∈ way, Relation.TransGen (Refers decls) n name

/-- No way leads anywhere, so it may start at any name. -/
theorem Leads.nil (name : String) : Leads decls [] name := by
  intro n hn
  cases hn

/-- The way goes on along a reference. -/
theorem Leads.snoc {way : List String} {name ref : String} (h : Leads decls way name)
    (href : Refers decls name ref) : Leads decls (way ++ [name]) ref := by
  intro n hn
  rcases List.mem_append.mp hn with hn | hn
  · exact (h n hn).tail href
  · exact List.mem_singleton.mp hn ▸ .single href

/-- Looking into the table first changes nothing. -/
theorem Computes.of_get {m : Built → Resolving Schema} {P : Schema → Prop}
    (h : ∀ built, Sound decls built →
      Verdict decls built (∃ a, P a) (fun a => P a ∧ ∀ a', P a' → a' = a) ((m built).run built)) :
    Computes decls (get >>= m) P :=
  fun built hbuilt => h built hbuilt

/-- Keeping what a name stands for keeps the table sound. -/
theorem Computes.keep {name : String} {schema : Schema} (h : Expands decls name schema) :
    Computes decls (do
      modify fun built => Entries.set built name schema
      return schema) fun s => s = schema :=
  fun _ hbuilt => .accepted ⟨schema, rfl⟩ ⟨rfl, fun _ hs => hs⟩ (.set hbuilt h)

/-- **The resolver computes what a name stands for**, whatever way led to the
name and whatever has been built before. -/
theorem resolve_computes {way : List String} {name : String} (hway : Leads decls way name) :
    Computes decls (resolve decls way name) (Expands decls name) := by
  induction way, name using resolve.induct decls with
  | case1 way name ih =>
    rw [resolve]
    refine Computes.of_get fun built hbuilt => ?_
    cases hfound : Entries.get? built name with
    | some schema =>
      -- an earlier visit has built it, and it cannot have built anything else
      have hschema := hbuilt name schema hfound
      exact .accepted ⟨schema, hschema⟩ ⟨hschema, fun s hs => hs.unique hschema⟩ (.refl hbuilt)
    | none =>
      dsimp only
      split
      · -- the way has come back to where it was, so the name is on a cycle
        rename_i hcycle
        refine .refused ?_
        rintro ⟨schema, hschema⟩
        exact hschema.not_cyclic (hway name hcycle)
      · rename_i hnew
        split
        · rename_i hundeclared
          refine .refused ?_
          rintro ⟨schema, hschema⟩
          obtain ⟨d, hdecl, -⟩ := Expands.iff_hasSchema.mp hschema
          rw [hundeclared] at hdecl
          cases hdecl
        · rename_i d hdecl
          have hstands : ∀ schema, Expands decls name schema ↔
              d.HasSchema (Expands decls) name schema := by
            intro schema
            rw [Expands.iff_hasSchema, hdecl]
            simp
          have hschema : Computes decls (d.schema
              (resolveReference decls fun ref => resolve decls (way ++ [name]) ref) name)
              (Expands decls name) := by
            refine (d.schema_computes fun e he reference hdepends use => ?_).congr
              fun schema => (hstands schema).symm
            exact resolveReference_computes fun ref href =>
              ih hnew d hdecl ref (hway.snoc (.of_dependence hdecl he hdepends href))
          refine (hschema.bind fun schema h => .keep h).congr (fun schema => ?_) built hbuilt
          constructor
          · rintro ⟨s, hs, rfl⟩
            exact hs
          · intro hs
            exact ⟨schema, hs, rfl⟩

/-- **And it keeps that in the table.** -/
theorem mem_keys_of_resolve {way : List String} {name : String} {schema : Schema}
    {built built' : Built} (h : (resolve decls way name).run built = .ok (schema, built')) :
    name ∈ Entries.keys built' := by
  rw [resolve, StateT.run_bind, StateT.run_get, pure_bind] at h
  split at h
  · rename_i found hfound
    obtain ⟨-, rfl⟩ := Prod.mk.inj (Except.ok.inj h)
    exact List.mem_map_of_mem (Entries.mem_of_get?_eq_some hfound)
  · split at h
    · cases h
    · split at h
      · cases h
      · obtain ⟨s, next, -, hkeep⟩ := exists_of_run_bind h
        obtain ⟨-, rfl⟩ := Prod.mk.inj (Except.ok.inj hkeep)
        exact Entries.mem_keys_set_iff.mpr (.inl rfl)

end ServiceContracts.Definition
