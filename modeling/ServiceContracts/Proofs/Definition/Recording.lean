import ServiceContracts.Proofs.Definition.Relating
import ServiceContracts.Proofs.Definition.Tracking
/-!
# What is written down

Nothing that a tracked load writes down is lost later (`Records`), and the
resolver writes down each of its calls itself: the call before anything
else, with what it finds, and its return after everything else, with what
it leaves (`Logged`). So the record of a load is complete.
-/


namespace ServiceContracts.Definition

/-- The record has grown at its ends. -/
structure Tracked.Extends (before after : Tracked) : Prop where
  calls : before.calls <+: after.calls
  returns : before.returns <+: after.returns

/-- **A call of the resolver that is written down**: before anything else it
has recorded what it finds, and if it gives a schema, after everything else
what it leaves. -/
structure Logged (name : String) (before : Tracked) (result : Except LoadError Schema)
    (after : Tracked) : Prop where
  call : before.calls ++ [⟨name, before.progress⟩] <+: after.calls
  kept : before.returns <+: after.returns
  returned : ∀ schema, result = .ok schema →
    ∃ inside, before.returns <+: inside ∧
      after.returns = inside ++ [⟨before.progress, after.progress⟩]

/-- A step that loses nothing of the record. -/
def Records {α : Type} (x : Tracking α) : Prop :=
  ∀ (before : Tracked) (result : Except LoadError α) (after : Tracked),
    x.runFrom before = some (result, after) → before.Extends after

namespace Tracked.Extends

variable {s t u : Tracked}

theorem refl (t : Tracked) : t.Extends t := ⟨List.prefix_rfl, List.prefix_rfl⟩

theorem trans (h : s.Extends t) (h' : t.Extends u) : s.Extends u :=
  ⟨h.calls.trans h'.calls, h.returns.trans h'.returns⟩

end Tracked.Extends

/-- A call that is written down loses nothing. -/
theorem Logged.extends {name : String} {before after : Tracked}
    {result : Except LoadError Schema} (h : Logged name before result after) :
    before.Extends after :=
  ⟨(List.prefix_append _ _).trans h.call, h.kept⟩

namespace Tracking

variable {α β : Type} {before after : Tracked}

/-- Two steps in a row end with the second one, or with an error of the
first. -/
theorem cases_of_runFrom_bind {x : Tracking α} {f : α → Tracking β} {result : Except LoadError β}
    (h : (x >>= f).runFrom before = some (result, after)) :
    (∃ a between, x.runFrom before = some (.ok a, between) ∧
      (f a).runFrom between = some (result, after)) ∨
    ∃ error, x.runFrom before = some (.error error, after) ∧ result = .error error := by
  rw [runFrom_bind] at h
  obtain ⟨⟨first, between⟩, hx, h⟩ := Option.bind_eq_some_iff.mp h
  cases first with
  | ok a => exact .inl ⟨a, between, hx, h⟩
  | error error =>
    obtain ⟨rfl, rfl⟩ := Prod.mk.inj (Option.some.inj h)
    exact .inr ⟨error, hx, rfl⟩

end Tracking

namespace Records

variable {α β : Type}

theorem pure (a : α) : Records (Pure.pure a) := by
  rintro before _ _ ⟨⟩
  exact .refl before

theorem throw (error : LoadError) : Records (α := α) (MonadExcept.throw error) := by
  rintro before _ _ ⟨⟩
  exact .refl before

theorem throw_bind (error : LoadError) (f : α → Tracking β) :
    Records (MonadExcept.throw error >>= f) := by
  rintro before _ _ ⟨⟩
  exact .refl before

theorem bind {x : Tracking α} {f : α → Tracking β} (hx : Records x) (hf : ∀ a, Records (f a)) :
    Records (x >>= f) := by
  intro before result after h
  obtain ⟨a, between, hrun, hrest⟩ | ⟨error, hrun, -⟩ := Tracking.cases_of_runFrom_bind h
  · exact (hx _ _ _ hrun).trans (hf a _ _ _ hrest)
  · exact hx _ _ _ hrun

/-- The resolver's progress is not part of the record. -/
theorem advance (f : Progress → Progress) : Records (Tracking.advance f) := by
  rintro before _ _ ⟨⟩
  exact ⟨List.prefix_rfl, List.prefix_rfl⟩

end Records

/-- As a relation, of the steps of one way to themselves. -/
def recording : StepRelation Tracking Tracking where
  Rel x _ := Records x
  pure := .pure
  throw := .throw
  throw_bind error f _ := .throw_bind error f
  bind := .bind

namespace Tracking

variable {decls : Declarations} {name : String} {before after : Tracked}

/-- A type is made without loss, where references are followed so. -/
theorem make_records {follow : String → Tracking Schema} (hfollow : ∀ name, Records (follow name))
    (d : TypeDefinition) : Records (make decls follow name d) := by
  have hname : ∀ name, recording.Rel (follow name) (follow name) := hfollow
  unfold make
  cases d.required.find? fun r => !Entries.has d.properties r with
  | some missing => exact .throw _
  | none =>
    have hfields : Records (fieldsOf (resolveReference decls follow) name d.required d.properties) :=
      recording.fieldsOf fun _ _ _ _ _ => recording.resolveReference fun ref _ _ => hname ref
    refine (Records.advance _).bind fun _ => hfields.bind fun fields =>
      (Records.advance _).bind fun _ => ?_
    cases Schema.build name d.description fields with
    | ok schema => exact (Records.advance _).bind fun _ => .pure schema
    | error error => exact .throw _

/-- A call is written down where its work loses nothing, and comes between
the call and the return. -/
theorem logged_around {work : Tracking Schema} (hwork : Records work)
    {body : Progress → Tracking Schema}
    (hbody : body before.progress = (do
      let schema ← work
      returned before.progress
      return schema))
    {result : Except LoadError Schema}
    (h : (called name >>= body).runFrom before = some (result, after)) :
    Logged name before result after := by
  rw [runFrom_bind, runFrom_called, Option.bind_some] at h
  dsimp only at h
  rw [hbody] at h
  obtain ⟨schema, left, hrun, hreturn⟩ | ⟨error, hrun, rfl⟩ := cases_of_runFrom_bind h
  · obtain ⟨hcalls, hreturns⟩ := hwork _ _ _ hrun
    cases hreturn
    exact ⟨hcalls, hreturns.trans (List.prefix_append _ _), fun _ _ => ⟨_, hreturns, rfl⟩⟩
  · obtain ⟨hcalls, hreturns⟩ := hwork _ _ _ hrun
    exact ⟨hcalls, hreturns, nofun⟩

/-- **Every call of the resolver is written down**, how deep it may be and
wherever it begins. -/
theorem resolve_logged {depth : Nat} {result : Except LoadError Schema}
    (h : (resolve decls depth name).runFrom before = some (result, after)) :
    Logged name before result after := by
  induction depth generalizing name before result after with
  | zero => cases h
  | succ depth ih =>
    have hfollow : ∀ name, Records (resolve decls depth name) :=
      fun name _ _ _ hrun => (ih hrun).extends
    rw [resolve] at h
    cases hbuilt : Entries.get? before.progress.built name with
    | some schema => exact logged_around (.pure schema) (by rw [hbuilt]) h
    | none =>
      by_cases hback : name ∈ before.progress.visiting
      · exact logged_around (.throw _) (by rw [hbuilt]; exact if_pos hback) h
      cases hdecl : Entries.get? decls name with
      | none => exact logged_around (.throw _) (by rw [hbuilt, hdecl]; exact if_neg hback) h
      | some d =>
        exact logged_around (make_records hfollow d) (by rw [hbuilt, hdecl]; exact if_neg hback) h

/-- Types that are resolved one after the other have a call each. -/
theorem exists_call_of_resolveAll {depth : Nat} {names : List String}
    (h : (resolveAll decls depth names).runFrom before = some (.ok (), after)) :
    before.Extends after ∧ ∀ name ∈ names, ∃ c ∈ after.calls, c.name = name := by
  induction names generalizing before with
  | nil =>
    cases h
    exact ⟨.refl _, nofun⟩
  | cons name rest ih =>
    rw [resolveAll] at h
    obtain ⟨schema, between, hrun, hrest⟩ | ⟨error, -, herror⟩ := cases_of_runFrom_bind h
    · have hlogged := resolve_logged hrun
      obtain ⟨hextends, hnames⟩ := ih hrest
      refine ⟨hlogged.extends.trans hextends, List.forall_mem_cons.mpr ⟨?_, hnames⟩⟩
      exact ⟨_, (hlogged.call.trans hextends.calls).subset
        (List.mem_append_right _ (List.mem_singleton_self _)), rfl⟩
    · cases herror

/-- Services are added without loss. -/
theorem addServices_records {depth : Nat} (r : Registry) (ds : List ServiceDefinition) :
    Records (addServices decls (resolve decls depth) r ds) := by
  have hname : ∀ name ∈ Entries.keys decls,
      recording.Rel (resolve decls depth name) (resolve decls depth name) :=
    fun _ _ _ _ _ hrun => (resolve_logged hrun).extends
  exact recording.addServices hname r ds

/-- So a load that succeeds has a call for each type. -/
theorem exists_call_of_load {depth : Nat} {names : List String} {ds : List ServiceDefinition}
    {r r' : Registry}
    (h : (do
      resolveAll decls depth names
      addServices decls (resolve decls depth) r ds : Tracking Registry).runFrom before =
        some (.ok r', after)) :
    ∀ name ∈ names, ∃ c ∈ after.calls, c.name = name := by
  intro name hname
  obtain ⟨_, between, hrun, hrest⟩ | ⟨error, -, herror⟩ := cases_of_runFrom_bind h
  · obtain ⟨c, hc, rfl⟩ := (exists_call_of_resolveAll hrun).2 name hname
    exact ⟨c, (addServices_records r ds _ _ _ hrest).calls.subset hc, rfl⟩
  · cases herror

end Tracking

end ServiceContracts.Definition
