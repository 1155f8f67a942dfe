import ServiceContracts.Proofs.Definition.Failures
import ServiceContracts.Proofs.Definition.Recording
/-!
# The stack of the resolver

A load that is written down goes through the same functions for properties,
types and services as one that is not. So one relation between their steps
is enough (`Follows`): it is kept by each of those functions if it is kept by
the resolver, and for the resolver itself the way that it is given is the
stack. The result is that of the load then, and what is written down is
what the load does (`Loader.build_tracked`).
-/


namespace ServiceContracts.Definition

/-! ## Following the resolver -/

/-- What a tracked step ends with, beside what a step of the resolver does:
the same result and the same table, with what was there kept, or the same
error. -/
inductive Ends (decls : Declarations) {α : Type} (before : Progress) :
    Except LoadError (α × Built) → Option (Except LoadError α × Tracked) → Prop
  | result {a : α} {t : Tracked} (hkeeps : before.Keeps t.progress) (ht : t.Sound decls) :
      Ends decls before (.ok (a, t.progress.built)) (some (.ok a, t))
  | error {error : LoadError} {t : Tracked} (ht : t.Sound decls) :
      Ends decls before (.error error) (some (.error error, t))

/-- **A tracked step follows a step of the resolver** on a way: with that way
as its stack, it ends as that does, and everything stays sound. -/
def Follows (decls : Declarations) (way : List String) {α : Type} (x : Tracking α)
    (y : Resolving α) : Prop :=
  ∀ t : Tracked, t.Sound decls → t.progress.visiting = way →
    Ends decls t.progress (y.run t.progress.built) (x.runFrom t)

section Laws

variable {decls : Declarations} {way : List String} {α β : Type}

theorem Ends.trans {p q : Progress} (hkeeps : p.Keeps q) {y : Except LoadError (α × Built)}
    {x : Option (Except LoadError α × Tracked)} (h : Ends decls q y x) : Ends decls p y x := by
  cases h with
  | result hkeeps' ht => exact .result (hkeeps.trans hkeeps') ht
  | error ht => exact .error ht

namespace Follows

theorem pure (a : α) : Follows decls way (Pure.pure a) (Pure.pure a) :=
  fun t ht _ => .result (.refl t.progress) ht

theorem throw (error : LoadError) :
    Follows (α := α) decls way (MonadExcept.throw error) (MonadExcept.throw error) :=
  fun _ ht _ => .error ht

/-- After an error nothing else happens. -/
theorem throw_bind (error : LoadError) (f : α → Tracking β) (g : α → Resolving β) :
    Follows decls way (MonadExcept.throw error >>= f) (MonadExcept.throw error >>= g) :=
  fun _ ht _ => .error ht

theorem bind {x : Tracking α} {y : Resolving α} (h : Follows decls way x y)
    {f : α → Tracking β} {g : α → Resolving β} (hf : ∀ a, Follows decls way (f a) (g a)) :
    Follows decls way (x >>= f) (y >>= g) := by
  intro t ht hway
  have hends := h t ht hway
  rw [Tracking.runFrom_bind, StateT.run_bind]
  generalize y.run _ = result, x.runFrom t = result' at hends ⊢
  cases hends with
  | result hkeeps ht' => exact (hf _ _ ht' (hkeeps.visiting.trans hway)).trans hkeeps
  | error ht' => exact .error ht'

end Follows

end Laws

/-- As a relation between their steps. -/
def following (decls : Declarations) (way : List String) : StepRelation Tracking Resolving where
  Rel := Follows decls way
  pure := .pure
  throw := .throw
  throw_bind := .throw_bind
  bind h hf := h.bind hf

/-! ## The resolver -/

section Resolver

variable {decls : Declarations} {way : List String}

/-- **A type is made alike**, and only its table entry is left of it: its
name leaves the stack, and the table has had no entry for it before. -/
theorem Tracking.make_follows {follow : String → Tracking Schema}
    {follow' : String → Resolving Schema} {name : String} {d : TypeDefinition}
    (hfollow : ∀ e ∈ d.properties, ∀ reference, Property.dependence? e.2 = some reference →
      ∀ use, Follows decls (way ++ [name]) (resolveReference decls follow reference use)
        (resolveReference decls follow' reference use))
    {t : Tracked} (ht : t.Sound decls) (hway : t.progress.visiting = way)
    (hname : name ∈ Entries.keys decls) (hedges : (way ++ [name]).IsChain (Refers decls))
    (hnew : name ∉ way) (hunbuilt : name ∉ Entries.keys t.progress.built) :
    Ends decls t.progress
      ((do
        let schema ← d.schema (resolveReference decls follow') name
        modify fun built => Entries.set built name schema
        return schema : Resolving Schema).run t.progress.built)
      ((Tracking.make decls follow name d).runFrom t) := by
  unfold Tracking.make TypeDefinition.schema
  cases d.required.find? fun r => !Entries.has d.properties r with
  | some missing => exact .error ht
  | none =>
    subst hway
    have hpushed := ht.advance (ht.consistent.push hname hedges hnew hunbuilt)
    have hfields : Follows decls (t.progress.visiting ++ [name])
        (fieldsOf (resolveReference decls follow) name d.required d.properties)
        (fieldsOf (resolveReference decls follow') name d.required d.properties) :=
      (following decls _).fieldsOf hfollow
    have hends := hfields _ hpushed rfl
    simp only [StateT.run_bind, runFrom_bind, runFrom_advance, Option.bind_some, bind_assoc]
    generalize StateT.run _ _ = result, runFrom _ _ = result' at hends ⊢
    cases hends with
    | error ht' => exact .error ht'
    | @result fields t' hkeeps ht' =>
      have hpopped := ht'.advance ht'.consistent.pop
      have hvisiting : t'.progress.visiting.dropLast = t.progress.visiting := by
        rw [hkeeps.visiting, List.dropLast_concat]
      have hfree : name ∉ Entries.keys t'.progress.built := by
        refine fun hmem => ht'.consistent.apart ?_ hmem
        rw [hkeeps.visiting]
        exact List.mem_append_right _ (List.mem_singleton_self name)
      dsimp only [Option.bind_some, bind, Except.bind]
      cases hbuild : Schema.build name d.description fields with
      | error error => exact .error hpopped
      | ok schema =>
        obtain ⟨-, -, -, checked, -, hschema⟩ := Schema.build_eq_ok_iff.mp hbuild
        have hnamed : schema.name = name := by rw [hschema]
        have hoff : name ∉ t'.progress.visiting.dropLast := hvisiting ▸ hnew
        have hadded : t'.progress.built <+: Entries.set t'.progress.built name schema := by
          rw [Entries.set_of_notMem hfree]
          exact List.prefix_append _ _
        have hkept : t.progress.Keeps
            ⟨t'.progress.visiting.dropLast, Entries.set t'.progress.built name schema⟩ :=
          ⟨hvisiting, hkeeps.built.trans hadded⟩
        exact .result hkept (hpopped.advance (hpopped.consistent.insert hnamed hoff))

/-- **The tracked resolver follows the resolver** on every way to a declared
type, if it may go as deep as there are declared types off that way, and one
deeper. -/
theorem Tracking.resolve_follows {depth : Nat} {name : String}
    (hdepth : decls.length < depth + way.length) (hname : name ∈ Entries.keys decls)
    (hedges : (way ++ [name]).IsChain (Refers decls)) :
    Follows decls way (Tracking.resolve decls depth name) (Definition.resolve decls way name) := by
  -- the stack has as many names as calls are open, so it is full when these run out
  induction depth generalizing way name with
  | zero =>
    intro t ht hway
    have hle := ht.consistent.length_le
    rw [hway] at hle
    omega
  | succ depth ih =>
    intro t ht hway
    have hcalled := ht.called hname (hway ▸ hedges)
    rw [Tracking.resolve, runFrom_bind, runFrom_called, Option.bind_some, Definition.resolve,
      StateT.run_bind, StateT.run_get, pure_bind]
    dsimp only
    cases hfound : Entries.get? t.progress.built name with
    | some schema => exact .result (.refl _) (hcalled.returned (.refl _))
    | none =>
      have hunbuilt : name ∉ Entries.keys t.progress.built := Entries.get?_eq_none_iff.mp hfound
      dsimp only
      rw [hway]
      by_cases hback : name ∈ way
      · rw [dif_pos hback, if_pos hback]
        exact .error hcalled
      rw [dif_neg hback, if_neg hback]
      split
      · rename_i hundeclared
        exact absurd hname (Entries.get?_eq_none_iff.mp hundeclared)
      rename_i d hdecl
      rw [hdecl]
      dsimp only
      have hfollow : ∀ e ∈ d.properties, ∀ reference, Property.dependence? e.2 = some reference →
          ∀ use, Follows decls (way ++ [name])
            (resolveReference decls (Tracking.resolve decls depth) reference use)
            (resolveReference decls (fun ref => Definition.resolve decls (way ++ [name]) ref)
              reference use) := by
        intro e he reference hdepends use
        refine (following decls _).resolveReference fun ref href hmem => ih ?_ hmem ?_
        · rw [List.length_append, List.length_singleton]
          omega
        · have hrefers : Refers decls name ref := .of_dependence hdecl he hdepends href
          exact hedges.append (.singleton ref) (by simpa using hrefers)
      have hends := Tracking.make_follows hfollow hcalled hway hname hedges hback hunbuilt
      rw [runFrom_bind]
      generalize StateT.run _ _ = result, runFrom _ _ = result' at hends ⊢
      cases hends with
      | error ht' => exact .error ht'
      | result hkeeps ht' =>
        have hreturned := ht'.returned hkeeps
        refine .result ?_ hreturned
        exact hkeeps

/-- Declared types are resolved alike, one after the other. -/
theorem Tracking.resolveAll_follows {depth : Nat} (hdepth : decls.length < depth)
    {names : List String} (hnames : names ⊆ Entries.keys decls) :
    Follows decls [] (Tracking.resolveAll decls depth names)
      (Definition.resolveAll decls names) := by
  induction names with
  | nil => exact .pure ()
  | cons name rest ih =>
    obtain ⟨hname, hrest⟩ := List.cons_subset.mp hnames
    rw [Tracking.resolveAll, Definition.resolveAll]
    exact (resolve_follows hdepth hname (.singleton name)).bind fun _ => ih hrest

end Resolver

/-! ## The load -/

/-- A step that follows one of the resolver from the start ends as that does. -/
theorem Follows.exists_runFrom_start {decls : Declarations} {α : Type} {x : Tracking α}
    {y : Resolving α} (h : Follows decls [] x y) :
    ∃ t : Tracked, x.runFrom Tracked.start = some ((y.run []).map Prod.fst, t) ∧
      t.Sound decls := by
  have hends := h _ (Tracked.Sound.start decls) rfl
  change Ends _ _ (y.run []) _ at hends
  generalize y.run [] = result, x.runFrom _ = result' at hends ⊢
  cases hends with
  | result _ ht => exact ⟨_, rfl, ht⟩
  | error ht => exact ⟨_, rfl, ht⟩

/-- **The recursion of the resolver is bounded, and its tables stay
consistent.** For every list of documents, references that go round
included, a load that may go one call deeper than there are declared types
ends, and with what the load ends with. At each of its calls the stack is a
way along references from one declared type to the next, on which none
comes twice, so it has no more names than there are types; none of its names
has been built, and what has been built is under its name. And each call
that gives a schema leaves the stack as it was, and the table with the
entries it had. These are all calls and returns: the resolver writes down
each of its calls, wherever and how deep it is, and a load that succeeds has
one for every declared type. -/
theorem Loader.build_tracked (l : Loader) :
    (∃ t : Tracked,
      (Tracking.build ((declarations l.sources).length + 1) l.sources).runFrom Tracked.start =
        some (l.build, t) ∧
      (∀ c ∈ t.calls, c.Sound (declarations l.sources)) ∧
      (∀ r ∈ t.returns, r.Sound (declarations l.sources)) ∧
      ∀ registry, l.build = .ok registry →
        ∀ name ∈ Entries.keys (declarations l.sources), ∃ c ∈ t.calls, c.name = name) ∧
    ∀ (depth : Nat) (name : String) (before : Tracked) (result : Except LoadError Schema)
      (after : Tracked),
      (Tracking.resolve (declarations l.sources) depth name).runFrom before =
        some (result, after) →
      Logged name before result after := by
  refine ⟨?_, fun _ _ _ _ _ hrun => Tracking.resolve_logged hrun⟩
  have hstart := Tracked.Sound.start (declarations l.sources)
  unfold Tracking.build Loader.build
  cases hcollect : collectTypes [] (declared l.sources) with
  | error error =>
    have hbuild : buildRegistry l.sources = .error error := by
      unfold buildRegistry load
      rw [hcollect]
      rfl
    rw [hbuild]
    exact ⟨_, rfl, hstart.calls, hstart.returns, nofun⟩
  | ok types =>
    have hnodup := nodup_of_collectTypes hcollect
    obtain ⟨-, rfl⟩ := collectTypes_eq_ok_iff.mp hcollect
    have hfollow : ∀ name ∈ Entries.keys (declarations l.sources),
        Follows (declarations l.sources) []
          (Tracking.resolve (declarations l.sources) ((declarations l.sources).length + 1) name)
          (resolve (declarations l.sources) [] name) :=
      fun name hname => Tracking.resolve_follows (Nat.lt_succ_self _) hname (.singleton name)
    have hfollows := (Tracking.resolveAll_follows (Nat.lt_succ_self _) (List.Subset.refl _)).bind
      fun _ => (following _ _).addServices hfollow Registry.empty (services l.sources)
    obtain ⟨t, hrun, ht⟩ := hfollows.exists_runFrom_start
    rw [buildRegistry_eq hnodup]
    simp only [List.nil_append, map_declared]
    refine ⟨t, hrun, ht.calls, ht.returns, fun registry hbuild name hname => ?_⟩
    rw [hbuild] at hrun
    exact Tracking.exists_call_of_load hrun name hname

/-- Trips lead to legs, and legs and stops to each other: with three types
there are four calls inside one another, and the last one finds all three
on the stack. -/
example :
    ((Tracking.build 4 Roundabout.loader.sources).runFrom Tracked.start).map
        (fun e => e.2.calls.map fun c => (c.name, c.found.visiting)) =
      some [("Trip", []), ("Leg", ["Trip"]), ("Stop", ["Trip", "Leg"]),
        ("Leg", ["Trip", "Leg", "Stop"])] ∧
    ((Tracking.build 3 Roundabout.loader.sources).runFrom Tracked.start).isNone := by
  decide +kernel

end ServiceContracts.Definition
