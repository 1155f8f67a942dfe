import ServiceContracts.Definition.Loader
import ServiceContracts.Proofs.Definition.Expansion
/-!
# Two ways to follow references

Properties, types and services are built alike for every way to follow a
reference. So whatever relates the steps of two ways and is kept by values,
errors and steps in a row (`StepRelation`) relates what is built with them
as well, if it relates what they do at each reference.
-/


namespace ServiceContracts.Definition

/-- **A relation between the steps of two ways to follow references.** What
comes after an error is left out, so it may be anything. -/
structure StepRelation (m m' : Type → Type) [Monad m] [MonadExcept LoadError m] [Monad m']
    [MonadExcept LoadError m'] where
  Rel : {α : Type} → m α → m' α → Prop
  pure : ∀ {α : Type} (a : α), Rel (Pure.pure a : m α) (Pure.pure a : m' α)
  throw : ∀ {α : Type} (error : LoadError),
    Rel (MonadExcept.throw error : m α) (MonadExcept.throw error : m' α)
  throw_bind : ∀ {α β : Type} (error : LoadError) (f : α → m β) (g : α → m' β),
    Rel (MonadExcept.throw error >>= f) (MonadExcept.throw error >>= g)
  bind : ∀ {α β : Type} {x : m α} {y : m' α} {f : α → m β} {g : α → m' β},
    Rel x y → (∀ a, Rel (f a) (g a)) → Rel (x >>= f) (y >>= g)

namespace StepRelation

variable {m m' : Type → Type} [Monad m] [MonadExcept LoadError m] [Monad m']
  [MonadExcept LoadError m'] (R : StepRelation m m')

theorem map [LawfulMonad m] [LawfulMonad m'] {α β : Type} {x : m α} {y : m' α} (h : R.Rel x y)
    (f : α → β) : R.Rel (f <$> x) (f <$> y) := by
  rw [map_eq_pure_bind, map_eq_pure_bind]
  exact R.bind h fun a => R.pure (f a)

section Properties

variable [LawfulMonad m] [LawfulMonad m'] {refer : String → m Schema} {refer' : String → m' Schema}
  {type name : String}

/-- **The type of a property** is found alike where its reference is followed
alike. -/
theorem fieldType (p : Property)
    (hrefer : ∀ reference, p.dependence? = some reference →
      R.Rel (refer reference) (refer' reference)) :
    R.Rel (p.fieldType refer type name) (p.fieldType refer' type name) := by
  induction p using Property.induction with
  | step p ih =>
    obtain ⟨kinds, items, reference, description, default, nullable⟩ := p
    unfold Property.fieldType
    dsimp only
    by_cases hunion : kinds.any Kinds.isUnion = true
    · rw [if_pos hunion, if_pos hunion]
      exact R.throw_bind _ _ _
    rw [if_neg hunion, if_neg hunion]
    cases reference with
    | some reference => exact R.bind (R.map (hrefer reference rfl) _) fun _ => R.pure _
    | none =>
      cases hkind : kinds.bind Kinds.kind? with
      | none => exact R.throw_bind _ _ _
      | some kind =>
        cases hscalar : scalarOf? kind with
        | some s =>
          simp only [hscalar]
          exact R.bind (R.pure _) fun _ => R.pure _
        | none =>
          simp only [hscalar]
          by_cases harray : kind = "array"
          · subst harray
            rw [if_pos rfl, if_pos rfl]
            cases items with
            | none => exact R.throw_bind _ _ _
            | some items =>
              have helement := ih items rfl fun reference hdepends =>
                hrefer reference ((if_pos hkind).trans hdepends)
              exact R.bind (R.map helement _) fun _ => R.pure _
          · rw [if_neg harray, if_neg harray]
            exact R.throw_bind _ _ _

/-- So is its field. -/
theorem field {required : List String} (p : Property)
    (hrefer : ∀ reference, p.dependence? = some reference →
      R.Rel (refer reference) (refer' reference)) :
    R.Rel (p.field refer type required name) (p.field refer' type required name) := by
  unfold Property.field
  refine R.bind (R.fieldType p hrefer) fun base => ?_
  cases p.default with
  | none => exact R.pure _
  | some raw =>
    dsimp only
    cases base.read raw with
    | ok v => exact R.pure _
    | error errors => exact R.throw _

/-- The fields of properties, one after the other. -/
theorem fieldsOf {refer : String → TypeUse → m Schema} {refer' : String → TypeUse → m' Schema}
    {type : String} {required : List String} {properties : List (String × Property)}
    (hrefer : ∀ e ∈ properties, ∀ reference, Property.dependence? e.2 = some reference → ∀ use,
      R.Rel (refer reference use) (refer' reference use)) :
    R.Rel (Definition.fieldsOf refer type required properties)
      (Definition.fieldsOf refer' type required properties) := by
  induction properties with
  | nil => exact R.pure []
  | cons e rest ih =>
    obtain ⟨name, p⟩ := e
    obtain ⟨hp, hrest⟩ := List.forall_mem_cons.mp hrefer
    rw [Definition.fieldsOf, Definition.fieldsOf]
    refine R.bind (R.field p fun reference hdepends => hp reference hdepends _) fun f => ?_
    exact R.bind (ih hrest) fun fields => R.pure _

end Properties

section Services

variable {decls : Declarations} {follow : String → m Schema} {follow' : String → m' Schema}

/-- References are followed alike where their declared names are. -/
theorem resolveReference {reference : String} {use : TypeUse}
    (hfollow : ∀ name, typeName? reference = some name → name ∈ Entries.keys decls →
      R.Rel (follow name) (follow' name)) :
    R.Rel (Definition.resolveReference decls follow reference use)
      (Definition.resolveReference decls follow' reference use) := by
  unfold Definition.resolveReference
  cases hname : typeName? reference with
  | none => exact R.throw _
  | some name =>
    dsimp only
    split
    · rename_i hdeclared
      exact hfollow name hname (Entries.has_iff.mp hdeclared)
    · exact R.throw _

theorem liftRegistry {α : Type} (x : Except RegistryError α) :
    R.Rel (Definition.liftRegistry x) (Definition.liftRegistry x) := by
  cases x with
  | ok a => exact R.pure a
  | error error => exact R.throw _

variable [LawfulMonad m] [LawfulMonad m']
  (hfollow : ∀ name ∈ Entries.keys decls, R.Rel (follow name) (follow' name))

include hfollow

theorem sideSchema (use : TypeUse) (side : Option String) :
    R.Rel (Definition.sideSchema decls follow use side)
      (Definition.sideSchema decls follow' use side) := by
  cases side with
  | none => exact R.pure none
  | some reference => exact R.map (R.resolveReference fun name _ => hfollow name) some

theorem operation (service : String) (d : OperationDefinition) :
    R.Rel (d.build decls follow service) (d.build decls follow' service) := by
  unfold OperationDefinition.build
  exact R.bind (R.sideSchema hfollow _ _) fun input =>
    R.bind (R.sideSchema hfollow _ _) fun output => R.liftRegistry _

theorem addOperations (s : Service) (ops : List OperationDefinition) :
    R.Rel (Definition.addOperations decls follow s ops)
      (Definition.addOperations decls follow' s ops) := by
  induction ops generalizing s with
  | nil => exact R.pure s
  | cons d rest ih =>
    rw [Definition.addOperations, Definition.addOperations]
    exact R.bind (R.operation hfollow s.name d) fun op =>
      R.bind (R.liftRegistry (s.withOperation op)) ih

theorem service (d : ServiceDefinition) :
    R.Rel (d.build decls follow) (d.build decls follow') := by
  unfold ServiceDefinition.build
  exact R.bind (R.liftRegistry _) fun _ =>
    R.bind (R.liftRegistry _) fun s => R.addOperations hfollow s d.operations

/-- **Services are added alike**, where declared names are followed alike. -/
theorem addServices (r : Registry) (ds : List ServiceDefinition) :
    R.Rel (Definition.addServices decls follow r ds)
      (Definition.addServices decls follow' r ds) := by
  induction ds generalizing r with
  | nil => exact R.pure r
  | cons d rest ih =>
    rw [Definition.addServices, Definition.addServices]
    exact R.bind (R.service hfollow d) fun s => R.bind (R.liftRegistry (r.withService s)) ih

end Services

end StepRelation

end ServiceContracts.Definition
