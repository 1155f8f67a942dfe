import ServiceContracts.Proofs.Definition.Cycles
import Mathlib.Data.List.Perm.Subperm
/-!
# A load that is written down

The resolver passes the way to a type down to the calls it makes. Kept in
one place instead, beside the table, it is a stack: a name is put on it
before the properties of its type are looked at, and taken off after. It
stays there when one of them fails, and nothing in the recursion's shape
says how deep it goes.

`Tracking.build` is a load that works on this stack. It writes down every
call of the resolver with what it finds, and every return of one that
succeeds, and it is allowed only so many calls inside one another. What it
keeps should be sound at every moment (`Tracked.Sound`), and a call is one
where it is.
-/


namespace ServiceContracts.Definition

/-- How far the resolver has come: the names of the types it is at work on,
the outermost first, and the schemas it has built. -/
structure Progress where
  visiting : List String
  built : Built

/-- A call of the resolver: the name it is for, and what it finds. -/
structure Call where
  name : String
  found : Progress

/-- The return of a call that gives a schema: what the call found, and what
it leaves. -/
structure Return where
  found : Progress
  left : Progress

/-- What a tracked load keeps: the resolver's progress, and all calls and
returns so far, in their order. -/
structure Tracked where
  progress : Progress
  calls : List Call
  returns : List Return

/-- Before the first call. -/
def Tracked.start : Tracked := ⟨⟨[], []⟩, [], []⟩

/-- A step of a tracked load. What it keeps outlives an error; it gives
nothing where calls go deeper than they may. -/
abbrev Tracking (α : Type) := ExceptT LoadError (StateT Tracked Option) α

namespace Tracking

/-- What a step ends with, and what is kept then. -/
def runFrom {α : Type} (x : Tracking α) (t : Tracked) :
    Option (Except LoadError α × Tracked) :=
  (ExceptT.run x).run t

/-- Calls have gone too deep. -/
def tooDeep {α : Type} : Tracking α := ExceptT.mk fun _ => none

/-- A call begins: it is written down, and finds what is there. -/
def called (name : String) : Tracking Progress :=
  modifyGet fun t => (t.progress, { t with calls := t.calls ++ [⟨name, t.progress⟩] })

/-- A call has a schema to return. -/
def returned (found : Progress) : Tracking Unit :=
  modify fun t => { t with returns := t.returns ++ [⟨found, t.progress⟩] }

/-- The resolver goes on. -/
def advance (f : Progress → Progress) : Tracking Unit :=
  modify fun t => { t with progress := f t.progress }

/-- Builds the schema of a type and puts it into the table, with the type's
name on the stack while its properties are looked at. -/
def make (decls : Declarations) (follow : String → Tracking Schema) (name : String)
    (d : TypeDefinition) : Tracking Schema := do
  match d.required.find? fun r => !Entries.has d.properties r with
  | some missing => throw (.invalidType name (.requiredUndeclared missing))
  | none =>
    advance fun p => { p with visiting := p.visiting ++ [name] }
    let fields ← fieldsOf (resolveReference decls follow) name d.required d.properties
    advance fun p => { p with visiting := p.visiting.dropLast }
    match Schema.build name d.description fields with
    | .ok schema =>
      advance fun p => { p with built := Entries.set p.built name schema }
      return schema
    | .error error => throw (.schema error)

/-- The schema of a declared type, by at most `depth` calls inside one
another, this one included. -/
def resolve (decls : Declarations) : Nat → String → Tracking Schema
  | 0, _ => tooDeep
  | depth + 1, name => do
    let found ← called name
    let schema ← match Entries.get? found.built name with
      | some schema => pure schema
      | none =>
        if name ∈ found.visiting then
          throw (.typeCycle (found.visiting.dropWhile (· ≠ name) ++ [name]))
        else
          match Entries.get? decls name with
          | none => throw (.unknownType name .namespaceEntry)
          | some d => make decls (resolve decls depth) name d
    returned found
    return schema

/-- Every declared type, in order. -/
def resolveAll (decls : Declarations) (depth : Nat) : List String → Tracking Unit
  | [] => return ()
  | name :: rest => do
    let _ ← resolve decls depth name
    resolveAll decls depth rest

/-- The registry of a list of documents. -/
def build (depth : Nat) (sources : List Source) : Tracking Registry :=
  match collectTypes [] (declared sources) with
  | .error error => throw error
  | .ok types => do
    let decls : Declarations := types.map fun e => (e.1, e.2.2)
    resolveAll decls depth (Entries.keys decls)
    addServices decls (resolve decls depth) Registry.empty
      (sources.flatMap fun s => s.document.services)

section Running

variable {α β : Type}

/-- A step after another begins with what that has kept, or is left out
after an error. -/
theorem runFrom_bind (x : Tracking α) (f : α → Tracking β) (t : Tracked) :
    (x >>= f).runFrom t =
      (x.runFrom t).bind fun
        | (.ok a, t') => (f a).runFrom t'
        | (.error error, t') => some (.error error, t') := by
  change StateT.bind x _ t = _
  unfold StateT.bind
  change Option.bind (x t) _ = Option.bind (x t) _
  refine congrArg _ (funext fun ⟨result, t'⟩ => ?_)
  cases result <;> rfl

theorem runFrom_called (name : String) (t : Tracked) :
    (called name).runFrom t =
      some (.ok t.progress, { t with calls := t.calls ++ [⟨name, t.progress⟩] }) := rfl

theorem runFrom_advance (f : Progress → Progress) (t : Tracked) :
    (advance f).runFrom t = some (.ok (), { t with progress := f t.progress }) := rfl

end Running

end Tracking

/-! ## What holds at every moment -/

/-- **Consistent progress**: the stack is a way along references between
declared types, on which none comes twice. None of them has been built, and
what has been built is under its name. -/
structure Progress.Consistent (decls : Declarations) (p : Progress) : Prop where
  distinct : p.visiting.Nodup
  declared : p.visiting ⊆ Entries.keys decls
  edges : p.visiting.IsChain (Refers decls)
  apart : p.visiting.Disjoint (Entries.keys p.built)
  named : ∀ e ∈ p.built, e.2.name = e.1

/-- The one progress has kept what was there in the other: the stack is as
it was, and the table has gained entries at its end. -/
structure Progress.Keeps (before after : Progress) : Prop where
  visiting : after.visiting = before.visiting
  built : before.built <+: after.built

/-- **A sound call**: it is for a declared type, to which the stack leads, and
the stack has not outgrown the declared types. -/
structure Call.Sound (decls : Declarations) (c : Call) : Prop where
  consistent : c.found.Consistent decls
  declared : c.name ∈ Entries.keys decls
  edges : (c.found.visiting ++ [c.name]).IsChain (Refers decls)
  depth : c.found.visiting.length ≤ decls.length

/-- **A sound return**: it has kept what the call found. -/
structure Return.Sound (decls : Declarations) (r : Return) : Prop where
  keeps : r.found.Keeps r.left
  consistent : r.left.Consistent decls

/-- Everything is consistent and sound, up to now. -/
structure Tracked.Sound (decls : Declarations) (t : Tracked) : Prop where
  consistent : t.progress.Consistent decls
  calls : ∀ c ∈ t.calls, c.Sound decls
  returns : ∀ r ∈ t.returns, r.Sound decls

namespace Progress

variable {decls : Declarations} {p q r : Progress} {name : String}

theorem Keeps.refl (p : Progress) : p.Keeps p := ⟨rfl, List.prefix_rfl⟩

theorem Keeps.trans (h : p.Keeps q) (h' : q.Keeps r) : p.Keeps r :=
  ⟨h'.visiting.trans h.visiting, h.built.trans h'.built⟩

namespace Consistent

/-- The stack never outgrows the declared types. -/
theorem length_le (h : p.Consistent decls) : p.visiting.length ≤ decls.length := by
  have hle : p.visiting.length ≤ (Entries.keys decls).length :=
    (h.distinct.subperm h.declared).length_le
  rwa [Entries.keys, List.length_map] at hle

/-- A declared name is put on the stack that refers to it, if it is neither
on it nor built. -/
theorem push (h : p.Consistent decls) (hname : name ∈ Entries.keys decls)
    (hedges : (p.visiting ++ [name]).IsChain (Refers decls)) (hnew : name ∉ p.visiting)
    (hunbuilt : name ∉ Entries.keys p.built) :
    Consistent decls { p with visiting := p.visiting ++ [name] } where
  distinct := List.nodup_append'.mpr ⟨h.distinct, List.nodup_singleton name, by simpa using hnew⟩
  declared := List.append_subset.mpr ⟨h.declared, List.cons_subset.mpr ⟨hname, List.nil_subset _⟩⟩
  edges := hedges
  apart := List.disjoint_append_left.mpr ⟨h.apart, List.singleton_disjoint.mpr hunbuilt⟩
  named := h.named

/-- The last name is taken off. -/
theorem pop (h : p.Consistent decls) :
    Consistent decls { p with visiting := p.visiting.dropLast } where
  distinct := h.distinct.sublist (List.dropLast_sublist _)
  declared := List.Subset.trans (List.dropLast_subset _) h.declared
  edges := h.edges.dropLast
  apart := fun _ hmem => h.apart (List.dropLast_subset _ hmem)
  named := h.named

/-- A schema goes into the table under its name, once that is off the
stack. -/
theorem insert (h : p.Consistent decls) {schema : Schema} (hnamed : schema.name = name)
    (hoff : name ∉ p.visiting) :
    Consistent decls { p with built := Entries.set p.built name schema } where
  distinct := h.distinct
  declared := h.declared
  edges := h.edges
  apart := by
    intro other hmem hkey
    rcases Entries.mem_keys_set_iff.mp hkey with rfl | hkey
    · exact hoff hmem
    · exact h.apart hmem hkey
  named := by
    intro e he
    rcases Entries.mem_of_mem_set he with he | rfl
    · exact h.named e he
    · exact hnamed

end Consistent

end Progress

namespace Tracked.Sound

variable {decls : Declarations} {t : Tracked} {name : String}

/-- Nothing is wrong before the first call. -/
theorem start (decls : Declarations) : Tracked.start.Sound decls :=
  ⟨⟨.nil, List.nil_subset _, .nil, List.disjoint_nil_left _, nofun⟩, nofun, nofun⟩

/-- A call is sound where it is found so. -/
theorem called (ht : t.Sound decls) (hname : name ∈ Entries.keys decls)
    (hedges : (t.progress.visiting ++ [name]).IsChain (Refers decls)) :
    Sound decls { t with calls := t.calls ++ [⟨name, t.progress⟩] } := by
  have hcall : Call.Sound decls ⟨name, t.progress⟩ :=
    ⟨ht.consistent, hname, hedges, ht.consistent.length_le⟩
  exact ⟨ht.consistent,
    List.forall_mem_append.mpr ⟨ht.calls, List.forall_mem_singleton.mpr hcall⟩, ht.returns⟩

/-- And its return, where it has kept what it found. -/
theorem returned (ht : t.Sound decls) {found : Progress} (hkeeps : found.Keeps t.progress) :
    Sound decls { t with returns := t.returns ++ [⟨found, t.progress⟩] } := by
  have hreturn : Return.Sound decls ⟨found, t.progress⟩ := ⟨hkeeps, ht.consistent⟩
  exact ⟨ht.consistent, ht.calls,
    List.forall_mem_append.mpr ⟨ht.returns, List.forall_mem_singleton.mpr hreturn⟩⟩

/-- Progress from one consistent point to another changes nothing of what is
written down. -/
theorem advance (ht : t.Sound decls) {p : Progress} (hp : p.Consistent decls) :
    Sound decls { t with progress := p } :=
  ⟨hp, ht.calls, ht.returns⟩

end Tracked.Sound

end ServiceContracts.Definition
