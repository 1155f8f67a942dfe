import ServiceContracts.Proofs.Service.Indexes
/-!
# A registry over a run

Services come to a registry one call at a time, some are refused, and at
some point it is sealed. What the registry answers in between is said
from the calls alone: it has the services whose registration succeeded
(`enrolled`), in order, and finds each operation under the two names that
it was registered under (`Registry.Lists`).

One call adds a service at the end or none (`services_step`), so what has
been found once is found ever after (`resolve_afterAll`). And a sealed
registry adds none at all, whatever is called (`afterAll_of_isSealed`).
-/


namespace ServiceContracts.Registry

-- Sums start from the zero of the core library here, as in the registry.
attribute [local instance (high)] Zero.ofOfNat0

/-! ## Runs -/

/-- A call on a registry. -/
inductive Call where
  | register (s : Service)
  | sealing

/-- One call of a run, with what it gives back and the registry after it. -/
structure Step where
  call : Call
  result : Except RegistryError Unit
  after : Registry

/-- Makes one call. -/
def step (r : Registry) : Call → Step
  | .register s => ⟨.register s, (r.register s).2, (r.register s).1⟩
  | .sealing => ⟨.sealing, .ok (), r.sealed⟩

/-- Makes the calls one after the other. -/
def steps (r : Registry) : List Call → List Step
  | [] => []
  | call :: rest => r.step call :: (r.step call).after.steps rest

/-- The registry that a run ends with. -/
def afterAll (r : Registry) : List Call → Registry
  | [] => r
  | call :: rest => (r.step call).after.afterAll rest

/-- The service that a call has registered, if it has. -/
def Step.enrolled? (t : Step) : Option Service :=
  match t.call, t.result with
  | .register s, .ok () => some s
  | _, _ => none

/-- The services that a run has registered, in order. -/
def enrolled (run : List Step) : List Service := run.filterMap Step.enrolled?

/-! ## What holds in between -/

/-- **A registry lists services**: those and no others, in this order,
under names that do not repeat. A request resolves to the operation that
one of them has, and otherwise it is told which of its names is
unknown. -/
structure Lists (r : Registry) (listed : List Service) : Prop where
  services : r.services = listed
  names : (listed.map Service.name).Nodup
  operationCount : r.operationCount = (listed.map fun s => s.operations.length).sum
  resolve : ∀ name wire op, r.resolve name wire = .ok op ↔
    ∃ s ∈ listed, s.name = name ∧ op ∈ s.operations ∧ op.wire = wire
  unknownService : ∀ name wire, r.resolve name wire = .error (.unknownService name) ↔
    ∀ s ∈ listed, s.name ≠ name
  unknownOperation : ∀ name wire, r.resolve name wire = .error (.unknownOperation name wire) ↔
    ∃ s ∈ listed, s.name = name ∧ ∀ op ∈ s.operations, op.wire ≠ wire

/-- **What a registration has to do**: the seal is looked at before the
name, and a registration that is refused changes nothing. -/
structure Registers (r : Registry) (s : Service) (t : Step) : Prop where
  sealed : t.result = .error .isSealed ↔ r.isSealed = true
  taken : t.result = .error (.duplicateService s.name) ↔
    r.isSealed = false ∧ s.name ∈ r.services.map Service.name
  accepted : t.result = .ok () ↔ r.isSealed = false ∧ s.name ∉ r.services.map Service.name
  refused : t.result ≠ .ok () → t.after = r

/-- **What a call has to do.** -/
def CallContract (r : Registry) (call : Call) (t : Step) : Prop :=
  match call with
  | .register s => r.Registers s t
  | .sealing => t.result = .ok () ∧ t.after = { r with isSealed := true }

variable {r r' : Registry} {s : Service} {call : Call} {name wire : String} {op : Operation}

theorem step_of_ok (h : r.withService s = .ok r') :
    r.step (.register s) = ⟨.register s, .ok (), r'⟩ := by
  rw [step, register_of_ok h]

theorem step_of_error {error : RegistryError} (h : r.withService s = .error error) :
    r.step (.register s) = ⟨.register s, .error error, r⟩ := by
  rw [step, register_of_error h]

/-! ## One call -/

/-- **One call adds a service at the end, or none.** -/
theorem services_step (r : Registry) (call : Call) :
    (r.step call).after.services = r.services ++ enrolled [r.step call] := by
  cases call with
  | sealing => exact (List.append_nil _).symm
  | register s =>
    cases hresult : r.withService s with
    | error error =>
      rw [step_of_error hresult]
      exact (List.append_nil _).symm
    | ok r' =>
      rw [step_of_ok hresult]
      exact services_of_withService hresult

/-- A registry is sealed by the call for it, and by nothing else. -/
theorem isSealed_step (r : Registry) (call : Call) :
    (r.step call).after.isSealed = true ↔ r.isSealed = true ∨ call = .sealing := by
  cases call with
  | sealing => exact iff_of_true rfl (.inr rfl)
  | register s =>
    have hsame : (r.step (.register s)).after.isSealed = r.isSealed := by
      cases hresult : r.withService s with
      | error error => rw [step_of_error hresult]
      | ok r' =>
        rw [step_of_ok hresult]
        obtain ⟨-, -, rfl⟩ := withService_eq_ok_iff.mp hresult
        rfl
    rw [hsame]
    simp

/-- What has been found is found after one more call. -/
theorem resolve_step (h : r.resolve name wire = .ok op) (call : Call) :
    (r.step call).after.resolve name wire = .ok op := by
  cases call with
  | sealing => exact h
  | register s =>
    cases hresult : r.withService s with
    | error error =>
      rw [step_of_error hresult]
      exact h
    | ok r' =>
      rw [step_of_ok hresult]
      obtain ⟨-, hnew, rfl⟩ := withService_eq_ok_iff.mp hresult
      -- the service that was found has a name already, so the new one has another
      have hold : r.service? name ≠ none := by
        intro hnone
        rw [resolve, hnone] at h
        cases h
      have hne : s.name ≠ name := by
        rintro rfl
        exact hold (Entries.get?_eq_none_iff.mpr hnew)
      have hservice : Entries.get? (Entries.set r.byName s.name s) name = r.service? name := by
        rw [Entries.get?_set, if_neg hne, service?]
      rw [resolve] at h ⊢
      rw [service?, hservice]
      exact h

/-- A sealed registry stays as it is. -/
theorem step_of_isSealed (h : r.isSealed = true) (call : Call) : (r.step call).after = r := by
  cases call with
  | sealing =>
    obtain ⟨byName, isSealed⟩ := r
    obtain rfl : isSealed = true := h
    rfl
  | register s =>
    have hrefused : r.withService s = .error .isSealed := by rw [withService_eq, if_pos h]
    rw [step_of_error hrefused]

theorem Built.step (hr : r.Built) (hcall : ∀ s, call = .register s → s.Built) :
    (r.step call).after.Built := by
  cases call with
  | sealing => exact hr.sealed
  | register s => exact hr.register (hcall s rfl)

namespace Indexed

/-- The registry agrees with its services. -/
theorem lists (h : r.Indexed) : r.Lists r.services where
  services := rfl
  names := h.names
  operationCount := by
    have hsize : (fun s : Service => s.operations.length) = Service.size := by
      funext s
      exact List.length_map _
    rw [hsize, Registry.operationCount]
  resolve name wire op := by
    rw [h.resolve_eq_ok_iff, Offers]
    constructor
    · rintro ⟨⟨s, hs, hname, hop⟩, hwire⟩
      exact ⟨s, hs, hname, hop, hwire⟩
    · rintro ⟨s, hs, hname, hop, hwire⟩
      exact ⟨⟨s, hs, hname, hop⟩, hwire⟩
  unknownService name wire := by
    rw [h.resolve_eq_error_iff]
    simp
  unknownOperation name wire := by
    rw [h.resolve_eq_error_iff]
    simp

/-- The three ways in which a registration can end. -/
theorem withService_cases (h : r.Indexed) (s : Service) :
    (r.isSealed = true ∧ r.withService s = .error .isSealed) ∨
      (r.isSealed = false ∧ s.name ∈ r.services.map Service.name ∧
        r.withService s = .error (.duplicateService s.name)) ∨
      (r.isSealed = false ∧ s.name ∉ r.services.map Service.name ∧
        ∃ r', r.withService s = .ok r') := by
  have hname : Entries.has r.byName s.name = true ↔ s.name ∈ r.services.map Service.name := by
    rw [Entries.has_iff, h.keys_byName]
  rw [← hname, withService_eq]
  by_cases hsealed : r.isSealed = true
  · exact .inl ⟨hsealed, if_pos hsealed⟩
  · have hopen : r.isSealed = false := by simpa using hsealed
    rw [if_neg hsealed]
    by_cases htaken : Entries.has r.byName s.name = true
    · exact .inr (.inl ⟨hopen, htaken, if_pos htaken⟩)
    · exact .inr (.inr ⟨hopen, htaken, _, if_neg htaken⟩)

/-- **One call** does what it has to. -/
theorem step_contract (h : r.Indexed) (call : Call) : r.CallContract call (r.step call) := by
  cases call with
  | sealing => exact ⟨rfl, rfl⟩
  | register s =>
    rcases h.withService_cases s with ⟨hsealed, hresult⟩ | ⟨hopen, htaken, hresult⟩ |
      ⟨hopen, hnew, r', hresult⟩
    · rw [step_of_error hresult]
      have hclosed : ¬ r.isSealed = false := by simp [hsealed]
      refine ⟨iff_of_true rfl hsealed, ?_, ?_, fun _ => rfl⟩
      · exact iff_of_false (by simp) fun hboth => hclosed hboth.1
      · exact iff_of_false (by simp) fun hboth => hclosed hboth.1
    · rw [step_of_error hresult]
      refine ⟨iff_of_false (by simp) (by simp [hopen]), iff_of_true rfl ⟨hopen, htaken⟩, ?_,
        fun _ => rfl⟩
      exact iff_of_false (by simp) fun hboth => hboth.2 htaken
    · rw [step_of_ok hresult]
      refine ⟨iff_of_false (by simp) (by simp [hopen]), ?_, iff_of_true rfl ⟨hopen, hnew⟩, ?_⟩
      · exact iff_of_false (by simp) fun hboth => hnew hboth.2
      · intro hrefused
        exact absurd rfl hrefused

end Indexed

/-! ## The run -/

theorem afterAll_append (r : Registry) (calls more : List Call) :
    r.afterAll (calls ++ more) = (r.afterAll calls).afterAll more := by
  induction calls generalizing r with
  | nil => rfl
  | cons call rest ih => exact ih _

theorem services_afterAll (r : Registry) (calls : List Call) :
    (r.afterAll calls).services = r.services ++ enrolled (r.steps calls) := by
  induction calls generalizing r with
  | nil => exact (List.append_nil _).symm
  | cons call rest ih =>
    have hfirst := services_step r call
    have hrest := ih (r.step call).after
    have hrun : enrolled (r.steps (call :: rest)) =
        enrolled [r.step call] ++ enrolled ((r.step call).after.steps rest) :=
      List.filterMap_append (l := [r.step call])
    rw [afterAll, hrest, hfirst, hrun, List.append_assoc]

theorem isSealed_afterAll (r : Registry) (calls : List Call) :
    (r.afterAll calls).isSealed = true ↔ r.isSealed = true ∨ Call.sealing ∈ calls := by
  induction calls generalizing r with
  | nil => simp [afterAll]
  | cons call rest ih =>
    rw [afterAll, ih, isSealed_step, List.mem_cons, or_assoc, eq_comm (a := call)]

/-- **What has been found once is found ever after.** -/
theorem resolve_afterAll (h : r.resolve name wire = .ok op) (calls : List Call) :
    (r.afterAll calls).resolve name wire = .ok op := by
  induction calls generalizing r with
  | nil => exact h
  | cons call rest ih => exact ih (resolve_step h call)

/-- **A sealed registry stays as it is**, whatever is called. -/
theorem afterAll_of_isSealed (h : r.isSealed = true) (calls : List Call) :
    r.afterAll calls = r := by
  induction calls with
  | nil => rfl
  | cons call rest ih => rw [afterAll, step_of_isSealed h, ih]

theorem Built.afterAll (hr : r.Built) {calls : List Call}
    (hcalls : ∀ s, Call.register s ∈ calls → s.Built) : (r.afterAll calls).Built := by
  induction calls generalizing r with
  | nil => exact hr
  | cons call rest ih =>
    have hfirst : (r.step call).after.Built := hr.step fun s hs => hcalls s (hs ▸ List.mem_cons_self)
    exact ih hfirst fun s hs => hcalls s (List.mem_cons_of_mem _ hs)

/-- **A registry answers from the registrations that succeeded**, after any
run: it lists those services and is sealed if it has been told to be. The
next call, whichever it is, is refused for the seal or for a name that is
taken and for nothing else; no calls take back what a request has resolved
to; and after the seal no calls change anything. -/
theorem run_contract (calls : List Call) (hcalls : ∀ s, Call.register s ∈ calls → s.Built) :
    (empty.afterAll calls).Lists (enrolled (empty.steps calls)) ∧
      ((empty.afterAll calls).isSealed = true ↔ Call.sealing ∈ calls) ∧
      (∀ call, (empty.afterAll calls).CallContract call ((empty.afterAll calls).step call)) ∧
      (∀ name wire op, (empty.afterAll calls).resolve name wire = .ok op →
        ∀ more, (empty.afterAll (calls ++ more)).resolve name wire = .ok op) ∧
      (Call.sealing ∈ calls → ∀ more, empty.afterAll (calls ++ more) = empty.afterAll calls) := by
  have hindexed : (empty.afterAll calls).Indexed := (Built.empty.afterAll hcalls).indexed
  have hservices : (empty.afterAll calls).services = enrolled (empty.steps calls) :=
    services_afterAll empty calls
  have hsealed : (empty.afterAll calls).isSealed = true ↔ Call.sealing ∈ calls := by
    rw [isSealed_afterAll]
    simp [empty]
  refine ⟨hservices ▸ hindexed.lists, hsealed, hindexed.step_contract, ?_, ?_⟩
  · intro name wire op hop more
    rw [afterAll_append]
    exact resolve_afterAll hop more
  · intro hseal more
    rw [afterAll_append]
    exact afterAll_of_isSealed (hsealed.mpr hseal) more

namespace Sample

/-- A ferry leaves. -/
def cast : Operation := ⟨"cast", "Ferry.Cast", none, none, ""⟩

/-- Ferries, and others of the same name that go nowhere. -/
def ferries : Service := ⟨"Ferry", "", [("cast", cast)], [("Ferry.Cast", 0)]⟩

/-- The others. -/
def idleFerries : Service := ⟨"Ferry", "", [], []⟩

/-- Trams. -/
def trams : Service := ⟨"Tram", "", [], []⟩

theorem ferries_built : ferries.Built :=
  (@Service.Built.new "Ferry" "" idleFerries rfl).register cast

/-- The idle ferries come too late, and the trams after the seal. -/
def calls : List Call := [.register ferries, .register idleFerries, .sealing]

theorem calls_built (s : Service) (hs : Call.register s ∈ calls) : s.Built := by
  have hcases : s = ferries ∨ s = idleFerries := by simpa [calls] using hs
  rcases hcases with rfl | rfl
  · exact ferries_built
  · exact @Service.Built.new "Ferry" "" _ rfl

end Sample

theorem run_contract_ferries :
    (∀ s, Call.register s ∈ Sample.calls → s.Built) ∧
      (empty.afterAll Sample.calls).Lists [Sample.ferries] ∧
      (empty.afterAll (Sample.calls ++ [.register Sample.trams])).resolve "Ferry" "Ferry.Cast" =
        .ok Sample.cast ∧
      empty.afterAll (Sample.calls ++ [.register Sample.trams]) = empty.afterAll Sample.calls := by
  obtain ⟨hlists, -, -, hkept, hsealed⟩ := run_contract Sample.calls Sample.calls_built
  refine ⟨Sample.calls_built, hlists, hkept _ _ _ rfl _, hsealed ?_ _⟩
  exact List.mem_of_getElem? (i := 2) rfl

end ServiceContracts.Registry
