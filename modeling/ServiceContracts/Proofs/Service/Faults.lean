import ServiceContracts.Proofs.Service.Sealing
import ServiceContracts.Proofs.Service.Serving
/-!
# Whose fault it is

Whether a request is at fault should not depend on what is bound, or on
what was served before: a caller could otherwise be blamed for a missing
handler, or learn of one. A dispatcher accepts a request before it looks
for a handler (`Dispatcher.accept`), and its errors before that point are
the client's, those after it are not. `Dispatcher.Ends` sums up the three
ways in which a request can end, and what two dispatchers have in common
is read from it.

Neither registry nor config change in a run (`Dispatcher.after`), so the
two may have any handlers and any past.
-/


namespace ServiceContracts

/-! ## What is left of a run -/

namespace Dispatcher

/-- The dispatcher after the calls of a run. -/
def after (d : Dispatcher) (calls : List Call) : Dispatcher :=
  calls.foldl (fun d call => (d.turn call).after) d

theorem turn_after_registry (d : Dispatcher) (call : Call) :
    (d.turn call).after.registry = d.registry ∧ (d.turn call).after.config = d.config := by
  cases call with
  | dispatch service wire payload => exact ⟨rfl, rfl⟩
  | handle service code handler =>
    rw [turn, handle]
    cases d.registry.service? service with
    | none => exact ⟨rfl, rfl⟩
    | some s =>
      dsimp only
      cases s.get? code with
      | none => exact ⟨rfl, rfl⟩
      | some op => exact ⟨rfl, rfl⟩

/-- **A run changes handlers only.** -/
theorem after_registry (d : Dispatcher) (calls : List Call) :
    (d.after calls).registry = d.registry ∧ (d.after calls).config = d.config := by
  induction calls generalizing d with
  | nil => exact ⟨rfl, rfl⟩
  | cons call rest ih =>
    obtain ⟨hregistry, hconfig⟩ := d.turn_after_registry call
    obtain ⟨hrest, hrestConfig⟩ := ih (d.turn call).after
    exact ⟨hrest.trans hregistry, hrestConfig.trans hconfig⟩

end Dispatcher

/-! ## How a request ends -/

/-- The exchange blames the client. -/
def Exchange.Blames (x : Exchange) (e : DispatchError) : Prop :=
  x.outcome = .error e ∧ e.isClientError = true

/-- An error after a handler has been called. -/
def DispatchError.IsLate (e : DispatchError) : Prop :=
  e.isClientError = false ∧ ∀ service operation, e ≠ .noHandler service operation

namespace Dispatcher

/-- **The ways in which a request ends**: it is not accepted, or nothing is
bound to its operation, or the handler is called, once. -/
inductive Ends (d : Dispatcher) (service wire : String) (payload : Option Json) : Exchange → Prop
  | refused {e : DispatchError}
      (haccept : accept d.registry d.config service wire payload = .error e)
      (hclient : e.isClientError = true) : Ends d service wire payload ⟨.error e, []⟩
  | unhandled {op : Operation} {input : Option Instance}
      (haccept : accept d.registry d.config service wire payload = .ok (op, input)) :
      Ends d service wire payload ⟨.error (.noHandler service op.wire), []⟩
  | called {op : Operation} {input : Option Instance} {handler : Handler}
      {outcome : Except DispatchError Reply}
      (haccept : accept d.registry d.config service wire payload = .ok (op, input))
      (hbound : d.handler? service op.code = some handler)
      (hlate : ∀ e, outcome = .error e → e.IsLate) : Ends d service wire payload ⟨outcome, [input]⟩

variable {d : Dispatcher} {registry : Registry} {config : Config} {service wire : String}
  {payload : Option Json}

/-- **A request that is not accepted is the client's fault.** -/
theorem isClientError_of_accept {e : DispatchError}
    (h : accept registry config service wire payload = .error e) : e.isClientError = true := by
  unfold accept at h
  cases hresolve : registry.resolve service wire with
  | error error =>
    rw [hresolve] at h
    exact Except.error.inj h ▸ rfl
  | ok op =>
    simp only [hresolve] at h
    obtain ⟨input, hinput⟩ | ⟨schema, hinput, hpayload | ⟨json, errors, hpayload, hinvalid⟩⟩ :=
      takes_or op config payload
    · rw [input_eq_ok_iff.mpr hinput] at h
      cases h
    · subst hpayload
      simp only [input, hinput] at h
      exact Except.error.inj h ▸ rfl
    · subst hpayload
      simp only [input, hinput, Schema.validate_eq_rejected_iff.mp hinvalid] at h
      exact Except.error.inj h ▸ rfl

/-- **Every request ends in one of these ways.** -/
theorem dispatch_ends (d : Dispatcher) (service wire : String) (payload : Option Json) :
    d.Ends service wire payload (d.dispatch service wire payload) := by
  rw [dispatch_eq]
  cases haccept : accept d.registry d.config service wire payload with
  | error e => exact .refused haccept (isClientError_of_accept haccept)
  | ok accepted =>
    obtain ⟨op, input⟩ := accepted
    dsimp only
    cases hbound : d.handler? service op.code with
    | none => exact .unhandled haccept
    | some handler =>
      refine .called haccept hbound fun e he => ?_
      -- the handler fails, or its output does not fit
      rw [outcome] at he
      cases hcall : handler input with
      | error text =>
        rw [hcall] at he
        exact Except.error.inj he ▸ ⟨rfl, fun _ _ => DispatchError.noConfusion⟩
      | ok output =>
        simp only [hcall] at he
        cases hreply : op.reply d.config output with
        | error fault =>
          rw [hreply] at he
          exact Except.error.inj he ▸ ⟨rfl, fun _ _ => DispatchError.noConfusion⟩
        | ok reply =>
          rw [hreply] at he
          cases he

/-- **The client is blamed for what is not accepted**, and nothing else. -/
theorem Ends.blames_iff {x : Exchange} (h : d.Ends service wire payload x) {e : DispatchError} :
    x.Blames e ↔ accept d.registry d.config service wire payload = .error e := by
  cases h with
  | refused haccept hclient =>
    rw [haccept]
    constructor
    · rintro ⟨he, -⟩
      exact congrArg Except.error (Except.error.inj he)
    · intro he
      obtain rfl := Except.error.inj he
      exact ⟨rfl, hclient⟩
  | unhandled haccept =>
    rw [haccept]
    constructor
    · rintro ⟨he, hclient⟩
      rw [← Except.error.inj he] at hclient
      cases hclient
    · intro he
      cases he
  | called haccept _ hlate =>
    rw [haccept]
    constructor
    · rintro ⟨he, hclient⟩
      rw [(hlate e he).1] at hclient
      cases hclient
    · intro he
      cases he

theorem accept_eq_ok_iff {op : Operation} {input : Option Instance} :
    accept registry config service wire payload = .ok (op, input) ↔
      registry.resolve service wire = .ok op ∧ op.Takes config payload input := by
  rw [← input_eq_ok_iff, accept]
  cases registry.resolve service wire with
  | error error => simp
  | ok found =>
    cases htaken : Dispatcher.input config service found payload with
    | error e =>
      simp only [htaken, Except.map]
      constructor
      · intro h
        cases h
      · rintro ⟨hfound, hinput⟩
        obtain rfl := Except.ok.inj hfound
        rw [htaken] at hinput
        cases hinput
    | ok taken =>
      simp only [htaken, Except.map]
      constructor
      · intro h
        obtain ⟨rfl, rfl⟩ := Prod.mk.inj (Except.ok.inj h)
        exact ⟨rfl, htaken⟩
      · rintro ⟨hfound, hinput⟩
        obtain rfl := Except.ok.inj hfound
        rw [Except.ok.inj (htaken.symm.trans hinput)]

/-- Beyond what is accepted, only the handlers and the config matter. -/
theorem dispatch_congr {d' : Dispatcher} {payload' : Option Json}
    (haccept : accept d'.registry d'.config service wire payload' =
      accept d.registry d.config service wire payload)
    (hconfig : d'.config = d.config) (hhandlers : d'.handlers = d.handlers) :
    d'.dispatch service wire payload' = d.dispatch service wire payload := by
  rw [dispatch_eq, dispatch_eq, haccept, hconfig]
  unfold handler?
  rw [hhandlers]

/-! ## Two dispatchers -/

/-- **Client faults are decided by the request alone.** Take two dispatchers
over one registry and config, with any handlers and after any calls, and
one request. The one blames the client exactly if the other does, and for
the same error. Where a handler is called, the client is not blamed. An
exchange that ends in neither a client error nor for lack of a handler has
called one handler, once. And with the same handlers, an operation without
input is served the same whatever the payload. -/
theorem client_faults {first second : Dispatcher} (hregistry : second.registry = first.registry)
    (hconfig : second.config = first.config) {past past' : List Call} {service wire : String}
    {payload : Option Json} {x y : Exchange}
    (hx : (first.after past).dispatch service wire payload = x)
    (hy : (second.after past').dispatch service wire payload = y) :
    (∀ e, x.Blames e ↔ y.Blames e) ∧
    (x.calls ≠ [] → ∀ e, ¬ x.Blames e) ∧
    ((∀ e, x.outcome = .error e → e.IsLate) → ∃ op handler input,
      first.registry.resolve service wire = .ok op ∧
      (first.after past).handler? service op.code = some handler ∧
      op.Takes first.config payload input ∧ x.calls = [input]) ∧
    ((second.after past').handlers = (first.after past).handlers → ∀ op,
      first.registry.resolve service wire = .ok op → op.input = none → ∀ other,
        (second.after past').dispatch service wire other = x) := by
  obtain ⟨hregistry₁, hconfig₁⟩ := first.after_registry past
  obtain ⟨hregistry₂, hconfig₂⟩ := second.after_registry past'
  rw [hregistry] at hregistry₂
  rw [hconfig] at hconfig₂
  have hends : (first.after past).Ends service wire payload x := hx ▸ dispatch_ends ..
  have hends' : (second.after past').Ends service wire payload y := hy ▸ dispatch_ends ..
  refine ⟨fun e => ?_, fun hcalls e he => ?_, fun hlate => ?_, fun hhandlers op hop hinput other => ?_⟩
  · rw [hends.blames_iff, hends'.blames_iff, hregistry₁, hconfig₁, hregistry₂, hconfig₂]
  · have haccept := hends.blames_iff.mp he
    cases hends with
    | refused | unhandled => exact hcalls rfl
    | called haccept' =>
      rw [haccept'] at haccept
      cases haccept
  · cases hends with
    | refused _ hclient =>
      rw [(hlate _ rfl).1] at hclient
      cases hclient
    | unhandled => exact absurd rfl ((hlate _ rfl).2 _ _)
    | called haccept hbound =>
      rw [hregistry₁, hconfig₁] at haccept
      obtain ⟨hresolve, htakes⟩ := accept_eq_ok_iff.mp haccept
      exact ⟨_, _, _, hresolve, hbound, htakes, rfl⟩
  · rw [← hx]
    refine dispatch_congr ?_ (hconfig₂.trans hconfig₁.symm) hhandlers
    -- whatever the payload, the operation is accepted without input
    have hnothing : ∀ payload', accept first.registry first.config service wire payload' =
        .ok (op, none) := fun payload' => accept_eq_ok_iff.mpr ⟨hop, .nothing hinput⟩
    rw [hregistry₁, hconfig₁, hregistry₂, hconfig₂, hnothing, hnothing]

end Dispatcher

namespace Sample

/-- A dispatcher for routes, with nothing bound. -/
def idle : Dispatcher := ⟨transit, .lenient, []⟩

/-- A dispatcher for ferries, that cast off and have nothing to say. -/
def harbour : Dispatcher :=
  ⟨⟨[("Ferry", Registry.Sample.ferries)], true⟩, .lenient,
    [(("Ferry", "cast"), fun _ => .ok none)]⟩

end Sample

/-- Before and after its handler is bound, a request for a route without a
payload is the client's fault, and one with a payload calls the handler.
A ferry casts off whatever it is sent. -/
theorem Dispatcher.client_faults_transit :
    Dispatcher.new Sample.transit .lenient = .ok Sample.idle ∧
    (∃ e, (Sample.idle.dispatch "Transit" "Route.Start" none).Blames e ∧
      ((Sample.idle.after Sample.requests).dispatch "Transit" "Route.Start" none).Blames e) ∧
    (∃ input, ((Sample.idle.after Sample.requests).dispatch "Transit" "Route.Start"
      (some Sample.delft)).calls = [input]) ∧
    Sample.harbour.dispatch "Ferry" "Ferry.Cast" (some .null) =
      Sample.harbour.dispatch "Ferry" "Ferry.Cast" none := by
  refine ⟨rfl, ⟨.missingPayload "Transit" "Route.Start", ?_⟩, ?_, ?_⟩
  · have hblames : (Sample.idle.dispatch "Transit" "Route.Start" none).Blames
        (.missingPayload "Transit" "Route.Start") := ⟨rfl, rfl⟩
    obtain ⟨hsame, -⟩ := @Dispatcher.client_faults Sample.idle Sample.idle rfl rfl [] Sample.requests
      "Transit" "Route.Start" none _ _ rfl rfl
    exact ⟨hblames, (hsame _).mp hblames⟩
  · obtain ⟨-, -, hcalled, -⟩ := @Dispatcher.client_faults Sample.idle Sample.idle rfl rfl
      Sample.requests [] "Transit" "Route.Start" (some Sample.delft) _ _ rfl rfl
    obtain ⟨-, -, input, -, -, -, hcalls⟩ := hcalled fun e he => nomatch he
    exact ⟨input, hcalls⟩
  · obtain ⟨-, -, -, hignored⟩ := @Dispatcher.client_faults Sample.harbour Sample.harbour rfl rfl
      [] [] "Ferry" "Ferry.Cast" none _ _ rfl rfl
    exact hignored rfl Registry.Sample.cast rfl rfl (some .null)

end ServiceContracts
