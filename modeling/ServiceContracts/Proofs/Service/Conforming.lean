import ServiceContracts.Proofs.Schema.RoundTrip
import ServiceContracts.Proofs.Service.Serving
/-!
# Nothing ill-typed passes a dispatcher

A handler is code that the library knows nothing about: it may give any
output for any input. What it is called with has been read against the
operation's input schema, though, and what becomes of its output has been
written against the output schema. So its input conforms
(`Operation.Takes.admits`) and the reply can be read back by whoever
receives it (`Operation.Answers.allows`), in the strict mode too, whatever
the handler does.

In between a handler has to give something that can be written. Its own
input can, where both schemas are the same (`Operation.Admits.answers`).
-/


namespace ServiceContracts

/-! ## Writing what conforms, and reading what was written -/

namespace Schema.Built

variable {s : Schema} {m : Instance} {json : Json}

/-- Every conforming message is written. -/
theorem exists_serialize (hs : s.Built) (hm : s.Conforms m) (config : Config) :
    ∃ json, s.serialize config m = .ok json := by
  have hvalue : (FieldType.message s).Conforms (.message m) := ⟨m, rfl, hm⟩
  obtain ⟨json, hjson⟩ := (FieldType.Built.message hs).exists_encode hvalue config.compact
  obtain ⟨_, ⟨rfl⟩, hname, hencode⟩ := FieldType.encode_message_eq_ok_iff.mp hjson
  exact ⟨json, Schema.serialize_eq_ok_iff.mpr ⟨hname, hencode⟩⟩

/-- What is written is read, strictly or not, be it of a conforming message
or of another. -/
theorem exists_validate_of_serialize (hs : s.Built) {config : Config}
    (h : s.serialize config m = .ok json) (reading : Config) :
    ∃ n, s.validate reading json = .ok n := by
  obtain ⟨hname, hencode⟩ := Schema.serialize_eq_ok_iff.mp h
  have hwrites : (FieldType.message s).encode config.compact (.message m) = .ok json :=
    FieldType.encode_message_eq_ok_iff.mpr ⟨m, rfl, hname, hencode⟩
  obtain ⟨-, w, hread, -⟩ := (FieldType.Built.message hs).decode_of_encode hwrites reading.strict
  obtain ⟨n, hn, -⟩ := FieldType.decode_message_eq_ok_iff.mp hread
  exact ⟨n, Schema.validate_eq_ok_iff.mpr hn⟩

/-- What is validated conforms. -/
theorem conforms_of_validate (hs : s.Built) {config : Config}
    (h : s.validate config json = .ok m) : s.Conforms m :=
  hs.conforms_of_decode (Schema.validate_eq_ok_iff.mp h)

end Schema.Built

/-! ## Operations -/

namespace Operation

/-- An operation over schemas that have been built. -/
structure SchemasBuilt (op : Operation) : Prop where
  input : ∀ schema, op.input = some schema → schema.Built
  output : ∀ schema, op.output = some schema → schema.Built

/-- **What a handler of the operation may be called with**: a conforming
message, or nothing where there is no input schema. -/
def Admits (op : Operation) : Option Instance → Prop
  | some m => ∃ schema, op.input = some schema ∧ schema.Conforms m
  | none => op.input = none

/-- **What may be answered**: a payload that the output schema accepts in
strict mode, or nothing where there is no output schema. -/
def Allows (op : Operation) : Reply → Prop
  | .payload json => ∃ schema, op.output = some schema ∧
      ∀ compact, ∃ m, schema.validate ⟨true, compact⟩ json = .ok m
  | .acknowledged => op.output = none

variable {op : Operation} {config : Config} {payload : Option Json}
  {input output : Option Instance} {reply : Reply}

theorem Takes.admits (hop : op.SchemasBuilt) (h : op.Takes config payload input) :
    op.Admits input := by
  cases h with
  | nothing hinput => exact hinput
  | validated hinput _ hvalid =>
    exact ⟨_, hinput, (hop.input _ hinput).conforms_of_validate hvalid⟩

theorem Answers.allows (hop : op.SchemasBuilt) (h : op.Answers config output (.ok reply)) :
    op.Allows reply := by
  cases h with
  | payload houtput hjson =>
    refine ⟨_, houtput, fun compact => ?_⟩
    exact (hop.output _ houtput).exists_validate_of_serialize hjson ⟨true, compact⟩
  | acknowledged houtput => exact houtput

/-- Where an operation gives what it takes, an input that it admits can be
answered with. -/
theorem Admits.answers (hop : op.SchemasBuilt) (hsame : op.input = op.output)
    (h : op.Admits input) (config : Config) : ∃ reply, op.Answers config input (.ok reply) := by
  cases input with
  | none =>
    have houtput : op.output = none := hsame ▸ h
    exact ⟨_, .acknowledged houtput⟩
  | some m =>
    obtain ⟨schema, hinput, hm⟩ := h
    have houtput : op.output = some schema := hsame ▸ hinput
    obtain ⟨json, hjson⟩ := (hop.output schema houtput).exists_serialize hm config
    exact ⟨_, .payload houtput hjson⟩

end Operation

/-! ## Requests -/

/-- **An exchange that fits an operation**, by the calls of its handler and by
the reply. -/
structure Exchange.Fits (x : Exchange) (op : Operation) : Prop where
  calls : ∀ input ∈ x.calls, op.Admits input
  reply : ∀ reply, x.outcome = .ok reply → op.Allows reply

namespace Dispatcher

variable {d : Dispatcher} {service wire : String} {payload : Option Json} {op : Operation}

/-- A request that does not resolve calls nothing. -/
theorem dispatch_of_unresolved {error : ResolveError}
    (h : d.registry.resolve service wire = .error error) :
    d.dispatch service wire payload = ⟨.error (.unresolved error), []⟩ := by
  rw [dispatch_eq, accept, h]

/-- **A request that resolves fits its operation.** -/
theorem dispatch_fits (hr : d.registry.Indexed) (hop : op.SchemasBuilt)
    (hresolve : d.registry.resolve service wire = .ok op) :
    (d.dispatch service wire payload).Fits op := by
  have hserves : Serves d.registry d.config d.handler? service wire payload
      (d.dispatch service wire payload) := (serves_iff hr).mpr rfl
  -- the operation that the request is served for is the one that it resolves to
  have hthis : ∀ {other : Operation}, d.registry.Offers service other → other.wire = wire →
      other = op := by
    intro other hother hwire
    have hfound := hr.resolve_eq_ok_iff.mpr ⟨hother, hwire⟩
    exact Except.ok.inj (hfound.symm.trans hresolve)
  generalize d.dispatch service wire payload = x at hserves ⊢
  cases hserves with
  | noHandler | unknownService | unknownOperation | missingPayload | badRequest =>
    exact ⟨fun _ hcall => absurd hcall List.not_mem_nil, nofun⟩
  | failed hother hwire htakes | badResponse hother hwire htakes =>
    obtain rfl := hthis hother hwire
    exact ⟨List.forall_mem_singleton.mpr (htakes.admits hop), nofun⟩
  | answered hother hwire htakes _ _ hanswers =>
    obtain rfl := hthis hother hwire
    refine ⟨List.forall_mem_singleton.mpr (htakes.admits hop), ?_⟩
    rintro reply ⟨⟩
    exact hanswers.allows hop

/-- **A handler that gives back its input** is answered for, where the
operation gives what it takes. -/
theorem exists_reply_of_echo (hr : d.registry.Indexed) (hop : op.SchemasBuilt)
    (hresolve : d.registry.resolve service wire = .ok op) (hsame : op.input = op.output)
    {handler : Handler} (hbound : d.handler? service op.code = some handler)
    {input : Option Instance} (htakes : op.Takes d.config payload input)
    (hecho : handler input = .ok input) :
    ∃ reply, (d.dispatch service wire payload).outcome = .ok reply := by
  obtain ⟨hoffers, hwire⟩ := hr.resolve_eq_ok_iff.mp hresolve
  obtain ⟨reply, hanswers⟩ := (htakes.admits hop).answers hop hsame d.config
  have hserves := (serves_iff hr).mp (.answered hoffers hwire htakes hbound hecho hanswers)
  exact ⟨reply, hserves ▸ rfl⟩

/-- **Nothing ill-typed passes a dispatcher**, whatever its handlers do. A
request that does not resolve calls none. One that resolves calls a handler
with what its operation admits only, and is answered with what the
operation allows only. And where the operation gives what it takes, an
accepted request to a handler that gives back its input is answered with a
reply. -/
theorem dispatch_conforms (d : Dispatcher) (hr : d.registry.Built)
    (hbuilt : ∀ s ∈ d.registry.services, ∀ op ∈ s.operations, op.SchemasBuilt)
    (service wire : String) (payload : Option Json) :
    (∀ error, d.registry.resolve service wire = .error error →
      d.dispatch service wire payload = ⟨.error (.unresolved error), []⟩) ∧
    ∀ op, d.registry.resolve service wire = .ok op →
      (d.dispatch service wire payload).Fits op ∧
      (op.input = op.output → ∀ handler, d.handler? service op.code = some handler →
        ∀ input, op.Takes d.config payload input → handler input = .ok input →
          ∃ reply, (d.dispatch service wire payload).outcome = .ok reply) := by
  refine ⟨fun error herror => dispatch_of_unresolved herror, fun op hresolve => ?_⟩
  have hop : op.SchemasBuilt := by
    obtain ⟨⟨s, hs, -, hmem⟩, -⟩ := hr.indexed.resolve_eq_ok_iff.mp hresolve
    exact hbuilt s hs op hmem
  refine ⟨dispatch_fits hr.indexed hop hresolve, ?_⟩
  intro hsame handler hbound input htakes hecho
  exact exists_reply_of_echo hr.indexed hop hresolve hsame hbound htakes hecho

end Dispatcher

namespace Sample

/-- Takes a route and gives one. -/
def reroute : Operation := ⟨"reroute", "Route.Again", some route, some route, ""⟩

/-- The service for it, sealed. -/
def rerouting : Registry :=
  ⟨[("Transit", ⟨"Transit", "", [("reroute", reroute)], [("Route.Again", 0)]⟩)], true⟩

/-- Its dispatcher, with a handler that keeps every route. -/
def rerouter : Dispatcher :=
  ⟨rerouting, ⟨false, true⟩, [(("Transit", "reroute"), fun input => .ok input)]⟩

theorem rerouting_built : rerouting.Built := by
  have hempty : Service.Built ⟨"Transit", "", [], []⟩ := @Service.Built.new "Transit" "" _ rfl
  have hservice : Service.Built ⟨"Transit", "", [("reroute", reroute)], [("Route.Again", 0)]⟩ :=
    hempty.register reroute
  exact .sealed (.register .empty hservice)

theorem reroute_schemasBuilt (s : Service) (hs : s ∈ rerouting.services) (op : Operation)
    (hop : op ∈ s.operations) : op.SchemasBuilt := by
  obtain rfl := List.mem_singleton.mp hs
  obtain rfl := List.mem_singleton.mp hop
  exact ⟨fun schema h => Option.some.inj h ▸ route_built,
    fun schema h => Option.some.inj h ▸ route_built⟩

end Sample

theorem Dispatcher.dispatch_conforms_reroute :
    Sample.rerouter.registry.Built ∧
      (∀ s ∈ Sample.rerouter.registry.services, ∀ op ∈ s.operations, op.SchemasBuilt) ∧
      (Sample.rerouter.dispatch "Transit" "Route.Again" (some Sample.delft)).Fits Sample.reroute ∧
      ∃ json, (Sample.rerouter.dispatch "Transit" "Route.Again" (some Sample.delft)).outcome =
        .ok (.payload json) := by
  have hbuilt := Sample.reroute_schemasBuilt
  obtain ⟨-, hresolved⟩ := Dispatcher.dispatch_conforms Sample.rerouter Sample.rerouting_built
    hbuilt "Transit" "Route.Again" (some Sample.delft)
  obtain ⟨hfits, hecho⟩ := hresolved Sample.reroute rfl
  have htakes : Sample.reroute.Takes ⟨false, true⟩ (some Sample.delft) _ :=
    .validated rfl rfl (rfl : Sample.route.validate ⟨false, true⟩ Sample.delft = .ok _)
  obtain ⟨reply, hreply⟩ := hecho rfl _ rfl _ htakes rfl
  refine ⟨Sample.rerouting_built, hbuilt, hfits, ?_⟩
  -- the operation has an output, so a reply to it carries a payload
  cases reply with
  | payload json => exact ⟨json, hreply⟩
  | acknowledged => cases (hfits.reply _ hreply : Sample.reroute.output = none)

end ServiceContracts
