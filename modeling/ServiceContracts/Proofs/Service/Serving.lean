import ServiceContracts.Service.Dispatch
import ServiceContracts.Proofs.Schema.Reading
import ServiceContracts.Proofs.Service.Indexes
/-!
# A dispatcher over a whole run

A run is a sequence of bindings and requests on one dispatcher, in any
order. What each call has to do is said from the registry and from the
turns before it: `Binds` for a binding, `Serves` for a request, whose
outcomes are listed in the order in which they are tested. Which handler
answers is a matter of history alone (`lastBound`).

The dispatcher keeps its bindings under code names while requests arrive
by wire name, so `Follows`, the invariant of the run, states the two in
one: what is kept under a code name is what was bound to it last. One
turn keeps it and does what it has to (`Follows.turn`), and so does every
turn of a run (`Follows.turns`).
-/


namespace ServiceContracts

/-! ## Runs -/

/-- A call on a dispatcher. -/
inductive Call where
  | handle (service code : String) (handler : Handler)
  | dispatch (service wire : String) (payload : Option Json)

/-- What a call gives back. -/
inductive Answer where
  | bound (result : Except DispatchError Unit)
  | served (exchange : Exchange)

/-- One call of a run, with the dispatcher before and after it. -/
structure Turn where
  before : Dispatcher
  call : Call
  answer : Answer
  after : Dispatcher

namespace Dispatcher

/-- Makes one call. A request leaves the dispatcher as it was. -/
def turn (d : Dispatcher) : Call → Turn
  | .handle service code handler =>
    ⟨d, .handle service code handler, .bound (d.handle service code handler).2,
      (d.handle service code handler).1⟩
  | .dispatch service wire payload =>
    ⟨d, .dispatch service wire payload, .served (d.dispatch service wire payload), d⟩

/-- Makes the calls one after the other. -/
def turns (d : Dispatcher) : List Call → List Turn
  | [] => []
  | call :: rest => d.turn call :: (d.turn call).after.turns rest

/-- The handler kept for an operation. -/
def handler? (d : Dispatcher) (service code : String) : Option Handler :=
  Entries.get? d.handlers (service, code)

/-- Every call of a run has its turn. -/
theorem call_turns {d : Dispatcher} {calls : List Call} :
    (d.turns calls).map Turn.call = calls := by
  induction calls generalizing d with
  | nil => rfl
  | cons call rest ih =>
    have hcall : (d.turn call).call = call := by cases call <;> rfl
    rw [turns, List.map_cons, hcall, ih]

end Dispatcher

/-- The handler that a turn binds to an operation, if it is a binding to it
that succeeded. -/
def Turn.binding? (t : Turn) (service code : String) : Option Handler :=
  match t.call, t.answer with
  | .handle service' code' handler, .bound (.ok ()) =>
    if service' = service ∧ code' = code then some handler else none
  | _, _ => none

/-- The handler bound last to an operation. -/
def lastBound (past : List Turn) (service code : String) : Option Handler :=
  past.reverse.findSome? fun t => t.binding? service code

/-! ## What a call has to do -/

/-- **A binding**: it fails and changes nothing, or makes the handler that
of one operation and leaves those of all others. -/
inductive Binds (r : Registry) (service code : String) (handler : Handler)
    (d d' : Dispatcher) : Except DispatchError Unit → Prop
  | unknownService (hs : ∀ s ∈ r.services, s.name ≠ service) (hsame : d' = d) :
      Binds r service code handler d d' (.error (.unresolved (.unknownService service)))
  | unknownOperation {s : Service} (hs : s ∈ r.services) (hname : s.name = service)
      (hops : ∀ op ∈ s.operations, op.code ≠ code) (hsame : d' = d) :
      Binds r service code handler d d' (.error (.unresolved (.unknownOperation service code)))
  | bound {op : Operation} (hop : r.Offers service op) (hcode : op.code = code)
      (hregistry : d'.registry = d.registry) (hconfig : d'.config = d.config)
      (hhandler : ∀ service' code', d'.handler? service' code' =
        if service' = service ∧ code' = code then some handler else d.handler? service' code') :
      Binds r service code handler d d' (.ok ())

/-- What an operation's handler is called with: the validated payload, or
nothing for an operation without input. -/
inductive Operation.Takes (op : Operation) (config : Config) (payload : Option Json) :
    Option Instance → Prop
  | nothing (hinput : op.input = none) : Takes op config payload none
  | validated {schema : Schema} {json : Json} {m : Instance} (hinput : op.input = some schema)
      (hpayload : payload = some json) (hvalid : schema.validate config json = .ok m) :
      Takes op config payload (some m)

/-- What a handler's output becomes. It has to be there exactly when the
operation has an output schema, and to fit it. -/
inductive Operation.Answers (op : Operation) (config : Config) :
    Option Instance → Except ResponseFault Reply → Prop
  | payload {schema : Schema} {m : Instance} {json : Json} (houtput : op.output = some schema)
      (hjson : schema.serialize config m = .ok json) :
      Answers op config (some m) (.ok (.payload json))
  | acknowledged (houtput : op.output = none) : Answers op config none (.ok .acknowledged)
  | unfit {schema : Schema} {m : Instance} {error : SchemaError}
      (houtput : op.output = some schema) (herror : schema.serialize config m = .error error) :
      Answers op config (some m) (.error (.unfit error))
  | noOutput {schema : Schema} (houtput : op.output = some schema) :
      Answers op config none (.error .noOutput)
  | unexpectedOutput {m : Instance} (houtput : op.output = none) :
      Answers op config (some m) (.error .unexpectedOutput)

/-- **A request**, by its outcome and the inputs that handlers were called
with. -/
inductive Serves (r : Registry) (config : Config) (bound : String → String → Option Handler)
    (service wire : String) (payload : Option Json) : Exchange → Prop
  | unknownService (hs : ∀ s ∈ r.services, s.name ≠ service) :
      Serves r config bound service wire payload
        ⟨.error (.unresolved (.unknownService service)), []⟩
  | unknownOperation {s : Service} (hs : s ∈ r.services) (hname : s.name = service)
      (hops : ∀ op ∈ s.operations, op.wire ≠ wire) :
      Serves r config bound service wire payload
        ⟨.error (.unresolved (.unknownOperation service wire)), []⟩
  | missingPayload {op : Operation} {schema : Schema}
      (hop : r.Offers service op) (hwire : op.wire = wire)
      (hinput : op.input = some schema) (hpayload : payload = none) :
      Serves r config bound service wire payload ⟨.error (.missingPayload service wire), []⟩
  | badRequest {op : Operation} {schema : Schema} {json : Json} {errors : FieldErrors}
      (hop : r.Offers service op) (hwire : op.wire = wire)
      (hinput : op.input = some schema) (hpayload : payload = some json)
      (hinvalid : schema.validate config json = .error (.rejected schema.name errors)) :
      Serves r config bound service wire payload ⟨.error (.badRequest service wire errors), []⟩
  | noHandler {op : Operation} {input : Option Instance}
      (hop : r.Offers service op) (hwire : op.wire = wire)
      (htakes : op.Takes config payload input) (hbound : bound service op.code = none) :
      Serves r config bound service wire payload ⟨.error (.noHandler service wire), []⟩
  | failed {op : Operation} {input : Option Instance} {handler : Handler} {text : String}
      (hop : r.Offers service op) (hwire : op.wire = wire)
      (htakes : op.Takes config payload input) (hbound : bound service op.code = some handler)
      (hcall : handler input = .error text) :
      Serves r config bound service wire payload ⟨.error (.failed service wire text), [input]⟩
  | answered {op : Operation} {input output : Option Instance} {handler : Handler} {reply : Reply}
      (hop : r.Offers service op) (hwire : op.wire = wire)
      (htakes : op.Takes config payload input) (hbound : bound service op.code = some handler)
      (hcall : handler input = .ok output) (hanswers : op.Answers config output (.ok reply)) :
      Serves r config bound service wire payload ⟨.ok reply, [input]⟩
  | badResponse {op : Operation} {input output : Option Instance} {handler : Handler}
      {fault : ResponseFault}
      (hop : r.Offers service op) (hwire : op.wire = wire)
      (htakes : op.Takes config payload input) (hbound : bound service op.code = some handler)
      (hcall : handler input = .ok output) (hanswers : op.Answers config output (.error fault)) :
      Serves r config bound service wire payload
        ⟨.error (.badResponse service wire fault), [input]⟩

/-- **The contract of a turn**, given those before it. A request has the one
outcome that `Serves` allows, and changes nothing. -/
def Registry.Contract (r : Registry) (config : Config) (past : List Turn) (t : Turn) : Prop :=
  match t.call, t.answer with
  | .handle service code handler, .bound result =>
    Binds r service code handler t.before t.after result
  | .dispatch service wire payload, .served exchange =>
    t.after = t.before ∧
      ∀ x, Serves r config (lastBound past) service wire payload x ↔ x = exchange
  | _, _ => False

/-! ## One request -/

theorem Operation.answers_iff {op : Operation} {config : Config} {output : Option Instance}
    {result : Except ResponseFault Reply} :
    op.Answers config output result ↔ op.reply config output = result := by
  constructor
  · intro h
    cases h with
    | payload houtput hjson => simp [reply, houtput, hjson]
    | acknowledged houtput => simp [reply, houtput]
    | unfit houtput herror => simp [reply, houtput, herror]
    | noOutput houtput => simp [reply, houtput]
    | unexpectedOutput houtput => simp [reply, houtput]
  · rintro rfl
    unfold reply
    cases houtput : op.output with
    | none =>
      cases output with
      | none => exact .acknowledged houtput
      | some m => exact .unexpectedOutput houtput
    | some schema =>
      cases output with
      | none => exact .noOutput houtput
      | some m =>
        cases hjson : schema.serialize config m with
        | ok json => simpa [hjson] using Answers.payload houtput hjson
        | error error => simpa [hjson] using Answers.unfit houtput hjson

namespace Dispatcher

variable {config : Config} {service wire : String} {op : Operation} {payload : Option Json}

theorem input_eq_ok_iff {input : Option Instance} :
    Dispatcher.input config service op payload = .ok input ↔ op.Takes config payload input := by
  unfold Dispatcher.input
  constructor
  · intro h
    cases hinput : op.input with
    | none =>
      obtain rfl : none = input := by simpa [hinput] using h
      exact .nothing hinput
    | some schema =>
      cases payload with
      | none => simp [hinput] at h
      | some json =>
        cases hread : schema.read config json with
        | error errors => simp [hinput, hread] at h
        | ok m =>
          obtain rfl : some m = input := by simpa [hinput, hread] using h
          exact .validated hinput rfl (Schema.validate_eq_ok_iff_read.mpr hread)
  · intro h
    cases h with
    | nothing hinput => simp [hinput]
    | validated hinput hpayload hvalid =>
      subst hpayload
      simp [hinput, Schema.validate_eq_ok_iff_read.mp hvalid]

/-- What comes of calling a handler: its answer, or what is wrong with it. -/
def outcome (config : Config) (service : String) (op : Operation) (handler : Handler)
    (input : Option Instance) : Except DispatchError Reply :=
  match handler input with
  | .error text => .error (.failed service op.wire text)
  | .ok output => (op.reply config output).mapError (.badResponse service op.wire)

theorem run_ofExcept {ε α : Type} (x : Except ε α) (calls : List (Option Instance)) :
    (MonadExcept.ofExcept x : Serving ε α).run.run calls = (x, calls) := by
  cases x <;> rfl

/-- **A handler is called once or not at all**: once a request has been
accepted and there is one. Then the call is on record, and is all that
is. -/
theorem dispatch_eq (d : Dispatcher) :
    d.dispatch service wire payload =
      match accept d.registry d.config service wire payload with
      | .error error => ⟨.error error, []⟩
      | .ok (op, m) =>
        match d.handler? service op.code with
        | none => ⟨.error (.noHandler service op.wire), []⟩
        | some handler => ⟨outcome d.config service op handler m, [m]⟩ := by
  unfold dispatch serve handler?
  cases accept d.registry d.config service wire payload with
  | error error => rfl
  | ok accepted =>
    obtain ⟨op, m⟩ := accepted
    cases hbound : Entries.get? d.handlers (service, op.code) with
    | none =>
      simp only [MonadExcept.ofExcept, pure_bind, hbound]
      rfl
    | some handler =>
      simp only [MonadExcept.ofExcept, pure_bind, hbound, outcome, Handler.call]
      -- the call is on record already when its answer is looked at
      cases handler m with
      | error text => rfl
      | ok output => exact congrArg (fun ran => (⟨ran.1, ran.2⟩ : Exchange)) (run_ofExcept _ [m])

/-- **The outcome that is tested for** is the one there is, whatever is
bound. -/
theorem eq_dispatch_of_serves {d : Dispatcher} (hr : d.registry.Indexed) {x : Exchange}
    (h : Serves d.registry d.config d.handler? service wire payload x) :
    x = d.dispatch service wire payload := by
  rw [dispatch_eq]
  unfold accept
  cases h with
  | unknownService hs => rw [hr.resolve_eq_error_iff.mpr (.inl ⟨rfl, hs⟩)]
  | unknownOperation hs hname hops =>
    rw [hr.resolve_eq_error_iff.mpr (.inr ⟨rfl, _, hs, hname, hops⟩)]
  | missingPayload hop hwire hinput hpayload =>
    rw [hr.resolve_eq_ok_iff.mpr ⟨hop, hwire⟩]
    simp [Dispatcher.input, hinput, hpayload, hwire, Except.map]
  | badRequest hop hwire hinput hpayload hinvalid =>
    rw [hr.resolve_eq_ok_iff.mpr ⟨hop, hwire⟩]
    simp [Dispatcher.input, hinput, hpayload, hwire, Except.map,
      Schema.validate_eq_rejected_iff.mp hinvalid]
  | noHandler hop hwire htakes hbound =>
    rw [hr.resolve_eq_ok_iff.mpr ⟨hop, hwire⟩]
    simp [input_eq_ok_iff.mpr htakes, hwire, Except.map, hbound]
  | failed hop hwire htakes hbound hcall =>
    rw [hr.resolve_eq_ok_iff.mpr ⟨hop, hwire⟩]
    simp [input_eq_ok_iff.mpr htakes, hwire, Except.map, hbound, outcome, hcall]
  | answered hop hwire htakes hbound hcall hanswers =>
    rw [hr.resolve_eq_ok_iff.mpr ⟨hop, hwire⟩]
    simp [input_eq_ok_iff.mpr htakes, Except.map, hbound, outcome, hcall,
      Operation.answers_iff.mp hanswers, Except.mapError]
  | badResponse hop hwire htakes hbound hcall hanswers =>
    rw [hr.resolve_eq_ok_iff.mpr ⟨hop, hwire⟩]
    simp [input_eq_ok_iff.mpr htakes, hwire, Except.map, hbound, outcome, hcall,
      Operation.answers_iff.mp hanswers, Except.mapError]

/-- An operation takes its input, or the payload is at fault. -/
theorem takes_or (op : Operation) (config : Config) (payload : Option Json) :
    (∃ input, op.Takes config payload input) ∨
      ∃ schema, op.input = some schema ∧ (payload = none ∨ ∃ json errors, payload = some json ∧
        schema.validate config json = .error (.rejected schema.name errors)) := by
  cases hinput : op.input with
  | none => exact .inl ⟨none, .nothing hinput⟩
  | some schema =>
    cases payload with
    | none => exact .inr ⟨schema, rfl, .inl rfl⟩
    | some json =>
      cases hread : schema.read config json with
      | ok m =>
        have hvalid := Schema.validate_eq_ok_iff_read.mpr hread
        exact .inl ⟨some m, .validated hinput rfl hvalid⟩
      | error errors =>
        have hinvalid := Schema.validate_eq_rejected_iff.mpr hread
        exact .inr ⟨schema, rfl, .inr ⟨json, errors, rfl, hinvalid⟩⟩

/-- And some outcome always is. -/
theorem exists_serves {r : Registry} (hr : r.Indexed) (bound : String → String → Option Handler) :
    ∃ x, Serves r config bound service wire payload x := by
  cases hresolve : r.resolve service wire with
  | error error =>
    obtain ⟨-, hs⟩ | ⟨-, s, hs, hname, hops⟩ := hr.resolve_eq_error_iff.mp hresolve
    · exact ⟨_, .unknownService hs⟩
    · exact ⟨_, .unknownOperation hs hname hops⟩
  | ok op =>
    obtain ⟨hop, hwire⟩ := hr.resolve_eq_ok_iff.mp hresolve
    obtain ⟨input, htakes⟩ | ⟨schema, hinput, hnone | ⟨json, errors, hpayload, hinvalid⟩⟩ :=
      takes_or op config payload
    · cases hbound : bound service op.code with
      | none => exact ⟨_, .noHandler hop hwire htakes hbound⟩
      | some handler =>
        cases hcall : handler input with
        | error text => exact ⟨_, .failed hop hwire htakes hbound hcall⟩
        | ok output =>
          have hanswers := Operation.answers_iff.mpr (Eq.refl (op.reply config output))
          cases hreply : op.reply config output with
          | ok reply => exact ⟨_, .answered hop hwire htakes hbound hcall (hreply ▸ hanswers)⟩
          | error fault =>
            exact ⟨_, .badResponse hop hwire htakes hbound hcall (hreply ▸ hanswers)⟩
    · exact ⟨_, .missingPayload hop hwire hinput hnone⟩
    · exact ⟨_, .badRequest hop hwire hinput hpayload hinvalid⟩

/-- **One request**: the outcomes exclude one another, and the dispatcher
gives the one that applies. -/
theorem serves_iff {d : Dispatcher} (hr : d.registry.Indexed) {x : Exchange} :
    Serves d.registry d.config d.handler? service wire payload x ↔
      x = d.dispatch service wire payload := by
  refine ⟨eq_dispatch_of_serves hr, ?_⟩
  rintro rfl
  -- some outcome applies, and each that does is the one given
  obtain ⟨y, hy⟩ := exists_serves hr d.handler?
  have heq : y = d.dispatch service wire payload := eq_dispatch_of_serves hr hy
  exact heq ▸ hy

/-! ## One binding -/

theorem binds_handle {d : Dispatcher} (hr : d.registry.Indexed) (service code : String)
    (handler : Handler) :
    Binds d.registry service code handler d (d.handle service code handler).1
      (d.handle service code handler).2 := by
  cases hs : d.registry.service? service with
  | none =>
    have hfails : d.handle service code handler =
        (d, .error (.unresolved (.unknownService service))) := by
      simp [handle, hs]
    rw [hfails]
    exact .unknownService (hr.service?_eq_none_iff.mp hs) rfl
  | some s =>
    obtain ⟨hmem, hname⟩ := hr.service?_eq_some_iff.mp hs
    have hfound : ∀ op, s.get? code = some op ↔ op ∈ s.operations ∧ op.code = code :=
      fun op => (hr.services s hmem).get?_eq_some_iff
    cases hop : s.get? code with
    | none =>
      have hfails : d.handle service code handler =
          (d, .error (.unresolved (.unknownOperation service code))) := by
        simp [handle, hs, hop]
      rw [hfails]
      refine .unknownOperation hmem hname (fun op hmemOp hcode => ?_) rfl
      exact absurd ((hfound op).mpr ⟨hmemOp, hcode⟩) (by simp [hop])
    | some op =>
      obtain ⟨hmemOp, hcode⟩ := (hfound op).mp hop
      have hbinds : d.handle service code handler =
          ({ d with handlers := Entries.set d.handlers (service, code) handler }, .ok ()) := by
        simp [handle, hs, hop]
      rw [hbinds]
      -- the handler is kept under the code name, where an earlier one gives way to it
      refine .bound ⟨s, hmem, hname, hmemOp⟩ hcode rfl rfl fun service' code' => ?_
      rw [handler?, handler?]
      simp only [Entries.get?_set, Prod.mk.injEq]
      simp only [eq_comm]

end Dispatcher

/-! ## The run -/

/-- **The invariant of a run**: the registry and the configuration stay, and
what is kept for an operation is what was bound to it last. -/
structure Follows (r : Registry) (config : Config) (past : List Turn) (d : Dispatcher) : Prop where
  registry : d.registry = r
  config : d.config = config
  handlers : ∀ service code, d.handler? service code = lastBound past service code

theorem lastBound_concat (past : List Turn) (t : Turn) (service code : String) :
    lastBound (past ++ [t]) service code =
      (t.binding? service code).or (lastBound past service code) := by
  rw [lastBound, List.reverse_concat, List.findSome?_cons]
  cases t.binding? service code <;> rfl

namespace Follows

variable {r : Registry} {config : Config} {past : List Turn} {d : Dispatcher}

/-- A binding that does what it has to keeps the invariant. -/
theorem of_binds (h : Follows r config past d) {service code : String} {handler : Handler}
    {d' : Dispatcher} {result : Except DispatchError Unit}
    (hbinds : Binds r service code handler d d' result) :
    Follows r config (past ++ [⟨d, .handle service code handler, .bound result, d'⟩]) d' := by
  cases hbinds with
  -- a binding that failed leaves the dispatcher and the history as they were
  | unknownService _ hsame =>
    subst hsame
    exact ⟨h.registry, h.config, fun s c => by rw [lastBound_concat]; exact h.handlers s c⟩
  | unknownOperation _ _ _ hsame =>
    subst hsame
    exact ⟨h.registry, h.config, fun s c => by rw [lastBound_concat]; exact h.handlers s c⟩
  | bound _ _ hregistry hconfig hhandler =>
    refine ⟨hregistry.trans h.registry, hconfig.trans h.config, fun s c => ?_⟩
    rw [hhandler, lastBound_concat, Turn.binding?, ← h.handlers s c]
    by_cases hsame : s = service ∧ c = code
    · -- for the operation itself both name the new handler
      obtain ⟨rfl, rfl⟩ := hsame
      simp
    · have hother : ¬ (service = s ∧ code = c) := fun ⟨hs, hc⟩ => hsame ⟨hs.symm, hc.symm⟩
      rw [if_neg hsame]
      simp only [if_neg hother, Option.none_or]

/-- **One turn** does what it has to, and keeps the invariant. -/
theorem turn (hr : r.Indexed) (h : Follows r config past d) (call : Call) :
    r.Contract config past (d.turn call) ∧
      Follows r config (past ++ [d.turn call]) (d.turn call).after := by
  obtain ⟨rfl, rfl, hhandlers⟩ := h
  have hbound : d.handler? = lastBound past := by
    funext s c
    exact hhandlers s c
  cases call with
  | dispatch service wire payload =>
    refine ⟨⟨rfl, fun x => ?_⟩, rfl, rfl, fun service' code' => ?_⟩
    · rw [← hbound]
      exact Dispatcher.serves_iff hr
    · rw [lastBound_concat]
      exact hhandlers service' code'
  | handle service code handler =>
    have hbinds := Dispatcher.binds_handle hr service code handler
    exact ⟨hbinds, of_binds ⟨rfl, rfl, hhandlers⟩ hbinds⟩

/-- **A run** does, turn by turn. -/
theorem turns (hr : r.Indexed) (h : Follows r config past d) (calls : List Call) {before : List Turn}
    {t : Turn} {rest : List Turn} (ht : d.turns calls = before ++ t :: rest) :
    r.Contract config (past ++ before) t := by
  -- the first turn joins the past of those that follow it
  induction calls generalizing past d before with
  | nil => simp [Dispatcher.turns] at ht
  | cons call others ih =>
    obtain ⟨hcontract, hfollows⟩ := h.turn hr call
    rw [Dispatcher.turns] at ht
    cases before with
    | nil =>
      obtain ⟨rfl, -⟩ := List.cons.inj ht
      rw [List.append_nil]
      exact hcontract
    | cons first before =>
      obtain ⟨rfl, hrest⟩ := List.cons.inj ht
      rw [← List.singleton_append, ← List.append_assoc]
      exact ih hfollows hrest

end Follows

/-- **Every call of every run keeps its contract**: each has its turn, and
the turn does what the registry and the turns before it ask for. -/
theorem Dispatcher.turns_contract {r : Registry} (hr : r.Built) {config : Config} {d : Dispatcher}
    (hd : Dispatcher.new r config = .ok d) (calls : List Call) :
    (d.turns calls).map Turn.call = calls ∧
      ∀ past t rest, d.turns calls = past ++ t :: rest → r.Contract config past t := by
  obtain rfl : (⟨r, config, []⟩ : Dispatcher) = d := by
    unfold Dispatcher.new at hd
    split at hd
    · exact Except.ok.inj hd
    · cases hd
  have hstart : Follows r config [] ⟨r, config, []⟩ := ⟨rfl, rfl, fun _ _ => rfl⟩
  exact ⟨Dispatcher.call_turns, fun past t rest ht => hstart.turns hr.indexed calls ht⟩

namespace Sample

/-- Takes a route and gives its first stop. -/
def start : Operation := ⟨"start", "Route.Start", some route, some stop, ""⟩

/-- The transit service, sealed. -/
def transit : Registry :=
  ⟨[("Transit", ⟨"Transit", "", [("start", start)], [("Route.Start", 0)]⟩)], true⟩

theorem transit_built : transit.Built := by
  have hempty : Service.Built ⟨"Transit", "", [], []⟩ := @Service.Built.new "Transit" "" _ rfl
  have hservice : Service.Built ⟨"Transit", "", [("start", start)], [("Route.Start", 0)]⟩ :=
    hempty.register start
  exact .sealed (.register .empty hservice)

/-- A handler that knows one stop. -/
def answerDelft : Handler :=
  fun _ => .ok (some ⟨"Stop", [("name", .string "Delft"), ("wait", .number (.finite .zero))]⟩)

/-- The same request before and after the handler is bound. -/
def requests : List Call :=
  [.dispatch "Transit" "Route.Start" (some delft), .handle "Transit" "start" answerDelft,
    .dispatch "Transit" "Route.Start" (some delft)]

end Sample

theorem Dispatcher.turns_contract_transit :
    ∃ d, Dispatcher.new Sample.transit .lenient = .ok d ∧
      ∃ early binding late, d.turns Sample.requests = [early, binding, late] ∧
        Sample.transit.Contract .lenient [] early ∧
        Sample.transit.Contract .lenient [early, binding] late := by
  have hnew : Dispatcher.new Sample.transit .lenient = .ok ⟨Sample.transit, .lenient, []⟩ := rfl
  refine ⟨_, hnew, _, _, _, rfl, ?_, ?_⟩
  · exact (Dispatcher.turns_contract Sample.transit_built hnew Sample.requests).2 [] _ _ rfl
  · exact (Dispatcher.turns_contract Sample.transit_built hnew Sample.requests).2 [_, _] _ [] rfl

end ServiceContracts
