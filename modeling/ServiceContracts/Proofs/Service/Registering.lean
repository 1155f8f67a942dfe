import ServiceContracts.Proofs.Service.Indexes
/-!
# A service over a run of registrations

Operations come to a service one call at a time, and any of the calls may
be refused. Which are, and what the two look-ups find in between, is said
from the calls that succeeded before (`registered`): the service lists
exactly those, in order, and finds each under its two names
(`Service.Lists`). A call is refused for a name that one of them has, and
then it changes nothing (`Registration.Contract`).

One call keeps the indexes and does what it has to
(`Service.Indexed.registration_contract`), so every call of a run does.
What is left of a run in which no call is refused is a condition on the
names alone, and names do not mind their order.
-/


namespace ServiceContracts

/-! ## Runs -/

/-- One call of a run, with the service before and after it. -/
structure Registration where
  before : Service
  op : Operation
  result : Except RegistryError Unit
  after : Service

namespace Service

/-- Makes one call. -/
def registration (s : Service) (op : Operation) : Registration :=
  ⟨s, op, (s.register op).2, (s.register op).1⟩

/-- Makes the calls one after the other. -/
def registrations (s : Service) : List Operation → List Registration
  | [] => []
  | op :: rest => s.registration op :: (s.registration op).after.registrations rest

/-- The service that a run ends with. -/
def afterAll (s : Service) : List Operation → Service
  | [] => s
  | op :: rest => (s.registration op).after.afterAll rest

end Service

/-- The operations whose calls succeeded, in order. -/
def registered (run : List Registration) : List Operation :=
  (run.filter fun t => t.result.isOk).map Registration.op

/-! ## What holds in between -/

/-- **A service lists operations**: those and no others, in this order, and
each look-up finds the one that has the name. -/
structure Service.Lists (s : Service) (ops : List Operation) : Prop where
  operations : s.operations = ops
  size : s.size = ops.length
  wires : (ops.map Operation.wire).Nodup
  lookup : ∀ wire op, s.lookup? wire = some op ↔ op ∈ ops ∧ op.wire = wire
  codes : (ops.map Operation.code).Nodup
  get : ∀ code op, s.get? code = some op ↔ op ∈ ops ∧ op.code = code

/-- **What a call has to do**: the code name is looked at before the wire
name, and a call that is refused changes nothing. -/
structure Registration.Contract (t : Registration) : Prop where
  codeTaken : t.result = .error (.duplicateOperation t.before.name .code t.op.code) ↔
    t.op.code ∈ t.before.operations.map Operation.code
  wireTaken : t.result = .error (.duplicateOperation t.before.name .wire t.op.wire) ↔
    t.op.code ∉ t.before.operations.map Operation.code ∧
      t.op.wire ∈ t.before.operations.map Operation.wire
  accepted : t.result = .ok () ↔ t.op.code ∉ t.before.operations.map Operation.code ∧
    t.op.wire ∉ t.before.operations.map Operation.wire
  refused : t.result ≠ .ok () → t.after = t.before

namespace Service

variable {s s' : Service} {op : Operation}

theorem registration_of_ok (h : s.withOperation op = .ok s') :
    s.registration op = ⟨s, op, .ok (), s'⟩ := by
  rw [registration, register_of_ok h]

theorem registration_of_error {error : RegistryError} (h : s.withOperation op = .error error) :
    s.registration op = ⟨s, op, .error error, s⟩ := by
  rw [registration, register_of_error h]

@[simp] theorem registration_before : (s.registration op).before = s := rfl

@[simp] theorem registration_op : (s.registration op).op = op := rfl

/-- Every call of a run has its turn. -/
theorem op_registrations (ops : List Operation) :
    (s.registrations ops).map Registration.op = ops := by
  induction ops generalizing s with
  | nil => rfl
  | cons op rest ih => rw [registrations, List.map_cons, ih, registration_op]

namespace Indexed

/-- Both look-ups agree with the operations. -/
theorem lists (h : s.Indexed) : s.Lists s.operations where
  operations := rfl
  size := (List.length_map _).symm
  wires := h.wires
  lookup _ _ := h.lookup?_eq_some_iff
  codes := h.codes
  get _ _ := h.get?_eq_some_iff

/-! ## One call -/

/-- The three ways in which a call can end. -/
theorem withOperation_cases (h : s.Indexed) (op : Operation) :
    (op.code ∈ s.operations.map Operation.code ∧
        s.withOperation op = .error (.duplicateOperation s.name .code op.code)) ∨
      (op.code ∉ s.operations.map Operation.code ∧ op.wire ∈ s.operations.map Operation.wire ∧
        s.withOperation op = .error (.duplicateOperation s.name .wire op.wire)) ∨
      (op.code ∉ s.operations.map Operation.code ∧ op.wire ∉ s.operations.map Operation.wire ∧
        ∃ s', s.withOperation op = .ok s') := by
  have hcode : Entries.has s.byCode op.code = true ↔
      op.code ∈ s.operations.map Operation.code := by
    rw [Entries.has_iff, h.keys_byCode]
  have hwire : Entries.has s.byWire op.wire = true ↔
      op.wire ∈ s.operations.map Operation.wire := by
    rw [Entries.has_iff, h.keys_byWire]
  rw [← hcode, ← hwire, withOperation_eq]
  by_cases hc : Entries.has s.byCode op.code = true
  · exact .inl ⟨hc, if_pos hc⟩
  · rw [if_neg hc]
    by_cases hw : Entries.has s.byWire op.wire = true
    · exact .inr (.inl ⟨hc, hw, if_pos hw⟩)
    · exact .inr (.inr ⟨hc, hw, _, if_neg hw⟩)

/-- **One call** does what it has to. -/
theorem registration_contract (h : s.Indexed) (op : Operation) :
    (s.registration op).Contract := by
  obtain ⟨htaken, hresult⟩ | ⟨hnew, htaken, hresult⟩ | ⟨hnew, hnewWire, s', hresult⟩ :=
    h.withOperation_cases op
  · rw [registration_of_error hresult]
    refine ⟨iff_of_true rfl htaken, ?_, ?_, fun _ => rfl⟩
    · exact iff_of_false (by simp) fun hboth => hboth.1 htaken
    · exact iff_of_false (by simp) fun hboth => hboth.1 htaken
  · rw [registration_of_error hresult]
    refine ⟨iff_of_false (by simp) hnew, iff_of_true rfl ⟨hnew, htaken⟩, ?_, fun _ => rfl⟩
    exact iff_of_false (by simp) fun hboth => hboth.2 htaken
  · rw [registration_of_ok hresult]
    refine ⟨iff_of_false (by simp) hnew, ?_, iff_of_true rfl ⟨hnew, hnewWire⟩, ?_⟩
    · exact iff_of_false (by simp) fun hboth => hnewWire hboth.2
    · exact fun hrefused => absurd rfl hrefused

/-- It keeps the indexes, and adds the operation if it is accepted. -/
theorem registration_after (h : s.Indexed) (op : Operation) :
    (s.registration op).after.Indexed ∧
      (s.registration op).after.operations = s.operations ++ registered [s.registration op] := by
  cases hresult : s.withOperation op with
  | error error =>
    rw [registration_of_error hresult]
    exact ⟨h, (List.append_nil _).symm⟩
  | ok s' =>
    rw [registration_of_ok hresult]
    exact ⟨h.withOperation hresult, operations_of_withOperation hresult⟩

end Indexed

end Service

/-! ## The run -/

theorem registered_cons (t : Registration) (rest : List Registration) :
    registered (t :: rest) = registered [t] ++ registered rest := by
  rw [registered, registered, registered, ← List.map_append, ← List.filter_append,
    List.singleton_append]

namespace Service.Indexed

variable {s : Service}

/-- **A run** keeps the indexes, and lists what it started with and then
the operations whose calls succeeded. -/
theorem afterAll (h : s.Indexed) (ops : List Operation) :
    (s.afterAll ops).Indexed ∧
      (s.afterAll ops).operations = s.operations ++ registered (s.registrations ops) := by
  induction ops generalizing s with
  | nil => exact ⟨h, (List.append_nil _).symm⟩
  | cons op rest ih =>
    obtain ⟨hafter, hops⟩ := h.registration_after op
    obtain ⟨hend, hall⟩ := ih hafter
    refine ⟨hend, ?_⟩
    rw [Service.afterAll, Service.registrations, registered_cons, hall, hops, List.append_assoc]

/-- **Every call of a run** finds the operations of those before it, and
does what it has to. -/
theorem registrations (h : s.Indexed) (ops : List Operation) {past : List Registration}
    {t : Registration} {rest : List Registration} (ht : s.registrations ops = past ++ t :: rest) :
    t.before.Lists (s.operations ++ registered past) ∧ t.Contract := by
  induction ops generalizing s past with
  | nil => simp [Service.registrations] at ht
  | cons op others ih =>
    rw [Service.registrations] at ht
    cases past with
    | nil =>
      obtain ⟨rfl, -⟩ := List.cons.inj ht
      have hnone : s.operations ++ registered [] = s.operations := List.append_nil _
      rw [hnone, registration_before]
      exact ⟨h.lists, h.registration_contract op⟩
    | cons first past =>
      obtain ⟨rfl, hrest⟩ := List.cons.inj ht
      obtain ⟨hafter, hops⟩ := h.registration_after op
      rw [registered_cons, ← List.append_assoc, ← hops]
      exact ih hafter hrest

/-- **A run without refusals** is one whose names are new and distinct. -/
theorem forall_accepted_iff (h : s.Indexed) (ops : List Operation) :
    (∀ t ∈ s.registrations ops, t.result = .ok ()) ↔
      ((s.operations ++ ops).map Operation.code).Nodup ∧
        ((s.operations ++ ops).map Operation.wire).Nodup := by
  induction ops generalizing s with
  | nil =>
    rw [List.append_nil]
    exact iff_of_true (fun t ht => absurd ht List.not_mem_nil) ⟨h.codes, h.wires⟩
  | cons op rest ih =>
    have hfirst := (h.registration_contract op).accepted
    rw [registration_op, registration_before] at hfirst
    obtain ⟨hafter, hops⟩ := h.registration_after op
    have hadded : (s.registration op).result = .ok () →
        (s.registration op).after.operations ++ rest = s.operations ++ op :: rest := by
      intro haccepted
      rw [hops, registered, List.filter_singleton, haccepted, List.append_assoc]
      simp [Except.isOk, Except.toBool]
    rw [Service.registrations, List.forall_mem_cons, ih hafter]
    constructor
    · rintro ⟨haccepted, hnodup⟩
      rwa [hadded haccepted] at hnodup
    · intro hnodup
      -- the first name of the rest is none of those before it
      have hnew : ∀ name : Operation → String, ((s.operations ++ op :: rest).map name).Nodup →
          name op ∉ s.operations.map name := by
        intro name hdistinct hmem
        rw [List.map_append] at hdistinct
        exact List.disjoint_of_nodup_append hdistinct hmem (List.mem_map_of_mem List.mem_cons_self)
      have haccepted := hfirst.mpr ⟨hnew _ hnodup.1, hnew _ hnodup.2⟩
      exact ⟨haccepted, (hadded haccepted).symm ▸ hnodup⟩

end Service.Indexed

/-- **The two indexes of a service agree with its operations** throughout a
run of registrations: the service lists those that were accepted, every
call is refused for a name that is taken and for nothing else, and a list
of operations is accepted as a whole, in whatever order, exactly when its
code names are distinct and its wire names are. -/
theorem Service.registrations_contract {name doc : String} {s : Service}
    (hs : Service.new name doc = .ok s) (ops : List Operation) :
    (s.registrations ops).map Registration.op = ops ∧
      (s.afterAll ops).Lists (registered (s.registrations ops)) ∧
      (∀ past t rest, s.registrations ops = past ++ t :: rest →
        t.before.Lists (registered past) ∧ t.Contract) ∧
      ∀ others, others.Perm ops → ((∀ t ∈ s.registrations others, t.result = .ok ()) ↔
        (ops.map Operation.code).Nodup ∧ (ops.map Operation.wire).Nodup) := by
  have h : s.Indexed := (Service.Built.new hs).indexed
  have hempty : s.operations = [] := by
    obtain ⟨-, rfl⟩ := Service.new_eq_ok_iff.mp hs
    rfl
  refine ⟨op_registrations ops, ?_, fun past t rest ht => ?_, fun others hperm => ?_⟩
  · obtain ⟨hend, hall⟩ := h.afterAll ops
    rw [hempty, List.nil_append] at hall
    exact hall ▸ hend.lists
  · have hturn := h.registrations ops ht
    rwa [hempty, List.nil_append] at hturn
  · rw [h.forall_accepted_iff, hempty, List.nil_append, (hperm.map _).nodup_iff,
      (hperm.map _).nodup_iff]

namespace Sample

/-- Ends a route. -/
def stopOver : Operation := ⟨"stopOver", "Route.Stop", none, none, ""⟩

/-- Four registrations, of which the second repeats a code name and the
third a wire name. -/
def offers : List Operation :=
  [⟨"start", "Route.Start", none, none, ""⟩, ⟨"start", "Route.Begin", none, none, ""⟩,
    ⟨"begin", "Route.Start", none, none, ""⟩, stopOver]

end Sample

theorem Service.registrations_contract_transit :
    ∃ s, Service.new "Transit" "" = .ok s ∧
      ∃ first second third fourth, s.registrations Sample.offers = [first, second, third, fourth] ∧
        third.Contract ∧ third.result = .error (.duplicateOperation "Transit" .wire "Route.Start") ∧
        (s.afterAll Sample.offers).lookup? "Route.Stop" = some Sample.stopOver := by
  have hnew : Service.new "Transit" "" = .ok ⟨"Transit", "", [], []⟩ := rfl
  obtain ⟨-, hlists, hcalls, -⟩ := Service.registrations_contract hnew Sample.offers
  refine ⟨_, hnew, _, _, _, _, rfl, (hcalls [_, _] _ [_] rfl).2, rfl, ?_⟩
  exact (hlists.lookup _ _).mpr ⟨List.mem_of_getElem? (i := 1) rfl, rfl⟩

end ServiceContracts
