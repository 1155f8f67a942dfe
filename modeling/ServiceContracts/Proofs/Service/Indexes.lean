import ServiceContracts.Service.Registry
import ServiceContracts.Proofs.Service.Names
import Mathlib.Data.List.Nodup
/-!
# What the names of a registry lead to

A service is looked up by its name, and its operations by two names each:
the wire name goes through an index of places, the code name does not.
`Service.Indexed` is what registration keeps true of the two indexes, and
from it each look-up finds exactly the operation registered under the
name (`lookup?_eq_some_iff`, `get?_eq_some_iff`). The registry's own
names are the same with one index (`Registry.Indexed`).

Nothing about schemas is used here, so the operations may be any.
-/


namespace ServiceContracts

/-! ## The operations of a service -/

/-- The services that registration makes. -/
inductive Service.Built : Service → Prop
  | new {name doc : String} {s : Service} (h : Service.new name doc = .ok s) : Built s
  | register {s : Service} (hs : Built s) (op : Operation) : Built (s.register op).1

/-- **The two indexes of a service** list its operations, in order, under
names that do not repeat. -/
structure Service.Indexed (s : Service) : Prop where
  byCode : s.byCode = s.operations.map fun op => (op.code, op)
  byWire : s.byWire = s.operations.mapIdx fun i op => (op.wire, i)
  codes : (s.operations.map Operation.code).Nodup
  wires : (s.operations.map Operation.wire).Nodup

namespace Service

variable {s s' : Service} {op : Operation} {name : String}

/-- What becomes of a registration. -/
theorem withOperation_eq :
    s.withOperation op =
      if Entries.has s.byCode op.code then .error (.duplicateOperation s.name .code op.code)
      else if Entries.has s.byWire op.wire then .error (.duplicateOperation s.name .wire op.wire)
      else .ok { s with
        byCode := Entries.set s.byCode op.code op
        byWire := Entries.set s.byWire op.wire s.size } := by
  rw [withOperation, register]
  split
  · rfl
  · split <;> rfl

/-- An operation that is taken is in the service afterwards. -/
theorem register_of_ok (h : s.withOperation op = .ok s') : s.register op = (s', .ok ()) := by
  rw [withOperation] at h
  cases hresult : (s.register op).2 with
  | error error => rw [hresult] at h; cases h
  | ok _ =>
    rw [hresult] at h
    exact Prod.ext (Except.ok.inj h) hresult

/-- And one that is refused leaves the service as it was. -/
theorem register_of_error {error : RegistryError} (h : s.withOperation op = .error error) :
    s.register op = (s, .error error) := by
  rw [withOperation_eq] at h
  rw [register]
  split at h
  · rw [if_pos ‹_›, Except.error.inj h]
  · split at h
    · rw [if_neg ‹_›, if_pos ‹_›, Except.error.inj h]
    · cases h

/-- Registering succeeds when both names are free, and then extends both
indexes. -/
theorem withOperation_eq_ok_iff :
    s.withOperation op = .ok s' ↔
      op.code ∉ Entries.keys s.byCode ∧ op.wire ∉ Entries.keys s.byWire ∧
        s' = { s with
          byCode := Entries.set s.byCode op.code op
          byWire := Entries.set s.byWire op.wire s.size } := by
  rw [withOperation_eq]
  by_cases hcode : Entries.has s.byCode op.code = true
  · simp [hcode, Entries.has_iff.mp hcode]
  by_cases hwire : Entries.has s.byWire op.wire = true
  · simp [hcode, hwire, Entries.has_iff.mp hwire]
  rw [if_neg hcode, if_neg hwire]
  rw [Entries.has_iff] at hcode hwire
  constructor
  · rintro ⟨⟩
    exact ⟨hcode, hwire, rfl⟩
  · rintro ⟨-, -, rfl⟩
    rfl

/-- An operation that is registered goes last. -/
theorem operations_of_withOperation (h : s.withOperation op = .ok s') :
    s'.operations = s.operations ++ [op] := by
  obtain ⟨hcode, -, rfl⟩ := withOperation_eq_ok_iff.mp h
  simp [operations, Entries.set_of_notMem hcode]

namespace Indexed

theorem keys_byWire (h : s.Indexed) : Entries.keys s.byWire = s.operations.map Operation.wire := by
  rw [h.byWire, Entries.keys, List.mapIdx_eq_zipIdx_map, List.map_map]
  refine Eq.trans ?_ (congrArg (List.map Operation.wire) (List.zipIdx_map_fst 0 s.operations))
  rw [List.map_map]
  rfl

theorem keys_byCode (h : s.Indexed) : Entries.keys s.byCode = s.operations.map Operation.code := by
  rw [h.byCode, Entries.keys_map]

/-- An operation that is taken goes last in both indexes. -/
theorem withOperation (h : s.Indexed) (hs' : s.withOperation op = .ok s') : s'.Indexed := by
  obtain ⟨hcode, hwire, rfl⟩ := withOperation_eq_ok_iff.mp hs'
  have hsize : s.operations.length = s.size := List.length_map _
  rw [Entries.set_of_notMem hcode, Entries.set_of_notMem hwire]
  rw [h.keys_byCode] at hcode
  rw [h.keys_byWire] at hwire
  have hops : operations { s with
      byCode := s.byCode ++ [(op.code, op)], byWire := s.byWire ++ [(op.wire, s.size)] } =
      s.operations ++ [op] := by
    simp [operations]
  -- the place of the new operation is the number of those before it
  refine ⟨?_, ?_, ?_, ?_⟩ <;> rw [hops]
  · rw [List.map_append, ← h.byCode]
    rfl
  · rw [List.mapIdx_append, ← h.byWire]
    simp [hsize]
  · rw [List.map_append]
    exact List.nodup_append.mpr ⟨h.codes, List.nodup_singleton _, by simpa using hcode⟩
  · rw [List.map_append]
    exact List.nodup_append.mpr ⟨h.wires, List.nodup_singleton _, by simpa using hwire⟩

/-- **Registration keeps the indexes**, whether the operation is taken or
refused. -/
theorem register (h : s.Indexed) (op : Operation) : (s.register op).1.Indexed := by
  cases hresult : s.withOperation op with
  | error error => rwa [register_of_error hresult]
  | ok s' =>
    rw [register_of_ok hresult]
    exact h.withOperation hresult

/-- **By code name** the operation registered under it is found. -/
theorem get?_eq_some_iff (h : s.Indexed) :
    s.get? name = some op ↔ op ∈ s.operations ∧ op.code = name := by
  have hnodup : (Entries.keys s.byCode).Nodup := h.keys_byCode ▸ h.codes
  rw [get?, Entries.get?_eq_some_iff hnodup, h.byCode]
  simp

/-- **By wire name** too, though the index holds its place only. -/
theorem lookup?_eq_some_iff (h : s.Indexed) :
    s.lookup? name = some op ↔ op ∈ s.operations ∧ op.wire = name := by
  have hnodup : (Entries.keys s.byWire).Nodup := h.keys_byWire ▸ h.wires
  -- the place that the index holds is the place in the list
  have hplace : ∀ i, Entries.get? s.byWire name = some i ↔
      ∃ op, s.operations[i]? = some op ∧ op.wire = name := by
    intro i
    rw [Entries.get?_eq_some_iff hnodup, h.byWire, List.mem_iff_getElem?]
    constructor
    · rintro ⟨j, hj⟩
      rw [List.getElem?_mapIdx] at hj
      obtain ⟨op, hop, heq⟩ := Option.map_eq_some_iff.mp hj
      obtain ⟨rfl, rfl⟩ := Prod.mk.inj heq
      exact ⟨op, hop, rfl⟩
    · rintro ⟨op, hop, rfl⟩
      exact ⟨i, by rw [List.getElem?_mapIdx, hop]; rfl⟩
  rw [lookup?, Option.bind_eq_some_iff]
  constructor
  · rintro ⟨i, hi, hop⟩
    obtain ⟨op', hop', hwire⟩ := (hplace i).mp hi
    obtain rfl : op' = op := Option.some.inj (hop'.symm.trans hop)
    exact ⟨List.mem_of_getElem? hop, hwire⟩
  · rintro ⟨hmem, hwire⟩
    obtain ⟨i, hop⟩ := List.mem_iff_getElem?.mp hmem
    exact ⟨i, (hplace i).mpr ⟨op, hop, hwire⟩, hop⟩

end Indexed

/-- **Every service that registration makes is indexed.** -/
theorem Built.indexed (hs : s.Built) : s.Indexed := by
  induction hs with
  | new h =>
    obtain ⟨-, rfl⟩ := Service.new_eq_ok_iff.mp h
    exact ⟨rfl, rfl, List.nodup_nil, List.nodup_nil⟩
  | register _ op ih => exact ih.register op

/-- **A service with further operations**, added by registering them in
order. -/
structure Extends (s : Service) (added : List Operation) (s' : Service) : Prop where
  name : s'.name = s.name
  doc : s'.doc = s.doc
  operations : s'.operations = s.operations ++ added
  codes : Entries.keys s'.byCode = Entries.keys s.byCode ++ added.map Operation.code
  wires : Entries.keys s'.byWire = Entries.keys s.byWire ++ added.map Operation.wire
  built : s.Built → s'.Built

namespace Extends

theorem refl (s : Service) : s.Extends [] s := by
  refine ⟨rfl, rfl, ?_, ?_, ?_, id⟩ <;> simp

theorem of_withOperation (h : s.withOperation op = .ok s') : s.Extends [op] s' := by
  have hoperations := operations_of_withOperation h
  have hafter : (s.register op).1 = s' := congrArg Prod.fst (register_of_ok h)
  have hbuilt : s.Built → s'.Built := fun hs => hafter ▸ hs.register op
  obtain ⟨hcode, hwire, rfl⟩ := withOperation_eq_ok_iff.mp h
  exact ⟨rfl, rfl, hoperations, Entries.keys_set_of_notMem hcode _,
    Entries.keys_set_of_notMem hwire _, hbuilt⟩

theorem trans {added more : List Operation} {s'' : Service} (h : s.Extends added s')
    (h' : s'.Extends more s'') : s.Extends (added ++ more) s'' where
  name := h'.name.trans h.name
  doc := h'.doc.trans h.doc
  operations := by rw [h'.operations, h.operations, List.append_assoc]
  codes := by rw [h'.codes, h.codes, List.map_append, List.append_assoc]
  wires := by rw [h'.wires, h.wires, List.map_append, List.append_assoc]
  built hs := h'.built (h.built hs)

end Extends

end Service

/-! ## The services of a registry -/

/-- The registries that registration and sealing make. -/
inductive Registry.Built : Registry → Prop
  | empty : Built Registry.empty
  | register {r : Registry} {s : Service} (hr : Built r) (hs : s.Built) : Built (r.register s).1
  | sealed {r : Registry} (hr : Built r) : Built r.sealed

/-- **The index of a registry** lists its services, in order, under names
that do not repeat; their own indexes are right too. -/
structure Registry.Indexed (r : Registry) : Prop where
  byName : r.byName = r.services.map fun s => (s.name, s)
  names : (r.services.map Service.name).Nodup
  services : ∀ s ∈ r.services, s.Indexed

/-- An operation that a registry has for a service name. -/
def Registry.Offers (r : Registry) (service : String) (op : Operation) : Prop :=
  ∃ s ∈ r.services, s.name = service ∧ op ∈ s.operations

namespace Registry

variable {r r' : Registry} {s : Service} {op : Operation} {name wire : String}

/-- What becomes of a registration. -/
theorem withService_eq :
    r.withService s =
      if r.isSealed then .error .isSealed
      else if Entries.has r.byName s.name then .error (.duplicateService s.name)
      else .ok { r with byName := Entries.set r.byName s.name s } := by
  rw [withService, register]
  split
  · rfl
  · split <;> rfl

/-- A service that is taken is in the registry afterwards. -/
theorem register_of_ok (h : r.withService s = .ok r') : r.register s = (r', .ok ()) := by
  rw [withService] at h
  cases hresult : (r.register s).2 with
  | error error => rw [hresult] at h; cases h
  | ok _ =>
    rw [hresult] at h
    exact Prod.ext (Except.ok.inj h) hresult

/-- And one that is refused leaves the registry as it was. -/
theorem register_of_error {error : RegistryError} (h : r.withService s = .error error) :
    r.register s = (r, .error error) := by
  rw [withService_eq] at h
  rw [register]
  split at h
  · rw [if_pos ‹_›, Except.error.inj h]
  · split at h
    · rw [if_neg ‹_›, if_pos ‹_›, Except.error.inj h]
    · cases h

/-- Registering succeeds before sealing, for a free name. -/
theorem withService_eq_ok_iff :
    r.withService s = .ok r' ↔
      r.isSealed = false ∧ s.name ∉ Entries.keys r.byName ∧
        r' = { r with byName := Entries.set r.byName s.name s } := by
  rw [withService_eq]
  by_cases hsealed : r.isSealed = true
  · simp [hsealed]
  rw [if_neg hsealed]
  by_cases hname : Entries.has r.byName s.name = true
  · simp [hname, Entries.has_iff.mp hname]
  rw [if_neg hname]
  rw [Entries.has_iff] at hname
  constructor
  · rintro ⟨⟩
    exact ⟨by simpa using hsealed, hname, rfl⟩
  · rintro ⟨-, -, rfl⟩
    rfl

/-- A service that is registered goes last. -/
theorem services_of_withService (h : r.withService s = .ok r') : r'.services = r.services ++ [s] := by
  obtain ⟨-, hname, rfl⟩ := withService_eq_ok_iff.mp h
  simp [services, Entries.set_of_notMem hname]

namespace Indexed

theorem keys_byName (h : r.Indexed) : Entries.keys r.byName = r.services.map Service.name := by
  rw [h.byName, Entries.keys_map]

/-- A service that is taken goes last in the index. -/
theorem withService (h : r.Indexed) (hs : s.Indexed) (hr' : r.withService s = .ok r') :
    r'.Indexed := by
  obtain ⟨-, hname, rfl⟩ := withService_eq_ok_iff.mp hr'
  rw [Entries.set_of_notMem hname]
  rw [h.keys_byName] at hname
  have hservices : Registry.services { r with byName := r.byName ++ [(s.name, s)] } =
      r.services ++ [s] := by
    simp [Registry.services]
  refine ⟨?_, ?_, ?_⟩ <;> rw [hservices]
  · rw [List.map_append, ← h.byName]
    rfl
  · rw [List.map_append]
    exact List.nodup_append.mpr ⟨h.names, List.nodup_singleton _, by simpa using hname⟩
  · intro t ht
    rcases List.mem_append.mp ht with ht | ht
    · exact h.services t ht
    · exact List.mem_singleton.mp ht ▸ hs

/-- **Registration keeps the index**, whether the service is taken or
refused. -/
theorem register (h : r.Indexed) (hs : s.Indexed) : (r.register s).1.Indexed := by
  cases hresult : r.withService s with
  | error error => rwa [register_of_error hresult]
  | ok r' =>
    rw [register_of_ok hresult]
    exact h.withService hs hresult

/-- By its name a service is found. -/
theorem service?_eq_some_iff (h : r.Indexed) :
    r.service? name = some s ↔ s ∈ r.services ∧ s.name = name := by
  have hnodup : (Entries.keys r.byName).Nodup := h.keys_byName ▸ h.names
  rw [service?, Entries.get?_eq_some_iff hnodup, h.byName]
  simp

theorem service?_eq_none_iff (h : r.Indexed) :
    r.service? name = none ↔ ∀ s ∈ r.services, s.name ≠ name := by
  rw [service?, Entries.get?_eq_none_iff, h.keys_byName]
  simp

/-- **A request resolves** to the operation that the registry offers under
its two names. -/
theorem resolve_eq_ok_iff (h : r.Indexed) :
    r.resolve name wire = .ok op ↔ r.Offers name op ∧ op.wire = wire := by
  unfold resolve Offers
  cases hs : r.service? name with
  | none =>
    have hnone := h.service?_eq_none_iff.mp hs
    constructor
    · nofun
    · rintro ⟨⟨s, hmem, hname, -⟩, -⟩
      exact absurd hname (hnone s hmem)
  | some s =>
    obtain ⟨hmem, hname⟩ := h.service?_eq_some_iff.mp hs
    have hlookup : (∃ t ∈ r.services, t.name = name ∧ op ∈ t.operations) ∧ op.wire = wire ↔
        s.lookup? wire = some op := by
      rw [(h.services s hmem).lookup?_eq_some_iff]
      constructor
      · rintro ⟨⟨t, ht, htname, hop⟩, hwire⟩
        have hfound := h.service?_eq_some_iff.mpr ⟨ht, htname⟩
        obtain rfl : s = t := Option.some.inj (hs.symm.trans hfound)
        exact ⟨hop, hwire⟩
      · rintro ⟨hop, hwire⟩
        exact ⟨⟨s, hmem, hname, hop⟩, hwire⟩
    rw [hlookup]
    cases hop : s.lookup? wire <;> simp [hop]

/-- Or else one of the two names leads nowhere. -/
theorem resolve_eq_error_iff (h : r.Indexed) {e : ResolveError} :
    r.resolve name wire = .error e ↔
      (e = .unknownService name ∧ ∀ s ∈ r.services, s.name ≠ name) ∨
        (e = .unknownOperation name wire ∧
          ∃ s ∈ r.services, s.name = name ∧ ∀ op ∈ s.operations, op.wire ≠ wire) := by
  unfold resolve
  cases hs : r.service? name with
  | none =>
    have hnone := h.service?_eq_none_iff.mp hs
    constructor
    · rintro ⟨⟩
      exact .inl ⟨rfl, hnone⟩
    · rintro (⟨rfl, -⟩ | ⟨-, s, hmem, hname, -⟩)
      · rfl
      · exact absurd hname (hnone s hmem)
  | some s =>
    obtain ⟨hmem, hname⟩ := h.service?_eq_some_iff.mp hs
    have hfound : ∀ op, s.lookup? wire = some op ↔ op ∈ s.operations ∧ op.wire = wire :=
      fun op => (h.services s hmem).lookup?_eq_some_iff
    cases hop : s.lookup? wire with
    | none =>
      have hnone : ∀ op ∈ s.operations, op.wire ≠ wire := by
        intro op hmem hwire
        have hsome := (hfound op).mpr ⟨hmem, hwire⟩
        rw [hop] at hsome
        cases hsome
      simp only [hop]
      constructor
      · rintro ⟨⟩
        exact .inr ⟨rfl, s, hmem, hname, hnone⟩
      · rintro (⟨rfl, habsent⟩ | ⟨rfl, -⟩)
        · exact absurd hname (habsent s hmem)
        · rfl
    | some op =>
      -- both names lead somewhere, so neither error can be right
      obtain ⟨hmemOp, hwire⟩ := (hfound op).mp hop
      simp only [hop, reduceCtorEq, false_iff, not_or, not_and]
      refine ⟨fun _ habsent => habsent s hmem hname, ?_⟩
      rintro - ⟨t, ht, htname, hnone⟩
      have heq := h.service?_eq_some_iff.mpr ⟨ht, htname⟩
      obtain rfl : s = t := Option.some.inj (hs.symm.trans heq)
      exact hnone op hmemOp hwire

end Indexed

/-- **A registry with further services**, added by registering them in
order. -/
structure Extends (r : Registry) (added : List Service) (r' : Registry) : Prop where
  services : r'.services = r.services ++ added
  names : Entries.keys r'.byName = Entries.keys r.byName ++ added.map Service.name
  isSealed : r'.isSealed = r.isSealed
  built : r.Built → r'.Built

namespace Extends

theorem refl (r : Registry) : r.Extends [] r := by
  refine ⟨?_, ?_, rfl, id⟩ <;> simp

theorem of_withService (hs : s.Built) (h : r.withService s = .ok r') : r.Extends [s] r' := by
  have hservices := services_of_withService h
  have hafter : (r.register s).1 = r' := congrArg Prod.fst (register_of_ok h)
  have hbuilt : r.Built → r'.Built := fun hr => hafter ▸ hr.register hs
  obtain ⟨-, hname, rfl⟩ := withService_eq_ok_iff.mp h
  exact ⟨hservices, Entries.keys_set_of_notMem hname _, rfl, hbuilt⟩

theorem trans {added more : List Service} {r'' : Registry} (h : r.Extends added r')
    (h' : r'.Extends more r'') : r.Extends (added ++ more) r'' where
  services := by rw [h'.services, h.services, List.append_assoc]
  names := by rw [h'.names, h.names, List.map_append, List.append_assoc]
  isSealed := h'.isSealed.trans h.isSealed
  built hr := h'.built (h.built hr)

end Extends

/-- **Every registry that registration makes is indexed**, sealed or not. -/
theorem Built.indexed (hr : r.Built) : r.Indexed := by
  induction hr with
  | empty => exact ⟨rfl, List.nodup_nil, nofun⟩
  | register _ hs ih => exact ih.register hs.indexed
  | sealed _ ih => exact ⟨ih.byName, ih.names, ih.services⟩

end Registry

end ServiceContracts
