import ServiceContracts.Service.Operation
import ServiceContracts.Service.Basic
/-!
# Which names are accepted

The checks of names say what is wrong with one. Here is what is right
with the others: an identifier starts with a letter and goes on with
letters, digits and underscores, and a visible name has something to see
and no control characters. Operations and services can be made under
such names, and under no others.
-/


namespace ServiceContracts.Name

/-- An identifier. -/
def IsIdentifier (value : String) : Prop :=
  match value.toList with
  | [] => False
  | c :: rest => isLetter c = true ∧ ∀ x ∈ rest, isIdentifierChar x = true

/-- A name with something to see, all on one line. -/
def IsVisible (value : String) : Prop :=
  Text.isBlank value = false ∧ ∀ c ∈ value.toList, Text.isControl c = false

theorem identifierFault?_eq_none_iff {value : String} :
    identifierFault? value = none ↔ IsIdentifier value := by
  unfold identifierFault? IsIdentifier
  cases value.toList with
  | nil => simp
  | cons c rest =>
    dsimp only
    rw [← List.all_eq_true]
    cases isLetter c <;> cases rest.all isIdentifierChar <;> simp

theorem visibleFault?_eq_none_iff {value : String} :
    visibleFault? value = none ↔ IsVisible value := by
  unfold visibleFault? IsVisible
  have hcontrol : (∀ c ∈ value.toList, Text.isControl c = false) ↔
      value.toList.any Text.isControl = false := by
    simp
  rw [hcontrol]
  cases Text.isBlank value <;> cases value.toList.any Text.isControl <;> simp

instance (value : String) : Decidable (IsIdentifier value) :=
  decidable_of_iff _ identifierFault?_eq_none_iff

instance (value : String) : Decidable (IsVisible value) :=
  decidable_of_iff _ visibleFault?_eq_none_iff

theorem checkIdentifier_eq_ok_iff {kind value : String} {u : Unit} :
    checkIdentifier kind value = .ok u ↔ IsIdentifier value := by
  rw [← identifierFault?_eq_none_iff, checkIdentifier]
  cases identifierFault? value <;> simp

theorem checkVisible_eq_ok_iff {kind value : String} {u : Unit} :
    checkVisible kind value = .ok u ↔ IsVisible value := by
  rw [← visibleFault?_eq_none_iff, checkVisible]
  cases visibleFault? value <;> simp

/-! ## Identifiers are visible -/

/-- The letters stand between `A` and `z` in the code table. -/
theorem toNat_of_isAlpha {c : Char} (h : c.isAlpha = true) : 0x41 ≤ c.toNat ∧ c.toNat ≤ 0x7A := by
  rcases (Bool.or_eq_true c.isUpper c.isLower).mp h with hupper | hlower
  · have hrange : 'A'.val ≤ c.val ∧ c.val ≤ 'Z'.val := of_decide_eq_true hupper
    have hlow : 0x41 ≤ c.toNat := UInt32.le_iff_toNat_le.mp hrange.1
    have hhigh : c.toNat ≤ 0x5A := UInt32.le_iff_toNat_le.mp hrange.2
    omega
  · have hrange := (Bool.and_eq_true _ _).mp hlower
    have hlow : 0x61 ≤ c.toNat := UInt32.le_iff_toNat_le.mp (of_decide_eq_true hrange.1)
    have hhigh : c.toNat ≤ 0x7A := UInt32.le_iff_toNat_le.mp (of_decide_eq_true hrange.2)
    omega

/-- And the digits between `0` and `9`. -/
theorem toNat_of_isDigit {c : Char} (h : c.isDigit = true) : 0x30 ≤ c.toNat ∧ c.toNat ≤ 0x39 :=
  have hrange := (Bool.and_eq_true _ _).mp h
  ⟨UInt32.le_iff_toNat_le.mp (of_decide_eq_true hrange.1),
    UInt32.le_iff_toNat_le.mp (of_decide_eq_true hrange.2)⟩

/-- A letter shows. -/
theorem isWhite_of_isLetter {c : Char} (h : isLetter c = true) : Text.isWhite c = false := by
  have hrange := toNat_of_isAlpha h
  simp [Text.isWhite, Text.inRanges, Text.whiteSpaceRanges]
  omega

theorem isControl_of_isIdentifierChar {c : Char} (h : isIdentifierChar c = true) :
    Text.isControl c = false := by
  have hrange : 0x20 ≤ c.toNat ∧ c.toNat < 0x7F := by
    simp only [isIdentifierChar, Bool.or_eq_true, decide_eq_true_eq] at h
    rcases h with halphanum | rfl
    · rcases (Bool.or_eq_true c.isAlpha c.isDigit).mp halphanum with halpha | hdigit
      · have := toNat_of_isAlpha halpha
        omega
      · have := toNat_of_isDigit hdigit
        omega
    · decide
  simp [Text.isControl]
  omega

/-- **An identifier will do as a visible name.** -/
theorem IsIdentifier.isVisible {value : String} (h : IsIdentifier value) : IsVisible value := by
  unfold IsIdentifier at h
  unfold IsVisible Text.isBlank
  cases hvalue : value.toList with
  | nil =>
    rw [hvalue] at h
    exact h.elim
  | cons c rest =>
    rw [hvalue] at h
    obtain ⟨hletter, hrest⟩ := h
    have hc : isIdentifierChar c = true := by
      have halphanum : c.isAlphanum = true :=
        (Bool.or_eq_true c.isAlpha c.isDigit).mpr (.inl hletter)
      rw [isIdentifierChar, halphanum, Bool.true_or]
    refine ⟨?_, fun x hx => ?_⟩
    · rw [List.all_cons, isWhite_of_isLetter hletter, Bool.false_and]
    · rcases List.mem_cons.mp hx with rfl | hx
      · exact isControl_of_isIdentifierChar hc
      · exact isControl_of_isIdentifierChar (hrest x hx)

/-- What keeps a name from being visible is what its fault says. -/
theorem visibleFault?_eq_some {value : String} {fault : NameFault}
    (h : visibleFault? value = some fault) :
    (fault = .empty ∧ Text.isBlank value = true) ∨
      (fault = .control ∧ ∃ c ∈ value.toList, Text.isControl c = true) := by
  unfold visibleFault? at h
  split at h
  · rename_i hblank
    exact .inl ⟨(Option.some.inj h).symm, hblank⟩
  · split at h
    · rename_i hcontrol
      exact .inr ⟨(Option.some.inj h).symm, List.any_eq_true.mp hcontrol⟩
    · cases h

end ServiceContracts.Name

namespace ServiceContracts

/-- An operation can be made under an identifier and a visible name. -/
theorem Operation.build_eq_ok_iff {code doc : String} {wire : Option String}
    {input output : Option Schema} {op : Operation} :
    Operation.build code wire input output doc = .ok op ↔
      Name.IsIdentifier code ∧ Name.IsVisible (wire.getD code) ∧
        op = ⟨code, wire.getD code, input, output, doc⟩ := by
  have hcode : Name.checkIdentifier "operation code name" code = .ok () ↔
      Name.IsIdentifier code := Name.checkIdentifier_eq_ok_iff
  have hwire : Name.checkVisible "operation wire name" (wire.getD code) = .ok () ↔
      Name.IsVisible (wire.getD code) := Name.checkVisible_eq_ok_iff
  rw [← hcode, ← hwire, Operation.build]
  cases Name.checkIdentifier "operation code name" code with
  | error e => simp [bind, Except.bind]
  | ok u =>
    cases hvisible : Name.checkVisible "operation wire name" (wire.getD code) with
    | error e => simp [bind, Except.bind, hvisible]
    | ok u => simp [bind, Except.bind, pure, Except.pure, hvisible, eq_comm]

/-- And a service under a visible name. -/
theorem Service.new_eq_ok_iff {name doc : String} {s : Service} :
    Service.new name doc = .ok s ↔ Name.IsVisible name ∧ s = ⟨name, doc, [], []⟩ := by
  have hname : Name.checkVisible "service name" name = .ok () ↔ Name.IsVisible name :=
    Name.checkVisible_eq_ok_iff
  rw [← hname, Service.new]
  cases Name.checkVisible "service name" name with
  | error e => simp [bind, Except.bind]
  | ok u => simp [bind, Except.bind, pure, Except.pure, eq_comm]

end ServiceContracts
