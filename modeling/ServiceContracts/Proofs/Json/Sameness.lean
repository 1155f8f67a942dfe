import ServiceContracts.Json.Basic
import Mathlib.Data.List.Forall2
/-!
# Equality of JSON values

Values of one kind, with the same content: an integer is not the double
that it denotes, the two zeros are the same double, and objects are
compared without regard to the order of their members.
-/


namespace ServiceContracts

namespace Json

/-- Equality of numbers: of one kind, and by value. -/
def Number.same : Number → Number → Bool
  | .whole a, .whole b => a == b
  | .double x, .double y => (Binary64.finite x).same (.finite y)
  | _, _ => false

mutual

/-- **Equality of values.** -/
def same : Json → Json → Bool
  | .null, .null => true
  | .boolean a, .boolean b => a == b
  | .number a, .number b => a.same b
  | .string a, .string b => a == b
  | .array a, .array b => itemsSame a b
  | .object a, .object b => a.length == b.length && membersSame a b
  | _, _ => false

/-- The items of two arrays, one by one. -/
def itemsSame : List Json → List Json → Bool
  | [], [] => true
  | a :: as, b :: bs => a.same b && itemsSame as bs
  | _, _ => false

/-- Every member of the first object, against the member of that key in the
second. -/
def membersSame : List (String × Json) → List (String × Json) → Bool
  | [], _ => true
  | (key, a) :: rest, others =>
    (match Entries.get? others key with
      | some b => a.same b
      | none => false) && membersSame rest others

end

@[simp] theorem Number.same_self (n : Number) : n.same n = true := by
  cases n <;> simp [Number.same, Binary64.same]

theorem itemsSame_iff {items others : List Json} :
    itemsSame items others = true ↔ List.Forall₂ (fun v w => v.same w = true) items others := by
  induction items generalizing others with
  | nil => cases others <;> simp [itemsSame]
  | cons v rest ih => cases others <;> simp [itemsSame, ih]

theorem membersSame_iff {members others : List (String × Json)} :
    membersSame members others = true ↔
      ∀ e ∈ members, ∃ w, Entries.get? others e.1 = some w ∧ e.2.same w = true := by
  induction members with
  | nil => simp [membersSame]
  | cons e rest ih =>
    obtain ⟨key, v⟩ := e
    rw [membersSame, Bool.and_eq_true, ih, List.forall_mem_cons]
    refine and_congr_left fun _ => ?_
    cases Entries.get? others key <;> simp

/-- Objects are the same when they have as many members, and each of the
first is found in the second. -/
theorem same_object_iff {members others : List (String × Json)} :
    (Json.object members).same (.object others) = true ↔
      members.length = others.length ∧
        ∀ e ∈ members, ∃ w, Entries.get? others e.1 = some w ∧ e.2.same w = true := by
  rw [same, Bool.and_eq_true, beq_iff_eq, membersSame_iff]

end Json

end ServiceContracts
