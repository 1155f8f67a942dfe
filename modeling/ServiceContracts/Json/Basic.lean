import ServiceContracts.Binary64.Rounding
import ServiceContracts.Entries

/-!
# JSON values

A payload, and a definition document, is a JSON value. Its objects keep the order of their members, and its
numbers are either integers that fit 64 bits, with or without a sign, or finite doubles: the two kinds are told
apart everywhere, so `1` and `1.0` are different values that may still denote the same number
(`Json.denotesSame`).
-/

namespace ServiceContracts

-- Powers are those of the core library here, whichever others are in scope.
attribute [local instance (high)] instPowNat

/-- An integer that fits 64 bits, signed or unsigned. -/
structure Json.Whole where
  val : Int
  lower : -2 ^ (63 : Nat) ≤ val
  upper : val < 2 ^ (64 : Nat)
  deriving DecidableEq

/-- A JSON number. -/
inductive Json.Number where
  | whole (n : Json.Whole)
  | double (x : Binary64.Finite)
  deriving DecidableEq

/-- A JSON value. -/
inductive Json where
  | null
  | boolean (b : Bool)
  | number (n : Json.Number)
  | string (s : String)
  | array (items : List Json)
  | object (members : List (String × Json))

instance : Inhabited Json := ⟨.null⟩

namespace Json

/-- A 64-bit signed integer, as a JSON integer. -/
def Whole.ofInt64 (n : Int64) : Whole :=
  ⟨n.toInt, n.le_toInt, Int.lt_of_lt_of_le n.toInt_lt (by decide)⟩

/-- An integer, if it fits. -/
def Whole.ofInt? (n : Int) : Option Whole :=
  if h : -2 ^ (63 : Nat) ≤ n ∧ n < 2 ^ (64 : Nat) then some ⟨n, h.1, h.2⟩ else none

/-- It is kept as it is. -/
theorem Whole.ofInt?_eq_some {n : Int} {w : Whole} (h : Whole.ofInt? n = some w) : w.val = n := by
  unfold Whole.ofInt? at h
  split at h
  · rw [← Option.some.inj h]
  · cases h

namespace Number

/-- The double nearest to the number. -/
def toDouble : Number → Binary64
  | .whole n => Binary64.ofInt n.val
  | .double x => .finite x

/-- No JSON number is out of range of the doubles. -/
theorem exists_finite_toDouble (n : Number) : ∃ x, n.toDouble = .finite x := by
  cases n with
  | whole n =>
    have hlower := n.lower
    have hupper := n.upper
    exact Binary64.exists_finite_ofInt (by omega)
  | double x => exact ⟨x, rfl⟩

/-- The number as an exact count of ticks. -/
def ticks : Number → Int
  | .whole n => n.val * Binary64.ticksPerUnit
  | .double x => x.signedTicks

end Number

/-- The kind of a value, in the words of the reports. -/
def kind : Json → String
  | .null => "null"
  | .boolean _ => "boolean"
  | .number (.whole _) => "integer"
  | .number (.double _) => "number"
  | .string _ => "string"
  | .array _ => "array"
  | .object _ => "object"

/-- The member of an object under a key; other values have no members. -/
def member? : Json → String → Option Json
  | .object members, key => Entries.get? members key
  | _, _ => none

mutual

/-- Do two values denote the same data? Numbers are compared by value and objects without regard to the
order of their members. -/
def denotesSame : Json → Json → Bool
  | .null, .null => true
  | .boolean a, .boolean b => a == b
  | .number a, .number b => a.ticks == b.ticks
  | .string a, .string b => a == b
  | .array a, .array b => itemsDenoteSame a b
  | .object a, .object b => a.length == b.length && membersDenoteSame a b
  | _, _ => false

/-- The items of two arrays, one by one. -/
def itemsDenoteSame : List Json → List Json → Bool
  | [], [] => true
  | a :: as, b :: bs => denotesSame a b && itemsDenoteSame as bs
  | _, _ => false

/-- Every member of the first object, against the member of that key in the second. -/
def membersDenoteSame : List (String × Json) → List (String × Json) → Bool
  | [], _ => true
  | (key, a) :: rest, others =>
    (match Entries.get? others key with
      | some b => denotesSame a b
      | none => false) && membersDenoteSame rest others

end

/-- Are the values pairwise different as data? -/
def allDistinct : List Json → Bool
  | [] => true
  | a :: rest => rest.all (fun b => !denotesSame a b) && allDistinct rest

end Json

end ServiceContracts
