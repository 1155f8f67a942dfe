/-!
# Offenses

What is wrong with a payload or an instance is a list of offenses, each a place and a reason. A place is the
way from the root, field by field and index by index, so the offenses of a part become those of the whole by
putting one step in front (`Checked.under`), and checking two parts joins their offenses (`Checked.both`).
Places become text only in a report, as a `FieldError`.
-/

namespace ServiceContracts

/-- One step from a value into one of its parts. -/
inductive Step where
  | field (name : String)
  | index (i : Nat)
  deriving DecidableEq

/-- The way from the root to a value. -/
abbrev Place := List Step

/-- Adds a step to the text of a place: indices in brackets, fields after a point. -/
def Step.addTo (place : String) : Step → String
  | .field name => if place.isEmpty then name else place ++ "." ++ name
  | .index i => place ++ "[" ++ toString i ++ "]"

/-- The text of a place. The root is the dollar sign. -/
def Place.text (place : Place) : String :=
  match place with
  | [] => "$"
  | steps => steps.foldl Step.addTo ""

/-- What can be wrong at a place. -/
inductive Reason where
  | missingField
  | unknownField
  | integerOutOfRange
  | numberNotFinite
  /-- Something else was found there than the type admits. -/
  | mismatch (expected found : String)
  deriving DecidableEq

/-- The reason in words. -/
def Reason.message : Reason → String
  | .missingField => "missing required field"
  | .unknownField => "unknown field"
  | .integerOutOfRange => "integer out of range"
  | .numberNotFinite => "number must be finite"
  | .mismatch expected found => "expected " ++ expected ++ ", found " ++ found

/-- Something wrong at a place. -/
structure Offense where
  place : Place
  reason : Reason
  deriving DecidableEq

/-- The same offense, seen from the value that has this one under the step. -/
def Offense.under (step : Step) (o : Offense) : Offense := { o with place := step :: o.place }

/-! ## Results of a check -/

/-- A result, or the offenses that stand in its way. -/
abbrev Checked (α : Type) := Except (List Offense) α

namespace Checked

variable {α β : Type}

/-- A single offense at the value itself. -/
def refuse (reason : Reason) : Checked α := .error [⟨[], reason⟩]

/-- The result of a part, its offenses placed under the step that leads there. -/
def under (step : Step) : Checked α → Checked α
  | .ok a => .ok a
  | .error offenses => .error (offenses.map (Offense.under step))

/-- Two results, or the offenses of both. -/
def both : Checked α → Checked β → Checked (α × β)
  | .ok a, .ok b => .ok (a, b)
  | .ok _, .error offenses => .error offenses
  | .error offenses, .ok _ => .error offenses
  | .error offenses, .error more => .error (offenses ++ more)

/-- All the results, or the offenses of all. -/
def all : List (Checked α) → Checked (List α)
  | [] => .ok []
  | first :: rest => (both first (all rest)).map fun p => p.1 :: p.2

/-- Nothing, unless there are offenses. -/
def ofOffenses : List Offense → Checked Unit
  | [] => .ok ()
  | offenses => .error offenses

/-- The offenses of a result. -/
def offenses : Checked α → List Offense
  | .ok _ => []
  | .error offenses => offenses

@[simp] theorem offenses_under (step : Step) (c : Checked α) :
    offenses (c.under step) = (offenses c).map (Offense.under step) := by
  cases c <;> rfl

@[simp] theorem offenses_both (a : Checked α) (b : Checked β) :
    offenses (both a b) = offenses a ++ offenses b := by
  cases a <;> cases b <;> simp [both, offenses]

@[simp] theorem offenses_map (f : α → β) (c : Checked α) : offenses (c.map f) = offenses c := by
  cases c <;> rfl

@[simp] theorem offenses_all (cs : List (Checked α)) :
    offenses (all cs) = cs.flatMap offenses := by
  induction cs with
  | nil => rfl
  | cons c rest ih => simp [all, ih]

@[simp] theorem offenses_ofOffenses (os : List Offense) : offenses (ofOffenses os) = os := by
  cases os <;> rfl

/-! ### When there is a result -/

@[simp] theorem under_eq_ok_iff {step : Step} {c : Checked α} {a : α} :
    c.under step = .ok a ↔ c = .ok a := by
  cases c <;> simp [under]

@[simp] theorem refuse_ne_ok (reason : Reason) (a : α) : (refuse reason : Checked α) ≠ .ok a := by
  simp [refuse]

theorem both_eq_ok_iff {a : Checked α} {b : Checked β} {p : α × β} :
    both a b = .ok p ↔ a = .ok p.1 ∧ b = .ok p.2 := by
  obtain ⟨x, y⟩ := p
  cases a <;> cases b <;> simp [both]

theorem map_eq_ok_iff {f : α → β} {c : Checked α} {b : β} :
    c.map f = .ok b ↔ ∃ a, c = .ok a ∧ b = f a := by
  cases c <;> simp [Except.map, eq_comm]

theorem ofOffenses_eq_ok_iff {os : List Offense} {u : Unit} : ofOffenses os = .ok u ↔ os = [] := by
  cases os <;> simp [ofOffenses]

/-- All results are there exactly when each of them is. -/
theorem all_eq_ok_iff {cs : List (Checked α)} {as : List α} :
    all cs = .ok as ↔ cs = as.map .ok := by
  induction cs generalizing as with
  | nil => cases as <;> simp [all]
  | cons c rest ih =>
    simp only [all, map_eq_ok_iff, both_eq_ok_iff, ih]
    constructor
    · rintro ⟨⟨a, bs⟩, ⟨hc, hrest⟩, rfl⟩
      simp [hc, hrest]
    · intro h
      cases as with
      | nil => simp at h
      | cons a bs => exact ⟨(a, bs), by simpa using h, rfl⟩

/-- Where every item has its result, it does not matter which index it was checked at. -/
theorem all_mapIdx_eq_ok_iff {γ : Type} {check : γ → Checked α} {items : List γ} {as : List α} :
    all (items.mapIdx fun i item => (check item).under (.index i)) = .ok as ↔
      items.map check = as.map .ok := by
  rw [all_eq_ok_iff, List.ext_getElem_iff, List.ext_getElem_iff]
  simp only [List.length_mapIdx, List.length_map, List.getElem_mapIdx, List.getElem_map,
    under_eq_ok_iff]

end Checked

/-! ## Reports -/

/-- An offense as it is reported: the text of its place and the reason in words. -/
structure FieldError where
  field : String
  reason : String
  deriving DecidableEq

/-- The line of a reported error. -/
def FieldError.text (e : FieldError) : String := e.field ++ ": " ++ e.reason

/-- Reported errors, in the order in which they were found. -/
abbrev FieldErrors := List FieldError

/-- All lines in one. -/
def FieldErrors.text (errors : FieldErrors) : String := "; ".intercalate (errors.map FieldError.text)

/-- The first error reported for a field. -/
def FieldErrors.get? (errors : FieldErrors) (field : String) : Option FieldError :=
  errors.find? fun e => e.field = field

/-- The report of an offense. -/
def Offense.report (o : Offense) : FieldError := ⟨o.place.text, o.reason.message⟩

end ServiceContracts
