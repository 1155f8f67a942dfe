/-!
# Patterns

A JSON Schema says what a text looks like by a regular expression. The
ones read here are chains of anchors and of character classes, each of
which stands for one character or, with a star, for any number of them.
A text meets a pattern where some part of it matches the chain from one
end to the other (`Pattern.Finds`).
-/


namespace ServiceContracts.JsonSchema

/-- Ranges of characters, both ends included. -/
abbrev Class := List (Char × Char)

/-- Some range has the character. -/
def Class.Has (ranges : Class) (c : Char) : Prop := ∃ r ∈ ranges, r.1 ≤ c ∧ c ≤ r.2

/-- A link of the chain. -/
inductive Piece where
  /-- The beginning of the text. -/
  | start
  /-- Its end. -/
  | finish
  | one (ranges : Class)
  | many (ranges : Class)
  deriving DecidableEq

/-- A chain of them. -/
abbrev Pattern := List Piece

namespace Pattern

mutual

/-- The pattern that an expression writes, if it is one of these. -/
def ofChars : List Char → Option Pattern
  | [] => some []
  | '^' :: rest => (ofChars rest).map (.start :: ·)
  | '$' :: rest => (ofChars rest).map (.finish :: ·)
  | '[' :: rest => ofClass [] rest
  | _ => none

/-- The same inside a class, after some of its ranges. -/
def ofClass (ranges : Class) : List Char → Option Pattern
  | ']' :: '*' :: rest => (ofChars rest).map (.many ranges :: ·)
  | ']' :: rest => (ofChars rest).map (.one ranges :: ·)
  | first :: '-' :: last :: rest =>
    if first.isAlphanum && last.isAlphanum then ofClass (ranges ++ [(first, last)]) rest else none
  | c :: rest => if c.isAlphanum || c = '_' then ofClass (ranges ++ [(c, c)]) rest else none
  | [] => none

end

/-- The chain matches the first characters, which stand at the beginning of
the text or not. -/
inductive Matches : Bool → Pattern → List Char → Prop
  | nil {atStart : Bool} {cs : List Char} : Matches atStart [] cs
  | start {p : Pattern} {cs : List Char} (h : Matches true p cs) : Matches true (.start :: p) cs
  | finish {atStart : Bool} {p : Pattern} (h : Matches atStart p []) :
      Matches atStart (.finish :: p) []
  | one {atStart : Bool} {ranges : Class} {p : Pattern} {c : Char} {cs : List Char}
      (hc : ranges.Has c) (h : Matches false p cs) : Matches atStart (.one ranges :: p) (c :: cs)
  | none {atStart : Bool} {ranges : Class} {p : Pattern} {cs : List Char}
      (h : Matches atStart p cs) : Matches atStart (.many ranges :: p) cs
  | more {atStart : Bool} {ranges : Class} {p : Pattern} {c : Char} {cs : List Char}
      (hc : ranges.Has c) (h : Matches false (.many ranges :: p) cs) :
      Matches atStart (.many ranges :: p) (c :: cs)

/-- **The pattern is found in a text**, at its beginning or further on. -/
def Finds (p : Pattern) (cs : List Char) : Prop :=
  Matches true p cs ∨ ∃ before after, cs = before ++ after ∧ Matches false p after

variable {p : Pattern} {ranges : Class} {cs : List Char} {atStart : Bool}

/-- A pattern that starts at the beginning is found there or nowhere. -/
theorem finds_start_iff : Finds (.start :: p) cs ↔ Matches true p cs := by
  constructor
  · rintro (hstart | ⟨before, after, -, hlater⟩)
    · cases hstart with
      | start h => exact h
    · cases hlater
  · exact fun h => .inl (.start h)

theorem not_matches_one_nil : ¬ Matches atStart (.one ranges :: p) [] := by
  intro h
  cases h

theorem matches_one_cons_iff {c : Char} :
    Matches atStart (.one ranges :: p) (c :: cs) ↔ ranges.Has c ∧ Matches false p cs := by
  constructor
  · intro h
    cases h with
    | one hc h => exact ⟨hc, h⟩
  · rintro ⟨hc, h⟩
    exact .one hc h

/-- A class with a star up to the end takes in what is left. -/
theorem matches_many_finish_iff :
    Matches atStart [.many ranges, .finish] cs ↔ ∀ c ∈ cs, ranges.Has c := by
  induction cs generalizing atStart with
  | nil => exact ⟨fun _ => nofun, fun _ => .none (.finish .nil)⟩
  | cons c rest ih =>
    rw [List.forall_mem_cons, ← @ih false]
    constructor
    · intro h
      cases h with
      | none h => cases h
      | more hc h => exact ⟨hc, h⟩
    · rintro ⟨hc, h⟩
      exact .more hc h

end Pattern

end ServiceContracts.JsonSchema
