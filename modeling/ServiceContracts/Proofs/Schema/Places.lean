import ServiceContracts.Schema.Offense
import Mathlib.Data.List.Basic
/-!
# The text of a place

A place is a list of steps, and a report has one text for it
(`Place.text`). The text is spelled as a reader would expect
(`Place.text_eq_spelled`): the first name, and then each step behind its own
mark. Where no name has a mark in it, or is the sign of the root, the text
can be taken apart in one way only (`Place.eq_of_spelled_eq`): a name ends
at the next mark and an index at its bracket.
-/


namespace ServiceContracts

/-! ## Spelling -/

/-- A step behind another: a field after a point, an index in brackets. -/
def Step.suffix : Step → String
  | .field name => "." ++ name
  | .index i => "[" ++ toString i ++ "]"

/-- Steps behind another. -/
def Place.suffix : Place → String
  | [] => ""
  | step :: rest => step.suffix ++ Place.suffix rest

/-- A place as it is spelled: the root as the dollar sign, and else the first
name alone, with the other steps behind it. -/
def Place.spelled : Place → String
  | [] => "$"
  | .field name :: rest => name ++ Place.suffix rest
  | place => place.suffix

/-- A name that can stand in a path: without the marks of steps, and not the
sign of the root. -/
def PlainName (name : String) : Prop := '.' ∉ name.toList ∧ '[' ∉ name.toList ∧ name ≠ "$"

instance (name : String) : Decidable (PlainName name) :=
  inferInstanceAs (Decidable (_ ∧ _ ∧ _))

/-- Every name of the place can stand in a path. -/
def Place.Plain (place : Place) : Prop := ∀ name, Step.field name ∈ place → PlainName name

/-- The way into an object: a first name, which is there unless nothing
comes after it. -/
def Place.IntoObject (place : Place) : Prop :=
  place = [] ∨ ∃ name rest, place = .field name :: rest ∧ (name = "" → rest = [])

theorem Step.addTo_of_ne_empty {path : String} (h : path ≠ "") (step : Step) :
    step.addTo path = path ++ step.suffix := by
  cases step <;> simp [Step.addTo, Step.suffix, h, String.append_assoc]

theorem Place.foldl_addTo {path : String} (h : path ≠ "") (place : Place) :
    place.foldl Step.addTo path = path ++ place.suffix := by
  induction place generalizing path with
  | nil => simp [Place.suffix]
  | cons step rest ih =>
    have hnext : path ++ step.suffix ≠ "" := by simp [String.append_eq_empty_iff, h]
    rw [List.foldl_cons, Step.addTo_of_ne_empty h, ih hnext, Place.suffix, String.append_assoc]

/-- **The text of a place in an object is its spelling.** -/
theorem Place.text_eq_spelled {place : Place} (h : place.IntoObject) :
    place.text = place.spelled := by
  obtain rfl | ⟨name, rest, rfl, hname⟩ := h
  · rfl
  · have htext : Place.text (.field name :: rest) = rest.foldl Step.addTo name := by
      simp [Place.text, Step.addTo]
    rw [htext, Place.spelled]
    by_cases hempty : name = ""
    · rw [hname hempty, List.foldl_nil, Place.suffix, String.append_empty]
    · exact Place.foldl_addTo hempty rest

/-! ## Taking a path apart -/

/-- **What stands before the first mark is told from what follows.** -/
theorem eq_of_append_eq_of_mark (mark : Char → Bool) {l l' r r' : List Char}
    (hl : ∀ c ∈ l, mark c = false) (hl' : ∀ c ∈ l', mark c = false)
    (hr : ∀ c ∈ r.head?, mark c = true) (hr' : ∀ c ∈ r'.head?, mark c = true)
    (h : l ++ r = l' ++ r') : l = l' ∧ r = r' := by
  have hprefix : ∀ l r : List Char, (∀ c ∈ l, mark c = false) → (∀ c ∈ r.head?, mark c = true) →
      (l ++ r).takeWhile (fun c => !mark c) = l := by
    intro l r hl hr
    rw [List.takeWhile_append_of_pos (by simpa using hl)]
    cases r with
    | nil => simp
    | cons c r =>
      have hc : mark c = true := hr c (by simp)
      simp [hc]
  have hparts : l = l' := by rw [← hprefix l r hl hr, h, hprefix l' r' hl' hr']
  subst hparts
  exact ⟨rfl, List.append_cancel_left h⟩

/-- The marks that end a name. -/
def isMark (c : Char) : Bool := c == '.' || c == '['

theorem PlainName.isMark_eq_false {name : String} (h : PlainName name) :
    ∀ c ∈ name.toList, isMark c = false := by
  intro c hc
  have hpoint : c ≠ '.' := fun heq => h.1 (heq ▸ hc)
  have hbracket : c ≠ '[' := fun heq => h.2.1 (heq ▸ hc)
  simp [isMark, hpoint, hbracket]

/-- What stands behind another step begins with a mark. -/
theorem Place.isMark_head_suffix (place : Place) :
    ∀ c ∈ place.suffix.toList.head?, isMark c = true := by
  cases place with
  | nil => simp [Place.suffix]
  | cons step rest => cases step <;> simp [Place.suffix, Step.suffix, isMark]

/-- **A name is told from the steps behind it.** -/
theorem PlainName.eq_of_append_eq {name other : String} (h : PlainName name) (h' : PlainName other)
    {p q : Place} (htext : name ++ p.suffix = other ++ q.suffix) :
    name = other ∧ p.suffix = q.suffix := by
  rw [← String.toList_inj, String.toList_append, String.toList_append] at htext
  obtain ⟨hname, hrest⟩ := eq_of_append_eq_of_mark isMark h.isMark_eq_false h'.isMark_eq_false
    p.isMark_head_suffix q.isMark_head_suffix htext
  exact ⟨String.toList_inj.mp hname, String.toList_inj.mp hrest⟩

/-- **An index is told from what stands behind its bracket.** -/
theorem eq_of_index_append_eq {i j : Nat} {r r' : String}
    (h : toString i ++ ("]" ++ r) = toString j ++ ("]" ++ r')) : i = j ∧ r = r' := by
  have hdigits : ∀ n : Nat, ∀ c ∈ Nat.toDigits 10 n, (c == ']') = false := by
    intro n c hc
    have hdigit : c.isDigit = true := Nat.isDigit_of_mem_toDigits (by decide) (by decide) hc
    refine beq_eq_false_iff_ne.mpr fun heq => ?_
    rw [heq] at hdigit
    exact absurd hdigit (by decide)
  have htext : ∀ n : Nat, (toString n).toList = Nat.toDigits 10 n := fun _ => Nat.toList_repr
  rw [← String.toList_inj, String.toList_append, String.toList_append, String.toList_append,
    String.toList_append, htext, htext] at h
  obtain ⟨hindex, hrest⟩ :=
    eq_of_append_eq_of_mark (fun c => c == ']') (hdigits i) (hdigits j) (by simp) (by simp) h
  refine ⟨?_, String.toList_inj.mp (List.append_cancel_left hrest)⟩
  calc i = Nat.ofDigitChars 10 (Nat.toDigits 10 i) 0 := Nat.ofDigitChars_ten_toDigits.symm
    _ = Nat.ofDigitChars 10 (Nat.toDigits 10 j) 0 := by rw [hindex]
    _ = j := Nat.ofDigitChars_ten_toDigits

theorem Place.plain_cons_iff {step : Step} {rest : Place} :
    Place.Plain (step :: rest) ↔ (∀ name, step = .field name → PlainName name) ∧ rest.Plain := by
  simp only [Place.Plain, List.mem_cons, or_imp, forall_and, eq_comm]

/-- **Steps behind another are told one by one.** -/
theorem Place.eq_of_suffix_eq {p q : Place} (hp : p.Plain) (hq : q.Plain)
    (h : p.suffix = q.suffix) : p = q := by
  induction p generalizing q with
  | nil =>
    cases q with
    | nil => rfl
    | cons step rest => cases step <;> simp [Place.suffix, Step.suffix, ← String.toList_inj] at h
  | cons step rest ih =>
    obtain ⟨hstep, hrest⟩ := Place.plain_cons_iff.mp hp
    cases q with
    | nil => cases step <;> simp [Place.suffix, Step.suffix, ← String.toList_inj] at h
    | cons step' others =>
      obtain ⟨hstep', hothers⟩ := Place.plain_cons_iff.mp hq
      cases step <;> cases step'
      case field.field name other =>
        simp only [Place.suffix, Step.suffix, String.append_assoc] at h
        obtain ⟨rfl, hsuffix⟩ := PlainName.eq_of_append_eq (hstep name rfl) (hstep' other rfl)
          ((String.append_right_inj _).mp h)
        rw [ih hrest hothers hsuffix]
      case index.index i j =>
        simp only [Place.suffix, Step.suffix, String.append_assoc] at h
        obtain ⟨rfl, hsuffix⟩ := eq_of_index_append_eq ((String.append_right_inj _).mp h)
        rw [ih hrest hothers hsuffix]
      -- the marks differ
      all_goals simp [Place.suffix, Step.suffix, ← String.toList_inj] at h

/-- Nothing but the root is spelled as the root. -/
theorem Place.spelled_ne_dollar {step : Step} {rest : Place} (h : Place.Plain (step :: rest)) :
    Place.spelled (step :: rest) ≠ "$" := by
  intro hroot
  cases step with
  | field name =>
    have hname := (Place.plain_cons_iff.mp h).1 name rfl
    rw [Place.spelled, ← String.toList_inj, String.toList_append,
      ← List.append_nil "$".toList] at hroot
    have hdollar : ∀ c ∈ "$".toList, isMark c = false := by simp [isMark]
    obtain ⟨heq, -⟩ := eq_of_append_eq_of_mark isMark hname.isMark_eq_false hdollar
      rest.isMark_head_suffix (by simp) hroot
    exact hname.2.2 (String.toList_inj.mp heq)
  | index i => simp [Place.spelled, Place.suffix, Step.suffix, ← String.toList_inj] at hroot

/-- **A place in an object is the only one of its spelling.** -/
theorem Place.eq_of_spelled_eq {p q : Place} (hobject : p.IntoObject) (hp : p.Plain) (hq : q.Plain)
    (h : p.spelled = q.spelled) : p = q := by
  cases q with
  | nil =>
    cases p with
    | nil => rfl
    | cons step rest => exact absurd h (Place.spelled_ne_dollar hp)
  | cons step others =>
    obtain rfl | ⟨name, rest, rfl, hempty⟩ := hobject
    · exact absurd h.symm (Place.spelled_ne_dollar hq)
    · obtain ⟨hname, hrest⟩ := Place.plain_cons_iff.mp hp
      obtain ⟨hstep, hothers⟩ := Place.plain_cons_iff.mp hq
      cases step with
      | field other =>
        obtain ⟨rfl, hsuffix⟩ := PlainName.eq_of_append_eq (hname name rfl) (hstep other rfl) h
        rw [Place.eq_of_suffix_eq hrest hothers hsuffix]
      | index i =>
        -- a text that begins with a bracket has no first name, and then nothing behind it
        have hchars : name.toList ++ (Place.suffix rest).toList =
            [] ++ (Place.suffix (.index i :: others)).toList := by
          rw [← String.toList_append]
          exact congrArg String.toList h
        obtain ⟨hnone, hsuffix⟩ := eq_of_append_eq_of_mark isMark
          (hname name rfl).isMark_eq_false (List.forall_mem_nil _) (Place.isMark_head_suffix rest)
          (Place.isMark_head_suffix _) hchars
        rw [hempty (String.toList_inj.mp hnone)] at hsuffix
        simp [Place.suffix, Step.suffix] at hsuffix

end ServiceContracts
