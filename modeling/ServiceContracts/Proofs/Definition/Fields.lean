import ServiceContracts.Definition.Fields
import Mathlib.Data.List.Forall2
/-!
# What is read off an object

Reading a structure off an object succeeds where each of its fields is
read, by itself: in which order the members stand and which fault would
count decides only about failures. A field is read off the member of its
name, or has what stands for it where there is none (`Reader.Reads`).
-/


namespace ServiceContracts.Definition

variable {α β : Type} {v : Json}

/-- **What is read for a field**, off its member or without one. -/
def Reader.Reads (read : Reader α) (missing : Option α) (member : Option Json) (a : α) : Prop :=
  (member = none ∧ missing = some a) ∨ ∃ w, member = some w ∧ read w = .ok a

namespace Reader

/-! ## Values -/

theorem text_eq_ok_iff {s : String} : text v = .ok s ↔ v = .string s := by
  cases v <;> simp [text]

theorem option_eq_ok_iff {read : Reader α} {o : Option α} :
    read.option v = .ok o ↔
      (v = .null ∧ o = none) ∨ (v ≠ .null ∧ ∃ a, read v = .ok a ∧ o = some a) := by
  have hmap : ∀ x : Except ShapeFault α,
      x.map some = .ok o ↔ ∃ a, x = .ok a ∧ o = some a := by
    intro x
    cases x <;> simp [Except.map, eq_comm]
  cases v <;> simp [option, hmap, eq_comm]

theorem mapM_eq_ok_iff {read : β → Except ShapeFault α} {bs : List β} {as : List α} :
    bs.mapM read = .ok as ↔ List.Forall₂ (fun a b => read b = .ok a) as bs := by
  induction bs generalizing as with
  | nil =>
    rw [List.mapM_nil, List.forall₂_nil_right_iff]
    exact ⟨fun h => (Except.ok.inj h).symm, fun h => h ▸ rfl⟩
  | cons b rest ih =>
    rw [List.mapM_cons, List.forall₂_cons_right_iff]
    cases hb : read b with
    | error e => exact ⟨nofun, fun ⟨_, _, h, _⟩ => nomatch h⟩
    | ok a =>
      cases hrest : rest.mapM read with
      | error e =>
        refine ⟨nofun, ?_⟩
        rintro ⟨_, _, -, hall, -⟩
        rw [ih.mpr hall] at hrest
        cases hrest
      | ok more =>
        constructor
        · rintro ⟨⟩
          exact ⟨a, more, rfl, ih.mp hrest, rfl⟩
        · rintro ⟨_, _, ⟨⟩, hall, rfl⟩
          obtain rfl := Except.ok.inj (hrest.symm.trans (ih.mpr hall))
          rfl

theorem list_eq_ok_iff {read : Reader α} {as : List α} :
    list read v = .ok as ↔
      ∃ items, v = .array items ∧ List.Forall₂ (fun a w => read w = .ok a) as items := by
  cases v <;> simp [list, mapM_eq_ok_iff]

theorem map_eq_ok_iff {read : Reader α} {map : Entries String α} :
    Reader.map read v = .ok map ↔ ∃ members, v = .object members ∧
      List.Forall₂ (fun e m => e.1 = m.1 ∧ read m.2 = .ok e.2) map members := by
  have hentry : ∀ (m : String × Json) (e : String × α),
      (read m.2).map (m.1, ·) = .ok e ↔ e.1 = m.1 ∧ read m.2 = .ok e.2 := by
    intro m e
    cases read m.2 <;> simp [Except.map, Prod.ext_iff, eq_comm]
  cases v <;> simp [Reader.map, mapM_eq_ok_iff, hentry]

end Reader

/-! ## Fields -/

namespace Fields

variable {source : FieldSource} {members : List (String × Json)} {name : String}

theorem locate?_eq : (FieldSource.locate? members name).map Prod.snd = Entries.get? members name := by
  induction members with
  | nil => rfl
  | cons e rest ih =>
    obtain ⟨key, v⟩ := e
    rw [FieldSource.locate?, Entries.get?, ← ih]
    by_cases hkey : key = name
    · rw [if_pos hkey, if_pos hkey]
      rfl
    · rw [if_neg hkey, if_neg hkey, Option.map_map]
      rfl

theorem find?_object {index : Nat} :
    (FieldSource.object members).find? index name = FieldSource.locate? members name := rfl

/-- **One field.** -/
theorem field_eq_ok_iff {index : Nat} {read : Reader α} {unnamed unlisted : Option α} {a : α} :
    field index name read unnamed unlisted (.object members) = .ok a ↔
      read.Reads unnamed (Entries.get? members name) a := by
  unfold field
  rw [find?_object, Reader.Reads, ← locate?_eq]
  cases FieldSource.locate? members name with
  | none => cases unnamed <;> simp
  | some found => cases hread : read found.2 <;> simp [Except.mapError, hread]

theorem seq_eq_ok_iff {f : Fields (α → β)} {x : Fields α} {b : β} :
    (f <*> x) source = .ok b ↔ ∃ g a, f source = .ok g ∧ x source = .ok a ∧ g a = b := by
  have hrun : (f <*> x) source = seq f (fun _ => x) source := rfl
  rw [hrun, seq]
  cases f source <;> cases x source <;> simp

theorem map_eq_ok_iff {g : α → β} {x : Fields α} {b : β} :
    (g <$> x) source = .ok b ↔ ∃ a, x source = .ok a ∧ g a = b := by
  have hrun : (g <$> x) source = seq (pure g) (fun _ => x) source := rfl
  rw [hrun, seq, pure]
  cases x source <;> simp

theorem ofMembers_eq_ok_iff {fields : Fields α} {a : α} :
    fields.ofMembers members = .ok a ↔ fields (.object members) = .ok a := by
  rw [ofMembers]
  cases fields (.object members) <;> simp [Except.mapError]

end Fields

end ServiceContracts.Definition
