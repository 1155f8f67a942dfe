import ServiceContracts.Proofs.Text.ByteOrder
import Mathlib.Data.List.Induction
import Mathlib.Data.String.Basic
import Mathlib.Tactic.SplitIfs
/-!
# What replacing leaves

Bytes that are not UTF-8 have a text with replacements, and bytes that are
the bytes of a text have that text (`lossy_bytes`). So the text of bytes
does not tell them apart unless they are UTF-8.

How it ends can be told all the same. An ASCII character stands for
itself, whatever has begun before it, and no other byte gives one: a text
ends in ASCII characters where the bytes end in theirs
(`suffix_lossyFrom_iff`).
-/


namespace ServiceContracts.Text

/-- **What can have begun.** Each byte that can come next goes on with it, or
finishes a character that is not ASCII. -/
inductive Begun.Sound : Begun → Prop
  | last {bits low high : Nat} (hlow : 0x80 ≤ low)
      (h : ∀ b, low ≤ b → b ≤ high →
        0x80 ≤ bits * 64 + b % 64 ∧ (bits * 64 + b % 64).isValidChar) :
      Sound ⟨bits, low, high, 0⟩
  | more {bits low high rest : Nat} (hlow : 0x80 ≤ low)
      (h : ∀ b, low ≤ b → b ≤ high → Sound ⟨bits * 64 + b % 64, 0x80, 0xBF, rest⟩) :
      Sound ⟨bits, low, high, rest + 1⟩

theorem Begun.Sound.low_le {begun : Begun} (h : begun.Sound) : 0x80 ≤ begun.low := by
  cases h with
  | last hlow => exact hlow
  | more hlow => exact hlow

variable {begun : Option Begun} {x : Begun} {b : Nat} {bs : List UInt8} {c : Char}

theorem toNat_char_ofNat {n : Nat} (h : n.isValidChar) : (Char.ofNat n).toNat = n := by
  rw [Char.ofNat, dif_pos h]
  exact UInt32.toNat_ofNatLT

/-! ## What begins is sound -/

theorem sound_two {bits low high : Nat} (hlow : 0x80 ≤ low)
    (h : ∀ b, low ≤ b → b ≤ high → 0x20 ≤ bits * 64 + b % 64 ∧ bits * 64 + b % 64 < 0x400 ∧
      (bits * 64 + b % 64 < 0x360 ∨ 0x380 ≤ bits * 64 + b % 64)) :
    Begun.Sound ⟨bits, low, high, 1⟩ := by
  refine .more hlow fun b hb hb' => .last (by omega) fun b' hb₁ hb₂ => ?_
  obtain ⟨hle, hlt, hsurrogate⟩ := h b hb hb'
  unfold Nat.isValidChar
  omega

theorem sound_three {bits low high : Nat} (hlow : 0x80 ≤ low)
    (h : ∀ b, low ≤ b → b ≤ high → 0x10 ≤ bits * 64 + b % 64 ∧ bits * 64 + b % 64 < 0x110) :
    Begun.Sound ⟨bits, low, high, 2⟩ := by
  refine .more hlow fun b hb hb' => .more (by omega) fun b' hb₁ hb₂ => .last (by omega)
    fun b'' hb₃ hb₄ => ?_
  obtain ⟨hle, hlt⟩ := h b hb hb'
  unfold Nat.isValidChar
  omega

theorem sound_of_begun? (h : begun? b = some x) : x.Sound := by
  unfold begun? at h
  split_ifs at h <;> obtain rfl := Option.some.inj h
  · refine .last (by omega) fun b' hb hb' => ?_
    unfold Nat.isValidChar
    omega
  all_goals first
    | exact sound_two (by omega) fun b' hb hb' => by omega
    | exact sound_three (by omega) fun b' hb hb' => by omega

theorem sound_of_first (h : (first b).2 = some x) : x.Sound := by
  unfold first at h
  split_ifs at h
  cases hbegun : begun? b with
  | none => simp [hbegun] at h
  | some y =>
    rw [hbegun] at h
    obtain rfl := Option.some.inj h
    exact sound_of_begun? hbegun

theorem sound_of_next (hsound : ∀ y, begun = some y → y.Sound) (h : (next begun b).2 = some x) :
    x.Sound := by
  cases begun with
  | none => exact sound_of_first h
  | some y =>
    rw [next] at h
    split_ifs at h with hrange
    · cases hsound y rfl with
      | last => cases h
      | more hlow hmore =>
        obtain rfl := Option.some.inj h
        exact hmore b hrange.1 hrange.2
    · exact sound_of_first h

/-! ## The last byte -/

theorem next_of_lt (hsound : ∀ y, begun = some y → y.Sound) (hb : b < 0x80) :
    (next begun b).1 ++ lossyFrom (next begun b).2 [] =
      lossyFrom begun [] ++ [Char.ofNat b] := by
  have hfirst : first b = ([Char.ofNat b], none) := if_pos hb
  cases begun with
  | none => simp [next, hfirst, lossyFrom]
  | some y =>
    have hlow := (hsound y rfl).low_le
    rw [next, if_neg (by omega), hfirst]
    rfl

/-- **An ASCII byte gives its character**, and nothing changes before it. -/
theorem lossyFrom_concat_of_lt (hsound : ∀ y, begun = some y → y.Sound) {b : UInt8}
    (hb : b.toNat < 0x80) :
    lossyFrom begun (bs ++ [b]) = lossyFrom begun bs ++ [Char.ofNat b.toNat] := by
  induction bs generalizing begun with
  | nil =>
    rw [List.nil_append, lossyFrom]
    exact next_of_lt hsound hb
  | cons b' rest ih =>
    rw [List.cons_append, lossyFrom, lossyFrom, ih fun y => sound_of_next hsound,
      List.append_assoc]

/-- **Another byte gives another character**, last of all. -/
theorem exists_lossyFrom_concat (hsound : ∀ y, begun = some y → y.Sound) {b : UInt8}
    (hb : 0x80 ≤ b.toNat) :
    ∃ cs c, lossyFrom begun (bs ++ [b]) = cs ++ [c] ∧ 0x80 ≤ c.toNat := by
  have hfirst : ∃ cs c, (first b.toNat).1 ++ lossyFrom (first b.toNat).2 [] = cs ++ [c] ∧
      0x80 ≤ c.toNat := by
    rw [first, if_neg (by omega)]
    cases begun? b.toNat with
    | none => exact ⟨[], replacement, rfl, by decide⟩
    | some y => exact ⟨[], replacement, rfl, by decide⟩
  induction bs generalizing begun with
  | nil =>
    cases begun with
    | none => exact hfirst
    | some y =>
      rw [List.nil_append, lossyFrom, next]
      split_ifs with hrange
      · cases hsound y rfl with
        | @last bits low high hlow h =>
          obtain ⟨hle, hvalid⟩ := h b.toNat hrange.1 hrange.2
          refine ⟨[], _, rfl, ?_⟩
          rw [toNat_char_ofNat hvalid]
          exact hle
        | more => exact ⟨[], replacement, rfl, by decide⟩
      · obtain ⟨cs, c, heq, hc⟩ := hfirst
        exact ⟨replacement :: cs, c, congrArg (replacement :: ·) heq, hc⟩
  | cons b' rest ih =>
    obtain ⟨cs, c, heq, hc⟩ := @ih (next begun b'.toNat).2 fun y => sound_of_next hsound
    refine ⟨(next begun b'.toNat).1 ++ cs, c, ?_, hc⟩
    rw [List.cons_append, lossyFrom, heq, List.append_assoc]

/-! ## The end -/

theorem concat_suffix_concat_iff {α : Type} {l m : List α} {a b : α} :
    l ++ [a] <:+ m ++ [b] ↔ a = b ∧ l <:+ m := by
  rw [List.suffix_concat_iff]
  constructor
  · rintro (hnil | ⟨t, heq, ht⟩)
    · simp at hnil
    · obtain ⟨rfl, hab⟩ := List.append_inj' heq rfl
      exact ⟨List.head_eq_of_cons_eq hab, ht⟩
  · rintro ⟨rfl, hsuffix⟩
    exact .inr ⟨l, rfl, hsuffix⟩

/-- The byte of an ASCII character. -/
def asciiByte (c : Char) : UInt8 := UInt8.ofNat c.toNat

theorem toNat_asciiByte (hc : c.toNat < 0x80) : (asciiByte c).toNat = c.toNat :=
  UInt8.toNat_ofNat_of_lt' (by show c.toNat < 256; omega)

/-- **A text ends in ASCII characters** where the bytes do. -/
theorem suffix_lossyFrom_iff {cs : List Char} (h : ∀ c ∈ cs, c.toNat < 0x80) :
    cs <:+ lossyFrom none bs ↔ cs.map asciiByte <:+ bs := by
  induction cs using List.reverseRecOn generalizing bs with
  | nil => simp
  | append_singleton init c ih =>
    have hc : c.toNat < 0x80 := h c (List.mem_append_right _ (List.mem_singleton_self c))
    have hinit : ∀ d ∈ init, d.toNat < 0x80 := fun d hd => h d (List.mem_append_left _ hd)
    rw [List.map_append, List.map_singleton]
    obtain rfl | ⟨rest, b, rfl⟩ := List.eq_nil_or_concat' bs
    · simp [lossyFrom]
    rw [concat_suffix_concat_iff, ← ih hinit]
    have hnone : ∀ y, (none : Option Begun) = some y → y.Sound := fun _ hy => nomatch hy
    by_cases hb : b.toNat < 0x80
    · have hbyte : c = Char.ofNat b.toNat ↔ asciiByte c = b := by
        have hvalid : b.toNat.isValidChar := .inl (by omega)
        rw [← UInt8.toNat_inj, toNat_asciiByte hc, ← Char.toNat_inj, toNat_char_ofNat hvalid]
      rw [lossyFrom_concat_of_lt hnone hb, concat_suffix_concat_iff, hbyte]
    · obtain ⟨cs, d, heq, hd⟩ := @exists_lossyFrom_concat none rest hnone b (Nat.not_lt.mp hb)
      rw [heq, concat_suffix_concat_iff]
      constructor
      · rintro ⟨rfl, -⟩
        omega
      · rintro ⟨rfl, -⟩
        rw [toNat_asciiByte hc] at hb
        omega

/-! ## Texts -/

section Steps

variable {bits low high more n : Nat} {rest : List UInt8}

theorem lossyFrom_ascii (hn : n < 0x80) :
    lossyFrom none (UInt8.ofNat n :: rest) = Char.ofNat n :: lossyFrom none rest := by
  rw [lossyFrom, UInt8.toNat_ofNat_of_lt' (by omega : n < 256), next, first, if_pos hn]
  rfl

theorem lossyFrom_first (hn : 0x80 ≤ n) (hlt : n < 256) (h : begun? n = some x) :
    lossyFrom none (UInt8.ofNat n :: rest) = lossyFrom (some x) rest := by
  rw [lossyFrom, UInt8.toNat_ofNat_of_lt' hlt, next, first, if_neg (by omega), h]
  rfl

theorem lossyFrom_more (hlow : low ≤ n) (hhigh : n ≤ high) (hlt : n < 256) :
    lossyFrom (some ⟨bits, low, high, more + 1⟩) (UInt8.ofNat n :: rest) =
      lossyFrom (some ⟨bits * 64 + n % 64, 0x80, 0xBF, more⟩) rest := by
  rw [lossyFrom, UInt8.toNat_ofNat_of_lt' hlt, next, if_pos ⟨hlow, hhigh⟩]
  rfl

theorem lossyFrom_last (hlow : low ≤ n) (hhigh : n ≤ high) (hlt : n < 256) :
    lossyFrom (some ⟨bits, low, high, 0⟩) (UInt8.ofNat n :: rest) =
      Char.ofNat (bits * 64 + n % 64) :: lossyFrom none rest := by
  rw [lossyFrom, UInt8.toNat_ofNat_of_lt' hlt, next, if_pos ⟨hlow, hhigh⟩]
  rfl

/-- Which byte begins what, of those that begin characters of three bytes. -/
theorem begun?_three (hn : 0xE0 ≤ n) (hlt : n < 0xF0) :
    begun? n =
      some ⟨n - 0xE0, if n = 0xE0 then 0xA0 else 0x80, if n = 0xED then 0x9F else 0xBF, 1⟩ := by
  unfold begun?
  rw [if_neg (by omega), if_neg (by omega)]
  split_ifs <;> first | rfl | omega

/-- And of four. -/
theorem begun?_four (hn : 0xF0 ≤ n) (hlt : n ≤ 0xF4) :
    begun? n =
      some ⟨n - 0xF0, if n = 0xF0 then 0x90 else 0x80, if n = 0xF4 then 0x8F else 0xBF, 2⟩ := by
  unfold begun?
  rw [if_neg (by omega), if_neg (by omega), if_neg (by omega), if_neg (by omega), if_neg (by omega)]
  split_ifs <;> first | rfl | omega

end Steps

/-- Each character comes back from its bytes. -/
theorem lossyFrom_encode (c : Char) (rest : List UInt8) :
    lossyFrom none (String.utf8EncodeChar c ++ rest) = c :: lossyFrom none rest := by
  have hvalid : c.val.toNat.isValidChar := c.valid
  have hchar : ∀ n, n = c.val.toNat → Char.ofNat n = c := by
    rintro n rfl
    exact Char.ofNat_toNat c
  unfold Nat.isValidChar at hvalid
  obtain ⟨hc, hbytes⟩ | ⟨hc, hc', hbytes⟩ | ⟨hc, hc', hbytes⟩ | ⟨hc, hc', hbytes⟩ := encode_cases c
  · rw [hbytes, List.singleton_append, lossyFrom_ascii hc, hchar _ rfl]
  · have hbegun : begun? (c.val.toNat / 64 + 0xc0) = some ⟨c.val.toNat / 64, 0x80, 0xBF, 0⟩ := by
      rw [begun?, if_neg (by omega), if_pos (by omega), Nat.add_sub_cancel]
    rw [hbytes, List.cons_append, List.singleton_append,
      lossyFrom_first (by omega) (by omega) hbegun,
      lossyFrom_last (by omega) (by omega) (by omega), hchar _ (by omega)]
  · have hbegun := @begun?_three (c.val.toNat / 4096 + 0xe0) (by omega) (by omega)
    rw [hbytes, List.cons_append, List.cons_append, List.singleton_append,
      lossyFrom_first (by omega) (by omega) hbegun,
      lossyFrom_more (by split <;> omega) (by split <;> omega) (by omega),
      lossyFrom_last (by omega) (by omega) (by omega), hchar _ (by omega)]
  · have hbegun := @begun?_four (c.val.toNat / 262144 + 0xf0) (by omega) (by omega)
    rw [hbytes, List.cons_append, List.cons_append, List.cons_append, List.singleton_append,
      lossyFrom_first (by omega) (by omega) hbegun,
      lossyFrom_more (by split <;> omega) (by split <;> omega) (by omega),
      lossyFrom_more (by omega) (by omega) (by omega),
      lossyFrom_last (by omega) (by omega) (by omega), hchar _ (by omega)]

/-- **A text comes back from its bytes.** -/
theorem lossy_bytes (s : String) : lossy (bytes s) = s := by
  have hall : ∀ cs : List Char, lossyFrom none (cs.flatMap String.utf8EncodeChar) = cs := by
    intro cs
    induction cs with
    | nil => rfl
    | cons c rest ih => rw [List.flatMap_cons, lossyFrom_encode, ih]
  rw [lossy, bytes_eq_flatMap, hall, String.ofList_toList]

/-- And without replacing anything. -/
theorem fromUTF8?_toUTF8 (s : String) : String.fromUTF8? s.toUTF8 = some s := by
  rw [String.fromUTF8?, dif_pos (show s.toUTF8.IsValidUTF8 from s.isValidUTF8)]
  rfl

/-- ASCII characters are their own bytes. -/
theorem bytes_ofList_of_ascii {cs : List Char} (h : ∀ c ∈ cs, c.toNat < 0x80) :
    bytes (String.ofList cs) = cs.map asciiByte := by
  rw [bytes_eq_flatMap, String.toList_ofList]
  induction cs with
  | nil => rfl
  | cons c rest ih =>
    obtain ⟨hc, hrest⟩ := List.forall_mem_cons.mp h
    rw [List.flatMap_cons, List.map_cons, ih hrest]
    obtain ⟨-, hbytes⟩ | ⟨hge, -⟩ | ⟨hge, -⟩ | ⟨hge, -⟩ := encode_cases c
    · rw [hbytes]
      rfl
    all_goals
      have hnat : c.val.toNat = c.toNat := rfl
      omega

end ServiceContracts.Text
