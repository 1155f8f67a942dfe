import ServiceContracts.Text.Bytes
/-!
# The order of texts is that of their bytes

Texts are compared by their characters, and sorted files by the bytes of
their names. In UTF-8 that is the same (`Text.bytes_lt_bytes_iff`): more
bytes start with a greater byte, and as many bytes hold the digits of the
code point, the highest first.
-/


namespace ServiceContracts.Text

variable {c d : Char} {xs ys : List UInt8}

/-- **The four forms of a character in bytes**, each with the code points that
have it. -/
theorem encode_cases (c : Char) :
    (c.val.toNat < 0x80 ∧ String.utf8EncodeChar c = [UInt8.ofNat c.val.toNat]) ∨
    (0x80 ≤ c.val.toNat ∧ c.val.toNat < 0x800 ∧
      String.utf8EncodeChar c =
        [UInt8.ofNat (c.val.toNat / 64 + 0xc0), UInt8.ofNat (c.val.toNat % 64 + 0x80)]) ∨
    (0x800 ≤ c.val.toNat ∧ c.val.toNat < 0x10000 ∧
      String.utf8EncodeChar c =
        [UInt8.ofNat (c.val.toNat / 4096 + 0xe0), UInt8.ofNat (c.val.toNat / 64 % 64 + 0x80),
          UInt8.ofNat (c.val.toNat % 64 + 0x80)]) ∨
    (0x10000 ≤ c.val.toNat ∧ c.val.toNat < 0x110000 ∧
      String.utf8EncodeChar c =
        [UInt8.ofNat (c.val.toNat / 262144 + 0xf0), UInt8.ofNat (c.val.toNat / 4096 % 64 + 0x80),
          UInt8.ofNat (c.val.toNat / 64 % 64 + 0x80), UInt8.ofNat (c.val.toNat % 64 + 0x80)]) := by
  have hvalid : c.val.toNat.isValidChar := c.valid
  unfold Nat.isValidChar at hvalid
  unfold String.utf8EncodeChar
  generalize c.val.toNat = n at hvalid
  dsimp only
  by_cases h₁ : n ≤ 0x7f
  · exact .inl ⟨by omega, if_pos h₁⟩
  rw [if_neg h₁]
  by_cases h₂ : n ≤ 0x7ff
  · refine .inr (.inl ⟨by omega, by omega, ?_⟩)
    rw [if_pos h₂, Nat.mod_eq_of_lt (by omega : n / 64 < 0x20)]
  rw [if_neg h₂]
  by_cases h₃ : n ≤ 0xffff
  · refine .inr (.inr (.inl ⟨by omega, by omega, ?_⟩))
    rw [if_pos h₃, Nat.mod_eq_of_lt (by omega : n / 4096 < 0x10)]
  · refine .inr (.inr (.inr ⟨by omega, by omega, ?_⟩))
    rw [if_neg h₃, Nat.mod_eq_of_lt (by omega : n / 262144 < 0x08)]

/-- Lists of bytes are compared by the numbers in front. -/
theorem cons_lt_cons_ofNat {a b : Nat} (ha : a < 256) (hb : b < 256) :
    UInt8.ofNat a :: xs < UInt8.ofNat b :: ys ↔ a < b ∨ a = b ∧ xs < ys := by
  rw [List.cons_lt_cons_iff, UInt8.ofNat_lt_iff_lt ha hb, ← UInt8.toNat_inj,
    UInt8.toNat_ofNat_of_lt' ha, UInt8.toNat_ofNat_of_lt' hb]

/-- **A greater character has greater bytes**, whatever comes after them. -/
theorem encode_append_lt (h : c < d) :
    String.utf8EncodeChar c ++ xs < String.utf8EncodeChar d ++ ys := by
  have hlt : c.val.toNat < d.val.toNat := h
  obtain ⟨hc, hbytes⟩ | ⟨hc, hc', hbytes⟩ | ⟨hc, hc', hbytes⟩ | ⟨hc, hc', hbytes⟩ := encode_cases c
  all_goals
    obtain ⟨hd, hbytes'⟩ | ⟨hd, hd', hbytes'⟩ | ⟨hd, hd', hbytes'⟩ | ⟨hd, hd', hbytes'⟩ :=
      encode_cases d
    all_goals
      rw [hbytes, hbytes']
      simp (disch := omega) only [List.cons_append, List.nil_append, cons_lt_cons_ofNat]
      omega

theorem encode_ne_nil (c : Char) : String.utf8EncodeChar c ≠ [] := by
  intro hnil
  have hlength : (String.utf8EncodeChar c).length = c.utf8Size := String.length_utf8EncodeChar c
  rw [hnil] at hlength
  exact absurd hlength.symm (Nat.ne_of_gt c.utf8Size_pos)

theorem flatMap_encode_lt {cs ds : List Char} (h : cs < ds) :
    cs.flatMap String.utf8EncodeChar < ds.flatMap String.utf8EncodeChar := by
  induction cs generalizing ds with
  | nil =>
    cases ds with
    | nil => exact absurd h (List.lt_irrefl [])
    | cons d ds =>
      rw [List.flatMap_nil, List.flatMap_cons]
      obtain ⟨b, bs, hb⟩ := List.exists_cons_of_ne_nil (encode_ne_nil d)
      rw [hb, List.cons_append]
      exact List.nil_lt_cons _ _
  | cons c cs ih =>
    cases ds with
    | nil => exact absurd h (List.not_lt_nil _)
    | cons d ds =>
      rw [List.flatMap_cons, List.flatMap_cons]
      obtain hlt | ⟨rfl, hrest⟩ := List.cons_lt_cons_iff.mp h
      · exact encode_append_lt hlt
      · exact List.append_left_lt (ih hrest)

theorem bytes_eq_flatMap (s : String) : bytes s = s.toList.flatMap String.utf8EncodeChar := by
  rw [bytes, String.toUTF8, ← String.utf8Encode_toList, List.utf8Encode,
    List.toList_data_toByteArray]

/-- **Texts are in the order of their bytes.** -/
theorem bytes_lt_bytes_iff {s t : String} : bytes s < bytes t ↔ s < t := by
  have hforward : ∀ {s t : String}, s < t → bytes s < bytes t := by
    intro s t h
    rw [bytes_eq_flatMap, bytes_eq_flatMap]
    exact flatMap_encode_lt h
  refine ⟨fun h => Decidable.byContradiction fun hnot => ?_, hforward⟩
  have hle : t ≤ s := String.not_lt.mp hnot
  by_cases hge : s ≤ t
  · rw [String.le_antisymm hle hge] at h
    exact List.lt_irrefl _ h
  · have hlt : t < s := String.not_le.mp hge
    exact List.lt_asymm h (hforward hlt)

theorem bytes_le_bytes_iff {s t : String} : bytes s ≤ bytes t ↔ s ≤ t := by
  rw [← List.not_lt, bytes_lt_bytes_iff, String.not_lt]

end ServiceContracts.Text
