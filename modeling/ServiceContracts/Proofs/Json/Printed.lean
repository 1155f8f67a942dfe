import ServiceContracts.Json.Printer
import ServiceContracts.Json.Reader
import ServiceContracts.Proofs.Binary64.Literals
import ServiceContracts.Proofs.Json.Unsigned
/-!
# Text tells a JSON value

A value is told by its text, without space or over several lines
(`compact_inj`, `pretty_inj`). It is even told by a text that goes on after
it (`printed_tells`), which is what an induction over the value needs: its
kind is told by the first character, a string ends at the first quotation
mark without a backslash, a number where something follows that is part of
none, and a container where a bracket stands for a comma.
-/


namespace ServiceContracts.Json

/-! ## A text that goes on -/

/-- What can follow a value: nothing that a number goes on with. -/
def Stops (r : List Char) : Prop := ∀ c ∈ r.head?, Reader.isNumeric c = false

/-- **A text tells what it is of**, whatever follows it. -/
def Tells {α : Type} (text : α → List Char) (x : α) : Prop :=
  ∀ ⦃y : α⦄ ⦃r r' : List Char⦄, Stops r → Stops r' → text x ++ r = text y ++ r' → x = y ∧ r = r'

theorem stops_cons {c : Char} {r : List Char} (h : Reader.isNumeric c = false) :
    Stops (c :: r) := by
  rintro _ ⟨⟩
  exact h

theorem stops_nil : Stops [] := by
  simp [Stops]

section Parts

variable {α : Type} {text : α → List Char} {separator last : List Char}

/-- **Parts with something between them are told one by one**, where the end
does not look like one more separator. -/
theorem eq_of_intercalate_append_eq (hne : ∀ r r', separator ++ r ≠ last ++ r')
    (hseparator : ∀ r, Stops (separator ++ r)) (hlast : ∀ r, Stops (last ++ r)) {x y : α}
    {xs ys : List α} (htells : ∀ z ∈ x :: xs, Tells text z) {r r' : List Char}
    (h : separator.intercalate ((x :: xs).map text) ++ (last ++ r) =
      separator.intercalate ((y :: ys).map text) ++ (last ++ r')) : x :: xs = y :: ys ∧ r = r' := by
  induction xs generalizing x y ys with
  | nil =>
    have hx : Tells text x := htells x (List.mem_singleton.mpr rfl)
    cases ys with
    | nil =>
      obtain ⟨rfl, hr⟩ := hx (hlast r) (hlast r') (by simpa using h)
      exact ⟨rfl, List.append_cancel_left hr⟩
    | cons z zs =>
      obtain ⟨-, hr⟩ := hx (hlast r) (hseparator _) (by simpa using h)
      exact absurd hr.symm (hne _ _)
  | cons x' xs ih =>
    have hx : Tells text x := htells x List.mem_cons_self
    cases ys with
    | nil =>
      obtain ⟨-, hr⟩ := hx (hseparator _) (hlast r') (by simpa using h)
      exact absurd hr (hne _ _)
    | cons z zs =>
      simp only [List.map_cons, List.intercalate_cons_cons, List.append_assoc] at h ih
      obtain ⟨rfl, hr⟩ := hx (hseparator _) (hseparator _) h
      obtain ⟨hrest, hr⟩ := ih (fun w hw => htells w (List.mem_cons_of_mem _ hw))
        (List.append_cancel_left hr)
      exact ⟨by rw [hrest], hr⟩

end Parts

/-! ## Numbers -/

theorem isNumeric_of_isDigit {c : Char} (h : c.isDigit = true) : Reader.isNumeric c = true := by
  simp [Reader.isNumeric, h]

/-- The text of an integer is a sign and its digits. -/
theorem toList_toString_int (n : ℤ) :
    (toString n).toList = (if n < 0 then ['-'] else []) ++ Nat.toDigits 10 n.natAbs := by
  cases n with
  | ofNat m =>
    rw [if_neg (Int.not_lt.mpr (Int.natCast_nonneg m) : ¬ Int.ofNat m < 0)]
    exact Nat.toList_repr
  | negSucc m =>
    rw [if_pos (Int.negSucc_lt_zero m)]
    have htext : (toString (Int.negSucc m)).toList = ("-" ++ Nat.repr (m + 1)).toList := rfl
    rw [htext, String.toList_append, Nat.toList_repr]
    rfl

theorem toString_int_inj {m n : ℤ} (h : toString m = toString n) : m = n := by
  have htext := congrArg String.toList h
  rw [toList_toString_int, toList_toString_int] at htext
  -- digits are no sign
  have hminus : ∀ {k : Nat} {s : List Char}, Nat.toDigits 10 k ≠ '-' :: s := by
    intro k s hk
    have hmem : '-' ∈ Nat.toDigits 10 k := hk ▸ List.mem_cons_self
    have hdigit := Binary64.isDigit_of_mem_toDigits hmem
    cases hdigit
  have hsign : m < 0 ↔ n < 0 := by
    by_cases hm : m < 0 <;> by_cases hn : n < 0 <;> simp only [hm, hn, if_true, if_false] at htext ⊢
    · exact absurd htext.symm hminus
    · exact absurd htext hminus
  simp only [hsign, List.append_right_inj] at htext
  have hdigits := congrArg (fun s => Nat.ofDigitChars 10 s 0) htext
  simp only [Nat.ofDigitChars_ten_toDigits] at hdigits
  omega

namespace Number

theorem toList_text_whole (w : Whole) : (Number.whole w).text.toList =
    (if w.val < 0 then ['-'] else []) ++ Nat.toDigits 10 w.val.natAbs := toList_toString_int w.val

/-- A number goes on to the last of its characters. -/
theorem isNumeric_of_mem_text (n : Number) : ∀ c ∈ n.text.toList, Reader.isNumeric c = true := by
  intro c hc
  cases n with
  | whole w =>
    rw [toList_text_whole] at hc
    obtain hc | hc := List.mem_append.mp hc
    · split at hc
      · obtain rfl := List.mem_singleton.mp hc
        decide
      · cases hc
    · exact isNumeric_of_isDigit (Binary64.isDigit_of_mem_toDigits hc)
  | double x =>
    obtain hdigit | hother := x.numeric_of_mem_text c hc
    · exact isNumeric_of_isDigit hdigit
    · have hothers : ['-', '+', '.', 'e'].all Reader.isNumeric = true := by decide
      exact List.all_eq_true.mp hothers c hother

/-- It begins with a minus or a digit. -/
theorem exists_text_cons (n : Number) :
    ∃ c rest, n.text.toList = c :: rest ∧ (c = '-' ∨ c.isDigit = true) := by
  cases n with
  | whole w =>
    obtain ⟨d, digits, hdigits⟩ :=
      List.exists_cons_of_ne_nil (Nat.toDigits_ne_nil : Nat.toDigits 10 w.val.natAbs ≠ [])
    have hd := Binary64.isDigit_of_mem_toDigits (hdigits ▸ List.mem_cons_self)
    rw [toList_text_whole, hdigits]
    split
    · exact ⟨_, _, rfl, .inl rfl⟩
    · exact ⟨_, _, rfl, .inr hd⟩
  | double x =>
    obtain ⟨s, d, hs, -, htext⟩ := x.exists_text
    obtain ⟨c, rest, rfl, hc⟩ := hs.exists_cons
    have htext : (Number.double x).text.toList = _ := htext
    rw [htext]
    split
    · exact ⟨_, _, rfl, .inl rfl⟩
    · exact ⟨_, _, rfl, .inr hc⟩

/-- An integer has no point and no exponent. -/
theorem text_whole_ne_text_double (w : Whole) (x : Binary64.Finite) :
    (Number.whole w).text ≠ (Number.double x).text := by
  intro h
  have hmem : ∀ c ∈ (Number.whole w).text.toList, c = '-' ∨ c.isDigit = true := by
    intro c hc
    rw [toList_text_whole] at hc
    obtain hc | hc := List.mem_append.mp hc
    · split at hc
      · exact .inl (List.mem_singleton.mp hc)
      · cases hc
    · exact .inr (Binary64.isDigit_of_mem_toDigits hc)
  rw [h] at hmem
  obtain hpoint | hexponent := x.mem_text
  · exact absurd (hmem _ hpoint) (by decide)
  · exact absurd (hmem _ hexponent) (by decide)

/-- **A number is told by its text.** -/
theorem eq_of_text_eq {m n : Number} (h : m.text = n.text) : m = n := by
  cases m with
  | whole v =>
    cases n with
    | whole w =>
      have hval := toString_int_inj h
      obtain ⟨_, _, _⟩ := v
      obtain ⟨_, _, _⟩ := w
      obtain rfl := hval
      rfl
    | double y => exact absurd h (text_whole_ne_text_double v y)
  | double x =>
    cases n with
    | whole w => exact absurd h.symm (text_whole_ne_text_double w x)
    | double y => rw [Binary64.Finite.eq_of_text_eq h]

theorem tells_text (n : Number) : Tells (fun m : Number => m.text.toList) n := by
  intro m r r' hr hr' h
  obtain ⟨htake, hdrop⟩ := Binary64.cut_append n.isNumeric_of_mem_text hr
  obtain ⟨htake', hdrop'⟩ := Binary64.cut_append m.isNumeric_of_mem_text hr'
  rw [h] at htake hdrop
  exact ⟨eq_of_text_eq (String.toList_inj.mp (htake.symm.trans htake')), hdrop.symm.trans hdrop'⟩

end Number

/-! ## Strings -/

/-- **How a character is written**: as it is, as a letter after a backslash,
or by its code. -/
theorem escapeChar_cases (c : Char) :
    ((escapeChar c).toList = [c] ∧ c ≠ '\\' ∧ c ≠ '\"') ∨
    (∃ e, (escapeChar c).toList = ['\\', e] ∧ e ≠ 'u' ∧ Reader.escaped? e = some c) ∨
    (c.toNat < 0x20 ∧ (escapeChar c).toList = ['\\', 'u', '0', '0',
      Nat.digitChar (c.toNat / 16 % 16), Nat.digitChar (c.toNat % 16)]) := by
  by_cases hletter : c ∈ ['\"', '\\', '\x08', '\x0c', '\n', '\r', '\t']
  · refine .inr (.inl ?_)
    simp only [List.mem_cons, List.not_mem_nil, or_false] at hletter
    rcases hletter with rfl | rfl | rfl | rfl | rfl | rfl | rfl <;>
      exact ⟨_, rfl, by decide, by decide⟩
  · simp only [List.mem_cons, List.not_mem_nil, or_false, not_or] at hletter
    obtain ⟨hquote, hbackslash, h1, h2, h3, h4, h5⟩ := hletter
    unfold escapeChar
    rw [if_neg hquote, if_neg hbackslash, if_neg h1, if_neg h2, if_neg h3, if_neg h4, if_neg h5]
    split
    · next hcontrol =>
      refine .inr (.inr ⟨hcontrol, ?_⟩)
      simp [twoHexDigits]
    · exact .inl ⟨String.toList_singleton c, hbackslash, hquote⟩

/-- Hexadecimal digits are told apart. -/
theorem digitChar_inj {m n : Nat} (hm : m < 16) (hn : n < 16)
    (h : Nat.digitChar m = Nat.digitChar n) : m = n := by
  have hall : ∀ m < 16, ∀ n < 16, Nat.digitChar m = Nat.digitChar n → m = n := by decide
  exact hall m hm n hn h

/-- **A character in a string is told by what is written for it**, whatever
follows. -/
theorem eq_of_escapeChar_append_eq {c d : Char} {r r' : List Char}
    (h : (escapeChar c).toList ++ r = (escapeChar d).toList ++ r') : c = d ∧ r = r' := by
  obtain ⟨hc, hne, -⟩ | ⟨e, hc, he, hread⟩ | ⟨hcontrol, hc⟩ := escapeChar_cases c <;>
    obtain ⟨hd, hne', -⟩ | ⟨e', hd, he', hread'⟩ | ⟨hcontrol', hd⟩ := escapeChar_cases d <;>
    rw [hc, hd] at h <;> simp only [List.cons_append, List.nil_append, List.cons.injEq] at h
  · exact h
  · exact absurd h.1 hne
  · exact absurd h.1 hne
  · exact absurd h.1.symm hne'
  · obtain ⟨-, rfl, hr⟩ := h
    exact ⟨Option.some.inj (hread.symm.trans hread'), hr⟩
  · exact absurd h.2.1 he
  · exact absurd h.1.symm hne'
  · exact absurd h.2.1.symm he'
  · obtain ⟨-, -, -, -, hhigh, hlow, hr⟩ := h
    have hhigh := digitChar_inj (Nat.mod_lt _ (by decide)) (Nat.mod_lt _ (by decide)) hhigh
    have hlow := digitChar_inj (Nat.mod_lt _ (by decide)) (Nat.mod_lt _ (by decide)) hlow
    exact ⟨Char.toNat_inj.mp (by omega), hr⟩

/-- No character in a string begins with a quotation mark. -/
theorem escapeChar_append_ne (c : Char) (r r' : List Char) :
    (escapeChar c).toList ++ r ≠ '\"' :: r' := by
  intro h
  obtain ⟨hc, -, hne⟩ | ⟨e, hc, -⟩ | ⟨-, hc⟩ := escapeChar_cases c <;>
    rw [hc] at h <;> simp only [List.cons_append, List.cons.injEq] at h
  · exact hne h.1
  · exact absurd h.1 (by decide)
  · exact absurd h.1 (by decide)

theorem toList_quote (s : String) :
    (quote s).toList = '\"' :: (s.toList.flatMap fun c => (escapeChar c).toList) ++ ['\"'] := by
  have hfold : ∀ (chars : List Char) (out : String),
      (chars.foldl (fun out c => out ++ escapeChar c) out).toList =
        out.toList ++ chars.flatMap fun c => (escapeChar c).toList := by
    intro chars
    induction chars with
    | nil => simp
    | cons c chars ih =>
      intro out
      rw [List.foldl_cons, ih, String.toList_append, List.flatMap_cons, List.append_assoc]
  simp [quote, hfold]

/-- The same for all characters of a string. -/
theorem eq_of_escaped_append_eq {cs ds r r' : List Char}
    (h : (cs.flatMap fun c => (escapeChar c).toList) ++ '\"' :: r =
      (ds.flatMap fun c => (escapeChar c).toList) ++ '\"' :: r') : cs = ds ∧ r = r' := by
  induction cs generalizing ds with
  | nil =>
    cases ds with
    | nil => exact ⟨rfl, (List.cons.inj h).2⟩
    | cons d ds =>
      rw [List.flatMap_cons, List.append_assoc] at h
      exact absurd h.symm (escapeChar_append_ne d _ _)
  | cons c cs ih =>
    rw [List.flatMap_cons, List.append_assoc] at h
    cases ds with
    | nil => exact absurd h (escapeChar_append_ne c _ _)
    | cons d ds =>
      rw [List.flatMap_cons, List.append_assoc] at h
      obtain ⟨rfl, hrest⟩ := eq_of_escapeChar_append_eq h
      obtain ⟨rfl, hr⟩ := ih hrest
      exact ⟨rfl, hr⟩

/-- **A string is told by its literal**, whatever follows. -/
theorem eq_of_quote_append_eq {s t : String} {r r' : List Char}
    (h : (quote s).toList ++ r = (quote t).toList ++ r') : s = t ∧ r = r' := by
  simp only [toList_quote, List.cons_append, List.append_assoc, List.cons.injEq, true_and] at h
  obtain ⟨hs, hr⟩ := eq_of_escaped_append_eq h
  exact ⟨String.toList_inj.mp hs, hr⟩

/-! ## Values -/

/-- Nothing but white space stands between the tokens. -/
def Spacing.Blank (f : Spacing) : Prop := ∀ level, ∀ c ∈ (f.gap level).toList, Reader.isGap c = true

theorem Spacing.none_blank : Spacing.none.Blank := fun _ => by simp [Spacing.none]

theorem Spacing.lines_blank : Spacing.lines.Blank := by
  intro level c hc
  simp only [Spacing.lines, String.toList_append, String.toList_ofList, List.mem_append,
    List.mem_replicate] at hc
  obtain hc | ⟨-, rfl⟩ := hc
  · obtain rfl := List.mem_singleton.mp hc
    decide
  · decide

section Enclosed

variable {α : Type} {text : α → String} {before after left right : String} {close : Char}
  {gap : List Char}

/-- White space is no bracket. -/
theorem gap_append_ne (hgap : ∀ c ∈ gap, Reader.isGap c = true) {c : Char}
    (hc : Reader.isGap c = false) {s r : List Char} (h : s ≠ c :: r) : gap ++ s ≠ c :: r := by
  cases gap with
  | nil => exact h
  | cons d gap =>
    rintro hcons
    obtain rfl := (List.cons.inj hcons).1
    exact absurd (hgap d List.mem_cons_self) (ne_true_of_eq_false hc)

/-- Nor does a number go on with it. -/
theorem stops_gap_append (hgap : ∀ c ∈ gap, Reader.isGap c = true) {s : List Char} (h : Stops s) :
    Stops (gap ++ s) := by
  cases gap with
  | nil => exact h
  | cons d gap =>
    refine stops_cons ?_
    have hd := hgap d List.mem_cons_self
    simp only [Reader.isGap, Bool.or_eq_true, decide_eq_true_iff] at hd
    rcases hd with ((rfl | rfl) | rfl) | rfl <;> decide

theorem toList_enclosed_cons (p : String) (ps : List String) :
    (enclosed left right before after (p :: ps)).toList =
      left.toList ++ (before.toList ++ ((',' :: before.toList).intercalate
        ((p :: ps).map String.toList) ++ (after.toList ++ right.toList))) := by
  simp [enclosed, String.toList_intercalate]

theorem exists_intercalate_cons (separator p : List Char) (ps : List (List Char)) :
    ∃ t, separator.intercalate (p :: ps) = p ++ t := by
  cases ps with
  | nil => exact ⟨[], by simp⟩
  | cons q qs => exact ⟨_, List.intercalate_cons_cons.trans (List.append_assoc ..)⟩

/-- **A container is told by its text**, if its parts are. -/
theorem enclosed_tells {xs : List α} (hclose : close = ']' ∨ close = '\x7d')
    (hright : right.toList = [close]) (hbefore : ∀ c ∈ before.toList, Reader.isGap c = true)
    (hafter : ∀ c ∈ after.toList, Reader.isGap c = true)
    (hopens : ∀ (x : α) (r r' : List Char), (text x).toList ++ r ≠ close :: r')
    (htells : ∀ x ∈ xs, Tells (fun y => (text y).toList) x) :
    Tells (fun ys : List α => (enclosed left right before after (ys.map text)).toList) xs := by
  have hgap : Reader.isGap close = false := by rcases hclose with rfl | rfl <;> decide
  have hnumeric : Reader.isNumeric close = false := by rcases hclose with rfl | rfl <;> decide
  have hcomma : close ≠ ',' := by rcases hclose with rfl | rfl <;> decide
  have hlast : ∀ r, Stops (after.toList ++ right.toList ++ r) := by
    intro r
    rw [hright, List.append_assoc]
    exact stops_gap_append hafter (stops_cons hnumeric)
  have hseparate : ∀ r r', ',' :: before.toList ++ r ≠ after.toList ++ right.toList ++ r' := by
    intro r r'
    rw [hright, List.append_assoc, List.cons_append]
    exact (gap_append_ne hafter (by decide) fun h => hcomma (List.cons.inj h).1).symm
  -- a first part does not look like the end
  have hempty : ∀ (x : α) (xs : List α) (r r' : List Char),
      (enclosed left right before after []).toList ++ r ≠
        (enclosed left right before after ((x :: xs).map text)).toList ++ r' := by
    intro x xs r r' h
    obtain ⟨t, ht⟩ := exists_intercalate_cons (',' :: before.toList) (text x).toList
      ((xs.map text).map String.toList)
    rw [List.map_cons, toList_enclosed_cons, List.map_cons, ht, enclosed, String.toList_append,
      hright] at h
    simp only [List.append_assoc, List.append_right_inj] at h
    exact gap_append_ne hbefore hgap (hopens x _ r) h.symm
  intro ys r r' hr hr' h
  cases xs with
  | nil =>
    cases ys with
    | nil => exact ⟨rfl, List.append_cancel_left h⟩
    | cons y ys => exact absurd h (hempty y ys r r')
  | cons x xs =>
    cases ys with
    | nil => exact absurd h.symm (hempty x xs r' r)
    | cons y ys =>
      have hmap : ∀ zs : List α,
          (zs.map text).map String.toList = zs.map fun z => (text z).toList :=
        fun zs => List.map_map
      simp only [List.map_cons, toList_enclosed_cons, List.append_assoc, List.append_right_inj,
        hmap] at h
      refine eq_of_intercalate_append_eq hseparate (fun r => stops_cons (by decide)) hlast htells ?_
      simpa only [List.map_cons, List.append_assoc] using h

end Enclosed

/-! ### One value -/

theorem printedItems_eq_map (f : Spacing) (level : Nat) (items : List Json) :
    printedItems f level items = items.map (printed f level) := by
  induction items with
  | nil => rfl
  | cons item rest ih => rw [printedItems, ih, List.map_cons]

theorem printedMembers_eq_map (f : Spacing) (level : Nat) (members : List (String × Json)) :
    printedMembers f level members =
      members.map fun e => quote e.1 ++ f.colon ++ printed f level e.2 := by
  induction members with
  | nil => rfl
  | cons e rest ih => rw [printedMembers, ih, List.map_cons]

/-- The kind of the value that begins with a character: a word, a string, a
container or a number. -/
def kindFrom (c : Char) : Nat :=
  if c = 'n' then 0 else if c = 't' then 1 else if c = 'f' then 2 else if c = '\"' then 3
  else if c = '[' then 4 else if c = '\x7b' then 5 else 6

/-- The same of a value. -/
def kindOf : Json → Nat
  | .null => 0
  | .boolean b => if b then 1 else 2
  | .string _ => 3
  | .array _ => 4
  | .object _ => 5
  | .number _ => 6

/-- **A value is of the kind that its text begins like.** -/
theorem exists_printed_cons (f : Spacing) (level : Nat) (v : Json) :
    ∃ c rest, (printed f level v).toList = c :: rest ∧ kindFrom c = v.kindOf ∧ c ≠ ']' := by
  have hcontainer : ∀ (left right before after : String) (c : Char) (parts : List String),
      left.toList = [c] → ∃ rest, (enclosed left right before after parts).toList = c :: rest := by
    intro left right before after c parts hleft
    cases parts <;> simp [enclosed, hleft]
  cases v with
  | null => exact ⟨'n', ['u', 'l', 'l'], by rw [printed]; rfl, rfl, by decide⟩
  | boolean b =>
    cases b with
    | true => exact ⟨'t', ['r', 'u', 'e'], by rw [printed]; rfl, rfl, by decide⟩
    | false => exact ⟨'f', ['a', 'l', 's', 'e'], by rw [printed]; rfl, rfl, by decide⟩
  | number n =>
    obtain ⟨c, rest, htext, hc⟩ := n.exists_text_cons
    refine ⟨c, rest, htext, ?_⟩
    rcases hc with rfl | hdigit
    · exact ⟨rfl, by decide⟩
    · have hne : ∀ d : Char, d.isDigit = false → c ≠ d := by
        rintro d hd rfl
        exact absurd hdigit (ne_true_of_eq_false hd)
      refine ⟨?_, hne _ (by decide)⟩
      rw [kindFrom, if_neg (hne _ (by decide)), if_neg (hne _ (by decide)),
        if_neg (hne _ (by decide)), if_neg (hne _ (by decide)), if_neg (hne _ (by decide)),
        if_neg (hne _ (by decide))]
      rfl
  | string s => exact ⟨_, _, toList_quote s, rfl, by decide⟩
  | array items =>
    obtain ⟨rest, h⟩ := hcontainer "[" "]" (f.gap (level + 1)) (f.gap level) '['
      (printedItems f (level + 1) items) rfl
    exact ⟨_, _, h, rfl, by decide⟩
  | object members =>
    obtain ⟨rest, h⟩ := hcontainer "\x7b" "\x7d" (f.gap (level + 1)) (f.gap level) '\x7b'
      (printedMembers f (level + 1) members) rfl
    exact ⟨_, _, h, rfl, by decide⟩

/-- Two values of one form: words are equal, and others built alike. -/
def SameForm : Json → Json → Prop
  | .null, .null => True
  | .boolean a, .boolean b => a = b
  | .number _, .number _ => True
  | .string _, .string _ => True
  | .array _, .array _ => True
  | .object _, .object _ => True
  | _, _ => False

theorem sameForm_of_kindOf_eq {v w : Json} (h : v.kindOf = w.kindOf) : SameForm v w := by
  cases v with
  | boolean a =>
    cases w with
    | boolean b => cases a <;> cases b <;> simp [kindOf, SameForm] at h ⊢
    | _ => cases a <;> simp [kindOf] at h
  | _ =>
    cases w with
    | boolean b => cases b <;> simp [kindOf] at h
    | _ => first | trivial | simp [kindOf] at h

/-- **Values whose texts begin alike are of one form.** -/
theorem sameForm_of_append_eq {f : Spacing} {level : Nat} {v w : Json} {r r' : List Char}
    (h : (printed f level v).toList ++ r = (printed f level w).toList ++ r') : SameForm v w := by
  obtain ⟨c, rest, hv, hkind, -⟩ := exists_printed_cons f level v
  obtain ⟨d, rest', hw, hkind', -⟩ := exists_printed_cons f level w
  rw [hv, hw] at h
  refine sameForm_of_kindOf_eq ?_
  rw [← hkind, ← hkind', (List.cons.inj h).1]

/-- A member is told by its text, once its value is. -/
theorem member_tells {f : Spacing} {level : Nat} {e : String × Json}
    (h : Tells (fun v => (printed f level v).toList) e.2) :
    Tells (fun e : String × Json => (quote e.1 ++ f.colon ++ printed f level e.2).toList) e := by
  intro e' r r' hr hr' htext
  simp only [String.toList_append, List.append_assoc] at htext
  obtain ⟨hkey, hrest⟩ := eq_of_quote_append_eq htext
  obtain ⟨hvalue, hr⟩ := h hr hr' (List.append_cancel_left hrest)
  exact ⟨Prod.ext hkey hvalue, hr⟩

/-- **A value is told by its text**, at any level and whatever follows. -/
theorem printed_tells {f : Spacing} (hf : f.Blank) (v : Json) (level : Nat) :
    Tells (fun w => (printed f level w).toList) v := by
  induction v using Json.induction generalizing level with
  | null =>
    intro w r r' _ _ h
    have hform := sameForm_of_append_eq h
    cases w with
    | null => exact ⟨rfl, List.append_cancel_left h⟩
    | _ => exact False.elim hform
  | boolean a =>
    intro w r r' _ _ h
    have hform := sameForm_of_append_eq h
    cases w with
    | boolean b =>
      obtain rfl : a = b := hform
      exact ⟨rfl, List.append_cancel_left h⟩
    | _ => exact False.elim hform
  | number m =>
    intro w r r' hr hr' h
    have hform := sameForm_of_append_eq h
    cases w with
    | number n =>
      obtain ⟨rfl, hr⟩ := m.tells_text hr hr' h
      exact ⟨rfl, hr⟩
    | _ => exact False.elim hform
  | string s =>
    intro w r r' _ _ h
    have hform := sameForm_of_append_eq h
    cases w with
    | string t =>
      obtain ⟨rfl, hr⟩ := eq_of_quote_append_eq h
      exact ⟨rfl, hr⟩
    | _ => exact False.elim hform
  | array items ih =>
    intro w r r' hr hr' h
    have hform := sameForm_of_append_eq h
    have hopens : ∀ (v : Json) (r r' : List Char),
        (printed f (level + 1) v).toList ++ r ≠ ']' :: r' := by
      intro v r r' h
      obtain ⟨c, rest, hv, -, hc⟩ := exists_printed_cons f (level + 1) v
      rw [hv] at h
      exact hc (List.cons.inj h).1
    cases w with
    | array others =>
      simp only [printed, printedItems_eq_map] at h
      obtain ⟨rfl, hr⟩ := enclosed_tells (.inl rfl) rfl (hf _) (hf _) hopens
        (fun v hv => ih v hv (level + 1)) hr hr' h
      exact ⟨rfl, hr⟩
    | _ => exact False.elim hform
  | object members ih =>
    intro w r r' hr hr' h
    have hform := sameForm_of_append_eq h
    have hopens : ∀ (e : String × Json) (r r' : List Char),
        (quote e.1 ++ f.colon ++ printed f (level + 1) e.2).toList ++ r ≠ '\x7d' :: r' := by
      intro e r r' h
      simp [toList_quote] at h
    cases w with
    | object others =>
      simp only [printed, printedMembers_eq_map] at h
      obtain ⟨rfl, hr⟩ := enclosed_tells (.inr rfl) rfl (hf _) (hf _) hopens
        (fun e he => member_tells (ih e he (level + 1))) hr hr' h
      exact ⟨rfl, hr⟩
    | _ => exact False.elim hform

theorem printed_inj {f : Spacing} (hf : f.Blank) {level : Nat} {v w : Json} :
    printed f level v = printed f level w ↔ v = w := by
  refine ⟨fun h => ?_, congrArg _⟩
  have htext := congrArg (fun s => s.toList ++ []) h
  exact (printed_tells hf v level stops_nil stops_nil htext).1

/-- **A value is told by its text without space.** -/
theorem compact_inj {v w : Json} : v.compact = w.compact ↔ v = w :=
  printed_inj Spacing.none_blank

/-- **And by its text over several lines.** -/
theorem pretty_inj {v w : Json} : v.pretty = w.pretty ↔ v = w :=
  printed_inj Spacing.lines_blank

end ServiceContracts.Json
